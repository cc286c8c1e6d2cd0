import Mathlib.Data.Nat.Bitwise
import Mathlib.Algebra.Order.Ring.Nat
import Mathlib.Data.Nat.Log

/-!
# 64-bit machine words on `ℕ`

Unsigned words are natural numbers below `wordMod = 2 ^ 64`; the operations a systems program
uses on them are spelled out with their overflow behaviour, so that every side condition is a
linear fact for `omega`.

* `checkedAdd`, `checkedMul` — `none` on overflow.
* `saturatingAdd` — the greatest word on overflow.
* `wrappingAdd`, `wrappingSub` — reduced modulo `wordMod`.
* `signed` — the two's complement reading of a word.
* `nextPowerOfTwo` — the least power of two that is not smaller.
-/

namespace Aulon.Lib

/-- The number of values of a 64-bit word. -/
def wordMod : ℕ := 2 ^ 64

/-- Half of `wordMod`: the first word that reads as a negative number. -/
def signBit : ℕ := 2 ^ 63

/-- The number of words, as a numeral. -/
lemma wordMod_eq : wordMod = 18446744073709551616 := rfl

/-- The sign bit, as a numeral. -/
lemma signBit_eq : signBit = 9223372036854775808 := rfl

/-- The sign bit is one half of the range. -/
lemma signBit_add_signBit : signBit + signBit = wordMod := rfl

/-- Addition that reports overflow. -/
def checkedAdd (a b : ℕ) : Option ℕ := if a + b < wordMod then some (a + b) else none

/-- Multiplication that reports overflow. -/
def checkedMul (a b : ℕ) : Option ℕ := if a * b < wordMod then some (a * b) else none

/-- Addition that stops at the greatest word. -/
def saturatingAdd (a b : ℕ) : ℕ := min (a + b) (wordMod - 1)

/-- Addition modulo the word size. -/
def wrappingAdd (a b : ℕ) : ℕ := (a + b) % wordMod

/-- Subtraction modulo the word size. -/
def wrappingSub (a b : ℕ) : ℕ := (a + (wordMod - b % wordMod)) % wordMod

/-- The two's complement reading of a word. -/
def signed (a : ℕ) : ℤ := if a < signBit then (a : ℤ) else (a : ℤ) - (wordMod : ℤ)

/-- The least power of two that is not below `n`. -/
def nextPowerOfTwo (n : ℕ) : ℕ := 2 ^ Nat.clog 2 n

/-- A checked addition succeeds if it does not overflow, with the sum. -/
lemma checkedAdd_eq_some {a b c : ℕ} :
    checkedAdd a b = some c ↔ a + b < wordMod ∧ c = a + b := by
  unfold checkedAdd
  by_cases h : a + b < wordMod
  · simp [h, eq_comm]
  · simp [h]

/-- A sum below the range. -/
lemma checkedAdd_of_lt {a b : ℕ} (h : a + b < wordMod) : checkedAdd a b = some (a + b) := by
  simp [checkedAdd, h]

/-- A product below the range. -/
lemma checkedMul_of_lt {a b : ℕ} (h : a * b < wordMod) : checkedMul a b = some (a * b) := by
  simp [checkedMul, h]

/-- A sum below the range does not wrap. -/
lemma wrappingAdd_of_lt {a b : ℕ} (h : a + b < wordMod) : wrappingAdd a b = a + b :=
  Nat.mod_eq_of_lt h

/-- A wrapped sum is a word. -/
lemma wrappingAdd_lt (a b : ℕ) : wrappingAdd a b < wordMod :=
  Nat.mod_lt _ (by decide)

/-- A counter that wraps is a counter that does not, reduced. -/
lemma wrappingAdd_mod (a b : ℕ) : wrappingAdd (a % wordMod) b = (a + b) % wordMod :=
  Nat.mod_add_mod a wordMod b

/-- A wrapped difference depends on the words alone. -/
lemma wrappingSub_mod (a b : ℕ) :
    wrappingSub (a % wordMod) (b % wordMod) = wrappingSub a b := by
  rw [wrappingSub, wrappingSub, Nat.mod_mod, Nat.mod_add_mod]

/-- The wrapping successor is injective on words. -/
lemma wrappingAdd_one_inj {a b : ℕ} (ha : a < wordMod) (hb : b < wordMod)
    (h : wrappingAdd a 1 = wrappingAdd b 1) : a = b := by
  simp only [wrappingAdd, wordMod_eq] at ha hb h
  omega

/-- The signed difference of two words at distance below `signBit` is their difference. -/
lemma signed_wrappingSub {a b : ℕ} (hab : a < b + signBit) (hba : b ≤ a + signBit) :
    signed (wrappingSub a b) = (a : ℤ) - (b : ℤ) := by
  simp only [signed, wrappingSub, wordMod_eq, signBit_eq] at hab hba ⊢
  split_ifs <;> omega

/-- Two words are equal exactly if their signed difference is zero. -/
lemma signed_wrappingSub_eq_zero {a b : ℕ} (ha : a < wordMod) (hb : b < wordMod) :
    signed (wrappingSub a b) = 0 ↔ a = b := by
  simp only [signed, wrappingSub, wordMod_eq, signBit_eq] at ha hb ⊢
  split_ifs <;> omega

/-- The next power of two is not below the number. -/
lemma le_nextPowerOfTwo (n : ℕ) : n ≤ nextPowerOfTwo n := Nat.le_pow_clog one_lt_two n

/-- It is the least that is not. -/
lemma nextPowerOfTwo_le {n k : ℕ} (h : n ≤ 2 ^ k) : nextPowerOfTwo n ≤ 2 ^ k :=
  Nat.pow_le_pow_right two_pos (Nat.clog_le_of_le_pow h)

/-- Between two powers of two it is the upper one. -/
lemma nextPowerOfTwo_eq {n k : ℕ} (hlow : 2 ^ k < n) (hhigh : n ≤ 2 ^ (k + 1)) :
    nextPowerOfTwo n = 2 ^ (k + 1) :=
  (nextPowerOfTwo_le hhigh).antisymm
    (Nat.pow_le_pow_right two_pos ((Nat.lt_clog_iff_pow_lt one_lt_two).mpr hlow))

/-- Up to the sign bit, laps of a power of two fit the words exactly. -/
lemma nextPowerOfTwo_dvd {n : ℕ} (h : n ≤ 2 ^ 63) : nextPowerOfTwo n ∣ wordMod :=
  pow_dvd_pow 2 ((Nat.clog_le_of_le_pow h).trans (by decide))

/-- Masking with a power of two less one is the remainder. -/
lemma and_nextPowerOfTwo_sub_one (t n : ℕ) : t &&& (nextPowerOfTwo n - 1) = t % nextPowerOfTwo n :=
  Nat.and_two_pow_sub_one_eq_mod t _

end Aulon.Lib
