import Aulon.Lib.Bytes
import Mathlib.Data.Nat.Digits.Lemmas
import Mathlib.Tactic

/-!
# Decimal numerals

The canonical decimal numeral of a natural number as ASCII bytes, and the value of a byte string
read as a numeral.

* `decimal n` — the digits of `n`, most significant first, without leading zeros (`0` is `"0"`).
* `value t` — the number a string of digits denotes; leading zeros are allowed.
* `value_decimal` — the two are inverse.
* `length_decimal_value_le` — the canonical numeral is the shortest one of its value.
* `eq_zero_of_decimal_eq_cons` — it has no leading zero; `value_replicate_append` — others may.
-/

namespace Aulon.Lib

/-- Is the byte one of `0` to `9`? -/
def isAsciiDigit (b : UInt8) : Bool := 48 ≤ b && b ≤ 57

/-- The byte of a digit. -/
def digitByte (d : ℕ) : UInt8 := 48 + UInt8.ofNat d

/-- The number a digit stands for. -/
def digitVal (b : UInt8) : ℕ := (b - 48).toNat

/-- The byte of a digit is a digit. -/
lemma isAsciiDigit_digitByte {d : ℕ} (h : d < 10) : isAsciiDigit (digitByte d) = true := by
  interval_cases d <;> rfl

/-- The byte of a digit has its value. -/
lemma digitVal_digitByte {d : ℕ} (h : d < 10) : digitVal (digitByte d) = d := by
  interval_cases d <;> rfl

/-- The value of a string of digits read after a prefix of value `n`. -/
def valueFrom (n : ℕ) (t : Bytes) : ℕ := t.foldl (fun n b => n * 10 + digitVal b) n

/-- The number a string of digits denotes. -/
def value (t : Bytes) : ℕ := valueFrom 0 t

/-- No digits leave the value that was read before. -/
@[simp] lemma valueFrom_nil (n : ℕ) : valueFrom n [] = n := rfl

/-- One digit more shifts the value and adds its own. -/
@[simp] lemma valueFrom_cons (n : ℕ) (b : UInt8) (t : Bytes) :
    valueFrom n (b :: t) = valueFrom (n * 10 + digitVal b) t := rfl

/-- The value is read digit by digit, from left to right. -/
lemma valueFrom_append (n : ℕ) (s t : Bytes) :
    valueFrom n (s ++ t) = valueFrom (valueFrom n s) t := by
  simp [valueFrom]

/-- Reading more digits never makes the number smaller. -/
lemma le_valueFrom (n : ℕ) (t : Bytes) : n ≤ valueFrom n t := by
  induction t generalizing n with
  | nil => exact le_rfl
  | cons b t ih =>
      rw [valueFrom_cons]
      have := ih (n * 10 + digitVal b)
      omega

/-- The canonical decimal numeral of a natural number. -/
def decimal (n : ℕ) : Bytes :=
  if n = 0 then [digitByte 0] else ((Nat.digits 10 n).map digitByte).reverse

/-- The numeral with the given digits, least significant first, has the value of the digits. -/
lemma value_reverse_map (ds : List ℕ) (h : ∀ d ∈ ds, d < 10) :
    value (ds.map digitByte).reverse = Nat.ofDigits 10 ds := by
  induction ds with
  | nil => rfl
  | cons d ds ih =>
      have hd : d < 10 := h d List.mem_cons_self
      have hds : ∀ e ∈ ds, e < 10 := fun e he => h e (List.mem_cons_of_mem d he)
      rw [List.map_cons, List.reverse_cons, value, valueFrom_append]
      have hih : valueFrom 0 (ds.map digitByte).reverse = Nat.ofDigits 10 ds := ih hds
      rw [hih, valueFrom_cons, valueFrom_nil, digitVal_digitByte hd, Nat.ofDigits_cons]
      ring

/-- Reading the canonical numeral of `n` gives `n`. -/
theorem value_decimal (n : ℕ) : value (decimal n) = n := by
  unfold decimal
  split_ifs with h
  · subst h; rfl
  · rw [value_reverse_map _ fun d hd => Nat.digits_lt_base (by decide) hd]
    exact Nat.ofDigits_digits 10 n

/-- Every number has a digit. -/
lemma decimal_ne_nil (n : ℕ) : decimal n ≠ [] := by
  unfold decimal
  split_ifs with h
  · simp
  · simp [Nat.digits_eq_nil_iff_eq_zero, h]

/-- Only the numeral of zero starts with a zero, and it is that zero alone. -/
lemma eq_zero_of_decimal_eq_cons {n : ℕ} {rest : Bytes} (h : decimal n = digitByte 0 :: rest) :
    n = 0 ∧ rest = [] := by
  unfold decimal at h
  split_ifs at h with hn
  · exact ⟨hn, (List.cons.inj h).2.symm⟩
  · exfalso
    have hne : Nat.digits 10 n ≠ [] := Nat.digits_ne_nil_iff_ne_zero.mpr hn
    have hlast : (Nat.digits 10 n).getLast hne < 10 :=
      Nat.digits_lt_base (by decide) (List.getLast_mem hne)
    rw [← List.dropLast_append_getLast hne, List.map_append, List.reverse_append] at h
    have hzero : digitByte ((Nat.digits 10 n).getLast hne) = digitByte 0 := (List.cons.inj h).1
    have hval := congrArg digitVal hzero
    rw [digitVal_digitByte hlast, digitVal_digitByte (by decide)] at hval
    exact Nat.getLast_digit_ne_zero 10 hn hval

/-- Leading zeros do not change the value. -/
lemma value_replicate_append (k : ℕ) (t : Bytes) :
    value (List.replicate k (digitByte 0) ++ t) = value t := by
  induction k with
  | zero => rfl
  | succ k ih => exact ih

/-- Every byte of a canonical numeral is a digit. -/
lemma isAsciiDigit_of_mem_decimal {n : ℕ} {b : UInt8} (hb : b ∈ decimal n) :
    isAsciiDigit b = true := by
  unfold decimal at hb
  split_ifs at hb with h
  · rw [List.mem_singleton.mp hb]; rfl
  · simp only [List.mem_reverse, List.mem_map] at hb
    obtain ⟨d, hd, rfl⟩ := hb
    exact isAsciiDigit_digitByte (Nat.digits_lt_base (by decide) hd)

/-- A digit is less than ten. -/
lemma digitVal_lt {b : UInt8} (hb : isAsciiDigit b = true) : digitVal b < 10 := by
  simp only [isAsciiDigit, Bool.and_eq_true, decide_eq_true_eq, UInt8.le_iff_toNat_le] at hb
  have h48 : (48 : UInt8).toNat = 48 := rfl
  have h57 : (57 : UInt8).toNat = 57 := rfl
  rw [digitVal, UInt8.toNat_sub_of_le _ _ (UInt8.le_iff_toNat_le.mpr hb.1)]
  omega

/-- A string of digits denotes a number with at most that many digits. -/
lemma valueFrom_lt {t : Bytes} (ht : ∀ b ∈ t, isAsciiDigit b = true) (n : ℕ) :
    valueFrom n t < (n + 1) * 10 ^ t.length := by
  induction t generalizing n with
  | nil => simp
  | cons b t ih =>
      have hb := digitVal_lt (ht b List.mem_cons_self)
      have hlt := ih (fun x hx => ht x (List.mem_cons_of_mem b hx)) (n * 10 + digitVal b)
      rw [valueFrom_cons, List.length_cons, pow_succ]
      calc valueFrom (n * 10 + digitVal b) t < (n * 10 + digitVal b + 1) * 10 ^ t.length := hlt
        _ ≤ (n + 1) * 10 * 10 ^ t.length := Nat.mul_le_mul_right _ (by omega)
        _ = (n + 1) * (10 ^ t.length * 10) := by ring

/-- No numeral is shorter than the canonical one of its value. -/
lemma length_decimal_value_le {t : Bytes} (hne : t ≠ []) (ht : ∀ b ∈ t, isAsciiDigit b = true) :
    (decimal (value t)).length ≤ t.length := by
  have hlt : value t < 10 ^ t.length := by simpa [value] using valueFrom_lt ht 0
  have hpos : 0 < t.length := List.length_pos_iff.mpr hne
  unfold decimal
  split_ifs with h
  · exact hpos
  · rw [List.length_reverse, List.length_map]
    exact (Nat.digits_length_le_iff (by decide) _).mpr hlt

end Aulon.Lib
