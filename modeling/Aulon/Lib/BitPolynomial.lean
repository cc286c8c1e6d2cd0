import Mathlib.Algebra.BigOperators.Ring.Finset
import Mathlib.Algebra.CharP.Two
import Mathlib.Data.Nat.Bitwise
import Mathlib.Tactic

/-!
# Polynomials over two elements as bit masks

A polynomial over the field of two elements is a natural number whose bit `j` is the coefficient
of `x ^ j`. Masks are evaluated at an element of a ring of characteristic two; the arithmetic
modulo a fixed polynomial is done on the masks, by shifting and adding, and agrees with the
arithmetic of the ring at every root of that polynomial.

* `eval n t a` — the value at `t` of the mask `a`, of degree below `n`.
* `Modulus` — a polynomial of known degree; `Modulus.IsRoot` — the elements it annihilates.
* `eval_mulMod`, `eval_powMod` — products and powers modulo a polynomial, at its roots.
-/

namespace Aulon.Lib.BitPolynomial

/-! ## Evaluation -/

section Evaluation

variable {R : Type} [Ring R]

/-- The value of a mask at an element of a ring, up to the degree `n`. -/
def eval (n : ℕ) (t : R) (a : ℕ) : R :=
  ∑ j ∈ Finset.range n, if a.testBit j then t ^ j else 0

/-- The zero polynomial has the value zero. -/
lemma eval_zero (n : ℕ) (t : R) : eval n t 0 = 0 := by
  simp [eval]

/-- The lowest coefficient, and the rest one degree lower. -/
lemma eval_succ (n : ℕ) (t : R) (a : ℕ) :
    eval (n + 1) t a = (if a.testBit 0 then 1 else 0) + eval n t (a / 2) * t := by
  have hrest : ∀ j, (if a.testBit (j + 1) then t ^ (j + 1) else 0) =
      (if (a / 2).testBit j then t ^ j else 0) * t := by
    intro j
    rw [Nat.testBit_succ, ite_mul, zero_mul, pow_succ]
  rw [eval, Finset.sum_range_succ', add_comm, pow_zero]
  simp only [hrest, eval, Finset.sum_mul]

/-- The constant one has the value one. -/
lemma eval_one {n : ℕ} (hn : 0 < n) (t : R) : eval n t 1 = 1 := by
  obtain ⟨m, rfl⟩ := Nat.exists_eq_succ_of_ne_zero hn.ne'
  rw [Nat.succ_eq_add_one, eval_succ, Nat.testBit_one_zero, if_pos rfl]
  simp [eval_zero]

/-- The mask of `x`. -/
lemma eval_two {n : ℕ} (hn : 1 < n) (t : R) : eval n t 2 = t := by
  obtain ⟨m, rfl⟩ := Nat.exists_eq_succ_of_ne_zero (Nat.zero_lt_of_lt hn).ne'
  rw [Nat.succ_eq_add_one, eval_succ, Nat.div_self two_pos, eval_one (by omega), one_mul]
  simp

/-- A shift multiplies by `x`. -/
lemma eval_two_mul (n : ℕ) (t : R) (a : ℕ) : eval (n + 1) t (2 * a) = t * eval n t a := by
  rw [eval, Finset.sum_range_succ', eval, Finset.mul_sum]
  have hzero : (2 * a).testBit 0 = false := by simp
  have hshift : ∀ j, (if (2 * a).testBit (j + 1) then t ^ (j + 1) else 0) =
      t * if a.testBit j then t ^ j else 0 := by
    intro j
    rw [Nat.testBit_succ, Nat.mul_div_cancel_left a two_pos, mul_ite, mul_zero, pow_succ']
  simp only [hzero, hshift, Bool.false_eq_true, if_false, add_zero]

/-- The top coefficient of a mask that does not reach it is zero. -/
lemma eval_succ_of_lt {n a : ℕ} (ha : a < 2 ^ n) (t : R) : eval (n + 1) t a = eval n t a := by
  rw [eval, Finset.sum_range_succ, Nat.testBit_lt_two_pow ha]
  simp [eval]

/-- The sum of two polynomials is the bitwise difference of their masks. -/
lemma eval_xor [CharP R 2] (n : ℕ) (t : R) (a b : ℕ) :
    eval n t (a ^^^ b) = eval n t a + eval n t b := by
  rw [eval, eval, eval, ← Finset.sum_add_distrib]
  refine Finset.sum_congr rfl fun j _ => ?_
  rw [Nat.testBit_xor]
  cases a.testBit j <;> cases b.testBit j <;> simp [CharTwo.add_self_eq_zero]

end Evaluation

/-! ## Arithmetic modulo a polynomial -/

/-- A mask without its top coefficient has a lower degree. -/
lemma lt_two_pow_of_testBit_eq_false {n m : ℕ} (hm : m < 2 ^ (n + 1))
    (htop : m.testBit n = false) : m < 2 ^ n := by
  refine Nat.lt_pow_two_of_testBit m fun i hi => ?_
  rcases eq_or_lt_of_le hi with rfl | hi
  · exact htop
  · exact Nat.testBit_lt_two_pow (hm.trans_le (Nat.pow_le_pow_right two_pos hi))

/-- Two masks with the same top coefficient differ by one of lower degree. -/
lemma xor_lt_two_pow_of_testBit {n a b : ℕ} (ha : a < 2 ^ (n + 1)) (hb : b < 2 ^ (n + 1))
    (htop : a.testBit n = b.testBit n) : a ^^^ b < 2 ^ n := by
  refine lt_two_pow_of_testBit_eq_false (Nat.xor_lt_two_pow ha hb) ?_
  rw [Nat.testBit_xor, htop, Bool.xor_self]

/-- A polynomial of known degree. -/
structure Modulus where
  degree : ℕ
  mask : ℕ
  /-- The coefficient of the degree is one. -/
  monic : mask.testBit degree = true
  lt : mask < 2 ^ (degree + 1)

namespace Modulus

variable (P : Modulus)

/-- Multiply by `x`: shift, and subtract the modulus if the degree is reached. -/
def timesX (a : ℕ) : ℕ := if (2 * a).testBit P.degree then (2 * a) ^^^ P.mask else 2 * a

/-- The product of `a` and `b`, by the `k` lowest coefficients of `a`. -/
def mulMod : ℕ → ℕ → ℕ → ℕ
  | 0, _, _ => 0
  | k + 1, a, b => (if a.testBit 0 then b else 0) ^^^ mulMod k (a / 2) (P.timesX b)

/-- The power of `b` with exponent `e`, by the `k` lowest bits of `e`. -/
def powMod : ℕ → ℕ → ℕ → ℕ
  | 0, _, _ => 1
  | k + 1, b, e =>
      if e.testBit 0 then P.mulMod P.degree b (powMod k (P.mulMod P.degree b b) (e / 2))
      else powMod k (P.mulMod P.degree b b) (e / 2)

variable {P}

/-- Multiplication by `X` stays below the degree. -/
lemma timesX_lt {a : ℕ} (ha : a < 2 ^ P.degree) : P.timesX a < 2 ^ P.degree := by
  have hshift : 2 * a < 2 ^ (P.degree + 1) := by rw [pow_succ]; omega
  unfold timesX
  split_ifs with htop
  · exact xor_lt_two_pow_of_testBit hshift P.lt (htop.trans P.monic.symm)
  · exact lt_two_pow_of_testBit_eq_false hshift (by simpa using htop)

/-- So does a product, if its second factor does. -/
lemma mulMod_lt {k a b : ℕ} (hb : b < 2 ^ P.degree) : P.mulMod k a b < 2 ^ P.degree := by
  induction k generalizing a b with
  | zero => exact Nat.two_pow_pos P.degree
  | succ k ih =>
      refine Nat.xor_lt_two_pow ?_ (ih (timesX_lt hb))
      split_ifs
      · exact hb
      · exact Nat.two_pow_pos P.degree

/-- So does a power, if its base does. -/
lemma powMod_lt {k b e : ℕ} (hP : 0 < P.degree) (hb : b < 2 ^ P.degree) :
    P.powMod k b e < 2 ^ P.degree := by
  induction k generalizing b e with
  | zero => exact Nat.one_lt_two_pow hP.ne'
  | succ k ih =>
      rw [powMod]
      split_ifs
      · exact mulMod_lt (ih (mulMod_lt hb))
      · exact ih (mulMod_lt hb)

end Modulus

/-! ## At a root the two arithmetics agree -/

section Root

variable {R : Type} [Ring R] [CharP R 2] {P : Modulus} {t : R}

/-- The polynomial annihilates `t`. -/
def Modulus.IsRoot (P : Modulus) (t : R) : Prop := eval (P.degree + 1) t P.mask = 0

/-- At a root of the modulus, `timesX` multiplies by the root. -/
lemma eval_timesX (ht : P.IsRoot t) {a : ℕ} (ha : a < 2 ^ P.degree) :
    eval P.degree t (P.timesX a) = t * eval P.degree t a := by
  rw [← eval_succ_of_lt (Modulus.timesX_lt ha), ← eval_two_mul, Modulus.timesX]
  split_ifs
  · rw [eval_xor, show eval (P.degree + 1) t P.mask = 0 from ht, add_zero]
  · rfl

/-- At a root of the modulus, `mulMod` multiplies values. -/
lemma eval_mulMod (ht : P.IsRoot t) {k a b : ℕ} (hb : b < 2 ^ P.degree) :
    eval P.degree t (P.mulMod k a b) = eval k t a * eval P.degree t b := by
  induction k generalizing a b with
  | zero => simp [Modulus.mulMod, eval]
  | succ k ih =>
      have hlow : eval P.degree t (if a.testBit 0 then b else 0) =
          (if a.testBit 0 then 1 else 0) * eval P.degree t b := by
        split_ifs
        · rw [one_mul]
        · rw [eval_zero, zero_mul]
      rw [Modulus.mulMod, eval_xor, ih (Modulus.timesX_lt hb), eval_timesX ht hb, eval_succ,
        add_mul, hlow, mul_assoc]

/-- At a root of the modulus, `powMod` raises values to a power. -/
lemma eval_powMod (ht : P.IsRoot t) (hP : 0 < P.degree) {k b e : ℕ} (hb : b < 2 ^ P.degree)
    (he : e < 2 ^ k) : eval P.degree t (P.powMod k b e) = eval P.degree t b ^ e := by
  induction k generalizing b e with
  | zero =>
      obtain rfl : e = 0 := by simpa using he
      rw [Modulus.powMod, eval_one hP, pow_zero]
  | succ k ih =>
      have hhalf : e / 2 < 2 ^ k := by rw [pow_succ] at he; omega
      have hrest := ih (Modulus.mulMod_lt (k := P.degree) (a := b) hb) hhalf
      rw [eval_mulMod ht hb, ← pow_two, ← pow_mul] at hrest
      have hsplit := Nat.div_add_mod e 2
      rw [Modulus.powMod, Nat.testBit_zero]
      rcases Nat.mod_two_eq_zero_or_one e with hbit | hbit
      · rw [hbit, add_zero] at hsplit
        rw [hbit, if_neg (by decide), hrest, hsplit]
      · rw [hbit] at hsplit
        rw [hbit, if_pos (by decide), eval_mulMod ht (Modulus.powMod_lt hP (Modulus.mulMod_lt hb)),
          hrest, ← pow_succ', hsplit]

/-- A power of `x` that is one modulo the polynomial is one at its roots. -/
lemma pow_eq_one_of_powMod (ht : P.IsRoot t) (hP : 1 < P.degree) {k e : ℕ} (he : e < 2 ^ k)
    (h : P.powMod k 2 e = 1) : t ^ e = 1 := by
  have hx : 2 < 2 ^ P.degree := lt_of_lt_of_le (by decide) (Nat.pow_le_pow_right two_pos hP)
  have heval := eval_powMod ht (by omega) hx he
  rwa [h, eval_one (by omega), eval_two hP, eq_comm] at heval

/-- A mask that inverts `x ^ e + 1` modulo the polynomial inverts `t ^ e + 1` at its roots. -/
lemma mul_pow_add_one_of_mulMod (ht : P.IsRoot t) (hP : 1 < P.degree) {k e u : ℕ} (he : e < 2 ^ k)
    (h : P.mulMod P.degree u (P.powMod k 2 e ^^^ 1) = 1) :
    eval P.degree t u * (t ^ e + 1) = 1 := by
  have hx : 2 < 2 ^ P.degree := lt_of_lt_of_le (by decide) (Nat.pow_le_pow_right two_pos hP)
  have hone : 1 < 2 ^ P.degree := Nat.one_lt_two_pow (by omega)
  have hlt : P.powMod k 2 e ^^^ 1 < 2 ^ P.degree :=
    Nat.xor_lt_two_pow (Modulus.powMod_lt (by omega) hx) hone
  have heval := eval_mulMod ht (k := P.degree) (a := u) hlt
  rwa [h, eval_xor, eval_powMod ht (by omega) hx he, eval_two hP, eval_one (by omega),
    eq_comm] at heval

end Root

end Aulon.Lib.BitPolynomial
