import Aulon.Lib.BitPolynomial
import Mathlib.Algebra.Ring.Hom.Defs
import Mathlib.Data.Set.Card
import Mathlib.Dynamics.PeriodicPts.Lemmas

/-!
# Generators that are linear over two elements

A generator on 64-bit words built from shifts and exclusive ors is an additive map of the words
under exclusive or. If a polynomial of degree 64 annihilates it, and the powers of `x` modulo that
polynomial have order `2 ^ 64 - 1`, then from any word but zero the generator runs through all
words but zero.

* `minimalPeriod_eq_of_forall_prime`, `exists_iterate_eq` — periods and orbits of any map.
* `XorWord` — words as a group under exclusive or.
* `PeriodCertificate` — what has to be computed: the polynomial, and for every prime factor of the
  period an inverse that excludes the period divided by that prime.
* `PeriodCertificate.exists_iterate` — the orbit of any word but zero.
-/

namespace Aulon.Lib

/-! ## Periods and orbits -/

section Orbit

open Function

variable {α : Type} {f : α → α} {x : α}

/-- A period is the least one if no quotient of it by a prime is a period. -/
lemma minimalPeriod_eq_of_forall_prime {N : ℕ} (hx : f^[N] x = x)
    (hprime : ∀ p, p.Prime → p ∣ N → f^[N / p] x ≠ x) : minimalPeriod f x = N := by
  have hperiodic : IsPeriodicPt f N x := hx
  obtain ⟨c, hc⟩ := hperiodic.minimalPeriod_dvd
  by_cases hone : c = 1
  · rw [hc, hone, mul_one]
  · exfalso
    obtain ⟨p, hp, d, rfl⟩ := Nat.exists_prime_and_dvd hone
    have hdiv : N / p = minimalPeriod f x * d := by
      rw [hc, mul_left_comm, Nat.mul_div_cancel_left _ hp.pos]
    refine hprime p hp ⟨minimalPeriod f x * d, by rw [hc, mul_left_comm]⟩ ?_
    rw [hdiv]
    exact (isPeriodicPt_minimalPeriod f x).mul_const d

/-- An orbit as long as the set it stays in is the whole set. -/
lemma exists_iterate_eq {S : Set α} (hS : S.Finite) (hmaps : ∀ y ∈ S, f y ∈ S) (hx : x ∈ S)
    (hperiod : S.ncard ≤ minimalPeriod f x) {y : α} (hy : y ∈ S) :
    ∃ k < minimalPeriod f x, f^[k] x = y := by
  have horbit : ∀ k, f^[k] x ∈ S := fun k => Set.MapsTo.iterate hmaps k hx
  have hsub : (fun k => f^[k] x) '' Set.Iio (minimalPeriod f x) ⊆ S := by
    rintro z ⟨k, -, rfl⟩
    exact horbit k
  have hcard : ((fun k => f^[k] x) '' Set.Iio (minimalPeriod f x)).ncard = minimalPeriod f x := by
    rw [Set.InjOn.ncard_image iterate_injOn_Iio_minimalPeriod, ← Nat.card_coe_set_eq]
    simp
  have himage := Set.eq_of_subset_of_ncard_le hsub (by rw [hcard]; exact hperiod) hS
  rw [← himage] at hy
  obtain ⟨k, hk, hky⟩ := hy
  exact ⟨k, hk, hky⟩

end Orbit

/-! ## The words -/

/-- A word is a number below `2 ^ 64`. -/
def wordEquivFin : UInt64 ≃ Fin UInt64.size where
  toFun := UInt64.toFin
  invFun := UInt64.ofFin
  left_inv _ := rfl
  right_inv _ := rfl

/-- There are finitely many words. -/
instance finite_word : Finite UInt64 := Finite.of_equiv _ wordEquivFin.symm

/-- There are `2 ^ 64 - 1` words but zero. -/
lemma ncard_word_ne_zero : {s : UInt64 | s ≠ 0}.ncard = 2 ^ 64 - 1 := by
  have hcompl : {s : UInt64 | s ≠ 0} = {0}ᶜ := rfl
  rw [hcompl, Set.ncard_compl, Set.ncard_singleton, Nat.card_congr wordEquivFin, Nat.card_fin]
  rfl

/-! ## Words under exclusive or -/

/-- A word, as an element of the group of words under exclusive or. -/
@[ext]
structure XorWord where
  word : UInt64

namespace XorWord

/-- The word without bits is zero. -/
instance : Zero XorWord := ⟨⟨0⟩⟩

/-- Addition is exclusive or. -/
instance : Add XorWord := ⟨fun a b => ⟨a.word ^^^ b.word⟩⟩

/-- Every word is its own inverse. -/
instance : Neg XorWord := ⟨fun a => a⟩

/-- The word of a sum. -/
@[simp] lemma word_add (a b : XorWord) : (a + b).word = a.word ^^^ b.word := rfl

/-- The words under exclusive or are a group. -/
instance : AddCommGroup XorWord where
  add_assoc a b c := XorWord.ext (UInt64.xor_assoc a.word b.word c.word)
  zero_add _ := XorWord.ext UInt64.zero_xor
  add_zero _ := XorWord.ext UInt64.xor_zero
  add_comm a b := XorWord.ext (UInt64.xor_comm a.word b.word)
  neg_add_cancel _ := XorWord.ext UInt64.xor_self
  nsmul := nsmulRec
  zsmul := zsmulRec

/-- A word added to itself is zero. -/
lemma add_self (s : XorWord) : s + s = 0 := XorWord.ext UInt64.xor_self

/-- The maps of this group have characteristic two. -/
instance : CharP (AddMonoid.End XorWord) 2 := by
  refine CharTwo.of_one_ne_zero_of_two_eq_zero (fun h => ?_) ?_
  · have hone : (⟨1⟩ : XorWord) = 0 := DFunLike.congr_fun h ⟨1⟩
    exact absurd (congrArg word hone) (by decide)
  · rw [← one_add_one_eq_two]
    exact AddMonoidHom.ext add_self

/-- An endomorphism that takes the powers of two to zero is zero. -/
lemma end_eq_zero_of_forall_pow {g : AddMonoid.End XorWord}
    (hg : ∀ i < 64, g ⟨UInt64.ofNat (2 ^ i)⟩ = 0) : g = 0 := by
  -- by the number of bits: the top bit is taken off
  have hbits : ∀ k ≤ 64, ∀ m < 2 ^ k, g ⟨UInt64.ofNat m⟩ = 0 := by
    intro k
    induction k with
    | zero =>
        intro _ m hm
        obtain rfl : m = 0 := by simpa using hm
        exact map_zero g
    | succ k ih =>
        intro hk m hm
        cases htop : m.testBit k with
        | false => exact ih (by omega) m (BitPolynomial.lt_two_pow_of_testBit_eq_false hm htop)
        | true =>
            have hpow : 2 ^ k < 2 ^ (k + 1) := Nat.pow_lt_pow_right one_lt_two (Nat.lt_succ_self k)
            have hrest : m ^^^ 2 ^ k < 2 ^ k :=
              BitPolynomial.xor_lt_two_pow_of_testBit hm hpow
                (by rw [htop, Nat.testBit_two_pow_self])
            have hsplit : (⟨UInt64.ofNat m⟩ : XorWord) =
                ⟨UInt64.ofNat (m ^^^ 2 ^ k)⟩ + ⟨UInt64.ofNat (2 ^ k)⟩ := by
              refine XorWord.ext ?_
              rw [word_add, ← UInt64.ofNat_xor, Nat.xor_assoc, Nat.xor_self, Nat.xor_zero]
            rw [hsplit, map_add, ih (by omega) _ hrest, hg k (by omega), add_zero]
  refine AddMonoidHom.ext fun s => ?_
  have hs := hbits 64 le_rfl s.word.toNat s.word.toNat_lt
  rwa [UInt64.ofNat_toNat] at hs

end XorWord

/-! ## Linear maps -/

/-- A map on words that respects exclusive or. -/
def XorLinear (f : UInt64 → UInt64) : Prop := ∀ a b, f (a ^^^ b) = f a ^^^ f b

/-- Linear maps compose. -/
lemma XorLinear.comp {f g : UInt64 → UInt64} (hf : XorLinear f) (hg : XorLinear g) :
    XorLinear fun s => f (g s) := by
  intro a b
  dsimp only
  rw [hg, hf]

/-- A word and another linear image of it. -/
lemma XorLinear.xor_self {f : UInt64 → UInt64} (hf : XorLinear f) :
    XorLinear fun s => s ^^^ f s := by
  intro a b
  dsimp only
  rw [hf, UInt64.xor_assoc, UInt64.xor_assoc, ← UInt64.xor_assoc b, UInt64.xor_comm b,
    UInt64.xor_assoc (f a)]

/-- A shift to the left is linear. -/
lemma xorLinear_shiftLeft (k : UInt64) : XorLinear fun s => s <<< k :=
  fun _ _ => UInt64.shiftLeft_xor

/-- A shift to the right is linear. -/
lemma xorLinear_shiftRight (k : UInt64) : XorLinear fun s => s >>> k :=
  fun _ _ => UInt64.shiftRight_xor

/-- The polynomial `p`, up to the degree `n`, of a map, applied to a word. -/
def applyMask (f : UInt64 → UInt64) : ℕ → ℕ → UInt64 → UInt64
  | 0, _, _ => 0
  | n + 1, p, s => (if p.testBit 0 then s else 0) ^^^ applyMask f n (p / 2) (f s)

section Linear

variable {f : UInt64 → UInt64}

/-- A linear map as an endomorphism. -/
def XorLinear.toEnd (hf : XorLinear f) : AddMonoid.End XorWord :=
  AddMonoidHom.mk' (fun s => ⟨f s.word⟩) fun a b => XorWord.ext (hf a.word b.word)

/-- The powers of the endomorphism are the iterates of the map. -/
lemma XorLinear.toEnd_pow (hf : XorLinear f) (k : ℕ) (s : XorWord) :
    (hf.toEnd ^ k) s = ⟨f^[k] s.word⟩ := by
  induction k generalizing s with
  | zero => rfl
  | succ k ih =>
      rw [pow_succ, Function.iterate_succ_apply]
      exact ih (hf.toEnd s)

/-- The value of a polynomial at the endomorphism is the sum of the iterates in its mask. -/
lemma XorLinear.eval_apply (hf : XorLinear f) (n p : ℕ) (s : XorWord) :
    BitPolynomial.eval n hf.toEnd p s = ⟨applyMask f n p s.word⟩ := by
  induction n generalizing p s with
  | zero => rfl
  | succ n ih =>
      rw [BitPolynomial.eval_succ]
      refine XorWord.ext ?_
      have hlow : ((if p.testBit 0 then 1 else 0 : AddMonoid.End XorWord) s).word =
          if p.testBit 0 then s.word else 0 := by
        split_ifs <;> rfl
      have hrest := congrArg XorWord.word (ih (p / 2) (hf.toEnd s))
      exact congrArg₂ (· ^^^ ·) hlow hrest

end Linear

/-! ## Full period -/

/-- A polynomial of degree 64 and, with every prime factor of `2 ^ 64 - 1`, an inverse of
`x ^ e - 1` for the quotient `e` by that prime. -/
structure PeriodCertificate where
  modulus : BitPolynomial.Modulus
  inverses : List (ℕ × ℕ)
  degree_eq : modulus.degree = 64
  prime : ∀ c ∈ inverses, c.1.Prime
  prod_eq : (inverses.map Prod.fst).prod = 2 ^ 64 - 1
  /-- `x` has the order `2 ^ 64 - 1` or a divisor of it, -/
  order : modulus.powMod 64 2 (2 ^ 64 - 1) = 1
  /-- and none of its proper divisors. -/
  inverse : ∀ c ∈ inverses,
    modulus.mulMod 64 c.2 (modulus.powMod 64 2 ((2 ^ 64 - 1) / c.1) ^^^ 1) = 1

/-- Every prime factor of the period is listed. -/
lemma PeriodCertificate.exists_mem (C : PeriodCertificate) {p : ℕ} (hp : p.Prime)
    (hdvd : p ∣ 2 ^ 64 - 1) : ∃ u, (p, u) ∈ C.inverses := by
  rw [← C.prod_eq, hp.prime.dvd_prod_iff] at hdvd
  obtain ⟨q, hq, hpq⟩ := hdvd
  obtain ⟨c, hc, rfl⟩ := List.mem_map.mp hq
  rw [(Nat.prime_dvd_prime_iff_eq hp (C.prime c hc)).mp hpq]
  exact ⟨c.2, hc⟩

section FullPeriod

variable {f : UInt64 → UInt64} (hf : XorLinear f) (C : PeriodCertificate)
  (hroot : ∀ i < 64, applyMask f 65 C.modulus.mask (UInt64.ofNat (2 ^ i)) = 0)

include hroot in
/-- The endomorphism is a root of the modulus. -/
lemma PeriodCertificate.isRoot : C.modulus.IsRoot hf.toEnd := by
  rw [BitPolynomial.Modulus.IsRoot, C.degree_eq]
  refine XorWord.end_eq_zero_of_forall_pow fun i hi => ?_
  rw [hf.eval_apply, hroot i hi]
  rfl

include hf hroot in
/-- The least period of every word but zero. -/
lemma PeriodCertificate.minimalPeriod_eq {s : UInt64} (hs : s ≠ 0) :
    Function.minimalPeriod f s = 2 ^ 64 - 1 := by
  have ht := C.isRoot hf hroot
  have hdegree := C.degree_eq
  have hprimes : ∀ p, p.Prime → p ∣ 2 ^ 64 - 1 → ∃ u, (p, u) ∈ C.inverses :=
    fun p hp => C.exists_mem hp
  have horder := C.order
  have hinverse := C.inverse
  have hlt : 2 ^ 64 - 1 < 2 ^ 64 := by decide
  have hiterate : ∀ k, (hf.toEnd ^ k) ⟨s⟩ = ⟨f^[k] s⟩ := fun k => hf.toEnd_pow k ⟨s⟩
  generalize 2 ^ 64 - 1 = N at hprimes horder hinverse hlt ⊢
  refine minimalPeriod_eq_of_forall_prime ?_ fun p hp hdvd hfix => hs ?_
  · have hone := hiterate N
    rw [BitPolynomial.pow_eq_one_of_powMod ht (by omega) hlt horder] at hone
    exact (congrArg XorWord.word hone).symm
  · -- the endomorphism with an inverse takes the word to zero
    obtain ⟨u, hu⟩ := hprimes p hp hdvd
    have hinv := hinverse (p, u) hu
    rw [← hdegree] at hinv
    have hmul := BitPolynomial.mul_pow_add_one_of_mulMod ht (by omega)
      (lt_of_le_of_lt (Nat.div_le_self N p) (hdegree ▸ hlt)) hinv
    have hzero : (hf.toEnd ^ (N / p) + 1) ⟨s⟩ = 0 := by
      have hsum : (hf.toEnd ^ (N / p) + 1) ⟨s⟩ = (hf.toEnd ^ (N / p)) ⟨s⟩ + ⟨s⟩ := rfl
      rw [hsum, hiterate, hfix, XorWord.add_self]
    have hs : (⟨s⟩ : XorWord) = 0 := by
      calc (⟨s⟩ : XorWord) = (BitPolynomial.eval C.modulus.degree hf.toEnd u *
            (hf.toEnd ^ (N / p) + 1)) ⟨s⟩ := by rw [hmul]; rfl
        _ = BitPolynomial.eval C.modulus.degree hf.toEnd u ((hf.toEnd ^ (N / p) + 1) ⟨s⟩) := rfl
        _ = 0 := by rw [hzero, map_zero]
    exact congrArg XorWord.word hs

include hf hroot in
/-- Only zero is taken to zero: any other word has a period. -/
lemma PeriodCertificate.apply_ne_zero {x : UInt64} (hx : x ≠ 0) : f x ≠ 0 := by
  intro hfx
  have hzero : f 0 = 0 := by
    have hself := hf 0 0
    rwa [UInt64.xor_self, UInt64.xor_self] at hself
  have hpos : 0 < Function.minimalPeriod f x := by
    rw [C.minimalPeriod_eq hf hroot hx]
    decide
  obtain ⟨k, hk⟩ := Nat.exists_eq_succ_of_ne_zero hpos.ne'
  have hback := Function.iterate_minimalPeriod (f := f) (x := x)
  rw [hk, Function.iterate_succ_apply, hfx, Function.iterate_fixed hzero] at hback
  exact hx hback.symm

include hf hroot in
/-- **Full period.** From any word but zero the map reaches every word but zero. -/
theorem PeriodCertificate.exists_iterate {s y : UInt64} (hs : s ≠ 0) (hy : y ≠ 0) :
    ∃ k < 2 ^ 64 - 1, f^[k] s = y := by
  have hperiod := C.minimalPeriod_eq hf hroot hs
  rw [← hperiod]
  exact exists_iterate_eq (Set.toFinite {x : UInt64 | x ≠ 0})
    (fun _ hx => C.apply_ne_zero hf hroot hx) hs
    (by rw [hperiod, ncard_word_ne_zero]) hy

end FullPeriod

end Aulon.Lib
