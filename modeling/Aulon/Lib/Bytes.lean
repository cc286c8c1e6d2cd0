import Mathlib.Data.List.Basic

/-!
# Byte strings

Byte strings are lists of `UInt8`. `ascii` turns a text literal into its bytes by a definition
that the kernel evaluates, `slice` is the half-open range `b[i..j]`, and `overwrite` replaces
the bytes from a position on. The lemmas say how overwriting composes and how the byte-by-byte
loops of a program add up to it.
-/

namespace Aulon.Lib

/-- A byte string. -/
abbrev Bytes : Type := List UInt8

/-- The bytes of a text literal. -/
def ascii (s : String) : Bytes := s.toUTF8.data.toList

/-- The half-open range `b[i..j]`. -/
def slice (b : Bytes) (i j : ℕ) : Bytes := (b.take j).drop i

/-- A slice within the start of a buffer does not depend on what follows. -/
lemma slice_append_of_le {b : Bytes} {i j : ℕ} (h : j ≤ b.length) (e : Bytes) :
    slice (b ++ e) i j = slice b i j := by
  rw [slice, slice, List.take_append_of_le_length h]

/-- A slice within the buffer has the length of its range. -/
lemma length_slice {b : Bytes} {i j : ℕ} (h : j ≤ b.length) : (slice b i j).length = j - i := by
  simp [slice, Nat.min_eq_left h]

/-- A range that starts where a known part ends and covers exactly the next part is that part. -/
lemma slice_append_append (a b c : Bytes) {i j : ℕ} (hi : i = a.length)
    (hj : j = a.length + b.length) : slice (a ++ b ++ c) i j = b := by
  subst hi hj
  rw [slice, List.take_append_of_le_length (by simp), List.take_of_length_le (by simp)]
  simp

/-- A range continues what stands in front of it. -/
lemma take_append_slice (b : Bytes) {i j : ℕ} (h : i ≤ j) :
    b.take i ++ slice b i j = b.take j := by
  have htake : b.take i = (b.take j).take i := by rw [List.take_take, Nat.min_eq_left h]
  rw [slice, htake, List.take_append_drop]

/-- The start of a slice. -/
lemma take_slice {b : Bytes} {i j n : ℕ} (h : i + n ≤ j) :
    (slice b i j).take n = slice b i (i + n) := by
  rw [slice, slice, List.take_drop, List.take_take, Nat.min_eq_left h]

/-- The rest of a slice. -/
lemma drop_slice (b : Bytes) (i j n : ℕ) : (slice b i j).drop n = slice b (i + n) j := by
  rw [slice, slice, List.drop_drop]

/-! ## Overwriting part of a buffer -/

/-- The buffer with `src` in place of what stood at `pos`. -/
def overwrite (out : Bytes) (pos : ℕ) (src : Bytes) : Bytes :=
  out.take pos ++ src ++ out.drop (pos + src.length)

/-- Bytes written within a buffer leave its length. -/
lemma length_overwrite {out : Bytes} {pos : ℕ} {src : Bytes} (h : pos + src.length ≤ out.length) :
    (overwrite out pos src).length = out.length := by
  simp only [overwrite, List.length_append, List.length_take, List.length_drop]
  omega

/-- Writing nothing changes nothing. -/
@[simp] lemma overwrite_nil (out : Bytes) (pos : ℕ) : overwrite out pos [] = out := by
  simp [overwrite]

/-- Two overwrites, the second where the first ends, are one. -/
lemma overwrite_overwrite {out : Bytes} {pos : ℕ} {a b : Bytes}
    (h : pos + a.length + b.length ≤ out.length) :
    overwrite (overwrite out pos a) (pos + a.length) b = overwrite out pos (a ++ b) := by
  have htake : (out.take pos ++ a).length = pos + a.length := by
    simp only [List.length_append, List.length_take]; omega
  unfold overwrite
  rw [List.take_append_of_le_length (by omega), List.take_of_length_le (by omega),
    List.drop_append, htake, List.drop_eq_nil_of_le (by omega), List.drop_drop]
  simp only [List.nil_append, List.append_assoc, List.length_append]
  congr 4
  omega

/-- The start of a buffer that was overwritten from position 0. -/
lemma take_overwrite_zero (out src : Bytes) : (overwrite out 0 src).take src.length = src := by
  simp [overwrite]

/-- A range that ends where an overwrite ends is what it held before, and then the new bytes. -/
lemma slice_overwrite {out src : Bytes} {i pos : ℕ} (hi : i ≤ pos) (hpos : pos ≤ out.length) :
    slice (overwrite out pos src) i (pos + src.length) = slice out i pos ++ src := by
  have hlen : (out.take pos).length = pos := by simp [hpos]
  have htake : (overwrite out pos src).take (pos + src.length) = out.take pos ++ src := by
    rw [overwrite, List.take_append_of_le_length (by simp [hlen]),
      List.take_of_length_le (by simp [hlen])]
  rw [slice, htake, List.drop_append_of_le_length (by omega), slice]

/-- Setting one byte is writing it. -/
lemma set_eq_overwrite {out : Bytes} {pos : ℕ} (h : pos < out.length) (b : UInt8) :
    out.set pos b = overwrite out pos [b] := by
  rw [List.set_eq_take_append_cons_drop, if_pos h]
  simp [overwrite]

/-- Setting consecutive bytes one at a time is one overwrite. -/
lemma foldl_set_eq_overwrite (g : ℕ → UInt8) (n : ℕ) {out : Bytes} {pos : ℕ}
    (h : pos + n ≤ out.length) :
    (List.range n).foldl (fun out i => out.set (pos + i) (g i)) out =
      overwrite out pos ((List.range n).map g) := by
  induction n with
  | zero => simp
  | succ n ih =>
      have hlen : ((List.range n).map g).length = n := by simp
      have hset : pos + n < (overwrite out pos ((List.range n).map g)).length := by
        rw [length_overwrite (by omega)]; omega
      rw [List.range_succ, List.foldl_append, ih (by omega), List.foldl_cons, List.foldl_nil,
        set_eq_overwrite hset, List.map_append, List.map_singleton]
      have hroom : pos + ((List.range n).map g).length + [g n].length ≤ out.length := by
        rw [hlen, List.length_singleton]; omega
      rw [← overwrite_overwrite hroom, hlen]

end Aulon.Lib
