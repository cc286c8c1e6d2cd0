import Aulon.Proto.EmitBounds
import Aulon.Proto.Grammar

/-!
# Decimal fields

The counts of the wire format are decimal numerals: the byte count that frames a payload and the
limit of an `UNSUB`. Both digit loops of the parser test for overflow at every digit, the writer
stores its digits in a temporary of twenty bytes and copies them back in reverse.

* `parseUsize_eq_none`, `parseU64_eq_none` — exactly which strings are refused.
* `writeDecimalU64_of_le` — what the writer leaves in a buffer with room.
* `decimal_fields_exact` — reading and writing are exact over all of `u64`.

Source: `aulon-proto/src/parse.rs`, `aulon-proto/src/emit.rs`.
-/

namespace Aulon.Proto

open Aulon.Lib

/-! ## Reading -/

/-- A string that is no numeral of a word: it is empty, or has a byte that is no digit, or is too
large. -/
lemma not_numeral_iff {t : Bytes} : (∀ n, ¬ (t ≠ [] ∧ Numeral t n)) ↔
    t = [] ∨ (∃ x ∈ t, isAsciiDigit x = false) ∨ 2 ^ 64 ≤ value t := by
  constructor
  · intro h
    by_contra! hcon
    obtain ⟨hne, hdigits, hlt⟩ := hcon
    exact h (value t) ⟨hne, fun x hx => by simpa using hdigits x hx, rfl, hlt⟩
  · rintro h n ⟨hne, hdigits, rfl, hlt⟩
    rcases h with rfl | ⟨x, hx, hfalse⟩ | hle
    · exact hne rfl
    · rw [hdigits x hx] at hfalse
      cases hfalse
    · exact absurd hlt (not_lt.mpr hle)

/-- The numerals that are refused: empty ones, ones with another byte than a digit, and too large
ones. -/
lemma parseUsize_eq_none {t : Bytes} : parseUsize t = none ↔
    t = [] ∨ (∃ x ∈ t, isAsciiDigit x = false) ∨ 2 ^ 64 ≤ value t := by
  rw [← not_numeral_iff, Option.eq_none_iff_forall_ne_some]
  exact forall_congr' fun n => not_congr parseUsize_eq_some

/-- The same for a `u64`. -/
lemma parseU64_eq_none {t : Bytes} : parseU64 t = none ↔
    t = [] ∨ (∃ x ∈ t, isAsciiDigit x = false) ∨ 2 ^ 64 ≤ value t := by
  rw [← not_numeral_iff, Option.eq_none_iff_forall_ne_some]
  constructor
  · rintro h n ⟨hne, hnum⟩
    refine h (UInt64.ofNat n) (parseU64_eq_some.mpr ⟨hne, ?_⟩)
    rwa [toNat_ofNat_of_le le_rfl hnum.2.2]
  · exact fun h v hv => h v.toNat (parseU64_eq_some.mp hv)

/-- Leading zeros make no difference to a numeral. -/
lemma numeral_replicate_append (k : ℕ) {t : Bytes} {n : ℕ} :
    Numeral (List.replicate k (digitByte 0) ++ t) n ↔ Numeral t n := by
  have hzero : isAsciiDigit (digitByte 0) = true := rfl
  unfold Numeral
  rw [value_replicate_append]
  refine and_congr_left' ⟨fun h x hx => h x (List.mem_append_right _ hx), fun h x hx => ?_⟩
  rcases List.mem_append.mp hx with hx | hx
  · rw [List.eq_of_mem_replicate hx, hzero]
  · exact h x hx

/-- Leading zeros make no difference. -/
lemma parseU64_replicate_append (k : ℕ) {t : Bytes} (ht : t ≠ []) :
    parseU64 (List.replicate k (digitByte 0) ++ t) = parseU64 t := by
  refine Option.ext fun v => ?_
  rw [parseU64_eq_some, parseU64_eq_some, numeral_replicate_append]
  simp [ht]

/-- The same for a `usize`. -/
lemma parseUsize_replicate_append (k : ℕ) {t : Bytes} (ht : t ≠ []) :
    parseUsize (List.replicate k (digitByte 0) ++ t) = parseUsize t := by
  refine Option.ext fun v => ?_
  rw [parseUsize_eq_some, parseUsize_eq_some, numeral_replicate_append]
  simp [ht]

/-! ## Writing -/

/-- Where there is room, the numeral stands at the position, the rest of the buffer is as before,
and the end of the numeral is returned. -/
lemma writeDecimalU64_of_le {pos : ℕ} {value : UInt64} {out : Bytes} (hout : out.length < wordMod)
    (hroom : pos + (decimal value.toNat).length ≤ out.length) :
    writeDecimalU64 pos value out =
      (.ok (pos + (decimal value.toNat).length), overwrite out pos (decimal value.toNat)) := by
  obtain ⟨n, out', h⟩ := (writes_writeDecimalU64 value).fits pos out hroom hout
  obtain ⟨rfl, -, rfl⟩ := (writes_writeDecimalU64 value).ok pos out n out' (by omega) h
  exact h

/-- The digits never leave the temporary. -/
lemma exists_digitsRaw (value : UInt64) : ∃ (tmp : Bytes) (len : ℕ),
    digitsRaw value = .ok (tmp, len) ∧ tmp.length = u64DigitsMax ∧ 0 < len ∧
      len ≤ u64DigitsMax ∧ decimal value.toNat = (tmp.take len).reverse := by
  obtain ⟨ds, hdec, htmp⟩ := exists_digits value
  obtain ⟨hloop, hlen, hdigits⟩ := digitsRaw_eq value hdec htmp
  have hpos : 0 < ds.length := by
    have hne := List.length_pos_iff.mpr (decimal_ne_nil value.toNat)
    rwa [hdec, List.length_reverse] at hne
  exact ⟨_, ds.length, hloop, hlen, hpos, hdigits, by rw [take_overwrite_zero, hdec]⟩

/-! ## Reading and writing -/

/-- **Decimal fields are exact over all of `u64`.** Both readers accept the non-empty strings of
digits whose value is below `2 ^ 64`, with that value and with any number of leading zeros, and
refuse every other string. The writer stores its digits within the temporary of twenty bytes and,
where there is room, writes the canonical numeral, which no zero leads, and nothing else; what it
wrote is read back as the number. -/
theorem decimal_fields_exact :
    (∀ (t : Bytes) (v : UInt64), parseU64 t = some v ↔
      t ≠ [] ∧ (∀ x ∈ t, isAsciiDigit x = true) ∧ value t = v.toNat) ∧
    (∀ (t : Bytes) (v : ℕ), parseUsize t = some v ↔
      t ≠ [] ∧ (∀ x ∈ t, isAsciiDigit x = true) ∧ value t = v ∧ v < 2 ^ 64) ∧
    (∀ t : Bytes, (parseU64 t = none ↔
        t = [] ∨ (∃ x ∈ t, isAsciiDigit x = false) ∨ 2 ^ 64 ≤ value t) ∧
      (parseUsize t = none ↔
        t = [] ∨ (∃ x ∈ t, isAsciiDigit x = false) ∨ 2 ^ 64 ≤ value t)) ∧
    (∀ (k : ℕ) (t : Bytes), t ≠ [] →
      parseU64 (List.replicate k (digitByte 0) ++ t) = parseU64 t ∧
      parseUsize (List.replicate k (digitByte 0) ++ t) = parseUsize t) ∧
    (∀ v : UInt64, (∀ rest, decimal v.toNat = digitByte 0 :: rest → v = 0 ∧ rest = []) ∧
      ∃ (tmp : Bytes) (len : ℕ), digitsRaw v = .ok (tmp, len) ∧ tmp.length = 20 ∧ 0 < len ∧
        len ≤ 20 ∧ decimal v.toNat = (tmp.take len).reverse) ∧
    (∀ (v : UInt64) (pos : ℕ) (out : Bytes), out.length < 2 ^ 64 →
      writeDecimalU64Raw pos v out = .ok (writeDecimalU64 pos v out) ∧
      (pos + (decimal v.toNat).length ≤ out.length →
        ∃ stop out', writeDecimalU64 pos v out = (.ok stop, out') ∧
          stop = pos + (decimal v.toNat).length ∧ out' = overwrite out pos (decimal v.toNat) ∧
          slice out' pos stop = decimal v.toNat ∧ parseU64 (slice out' pos stop) = some v)) := by
  refine ⟨fun t v => ?_, fun t v => parseUsize_eq_some, fun t => ⟨parseU64_eq_none,
    parseUsize_eq_none⟩, fun k t ht => ⟨parseU64_replicate_append k ht,
    parseUsize_replicate_append k ht⟩, fun v => ⟨fun rest h => ?_, exists_digitsRaw v⟩,
    fun v pos out hout => ⟨writeDecimalU64Raw_eq v hout, fun hroom => ?_⟩⟩
  · have hlt : v.toNat < wordMod := v.toNat_lt
    rw [parseU64_eq_some, Numeral]
    simp only [hlt, and_true]
  · obtain ⟨hzero, hrest⟩ := eq_zero_of_decimal_eq_cons h
    exact ⟨UInt64.toNat_inj.mp hzero, hrest⟩
  · have hslice : slice (overwrite out pos (decimal v.toNat)) pos
        (pos + (decimal v.toNat).length) = decimal v.toNat := by
      rw [slice_overwrite le_rfl (by omega), slice, List.drop_take_self, List.nil_append]
    refine ⟨_, _, writeDecimalU64_of_le hout hroom, rfl, rfl, hslice, ?_⟩
    rw [hslice]
    exact parseU64_decimal v

/-- The largest number in a buffer with exactly enough room behind a position: its twenty digits
are read back, and a further zero in front of them changes nothing. -/
theorem decimal_fields_exact_max :
    let v : UInt64 := 18446744073709551615
    let out : Bytes := List.replicate 24 0
    4 + (decimal v.toNat).length ≤ out.length ∧
      (∃ stop out', writeDecimalU64 4 v out = (.ok stop, out') ∧
        parseU64 (slice out' 4 stop) = some v) ∧
      parseU64 (List.replicate 7 (digitByte 0) ++ decimal v.toNat) =
        parseU64 (decimal v.toNat) := by
  intro v out
  have hroom : 4 + (decimal v.toNat).length ≤ out.length := by
    have hlen : (decimal v.toNat).length ≤ u64DigitsMax := length_decimal_le v
    have hout : out.length = 24 := List.length_replicate
    have hmax : u64DigitsMax = 20 := rfl
    omega
  obtain ⟨-, -, -, hzeros, -, hwrite⟩ := decimal_fields_exact
  obtain ⟨stop, out', h, -, -, -, hparse⟩ := (hwrite v 4 out (by decide)).2 hroom
  exact ⟨hroom, ⟨stop, out', h, hparse⟩, (hzeros 7 _ (decimal_ne_nil _)).1⟩

end Aulon.Proto
