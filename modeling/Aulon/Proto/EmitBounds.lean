import Aulon.Lib.Checked
import Aulon.Proto.Emit

/-!
# The emitter at the end of the buffer

The emitter is a chain of writes through three helpers (`emitFrame_eq_writeSegments`). What a
chain does to a buffer is said once, for every list of writes: it goes through, or it stops at the
first write that would end behind the buffer.

* `writeSegments_cases` — what a chain of writes does.
* `Segment.writeRaw` — the helpers with their indexings and additions that can panic.
* `emitFrame_exact` — the emitter writes the encoding, or fails for lack of space.
* `needed_suffices_iff` — when the `needed` of the error is enough for the frame.

Source: `aulon-proto/src/emit.rs`.
-/

namespace Aulon.Proto

open Aulon.Lib

/-! ## What a chain of writes does -/

/-- The test `write_all` and `write_decimal_u64` make before they write: the end must be a word,
and within the buffer. -/
lemma reserve_eq {pos len : ℕ} {out : Bytes} (hout : out.length < wordMod)
    (k : ℕ → Except EmitError ℕ × Bytes) :
    (match checkedAdd pos len with
      | none => (.error (.bufferTooSmall (wordMod - 1) out.length), out)
      | some stop =>
          if stop > out.length then (.error (.bufferTooSmall stop out.length), out) else k stop) =
    if pos + len ≤ out.length then k (pos + len)
    else (.error (.bufferTooSmall (saturatingAdd pos len) out.length), out) := by
  unfold checkedAdd saturatingAdd
  by_cases hword : pos + len < wordMod
  · rw [if_pos hword, Nat.min_eq_left (by omega)]
    by_cases hfit : pos + len ≤ out.length
    · simp only [gt_iff_lt, not_lt.mpr hfit, if_false, hfit, if_true]
    · simp only [gt_iff_lt, not_le.mp hfit, if_true, hfit, if_false]
  · rw [if_neg hword, Nat.min_eq_right (by omega), if_neg (by omega)]

/-- One write goes through where it fits; otherwise it reports where it would have ended, and
leaves the buffer alone. -/
lemma Segment.write_eq (seg : Segment) {pos : ℕ} {out : Bytes} (hpos : pos ≤ out.length)
    (hout : out.length < signBit) :
    seg.write pos out =
      if pos + seg.bytes.length ≤ out.length then
        (.ok (pos + seg.bytes.length), overwrite out pos seg.bytes)
      else
        (.error (.bufferTooSmall (saturatingAdd pos seg.bytes.length) out.length), out) := by
  have hword := signBit_add_signBit
  cases seg with
  | all src =>
      exact reserve_eq (by omega) fun stop => (.ok stop, out.take pos ++ src ++ out.drop stop)
  | byte b =>
      have hbytes : (byte b).bytes = [b] := rfl
      rw [hbytes, List.length_singleton, saturatingAdd, write, writeByte]
      by_cases hfit : pos + 1 ≤ out.length
      · rw [if_neg (by omega), if_pos hfit, set_eq_overwrite (by omega)]
      · rw [if_pos (by omega), if_neg hfit, Nat.min_eq_left (by omega)]
  | decimal value =>
      obtain ⟨ds, hdec, htmp⟩ := exists_digits value
      simp only [write, writeDecimalU64, bytes, hdec, htmp, List.length_reverse]
      refine (reserve_eq (by omega) _).trans ?_
      split_ifs with hfit
      · rw [foldl_set_eq_overwrite _ _ hfit, map_getD_overwrite]
      · rfl

/-- **What a chain of writes does.** It goes through if everything fits; otherwise it has done the
writes before the first one that does not fit, and reports the end of that one. -/
theorem writeSegments_cases (segs : List Segment) {pos : ℕ} {out : Bytes}
    (hpos : pos ≤ out.length) (hout : out.length < signBit) :
    (pos + (written segs).length ≤ out.length ∧ writeSegments segs pos out =
      (.ok (pos + (written segs).length), overwrite out pos (written segs))) ∨
    ∃ done seg rest, segs = done ++ seg :: rest ∧ pos + (written done).length ≤ out.length ∧
      out.length < pos + (written done).length + seg.bytes.length ∧
      writeSegments segs pos out =
        (.error (.bufferTooSmall (saturatingAdd (pos + (written done).length) seg.bytes.length)
          out.length), overwrite out pos (written done)) := by
  induction segs generalizing pos out with
  | nil => exact .inl ⟨hpos, by rw [written, List.flatMap_nil, overwrite_nil]; rfl⟩
  | cons seg segs ih =>
      have hwrite := seg.write_eq hpos hout
      by_cases hfit : pos + seg.bytes.length ≤ out.length
      · rw [if_pos hfit] at hwrite
        have hlen := length_overwrite hfit
        have hcons : written (seg :: segs) = seg.bytes ++ written segs := List.flatMap_cons
        rw [writeSegments, bind_of_ok hwrite, hcons, List.length_append]
        have hpos' : pos + seg.bytes.length ≤ (overwrite out pos seg.bytes).length := by omega
        rcases ih hpos' (by omega) with ⟨hrest, heq⟩ | ⟨done, seg', rest, rfl, hdone, hmiss, heq⟩
        · refine .inl ⟨by omega, ?_⟩
          rw [heq, overwrite_overwrite (by omega), add_assoc]
        · have hcons' : written (seg :: done) = seg.bytes ++ written done := List.flatMap_cons
          have hlen' : (written (seg :: done)).length =
              seg.bytes.length + (written done).length := by rw [hcons', List.length_append]
          refine .inr ⟨seg :: done, seg', rest, rfl, by omega, by omega, ?_⟩
          rw [heq, hlen, hcons', overwrite_overwrite (by omega), List.length_append, add_assoc]
      · rw [if_neg hfit] at hwrite
        refine .inr ⟨[], seg, segs, rfl, by simpa [written] using hpos,
          by simpa [written] using hfit, ?_⟩
        rw [writeSegments, bind_of_error hwrite]
        simp only [written, List.flatMap_nil, overwrite_nil, List.length_nil, add_zero]

/-! ## The helpers with their panics -/

/-- The result of a helper, and the buffer. -/
abbrev Emitted : Type := Except EmitError ℕ × Bytes

/-- Source: `emit.rs`, `write_all`; the copy panics if the two slices differ in length -/
def writeAllRaw (pos : ℕ) (src out : Bytes) : Checked Emitted :=
  match checkedAdd pos src.length with
  | none => .ok (.error (.bufferTooSmall (wordMod - 1) out.length), out)
  | some stop =>
      if stop > out.length then .ok (.error (.bufferTooSmall stop out.length), out)
      else do
        let dst ← Checked.range out pos stop
        Checked.ensure (dst.length = src.length)
        return (.ok stop, out.take pos ++ src ++ out.drop stop)

/-- Source: `emit.rs`, `write_byte` -/
def writeByteRaw (pos : ℕ) (byte : UInt8) (out : Bytes) : Checked Emitted :=
  if pos ≥ out.length then do
    let needed ← Checked.add pos 1
    return (.error (.bufferTooSmall needed out.length), out)
  else do
    let out ← Checked.set out pos byte
    let n ← Checked.add pos 1
    return (.ok n, out)

/-- The digit of `value` that the loop stores: the remainder as a byte, which is expected to
exist, added to the byte `0`, which must not overflow. -/
def digitRaw (value : ℕ) : Checked UInt8 := do
  let d ← Checked.expect (if value % 10 < 256 then some (UInt8.ofNat (value % 10)) else none)
  if 48 + d.toNat < 256 then return 48 + d else .error .addOverflow

/-- Source: `emit.rs`, `write_decimal_u64` (`while value > 0`) -/
def digitLoopRaw : ℕ → ℕ → Bytes → ℕ → Checked (Bytes × ℕ)
  | 0, _, tmp, len => .ok (tmp, len)
  | fuel + 1, value, tmp, len =>
      if value > 0 then do
        let tmp ← Checked.set tmp len (← digitRaw value)
        let len ← Checked.add len 1
        digitLoopRaw fuel (value / 10) tmp len
      else .ok (tmp, len)

/-- The loop that copies the digits from the temporary, in reverse.
Source: `emit.rs`, `write_decimal_u64` (`for i in 0..len`) -/
def copyDigitsRaw (tmp : Bytes) (len pos : ℕ) (out : Bytes) : Checked Bytes :=
  (List.range len).foldlM (fun out i => do
    let k ← Checked.sub (← Checked.sub len 1) i
    let b ← Checked.get tmp k
    Checked.set out (← Checked.add pos i) b) out

/-- The digits in the temporary, least significant first, and their number.
Source: `emit.rs`, `write_decimal_u64` (`if value == 0`) -/
def digitsRaw (value : UInt64) : Checked (Bytes × ℕ) :=
  let tmp : Bytes := List.replicate u64DigitsMax 0
  if value = 0 then (·, 1) <$> Checked.set tmp 0 48
  else digitLoopRaw value.toNat value.toNat tmp 0

/-- Source: `emit.rs`, `write_decimal_u64` -/
def writeDecimalU64Raw (pos : ℕ) (value : UInt64) (out : Bytes) : Checked Emitted := do
  let (tmp, len) ← digitsRaw value
  match checkedAdd pos len with
  | none => return (.error (.bufferTooSmall (wordMod - 1) out.length), out)
  | some stop =>
      if stop > out.length then return (.error (.bufferTooSmall stop out.length), out)
      else
        let out ← copyDigitsRaw tmp len pos out
        return (.ok stop, out)

/-- The helper that does the write. -/
def Segment.writeRaw : Segment → ℕ → Bytes → Checked Emitted
  | .all src, pos, out => writeAllRaw pos src out
  | .byte b, pos, out => writeByteRaw pos b out
  | .decimal value, pos, out => writeDecimalU64Raw pos value out

/-- The writes one after the other, up to the first that fails. -/
def writeSegmentsRaw : List Segment → ℕ → Bytes → Checked Emitted
  | [], pos, out => .ok (.ok pos, out)
  | seg :: segs, pos, out => do
      match ← seg.writeRaw pos out with
      | (.ok n, out) => writeSegmentsRaw segs n out
      | (.error e, out) => return (.error e, out)

/-- `write_all` does not panic. -/
lemma writeAllRaw_eq {pos : ℕ} {src out : Bytes} :
    writeAllRaw pos src out = .ok (writeAll pos src out) := by
  unfold writeAllRaw writeAll
  cases hstop : checkedAdd pos src.length with
  | none => rfl
  | some stop =>
      obtain ⟨-, rfl⟩ := checkedAdd_eq_some.mp hstop
      by_cases hfit : pos + src.length > out.length
      · simp only [hfit, if_true]
      · have hrange : Checked.range out pos (pos + src.length) =
            .ok (slice out pos (pos + src.length)) :=
          Checked.range_eq (Nat.le_add_right pos src.length) (not_lt.mp hfit)
        have hlen : (slice out pos (pos + src.length)).length = src.length := by
          rw [length_slice (not_lt.mp hfit), Nat.add_sub_cancel_left]
        simp only [hfit, if_false, Checked.bind_ok hrange,
          Checked.bind_ok (Checked.ensure_eq hlen)]
        rfl

/-- `write_byte` does not panic at a position within the buffer. -/
lemma writeByteRaw_eq {pos : ℕ} (b : UInt8) {out : Bytes} (hpos : pos ≤ out.length)
    (hout : out.length < signBit) : writeByteRaw pos b out = .ok (writeByte pos b out) := by
  have hword : pos + 1 < wordMod := by
    have := signBit_add_signBit
    omega
  unfold writeByteRaw writeByte
  by_cases hfit : pos ≥ out.length
  · rw [if_pos hfit, if_pos hfit, Checked.bind_ok (Checked.add_eq hword)]
    rfl
  · rw [if_neg hfit, if_neg hfit, Checked.bind_ok (Checked.set_eq (by omega) b),
      Checked.bind_ok (Checked.add_eq hword)]
    rfl

/-- The byte of a digit does not overflow. -/
lemma digitRaw_eq (value : ℕ) : digitRaw value = .ok (48 + UInt8.ofNat (value % 10)) := by
  have hmod : value % 10 < 10 := Nat.mod_lt _ (by decide)
  have hbyte : (UInt8.ofNat (value % 10)).toNat = value % 10 := by
    rw [UInt8.toNat_ofNat']
    omega
  unfold digitRaw
  rw [if_pos (by omega)]
  change (if 48 + (UInt8.ofNat (value % 10)).toNat < 256 then _ else _) = _
  rw [if_pos (by omega)]
  rfl

/-- The loop that collects the digits does not panic if they fit the array. -/
lemma digitLoopRaw_eq (fuel : ℕ) : ∀ (value : ℕ) (tmp : Bytes) (len : ℕ), value ≤ fuel →
    len + (Nat.digits 10 value).length ≤ tmp.length → tmp.length < wordMod →
    digitLoopRaw fuel value tmp len = .ok (digitLoop fuel value tmp len) := by
  induction fuel with
  | zero => intro value tmp len _ _ _; rfl
  | succ fuel ih =>
      intro value tmp len hv hlen htmp
      rw [digitLoopRaw, digitLoop]
      by_cases h0 : value > 0
      · have hdig : Nat.digits 10 value = value % 10 :: Nat.digits 10 (value / 10) :=
          Nat.digits_def' (by decide) h0
        rw [hdig, List.length_cons] at hlen
        rw [if_pos h0, if_pos h0, Checked.bind_ok (digitRaw_eq value),
          Checked.bind_ok (Checked.set_eq (by omega) _),
          Checked.bind_ok (Checked.add_eq (by omega))]
        refine ih _ _ _ (by omega) ?_ ?_
        · rw [List.length_set]; omega
        · rwa [List.length_set]
      · rw [if_neg h0, if_neg h0]

/-- Copying the digits does not panic if they fit the buffer. -/
lemma copyDigitsRaw_eq {tmp out : Bytes} {len pos : ℕ} (htmp : len ≤ tmp.length)
    (hfit : pos + len ≤ out.length) (hout : out.length < wordMod) :
    copyDigitsRaw tmp len pos out = .ok ((List.range len).foldl
      (fun out i => out.set (pos + i) (tmp.getD (len - 1 - i) 0)) out) := by
  refine Checked.foldlM_eq (I := fun o : Bytes => o.length = out.length) (fun o i hi ho => ?_) rfl
  have hlt : i < len := List.mem_range.mp hi
  have hget : tmp[len - 1 - i]? = some (tmp.getD (len - 1 - i) 0) := by
    rw [List.getD_eq_getElem _ _ (by omega), List.getElem?_eq_getElem (by omega)]
  rw [Checked.bind_ok (Checked.sub_eq (by omega)), Checked.bind_ok (Checked.sub_eq (by omega)),
    Checked.bind_ok (Checked.get_eq hget), Checked.bind_ok (Checked.add_eq (by omega)),
    Checked.set_eq (by omega)]
  exact ⟨rfl, by rw [List.length_set, ho]⟩

/-- A `u64` has at most twenty digits in decimal. -/
lemma length_decimal_le (value : UInt64) : (decimal value.toNat).length ≤ u64DigitsMax := by
  unfold decimal
  split_ifs
  · decide
  · rw [List.length_reverse, List.length_map]
    exact length_digits_le value

/-- The digits are stored within the temporary: the numeral, in reverse, at its start. -/
lemma digitsRaw_eq (value : UInt64) {ds : Bytes} (hdec : decimal value.toNat = ds.reverse)
    (htmp : (if value = 0 then ((List.replicate u64DigitsMax 0).set 0 48, 1)
      else digitLoop value.toNat value.toNat (List.replicate u64DigitsMax 0) 0) =
      (overwrite (List.replicate u64DigitsMax 0) 0 ds, ds.length)) :
    digitsRaw value = .ok (overwrite (List.replicate u64DigitsMax 0) 0 ds, ds.length) ∧
      (overwrite (List.replicate u64DigitsMax 0) 0 ds).length = u64DigitsMax ∧
      ds.length ≤ u64DigitsMax := by
  have hdigits : ds.length ≤ u64DigitsMax := by
    have hlen := length_decimal_le value
    rwa [hdec, List.length_reverse] at hlen
  refine ⟨?_, ?_, hdigits⟩
  · rw [← htmp, digitsRaw]
    split_ifs with hzero
    · rfl
    · refine digitLoopRaw_eq _ _ _ _ le_rfl ?_ (by decide)
      simpa using length_digits_le value
  · rw [length_overwrite (by simpa using hdigits), List.length_replicate]

/-- `write_decimal_u64` does not panic. -/
lemma writeDecimalU64Raw_eq {pos : ℕ} (value : UInt64) {out : Bytes}
    (hout : out.length < wordMod) :
    writeDecimalU64Raw pos value out = .ok (writeDecimalU64 pos value out) := by
  obtain ⟨ds, hdec, htmp⟩ := exists_digits value
  obtain ⟨hloop, hlen, hdigits⟩ := digitsRaw_eq value hdec htmp
  have hroom : ds.length ≤ (overwrite (List.replicate u64DigitsMax 0) 0 ds).length := by omega
  unfold writeDecimalU64Raw writeDecimalU64
  simp only [Checked.bind_ok hloop, htmp]
  cases hstop : checkedAdd pos ds.length with
  | none => rfl
  | some stop =>
      obtain ⟨-, rfl⟩ := checkedAdd_eq_some.mp hstop
      by_cases hfit : pos + ds.length > out.length
      · simp only [hfit, if_true]
        rfl
      · simp only [hfit, if_false, Checked.bind_ok (copyDigitsRaw_eq hroom (not_lt.mp hfit) hout)]
        rfl

/-- Writing a segment does not panic at a position within the buffer. -/
lemma Segment.writeRaw_eq (seg : Segment) {pos : ℕ} {out : Bytes} (hpos : pos ≤ out.length)
    (hout : out.length < signBit) : seg.writeRaw pos out = .ok (seg.write pos out) := by
  cases seg with
  | all src => exact writeAllRaw_eq
  | byte b => exact writeByteRaw_eq b hpos hout
  | decimal value =>
      have hword := signBit_add_signBit
      exact writeDecimalU64Raw_eq value (by omega)

/-- No write of a chain panics. -/
lemma writeSegmentsRaw_eq (segs : List Segment) {pos : ℕ} {out : Bytes} (hpos : pos ≤ out.length)
    (hout : out.length < signBit) :
    writeSegmentsRaw segs pos out = .ok (writeSegments segs pos out) := by
  induction segs generalizing pos out with
  | nil => rfl
  | cons seg segs ih =>
      rw [writeSegmentsRaw, writeSegments, Checked.bind_ok (seg.writeRaw_eq hpos hout)]
      rcases hwrite : seg.write pos out with ⟨e | n, out'⟩
      · rw [bind_of_error hwrite]
        rfl
      · obtain ⟨rfl, hle, rfl⟩ := (writes_write seg).ok _ _ _ _ hpos hwrite
        have hlen := length_overwrite hle
        rw [bind_of_ok hwrite]
        exact ih (by omega) (by omega)

/-- The emitter with its panics.
Source: `emit.rs`, `emit_frame` -/
def emitFrameRaw (f : Frame) (out : Bytes) : Checked Emitted := writeSegmentsRaw (segments f) 0 out

/-! ## The whole frame -/

/-- What the emitter does, in terms of the writes of the frame. -/
lemma emitFrame_cases (f : Frame) {out : Bytes} (hout : out.length < signBit) :
    (written (segments f)).length ≤ out.length ∧ emitFrame f out =
      (.ok (written (segments f)).length, overwrite out 0 (written (segments f))) ∨
    ∃ done seg rest, segments f = done ++ seg :: rest ∧ (written done).length ≤ out.length ∧
      out.length < (written done).length + seg.bytes.length ∧
      emitFrame f out = (.error (.bufferTooSmall (saturatingAdd (written done).length
        seg.bytes.length) out.length), overwrite out 0 (written done)) := by
  have hcases := writeSegments_cases (segments f) (Nat.zero_le out.length) hout
  simp only [zero_add] at hcases
  rw [emitFrame_eq_writeSegments]
  exact hcases

/-- Whether the writes fit is whether the encoding fits: where they differ, both are too long for
any buffer. -/
lemma length_written_le_iff (f : Frame) {out : Bytes} (hout : out.length < signBit) :
    (written (segments f)).length ≤ out.length ↔ (encode f).length ≤ out.length := by
  by_cases hbody : (body f).length < wordMod
  · rw [written_segments hbody]
  · have hwritten := length_body_le_written f
    have hencode : (body f).length ≤ (encode f).length := by
      simp only [encode, List.length_append]
      omega
    have hword := signBit_add_signBit
    constructor <;> intro h <;> omega

/-- **The emitter writes exactly the encoding, and fails only for lack of space.** It returns a
length exactly if the encoding fits; then it is the length of the encoding, which stands at the
start of the buffer, and the rest of the buffer is as before. Otherwise the error has the length
of the buffer, and the buffer is as before behind what was written, a start of the encoding. No
index is out of bounds and nothing else panics, for any length of the buffer. -/
theorem emitFrame_exact (f : Frame) (out : Bytes) (hout : out.length < 2 ^ 63) :
    ((∃ n, (emitFrame f out).1 = .ok n) ↔ (encode f).length ≤ out.length) ∧
    (∀ n, (emitFrame f out).1 = .ok n → n = (encode f).length ∧
      (emitFrame f out).2.take n = encode f ∧ (emitFrame f out).2.drop n = out.drop n) ∧
    (out.length < (encode f).length → ∃ (needed : ℕ) (start : Bytes),
      emitFrame f out = (.error (.bufferTooSmall needed out.length),
        start ++ out.drop start.length) ∧ start.length ≤ out.length ∧
      ((body f).length < 2 ^ 64 → start <+: encode f)) ∧
    emitFrameRaw f out = .ok (emitFrame f out) := by
  have hok : (encode f).length ≤ out.length →
      emitFrame f out = (.ok (encode f).length, overwrite out 0 (encode f)) := fun hfit =>
    emitFrame_of_le hfit (hout.trans (by decide))
  have herror : out.length < (encode f).length → ∃ (needed : ℕ) (start : Bytes),
      emitFrame f out = (.error (.bufferTooSmall needed out.length),
        start ++ out.drop start.length) ∧ start.length ≤ out.length ∧
      ((body f).length < 2 ^ 64 → start <+: encode f) := by
    intro hshort
    rcases emitFrame_cases f hout with ⟨hfit, -⟩ | ⟨done, seg, rest, hsegs, hdone, -, heq⟩
    · exact absurd ((length_written_le_iff f hout).mp hfit) (not_le.mpr hshort)
    · refine ⟨saturatingAdd (written done).length seg.bytes.length, written done, ?_, hdone,
        fun hbody => ?_⟩
      · rw [heq, overwrite, List.take_zero, List.nil_append, zero_add]
      · rw [← written_segments hbody, hsegs, written_append]
        exact List.prefix_append _ _
  have hfits : ∀ n, (emitFrame f out).1 = .ok n → (encode f).length ≤ out.length := by
    intro n hn
    by_contra hshort
    obtain ⟨needed, start, heq, -⟩ := herror (not_le.mp hshort)
    rw [heq] at hn
    cases hn
  refine ⟨⟨fun h => h.elim hfits, fun hfit => ⟨_, by rw [hok hfit]⟩⟩, ?_, herror, ?_⟩
  · intro n hn
    have heq := hok (hfits n hn)
    rw [heq] at hn ⊢
    cases hn
    refine ⟨rfl, take_overwrite_zero out (encode f), ?_⟩
    simp only [overwrite, List.take_zero, List.nil_append, zero_add, List.drop_left]
  · rw [emitFrameRaw, emitFrame_eq_writeSegments]
    exact writeSegmentsRaw_eq _ (Nat.zero_le _) hout

/-- A `PUB` on a buffer that ends within its length field: the error has the length of the buffer,
and the buffer holds a start of the frame. -/
theorem emitFrame_exact_short :
    let f : Frame := .pub (ascii "foo") none (ascii "hello world")
    let out : Bytes := List.replicate 9 0
    out.length < (encode f).length ∧ ∃ (needed : ℕ) (start : Bytes),
      emitFrame f out = (.error (.bufferTooSmall needed 9), start ++ out.drop start.length) ∧
        start <+: encode f := by
  intro f out
  have hshort : out.length < (encode f).length := by decide +kernel
  obtain ⟨needed, start, heq, -, hstart⟩ := (emitFrame_exact f out (by decide)).2.2.1 hshort
  exact ⟨hshort, needed, start, heq, hstart (by decide)⟩

/-! ## What the error says -/

/-- The last write of a frame has between one and six bytes. -/
lemma lastWrite_bounds (f : Frame) : 0 < (lastWrite f).length ∧ (lastWrite f).length ≤ 6 := by
  cases f <;> simp only [lastWrite] <;> decide

/-- A write of a frame is the last one, or the last one is among those after it. -/
lemma last_of_segments_eq {f : Frame} {done rest : List Segment} {seg : Segment}
    (h : segments f = done ++ seg :: rest) :
    (rest = [] ∧ seg.bytes = lastWrite f) ∨
      ∃ k, (written rest).length = k + (lastWrite f).length := by
  obtain ⟨segs, hlast⟩ := exists_segments_eq f
  rcases List.eq_nil_or_concat rest with rfl | ⟨rest', seg', rfl⟩
  · obtain ⟨-, hseg⟩ := List.append_inj' (h.symm.trans hlast) rfl
    obtain rfl : seg = .all (lastWrite f) := (List.cons.inj hseg).1
    exact Or.inl ⟨rfl, rfl⟩
  · have hseg : seg' = .all (lastWrite f) := by
      rw [List.concat_eq_append, ← List.cons_append, ← List.append_assoc] at h
      obtain ⟨-, heq⟩ := List.append_inj' (h.symm.trans hlast) rfl
      exact (List.cons.inj heq).1
    refine Or.inr ⟨(written rest').length, ?_⟩
    rw [List.concat_eq_append, written_append, List.length_append, hseg]
    simp [written, Segment.bytes]

/-- A buffer of some length is enough for a frame exactly if its encoding is not longer. -/
lemma suffices_iff {f : Frame} {n : ℕ} (hn : n < 2 ^ 64) :
    (∀ buf : Bytes, n ≤ buf.length → buf.length < 2 ^ 64 → ∃ k, (emitFrame f buf).1 = .ok k) ↔
      (encode f).length ≤ n := by
  constructor
  · intro h
    obtain ⟨k, hk⟩ := h (List.replicate n 0) (by simp) (by simpa using hn)
    obtain ⟨rfl, hle, -⟩ := emitFrame_ok (Prod.ext hk rfl : emitFrame f _ = (.ok k, _))
    simpa using hle
  · intro hle buf hbuf hlt
    exact ⟨_, by rw [emitFrame_of_le (hle.trans hbuf) hlt]⟩

/-- **When the error says what is required.** The `have` of the error is the length of the buffer.
Its `needed` is enough for the frame, on every buffer that long, exactly if everything before the
last write fits the buffer: `needed` is the end of the write that failed, and only the last one
ends where the frame does. -/
theorem needed_suffices_iff {f : Frame} {out : Bytes} {needed available : ℕ}
    (hout : out.length < 2 ^ 63)
    (h : (emitFrame f out).1 = .error (.bufferTooSmall needed available)) :
    available = out.length ∧
    ((∀ buf : Bytes, needed ≤ buf.length → buf.length < 2 ^ 64 →
        ∃ n, (emitFrame f buf).1 = .ok n) ↔
      (encode f).length ≤ out.length + (lastWrite f).length) := by
  rcases emitFrame_cases f hout with ⟨-, heq⟩ | ⟨done, seg, rest, hsegs, hdone, hmiss, heq⟩
  · rw [heq] at h
    cases h
  · rw [heq] at h
    obtain ⟨rfl, rfl⟩ : saturatingAdd (written done).length seg.bytes.length = needed ∧
        out.length = available := by
      cases h
      exact ⟨rfl, rfl⟩
    have hle : saturatingAdd (written done).length seg.bytes.length ≤ wordMod - 1 :=
      Nat.min_le_right _ _
    have hlast := lastWrite_bounds f
    rw [wordMod_eq] at hle
    refine ⟨rfl, ?_⟩
    rw [suffices_iff (by omega)]
    by_cases hword : (encode f).length < wordMod
    · have hbody : (body f).length < wordMod := by
        simp only [encode, List.length_append] at hword
        omega
      have hencode : (encode f).length =
          (written done).length + seg.bytes.length + (written rest).length := by
        have hcons : written (seg :: rest) = seg.bytes ++ written rest := List.flatMap_cons
        rw [← written_segments hbody, hsegs, written_append, hcons, List.length_append,
          List.length_append, add_assoc]
      have hneeded : saturatingAdd (written done).length seg.bytes.length =
          (written done).length + seg.bytes.length := Nat.min_eq_left (by omega)
      rw [hneeded]
      rcases last_of_segments_eq hsegs with ⟨rfl, hseg⟩ | ⟨k, hrest⟩
      · have hnil : (written []).length = 0 := rfl
        rw [hnil] at hencode
        rw [hseg] at hencode ⊢
        omega
      · omega
    · -- no buffer holds such a frame, and none is ever asked for
      rw [wordMod_eq] at hword
      constructor <;> intro hfits <;> omega

/-- A buffer that lacks one byte: the error asks for the length of the frame, and a retry with it
succeeds. -/
theorem needed_suffices_iff_one_short :
    let f : Frame := .msg (ascii "foo") (ascii "1") none (ascii "hi")
    (emitFrame f (List.replicate 16 0)).1 = .error (.bufferTooSmall 17 16) ∧
      ∀ buf : Bytes, 17 ≤ buf.length → buf.length < 2 ^ 64 →
        ∃ n, (emitFrame f buf).1 = .ok n := by
  intro f
  have herror : (emitFrame f (List.replicate 16 0)).1 = .error (.bufferTooSmall 17 16) := by
    decide +kernel
  exact ⟨herror, (needed_suffices_iff (by decide) herror).2.mpr (by decide +kernel)⟩

/-- A `MSG` on a buffer of six bytes: the error asks for seven, the end of the subject, and a retry
with seven asks for eight. -/
theorem needed_too_small :
    let f : Frame := .msg (ascii "foo") (ascii "1") none (ascii "hi")
    (emitFrame f (List.replicate 6 0)).1 = .error (.bufferTooSmall 7 6) ∧
      (emitFrame f (List.replicate 7 0)).1 = .error (.bufferTooSmall 8 7) := by
  decide +kernel

end Aulon.Proto
