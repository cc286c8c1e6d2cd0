import Aulon.Lib.Decimal
import Aulon.Lib.Word
import Aulon.Proto.Frame

/-!
# The wire emitter

Each `emit*` function writes one encoded frame at the start of a caller-provided buffer and
returns the number of bytes written. The buffer is the state of `EmitM`; it survives an error,
as the bytes written before the failing write do in the source.

* `encode f` — the reference encoding of a frame, as one byte string. It is not translated from
  the source: `emitFrame_ok` is the statement that the writes of `emitFrame` produce it, and
  `emitFrame_of_le` that they succeed where it fits.
* `Writes m bs` — `m` writes `bs` at the position it is started from and nothing else, and
  succeeds where there is room. `Writes.bind` composes two such writes.
* `segments f` — the writes of a frame, as data; `emitFrame_eq_writeSegments` says that the emitter
  is their chain, so that it is specified by its list of writes.

Source: `aulon-proto/src/emit.rs`.
-/

namespace Aulon.Proto

open Aulon.Lib

/-- A computation on the output buffer that may run out of space. -/
abbrev EmitM (α : Type) : Type := ExceptT EmitError (StateM Bytes) α

/-- Source: `emit.rs`, `U64_DIGITS_MAX` -/
def u64DigitsMax : ℕ := 20

/-! ## Byte-level writers -/

/-- Copy `src` to position `pos`, if it ends within the buffer.
Source: `emit.rs`, `write_all` -/
def writeAll (pos : ℕ) (src : Bytes) : EmitM ℕ := fun out =>
  match checkedAdd pos src.length with
  | none => (.error (.bufferTooSmall (wordMod - 1) out.length), out)
  | some stop =>
      if stop > out.length then
        (.error (.bufferTooSmall stop out.length), out)
      else
        (.ok stop, out.take pos ++ src ++ out.drop stop)

/-- Source: `emit.rs`, `write_byte` -/
def writeByte (pos : ℕ) (byte : UInt8) : EmitM ℕ := fun out =>
  if pos ≥ out.length then
    (.error (.bufferTooSmall (pos + 1) out.length), out)
  else
    (.ok (pos + 1), out.set pos byte)

/-- The digit loop of `write_decimal_u64`: fill `tmp` from `len` on with the digits of `value`,
least significant first. Each turn divides `value` by ten, so `value` turns are enough and the
fuel is never what ends the loop.
Source: `emit.rs`, `write_decimal_u64` (`while value > 0`) -/
def digitLoop : ℕ → ℕ → Bytes → ℕ → Bytes × ℕ
  | 0, _, tmp, len => (tmp, len)
  | fuel + 1, value, tmp, len =>
      if value > 0 then
        digitLoop fuel (value / 10) (tmp.set len (48 + UInt8.ofNat (value % 10))) (len + 1)
      else
        (tmp, len)

/-- Write the decimal digits of `value`: into a temporary, in reverse, and from there into the
buffer, one byte at a time.
Source: `emit.rs`, `write_decimal_u64` -/
def writeDecimalU64 (pos : ℕ) (value : UInt64) : EmitM ℕ := fun out =>
  let tmp : Bytes := List.replicate u64DigitsMax 0
  let (tmp, len) :=
    if value = 0 then (tmp.set 0 48, 1) else digitLoop value.toNat value.toNat tmp 0
  match checkedAdd pos len with
  | none => (.error (.bufferTooSmall (wordMod - 1) out.length), out)
  | some stop =>
      if stop > out.length then
        (.error (.bufferTooSmall stop out.length), out)
      else
        (.ok stop,
          (List.range len).foldl (fun out i => out.set (pos + i) (tmp.getD (len - 1 - i) 0)) out)

/-! ## The frame writers -/

/-- Source: `emit.rs`, `emit_ping` -/
def emitPing : EmitM ℕ := writeAll 0 (ascii "PING\r\n")

/-- Source: `emit.rs`, `emit_pong` -/
def emitPong : EmitM ℕ := writeAll 0 (ascii "PONG\r\n")

/-- Source: `emit.rs`, `emit_ok` -/
def emitOk : EmitM ℕ := writeAll 0 (ascii "+OK\r\n")

/-- The shape `-ERR`, `INFO` and `CONNECT` share: a verb with its space, a text taken verbatim,
and the line end. -/
def emitVerbatim (verb text : Bytes) : EmitM ℕ := do
  let n ← writeAll 0 verb
  let n ← writeAll n text
  writeAll n crlf

/-- Source: `emit.rs`, `emit_err` -/
def emitErr (message : Bytes) : EmitM ℕ := emitVerbatim (ascii "-ERR ") message

/-- Source: `emit.rs`, `emit_info` -/
def emitInfo (options : Bytes) : EmitM ℕ := emitVerbatim (ascii "INFO ") options

/-- Source: `emit.rs`, `emit_connect` -/
def emitConnect (options : Bytes) : EmitM ℕ := emitVerbatim (ascii "CONNECT ") options

/-- An optional middle field with the space after it. -/
def writeOptional (pos : ℕ) : Option Bytes → EmitM ℕ
  | some field => do
      let n ← writeAll pos field
      writeByte n sp
  | none => pure pos

/-- Source: `emit.rs`, `emit_sub` -/
def emitSub (subject : Bytes) (queueGroup : Option Bytes) (sid : Bytes) : EmitM ℕ := do
  let n ← writeAll 0 (ascii "SUB ")
  let n ← writeAll n subject
  let n ← writeByte n sp
  let n ← writeOptional n queueGroup
  let n ← writeAll n sid
  writeAll n crlf

/-- The optional `max_msgs` of an `UNSUB`, with the space before it. -/
def writeMaxMsgs (pos : ℕ) : Option UInt64 → EmitM ℕ
  | some m => do
      let n ← writeByte pos sp
      writeDecimalU64 n m
  | none => pure pos

/-- Source: `emit.rs`, `emit_unsub` -/
def emitUnsub (sid : Bytes) (maxMsgs : Option UInt64) : EmitM ℕ := do
  let n ← writeAll 0 (ascii "UNSUB ")
  let n ← writeAll n sid
  let n ← writeMaxMsgs n maxMsgs
  writeAll n crlf

/-- The tail `PUB` and `MSG` share: the optional reply subject, the payload length, the line
end, the payload and its line end. -/
def emitBody (pos : ℕ) (replyTo : Option Bytes) (payload : Bytes) : EmitM ℕ := do
  let n ← writeOptional pos replyTo
  let n ← writeDecimalU64 n (UInt64.ofNat payload.length)
  let n ← writeAll n crlf
  let n ← writeAll n payload
  writeAll n crlf

/-- Source: `emit.rs`, `emit_pub` -/
def emitPub (subject : Bytes) (replyTo : Option Bytes) (payload : Bytes) : EmitM ℕ := do
  let n ← writeAll 0 (ascii "PUB ")
  let n ← writeAll n subject
  let n ← writeByte n sp
  emitBody n replyTo payload

/-- Source: `emit.rs`, `emit_msg` -/
def emitMsg (subject sid : Bytes) (replyTo : Option Bytes) (payload : Bytes) : EmitM ℕ := do
  let n ← writeAll 0 (ascii "MSG ")
  let n ← writeAll n subject
  let n ← writeByte n sp
  let n ← writeAll n sid
  let n ← writeByte n sp
  emitBody n replyTo payload

/-- Source: `emit.rs`, `emit_frame` -/
def emitFrame : Frame → EmitM ℕ
  | .ping => emitPing
  | .pong => emitPong
  | .ok => emitOk
  | .err message => emitErr message
  | .info options => emitInfo options
  | .connect options => emitConnect options
  | .sub subject queueGroup sid => emitSub subject queueGroup sid
  | .unsub sid maxMsgs => emitUnsub sid maxMsgs
  | .pub subject replyTo payload => emitPub subject replyTo payload
  | .msg subject sid replyTo payload => emitMsg subject sid replyTo payload

/-! ## The reference encoding -/

/-- An optional field followed by one space. -/
def encodeOptional : Option Bytes → Bytes
  | some field => field ++ [sp]
  | none => []

/-- The header line of a frame, without its line end. -/
def headerLine : Frame → Bytes
  | .ping => ascii "PING"
  | .pong => ascii "PONG"
  | .ok => ascii "+OK"
  | .err message => ascii "-ERR" ++ [sp] ++ message
  | .info options => ascii "INFO" ++ [sp] ++ options
  | .connect options => ascii "CONNECT" ++ [sp] ++ options
  | .sub subject queueGroup sid =>
      ascii "SUB" ++ [sp] ++ (subject ++ [sp] ++ (encodeOptional queueGroup ++ sid))
  | .unsub sid none => ascii "UNSUB" ++ [sp] ++ sid
  | .unsub sid (some m) => ascii "UNSUB" ++ [sp] ++ (sid ++ [sp] ++ decimal m.toNat)
  | .pub subject replyTo payload =>
      ascii "PUB" ++ [sp] ++
        (subject ++ [sp] ++ (encodeOptional replyTo ++ decimal payload.length))
  | .msg subject sid replyTo payload =>
      ascii "MSG" ++ [sp] ++
        (subject ++ [sp] ++ (sid ++ [sp] ++ (encodeOptional replyTo ++ decimal payload.length)))

/-- What follows the header line of a frame: the payload and its line end, where the verb has
one. -/
def body : Frame → Bytes
  | .pub _ _ payload => payload ++ crlf
  | .msg _ _ _ payload => payload ++ crlf
  | _ => []

/-- The reference encoding of a frame: verb and fields separated by single spaces, the payload
length in decimal, line end, payload, line end. -/
def encode (f : Frame) : Bytes := headerLine f ++ crlf ++ body f

/-! ## What a chain of writes leaves in the buffer -/

/-- Whenever `m`, started at a position within the buffer, succeeds, it has put `bs` there,
changed nothing else, and returned the position after them; it succeeds where `bs` fits; and the
buffer keeps its length also when it fails. -/
structure Writes (m : ℕ → EmitM ℕ) (bs : Bytes) : Prop where
  ok : ∀ pos out n out', pos ≤ out.length → m pos out = (.ok n, out') →
    n = pos + bs.length ∧ n ≤ out.length ∧ out' = overwrite out pos bs
  fits : ∀ pos out, pos + bs.length ≤ out.length → out.length < wordMod →
    ∃ n out', m pos out = (.ok n, out')
  fails : ∀ pos out e out', pos ≤ out.length → m pos out = (.error e, out') →
    out'.length = out.length

/-- A successful sequence is a success of its parts. -/
lemma bind_eq_ok {m : EmitM ℕ} {k : ℕ → EmitM ℕ} {out out' : Bytes} {n : ℕ}
    (h : (m >>= k) out = (.ok n, out')) :
    ∃ n₁ out₁, m out = (.ok n₁, out₁) ∧ k n₁ out₁ = (.ok n, out') := by
  change ExceptT.bindCont k (m out).1 (m out).2 = _ at h
  rcases hm : m out with ⟨e | n₁, out₁⟩
  · rw [hm] at h; cases h
  · rw [hm] at h; exact ⟨n₁, out₁, rfl, h⟩

/-- A sequence that fails has failed in one of its parts. -/
lemma bind_eq_error {m : EmitM ℕ} {k : ℕ → EmitM ℕ} {out out' : Bytes} {e : EmitError}
    (h : (m >>= k) out = (.error e, out')) : m out = (.error e, out') ∨
      ∃ n₁ out₁, m out = (.ok n₁, out₁) ∧ k n₁ out₁ = (.error e, out') := by
  change ExceptT.bindCont k (m out).1 (m out).2 = _ at h
  rcases hm : m out with ⟨e₁ | n₁, out₁⟩
  · rw [hm] at h; cases h; exact Or.inl rfl
  · rw [hm] at h; exact Or.inr ⟨n₁, out₁, rfl, h⟩

/-- A program whose first part succeeds goes on. -/
lemma bind_of_ok {m : EmitM ℕ} {k : ℕ → EmitM ℕ} {out out₁ : Bytes} {n₁ : ℕ}
    (h : m out = (.ok n₁, out₁)) : (m >>= k) out = k n₁ out₁ := by
  change ExceptT.bindCont k (m out).1 (m out).2 = _
  rw [h]
  rfl

/-- A program whose first part fails stops there. -/
lemma bind_of_error {m : EmitM ℕ} {k : ℕ → EmitM ℕ} {out out₁ : Bytes} {e : EmitError}
    (h : m out = (.error e, out₁)) : (m >>= k) out = (.error e, out₁) := by
  change ExceptT.bindCont k (m out).1 (m out).2 = _
  rw [h]
  rfl

/-- Two writes in sequence write the concatenation. -/
lemma Writes.bind {m k : ℕ → EmitM ℕ} {a b : Bytes} (hm : Writes m a) (hk : Writes k b) :
    Writes (fun pos => m pos >>= k) (a ++ b) where
  ok := by
    intro pos out n out' hpos h
    obtain ⟨n₁, out₁, h₁, h₂⟩ := bind_eq_ok h
    obtain ⟨rfl, hle, rfl⟩ := hm.ok _ _ _ _ hpos h₁
    have hlen := length_overwrite hle
    obtain ⟨rfl, hle₂, rfl⟩ := hk.ok _ _ _ _ (by omega) h₂
    refine ⟨by rw [List.length_append]; omega, by omega, overwrite_overwrite (by omega)⟩
  fits := by
    intro pos out hfit hword
    rw [List.length_append] at hfit
    obtain ⟨n₁, out₁, h₁⟩ := hm.fits pos out (by omega) hword
    obtain ⟨rfl, hle, rfl⟩ := hm.ok _ _ _ _ (by omega) h₁
    have hlen := length_overwrite hle
    obtain ⟨n, out', h₂⟩ := hk.fits (pos + a.length) (overwrite out pos a) (by omega) (by omega)
    exact ⟨n, out', by rw [bind_of_ok h₁, h₂]⟩
  fails := by
    intro pos out e out' hpos h
    rcases bind_eq_error h with h₁ | ⟨n₁, out₁, h₁, h₂⟩
    · exact hm.fails _ _ _ _ hpos h₁
    · obtain ⟨rfl, hle, rfl⟩ := hm.ok _ _ _ _ hpos h₁
      have hlen := length_overwrite hle
      exact (hk.fails _ _ _ _ (by omega) h₂).trans hlen

/-- The program that does nothing writes nothing. -/
lemma writes_pure : Writes (fun pos => pure pos) [] where
  ok := by
    intro pos out n out' hpos h
    cases h
    exact ⟨rfl, hpos, (overwrite_nil out pos).symm⟩
  fits := fun pos out _ _ => ⟨pos, out, rfl⟩
  fails := fun _ _ _ _ _ h => by cases h

/-- `write_all` writes its bytes. -/
lemma writes_writeAll (src : Bytes) : Writes (fun pos => writeAll pos src) src where
  ok := by
    intro pos out n out' hpos h
    simp only [writeAll] at h
    split at h
    · cases h
    · rename_i stop hstop
      split_ifs at h with hlt
      · cases h
      · cases h
        obtain ⟨-, rfl⟩ := checkedAdd_eq_some.mp hstop
        exact ⟨rfl, by omega, rfl⟩
  fits := by
    intro pos out hfit hword
    simp only [writeAll, checkedAdd_of_lt (show pos + src.length < wordMod by omega),
      if_neg (not_lt.mpr hfit)]
    exact ⟨_, _, rfl⟩
  fails := by
    intro pos out e out' _ h
    simp only [writeAll] at h
    split at h
    · cases h; rfl
    · split_ifs at h <;> cases h
      rfl

/-- A successful `writeAll` ends at a position that fits a word. -/
lemma writeAll_lt_wordMod {pos n : ℕ} {src out out' : Bytes}
    (h : writeAll pos src out = (.ok n, out')) : n < wordMod := by
  simp only [writeAll] at h
  split at h
  · cases h
  · rename_i stop hstop
    split_ifs at h with hlt
    · cases h
    · cases h
      exact (checkedAdd_eq_some.mp hstop).2 ▸ (checkedAdd_eq_some.mp hstop).1

/-- `write_byte` writes its byte. -/
lemma writes_writeByte (b : UInt8) : Writes (fun pos => writeByte pos b) [b] where
  ok := by
    intro pos out n out' hpos h
    simp only [writeByte] at h
    split_ifs at h with hge
    · cases h
    · cases h
      exact ⟨rfl, by omega, set_eq_overwrite (by omega) b⟩
  fits := by
    intro pos out hfit _
    rw [List.length_singleton] at hfit
    simp only [writeByte, if_neg (show ¬ pos ≥ out.length by omega)]
    exact ⟨_, _, rfl⟩
  fails := by
    intro pos out e out' _ h
    simp only [writeByte] at h
    split_ifs at h <;> cases h
    rfl

/-! ### The decimal writer -/

/-- The digit loop puts the digits of `value`, least significant first, after what it was given. -/
lemma digitLoop_eq (fuel : ℕ) : ∀ (value : ℕ) (tmp : Bytes) (len : ℕ), value ≤ fuel →
    len + (Nat.digits 10 value).length ≤ tmp.length →
    digitLoop fuel value tmp len =
      (overwrite tmp len ((Nat.digits 10 value).map digitByte),
        len + (Nat.digits 10 value).length) := by
  induction fuel with
  | zero =>
      intro value tmp len hv _
      obtain rfl : value = 0 := by omega
      simp [digitLoop]
  | succ fuel ih =>
      intro value tmp len hv hlen
      by_cases h0 : value = 0
      · subst h0; simp [digitLoop]
      · have hdig : Nat.digits 10 value = value % 10 :: Nat.digits 10 (value / 10) :=
          Nat.digits_def' (by decide) (by omega)
        have hlen' : len + 1 + (Nat.digits 10 (value / 10)).length ≤ tmp.length := by
          rw [hdig, List.length_cons] at hlen; omega
        rw [digitLoop, if_pos (by omega), ih (value / 10) _ _ (by omega) (by simpa using hlen'),
          hdig, set_eq_overwrite (by omega), List.map_cons, List.length_cons]
        have hroom : len + [digitByte (value % 10)].length +
            ((Nat.digits 10 (value / 10)).map digitByte).length ≤ tmp.length := by
          simpa using hlen'
        refine Prod.ext (overwrite_overwrite hroom) ?_
        simp only
        omega

/-- A `u64` has at most twenty digits. -/
lemma length_digits_le (v : UInt64) : (Nat.digits 10 v.toNat).length ≤ u64DigitsMax := by
  rw [u64DigitsMax, Nat.digits_length_le_iff (by decide)]
  have := v.toNat_lt
  omega

/-- The temporary the digit loop fills, read backwards over the digits, is the numeral. -/
lemma map_getD_overwrite (ds tmp : Bytes) :
    (List.range ds.length).map (fun i => (overwrite tmp 0 ds).getD (ds.length - 1 - i) 0) =
      ds.reverse := by
  apply List.ext_getElem
  · simp
  · intro i hi₁ hi₂
    have hi : i < ds.length := by simpa using hi₁
    simp only [List.getElem_map, List.getElem_range, List.getElem_reverse, overwrite,
      List.take_zero, List.nil_append]
    rw [List.getD_append _ _ _ _ (by omega), List.getD_eq_getElem]

/-- Both branches of the source leave the digits, least significant first, in the temporary. -/
lemma exists_digits (v : UInt64) : ∃ ds : Bytes, decimal v.toNat = ds.reverse ∧
    (if v = 0 then ((List.replicate u64DigitsMax 0).set 0 48, 1)
      else digitLoop v.toNat v.toNat (List.replicate u64DigitsMax 0) 0) =
      (overwrite (List.replicate u64DigitsMax 0) 0 ds, ds.length) := by
  by_cases hv : v = 0
  · subst hv
    exact ⟨[digitByte 0], rfl, by decide⟩
  · have hv' : v.toNat ≠ 0 := fun h0 => hv (UInt64.toNat_inj.mp h0)
    refine ⟨(Nat.digits 10 v.toNat).map digitByte, ?_, ?_⟩
    · rw [decimal, if_neg hv']
    · rw [if_neg hv, digitLoop_eq _ _ _ _ le_rfl (by simpa using length_digits_le v)]
      simp

/-- The decimal writer writes the canonical numeral. -/
lemma writes_writeDecimalU64 (v : UInt64) :
    Writes (fun pos => writeDecimalU64 pos v) (decimal v.toNat) where
  ok := by
    intro pos out n out' hpos h
    obtain ⟨ds, hdec, htmp⟩ := exists_digits v
    simp only [writeDecimalU64, htmp] at h
    split at h
    · cases h
    · rename_i stop hstop
      split_ifs at h with hlt
      · cases h
      · cases h
        obtain ⟨-, rfl⟩ := checkedAdd_eq_some.mp hstop
        rw [foldl_set_eq_overwrite _ _ (by omega), map_getD_overwrite, ← hdec]
        refine ⟨by rw [hdec, List.length_reverse], by omega, rfl⟩
  fits := by
    intro pos out hfit hword
    obtain ⟨ds, hdec, htmp⟩ := exists_digits v
    rw [hdec, List.length_reverse] at hfit
    simp only [writeDecimalU64, htmp, checkedAdd_of_lt (show pos + ds.length < wordMod by omega),
      if_neg (not_lt.mpr hfit)]
    exact ⟨_, _, rfl⟩
  fails := by
    intro pos out e out' _ h
    simp only [writeDecimalU64] at h
    split at h
    · cases h; rfl
    · split_ifs at h <;> cases h
      rfl

/-! ### The frame writers -/

/-- Every success of `m` ends at a position that fits a word. -/
def EndsInWord (m : EmitM ℕ) : Prop := ∀ out n out', m out = (.ok n, out') → n < wordMod

/-- A payload whose frame was written is shorter than `2 ^ 64` bytes, so the length in its header
is its length. -/
lemma toNat_ofNat_of_le {k n : ℕ} (hk : k ≤ n) (hn : n < wordMod) :
    (UInt64.ofNat k).toNat = k := by
  rw [UInt64.toNat_ofNat']
  exact Nat.mod_eq_of_lt (lt_of_le_of_lt hk hn)

/-- One write of the emitter: bytes, a single byte, or a number in decimal. -/
inductive Segment where
  | all (src : Bytes)
  | byte (b : UInt8)
  | decimal (value : UInt64)

namespace Segment

/-- What the write puts into the buffer. -/
def bytes : Segment → Bytes
  | .all src => src
  | .byte b => [b]
  | .decimal value => Lib.decimal value.toNat

/-- The helper that does the write. -/
def write : Segment → ℕ → EmitM ℕ
  | .all src, pos => writeAll pos src
  | .byte b, pos => writeByte pos b
  | .decimal value, pos => writeDecimalU64 pos value

end Segment

/-- The writes one after the other, each from where the one before it ended. -/
def writeSegments : List Segment → ℕ → EmitM ℕ
  | [], pos => pure pos
  | seg :: segs, pos => seg.write pos >>= writeSegments segs

/-- The writes of an optional field. -/
def optionalSegments : Option Bytes → List Segment
  | some field => [.all field, .byte sp]
  | none => []

/-- The writes of the tail of a `PUB` or `MSG`. -/
def bodySegments (replyTo : Option Bytes) (payload : Bytes) : List Segment :=
  optionalSegments replyTo ++
    [.decimal (UInt64.ofNat payload.length), .all crlf, .all payload, .all crlf]

/-- The writes of a frame, in order. -/
def segments : Frame → List Segment
  | .ping => [.all (ascii "PING\r\n")]
  | .pong => [.all (ascii "PONG\r\n")]
  | .ok => [.all (ascii "+OK\r\n")]
  | .err message => [.all (ascii "-ERR "), .all message, .all crlf]
  | .info options => [.all (ascii "INFO "), .all options, .all crlf]
  | .connect options => [.all (ascii "CONNECT "), .all options, .all crlf]
  | .sub subject queueGroup sid =>
      [.all (ascii "SUB "), .all subject, .byte sp] ++ optionalSegments queueGroup ++
        [.all sid, .all crlf]
  | .unsub sid none => [.all (ascii "UNSUB "), .all sid, .all crlf]
  | .unsub sid (some m) => [.all (ascii "UNSUB "), .all sid, .byte sp, .decimal m, .all crlf]
  | .pub subject replyTo payload =>
      [.all (ascii "PUB "), .all subject, .byte sp] ++ bodySegments replyTo payload
  | .msg subject sid replyTo payload =>
      [.all (ascii "MSG "), .all subject, .byte sp, .all sid, .byte sp] ++
        bodySegments replyTo payload

/-- A list of one segment. -/
lemma writeSegments_singleton (seg : Segment) (pos : ℕ) :
    writeSegments [seg] pos = seg.write pos := bind_pure _

/-- The segments of two lists are written one after the other. -/
lemma writeSegments_append (segs segs' : List Segment) (pos : ℕ) :
    writeSegments (segs ++ segs') pos = writeSegments segs pos >>= writeSegments segs' := by
  induction segs generalizing pos with
  | nil => exact (pure_bind _ _).symm
  | cons seg segs ih =>
      rw [List.cons_append, writeSegments, writeSegments, bind_assoc]
      exact congrArg _ (funext ih)

/-- An optional field is written as its segments. -/
lemma writeSegments_optional (field : Option Bytes) (pos : ℕ) :
    writeSegments (optionalSegments field) pos = writeOptional pos field := by
  cases field with
  | none => rfl
  | some field =>
      simp only [optionalSegments, writeSegments, bind_pure]
      rfl

/-- Reply and payload are written as their segments. -/
lemma writeSegments_body (replyTo : Option Bytes) (payload : Bytes) (pos : ℕ) :
    writeSegments (bodySegments replyTo payload) pos = emitBody pos replyTo payload := by
  simp only [bodySegments, writeSegments_append, writeSegments_optional, writeSegments, bind_pure]
  rfl

/-- The emitter is the chain of the writes of the frame. -/
theorem emitFrame_eq_writeSegments (f : Frame) : emitFrame f = writeSegments (segments f) 0 := by
  cases f with
  | ping => exact (writeSegments_singleton (.all (ascii "PING\r\n")) 0).symm
  | pong => exact (writeSegments_singleton (.all (ascii "PONG\r\n")) 0).symm
  | ok => exact (writeSegments_singleton (.all (ascii "+OK\r\n")) 0).symm
  | err message => simp only [segments, writeSegments, bind_pure]; rfl
  | info options => simp only [segments, writeSegments, bind_pure]; rfl
  | connect options => simp only [segments, writeSegments, bind_pure]; rfl
  | sub subject queueGroup sid =>
      simp only [segments, writeSegments_append, writeSegments_optional, writeSegments, bind_pure,
        bind_assoc]
      rfl
  | unsub sid maxMsgs =>
      cases maxMsgs with
      | none => simp only [segments, writeSegments, bind_pure]; rfl
      | some m =>
          simp only [segments, writeSegments, bind_pure, emitFrame, emitUnsub, writeMaxMsgs,
            bind_assoc]
          rfl
  | pub subject replyTo payload =>
      simp only [segments, writeSegments_append, writeSegments, bind_pure, bind_assoc,
        funext (writeSegments_body replyTo payload)]
      rfl
  | msg subject sid replyTo payload =>
      simp only [segments, writeSegments_append, writeSegments, bind_pure, bind_assoc,
        funext (writeSegments_body replyTo payload)]
      rfl

/-- The bytes of some writes. -/
def written (segs : List Segment) : Bytes := segs.flatMap Segment.bytes

/-- What the segments of two lists write. -/
lemma written_append (segs segs' : List Segment) :
    written (segs ++ segs') = written segs ++ written segs' := List.flatMap_append

/-- What an optional field writes. -/
lemma written_optional (field : Option Bytes) :
    written (optionalSegments field) = encodeOptional field := by
  cases field <;> simp [written, optionalSegments, Segment.bytes, encodeOptional]

/-- The length field holds the length of every payload that fits its type. -/
lemma toNat_length_payload {payload : Bytes} (h : (payload ++ crlf).length < wordMod) :
    (UInt64.ofNat payload.length).toNat = payload.length :=
  toNat_ofNat_of_le (by rw [List.length_append]; omega) h

/-- The writes of a frame make up its encoding, as long as the length of the payload fits the type
of the length field. -/
lemma written_segments {f : Frame} (hbody : (body f).length < wordMod) :
    written (segments f) = encode f := by
  cases f with
  | ping | pong | ok => decide
  | err message =>
      have hverb : ascii "-ERR " = ascii "-ERR" ++ [sp] := by decide
      simp [written, segments, Segment.bytes, encode, headerLine, body, hverb]
  | info options =>
      have hverb : ascii "INFO " = ascii "INFO" ++ [sp] := by decide
      simp [written, segments, Segment.bytes, encode, headerLine, body, hverb]
  | connect options =>
      have hverb : ascii "CONNECT " = ascii "CONNECT" ++ [sp] := by decide
      simp [written, segments, Segment.bytes, encode, headerLine, body, hverb]
  | sub subject queueGroup sid =>
      have hverb : ascii "SUB " = ascii "SUB" ++ [sp] := by decide
      rw [segments, written_append, written_append, written_optional]
      simp [written, Segment.bytes, encode, headerLine, body, hverb]
  | unsub sid maxMsgs =>
      have hverb : ascii "UNSUB " = ascii "UNSUB" ++ [sp] := by decide
      cases maxMsgs <;>
        simp [written, segments, Segment.bytes, encode, headerLine, body, hverb]
  | pub subject replyTo payload =>
      have hverb : ascii "PUB " = ascii "PUB" ++ [sp] := by decide
      have hlen := toNat_length_payload hbody
      rw [segments, bodySegments, written_append, written_append, written_optional]
      simp [written, Segment.bytes, encode, headerLine, body, hverb, hlen]
  | msg subject sid replyTo payload =>
      have hverb : ascii "MSG " = ascii "MSG" ++ [sp] := by decide
      have hlen := toNat_length_payload hbody
      rw [segments, bodySegments, written_append, written_append, written_optional]
      simp [written, Segment.bytes, encode, headerLine, body, hverb, hlen]

/-- The payload is among the writes of its frame. -/
lemma length_body_le_written (f : Frame) : (body f).length ≤ (written (segments f)).length := by
  cases f <;> simp [body, segments, bodySegments, written, Segment.bytes]
  all_goals omega

/-- A segment writes its bytes. -/
lemma writes_write (seg : Segment) : Writes seg.write seg.bytes := by
  cases seg with
  | all src => exact writes_writeAll src
  | byte b => exact writes_writeByte b
  | decimal value => exact writes_writeDecimalU64 value

/-- A list of segments writes their bytes. -/
lemma writes_writeSegments (segs : List Segment) : Writes (writeSegments segs) (written segs) := by
  induction segs with
  | nil => exact writes_pure
  | cons seg segs ih => exact (writes_write seg).bind ih

/-- The last write of a frame: all of it for the verbs without fields, the line end for the
others. -/
def lastWrite : Frame → Bytes
  | .ping => ascii "PING\r\n"
  | .pong => ascii "PONG\r\n"
  | .ok => ascii "+OK\r\n"
  | _ => crlf

/-- The segments of a frame end with the bytes of its last write. -/
lemma exists_segments_eq (f : Frame) : ∃ segs, segments f = segs ++ [.all (lastWrite f)] := by
  rw [← List.getLast?_eq_some_iff]
  cases f with
  | ping | pong | ok | err message | info options | connect options => rfl
  | sub subject queueGroup sid => cases queueGroup <;> rfl
  | unsub sid maxMsgs => cases maxMsgs <;> rfl
  | pub subject replyTo payload | msg subject sid replyTo payload => cases replyTo <;> rfl

/-- A frame that was written is shorter than `2 ^ 64` bytes: every chain of writes ends in a
checked one. -/
lemma endsInWord_emitFrame (f : Frame) : EndsInWord (emitFrame f) := by
  intro out n out' h
  obtain ⟨segs, hsegs⟩ := exists_segments_eq f
  rw [emitFrame_eq_writeSegments, hsegs, writeSegments_append] at h
  obtain ⟨n₁, out₁, -, hlast⟩ := bind_eq_ok h
  rw [writeSegments_singleton] at hlast
  exact writeAll_lt_wordMod hlast

/-- **The emitter writes the reference encoding.** A successful `emitFrame` has put the encoding
of the frame at the start of the buffer, left the rest of the buffer alone, and returned the
length of the encoding.
Source: `emit.rs`, `emit_frame` -/
theorem emitFrame_ok {f : Frame} {out out' : Bytes} {n : ℕ}
    (h : emitFrame f out = (.ok n, out')) :
    n = (encode f).length ∧ n ≤ out.length ∧ out' = overwrite out 0 (encode f) := by
  have hword := endsInWord_emitFrame f out n out' h
  have hbody := length_body_le_written f
  rw [emitFrame_eq_writeSegments] at h
  obtain ⟨hn, hle, hout⟩ := (writes_writeSegments _).ok 0 out n out' (Nat.zero_le _) h
  have hwritten : written (segments f) = encode f := written_segments (by omega)
  rw [hwritten] at hn hout
  exact ⟨by omega, hle, hout⟩

/-- **The emitter succeeds where the encoding fits.** -/
theorem emitFrame_of_le {f : Frame} {out : Bytes} (hfit : (encode f).length ≤ out.length)
    (hword : out.length < wordMod) :
    emitFrame f out = (.ok (encode f).length, overwrite out 0 (encode f)) := by
  have hbody : (body f).length ≤ (encode f).length := by
    simp only [encode, List.length_append]
    omega
  obtain ⟨n, out', h⟩ := (writes_writeSegments (segments f)).fits 0 out
    (by rw [written_segments (by omega)]; omega) hword
  rw [← emitFrame_eq_writeSegments] at h
  obtain ⟨rfl, -, rfl⟩ := emitFrame_ok h
  exact h

/-- The emitter never changes the length of the buffer. -/
theorem length_emitFrame (f : Frame) (out : Bytes) :
    (emitFrame f out).2.length = out.length := by
  have hwrites := writes_writeSegments (segments f)
  rw [emitFrame_eq_writeSegments]
  rcases h : writeSegments (segments f) 0 out with ⟨e | n, out'⟩
  · exact hwrites.fails 0 out e out' (Nat.zero_le _) h
  · obtain ⟨rfl, hle, rfl⟩ := hwrites.ok 0 out n out' (Nat.zero_le _) h
    exact length_overwrite hle

end Aulon.Proto
