import Aulon.Core.OutboundQueue
import Aulon.Lib.Checked

/-!
# The outbound buffer over whole histories

The operations once more, as the source writes them: on a state that carries no invariant, with
the byte-by-byte loops, the additions, the subtraction and the indexings that can panic. On the
states of the model they return what the model returns, so a history of calls never panics, and
what it drains is what it accepted.

* `RawState` — the record of the source, with the operations of the source.
* `enqueue_raw`, `drainInto_raw` — they return what the model returns.
* `acceptedBy`, `drainedBy`, `collect` — what a history accepted, and what it drained.
* `outbound_fifo` — over all histories.
-/

namespace Aulon.Core

open Aulon.Lib

/-- The state of a connection as the source declares it.
Source: `connection_state.rs`, `ConnectionState` -/
structure RawState where
  id : ConnectionId
  outboundData : Bytes
  outboundHead : ℕ
  outboundTail : ℕ
  notify : Bool
  closeWith : Option CloseReason

namespace RawState

/-- Source: `connection_state.rs`, `ConnectionState::new` -/
def new (id : ConnectionId) (outboundCapacity : ℕ) : RawState :=
  ⟨id, List.replicate outboundCapacity 0, 0, 0, false, none⟩

/-- Source: `connection_state.rs`, `ConnectionState::enqueue` -/
def enqueue (s : RawState) (bytes : Bytes) : Checked (EnqueueOutcome × RawState) :=
  if s.closeWith.isSome then .ok (.alreadyClosing, s)
  else if saturatingAdd s.outboundTail bytes.length > s.outboundData.length then
    .ok (.slowConsumerClosed, { s with closeWith := some .slowConsumer, notify := true })
  else do
    let data ← Checked.copyLoop bytes 0 s.outboundData s.outboundTail bytes.length
    let tail ← Checked.add s.outboundTail bytes.length
    return (.ok, { s with outboundData := data, outboundTail := tail, notify := true })

/-- Source: `connection_state.rs`, `ConnectionState::mark_close` -/
def markClose (s : RawState) (reason : CloseReason) : RawState :=
  { s with closeWith := s.closeWith.orElse fun _ => some reason, notify := true }

/-- Source: `connection_state.rs`, `ConnectionState::drain_into` -/
def drainInto (s : RawState) (dst : Bytes) : Checked (ℕ × Bytes × RawState) := do
  let pending ← Checked.sub s.outboundTail s.outboundHead
  let n := min pending dst.length
  let dst ← Checked.copyLoop s.outboundData s.outboundHead dst 0 n
  let newHead ← Checked.add s.outboundHead n
  if newHead = s.outboundTail then
    return (n, dst, { s with outboundHead := 0, outboundTail := 0 })
  else
    return (n, dst, { s with outboundHead := newHead })

/-- The state after a call. -/
def apply (s : RawState) : ConnectionState.Call → Checked RawState
  | .enqueue bytes => do return (← s.enqueue bytes).2
  | .drainInto dst => do return (← s.drainInto dst).2.2
  | .markClose reason => .ok (s.markClose reason)

end RawState

namespace ConnectionState

/-- A state of the model, without its invariant. -/
def raw (s : ConnectionState) : RawState :=
  ⟨s.id, s.outboundData, s.outboundHead, s.outboundTail, s.notify, s.closeWith⟩

section raw

variable (s : ConnectionState) (hcap : s.outboundCapacity < signBit)

include hcap

/-- The code's enqueue does not panic, and is the one of the model. -/
lemma enqueue_raw (bytes : Bytes) :
    s.raw.enqueue bytes = .ok ((s.enqueue bytes).1, (s.enqueue bytes).2.raw) := by
  have hlen : s.raw.outboundData.length < signBit := hcap
  have hword : signBit + signBit = wordMod := rfl
  rw [RawState.enqueue]
  obtain ⟨hclose, h⟩ | ⟨hopen, hroom, h⟩ |
    ⟨s', h, hopen, hroom, hid, hdata, hhead, htail, hnotify, hopen'⟩ := s.enqueue_cases bytes
  · have hclosing : s.raw.closeWith.isSome = true := Option.isSome_iff_ne_none.mpr hclose
    rw [if_pos hclosing, h]
  · -- the sum may leave the word, but then the saturated one is still above the capacity
    have hfull : saturatingAdd s.raw.outboundTail bytes.length > s.raw.outboundData.length := by
      change s.raw.outboundData.length < s.raw.outboundTail + bytes.length at hroom
      unfold saturatingAdd
      omega
    have hopening : ¬ s.raw.closeWith.isSome = true := by simp [raw, hopen]
    rw [if_neg hopening, if_pos hfull, h]
    rfl
  · change s.raw.outboundTail + bytes.length ≤ s.raw.outboundData.length at hroom
    have hfits : ¬ saturatingAdd s.raw.outboundTail bytes.length > s.raw.outboundData.length := by
      unfold saturatingAdd
      omega
    have hopening : ¬ s.raw.closeWith.isSome = true := by simp [raw, hopen]
    rw [if_neg hopening, if_neg hfits,
      Checked.bind_ok (Checked.copyLoop_eq (by omega) hroom (by omega) (by omega)),
      Checked.bind_ok (Checked.add_eq (by omega)), h]
    simp only [raw, hid, hdata, hhead, htail, hnotify, hopen, hopen', slice, List.drop_zero,
      zero_add, List.take_length]
    rfl

/-- The code's drain does not panic, and is the one of the model. -/
lemma drainInto_raw (dst : Bytes) : s.raw.drainInto dst =
    .ok ((s.drainInto dst).1, (s.drainInto dst).2.1, (s.drainInto dst).2.2.raw) := by
  have hlen : s.raw.outboundData.length < signBit := hcap
  have hword : signBit + signBit = wordMod := rfl
  have hhead : s.raw.outboundHead ≤ s.raw.outboundTail := s.head_le_tail
  have htail : s.raw.outboundTail ≤ s.raw.outboundData.length := s.tail_le_capacity
  rw [RawState.drainInto, Checked.bind_ok (Checked.sub_eq hhead)]
  simp only
  rw [Checked.bind_ok (Checked.copyLoop_eq (by omega) (by omega) (by omega) (by omega)),
    Checked.bind_ok (Checked.add_eq (by omega)), drainInto]
  by_cases hall : s.outboundHead + min (s.outboundTail - s.outboundHead) dst.length =
      s.outboundTail
  · simp only [raw, hall, if_pos]
    rfl
  · simp only [raw, hall, if_false]
    rfl

/-- No call panics. -/
lemma apply_raw (call : Call) : s.raw.apply call = .ok (call.apply s).raw := by
  cases call with
  | enqueue bytes => exact Checked.bind_ok (s.enqueue_raw hcap bytes) _
  | drainInto dst => exact Checked.bind_ok (s.drainInto_raw hcap dst) _
  | markClose reason => rfl

/-- A history of calls never panics. -/
lemma foldlM_apply_raw (calls : List Call) :
    calls.foldlM RawState.apply s.raw = .ok (calls.foldl Call.apply s).raw := by
  induction calls generalizing s with
  | nil => rfl
  | cons call calls ih =>
      rw [List.foldlM_cons, Checked.bind_ok (s.apply_raw hcap call)]
      exact ih (call.apply s) (by rw [outboundCapacity_apply]; exact hcap)

end raw

/-! ## What goes in comes out -/

/-- The bytes a call appends to the queue: those of an enqueue that returned `Ok`, entirely. -/
def acceptedBy (s : ConnectionState) : Call → Bytes
  | .enqueue bytes => s.accepted bytes
  | .drainInto _ | .markClose _ => []

/-- The bytes a call returns: those a drain put at the start of the buffer of the writer. -/
def drainedBy (s : ConnectionState) : Call → Bytes
  | .drainInto dst => (s.drainInto dst).2.1.take (s.drainInto dst).1
  | .enqueue _ | .markClose _ => []

/-- The concatenation, over a history of calls, of what each of them does. -/
def collect (f : ConnectionState → Call → Bytes) : ConnectionState → List Call → Bytes
  | _, [] => []
  | s, call :: calls => f s call ++ collect f (call.apply s) calls

/-- One call: what was pending and what it accepts is what it drains and what is then pending. -/
lemma pending_append_acceptedBy (s : ConnectionState) (call : Call) :
    s.pending ++ s.acceptedBy call = s.drainedBy call ++ (call.apply s).pending := by
  cases call with
  | enqueue bytes => exact (s.pending_enqueue bytes).symm
  | drainInto dst =>
      rw [acceptedBy, List.append_nil]
      exact (s.take_drainInto dst).symm
  | markClose reason => exact List.append_nil _

/-- What was pending and what was accepted since is what was drained since and what is pending
now. -/
lemma pending_append_collect (s : ConnectionState) (calls : List Call) :
    s.pending ++ collect acceptedBy s calls =
      collect drainedBy s calls ++ (calls.foldl Call.apply s).pending := by
  induction calls generalizing s with
  | nil => exact List.append_nil _
  | cons call calls ih =>
      rw [collect, collect, ← List.append_assoc, pending_append_acceptedBy, List.append_assoc, ih,
        List.append_assoc, List.foldl_cons]

/-! ## Failure and closing -/

/-- An enqueue that fails writes nothing and moves no cursor. -/
lemma enqueue_of_ne_ok {s : ConnectionState} {bytes : Bytes} (h : (s.enqueue bytes).1 ≠ .ok) :
    (s.enqueue bytes).2.outboundData = s.outboundData ∧
      (s.enqueue bytes).2.outboundHead = s.outboundHead ∧
      (s.enqueue bytes).2.outboundTail = s.outboundTail := by
  obtain ⟨-, heq⟩ | ⟨-, -, heq⟩ | ⟨s', heq, -⟩ := s.enqueue_cases bytes
  · rw [heq]
    exact ⟨rfl, rfl, rfl⟩
  · rw [heq]
    exact ⟨rfl, rfl, rfl⟩
  · exact absurd (by rw [heq]) h

/-- On a closing connection a call keeps the reason and accepts nothing. -/
lemma apply_of_closing {s : ConnectionState} {reason : CloseReason}
    (h : s.closeWith = some reason) (call : Call) :
    (call.apply s).closeWith = some reason ∧ s.acceptedBy call = [] := by
  cases call with
  | enqueue bytes =>
      have hclosing := s.enqueue_of_closing bytes (by rw [h]; exact Option.some_ne_none _)
      rw [Call.apply, acceptedBy, accepted, hclosing]
      exact ⟨h, rfl⟩
  | drainInto dst => exact ⟨(s.closeWith_drainInto dst).trans h, rfl⟩
  | markClose reason' =>
      rw [Call.apply, closeWith_markClose, h]
      exact ⟨rfl, rfl⟩

/-- A queue that is closing keeps its reason and accepts nothing more. -/
lemma foldl_of_closing {s : ConnectionState} {reason : CloseReason}
    (h : s.closeWith = some reason) (calls : List Call) :
    (calls.foldl Call.apply s).closeWith = some reason ∧ collect acceptedBy s calls = [] := by
  induction calls generalizing s with
  | nil => exact ⟨h, rfl⟩
  | cons call calls ih =>
      obtain ⟨hclose, hnil⟩ := apply_of_closing h call
      obtain ⟨hlast, hrest⟩ := ih hclose
      exact ⟨hlast, by rw [collect, hnil, hrest, List.nil_append]⟩

/-- **The outbound buffer is a queue of bytes.** After any history of calls on a new connection:
no call panicked, for any capacity a buffer can have; the cursors are in order and within the
capacity; what was drained, followed by what is pending, is what was accepted; an enqueue that
fails changes neither the buffer nor the cursors; and once there is a close reason, it stays and
nothing more is accepted. -/
theorem outbound_fifo (id : ConnectionId) (capacity : ℕ) (calls : List Call) :
    let s := after id capacity calls
    (capacity < 2 ^ 63 → calls.foldlM RawState.apply (.new id capacity) = .ok s.raw) ∧
    s.outboundHead ≤ s.outboundTail ∧ s.outboundTail ≤ capacity ∧
    collect drainedBy (new id capacity) calls ++ s.pending =
      collect acceptedBy (new id capacity) calls ∧
    (∀ bytes, (s.enqueue bytes).1 ≠ .ok → (s.enqueue bytes).2.outboundData = s.outboundData ∧
      (s.enqueue bytes).2.outboundHead = s.outboundHead ∧
      (s.enqueue bytes).2.outboundTail = s.outboundTail) ∧
    ∀ reason, s.closeWith = some reason → ∀ later,
      (later.foldl Call.apply s).closeWith = some reason ∧ collect acceptedBy s later = [] := by
  intro s
  have hcapacity : (new id capacity).outboundCapacity = capacity := List.length_replicate
  have htail : s.outboundTail ≤ s.outboundCapacity := s.tail_le_capacity
  rw [outboundCapacity_after] at htail
  have hqueue := pending_append_collect (new id capacity) calls
  rw [pending_new, List.nil_append] at hqueue
  refine ⟨fun hcap => ?_, s.head_le_tail, htail, hqueue.symm, fun bytes h => enqueue_of_ne_ok h,
    fun reason h later => foldl_of_closing h later⟩
  exact foldlM_apply_raw (new id capacity) (by rw [hcapacity]; exact hcap) calls

/-- Partial drains, an overflow and a close on a connection of capacity 4: what came out and what
is left is what went in. -/
theorem outbound_fifo_overflow :
    let calls : List Call := [.enqueue [1, 2, 3], .drainInto [0, 0], .enqueue [4],
      .drainInto [], .enqueue [5], .markClose .peerClosed, .enqueue [6]]
    let s := after ⟨1⟩ 4 calls
    calls.foldlM RawState.apply (.new ⟨1⟩ 4) = .ok s.raw ∧
      collect drainedBy (new ⟨1⟩ 4) calls ++ s.pending = [1, 2, 3, 4] ∧
      s.closeWith = some .slowConsumer ∧
      ∀ later : List Call, (later.foldl Call.apply s).closeWith = some .slowConsumer := by
  intro calls s
  obtain ⟨hrun, -, -, hqueue, -, hclose⟩ := outbound_fifo ⟨1⟩ 4 calls
  have haccepted : collect acceptedBy (new ⟨1⟩ 4) calls = [1, 2, 3, 4] := by decide
  have hreason : s.closeWith = some .slowConsumer := by decide
  exact ⟨hrun (by decide), hqueue.trans haccepted, hreason,
    fun later => (hclose _ hreason later).1⟩

end ConnectionState

end Aulon.Core
