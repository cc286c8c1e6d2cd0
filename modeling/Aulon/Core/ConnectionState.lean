import Aulon.Core.Subscription

/-!
# Per-connection outbound state

The buffer between the tasks that enqueue frames for a connection and the writer task that sends
them, with the reason for closing once there is one. The cursors keep `head ≤ tail ≤ capacity`,
as fields of the structure.

* `ConnectionState.enqueue` — append, or mark the connection as a slow consumer.
* `ConnectionState.markClose` — the first reason wins.
* `ConnectionState.drainInto` — move pending bytes into a buffer of the writer.
-/

namespace Aulon.Core

open Aulon.Lib

/-- Default per-connection outbound buffer capacity.
Source: `connection_state.rs`, `DEFAULT_OUTBOUND_CAPACITY` -/
def defaultOutboundCapacity : ℕ := 2 * 1024 * 1024

/-- Why a connection is being closed.
Source: `connection_state.rs`, `CloseReason` -/
inductive CloseReason where
  | slowConsumer
  | protocolError
  | peerClosed
deriving DecidableEq, Repr

/-- The text the writer sends in an `-ERR` before it closes, if any.
Source: `connection_state.rs`, `CloseReason::err_text` -/
def CloseReason.errText : CloseReason → Option Bytes
  | .slowConsumer => some (ascii "slow consumer")
  | .protocolError => some (ascii "protocol error")
  | .peerClosed => none

/-- Outcome of an attempt to enqueue.
Source: `connection_state.rs`, `EnqueueOutcome` -/
inductive EnqueueOutcome where
  | ok
  | slowConsumerClosed
  | alreadyClosing
deriving DecidableEq, Repr

/-- State shared between the reader and the writer task of a connection. `notify` is the stored
permit of the notification.
Source: `connection_state.rs`, `ConnectionState` -/
structure ConnectionState where
  id : ConnectionId
  outboundData : Bytes
  outboundHead : ℕ
  outboundTail : ℕ
  notify : Bool
  closeWith : Option CloseReason
  head_le_tail : outboundHead ≤ outboundTail
  tail_le_capacity : outboundTail ≤ outboundData.length

namespace ConnectionState

/-- Source: `connection_state.rs`, `ConnectionState::new` -/
def new (id : ConnectionId) (outboundCapacity : ℕ) : ConnectionState where
  id := id
  outboundData := List.replicate outboundCapacity 0
  outboundHead := 0
  outboundTail := 0
  notify := false
  closeWith := none
  head_le_tail := le_rfl
  tail_le_capacity := Nat.zero_le _

/-- Append `bytes` if there is room, otherwise mark the connection for close.
Source: `connection_state.rs`, `ConnectionState::enqueue` -/
def enqueue (s : ConnectionState) (bytes : Bytes) : EnqueueOutcome × ConnectionState :=
  if s.closeWith.isSome then (.alreadyClosing, s)
  else if h : s.outboundTail + bytes.length > s.outboundData.length then
    (.slowConsumerClosed, { s with closeWith := some .slowConsumer, notify := true })
  else
    (.ok, { s with
      outboundData := overwrite s.outboundData s.outboundTail bytes
      outboundTail := s.outboundTail + bytes.length
      notify := true
      head_le_tail := s.head_le_tail.trans (Nat.le_add_right _ _)
      tail_le_capacity := by rw [length_overwrite (not_lt.mp h)]; exact not_lt.mp h })

/-- Mark for close with `reason`, unless there is a reason already.
Source: `connection_state.rs`, `ConnectionState::mark_close` -/
def markClose (s : ConnectionState) (reason : CloseReason) : ConnectionState :=
  { s with closeWith := s.closeWith.orElse fun _ => some reason, notify := true }

/-- Copy pending bytes into `dst`; returns their number, `dst`, and the state after it.
Source: `connection_state.rs`, `ConnectionState::drain_into` -/
def drainInto (s : ConnectionState) (dst : Bytes) : ℕ × Bytes × ConnectionState :=
  let n := min (s.outboundTail - s.outboundHead) dst.length
  let dst := overwrite dst 0 (slice s.outboundData s.outboundHead (s.outboundHead + n))
  if s.outboundHead + n = s.outboundTail then
    (n, dst, { s with
      outboundHead := 0
      outboundTail := 0
      head_le_tail := le_rfl
      tail_le_capacity := Nat.zero_le _ })
  else
    (n, dst, { s with
      outboundHead := s.outboundHead + n
      head_le_tail := by have := s.head_le_tail; omega })

/-- The three ways an attempt to enqueue can end. -/
lemma enqueue_cases (s : ConnectionState) (bytes : Bytes) :
    (s.closeWith ≠ none ∧ s.enqueue bytes = (.alreadyClosing, s)) ∨
    (s.closeWith = none ∧ s.outboundData.length < s.outboundTail + bytes.length ∧
      s.enqueue bytes =
        (.slowConsumerClosed, { s with closeWith := some .slowConsumer, notify := true })) ∨
    ∃ s', s.enqueue bytes = (.ok, s') ∧ s.closeWith = none ∧
      s.outboundTail + bytes.length ≤ s.outboundData.length ∧ s'.id = s.id ∧
      s'.outboundData = overwrite s.outboundData s.outboundTail bytes ∧
      s'.outboundHead = s.outboundHead ∧ s'.outboundTail = s.outboundTail + bytes.length ∧
      s'.notify = true ∧ s'.closeWith = none := by
  unfold enqueue
  by_cases hclose : s.closeWith = none
  · by_cases hroom : s.outboundTail + bytes.length > s.outboundData.length
    · simp [hclose, hroom]
    · rw [if_neg (by simp [hclose]), dif_neg hroom]
      exact Or.inr (Or.inr ⟨_, rfl, hclose, not_lt.mp hroom, rfl, rfl, rfl, rfl, rfl, hclose⟩)
  · exact Or.inl ⟨hclose, if_pos (Option.isSome_iff_ne_none.mpr hclose)⟩

/-! ## What the operations leave alone -/

section frame

variable (s : ConnectionState) (bytes : Bytes) (reason : CloseReason)

/-- An enqueue leaves the id. -/
@[simp] lemma id_enqueue : (s.enqueue bytes).2.id = s.id := by
  unfold enqueue
  split_ifs <;> rfl

/-- Marking a close leaves the id. -/
@[simp] lemma id_markClose : (s.markClose reason).id = s.id := rfl

/-- A drain leaves the id. -/
@[simp] lemma id_drainInto : (s.drainInto bytes).2.2.id = s.id := by
  unfold drainInto
  dsimp only
  split_ifs <;> rfl

end frame

/-! ## Room in the buffer -/

/-- The connection is not closing, and there is room for `k` more bytes. -/
def HasRoom (s : ConnectionState) (k : ℕ) : Prop :=
  s.closeWith = none ∧ s.outboundTail + k ≤ s.outboundData.length

/-- A new queue has room for all of its capacity. -/
lemma hasRoom_new (id : ConnectionId) {capacity k : ℕ} (h : k ≤ capacity) :
    (new id capacity).HasRoom k :=
  ⟨rfl, by simpa [new] using h⟩

/-- Where there is room, an enqueue is accepted and takes the room of its bytes. -/
lemma HasRoom.enqueue {s : ConnectionState} {bytes : Bytes} {k : ℕ}
    (h : s.HasRoom (bytes.length + k)) :
    (s.enqueue bytes).1 = .ok ∧ (s.enqueue bytes).2.HasRoom k := by
  obtain ⟨hclose, hroom⟩ := h
  unfold ConnectionState.enqueue
  rw [if_neg (by simp [hclose]), dif_neg (by omega)]
  refine ⟨rfl, hclose, ?_⟩
  dsimp only
  rw [length_overwrite (by omega)]
  omega

/-- Draining leaves at least as much room. -/
lemma HasRoom.drainInto {s : ConnectionState} {k : ℕ} (h : s.HasRoom k) (dst : Bytes) :
    (s.drainInto dst).2.2.HasRoom k := by
  obtain ⟨hclose, hroom⟩ := h
  unfold ConnectionState.drainInto
  dsimp only
  split_ifs
  · exact ⟨hclose, by dsimp only; omega⟩
  · exact ⟨hclose, hroom⟩

end ConnectionState

end Aulon.Core
