import Aulon.Core.ConnectionState

/-!
# The outbound buffer as a queue of bytes

Over the cursors of a connection state stands a plain queue: `pending` is the bytes between them,
an accepted enqueue appends to it, and a drain takes its start. The close reason is set once and
then kept.

* `pending_enqueue`, `pending_markClose`, `drainInto_eq`, `pending_drainInto` — what each operation
  does to the queue.
* `closeWith_enqueue`, `closeWith_markClose`, `closeWith_drainInto` — and to the close reason.
* `evicts_iff_drained` — reset on drain: room is measured from the tail cursor, which goes back to
  0 only when a drain takes everything, so the bytes drained since then count as used.
* `evicts_only_slow_iff` — no connection with room in its queue is evicted exactly where the head
  cursor stands at 0.
-/

namespace Aulon.Core.ConnectionState

open Aulon.Lib

/-- Outbound buffer total capacity in bytes.
Source: `connection_state.rs`, `ConnectionState::outbound_capacity` -/
def outboundCapacity (s : ConnectionState) : ℕ := s.outboundData.length

/-- Source: `connection_state.rs`, `ConnectionState::pending_bytes` -/
def pendingBytes (s : ConnectionState) : ℕ := s.outboundTail - s.outboundHead

/-- The bytes accepted and not yet drained, the oldest first. -/
def pending (s : ConnectionState) : Bytes := slice s.outboundData s.outboundHead s.outboundTail

/-! ## The queue -/

section queue

variable (s : ConnectionState) (bytes dst : Bytes) (reason : CloseReason)

/-- The pending bytes are counted by `pendingBytes`. -/
lemma length_pending : s.pending.length = s.pendingBytes :=
  length_slice s.tail_le_capacity

/-- Nothing is pending exactly if the count is zero. -/
lemma pending_eq_nil_iff : s.pending = [] ↔ s.pendingBytes = 0 := by
  rw [← length_pending, List.length_eq_zero_iff]

/-- Nothing is pending in a new queue. -/
@[simp] lemma pending_new (id : ConnectionId) (capacity : ℕ) : (new id capacity).pending = [] := by
  simp [pending, new, slice]

/-- The bytes that an attempt to enqueue appends. -/
def accepted : Bytes := if (s.enqueue bytes).1 = .ok then bytes else []

/-- An enqueue appends what it accepts. -/
lemma pending_enqueue : (s.enqueue bytes).2.pending = s.pending ++ s.accepted bytes := by
  unfold accepted
  obtain ⟨-, h⟩ | ⟨-, -, h⟩ | ⟨s', h, -, -, -, hdata, hhead, htail, -⟩ := s.enqueue_cases bytes
  · simp [h]
  · simp [h, pending]
  · rw [h, if_pos rfl, pending, hdata, hhead, htail]
    exact slice_overwrite s.head_le_tail s.tail_le_capacity

/-- Marking a close leaves what is pending. -/
@[simp] lemma pending_markClose : (s.markClose reason).pending = s.pending := rfl

/-- A drain fills the start of the buffer of the writer with the start of the queue. -/
lemma drainInto_eq : (s.drainInto dst).1 = min s.pending.length dst.length ∧
    (s.drainInto dst).2.1 = overwrite dst 0 (s.pending.take (s.drainInto dst).1) := by
  have hlt := s.head_le_tail
  have hn : (s.drainInto dst).1 = min (s.outboundTail - s.outboundHead) dst.length := by
    unfold drainInto
    dsimp only
    split_ifs <;> rfl
  have hdst : (s.drainInto dst).2.1 = overwrite dst 0 (slice s.outboundData s.outboundHead
      (s.outboundHead + (s.drainInto dst).1)) := by
    rw [hn]
    unfold drainInto
    dsimp only
    split_ifs <;> rfl
  refine ⟨by rw [length_pending, hn]; rfl, ?_⟩
  rw [hdst, pending, take_slice (by omega)]

/-- A drain takes its bytes from the front. -/
lemma pending_drainInto :
    (s.drainInto dst).2.2.pending = s.pending.drop (s.drainInto dst).1 := by
  have hlt := s.head_le_tail
  unfold drainInto pending
  dsimp only
  rw [drop_slice]
  split_ifs with hall
  · simp [slice, hall]
  · rfl

/-- What a drain put at the start of the buffer and what it left make up the queue. -/
lemma take_drainInto : (s.drainInto dst).2.1.take (s.drainInto dst).1 ++
    (s.drainInto dst).2.2.pending = s.pending := by
  obtain ⟨hn, hdst⟩ := s.drainInto_eq dst
  have hlen : (s.pending.take (s.drainInto dst).1).length = (s.drainInto dst).1 := by
    rw [List.length_take]; omega
  have htake := take_overwrite_zero dst (s.pending.take (s.drainInto dst).1)
  rw [hlen] at htake
  rw [hdst, htake, pending_drainInto, List.take_append_drop]

end queue

/-! ## The close reason -/

section close

variable (s : ConnectionState) (bytes dst : Bytes) (reason : CloseReason)

/-- Only an overflow sets a reason, and only where there was none. -/
lemma closeWith_enqueue : (s.enqueue bytes).2.closeWith =
    if (s.enqueue bytes).1 = .slowConsumerClosed then some .slowConsumer else s.closeWith := by
  obtain ⟨-, h⟩ | ⟨-, -, h⟩ | ⟨s', h, hopen, -, -, -, -, -, -, hopen'⟩ := s.enqueue_cases bytes
  · simp [h]
  · simp [h]
  · simp [h, hopen, hopen']

/-- A queue that is closing refuses, unchanged. -/
lemma enqueue_of_closing (h : s.closeWith ≠ none) : s.enqueue bytes = (.alreadyClosing, s) := by
  obtain ⟨-, h'⟩ | ⟨hopen, -⟩ | ⟨-, -, hopen, -⟩ := s.enqueue_cases bytes
  · exact h'
  · exact absurd hopen h
  · exact absurd hopen h

/-- The first reason to close stays. -/
@[simp] lemma closeWith_markClose :
    (s.markClose reason).closeWith = s.closeWith.orElse fun _ => some reason := rfl

/-- A drain gives no reason to close. -/
@[simp] lemma closeWith_drainInto : (s.drainInto dst).2.2.closeWith = s.closeWith := by
  unfold drainInto
  dsimp only
  split_ifs <;> rfl

end close

/-! ## Capacity and cursors over a history of calls -/

/-- A call on a connection state, by the tasks that share it. -/
inductive Call where
  | enqueue (bytes : Bytes)
  | drainInto (dst : Bytes)
  | markClose (reason : CloseReason)

/-- The state after a call. -/
def Call.apply (s : ConnectionState) : Call → ConnectionState
  | .enqueue bytes => (s.enqueue bytes).2
  | .drainInto dst => (s.drainInto dst).2.2
  | .markClose reason => s.markClose reason

/-- The bytes that a call offers to the queue. -/
def Call.enqueued : Call → Option Bytes
  | .enqueue bytes => some bytes
  | _ => none

/-- The state after a history of calls on a new connection. -/
def after (id : ConnectionId) (capacity : ℕ) (calls : List Call) : ConnectionState :=
  calls.foldl Call.apply (new id capacity)

/-- A history, its last call apart. -/
lemma after_append_singleton (id : ConnectionId) (capacity : ℕ) (calls : List Call) (call : Call) :
    after id capacity (calls ++ [call]) = call.apply (after id capacity calls) := by
  simp [after]

section cursors

variable (s : ConnectionState) (bytes dst : Bytes)

/-- An enqueue leaves the capacity. -/
lemma outboundCapacity_enqueue : (s.enqueue bytes).2.outboundCapacity = s.outboundCapacity := by
  obtain ⟨-, h⟩ | ⟨-, -, h⟩ | ⟨s', h, -, hroom, -, hdata, -⟩ := s.enqueue_cases bytes
  · rw [h]
  · rw [h]; rfl
  · rw [h, outboundCapacity, hdata, length_overwrite hroom]; rfl

/-- A drain leaves the capacity. -/
lemma outboundCapacity_drainInto :
    (s.drainInto dst).2.2.outboundCapacity = s.outboundCapacity := by
  unfold drainInto
  dsimp only
  split_ifs <;> rfl

/-- No call changes the capacity. -/
lemma outboundCapacity_apply (call : Call) :
    (call.apply s).outboundCapacity = s.outboundCapacity := by
  cases call with
  | enqueue bytes => exact s.outboundCapacity_enqueue bytes
  | drainInto dst => exact s.outboundCapacity_drainInto dst
  | markClose reason => rfl

/-- An enqueue leaves the drained head. -/
lemma outboundHead_enqueue : (s.enqueue bytes).2.outboundHead = s.outboundHead := by
  obtain ⟨-, h⟩ | ⟨-, -, h⟩ | ⟨s', h, -, -, -, -, hhead, -⟩ := s.enqueue_cases bytes
  · rw [h]
  · rw [h]
  · rw [h, hhead]

/-- What is accepted has room after the tail, and the tail moves on by it. -/
lemma outboundTail_of_ok (h : (s.enqueue bytes).1 = .ok) :
    s.outboundTail + bytes.length ≤ s.outboundCapacity ∧
      (s.enqueue bytes).2.outboundTail = s.outboundTail + bytes.length := by
  obtain ⟨-, h'⟩ | ⟨-, -, h'⟩ | ⟨s', h', -, hroom, -, -, -, htail, -⟩ := s.enqueue_cases bytes
  · rw [h'] at h
    cases h
  · rw [h'] at h
    cases h
  · exact ⟨hroom, by rw [h', htail]⟩

/-- A drain that empties the queue puts the head back to the start, another one moves it on. -/
lemma outboundHead_drainInto : (s.drainInto dst).2.2.outboundHead =
    if (s.drainInto dst).2.2.pendingBytes = 0 then 0
    else s.outboundHead + (s.drainInto dst).1 := by
  have hle := s.head_le_tail
  unfold drainInto pendingBytes
  dsimp only
  by_cases hall : s.outboundHead + min (s.outboundTail - s.outboundHead) dst.length =
      s.outboundTail
  · simp [hall]
  · simp only [hall, if_false]
    rw [if_neg (by omega)]

/-- A buffer that holds the whole queue takes it. -/
lemma pendingBytes_drainInto (h : s.pendingBytes ≤ dst.length) :
    (s.drainInto dst).2.2.pendingBytes = 0 := by
  rw [← length_pending, pending_drainInto, (s.drainInto_eq dst).1, length_pending,
    Nat.min_eq_left h, ← length_pending, List.drop_length, List.length_nil]

end cursors

/-- A queue keeps the capacity it was made with. -/
lemma outboundCapacity_after (id : ConnectionId) (capacity : ℕ) (calls : List Call) :
    (after id capacity calls).outboundCapacity = capacity := by
  induction calls using List.reverseRecOn with
  | nil => exact List.length_replicate
  | append_singleton calls call ih =>
      rw [after_append_singleton, outboundCapacity_apply, ih]

/-- A drain leaves the tail where it is, or puts it back to the start. -/
lemma outboundTail_drainInto_le (s : ConnectionState) (dst : Bytes) :
    (s.drainInto dst).2.2.outboundTail ≤ s.outboundTail := by
  unfold drainInto
  dsimp only
  split_ifs
  · exact Nat.zero_le _
  · exact le_rfl

/-- The tail never gets beyond the bytes that were ever offered to the queue. -/
lemma outboundTail_after_le (id : ConnectionId) (capacity : ℕ) (calls : List Call) :
    (after id capacity calls).outboundTail ≤
      ((calls.filterMap Call.enqueued).map List.length).sum := by
  induction calls using List.reverseRecOn with
  | nil => exact le_rfl
  | append_singleton calls call ih =>
      rw [after_append_singleton, List.filterMap_append, List.map_append, List.sum_append]
      generalize after id capacity calls = s at ih
      cases call with
      | enqueue bytes =>
          have htail : (s.enqueue bytes).2.outboundTail ≤ s.outboundTail + bytes.length := by
            obtain ⟨-, h⟩ | ⟨-, -, h⟩ | ⟨s', h, -, -, -, -, -, htail, -⟩ := s.enqueue_cases bytes
            · rw [h]
              exact Nat.le_add_right _ _
            · rw [h]
              exact Nat.le_add_right _ _
            · rw [h, htail]
          exact htail.trans (Nat.add_le_add_right ih _)
      | drainInto dst => exact (s.outboundTail_drainInto_le dst).trans ih
      | markClose reason => exact ih

/-- Where every drain has a buffer as large as the outbound buffer, the head stays at the start. -/
theorem outboundHead_after (id : ConnectionId) {capacity : ℕ} {calls : List Call}
    (h : ∀ dst, .drainInto dst ∈ calls → capacity ≤ dst.length) :
    (after id capacity calls).outboundHead = 0 := by
  induction calls using List.reverseRecOn with
  | nil => rfl
  | append_singleton calls call ih =>
      have hhead := ih fun dst hdst => h dst (List.mem_append_left _ hdst)
      have hcap := outboundCapacity_after id capacity calls
      rw [after_append_singleton]
      generalize after id capacity calls = s at hhead hcap
      cases call with
      | enqueue bytes => exact (s.outboundHead_enqueue bytes).trans hhead
      | drainInto dst =>
          have hdst := h dst (by simp)
          have hle := s.tail_le_capacity
          have hpending : s.pendingBytes ≤ dst.length := by
            unfold pendingBytes
            unfold outboundCapacity at hcap
            omega
          rw [Call.apply, outboundHead_drainInto, if_pos (s.pendingBytes_drainInto dst hpending)]
      | markClose reason => exact hhead

/-! ## Eviction -/

/-- An enqueue on an open connection evicts it exactly when the tail cursor has no room. -/
lemma evicts_iff {s : ConnectionState} (hopen : s.closeWith = none) (bytes : Bytes) :
    (s.enqueue bytes).2.closeWith = some .slowConsumer ↔
      s.outboundCapacity < s.outboundTail + bytes.length := by
  obtain ⟨h, -⟩ | ⟨-, hroom, h⟩ | ⟨s', h, -, hroom, -, -, -, -, -, hopen'⟩ := s.enqueue_cases bytes
  · exact absurd hopen h
  · exact iff_of_true (by rw [h]) hroom
  · exact iff_of_false (by simp [h, hopen']) (not_lt.mpr hroom)

/-- The bytes drained since the last drain that emptied the queue, as one can tell from outside:
from what the drains returned and from what was pending after them. -/
def drainedSinceEmpty (s : ConnectionState) (drained : ℕ) : List Call → ℕ
  | [] => drained
  | .drainInto dst :: calls =>
      let s' := (s.drainInto dst).2.2
      drainedSinceEmpty s' (if s'.pendingBytes = 0 then 0 else drained + (s.drainInto dst).1) calls
  | call :: calls => drainedSinceEmpty (call.apply s) drained calls

/-- The head cursor counts these bytes. -/
lemma drainedSinceEmpty_eq (s : ConnectionState) (calls : List Call) :
    drainedSinceEmpty s s.outboundHead calls = (calls.foldl Call.apply s).outboundHead := by
  induction calls generalizing s with
  | nil => rfl
  | cons call calls ih =>
      rw [List.foldl_cons, ← ih]
      cases call with
      | enqueue bytes => rw [drainedSinceEmpty, Call.apply, outboundHead_enqueue]; simp
      | drainInto dst => rw [drainedSinceEmpty, Call.apply, s.outboundHead_drainInto]
      | markClose reason => rfl

/-- After any history, an enqueue on an open connection evicts it exactly when the bytes drained
since the queue was last emptied, the pending ones and the new ones exceed the capacity. -/
theorem evicts_iff_drained (id : ConnectionId) (capacity : ℕ) (calls : List Call)
    (hopen : (after id capacity calls).closeWith = none) (bytes : Bytes) :
    ((after id capacity calls).enqueue bytes).2.closeWith = some .slowConsumer ↔
      drainedSinceEmpty (new id capacity) 0 calls + (after id capacity calls).pendingBytes +
        bytes.length > (after id capacity calls).outboundCapacity := by
  have hdrained : drainedSinceEmpty (new id capacity) 0 calls =
      (after id capacity calls).outboundHead := drainedSinceEmpty_eq (new id capacity) calls
  have hle := (after id capacity calls).head_le_tail
  rw [evicts_iff hopen, hdrained, pendingBytes]
  omega

/-- Three of five bytes drained, two pending: a connection of capacity 8 takes three more. -/
theorem evicts_iff_drained_partial :
    let calls : List Call := [.enqueue [1, 2, 3, 4, 5], .drainInto (List.replicate 3 0)]
    (after ⟨7⟩ 8 calls).closeWith = none ∧
      ((after ⟨7⟩ 8 calls).enqueue [6, 7, 8]).2.closeWith ≠ some .slowConsumer ∧
      ((after ⟨7⟩ 8 calls).enqueue [6, 7, 8, 9]).2.closeWith = some .slowConsumer := by
  intro calls
  have hopen : (after ⟨7⟩ 8 calls).closeWith = none := by decide
  exact ⟨hopen, mt (evicts_iff_drained ⟨7⟩ 8 calls hopen [6, 7, 8]).mp (by decide),
    (evicts_iff_drained ⟨7⟩ 8 calls hopen [6, 7, 8, 9]).mpr (by decide)⟩

/-- Eight bytes enqueued, four of them drained, and four more evict the connection, although its
queue would then hold exactly the eight bytes of its capacity. -/
theorem evicts_with_room :
    let s := after ⟨7⟩ 8 [.enqueue (List.replicate 8 1), .drainInto (List.replicate 4 0)]
    let bytes : Bytes := List.replicate 4 2
    s.closeWith = none ∧ (s.enqueue bytes).2.closeWith = some .slowConsumer ∧
      ¬ s.pendingBytes + bytes.length > s.outboundCapacity := by
  decide

/-- After any history, an open connection is safe from being evicted while its queue has room for
the bytes, whatever the bytes, exactly when its head cursor stands at 0: the space before the head
is free and does not count. -/
theorem evicts_only_slow_iff (id : ConnectionId) (capacity : ℕ) (calls : List Call)
    (hopen : (after id capacity calls).closeWith = none) :
    (∀ bytes, ((after id capacity calls).enqueue bytes).2.closeWith = some .slowConsumer →
      (after id capacity calls).pendingBytes + bytes.length >
        (after id capacity calls).outboundCapacity) ↔
      (after id capacity calls).outboundHead = 0 := by
  simp only [evicts_iff hopen]
  generalize after id capacity calls = s
  have hhead := s.head_le_tail
  have htail : s.outboundTail ≤ s.outboundCapacity := s.tail_le_capacity
  unfold pendingBytes
  constructor
  · intro h
    by_contra hne
    -- bytes that fill the queue exactly
    have hfull := h (List.replicate
      (s.outboundCapacity - (s.outboundTail - s.outboundHead)) 0)
    rw [List.length_replicate] at hfull
    omega
  · intro hzero bytes hbytes
    omega

end Aulon.Core.ConnectionState
