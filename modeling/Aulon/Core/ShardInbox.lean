import Aulon.Lib.SharedMemory
import Aulon.Lib.Word

/-!
# The cross-shard inbox

A bounded multi-producer single-consumer ring. Producers claim an index with a compare-exchange on
`tail`; every slot carries a sequence number that says whether it is free for, or holds, the
element of a certain index. `push` and `pop` are given as programs, one atomic access at a time,
so that the memory models of `Lib.SharedMemory` can run them.

* `capacityFor`, `withCapacity` — the ring at the start; `IsCapacity` — what its size guarantees.
* `PushCall.request`, `PushCall.resume` — `push`.
* `PopCall.request`, `PopCall.resume` — `pop`.
* `IsEmptyCall.request`, `IsEmptyCall.resume` — `is_empty`.
-/

namespace Aulon.Core.ShardInbox

open Aulon.Lib

variable {α : Type}

/-- The capacity for a requested one: the least power of two above it, at least two.

Source: `shard_inbox.rs`, `with_capacity`. -/
def capacityFor (requested : ℕ) : ℕ := nextPowerOfTwo (max requested 2)

/-- The capacity for a request between two powers of two is the upper one. -/
lemma capacityFor_eq (k : ℕ) {requested : ℕ} (hlow : 2 ^ k < max requested 2)
    (hhigh : max requested 2 ≤ 2 ^ (k + 1)) : capacityFor requested = 2 ^ (k + 1) :=
  nextPowerOfTwo_eq hlow hhigh

/-- A mask and a capacity that fit together: masking an index is its remainder, so that an index and
the one a lap later have the same slot. -/
structure IsCapacity (mask cap : ℕ) : Prop where
  mask_add_one : mask + 1 = cap
  and_mask : ∀ t, t &&& mask = t % cap
  two_le : 2 ≤ cap
  le_signBit : cap ≤ signBit

/-- The capacity is a power of two, and the mask is one less. -/
lemma isCapacity_capacityFor {requested : ℕ} (h : requested ≤ 2 ^ 63) :
    IsCapacity (capacityFor requested - 1) (capacityFor requested) := by
  have hle : max requested 2 ≤ capacityFor requested := le_nextPowerOfTwo _
  exact
    { mask_add_one := by omega
      and_mask := fun t => and_nextPowerOfTwo_sub_one t _
      two_le := (le_max_right _ _).trans hle
      le_signBit := nextPowerOfTwo_le (max_le h (by decide)) }

/-- The atomic words of the inbox.

Source: `shard_inbox.rs`, `ShardInbox`, `Slot`. -/
inductive Field
  | tail
  | head
  | seq (slot : ℕ)
  deriving DecidableEq

/-- The inbox at the start: every slot is free for the index of its own number. Slots from the
capacity on do not exist; no access reaches them, because every slot number is masked.

Source: `shard_inbox.rs`, `with_capacity`. -/
def withCapacity : Memory Field α where
  word
    | .tail => 0
    | .head => 0
    | .seq i => i
  cell _ := none

/-! ## `push` -/

/-- Where a `push` stands: the access it makes next, with its copy of `tail`. -/
inductive PushPc
  | loadTail
  | loadSeq (tail : ℕ)
  | exchange (tail : ℕ)
  | write (tail : ℕ)
  | publish (tail : ℕ)
  | loadHead (tail : ℕ)
  deriving DecidableEq

/-- A `push` under way. -/
structure PushCall (α : Type) where
  value : α
  pc : PushPc
  deriving DecidableEq

/-- A `push` as it is called. -/
def PushCall.start (v : α) : PushCall α := ⟨v, .loadTail⟩

/-- The access a `push` makes next.

Source: `shard_inbox.rs`, `ShardInbox::push`, `slot_write`. -/
def PushCall.request (mask : ℕ) : PushCall α → Request Field α
  | ⟨_, .loadTail⟩ => .load .tail
  | ⟨_, .loadSeq tail⟩ => .load (.seq (tail &&& mask))
  | ⟨_, .exchange tail⟩ => .compareExchange .tail tail (wrappingAdd tail 1)
  | ⟨v, .write tail⟩ => .write (tail &&& mask) v
  | ⟨_, .publish tail⟩ => .store (.seq (tail &&& mask)) (wrappingAdd tail 1)
  | ⟨_, .loadHead _⟩ => .load .head

/-- What a `push` does with the answer: `.ok wasEmpty`, or `.error v` when the ring looks full.

Source: `shard_inbox.rs`, `ShardInbox::push`. -/
def PushCall.resume (mask : ℕ) :
    (c : PushCall α) → (c.request mask).Reply → Progress PushPc (Except α Bool)
  | ⟨_, .loadTail⟩, (tail : ℕ) => .next (.loadSeq tail)
  | ⟨v, .loadSeq tail⟩, (seq : ℕ) =>
      let diff := signed (wrappingSub seq tail)
      if diff = 0 then .next (.exchange tail)
      else if diff < 0 then .ret (.error v)
      -- another producer has advanced: load `tail` again
      else .next .loadTail
  | ⟨_, .exchange tail⟩, ((true, _) : Bool × ℕ) => .next (.write tail)
  | ⟨_, .exchange _⟩, ((false, observed) : Bool × ℕ) => .next (.loadSeq observed)
  | ⟨_, .write tail⟩, _ => .next (.publish tail)
  | ⟨_, .publish tail⟩, _ => .next (.loadHead tail)
  | ⟨_, .loadHead tail⟩, (headAfter : ℕ) => .ret (.ok (headAfter == tail))

/-! ## `pop` -/

/-- A `pop` under way: the access it makes next, with its copy of `head` and the value it read. -/
inductive PopCall (α : Type)
  | loadHead
  | loadSeq (head : ℕ)
  | read (head : ℕ)
  | release (head : ℕ) (value : Option α)
  | advance (head : ℕ) (value : Option α)
  deriving DecidableEq

/-- The access a `pop` makes next.

Source: `shard_inbox.rs`, `ShardInbox::pop`, `slot_read`. -/
def PopCall.request (mask : ℕ) : PopCall α → Request Field α
  | .loadHead => .load .head
  | .loadSeq head => .load (.seq (head &&& mask))
  | .read head => .read (head &&& mask)
  | .release head _ => .store (.seq (head &&& mask)) (wrappingAdd head (mask + 1))
  | .advance head _ => .store .head (wrappingAdd head 1)

/-- What a `pop` does with the answer. The value returned is `some none` if the slot read from held
no value.

Source: `shard_inbox.rs`, `ShardInbox::pop`. -/
def PopCall.resume (mask : ℕ) :
    (c : PopCall α) → (c.request mask).Reply → Progress (PopCall α) (Option (Option α))
  | .loadHead, (head : ℕ) => .next (.loadSeq head)
  | .loadSeq head, (seq : ℕ) =>
      let diff := signed (wrappingSub seq (wrappingAdd head 1))
      if diff = 0 then .next (.read head) else .ret none
  | .read head, value => .next (.release head value)
  | .release head value, _ => .next (.advance head value)
  | .advance _ value, _ => .ret (some value)

/-! ## `is_empty` -/

/-- An `is_empty` under way: the access it makes next, with its copy of `head`. -/
inductive IsEmptyCall
  | loadHead
  | loadSeq (head : ℕ)
  deriving DecidableEq

/-- The access an `is_empty` makes next.

Source: `shard_inbox.rs`, `ShardInbox::is_empty`. -/
def IsEmptyCall.request (mask : ℕ) : IsEmptyCall → Request Field α
  | .loadHead => .load .head
  | .loadSeq head => .load (.seq (head &&& mask))

/-- What an `is_empty` does with the answer.

Source: `shard_inbox.rs`, `ShardInbox::is_empty`. -/
def IsEmptyCall.resume (mask : ℕ) :
    (c : IsEmptyCall) → (c.request mask : Request Field α).Reply → Progress IsEmptyCall Bool
  | .loadHead, (head : ℕ) => .next (.loadSeq head)
  | .loadSeq head, (seq : ℕ) => .ret (seq != wrappingAdd head 1)

end Aulon.Core.ShardInbox
