import Mathlib.Data.List.Basic
import Mathlib.Tactic

/-!
# Bounded first-in first-out queues

The abstract behaviour of a bounded channel: `push` appends unless the queue is full and says
whether it was empty before, `pop` takes the oldest element. The bound is a field of the
structure.
-/

namespace Aulon.Lib

variable {α : Type*}

/-- A queue of at most `capacity` elements, the oldest first. -/
structure BoundedQueue (α : Type*) where
  capacity : ℕ
  items : List α
  length_le : items.length ≤ capacity

namespace BoundedQueue

/-- The empty queue of a given capacity. -/
def empty (capacity : ℕ) : BoundedQueue α := ⟨capacity, [], Nat.zero_le _⟩

/-- Append an element, if there is room; was the queue empty? -/
def push (q : BoundedQueue α) (x : α) : Option (Bool × BoundedQueue α) :=
  if h : q.items.length < q.capacity then
    some (q.items.isEmpty, ⟨q.capacity, q.items ++ [x], by simpa using h⟩)
  else none

/-- Take the oldest element, if there is one. -/
def pop (q : BoundedQueue α) : Option (α × BoundedQueue α) :=
  match q with
  | ⟨_, [], _⟩ => none
  | ⟨capacity, x :: xs, h⟩ => some (x, ⟨capacity, xs, (Nat.le_succ _).trans h⟩)

/-- A push that succeeds appends. -/
lemma items_of_push {q q' : BoundedQueue α} {x : α} {wasEmpty : Bool}
    (h : q.push x = some (wasEmpty, q')) : q'.items = q.items ++ [x] := by
  unfold push at h
  split_ifs at h
  cases h
  rfl

/-- A push that succeeds says whether the queue was empty before. -/
lemma isEmpty_of_push {q q' : BoundedQueue α} {x : α} {wasEmpty : Bool}
    (h : q.push x = some (wasEmpty, q')) : q.items.isEmpty = wasEmpty := by
  unfold push at h
  split_ifs at h
  cases h
  rfl

/-- A pop takes the oldest element. -/
lemma items_of_pop {q q' : BoundedQueue α} {x : α} (h : q.pop = some (x, q')) :
    q.items = x :: q'.items := by
  obtain ⟨capacity, items, hle⟩ := q
  cases items with
  | nil => cases h
  | cons y ys => cases h; rfl

/-- A pop finds nothing in an empty queue only. -/
lemma items_of_pop_eq_none {q : BoundedQueue α} (h : q.pop = none) : q.items = [] := by
  obtain ⟨capacity, items, hle⟩ := q
  cases items with
  | nil => rfl
  | cons x xs => cases h

end BoundedQueue

end Aulon.Lib
