import Mathlib.Logic.Function.Basic
import Mathlib.Data.List.Basic
import Mathlib.Tactic

/-!
# Shared memory, one atomic step at a time

A program that runs on shared memory is written once, as the requests it makes and what it does
with the replies; a memory model says how a request is served. Atomic words live at locations
`L`, plain values in numbered cells that are initialised or not.

* `Request`, `Request.Reply` — one atomic step, and the type of its answer.
* `Progress` — what a program does with an answer: go on, or return.
* `Memory.serve` — sequential consistency: a request takes effect at once.
* `Memory.runCall` — a program from its start to its return, with nobody else at work.
* `Buffered.serve` — total store order: the stores of a thread wait in a first-in first-out buffer
  that only the thread itself can see through; a compare-exchange flushes it.
-/

namespace Aulon.Lib

variable {T L α : Type} [DecidableEq T] [DecidableEq L]

/-- One atomic step of a program. -/
inductive Request (L α : Type)
  | load (l : L)
  | store (l : L) (w : ℕ)
  | compareExchange (l : L) (expected new : ℕ)
  /-- Move a value into a cell. -/
  | write (cell : ℕ) (v : α)
  /-- Move the value out of a cell. -/
  | read (cell : ℕ)

/-- The answer to a request. A compare-exchange answers whether it took place, and the word it
found; reading a cell that holds no value answers `none`. -/
@[reducible] def Request.Reply : Request L α → Type
  | .load _ => ℕ
  | .store _ _ => Unit
  | .compareExchange _ _ _ => Bool × ℕ
  | .write _ _ => Unit
  | .read _ => Option α

/-- What a program does with an answer: go on at `pc`, or return `r`. -/
inductive Progress (κ ρ : Type)
  | next (pc : κ)
  | ret (r : ρ)

/-! ## Sequential consistency -/

/-- The words and the cells. -/
structure Memory (L α : Type) where
  word : L → ℕ
  cell : ℕ → Option α

namespace Memory

/-- Write a word. -/
def store (m : Memory L α) (l : L) (w : ℕ) : Memory L α :=
  { m with word := Function.update m.word l w }

/-- Serve a request; a compare-exchange may fail for no reason (`spurious`). -/
def serve (m : Memory L α) (spurious : Bool) : (r : Request L α) → r.Reply × Memory L α
  | .load l => (m.word l, m)
  | .store l w => ((), m.store l w)
  | .compareExchange l expected new =>
      if m.word l = expected ∧ spurious = false then ((true, expected), m.store l new)
      else ((false, m.word l), m)
  | .write cell v => ((), { m with cell := Function.update m.cell cell (some v) })
  | .read cell => (m.cell cell, { m with cell := Function.update m.cell cell none })

/-- A store leaves the cells. -/
@[simp] lemma cell_store (m : Memory L α) (l : L) (w : ℕ) : (m.store l w).cell = m.cell := rfl

/-- A store is seen at its own location. -/
@[simp] lemma word_store_self (m : Memory L α) (l : L) (w : ℕ) : (m.store l w).word l = w := by
  simp [store]

/-- A store leaves the other locations. -/
lemma word_store_of_ne (m : Memory L α) {l l' : L} (h : l' ≠ l) (w : ℕ) :
    (m.store l w).word l' = m.word l' := by
  simp [store, h]

end Memory

/-! ## A program alone -/

section Alone

variable {κ ρ : Type}

/-- Run a program with nobody else at work. Every flag serves one request, and says whether it
fails for no reason if it is a compare-exchange; `none` if the program has not returned after the
last flag. -/
def Memory.runCall (request : κ → Request L α)
    (resume : (c : κ) → (request c).Reply → Progress κ ρ) :
    List Bool → κ → Memory L α → Option (ρ × Memory L α)
  | [], _, _ => none
  | spurious :: flags, c, m =>
      match resume c (m.serve spurious (request c)).1 with
      | .next c' => runCall request resume flags c' (m.serve spurious (request c)).2
      | .ret r => some (r, (m.serve spurious (request c)).2)

end Alone

/-! ## Total store order -/

/-- A memory behind one store buffer for each thread, the oldest store first. -/
structure Buffered (T L α : Type) where
  memory : Memory L α
  pending : T → List (L × ℕ)

namespace Buffered

/-- What a thread sees at a location: its own latest pending store, or else the memory. -/
def observe (b : Buffered T L α) (t : T) (l : L) : ℕ :=
  match (b.pending t).reverse.find? fun e => e.1 = l with
  | some e => e.2
  | none => b.memory.word l

/-- The oldest pending store of a thread reaches the memory. -/
def flushOne (b : Buffered T L α) (t : T) : Option (Buffered T L α) :=
  match b.pending t with
  | [] => none
  | e :: rest =>
      some { memory := b.memory.store e.1 e.2, pending := Function.update b.pending t rest }

/-- All pending stores of a thread reach the memory, in order. -/
def flush (b : Buffered T L α) (t : T) : Buffered T L α :=
  { memory := (b.pending t).foldl (fun m e => m.store e.1 e.2) b.memory
    pending := Function.update b.pending t [] }

/-- Serve a request of a thread. -/
def serve (b : Buffered T L α) (t : T) (spurious : Bool) :
    (r : Request L α) → r.Reply × Buffered T L α
  | .load l => (b.observe t l, b)
  | .store l w =>
      ((), { b with pending := Function.update b.pending t (b.pending t ++ [(l, w)]) })
  | .compareExchange l expected new =>
      let answer := (b.flush t).memory.serve spurious (.compareExchange l expected new)
      (answer.1, { b.flush t with memory := answer.2 })
  | .write cell v =>
      ((), { b with
        memory := { b.memory with cell := Function.update b.memory.cell cell (some v) } })
  | .read cell =>
      (b.memory.cell cell,
        { b with memory := { b.memory with cell := Function.update b.memory.cell cell none } })

section Observe

omit [DecidableEq T]

variable {b : Buffered T L α} {t : T} {l : L}

/-- A thread with no pending store to a location sees the memory there. -/
lemma observe_of_forall (h : ∀ e ∈ b.pending t, e.1 ≠ l) : b.observe t l = b.memory.word l := by
  have hnone : (b.pending t).reverse.find? (fun e => e.1 = l) = none := by
    rw [List.find?_eq_none]
    intro e he
    simpa using h e (List.mem_reverse.mp he)
  simp only [observe, hnone]

/-- A thread with no pending store sees the memory. -/
lemma observe_of_nil (h : b.pending t = []) (l : L) : b.observe t l = b.memory.word l :=
  observe_of_forall (by simp [h])

end Observe

/-- Flushing an empty buffer changes nothing. -/
lemma flush_of_nil {b : Buffered T L α} {t : T} (h : b.pending t = []) : b.flush t = b := by
  have hpending : Function.update b.pending t [] = b.pending := by
    rw [← h, Function.update_eq_self]
  simp only [flush, h, List.foldl_nil, hpending]

/-- A flush takes the oldest of the pending stores of a thread to memory. -/
lemma flushOne_eq_some {b b' : Buffered T L α} {t : T} (h : b.flushOne t = some b') :
    ∃ e rest, b.pending t = e :: rest ∧
      b' = { memory := b.memory.store e.1 e.2, pending := Function.update b.pending t rest } := by
  unfold flushOne at h
  split at h
  · cases h
  · rename_i e rest hpending
    cases h
    exact ⟨e, rest, hpending, rfl⟩

/-- A thread does not notice that its own stores reach the memory. -/
lemma observe_flushOne {b b' : Buffered T L α} {t : T} (h : b.flushOne t = some b') (l : L) :
    b'.observe t l = b.observe t l := by
  obtain ⟨e, rest, hpending, rfl⟩ := flushOne_eq_some h
  simp only [observe, hpending, Function.update_self, List.reverse_cons, List.find?_append]
  cases hfind : rest.reverse.find? fun e => e.1 = l with
  | some e' => rfl
  | none =>
      by_cases hl : e.1 = l
      · subst hl
        simp
      · simp [hl, Memory.word_store_of_ne _ (Ne.symm hl)]

end Buffered

end Aulon.Lib
