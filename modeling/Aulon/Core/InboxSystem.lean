import Aulon.Core.ShardInbox
import Aulon.Lib.Run

/-!
# The inbox under every interleaving

Any number of producers and one consumer run `push` and `pop` on sequentially consistent memory,
one atomic access at a time, in any order; compare-exchanges may fail spuriously.

* `System`, `step` — the producers, the consumer, the memory and the history of the run.
* `stepProducer_loadSeq` and the like — what each access does to the system.
* `run_push`, `run_pop` — a whole `push` or `pop` that nobody interrupts.
-/

namespace Aulon.Core.ShardInbox

open Aulon.Lib

variable {ι α : Type}

/-! ## The system -/

/-- A `push` is called or returns. -/
inductive Event (ι α : Type)
  | called (i : ι) (v : α)
  | returned (i : ι) (result : Except α Bool)

/-- The ring, the calls under way, and what has happened: the values of the claimed pushes in the
order of their successful compare-exchanges, the number of slots `pop` has released, the values
`pop` has returned, and the calls and returns of `push`. -/
structure System (ι α : Type) where
  memory : Memory Field α
  producers : ι → Option (PushCall α)
  consumer : Option (PopCall α)
  claims : List α
  released : ℕ
  popped : List (Option α)
  events : List (Event ι α)

/-- A fresh inbox that nobody uses. -/
def System.start : System ι α where
  memory := withCapacity
  producers _ := none
  consumer := none
  claims := []
  released := 0
  popped := []
  events := []

/-- Who moves: a producer calls `push`, a producer makes its next access (whose compare-exchange, if
it is one, may fail spuriously), the consumer calls `pop`, the consumer makes its next access. -/
inductive Act (ι α : Type)
  | push (i : ι) (v : α)
  | producer (i : ι) (spurious : Bool)
  | pop
  | consumer

/-- The value a `push` claims an index for with this answer, if it does. -/
def PushCall.claimed (mask : ℕ) : (c : PushCall α) → (c.request mask).Reply → List α
  | ⟨v, .exchange _⟩, ((true, _) : Bool × ℕ) => [v]
  | _, _ => []

/-- The number of slots that the next access of a `pop` releases. -/
def PopCall.releases : PopCall α → ℕ
  | .release _ _ => 1
  | _ => 0

/-- The producer `i` makes the next access of its `push`. -/
def System.stepProducer [DecidableEq ι] (mask : ℕ) (s : System ι α) (i : ι) (spurious : Bool)
    (c : PushCall α) : System ι α :=
  let answer := s.memory.serve spurious (c.request mask)
  let s := { s with memory := answer.2, claims := s.claims ++ c.claimed mask answer.1 }
  match c.resume mask answer.1 with
  | .next pc => { s with producers := Function.update s.producers i (some { c with pc }) }
  | .ret result =>
      { s with
        producers := Function.update s.producers i none
        events := s.events ++ [.returned i result] }

/-- The consumer makes the next access of its `pop`. -/
def System.stepConsumer (mask : ℕ) (s : System ι α) (c : PopCall α) : System ι α :=
  let answer := s.memory.serve false (c.request mask)
  let s := { s with memory := answer.2, released := s.released + c.releases }
  match c.resume mask answer.1 with
  | .next c => { s with consumer := some c }
  | .ret none => { s with consumer := none }
  | .ret (some value) => { s with consumer := none, popped := s.popped ++ [value] }

/-- One step of the system. -/
def step [DecidableEq ι] (mask : ℕ) (s : System ι α) : Act ι α → Option (System ι α)
  | .push i v =>
      match s.producers i with
      | some _ => none
      | none =>
          some { s with
            producers := Function.update s.producers i (some (.start v))
            events := s.events ++ [.called i v] }
  | .producer i spurious => (s.producers i).map (s.stepProducer mask i spurious)
  | .pop =>
      match s.consumer with
      | some _ => none
      | none => some { s with consumer := some .loadHead }
  | .consumer => s.consumer.map (s.stepConsumer mask)

/-- What a step that was enabled has found and done. -/
lemma step_eq_some [DecidableEq ι] {mask : ℕ} {s s' : System ι α} {a : Act ι α}
    (h : step mask s a = some s') :
    match a with
    | .push i v => s.producers i = none ∧ s' = { s with
        producers := Function.update s.producers i (some (.start v))
        events := s.events ++ [.called i v] }
    | .producer i spurious => ∃ c, s.producers i = some c ∧ s' = s.stepProducer mask i spurious c
    | .pop => s.consumer = none ∧ s' = { s with consumer := some .loadHead }
    | .consumer => ∃ c, s.consumer = some c ∧ s' = s.stepConsumer mask c := by
  cases a with
  | push i v =>
      simp only [step] at h
      split at h
      · cases h
      · exact ⟨by assumption, (Option.some.inj h).symm⟩
  | producer i spurious =>
      obtain ⟨c, hc, rfl⟩ := Option.map_eq_some_iff.mp h
      exact ⟨c, hc, rfl⟩
  | pop =>
      simp only [step] at h
      split at h
      · cases h
      · exact ⟨by assumption, (Option.some.inj h).symm⟩
  | consumer =>
      obtain ⟨c, hc, rfl⟩ := Option.map_eq_some_iff.mp h
      exact ⟨c, hc, rfl⟩

/-! ### The accesses one by one -/

section Accesses

variable [DecidableEq ι] (mask : ℕ) (s : System ι α) (i : ι) (spurious : Bool) (v : α) (t : ℕ)

/-- A producer reads the tail. -/
lemma stepProducer_loadTail :
    s.stepProducer mask i spurious ⟨v, .loadTail⟩ =
      { s with
        producers := Function.update s.producers i
          (some ⟨v, .loadSeq (s.memory.word .tail)⟩) } := by
  simp [System.stepProducer, PushCall.request, Memory.serve, PushCall.resume, PushCall.claimed]

/-- The load of the sequence number decides: claim, full, or start again. -/
lemma stepProducer_loadSeq :
    s.stepProducer mask i spurious ⟨v, .loadSeq t⟩ =
      if signed (wrappingSub (s.memory.word (.seq (t &&& mask))) t) = 0 then
        { s with producers := Function.update s.producers i (some ⟨v, .exchange t⟩) }
      else if signed (wrappingSub (s.memory.word (.seq (t &&& mask))) t) < 0 then
        { s with
          producers := Function.update s.producers i none
          events := s.events ++ [.returned i (.error v)] }
      else { s with producers := Function.update s.producers i (some ⟨v, .loadTail⟩) } := by
  by_cases hzero : signed (wrappingSub (s.memory.word (.seq (t &&& mask))) t) = 0
  · simp [System.stepProducer, PushCall.request, Memory.serve, PushCall.resume, PushCall.claimed,
      hzero]
  · by_cases hneg : signed (wrappingSub (s.memory.word (.seq (t &&& mask))) t) < 0
    · simp [System.stepProducer, PushCall.request, Memory.serve, PushCall.resume, PushCall.claimed,
        hzero, hneg]
    · simp [System.stepProducer, PushCall.request, Memory.serve, PushCall.resume, PushCall.claimed,
        hzero, hneg]

/-- A producer's exchange claims the slot if the tail is still the one it read and the exchange does
not fail spuriously; it goes back to read the tail otherwise. -/
lemma stepProducer_exchange :
    s.stepProducer mask i spurious ⟨v, .exchange t⟩ =
      if s.memory.word .tail = t ∧ spurious = false then
        { s with
          memory := s.memory.store .tail (wrappingAdd t 1)
          claims := s.claims ++ [v]
          producers := Function.update s.producers i (some ⟨v, .write t⟩) }
      else
        { s with
          producers := Function.update s.producers i
            (some ⟨v, .loadSeq (s.memory.word .tail)⟩) } := by
  by_cases h : s.memory.word .tail = t ∧ spurious = false
  · simp [System.stepProducer, PushCall.request, Memory.serve, PushCall.resume, PushCall.claimed, h]
  · simp [System.stepProducer, PushCall.request, Memory.serve, PushCall.resume, PushCall.claimed, h]

/-- A producer writes its value to the slot it claimed. -/
lemma stepProducer_write :
    s.stepProducer mask i spurious ⟨v, .write t⟩ =
      { s with
        memory := { s.memory with cell := Function.update s.memory.cell (t &&& mask) (some v) }
        producers := Function.update s.producers i (some ⟨v, .publish t⟩) } := by
  simp [System.stepProducer, PushCall.request, Memory.serve, PushCall.resume, PushCall.claimed]

/-- A producer publishes the slot it wrote. -/
lemma stepProducer_publish :
    s.stepProducer mask i spurious ⟨v, .publish t⟩ =
      { s with
        memory := s.memory.store (.seq (t &&& mask)) (wrappingAdd t 1)
        producers := Function.update s.producers i (some ⟨v, .loadHead t⟩) } := by
  simp [System.stepProducer, PushCall.request, Memory.serve, PushCall.resume, PushCall.claimed]

/-- A producer reads the head to tell whether the ring was empty, and returns. -/
lemma stepProducer_loadHead :
    s.stepProducer mask i spurious ⟨v, .loadHead t⟩ =
      { s with
        producers := Function.update s.producers i none
        events := s.events ++ [.returned i (.ok (s.memory.word .head == t))] } := by
  simp [System.stepProducer, PushCall.request, Memory.serve, PushCall.resume, PushCall.claimed]

omit [DecidableEq ι] in
/-- The consumer reads the head. -/
lemma stepConsumer_loadHead :
    s.stepConsumer mask .loadHead =
      { s with consumer := some (.loadSeq (s.memory.word .head)) } := rfl

omit [DecidableEq ι] in
/-- The consumer reads the stamp of the slot at the head: it goes on if the slot is published, and
finds nothing otherwise. -/
lemma stepConsumer_loadSeq (h : ℕ) :
    s.stepConsumer mask (.loadSeq h) =
      { s with
        consumer :=
          if signed (wrappingSub (s.memory.word (.seq (h &&& mask))) (wrappingAdd h 1)) = 0
          then some (.read h) else none } := by
  by_cases hzero :
      signed (wrappingSub (s.memory.word (.seq (h &&& mask))) (wrappingAdd h 1)) = 0
  · simp [System.stepConsumer, PopCall.request, Memory.serve, PopCall.resume, PopCall.releases,
      hzero]
  · simp [System.stepConsumer, PopCall.request, Memory.serve, PopCall.resume, PopCall.releases,
      hzero]

omit [DecidableEq ι] in
/-- The consumer takes the value out of the slot. -/
lemma stepConsumer_read (h : ℕ) :
    s.stepConsumer mask (.read h) =
      { s with
        memory := { s.memory with cell := Function.update s.memory.cell (h &&& mask) none }
        consumer := some (.release h (s.memory.cell (h &&& mask))) } := rfl

omit [DecidableEq ι] in
/-- The consumer stamps the slot for the next round. -/
lemma stepConsumer_release (h : ℕ) (value : Option α) :
    s.stepConsumer mask (.release h value) =
      { s with
        memory := s.memory.store (.seq (h &&& mask)) (wrappingAdd h (mask + 1))
        released := s.released + 1
        consumer := some (.advance h value) } := rfl

omit [DecidableEq ι] in
/-- The consumer advances the head and returns. -/
lemma stepConsumer_advance (h : ℕ) (value : Option α) :
    s.stepConsumer mask (.advance h value) =
      { s with
        memory := s.memory.store .head (wrappingAdd h 1)
        consumer := none
        popped := s.popped ++ [value] } := rfl

end Accesses

/-! ### Calls that nobody interrupts -/

section Alone

variable [DecidableEq ι] (mask : ℕ) (s : System ι α)

/-- The actions of a `push` by `i` that nobody interrupts and that finds room at once. -/
def pushAlone (i : ι) (v : α) : List (Act ι α) := .push i v :: List.replicate 6 (.producer i false)

/-- The actions of a `pop` that finds an element. -/
def popAlone : List (Act ι α) := .pop :: List.replicate 5 .consumer

/-- A `push` that finds its slot free claims, fills and publishes it. -/
lemma run_push {i : ι} (hi : s.producers i = none) (v : α) {t : ℕ}
    (ht : s.memory.word .tail = t) (hword : t < wordMod)
    (hseq : s.memory.word (.seq (t &&& mask)) = t) :
    run (step mask) s (pushAlone i v) = some { s with
      memory :=
        { s.memory.store .tail (wrappingAdd t 1) with
          cell := Function.update s.memory.cell (t &&& mask) (some v) }.store
            (.seq (t &&& mask)) (wrappingAdd t 1)
      claims := s.claims ++ [v]
      events := s.events ++ [.called i v] ++
        [.returned i (.ok (s.memory.word .head == t))] } := by
  have hzero : signed (wrappingSub t t) = 0 := (signed_wrappingSub_eq_zero hword hword).mpr rfl
  have hidle : Function.update s.producers i none = s.producers := by
    rw [← hi, Function.update_eq_self]
  simp [pushAlone, List.replicate, step, PushCall.start, stepProducer_loadTail,
    stepProducer_loadSeq, stepProducer_exchange, stepProducer_write, stepProducer_publish,
    stepProducer_loadHead, Memory.store, hi, ht, hseq, hzero, hidle]

/-- A `pop` that finds the slot at the head published empties it and frees it. -/
lemma run_pop (hc : s.consumer = none) {h : ℕ} (hh : s.memory.word .head = h)
    (hseq : s.memory.word (.seq (h &&& mask)) = wrappingAdd h 1) :
    run (step mask) s popAlone = some { s with
      memory :=
        ({ s.memory with cell := Function.update s.memory.cell (h &&& mask) none }.store
          (.seq (h &&& mask)) (wrappingAdd h (mask + 1))).store .head (wrappingAdd h 1)
      released := s.released + 1
      popped := s.popped ++ [s.memory.cell (h &&& mask)] } := by
  have hzero : signed (wrappingSub (wrappingAdd h 1) (wrappingAdd h 1)) = 0 :=
    (signed_wrappingSub_eq_zero (wrappingAdd_lt h 1) (wrappingAdd_lt h 1)).mpr rfl
  simp [popAlone, List.replicate, step, stepConsumer_loadHead, stepConsumer_loadSeq,
    stepConsumer_read, stepConsumer_release, stepConsumer_advance, Memory.store, hc, hh, hseq,
    hzero]

end Alone

end Aulon.Core.ShardInbox
