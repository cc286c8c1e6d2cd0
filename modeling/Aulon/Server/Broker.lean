import Aulon.Lib.BoundedQueue
import Aulon.Lib.Run
import Aulon.Server.Delivery

/-!
# The broker

`n` shards, each a worker on a thread of its own, that exchange publications through one inbox
per shard. A state is what every thread is doing, its worker, the inboxes and the counters of the
eventfds; a step is one action of one thread, so that every interleaving of the shards is a run.

The tasks of one thread switch only where they await. So a frame is handled without another task
of the shard in between, and so is a drain; but between two pushes of a publication, and between
two pops of a drain, the other shards may do anything (`Activity.publishing`,
`Activity.draining`). The inboxes are bounded first-in first-out queues, and a pushed frame
carries the shard and the connection it came from.

`Shard.publications` and `Shard.dispatches` are histories that no code reads.

* `Task`, `Shard.run` — what the tasks of a shard do between two awaits.
* `Action`, `step` — the actions of the threads and what they do.
* `Broker.init` — the broker at the start.
-/

namespace Aulon.Server

open Aulon.Lib Aulon.Core Aulon.Proto

variable {n : ℕ}

/-! ## State -/

/-- A `PUB` the server handled: the connection it came from, why it was rejected, if it was, and
the pushes to other shards made for it so far, with their success. -/
structure Publication (n : ℕ) where
  conn : ConnRef
  frame : PublishedFrame
  rejected : Option SubjectError
  pushes : List (Fin n × Bool)
deriving DecidableEq

/-- A frame in an inbox, with the shard and the connection it came from. -/
structure Parcel (n : ℕ) where
  origin : Fin n × ConnRef
  frame : PublishedFrame
deriving DecidableEq

/-- A call of `dispatch_local`: for which frame, from the drain task or from the handler of the
`PUB`, and the error it returned, if any. -/
structure Dispatch (n : ℕ) where
  parcel : Parcel n
  drained : Bool
  error : Option SubjectError
deriving DecidableEq

/-- What a shard's thread is in the middle of. -/
inductive Activity (n : ℕ) where
  /-- Waiting for the next task to become ready. -/
  | idle
  /-- In the push loop of `handle_pub`, with the shards still to go. -/
  | publishing (publication : Publication n) (todo : List (Fin n))
  /-- In the pop loop of `drain_task`. -/
  | draining
deriving DecidableEq

/-- A shard. -/
structure Shard (n : ℕ) where
  worker : Worker
  activity : Activity n
  publications : List (Publication n)
  dispatches : List (Dispatch n)

/-- The broker. -/
structure Broker (n : ℕ) where
  shards : Fin n → Shard n
  inboxes : Fin n → BoundedQueue (Parcel n)
  wakers : Fin n → ℕ

/-- The broker at the start, with inboxes of the given capacity.
Source: `main.rs`, `main` and `worker_main` -/
def Broker.init (n capacity : ℕ) : Broker n where
  shards i := ⟨.new (UInt32.ofNat i), .idle, [], []⟩
  inboxes _ := .empty capacity
  wakers _ := 0

/-- The broker with a shard replaced. -/
def Broker.setShard (b : Broker n) (i : Fin n) (s : Shard n) : Broker n :=
  { b with shards := Function.update b.shards i s }

section setShard

variable (b : Broker n) (i : Fin n) (s : Shard n)

/-- The shard that was set. -/
@[simp] lemma shards_setShard_self : (b.setShard i s).shards i = s := by
  simp [Broker.setShard]

/-- The other shards stay. -/
@[simp] lemma shards_setShard_ne {j : Fin n} (h : j ≠ i) :
    (b.setShard i s).shards j = b.shards j := by
  simp [Broker.setShard, h]

/-- The inboxes stay. -/
@[simp] lemma inboxes_setShard : (b.setShard i s).inboxes = b.inboxes := rfl

end setShard

/-! ## The tasks of a shard -/

/-- Did a push fail? The flag `back_pressure_seen` of the source. -/
def Publication.backPressureSeen (p : Publication n) : Bool := p.pushes.any fun push => !push.2

/-- The text of the back-pressure error.
Source: `main.rs`, `handle_pub` -/
def backPressureText : Bytes := ascii "shard back-pressure"

namespace Shard

/-- The end of `handle_pub`: report back-pressure.
Source: `main.rs`, `handle_pub` -/
def finish (s : Shard n) (p : Publication n) : Shard n where
  worker := if p.backPressureSeen then s.worker.emitErrTo p.conn backPressureText else s.worker
  activity := .idle
  publications := s.publications ++ [p]
  dispatches := s.dispatches

/-- Handle a `PUB`: dispatch it here, and if that worked and there are other shards, go on to push
it to them.
Source: `main.rs`, `handle_pub` -/
def handlePub (s : Shard n) (i : Fin n) (r : ConnRef) (frame : PublishedFrame) : Shard n :=
  match s.worker.dispatchLocal frame with
  | .error e =>
      { s with
        worker := s.worker.emitErrTo r (subjectErrorText e)
        publications := s.publications ++ [⟨r, frame, some e, []⟩]
        dispatches := s.dispatches ++ [⟨⟨(i, r), frame⟩, false, some e⟩] }
  | .ok worker =>
      let s := { s with
        worker := worker
        dispatches := s.dispatches ++ [⟨⟨(i, r), frame⟩, false, none⟩] }
      if 1 < n then { s with activity := .publishing ⟨r, frame, none, []⟩ (List.finRange n) }
      else finish s ⟨r, frame, none, []⟩

/-- A `PUB` that is dispatched leaves the worker as the dispatch does: at this point no push has
failed. -/
lemma worker_handlePub (s : Shard n) (i : Fin n) (r : ConnRef) {frame : PublishedFrame}
    {worker : Worker} (h : s.worker.dispatchLocal frame = .ok worker) :
    (s.handlePub i r frame).worker = worker := by
  unfold handlePub
  rw [h]
  dsimp only
  split_ifs
  · rfl
  · rfl

/-- Handle a frame.
Source: `main.rs`, `handle_frame` -/
def handleFrame (s : Shard n) (i : Fin n) (r : ConnRef) (c : Connection) : Frame → Shard n
  | .pub subject replyTo payload =>
      if payload.length > maxPayloadBytes then
        { s with worker := s.worker.emitErrTo r (ascii "maximum payload exceeded") }
      else s.handlePub i r ⟨subject, replyTo, payload⟩
  | f => { s with worker := s.worker.handleCommand r c f }

/-- Every frame but a `PUB` is a command, which the worker handles on its own. -/
lemma handleFrame_command (s : Shard n) (i : Fin n) (r : ConnRef) (c : Connection) {f : Frame}
    (hf : ∀ subject replyTo payload, f ≠ .pub subject replyTo payload) :
    s.handleFrame i r c f = { s with worker := s.worker.handleCommand r c f } := by
  cases f with
  | pub subject replyTo payload => exact absurd rfl (hf _ _ _)
  | _ => rw [handleFrame]; simp

/-- Dispatch a frame popped from the inbox; the result is ignored.
Source: `main.rs`, `drain_task` -/
def dispatchDrained (s : Shard n) (parcel : Parcel n) : Shard n :=
  match s.worker.dispatchLocal parcel.frame with
  | .error e => { s with dispatches := s.dispatches ++ [⟨parcel, true, some e⟩] }
  | .ok worker =>
      { s with worker := worker, dispatches := s.dispatches ++ [⟨parcel, true, none⟩] }

end Shard

/-- A piece of work of a task of the shard, from one await to the next. -/
inductive Task where
  /-- Accept a connection; are there buffers for it? -/
  | accept (granted : Bool)
  /-- A reader starts. -/
  | greet (r : ConnRef)
  /-- A reader handles a frame. -/
  | frame (r : ConnRef) (f : Frame)
  /-- A reader marks its connection for close because of what it read. -/
  | reject (r : ConnRef)
  /-- A reader cleans up and ends; the order is the one in which it iterates over its map. -/
  | exit (r : ConnRef) (order : List (Sigma fun _ : Bytes => Bytes))
  /-- A writer takes pending bytes into its buffer. -/
  | send (r : ConnRef) (buf : Bytes)
deriving DecidableEq

/-- Run a piece of a task of the shard with index `i`, if it can run. -/
def Shard.run (s : Shard n) (i : Fin n) : Task → Option (Shard n)
  | .accept granted => some { s with worker := s.worker.accept granted }
  | .greet r => do
      let c ← s.worker.conns[r]?
      guard (c.reader = .starting)
      return { s with worker := s.worker.greet r }
  | .frame r f => do
      let c ← s.worker.conns[r]?
      guard (c.reader = .reading)
      return s.handleFrame i r c f
  | .reject r => do
      let c ← s.worker.conns[r]?
      guard (c.reader = .reading)
      return { s with worker := s.worker.setState r c (c.state.markClose .protocolError) }
  | .exit r order => do
      let c ← s.worker.conns[r]?
      guard (c.reader = .reading ∧ order.Perm c.subscriptions.entries)
      return { s with worker := s.worker.cleanup r c order }
  | .send r buf => do
      let c ← s.worker.conns[r]?
      return { s with worker := s.worker.setState r c (c.state.drainInto buf).2.2 }

/-- What a task that ran has found and done. -/
lemma Shard.run_eq_some {s s' : Shard n} {i : Fin n} {t : Task} (h : s.run i t = some s') :
    match t with
    | .accept granted => s' = { s with worker := s.worker.accept granted }
    | .greet r => ∃ c, s.worker.conns[r]? = some c ∧ c.reader = .starting ∧
        s' = { s with worker := s.worker.greet r }
    | .frame r f => ∃ c, s.worker.conns[r]? = some c ∧ c.reader = .reading ∧
        s' = s.handleFrame i r c f
    | .reject r => ∃ c, s.worker.conns[r]? = some c ∧ c.reader = .reading ∧
        s' = { s with worker := s.worker.setState r c (c.state.markClose .protocolError) }
    | .exit r order => ∃ c, s.worker.conns[r]? = some c ∧ c.reader = .reading ∧
        order.Perm c.subscriptions.entries ∧ s' = { s with worker := s.worker.cleanup r c order }
    | .send r buf => ∃ c, s.worker.conns[r]? = some c ∧
        s' = { s with worker := s.worker.setState r c (c.state.drainInto buf).2.2 } := by
  have hguard : ∀ {p : Prop} [Decidable p] {x : Shard n},
      (do guard p; return x : Option (Shard n)) = some s' → p ∧ s' = x := by
    intro p _ x hx
    by_cases hp : p
    · rw [guard, if_pos hp] at hx
      exact ⟨hp, (Option.some.inj hx).symm⟩
    · rw [guard, if_neg hp] at hx
      cases hx
  cases t with
  | accept granted => exact (Option.some.inj h).symm
  | send r buf =>
      obtain ⟨c, hc, heq⟩ := Option.bind_eq_some_iff.mp h
      exact ⟨c, hc, (Option.some.inj heq).symm⟩
  | exit r order =>
      obtain ⟨c, hc, heq⟩ := Option.bind_eq_some_iff.mp h
      obtain ⟨⟨hreader, horder⟩, hs⟩ := hguard heq
      exact ⟨c, hc, hreader, horder, hs⟩
  | greet r =>
      obtain ⟨c, hc, heq⟩ := Option.bind_eq_some_iff.mp h
      exact ⟨c, hc, hguard heq⟩
  | frame r f =>
      obtain ⟨c, hc, heq⟩ := Option.bind_eq_some_iff.mp h
      exact ⟨c, hc, hguard heq⟩
  | reject r =>
      obtain ⟨c, hc, heq⟩ := Option.bind_eq_some_iff.mp h
      exact ⟨c, hc, hguard heq⟩

/-! ## Steps of the broker -/

namespace Broker

/-- One round of the push loop: skip the own inbox, push to another one and wake its shard if it
was empty; after the last one the publication is finished.
Source: `main.rs`, `handle_pub` -/
def pushNext (b : Broker n) (i : Fin n) (p : Publication n) : List (Fin n) → Broker n
  | [] => b.setShard i ((b.shards i).finish p)
  | j :: todo =>
      if j = i then b.setShard i { b.shards i with activity := .publishing p todo }
      else
        match (b.inboxes j).push ⟨(i, p.conn), p.frame⟩ with
        | none =>
            b.setShard i { b.shards i with
              activity := .publishing { p with pushes := p.pushes ++ [(j, false)] } todo }
        | some (wasEmpty, inbox) =>
            { b.setShard i { b.shards i with
                activity := .publishing { p with pushes := p.pushes ++ [(j, true)] } todo } with
              inboxes := Function.update b.inboxes j inbox
              wakers := if wasEmpty then Function.update b.wakers j (b.wakers j + 1)
                else b.wakers }

/-- The drain task's read of the eventfd returns: it resets the counter.
Source: `main.rs`, `drain_task` -/
def startDrain (b : Broker n) (i : Fin n) : Broker n :=
  { b.setShard i { b.shards i with activity := .draining } with
    wakers := Function.update b.wakers i 0 }

/-- One round of the pop loop; the loop ends when the inbox is empty.
Source: `main.rs`, `drain_task` -/
def popNext (b : Broker n) (i : Fin n) : Broker n :=
  match (b.inboxes i).pop with
  | none => b.setShard i { b.shards i with activity := .idle }
  | some (parcel, inbox) =>
      { b.setShard i ((b.shards i).dispatchDrained parcel) with
        inboxes := Function.update b.inboxes i inbox }

end Broker

/-- An action of the thread of shard `i`. -/
inductive Action (n : ℕ) where
  /-- Run a piece of a task. -/
  | task (i : Fin n) (t : Task)
  /-- The next round of the push loop. -/
  | push (i : Fin n)
  /-- The read of the eventfd returns; the drain task exists only if there are other shards. -/
  | drainRead (i : Fin n)
  /-- The next round of the pop loop. -/
  | drainPop (i : Fin n)
deriving DecidableEq

/-- What an action does, if the thread can take it. -/
def step (b : Broker n) (a : Action n) : Option (Broker n) :=
  match a with
  | .task i t =>
      match (b.shards i).activity with
      | .idle => ((b.shards i).run i t).map (b.setShard i)
      | _ => none
  | .push i =>
      match (b.shards i).activity with
      | .publishing p todo => some (b.pushNext i p todo)
      | _ => none
  | .drainRead i =>
      match (b.shards i).activity with
      | .idle => if 1 < n ∧ 0 < b.wakers i then some (b.startDrain i) else none
      | _ => none
  | .drainPop i =>
      match (b.shards i).activity with
      | .draining => some (b.popNext i)
      | _ => none

/-- What an action that was taken has found and done. -/
lemma step_eq_some {b b' : Broker n} {a : Action n} (h : step b a = some b') :
    match a with
    | .task i t => (b.shards i).activity = .idle ∧
        ∃ s, (b.shards i).run i t = some s ∧ b' = b.setShard i s
    | .push i => ∃ p todo, (b.shards i).activity = .publishing p todo ∧ b' = b.pushNext i p todo
    | .drainRead i => (b.shards i).activity = .idle ∧ 0 < b.wakers i ∧ b' = b.startDrain i
    | .drainPop i => (b.shards i).activity = .draining ∧ b' = b.popNext i := by
  cases a with
  | task i t =>
      simp only [step] at h
      split at h
      · obtain ⟨s, hs, rfl⟩ := Option.map_eq_some_iff.mp h
        exact ⟨by assumption, s, hs, rfl⟩
      · cases h
  | push i =>
      simp only [step] at h
      split at h
      · rename_i p todo hact
        exact ⟨p, todo, hact, (Option.some.inj h).symm⟩
      · cases h
  | drainRead i =>
      simp only [step] at h
      split at h
      · split_ifs at h with hcond
        exact ⟨by assumption, hcond.2, (Option.some.inj h).symm⟩
      · cases h
  | drainPop i =>
      simp only [step] at h
      split at h
      · exact ⟨by assumption, (Option.some.inj h).symm⟩
      · cases h

/-- A shard that is idle runs a task that can run. -/
lemma step_task_eq {b : Broker n} {i : Fin n} (hidle : (b.shards i).activity = .idle) {t : Task}
    {s : Shard n} (hrun : (b.shards i).run i t = some s) :
    step b (.task i t) = some (b.setShard i s) := by
  simp [step, hidle, hrun]

/-- A task that an idle shard can run is a step of the broker. -/
lemma exists_step_task {b : Broker n} {i : Fin n} {t : Task} {s s' : Shard n}
    (hs : b.shards i = s) (hidle : s.activity = .idle) (hrun : s.run i t = some s') :
    ∃ b', step b (.task i t) = some b' ∧ b'.shards i = s' := by
  subst hs
  exact ⟨_, step_task_eq hidle hrun, shards_setShard_self b i s'⟩

/-- It handles a frame of a connection it reads from. -/
lemma step_frame_eq {b : Broker n} {i : Fin n} (hidle : (b.shards i).activity = .idle) {r : ConnRef}
    {c : Connection} (hc : (b.shards i).worker.conns[r]? = some c) (hreader : c.reader = .reading)
    (f : Frame) : step b (.task i (.frame r f)) =
      some (b.setShard i ((b.shards i).handleFrame i r c f)) :=
  step_task_eq hidle (by simp [Shard.run, hc, hreader])

/-- The shard whose thread takes the action. -/
def Action.shard : Action n → Fin n
  | .task i _ | .push i | .drainRead i | .drainPop i => i

/-- The push loop changes, of the shards, only the publishing one: the publication is finished, or
it has got one more push at most. -/
lemma Broker.shards_pushNext (b : Broker n) (i : Fin n) (p : Publication n) (todo : List (Fin n)) :
    ∃ s, (b.pushNext i p todo).shards = (b.setShard i s).shards ∧
      (s = (b.shards i).finish p ∨ ∃ p' todo', p'.conn = p.conn ∧ p'.frame = p.frame ∧
        s = { b.shards i with activity := .publishing p' todo' }) := by
  cases todo with
  | nil => exact ⟨_, rfl, Or.inl rfl⟩
  | cons j todo =>
      rw [Broker.pushNext]
      split_ifs
      · exact ⟨_, rfl, Or.inr ⟨p, todo, rfl, rfl, rfl⟩⟩
      · split
        · exact ⟨_, rfl, Or.inr
            ⟨{ p with pushes := p.pushes ++ [(j, false)] }, todo, rfl, rfl, rfl⟩⟩
        · exact ⟨_, rfl, Or.inr ⟨{ p with pushes := p.pushes ++ [(j, true)] }, todo, rfl, rfl, rfl⟩⟩

/-- The pop loop changes, of the shards, only the draining one: it dispatches what it has popped, or
it is done. -/
lemma Broker.shards_popNext (b : Broker n) (i : Fin n) :
    ∃ s, (b.popNext i).shards = (b.setShard i s).shards ∧
      (s = { b.shards i with activity := .idle } ∨
        ∃ parcel ∈ (b.inboxes i).items, s = (b.shards i).dispatchDrained parcel) := by
  unfold Broker.popNext
  split
  · exact ⟨_, rfl, Or.inl rfl⟩
  · rename_i parcel inbox hpop
    refine ⟨_, rfl, Or.inr ⟨parcel, ?_, rfl⟩⟩
    rw [BoundedQueue.items_of_pop hpop]
    exact List.mem_cons_self

/-- **Frame rule.** An action changes no other shard. -/
lemma step_frame {b b' : Broker n} {a : Action n} (hstep : step b a = some b') {j : Fin n}
    (hj : j ≠ a.shard) : b'.shards j = b.shards j := by
  have hs := step_eq_some hstep
  cases a with
  | task i t =>
      obtain ⟨-, s, -, rfl⟩ := hs
      exact shards_setShard_ne _ _ _ hj
  | push i =>
      obtain ⟨p, todo, -, rfl⟩ := hs
      obtain ⟨s, hshards, -⟩ := b.shards_pushNext i p todo
      rw [hshards]
      exact shards_setShard_ne _ _ _ hj
  | drainRead i =>
      obtain ⟨-, -, rfl⟩ := hs
      exact shards_setShard_ne _ _ _ hj
  | drainPop i =>
      obtain ⟨-, rfl⟩ := hs
      obtain ⟨s, hshards, -⟩ := b.shards_popNext i
      rw [hshards]
      exact shards_setShard_ne _ _ _ hj

/-- What an action can do to a shard: run a piece of one of its tasks, finish a publication,
dispatch a drained frame, or nothing but change what its thread is doing. -/
lemma step_shard {b b' : Broker n} {a : Action n} (hstep : step b a = some b') (i : Fin n) :
    (∃ t, a = .task i t ∧ (b.shards i).activity = .idle ∧
      (b.shards i).run i t = some (b'.shards i)) ∨
    (∀ t, a ≠ .task i t) ∧ ((∃ p, b'.shards i = (b.shards i).finish p) ∨
      (∃ parcel ∈ (b.inboxes i).items, b'.shards i = (b.shards i).dispatchDrained parcel) ∨
      ∃ activity, b'.shards i = { b.shards i with activity := activity }) := by
  rcases ne_or_eq i a.shard with hi | hi
  · refine Or.inr ⟨?_, Or.inr (Or.inr ⟨(b.shards i).activity, step_frame hstep hi⟩)⟩
    rintro t rfl
    exact hi rfl
  · have hs := step_eq_some hstep
    cases a with
    | task j t =>
        obtain rfl : i = j := hi
        obtain ⟨hidle, s, hs, rfl⟩ := hs
        rw [shards_setShard_self]
        exact Or.inl ⟨t, rfl, hidle, hs⟩
    | push j =>
        obtain rfl : i = j := hi
        obtain ⟨p, todo, -, rfl⟩ := hs
        obtain ⟨s, hshards, hs⟩ := b.shards_pushNext i p todo
        rw [hshards, shards_setShard_self]
        rcases hs with rfl | ⟨p', todo', -, -, rfl⟩
        · exact Or.inr ⟨by simp, Or.inl ⟨p, rfl⟩⟩
        · exact Or.inr ⟨by simp, Or.inr (Or.inr ⟨.publishing p' todo', rfl⟩)⟩
    | drainRead j =>
        obtain rfl : i = j := hi
        obtain ⟨-, -, rfl⟩ := hs
        exact Or.inr ⟨by simp, Or.inr (Or.inr ⟨.draining, shards_setShard_self b i _⟩)⟩
    | drainPop j =>
        obtain rfl : i = j := hi
        obtain ⟨-, rfl⟩ := hs
        obtain ⟨s, hshards, hs⟩ := b.shards_popNext i
        rw [hshards, shards_setShard_self]
        rcases hs with rfl | ⟨parcel, hparcel, rfl⟩
        · exact Or.inr ⟨by simp, Or.inr (Or.inr ⟨.idle, rfl⟩)⟩
        · exact Or.inr ⟨by simp, Or.inr (Or.inl ⟨parcel, hparcel, rfl⟩)⟩

end Aulon.Server
