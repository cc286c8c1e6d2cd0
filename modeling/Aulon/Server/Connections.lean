import Aulon.Server.Outbound

/-!
# What an action does to a connection

An action of a shard changes a connection in three ways only: frames are offered to it, a call is
made on its state by its own tasks, and its reader starts or ends. `step_conn` says all of it at
once; what is proved later about single connections rests on it and not on the handlers.

* `step_conn` — what an action does to the connections there are.
* `conns_step` — a connection comes in by being accepted.
* `target_lt` — frames are offered to connections only.
-/

namespace Aulon.Server

open Aulon.Lib Aulon.Core Aulon.Proto

variable {n : ℕ}

/-! ## Connections that are there -/

/-- What an action makes of the reader of connection `r` of shard `i`. -/
def Action.readerAfter (i : Fin n) (r : ConnRef) (status : ReaderStatus) : Action n → ReaderStatus
  | .task j (.greet r') => if j = i ∧ r' = r then .reading else status
  | .task j (.exit r' _) => if j = i ∧ r' = r then .finished else status
  | _ => status

/-- The connection after an action, when the frames offered to it have left it in state `s`. -/
def Connection.After (i : Fin n) (r : ConnRef) (a : Action n) (c : Connection)
    (s : ConnectionState) (c' : Connection) : Prop :=
  c'.state = ((a.call i r).map (·.apply s)).getD s ∧ c'.reader = a.readerAfter i r c.reader

/-- An action that does not call a connection leaves it as it is. -/
lemma Connection.after_self {i : Fin n} {r : ConnRef} {a : Action n} {c : Connection}
    (hcall : a.call i r = none) (hreader : a.readerAfter i r c.reader = c.reader) :
    c.After i r a c.state c := by
  refine ⟨?_, hreader.symm⟩
  rw [hcall]
  rfl

/-- An action of shard `i` leads from one worker to the other: it offers some frames, and leaves
each connection as `Connection.After` says. -/
def Worker.Moves (i : Fin n) (a : Action n) (w w' : Worker) : Prop :=
  ∃ new, w'.offers = w.offers ++ new ∧ ∀ r c, w.conns[r]? = some c →
    ∃ s c', Worker.Enqueued r c.state new s ∧ w'.conns[r]? = some c' ∧ c.After i r a s c'

namespace Worker

variable {P : Offer → Prop} {w w' : Worker} {i : Fin n} {a : Action n}

/-- An action that makes no call and starts and ends no reader. -/
lemma Extends.moves (h : Extends P w w') (hcall : ∀ r, a.call i r = none)
    (hreader : ∀ r status, a.readerAfter i r status = status) : Moves i a w w' := by
  obtain ⟨hcore, new, hoffers, -, hnew⟩ := h
  refine ⟨new, hoffers, fun r c hc => ?_⟩
  obtain ⟨c', hc', henq⟩ := hnew r c hc
  obtain ⟨c'', hc'', hcore'⟩ := getElem?_of_core hcore hc
  obtain rfl : c' = c'' := Option.some.inj (hc'.symm.trans hc'')
  refine ⟨c'.state, c', henq, hc', ?_, ?_⟩
  · rw [hcall r]
    rfl
  · rw [hreader]
    exact congrArg (·.2.2) hcore'

/-- An action that changes one connection and offers nothing. -/
lemma moves_set {r : ConnRef} {c c' : Connection} (hc : w.conns[r]? = some c)
    (hconns : w'.conns = w.conns.set r c') (hoffers : w'.offers = w.offers)
    (hself : c.After i r a c.state c')
    (hothers : ∀ r' ≠ r, ∀ c : Connection, c.After i r' a c.state c) : Moves i a w w' := by
  refine ⟨[], by simp [hoffers], fun r' d hd => ?_⟩
  rcases eq_or_ne r' r with rfl | hne
  · obtain rfl : c = d := Option.some.inj (hc.symm.trans hd)
    obtain ⟨hlt, -⟩ := List.getElem?_eq_some_iff.mp hc
    refine ⟨c.state, c', rfl, ?_, hself⟩
    rw [hconns, List.getElem?_set_self hlt]
  · refine ⟨d.state, d, rfl, ?_, hothers r' hne d⟩
    rw [hconns, List.getElem?_set_ne hne.symm, hd]

/-- The greeting is offered, and the reader reads from now on. -/
lemma moves_greet (w : Worker) (i : Fin n) (r : ConnRef) :
    Moves i (.task i (.greet r)) w (w.greet r) := by
  have hext := extends_offer w r none (.info serverInfoJson) (encode (.info serverInfoJson))
  rw [greet_eq]
  obtain ⟨hcore, new, hoffers, -, hnew⟩ := hext
  refine ⟨new, hoffers, fun r' c hc => ?_⟩
  obtain ⟨c', hc', henq⟩ := hnew r' c hc
  obtain ⟨c'', hc'', hcore'⟩ := getElem?_of_core hcore hc
  obtain rfl : c' = c'' := Option.some.inj (hc'.symm.trans hc'')
  have hreader : c'.reader = c.reader := congrArg (·.2.2) hcore'
  refine ⟨c'.state, if r' = r then { c' with reader := .reading } else c', henq, ?_, ?_, ?_⟩
  · rw [setReader, List.getElem?_modify, hc']
    rcases eq_or_ne r' r with rfl | hne
    · simp
    · simp [hne, hne.symm]
  · split_ifs <;> rfl
  · rcases eq_or_ne r' r with rfl | hne
    · simp [Action.readerAfter]
    · simp [Action.readerAfter, hne, hne.symm, hreader]

end Worker

/-- What a piece of a task does to the connections there are. -/
lemma Shard.moves_run {s s' : Shard n} {i : Fin n} {t : Task} (hrun : s.run i t = some s') :
    s.worker.Moves i (.task i t) s'.worker := by
  have hs := Shard.run_eq_some hrun
  cases t with
  | accept granted =>
      obtain rfl : s' = { s with worker := s.worker.accept granted } := hs
      refine ⟨[], ?_, fun r c hc => ⟨c.state, c, rfl, ?_, Connection.after_self rfl rfl⟩⟩
      · cases granted <;> simp [Worker.accept, Worker.nextId]
      · obtain ⟨hlt, -⟩ := List.getElem?_eq_some_iff.mp hc
        cases granted with
        | true => simpa [Worker.accept, Worker.nextId, List.getElem?_append_left hlt] using hc
        | false => simpa [Worker.accept, Worker.nextId] using hc
  | greet r =>
      obtain ⟨-, -, -, rfl⟩ := hs
      dsimp only
      exact s.worker.moves_greet i r
  | frame r f =>
      obtain ⟨c, hc, -, rfl⟩ := hs
      rcases s.handleFrame_cases i r c f with hext | ⟨table, subscriptions, heq⟩
      · exact hext.moves (fun _ => rfl) (fun _ _ => rfl)
      · refine Worker.moves_set hc (show (s.handleFrame i r c f).worker.conns =
          s.worker.conns.set r { c with subscriptions := subscriptions } by rw [heq])
          (by rw [heq]) ⟨rfl, rfl⟩ fun _ _ d => Connection.after_self rfl rfl
  | reject r =>
      obtain ⟨c, hc, -, rfl⟩ := hs
      refine Worker.moves_set hc rfl rfl ⟨by simp [Action.call, ConnectionState.Call.apply], rfl⟩ ?_
      intro r' hne d
      exact Connection.after_self (by simp [Action.call, hne.symm]) rfl
  | exit r order =>
      obtain ⟨c, hc, -, -, rfl⟩ := hs
      refine Worker.moves_set hc rfl rfl
        ⟨by simp [Action.call, ConnectionState.Call.apply], by simp [Action.readerAfter]⟩ ?_
      intro r' hne d
      exact Connection.after_self (by simp [Action.call, hne.symm])
        (by simp [Action.readerAfter, hne.symm])
  | send r buf =>
      obtain ⟨c, hc, rfl⟩ := hs
      refine Worker.moves_set hc rfl rfl ⟨by simp [Action.call, ConnectionState.Call.apply], rfl⟩ ?_
      intro r' hne d
      exact Connection.after_self (by simp [Action.call, hne.symm]) rfl

/-- **What an action does to a connection.** Some frames are offered; each connection there is takes
those meant for it, and then the call that its own task makes. -/
theorem step_conn {b b' : Broker n} {a : Action n} (hstep : step b a = some b') (i : Fin n) :
    (b.shards i).worker.Moves i a (b'.shards i).worker := by
  rcases step_cases hstep i with ⟨t, rfl, hrun⟩ | ⟨ha, hext⟩
  · exact Shard.moves_run hrun
  · refine hext.moves (fun r => ?_) (fun r status => ?_)
    · cases a with
      | task j t =>
          have hj : j ≠ i := fun h => ha t (by rw [h])
          cases t <;> simp [Action.call, hj]
      | _ => rfl
    · cases a with
      | task j t =>
          have hj : j ≠ i := fun h => ha t (by rw [h])
          cases t <;> simp [Action.readerAfter, hj]
      | _ => rfl

/-! ## New connections -/

/-- A connection that was just accepted. -/
def Connection.new (id : ConnectionId) : Connection :=
  ⟨.new id defaultOutboundCapacity, ∅, .starting⟩

/-- An action accepts a connection, or it leaves their number as it is. -/
lemma conns_step {b b' : Broker n} {a : Action n} (hstep : step b a = some b') (i : Fin n) :
    (a = .task i (.accept true) ∧ (b'.shards i).worker.offers = (b.shards i).worker.offers ∧
      ∃ id, (b'.shards i).worker.conns = (b.shards i).worker.conns ++ [.new id]) ∨
    a ≠ .task i (.accept true) ∧
      (b'.shards i).worker.conns.length = (b.shards i).worker.conns.length := by
  rcases step_shard hstep i with ⟨t, rfl, -, hrun⟩ | ⟨ha, -⟩
  · have hs := Shard.run_eq_some hrun
    cases t with
    | accept granted =>
        have hworker : (b'.shards i).worker = (b.shards i).worker.accept granted :=
          congrArg Shard.worker hs
        rw [hworker]
        cases granted with
        | true => exact Or.inl ⟨rfl, rfl, _, rfl⟩
        | false => exact Or.inr ⟨by simp, rfl⟩
    | greet r =>
        obtain ⟨-, -, -, hs⟩ := hs
        refine Or.inr ⟨by simp, ?_⟩
        rw [hs, Worker.greet_eq]
        simp [Worker.setReader, Worker.length_conns_of_core (Worker.extends_offer _ _ _ _ _).core]
    | frame r f =>
        obtain ⟨c, -, -, hs⟩ := hs
        refine Or.inr ⟨by simp, ?_⟩
        rw [hs]
        rcases (b.shards i).handleFrame_cases i r c f with hext | ⟨table, subscriptions, heq⟩
        · exact Worker.length_conns_of_core hext.core
        · rw [heq]
          simp
    | reject r =>
        obtain ⟨c, -, -, hs⟩ := hs
        exact Or.inr ⟨by simp, by rw [hs]; simp [Worker.setState]⟩
    | exit r order =>
        obtain ⟨c, -, -, -, hs⟩ := hs
        exact Or.inr ⟨by simp, by rw [hs]; simp [Worker.cleanup]⟩
    | send r buf =>
        obtain ⟨c, -, hs⟩ := hs
        exact Or.inr ⟨by simp, by rw [hs]; simp [Worker.setState]⟩
  · exact Or.inr ⟨ha _, Worker.length_conns_of_core (extends_step hstep ha).core⟩

/-! ## Frames are offered to connections only -/

namespace Worker

/-- Every frame was offered to a connection that exists. -/
def Targeted (w : Worker) : Prop := ∀ o ∈ w.offers, o.target < w.conns.length

variable {w : Worker}

/-- An offer to a connection goes to one that exists, or is none. -/
lemma Targeted.offer (h : w.Targeted) (target : ConnRef) (group : Option Bytes) (frame : Frame)
    (bytes : Bytes) : (w.offer target group frame bytes).Targeted := by
  have hlen := length_conns_of_core (extends_offer w target group frame bytes).core
  intro o ho
  rw [hlen]
  unfold Worker.offer at ho
  split at ho
  · exact h o ho
  · rename_i c hc
    rcases List.mem_append.mp ho with ho | ho
    · exact h o ho
    · rw [List.mem_singleton.mp ho]
      exact (List.getElem?_eq_some_iff.mp hc).1

/-- So does an error. -/
lemma Targeted.emitErrTo (h : w.Targeted) (target : ConnRef) (msg : Bytes) :
    (w.emitErrTo target msg).Targeted := by
  unfold Worker.emitErrTo
  split
  · exact h.offer _ _ _ _
  · exact h

/-- So does a message. -/
lemma Targeted.deliver (h : w.Targeted) (frame : PublishedFrame) (group : Option Bytes)
    (entry : Snapshot) : (w.deliver frame group entry).Targeted := by
  unfold Worker.deliver
  split
  · exact h
  · dsimp only
    split
    · exact h
    · refine Targeted.offer ?_ _ _ _ _
      exact h

/-- So do the messages of a publication. -/
lemma Targeted.deliverAll (frame : PublishedFrame) (ds : List (Option Bytes × Snapshot))
    (h : w.Targeted) : (w.deliverAll frame ds).Targeted := by
  induction ds generalizing w with
  | nil => exact h
  | cons d ds ih => exact ih (h.deliver frame d.1 d.2)

/-- So do those of a dispatch. -/
lemma Targeted.dispatchLocal (h : w.Targeted) {frame : PublishedFrame} {w' : Worker}
    (hw' : w.dispatchLocal frame = .ok w') : w'.Targeted := by
  cases hparse : parsePublisherSubject frame.subject with
  | error e =>
      rw [dispatchLocal_error hparse w] at hw'
      cases hw'
  | ok tokens =>
      rw [dispatchLocal_deliveries hparse w] at hw'
      cases hw'
      exact h.deliverAll frame _

/-- Where nothing is offered, nothing changes for the targets. -/
lemma Targeted.of_offers {w' : Worker} (h : w.Targeted) (hoffers : w'.offers = w.offers)
    (hconns : w.conns.length ≤ w'.conns.length) : w'.Targeted := by
  intro o ho
  rw [hoffers] at ho
  exact (h o ho).trans_le hconns

/-- The answers to a command go to a connection that exists. -/
lemma Targeted.handleCommand (h : w.Targeted) (r : ConnRef) (c : Connection) (f : Frame) :
    (w.handleCommand r c f).Targeted := by
  cases f with
  | connect _ | pong | pub _ _ _ => exact h
  | ping =>
      rw [Worker.handleCommand, Worker.handlePing]
      split
      · exact h.offer _ _ _ _
      · exact h
  | sub subject queueGroup sid =>
      rw [Worker.handleCommand, Worker.handleSub]
      split
      · exact h.emitErrTo _ _
      · exact h.of_offers rfl (by simp)
  | unsub sid maxMsgs =>
      rw [Worker.handleCommand, Worker.handleUnsub]
      split_ifs
      · exact h.emitErrTo _ _
      · split
        · exact h
        · exact h.of_offers rfl (by simp)
  | msg _ _ _ _ | info _ | ok | err _ =>
      rw [Worker.handleCommand]
      exact h.emitErrTo _ _

end Worker

namespace Shard

variable {s : Shard n}

/-- So does a report of back-pressure. -/
lemma targeted_finish (h : s.worker.Targeted) (p : Publication n) :
    (s.finish p).worker.Targeted := by
  unfold finish
  dsimp only
  split_ifs
  · exact h.emitErrTo _ _
  · exact h

/-- So do the messages of a `PUB`. -/
lemma targeted_handlePub (h : s.worker.Targeted) (i : Fin n) (r : ConnRef)
    (frame : PublishedFrame) : (s.handlePub i r frame).worker.Targeted := by
  cases hdispatch : s.worker.dispatchLocal frame with
  | error e =>
      rw [handlePub, hdispatch]
      dsimp only
      exact h.emitErrTo _ _
  | ok worker =>
      rw [s.worker_handlePub i r hdispatch]
      exact h.dispatchLocal hdispatch

/-- So do those of a drained frame. -/
lemma targeted_dispatchDrained (h : s.worker.Targeted) (parcel : Parcel n) :
    (s.dispatchDrained parcel).worker.Targeted := by
  unfold dispatchDrained
  split
  · exact h
  · exact h.dispatchLocal (by assumption)

/-- A task offers frames to connections that exist only. -/
lemma targeted_run {s' : Shard n} {i : Fin n} {t : Task} (h : s.worker.Targeted)
    (hrun : s.run i t = some s') : s'.worker.Targeted := by
  have hs := Shard.run_eq_some hrun
  cases t with
  | accept granted =>
      obtain rfl : s' = { s with worker := s.worker.accept granted } := hs
      refine h.of_offers ?_ ?_ <;> cases granted <;> simp [Worker.accept, Worker.nextId]
  | greet r =>
      obtain ⟨-, -, -, rfl⟩ := hs
      dsimp only
      rw [Worker.greet_eq]
      refine (h.offer r none (.info serverInfoJson) _).of_offers rfl ?_
      simp [Worker.setReader]
  | frame r f =>
      obtain ⟨c, -, -, rfl⟩ := hs
      cases f with
      | pub subject replyTo payload =>
          rw [handleFrame]
          split_ifs
          · dsimp only
            exact h.emitErrTo _ _
          · exact targeted_handlePub h _ _ _
      | _ =>
          rw [handleFrame_command _ _ _ _ (by simp)]
          dsimp only
          exact h.handleCommand r c _
  | reject r =>
      obtain ⟨c, -, -, rfl⟩ := hs
      exact h.of_offers rfl (by simp [Worker.setState])
  | exit r order =>
      obtain ⟨c, -, -, -, rfl⟩ := hs
      exact h.of_offers rfl (by simp [Worker.cleanup])
  | send r buf =>
      obtain ⟨c, -, rfl⟩ := hs
      exact h.of_offers rfl (by simp [Worker.setState])

end Shard

/-- **Frames are offered to connections only.** -/
theorem target_lt {capacity : ℕ} {as : List (Action n)} {b : Broker n}
    (hrun : run step (Broker.init n capacity) as = some b) (i : Fin n) :
    (b.shards i).worker.Targeted := by
  refine run_invariant (I := fun b : Broker n => (b.shards i).worker.Targeted) ?_
    (by simp [Worker.Targeted, Broker.init, Worker.new]) hrun
  intro b a b' h hstep
  rcases step_shard hstep i with ⟨t, -, -, ht⟩ | ⟨-, ⟨p, hs⟩ | ⟨parcel, -, hs⟩ | ⟨activity, hs⟩⟩
  · exact Shard.targeted_run h ht
  · rw [hs]
    exact Shard.targeted_finish h p
  · rw [hs]
    exact Shard.targeted_dispatchDrained h parcel
  · rw [hs]
    exact h

end Aulon.Server
