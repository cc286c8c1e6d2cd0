import Aulon.Server.Buffers
import Aulon.Server.Settling

/-!
# The server at rest

The server is at rest when only a client or a fault can make it do something. This module shows that
it has then done all of its work: nothing is left in the middle of a loop, no frame waits in an
inbox whose drain task is alive and has missed no kick, and every connection is either open, with
all that the client has sent read and all that was accepted for it sent, or gone, with both of its
buffers returned. A drain task that has missed a kick sleeps on although its inbox holds frames: the
server is then at rest too, and what it has not done is in that inbox.

* `Runtime.Threaded` — the reader that keeps the thread is the one in its inner loop.
* `Broker.Awake` — for a frame in an inbox a kick was due.
* `Process.AtRest`, `at_rest` — what is true at rest.
* `exists_rest` — every state leads to rest.
-/

namespace Aulon.Server

open Aulon.Lib Aulon.Core Aulon.Proto

variable {B : FixedBufPool} {n inboxCapacity poolCapacity : ℕ} {es : List (Event n)}
  {s s' t : Process B n} {e : Event n} {i : Fin n} {r : ConnRef} {v v' : View}

/-! ## The thread of a shard -/

/-- The reader is in its inner loop. -/
def ReaderPhase.InLoop (phase : ReaderPhase) : Prop :=
  ∃ consumedTotal, phase = .parsing consumedTotal ∨ phase = .checking consumedTotal

/-- The other phases of a reader are outside of its inner loop. -/
lemma ReaderPhase.not_inLoop {phase : ReaderPhase}
    (h : phase = .starting ∨ phase = .waiting ∨ phase = .finished) : ¬ phase.InLoop := by
  rintro ⟨k, rfl | rfl⟩ <;> simp at h

namespace Runtime

/-- The reader that keeps the thread is the one that is in its inner loop. -/
def Threaded (rt : Runtime B) : Prop :=
  ∀ r, rt.running = some r ↔ ∃ l, rt.links[r]? = some l ∧ l.reader.phase.InLoop

variable {rt rt' : Runtime B} {l : Link}

/-- A call on a connection leaves the readers. -/
lemma Threaded.notice (h : rt.Threaded) (calls : ConnRef → List WriterEvent) :
    (rt.notice calls).Threaded := by
  intro r
  rw [links_notice]
  refine (h r).trans ?_
  cases rt.links[r]? <;> simp

/-- A new link. -/
lemma Threaded.append (h : rt.Threaded) (hl : ¬ l.reader.phase.InLoop) {pool : BufferPool B} :
    ({ rt with pool := pool, links := rt.links ++ [l] } : Runtime B).Threaded := by
  intro r
  refine (h r).trans ⟨?_, ?_⟩
  · rintro ⟨l', hl', hloop⟩
    exact ⟨l', (List.getElem?_append_left (List.getElem?_eq_some_iff.mp hl').1).trans hl', hloop⟩
  · rintro ⟨l', hl', hloop⟩
    dsimp only at hl'
    rw [List.getElem?_append] at hl'
    split_ifs at hl'
    · exact ⟨l', hl', hloop⟩
    · obtain rfl := List.mem_singleton.mp (List.mem_of_getElem? hl')
      exact absurd hloop hl

/-- A change of one link. -/
lemma Threaded.modify (h : rt.Threaded) (hl : rt.links[r]? = some l) {g : Link → Link}
    (hlinks : rt'.links = (rt.modify r g).links)
    (hown : rt'.running = some r ↔ (g l).reader.phase.InLoop)
    (hothers : ∀ r' ≠ r, rt'.running = some r' ↔ rt.running = some r') : rt'.Threaded := by
  intro r'
  rw [hlinks]
  rcases eq_or_ne r' r with rfl | hr
  · rw [links_modify_self, hl]
    simpa using hown
  · rw [links_modify_ne rt hr, hothers r' hr]
    exact h r'

/-- A change of a link that leaves its reader where it is. -/
lemma Threaded.modify_keep (h : rt.Threaded) (hl : rt.links[r]? = some l) {g : Link → Link}
    (hlinks : rt'.links = (rt.modify r g).links) (hrunning : rt'.running = rt.running)
    (hg : (g l).reader.phase.InLoop ↔ l.reader.phase.InLoop) : rt'.Threaded := by
  refine h.modify hl hlinks ?_ fun r' _ => by rw [hrunning]
  rw [hrunning, h r, hl, hg]
  simp

/-- The reader that has the thread, if one has it, leaves its loop. -/
lemma Threaded.leave (h : rt.Threaded) (hl : rt.links[r]? = some l) {g : Link → Link}
    (hlinks : rt'.links = (rt.modify r g).links) (hrunning : rt'.running = none)
    (hg : (g l).reader.phase = .waiting ∨ (g l).reader.phase = .finished)
    (hown : rt.running = none ∨ rt.running = some r) : rt'.Threaded := by
  refine h.modify hl hlinks ?_ fun r' hr => ?_
  · rw [hrunning]
    exact iff_of_false (by simp) (ReaderPhase.not_inLoop (Or.inr hg))
  · rw [hrunning]
    rcases hown with hown | hown <;> rw [hown]
    simp [hr.symm]

end Runtime

namespace Process

/-- The actions of a plan leave who keeps the thread. -/
lemma running_acts {as : List (Action n)} (h : run act s as = some t) (i : Fin n) :
    (t.runtimes i).running = (s.runtimes i).running := by
  obtain ⟨calls, hcalls⟩ := runtimes_acts h i
  rw [hcalls]
  rfl

/-- Whatever plan an event has, the thread stays with the reader in its inner loop. -/
lemma threaded_change {p : Plan B n} (hnext : s.next e = some p) (hacts : run act s p.1 = some t)
    (h : (t.runtimes e.shard).Threaded) : (p.2 (t.runtimes e.shard)).Threaded := by
  have hn := next_eq_some hnext
  have hrunning := running_acts hacts e.shard
  cases e with
  | connect j =>
      obtain ⟨-, rfl⟩ := hn
      unfold acceptPlan
      split
      · exact h
      · split
        · exact h
        · exact h.append (ReaderPhase.not_inLoop (Or.inl rfl))
  | push j kicks | drainPop j =>
      rw [hn]
      exact h
  | drainRead j =>
      obtain ⟨-, -, -, rfl⟩ := hn
      exact h
  | drainFail j =>
      obtain ⟨-, -, rfl⟩ := hn
      exact h
  | send j r bytes | close j r =>
      obtain ⟨l, hl, -, rfl⟩ := hn
      obtain ⟨l', hl', -⟩ := link_acts hacts hl
      exact h.modify_keep hl' rfl rfl Iff.rfl
  | start j r =>
      obtain ⟨l, hl, -, hphase, rfl⟩ := hn
      obtain ⟨l', hl', hreader, -⟩ := link_acts hacts hl
      refine h.modify_keep hl' rfl rfl ?_
      rw [hreader, hphase]
      exact iff_of_false (ReaderPhase.not_inLoop (Or.inr (Or.inl rfl)))
        (ReaderPhase.not_inLoop (Or.inl rfl))
  | read j r k order =>
      obtain ⟨l, hl, hfree, hphase, -, -, -, rfl⟩ := hn
      obtain ⟨l', hl', hreader, -⟩ := link_acts hacts hl
      have hnone : (t.runtimes j).running = none := hrunning.trans hfree.2
      unfold readPlan
      dsimp only
      split_ifs
      · refine h.leave hl' (g := fun l => (l.afterRead k).goto .finished) ?_ rfl
          (Or.inr rfl) (Or.inl hnone)
        show ((Runtime.modify _ r _).modify r _).links = _
        simp [Runtime.modify, List.modify_modify_eq, Function.comp_def]
      · refine h.modify hl' rfl ⟨fun _ => ⟨0, Or.inl rfl⟩, fun _ => rfl⟩ fun r' hr => ?_
        show some r = some r' ↔ (t.runtimes j).running = some r'
        rw [hnone]
        simp [hr.symm]
  | readEnd j r order =>
      obtain ⟨l, hl, hfree, -, -, rfl⟩ := hn
      obtain ⟨l', hl', -⟩ := link_acts hacts hl
      exact h.leave hl' rfl rfl (Or.inr rfl) (Or.inl (hrunning.trans hfree.2))
  | readFail j r order =>
      obtain ⟨l, hl, hfree, -, rfl⟩ := hn
      obtain ⟨l', hl', -⟩ := link_acts hacts hl
      exact h.leave hl' rfl rfl (Or.inr rfl) (Or.inl (hrunning.trans hfree.2))
  | parse j r order =>
      obtain ⟨l, c, k, hl, -, -, hown, hphase, rfl⟩ := hn
      obtain ⟨l', hl', hreader, -⟩ := link_acts hacts hl
      have hown : (t.runtimes j).running = some r := hrunning.trans hown
      unfold parsePlan roundPlan
      split
      · refine h.modify_keep hl' rfl rfl (iff_of_true ⟨_, Or.inr rfl⟩ ⟨k, Or.inl ?_⟩)
        rw [hreader, hphase]
      · split_ifs
        · exact h.leave hl' rfl rfl (Or.inr rfl) (Or.inr hown)
        · exact h.leave hl' rfl rfl (Or.inl rfl) (Or.inr hown)
      · exact h.leave hl' rfl rfl (Or.inr rfl) (Or.inr hown)
  | check j r order =>
      obtain ⟨l, c, k, hl, -, -, hown, hphase, rfl⟩ := hn
      obtain ⟨l', hl', hreader, -⟩ := link_acts hacts hl
      have hown : (t.runtimes j).running = some r := hrunning.trans hown
      unfold checkPlan
      split_ifs
      · exact h.leave hl' rfl rfl (Or.inr rfl) (Or.inr hown)
      · refine h.modify_keep hl' rfl rfl (iff_of_true ⟨_, Or.inl rfl⟩ ⟨k, Or.inr ?_⟩)
        rw [hreader, hphase]
  | poll j r | written j r ok =>
      obtain ⟨l, c, w, hl, -, -, -, rfl⟩ := hn
      obtain ⟨l', hl', -⟩ := link_acts hacts hl
      exact h.modify_keep hl' rfl rfl Iff.rfl

/-- The thread is with the reader in its inner loop after every run. -/
lemma threaded_run (hrun : run step (init n inboxCapacity poolCapacity : Process B n) es = some s)
    (i : Fin n) : (s.runtimes i).Threaded := by
  refine runtimes_run (fun i r => ?_) (fun rt calls h => h.notice calls) (fun s t e p => ?_) hrun i
  · simp [init]
  · exact threaded_change

end Process

/-! ## Wakeups -/

/-- A frame that waits in an inbox is about to be drained, or a kick of the drain task was due. -/
def Broker.Awake (b : Broker n) (i : Fin n) : Prop :=
  (b.inboxes i).items ≠ [] → 1 < n ∧ ((b.shards i).activity = .draining ∨ 0 < b.wakers i)

namespace Broker

variable {b : Broker n} {i j : Fin n}

/-- What concerns only the thread of another shard. -/
lemma Awake.setShard (h : b.Awake j) {s : Shard n}
    (hs : j = i → (b.shards i).activity = .draining → s.activity = .draining) :
    (b.setShard i s).Awake j := by
  intro hitems
  obtain ⟨hn, hwake⟩ := h hitems
  refine ⟨hn, hwake.imp_left fun hdrain => ?_⟩
  rcases eq_or_ne j i with rfl | hj
  · rw [shards_setShard_self]
    exact hs rfl hdrain
  · rw [shards_setShard_ne _ _ _ hj]
    exact hdrain

/-- A push leaves no frame without a kick: it kicks the drain task of an inbox that was empty. -/
lemma Awake.pushNext (h : b.Awake j) {p : Publication n} {todo : List (Fin n)}
    (hactivity : (b.shards i).activity = .publishing p todo) : (b.pushNext i p todo).Awake j := by
  have hset : ∀ s, (b.setShard i s).Awake j := by
    intro s
    refine h.setShard fun _ hdrain => ?_
    rw [hactivity] at hdrain
    cases hdrain
  cases todo with
  | nil => exact hset _
  | cons k todo =>
      rw [Broker.pushNext]
      split_ifs with hk
      · exact hset _
      · split
        · exact hset _
        · rename_i wasEmpty inbox hpush
          intro hitems
          have hlt : 1 < n := by
            have := Fin.val_ne_of_ne hk
            omega
          refine ⟨hlt, ?_⟩
          rcases eq_or_ne j k with rfl | hj
          · cases wasEmpty with
            | true => exact Or.inr (by simp)
            | false =>
                have hfull : (b.inboxes j).items ≠ [] := by
                  intro hempty
                  have := BoundedQueue.isEmpty_of_push hpush
                  rw [hempty] at this
                  cases this
                exact (hset _ hfull).2
          · have hsame : (b.inboxes j).items ≠ [] := by
              intro hempty
              apply hitems
              dsimp only
              rw [Function.update_of_ne hj, hempty]
            refine (hset _ hsame).2.imp_right fun hwake => ?_
            dsimp only
            split_ifs
            · rw [Function.update_of_ne hj]
              exact hwake
            · exact hwake

/-- A drain task that starts is about to drain. -/
lemma Awake.startDrain (h : b.Awake j) : (b.startDrain i).Awake j := by
  intro hitems
  obtain ⟨hn, hwake⟩ := h hitems
  refine ⟨hn, ?_⟩
  rcases eq_or_ne j i with rfl | hj
  · exact Or.inl (by rw [Broker.startDrain]; simp)
  · refine (h.setShard (s := { b.shards i with activity := .draining })
      (fun hji => absurd hji hj) hitems).2.imp_right fun hwake => ?_
    show 0 < Function.update b.wakers i 0 j
    rw [Function.update_of_ne hj]
    exact hwake

/-- A pop leaves the inbox empty, or the drain task goes on. -/
lemma Awake.popNext (h : b.Awake j) : (b.popNext i).Awake j := by
  unfold Broker.popNext
  split
  · rename_i hpop
    intro hitems
    refine h.setShard (fun hji _ => ?_) hitems
    subst hji
    exact absurd (BoundedQueue.items_of_pop_eq_none hpop) hitems
  · rename_i parcel inbox hpop
    have hactivity : ((b.shards i).dispatchDrained parcel).activity = (b.shards i).activity := by
      unfold Shard.dispatchDrained
      split <;> rfl
    intro hitems
    refine h.setShard (s := (b.shards i).dispatchDrained parcel)
      (fun _ hdrain => hactivity.trans hdrain) ?_
    rcases eq_or_ne j i with rfl | hj
    · rw [inboxes_setShard, BoundedQueue.items_of_pop hpop]
      simp
    · dsimp only at hitems
      rw [Function.update_of_ne hj] at hitems
      exact hitems

end Broker

/-- The two tasks of a connection and its socket fit together: the reader has a buffer of the pool,
the socket was shut down by the writer that has returned, and a reader that has returned has left a
close reason. -/
structure View.Linked (v : View) : Prop where
  buf : v.link.reader.buf.bytes.length = defaultBufferSize
  shut : v.link.socket.shut = true ↔ v.link.writer.phase = .exited
  finished : v.link.reader.phase = .finished → v.state.closeWith ≠ none

namespace View.Linked

/-- An offer leaves the tasks and the socket. -/
lemma offer (h : v.Linked) (o : Offer) : (v.offer o).Linked := by
  refine ⟨h.buf, ?_, fun hphase => v.closing_offer (h.finished hphase) o⟩
  exact h.shut.trans (v.link.writer.notice_keeps _).2.symm

/-- A mark leaves the tasks and the socket. -/
lemma mark (h : v.Linked) (reason : CloseReason) : (v.mark reason).Linked := by
  refine ⟨h.buf, h.shut.trans (v.link.writer.notice_keeps _).2.symm, fun hphase => ?_⟩
  obtain ⟨first, hfirst⟩ := Option.ne_none_iff_exists'.mp (h.finished hphase)
  simp [View.mark, hfirst]

/-- A reader that returns leaves a reason. -/
lemma leave (h : v.Linked) : v.leave.Linked := by
  refine ⟨h.buf, (h.mark .peerClosed).shut, fun _ => ?_⟩
  show (v.state.markClose .peerClosed).closeWith ≠ none
  simp

/-- A read leaves the reader its buffer. -/
lemma afterRead (h : v.Linked) {k : ℕ} (hbuf : k ≤ v.link.reader.buf.bytes.length) :
    (v.mapLink fun l => l.afterRead k).Linked := by
  refine ⟨(length_bytes_afterRead hbuf).trans h.buf, h.shut, fun hphase => ?_⟩
  cases hphase

/-- A move keeps the tasks and the socket together. -/
lemma moves (h : v.Linked) {a : Agent} (hmoves : v.Moves a v') : v'.Linked := by
  cases hmoves with
  | send | close => exact ⟨h.buf, h.shut, h.finished⟩
  | start | frame | round | check => exact ⟨h.buf, h.shut, fun hphase => by cases hphase⟩
  | read k hphase hpos hbuf => exact h.afterRead hbuf
  | overflow k hphase hpos hbuf => exact ((h.mark .protocolError).afterRead hbuf).leave
  | eof | roundClosed | checkClosed => exact h.leave
  | malformed => exact (h.mark .protocolError).leave
  | write failed a w ha _ hstep =>
      refine ⟨h.buf, decide_eq_true_iff, fun hphase => ?_⟩
      exact (Link.closeWith_writerOf ha hstep).trans_ne (h.finished hphase)

/-- They fit together at the start. -/
lemma new (id : ConnectionId) {readBuf : FixedBuf}
    (hread : readBuf.bytes.length = defaultBufferSize) (writeBuf : FixedBuf) :
    (View.new id readBuf writeBuf).Linked := by
  refine ⟨hread, ?_, fun hphase => by cases hphase⟩
  simp [View.new, Link.new]

end View.Linked

/-- They fit together after every run. -/
lemma linked_run
    (hrun : run Process.step (.init n inboxCapacity poolCapacity : Process B n) es = some s)
    (hv : s.view i r = some v) : v.Linked :=
  Process.view_run (fun id _ writeBuf hread _ => .new id hread writeBuf)
    (fun _ _ _ h hmoves => h.moves hmoves) (fun _ o h _ => h.offer o) hrun hv

/-! ## What can happen -/

namespace Process

/-- An event that has a plan whose actions can be taken can happen. -/
lemma step_eq {p : Plan B n} (hnext : s.next e = some p) (hacts : run act s p.1 = some t) :
    s.step e = some ((t.withLost (s.lostAfter t e)).change e.shard p.2) := by
  unfold step
  rw [hnext]
  show ((run act s p.1).bind fun t =>
    some ((t.withLost (s.lostAfter t e)).change e.shard p.2)) = _
  rw [hacts]
  rfl

/-- An event whose plan can be carried out can happen. -/
lemma step_ne_none {p : Plan B n} (hnext : s.next e = some p) (hacts : run act s p.1 = some t) :
    s.step e ≠ none := by
  rw [step_eq hnext hacts]
  exact Option.some_ne_none _

/-- What the broker can do, the process can. -/
lemma exists_act {a : Action n} {b : Broker n} (h : Server.step s.broker a = some b) :
    ∃ t, s.act a = some t ∧ t.broker = b := by
  unfold act
  rw [h]
  exact ⟨_, rfl, rfl⟩

section acts

variable {c : Connection} (hidle : (s.broker.shards i).activity = .idle)
  (hc : s.conn i r = some c)
include hidle hc

/-- A client can be greeted. -/
lemma exists_greet (hreader : c.reader = .starting) :
    ∃ t, run act s [.task i (.greet r)] = some t := by
  have hrun : (s.broker.shards i).run i (.greet r) = some { s.broker.shards i with
      worker := (s.broker.shards i).worker.greet r } := by
    simp [Shard.run, show (s.broker.shards i).worker.conns[r]? = some c from hc, hreader]
  obtain ⟨t, ht, -⟩ := exists_act (step_task_eq hidle hrun)
  exact ⟨t, run_cons_eq_some.mpr ⟨t, ht, rfl⟩⟩

/-- A frame can be handled. -/
lemma exists_frame (hreader : c.reader = .reading) (f : Frame) :
    ∃ t, run act s [.task i (.frame r f)] = some t := by
  obtain ⟨t, ht, -⟩ := exists_act (step_frame_eq hidle hc hreader f)
  exact ⟨t, run_cons_eq_some.mpr ⟨t, ht, rfl⟩⟩

/-- A writer can drain the buffer. -/
lemma exists_send (buf : Bytes) : ∃ t, run act s [.task i (.send r buf)] = some t := by
  have hrun : (s.broker.shards i).run i (.send r buf) = some { s.broker.shards i with
      worker := (s.broker.shards i).worker.setState r c (c.state.drainInto buf).2.2 } := by
    simp [Shard.run, show (s.broker.shards i).worker.conns[r]? = some c from hc]
  obtain ⟨t, ht, -⟩ := exists_act (step_task_eq hidle hrun)
  exact ⟨t, run_cons_eq_some.mpr ⟨t, ht, rfl⟩⟩

/-- A writer can do what its plan says. -/
lemma exists_write (l : Link) (a : Writer.Action) (w : Writer) :
    ∃ t, run act s (writerPlan i r l a w : Plan B n).1 = some t := by
  unfold writerPlan
  dsimp only
  split_ifs
  · exact exists_send hidle hc _
  · exact ⟨s, rfl⟩

/-- A reader can return. -/
lemma exists_exit (hreader : c.reader = .reading) :
    ∃ t, run act s [.task i (.exit r c.subscriptions.entries)] = some t := by
  have hrun : (s.broker.shards i).run i (.exit r c.subscriptions.entries) =
      some { s.broker.shards i with
        worker := (s.broker.shards i).worker.cleanup r c c.subscriptions.entries } := by
    simp [Shard.run, show (s.broker.shards i).worker.conns[r]? = some c from hc, hreader]
  obtain ⟨t, ht, -⟩ := exists_act (step_task_eq hidle hrun)
  exact ⟨t, run_cons_eq_some.mpr ⟨t, ht, rfl⟩⟩

/-- A reader can reject the stream and return. -/
lemma exists_reject (hreader : c.reader = .reading) : ∃ t, run act s
    [.task i (.reject r), .task i (.exit r c.subscriptions.entries)] = some t := by
  have hconns : (s.broker.shards i).worker.conns[r]? = some c := hc
  have hlt := (List.getElem?_eq_some_iff.mp hconns).1
  have hrun : (s.broker.shards i).run i (.reject r) = some { s.broker.shards i with
      worker := (s.broker.shards i).worker.setState r c (c.state.markClose .protocolError) } := by
    simp [Shard.run, hconns, hreader]
  obtain ⟨u, hu, hbroker⟩ := exists_act (step_task_eq hidle hrun)
  have hidle' : (u.broker.shards i).activity = .idle := by
    rw [hbroker, shards_setShard_self]
    exact hidle
  have hc' : u.conn i r = some { c with state := c.state.markClose .protocolError } := by
    rw [conn, hbroker, shards_setShard_self]
    simp [Worker.setState, hlt]
  obtain ⟨t, ht⟩ := exists_exit hidle' hc' hreader
  exact ⟨t, run_cons_eq_some.mpr ⟨u, hu, ht⟩⟩

end acts

/-- The writer that was put is there. -/
lemma writerOf_wrote (v : View) (w : Writer) :
    (v.wrote w).link.writerOf (v.wrote w).state = w := rfl

/-- A writer goes on, and its shard is free again. -/
lemma exists_poll (hfree : s.Free i) (hv : s.view i r = some v) {w : Writer}
    (hw : (v.link.writerOf v.state).step .poll = some w) :
    ∃ s', s.step (.poll i r) = some s' ∧ s'.view i r = some (v.wrote w) ∧ s'.Free i := by
  obtain ⟨c, hc, hstate, -⟩ := conn_of_view hv
  have hnext : s.next (.poll i r) = some (writerPlan i r v.link .poll w) := by
    simp [next, link_of_view hv, hc, hfree, hstate, hw]
  obtain ⟨t, ht⟩ := exists_write hfree.1 hc v.link .poll w
  obtain ⟨-, hkeeps⟩ := acts_writerPlan ht
  obtain ⟨new, v', hoffers, hv', hview⟩ := reaches_of_write hv (Or.inl rfl) hw ht
  have hquiet : (t.broker.shards i).worker.offers = (s.broker.shards i).worker.offers ++ new :=
    hoffers
  obtain rfl : new = [] := by simpa [(hkeeps i).1] using hquiet
  obtain rfl : v' = v.wrote w := hv'
  refine ⟨_, step_eq hnext ht, hview, (hkeeps i).2.trans hfree.1, ?_⟩
  rw [Event.shard, runtimes_change_self]
  exact (running_acts ht i).trans hfree.2

end Process

/-! ## Rest -/

/-- Nothing can happen but what a client does, and faults. -/
def Process.AtRest (s : Process B n) : Prop :=
  ∀ e : Event n, e.agent ≠ .client → e.fault = false → s.step e = none

/-- Nothing can happen but what a client or a writer does, and faults. -/
def Process.Stalled (s : Process B n) : Prop :=
  ∀ e : Event n, e.agent ≠ .client → (∀ failed, e.agent ≠ .writer failed) → e.fault = false →
    s.step e = none

/-- At rest, the writers have nothing to do either. -/
lemma Process.AtRest.stalled (h : s.AtRest) : s.Stalled :=
  fun e hclient _ hfault => h e hclient hfault

/-- A connection that is open and for which there is nothing to do: the frames the client has sent
are handled, and those that were accepted for it are sent. -/
structure View.Open (v : View) : Prop where
  waiting : v.link.reader.phase = .waiting
  handled : v.frames = v.link.socket.requests
  closed : v.link.socket.closed = false
  parked : v.link.writer.phase = .parked
  sent : v.link.socket.sent = (v.acceptedOffers.map (·.bytes)).flatten
  reason : v.state.closeWith = none

/-- A connection whose tasks have both returned. -/
structure View.Gone (v : View) : Prop where
  finished : v.link.reader.phase = .finished
  exited : v.link.writer.phase = .exited
  shut : v.link.socket.shut = true

namespace Process

/-- Where only clients and writers can do something, no plan of a reader or of the routing can be
carried out. -/
lemma Stalled.not_enabled (h : s.Stalled) {p : Plan B n} (e : Event n)
    (he : e.agent = .reader false ∨ e.agent = .router) (hfault : e.fault = false)
    (hnext : s.next e = some p) (hacts : ∃ t, run act s p.1 = some t) : False := by
  obtain ⟨t, ht⟩ := hacts
  refine step_ne_none hnext ht (h e ?_ ?_ hfault)
  · rcases he with he | he <;> simp [he]
  · rcases he with he | he <;> simp [he]

section stalled

variable (hrun : run step (init n inboxCapacity poolCapacity : Process B n) es = some s)
  (hstalled : s.Stalled)
include hstalled

/-- Both loops of a shard go on. -/
lemma idle_of_stalled (i : Fin n) : (s.broker.shards i).activity = .idle := by
  cases hactivity : (s.broker.shards i).activity with
  | idle => rfl
  | publishing p todo =>
      have hstep : Server.step s.broker (.push i) = some (s.broker.pushNext i p todo) := by
        simp [Server.step, hactivity]
      obtain ⟨t, ht, -⟩ := exists_act hstep
      exact (hstalled.not_enabled (.push i true) (Or.inr rfl) rfl rfl
        ⟨t, run_cons_eq_some.mpr ⟨t, ht, rfl⟩⟩).elim
  | draining =>
      have hstep : Server.step s.broker (.drainPop i) = some (s.broker.popNext i) := by
        simp [Server.step, hactivity]
      obtain ⟨t, ht, -⟩ := exists_act hstep
      exact (hstalled.not_enabled (.drainPop i) (Or.inr rfl) rfl rfl
        ⟨t, run_cons_eq_some.mpr ⟨t, ht, rfl⟩⟩).elim

include hrun

/-- A reader in its inner loop goes on. -/
lemma running_of_stalled (i : Fin n) : (s.runtimes i).running = none := by
  have hidle := idle_of_stalled hstalled i
  by_contra hsome
  obtain ⟨r, hr⟩ := Option.ne_none_iff_exists'.mp hsome
  obtain ⟨l, hl, consumedTotal, hphase⟩ := (threaded_run hrun i r).mp hr
  obtain ⟨v, hv⟩ := view_isSome (length_links hrun i) (List.getElem?_eq_some_iff.mp hl).1
  obtain rfl := Option.some.inj ((link_of_view hv).symm.trans hl)
  obtain ⟨c, hc, -, hreader⟩ := conn_of_view hv
  have hreading : c.reader = .reading := by
    rw [hreader, phased_run hrun hv]
    rcases hphase with hphase | hphase <;> rw [hphase] <;> rfl
  rcases hphase with hphase | hphase
  · have hnext : s.next (.parse i r c.subscriptions.entries) =
        some (parsePlan i r c v.link consumedTotal c.subscriptions.entries) := by
      simp [next, link_of_view hv, hc, hidle, hr, hphase]
    have hacts : ∃ t, run act s
        (parsePlan i r c v.link consumedTotal c.subscriptions.entries : Plan B n).1 = some t := by
      unfold parsePlan roundPlan
      split
      · exact exists_frame hidle hc hreading _
      · split_ifs
        · exact exists_exit hidle hc hreading
        · exact ⟨s, rfl⟩
      · exact exists_reject hidle hc hreading
    exact hstalled.not_enabled _ (Or.inl rfl) rfl hnext hacts
  · have hnext : s.next (.check i r c.subscriptions.entries) =
        some (checkPlan i r c v.link consumedTotal c.subscriptions.entries) := by
      simp [next, link_of_view hv, hc, hidle, hr, hphase]
    have hacts : ∃ t, run act s
        (checkPlan i r c v.link consumedTotal c.subscriptions.entries : Plan B n).1 = some t := by
      unfold checkPlan
      split_ifs
      · exact exists_exit hidle hc hreading
      · exact ⟨s, rfl⟩
    exact hstalled.not_enabled _ (Or.inl rfl) rfl hnext hacts

/-- All tasks of a shard are at an await. -/
lemma free_of_stalled (i : Fin n) : s.Free i :=
  ⟨idle_of_stalled hstalled i, running_of_stalled hrun hstalled i⟩

/-- A reader waits for input that is not there yet, or has returned. -/
lemma reader_of_stalled (hv : s.view i r = some v) : v.link.reader.phase = .finished ∨
    v.link.reader.phase = .waiting ∧ v.link.socket.inbound = [] ∧ v.link.socket.shut = false ∧
      v.link.socket.closed = false := by
  have hfree := free_of_stalled hrun hstalled i
  obtain ⟨c, hc, -, hreader⟩ := conn_of_view hv
  have hlink := link_of_view hv
  have hlinked := linked_run hrun hv
  have hstatus : c.reader = v.link.reader.phase.status := hreader.trans (phased_run hrun hv)
  have hloop : ¬ v.link.reader.phase.InLoop := by
    intro hloop
    have hrunning := (threaded_run hrun i r).mpr ⟨v.link, hlink, hloop⟩
    rw [hfree.2] at hrunning
    cases hrunning
  cases hphase : v.link.reader.phase with
  | finished => exact Or.inl rfl
  | parsing k => exact absurd ⟨k, Or.inl hphase⟩ hloop
  | checking k => exact absurd ⟨k, Or.inr hphase⟩ hloop
  | starting =>
      rw [hphase] at hstatus
      have hnext : s.next (.start i r) =
          some ([.task i (.greet r)], fun rt => rt.modify r (·.goto .waiting)) := by
        simp [next, hlink, hfree, hphase]
      exact (hstalled.not_enabled _ (Or.inl rfl) rfl hnext
        (exists_greet hfree.1 hc hstatus)).elim
  | waiting =>
      rw [hphase] at hstatus
      have hend : ¬ (v.link.socket.shut ∨ v.link.socket.closed ∧ v.link.socket.inbound = []) := by
        intro hend
        have hnext : s.next (.readEnd i r c.subscriptions.entries) =
            some (exitPlan i r v.link c.subscriptions.entries) := by
          simp [next, hlink, hfree, hphase, hend]
        exact hstalled.not_enabled _ (Or.inl rfl) rfl hnext (exists_exit hfree.1 hc hstatus)
      have hinbound : v.link.socket.inbound = [] := by
        by_contra hne
        have hacts : ∃ t, run act s
            (readPlan i r v.link 1 c.subscriptions.entries : Plan B n).1 = some t := by
          unfold readPlan
          dsimp only
          split_ifs
          · exact exists_reject hfree.1 hc hstatus
          · exact ⟨s, rfl⟩
        have hbuf : 1 ≤ v.link.reader.buf.bytes.length := by
          rw [hlinked.buf]
          decide
        have hpos : 1 ≤ v.link.socket.inbound.length := List.length_pos_iff.mpr hne
        have hnext : s.next (.read i r 1 c.subscriptions.entries) =
            some (readPlan i r v.link 1 c.subscriptions.entries) := by
          simp [next, hlink, hfree, hphase, hbuf, hpos]
        exact hstalled.not_enabled _ (Or.inl rfl) rfl hnext hacts
      rw [hinbound] at hend
      simp only [not_or, and_true, Bool.not_eq_true] at hend
      exact Or.inr ⟨rfl, hinbound, hend.1, hend.2⟩

end stalled

section rest

variable (hrun : run step (init n inboxCapacity poolCapacity : Process B n) es = some s)
  (hrest : s.AtRest)
include hrun hrest

/-- A writer that is not parked goes on. -/
lemma writer_of_atRest (hv : s.view i r = some v) :
    v.link.writer.phase = .parked ∨ v.link.writer.phase = .exited := by
  have hfree := free_of_stalled hrun hrest.stalled i
  obtain ⟨c, hc, hstate, -⟩ := conn_of_view hv
  have hacts := exists_write hfree.1 hc v.link
  have hpoll : (v.link.writerOf v.state).step .poll = none := by
    by_contra hsome
    obtain ⟨w, hw⟩ := Option.ne_none_iff_exists'.mp hsome
    obtain ⟨t, ht⟩ := hacts .poll w
    refine absurd (hrest (.poll i r) (by simp [Event.agent]) rfl) (step_ne_none ?_ ht)
    simp [next, link_of_view hv, hc, hfree, hstate, hw]
  have hwritten : (v.link.writerOf v.state).step (.written true) = none := by
    by_contra hsome
    obtain ⟨w, hw⟩ := Option.ne_none_iff_exists'.mp hsome
    obtain ⟨t, ht⟩ := hacts (.written true) w
    refine absurd (hrest (.written i r true) (by simp [Event.agent]) rfl) (step_ne_none ?_ ht)
    simp [next, link_of_view hv, hc, hfree, hstate, hw]
  cases hphase : v.link.writer.phase with
  | parked => exact Or.inl rfl
  | exited => exact Or.inr rfl
  | spawned | woken => simp [Writer.step, Link.writerOf, hphase] at hpoll
  | writing | parting => simp [Writer.step, Link.writerOf, hphase] at hwritten

/-- Where the process is at rest, a connection is open or gone. -/
lemma open_or_gone_of_atRest (hv : s.view i r = some v) : v.Open ∨ v.Gone := by
  have hlinked := linked_run hrun hv
  have hserved := served_run hrun hv
  have hwriter := writer_of_atRest hrun hrest hv
  rcases reader_of_stalled hrun hrest.stalled hv with
    hfinished | ⟨hwaiting, hinbound, hshut, hclosed⟩
  · have hexited : v.link.writer.phase = .exited := by
      refine hwriter.resolve_left fun hparked => ?_
      exact hlinked.finished hfinished (hserved.alert.parked hparked).2.2
    exact Or.inr ⟨hfinished, hexited, hlinked.shut.mpr hexited⟩
  · have hparked : v.link.writer.phase = .parked := by
      refine hwriter.resolve_right fun hexited => ?_
      rw [hlinked.shut.mpr hexited] at hshut
      cases hshut
    obtain ⟨-, hpending, hreason⟩ := hserved.alert.parked hparked
    refine Or.inl ⟨hwaiting, ?_, hclosed, hparked, ?_, hreason⟩
    · obtain ⟨fs, hfs, hparse⟩ := (reads_run hrun hv).parseAll_received hwaiting
      have hreceived : v.received = v.link.socket.stream := by
        rw [View.received, ← List.append_nil (List.take _ _), ← hinbound]
        exact List.take_append_drop _ _
      rw [hreceived] at hparse
      rw [hfs, Socket.requests, hparse]
    · rw [← logged_run hrun hv]
      rcases hserved.faithful with haccounted | ⟨hexited, -⟩
      · have hsent := haccounted.running (by simp [Link.writerOf, hparked])
          (by simp [Link.writerOf, hparked])
        rw [hpending, List.append_nil] at hsent
        exact hsent
      · exact absurd (hparked.symm.trans hexited) (by simp)

end rest

/-- Every state of every run leads to rest, without faults and without the clients. -/
lemma exists_rest (hrun : run step (init n inboxCapacity poolCapacity : Process B n) es = some s) :
    ∃ es' s', (∀ e ∈ es', e.agent ≠ .client ∧ e.fault = false) ∧ run step s es' = some s' ∧
      s'.AtRest := by
  obtain ⟨es', s', hes, hrun', hstuck⟩ := exists_stuck (I := Paired)
    (P := fun e : Event n => e.agent ≠ .client ∧ e.fault = false)
    (fun s e s' h _ hstep => h.step hstep) (fun s e s' h he hstep => rank_lt h he.1 hstep)
    (length_links hrun)
  exact ⟨es', s', hes, hrun', fun e hclient hfault => hstuck e ⟨hclient, hfault⟩⟩

/-- It also leads to where only the writers can go on, without them. -/
lemma exists_stalled
    (hrun : run step (init n inboxCapacity poolCapacity : Process B n) es = some s) :
    ∃ es' s', (∀ e ∈ es', e.agent ≠ .client ∧ (∀ failed, e.agent ≠ .writer failed) ∧
      e.fault = false) ∧ run step s es' = some s' ∧ s'.Stalled := by
  obtain ⟨es', s', hes, hrun', hstuck⟩ := exists_stuck (I := Paired)
    (P := fun e : Event n => e.agent ≠ .client ∧ (∀ failed, e.agent ≠ .writer failed) ∧
      e.fault = false)
    (fun s e s' h _ hstep => h.step hstep) (fun s e s' h he hstep => rank_lt h he.1 hstep)
    (length_links hrun)
  exact ⟨es', s', hes, hrun', fun e hclient hwriter hfault => hstuck e ⟨hclient, hwriter, hfault⟩⟩

/-- What the client of a connection has sent is the same at rest. -/
lemma exists_rest_view
    (hrun : run step (init n inboxCapacity poolCapacity : Process B n) es = some s)
    (hv : s.view i r = some v) :
    ∃ es' s' v', (∀ e ∈ es', e.agent ≠ .client) ∧ (∀ e ∈ es', e.fault = false) ∧
      run step s es' = some s' ∧ s'.AtRest ∧ s'.view i r = some v' ∧
      v'.link.socket.stream = v.link.socket.stream := by
  obtain ⟨es', s', hes, hrun', hrest⟩ := exists_rest hrun
  obtain ⟨v', hv', hstream⟩ := stream_from (fun e he => (hes e he).1) hrun' hv
  exact ⟨es', s', v', fun e he => (hes e he).1, fun e he => (hes e he).2, hrun', hrest, hv',
    hstream⟩

end Process

end Aulon.Server
