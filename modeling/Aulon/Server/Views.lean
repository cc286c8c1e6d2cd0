import Aulon.Server.Connections
import Aulon.Server.Tasks

/-!
# One connection of the server

What concerns one connection of the process, and how it changes. An event of the connection itself
makes one of the moves listed in `View.Moves`; whatever else happens in the process, to this
connection frames are offered, and nothing else. So an invariant of single connections is proved
once for each move and once for an offer, and then holds in every process.

* `View`, `Process.view` — what concerns a connection.
* `View.Moves`, `View.Offered` — how it changes.
* `runtimes_run` — the invariant rule for the runtimes.
* `view_step_own`, `view_step_of_ne` — every event of the process is one of the two to every
  connection.
-/

namespace Aulon.Server

open Aulon.Lib Aulon.Core Aulon.Proto

variable {B : FixedBufPool} {n : ℕ}

/-- Whose doing an event is; of a reader or a writer also whether its read or write has failed. -/
inductive Agent where
  | client
  | reader (failed : Bool)
  /-- The push loop and the drain task. -/
  | router
  | writer (failed : Bool)
deriving DecidableEq, Repr

/-! ## Views -/

/-- What concerns one connection: the state its tasks share, where its reader stands for the broker,
its socket and its tasks, the frames handled for it, and what was offered to it. -/
structure View where
  state : ConnectionState
  status : ReaderStatus
  link : Link
  frames : List Frame
  offers : List Offer

namespace View

/-- A connection that was just accepted. -/
def new (id : ConnectionId) (readBuf writeBuf : FixedBuf) : View :=
  ⟨.new id defaultOutboundCapacity, .starting, .new readBuf writeBuf, [], []⟩

variable (v : View)

/-- The view with its link changed. -/
def mapLink (f : Link → Link) : View := { v with link := f v.link }

/-- A call was made on the connection. -/
def notice (e : WriterEvent) : View :=
  v.mapLink fun l => { l with writer := l.writer.notice e }

/-- A frame was offered. -/
def offer (o : Offer) : View :=
  { v.notice (.enqueued o.bytes o.outcome) with
    state := (v.state.enqueue o.bytes).2
    offers := v.offers ++ [o] }

/-- The connection was marked for close. -/
def mark (reason : CloseReason) : View :=
  { v.notice (.marked reason) with state := v.state.markClose reason }

/-- The reader goes to another phase. -/
def goto (phase : ReaderPhase) : View := v.mapLink (·.goto phase)

/-- The reader cleans up and returns. -/
def leave : View := { (v.mark .peerClosed).goto .finished with status := .finished }

/-- The writer has gone on to `w`. -/
def wrote (w : Writer) : View :=
  { v with
    state := { w.state with notify := v.state.notify }
    link := { v.link with
      socket := { v.link.socket with sent := w.sent, shut := w.phase = .exited }
      writer := ⟨w.phase, w.state.notify, { v.link.writer.buf with bytes := w.buf }, w.log⟩ } }

/-- Frames are offered one after the other, with these outcomes. -/
def Offered : View → List Offer → View → Prop
  | v, [], v' => v' = v
  | v, o :: os, v' => o.outcome = (v.state.enqueue o.bytes).1 ∧ Offered (v.offer o) os v'

/-- What an event of the connection itself does to it, by whose event it is. -/
inductive Moves : View → Agent → View → Prop where
  /-- The client sends. -/
  | send (v : View) (bytes : Bytes) (hopen : v.link.socket.closed = false) :
      Moves v .client (v.mapLink fun l =>
        { l with socket := { l.socket with stream := l.socket.stream ++ bytes } })
  /-- The client closes. -/
  | close (v : View) (hopen : v.link.socket.closed = false) :
      Moves v .client (v.mapLink fun l => { l with socket := { l.socket with closed := true } })
  /-- The reader starts; the greeting is offered next. -/
  | start (v : View) (hphase : v.link.reader.phase = .starting) :
      Moves v (.reader false) { v.goto .waiting with status := .reading }
  /-- The reader reads. -/
  | read (v : View) (k : ℕ) (hphase : v.link.reader.phase = .waiting) (hpos : 0 < k)
      (hbuf : k ≤ v.link.reader.buf.bytes.length) (hk : k ≤ v.link.socket.inbound.length)
      (hsize : (v.link.afterRead k).reader.accum.length ≤ maxFrameSize) :
      Moves v (.reader false) (v.mapLink fun l => l.afterRead k)
  /-- The reader has read too much. -/
  | overflow (v : View) (k : ℕ) (hphase : v.link.reader.phase = .waiting) (hpos : 0 < k)
      (hbuf : k ≤ v.link.reader.buf.bytes.length) (hk : k ≤ v.link.socket.inbound.length)
      (hsize : maxFrameSize < (v.link.afterRead k).reader.accum.length) :
      Moves v (.reader false) ((v.mark .protocolError).mapLink fun l => l.afterRead k).leave
  /-- The stream has ended or failed. -/
  | eof (v : View) (failed : Bool) (hphase : v.link.reader.phase = .waiting)
      (hend : failed = false →
        v.link.socket.shut = true ∨ v.link.socket.closed = true ∧ v.link.socket.inbound = []) :
      Moves v (.reader failed) v.leave
  /-- The inner loop handles a frame; what it offers is offered next. -/
  | frame (v : View) (consumedTotal : ℕ) (f : Frame) (consumed : ℕ)
      (hphase : v.link.reader.phase = .parsing consumedTotal)
      (hparse : parseFrame (v.link.reader.accum.drop consumedTotal) = .frame f consumed) :
      Moves v (.reader false)
        { v.goto (.checking (consumedTotal + consumed)) with frames := v.frames ++ [f] }
  /-- The inner loop meets an error. -/
  | malformed (v : View) (consumedTotal : ℕ) (e : ParseError)
      (hphase : v.link.reader.phase = .parsing consumedTotal)
      (hparse : parseFrame (v.link.reader.accum.drop consumedTotal) = .err e) :
      Moves v (.reader false) (v.mark .protocolError).leave
  /-- The inner loop has come to the end of what was read. -/
  | round (v : View) (consumedTotal : ℕ)
      (hphase : v.link.reader.phase = .parsing consumedTotal)
      (hparse : parseFrame (v.link.reader.accum.drop consumedTotal) = .needMore)
      (hopen : v.state.closeWith = none) :
      Moves v (.reader false) (v.mapLink fun l =>
        { l with reader := ⟨.waiting, l.reader.accum.drop consumedTotal, l.reader.buf⟩ })
  /-- It has, and the connection is to close. -/
  | roundClosed (v : View) (consumedTotal : ℕ)
      (hphase : v.link.reader.phase = .parsing consumedTotal)
      (hparse : parseFrame (v.link.reader.accum.drop consumedTotal) = .needMore)
      (hclosed : v.state.closeWith ≠ none) : Moves v (.reader false) v.leave
  /-- After a frame the inner loop goes on. -/
  | check (v : View) (consumedTotal : ℕ) (hphase : v.link.reader.phase = .checking consumedTotal)
      (hopen : v.state.closeWith = none) : Moves v (.reader false) (v.goto (.parsing consumedTotal))
  /-- After a frame the connection is to close. -/
  | checkClosed (v : View) (consumedTotal : ℕ)
      (hphase : v.link.reader.phase = .checking consumedTotal)
      (hclosed : v.state.closeWith ≠ none) : Moves v (.reader false) v.leave
  /-- The writer goes on. -/
  | write (v : View) (failed : Bool) (a : Writer.Action) (w : Writer)
      (ha : a = .poll ∨ ∃ ok, a = .written ok) (hok : failed = false → a ≠ .written false)
      (hstep : (v.link.writerOf v.state).step a = some w) : Moves v (.writer failed) (v.wrote w)

end View

/-- The frame an action handles for connection `r` of shard `i`. -/
def Action.frameOf (i : Fin n) (r : ConnRef) : Action n → Option Frame
  | .task j (.frame r' f) => if j = i ∧ r' = r then some f else none
  | _ => none

/-- The frames handled for a connection, in order. -/
def framesOf (i : Fin n) (r : ConnRef) (as : List (Action n)) : List Frame :=
  as.filterMap (·.frameOf i r)

/-- What concerns connection `r` of shard `i`. -/
def Process.view (s : Process B n) (i : Fin n) (r : ConnRef) : Option View := do
  let c ← s.conn i r
  let l ← s.link i r
  return ⟨c.state, c.reader, l, framesOf i r s.trace,
    (s.broker.shards i).worker.offers.filter (·.target = r)⟩

/-! ## An action of the broker -/

/-- The call that an action makes for the connection's own tasks, and what it means for its reader,
on the view. -/
def View.acted (i : Fin n) (r : ConnRef) (a : Action n) (v : View) : View :=
  { v with
    state := ((a.call i r).map (·.apply v.state)).getD v.state
    status := a.readerAfter i r v.status
    link := { v.link with writer := (a.marks i r).foldl WriterTask.notice v.link.writer }
    frames := v.frames ++ (a.frameOf i r).toList }

/-- The offers of an action reach the connection one after the other. -/
lemma View.offered_of_enqueued {r : ConnRef} {new : List Offer} {v : View} {state : ConnectionState}
    (h : Worker.Enqueued r v.state new state) :
    v.Offered (new.filter (·.target = r))
      { v with
        state := state
        link := { v.link with writer := ((new.filter (·.target = r)).map
          fun o => .enqueued o.bytes o.outcome).foldl WriterTask.notice v.link.writer }
        offers := v.offers ++ new.filter (·.target = r) } := by
  induction new generalizing v with
  | nil =>
      obtain rfl : state = v.state := h
      simp [View.Offered]
  | cons o os ih =>
      rw [Worker.Enqueued] at h
      by_cases ho : o.target = r
      · rw [if_pos ho] at h
        have htail := ih (v := v.offer o) h.2
        simp only [List.filter_cons, ho, decide_true, if_true, List.map_cons, List.foldl_cons]
        refine ⟨h.1, ?_⟩
        have hoffers : (v.offer o).offers = v.offers ++ [o] := rfl
        rw [hoffers, List.append_assoc] at htail
        exact htail
      · rw [if_neg ho] at h
        simp only [List.filter_cons, ho, decide_false, Bool.false_eq_true, if_false]
        exact ih h

/-- The link of a connection after the calls on it. -/
lemma Runtime.links_notice (rt : Runtime B) (calls : ConnRef → List WriterEvent) (r : ConnRef) :
    (rt.notice calls).links[r]? = (rt.links[r]?).map fun l =>
      { l with writer := (calls r).foldl WriterTask.notice l.writer } := by
  simp [Runtime.notice]

/-- No calls change nothing. -/
lemma Runtime.notice_nil (rt : Runtime B) : (rt.notice fun _ => []) = rt := by
  have hlinks : rt.links.mapIdx (fun _ l => l) = rt.links :=
    List.ext_getElem (by simp) (by simp)
  rw [Runtime.notice]
  exact congrArg (fun links => { rt with links := links }) hlinks

/-- Calls made one after the other. -/
lemma Runtime.notice_notice (rt : Runtime B) (calls calls' : ConnRef → List WriterEvent) :
    (rt.notice calls).notice calls' = rt.notice fun r => calls r ++ calls' r := by
  simp [Runtime.notice, List.mapIdx_mapIdx, Function.comp_def]

/-- The calls that an action makes on a connection, from the offers it adds. -/
lemma callsOn_append {before after : Worker} {new : List Offer}
    (h : after.offers = before.offers ++ new) (i : Fin n) (a : Action n) (r : ConnRef) :
    callsOn before after i a r =
      (new.filter (·.target = r)).map (fun o => .enqueued o.bytes o.outcome) ++ a.marks i r := by
  rw [callsOn, h, List.drop_left]

namespace Process

variable {s s' : Process B n} {i : Fin n} {r : ConnRef} {v : View} {a : Action n}

/-- A view is what the broker, the runtime and the trace have of a connection. -/
lemma view_eq_some : s.view i r = some v ↔ ∃ c l, s.conn i r = some c ∧ s.link i r = some l ∧
    v = ⟨c.state, c.reader, l, framesOf i r s.trace,
      (s.broker.shards i).worker.offers.filter (·.target = r)⟩ := by
  unfold view
  simp only [Option.bind_eq_bind, Option.bind_eq_some_iff, Option.pure_def, Option.some.injEq]
  constructor
  · rintro ⟨c, hc, l, hl, rfl⟩
    exact ⟨c, l, hc, hl, rfl⟩
  · rintro ⟨c, l, hc, hl, rfl⟩
    exact ⟨c, hc, l, hl, rfl⟩

/-- What an action does to broker, trace and runtimes. -/
lemma act_eq_some (h : s.act a = some s') : Server.step s.broker a = some s'.broker ∧
    s'.trace = s.trace ++ [a] ∧
    s'.runtimes = Function.update s.runtimes a.shard ((s.runtimes a.shard).notice
      (callsOn (s.broker.shards a.shard).worker (s'.broker.shards a.shard).worker a.shard a)) := by
  obtain ⟨b, hb, h⟩ := Option.bind_eq_some_iff.mp h
  obtain rfl := Option.some.inj h
  exact ⟨hb, rfl, rfl⟩

end Process

/-- The frames handled in two parts of a trace. -/
lemma framesOf_append (i : Fin n) (r : ConnRef) (as bs : List (Action n)) :
    framesOf i r (as ++ bs) = framesOf i r as ++ framesOf i r bs :=
  List.filterMap_append

/-- The frame that an action handles. -/
lemma framesOf_singleton (i : Fin n) (r : ConnRef) (a : Action n) :
    framesOf i r [a] = (a.frameOf i r).toList := by
  rw [framesOf]
  cases h : a.frameOf i r <;> simp [h]

/-- The connection whose task takes the action, if there is one. -/
def Action.conn : Action n → Option (Fin n × ConnRef)
  | .task i (.greet r) | .task i (.frame r _) | .task i (.reject r) | .task i (.exit r _)
  | .task i (.send r _) => some (i, r)
  | _ => none

/-- An action of another connection makes no call on this one, and handles nothing for it. -/
lemma Action.of_conn_ne {a : Action n} {i : Fin n} {r : ConnRef} (h : a.conn ≠ some (i, r)) :
    a.call i r = none ∧ a.frameOf i r = none ∧ ∀ status, a.readerAfter i r status = status := by
  cases a with
  | task j t =>
      cases t with
      | accept granted => exact ⟨rfl, rfl, fun _ => rfl⟩
      | _ =>
          simp only [conn, ne_eq, Option.some.injEq, Prod.mk.injEq] at h
          simp [call, frameOf, readerAfter, h]
  | _ => exact ⟨rfl, rfl, fun _ => rfl⟩

/-- An action of another connection leaves the view. -/
lemma View.acted_of_ne {a : Action n} {i : Fin n} {r : ConnRef} (h : a.conn ≠ some (i, r))
    (v : View) : v.acted i r a = v := by
  obtain ⟨hcall, hframe, hreader⟩ := Action.of_conn_ne h
  unfold View.acted Action.marks
  rw [hcall, hframe, hreader]
  simp

/-- An action of another shard is one of another connection. -/
lemma Action.conn_ne_of_shard {a : Action n} {i : Fin n} (h : a.shard ≠ i) (r : ConnRef) :
    a.conn ≠ some (i, r) := by
  intro hconn
  cases a with
  | task j t => cases t <;> simp_all [Action.conn, Action.shard]
  | _ => cases hconn

/-- **What an action does to a view.** The frames the action offers reach the connection, and then
the call its own task makes. -/
lemma Process.view_act {s s' : Process B n} {a : Action n} (h : s.act a = some s') {i : Fin n}
    {r : ConnRef} {v : View} (hv : s.view i r = some v) :
    ∃ new w, (s'.broker.shards i).worker.offers = (s.broker.shards i).worker.offers ++ new ∧
      v.Offered (new.filter (·.target = r)) w ∧ s'.view i r = some (w.acted i r a) := by
  obtain ⟨hb, htrace, hruntimes⟩ := act_eq_some h
  obtain ⟨c, l, hc, hl, rfl⟩ := view_eq_some.mp hv
  have hframes : framesOf i r s'.trace = framesOf i r s.trace ++ (a.frameOf i r).toList := by
    rw [htrace, framesOf_append, framesOf_singleton]
  rcases eq_or_ne i a.shard with rfl | hi
  · obtain ⟨new, hoffers, hmoves⟩ := step_conn hb a.shard
    obtain ⟨state, c', henq, hc', hstate, hreader⟩ := hmoves r c hc
    refine ⟨new, _, hoffers, View.offered_of_enqueued henq, ?_⟩
    have hlink : s'.link a.shard r = some { l with
        writer := List.foldl WriterTask.notice l.writer (callsOn (s.broker.shards a.shard).worker
          (s'.broker.shards a.shard).worker a.shard a r) } := by
      rw [link, hruntimes, Function.update_self, Runtime.links_notice,
        show (s.runtimes a.shard).links[r]? = some l from hl]
      rfl
    refine view_eq_some.mpr ⟨c', _, hc', hlink, ?_⟩
    rw [callsOn_append hoffers, List.foldl_append, hstate, hreader, hframes, hoffers,
      List.filter_append]
    rfl
  · have hshard := step_frame hb hi
    refine ⟨[], _, ?_, rfl, ?_⟩
    · rw [hshard, List.append_nil]
    · refine view_eq_some.mpr ⟨c, l, ?_, ?_, ?_⟩
      · rw [conn, hshard]
        exact hc
      · rw [link, hruntimes, Function.update_of_ne hi]
        exact hl
      · rw [View.acted_of_ne (Action.conn_ne_of_shard hi.symm r), hframes, hshard,
          (Action.of_conn_ne (Action.conn_ne_of_shard hi.symm r)).2.1]
        simp

/-! ## Events -/

/-- A composition of partial functions, inverted. -/
lemma bind_eq_some {α β : Type} {x : Option α} {f : α → Option β} {y : β} :
    (x >>= f) = some y ↔ ∃ a, x = some a ∧ f a = some y := Option.bind_eq_some_iff

/-- The connection an event is of, if it is of one. -/
def Event.conn : Event n → Option (Fin n × ConnRef)
  | .send i r _ | .close i r | .start i r | .read i r _ _ | .readEnd i r _ | .readFail i r _
  | .parse i r _ | .check i r _ | .poll i r | .written i r _ => some (i, r)
  | .connect _ | .push _ _ | .drainRead _ | .drainPop _ | .drainFail _ => none

/-- Whose doing it is. -/
def Event.agent : Event n → Agent
  | .connect _ | .send _ _ _ | .close _ _ => .client
  | .start _ _ | .read _ _ _ _ | .readEnd _ _ _ | .parse _ _ _ | .check _ _ _ => .reader false
  | .readFail _ _ _ => .reader true
  | .push _ _ | .drainRead _ | .drainPop _ | .drainFail _ => .router
  | .poll _ _ => .writer false
  | .written _ _ ok => .writer !ok

/-- Is the event that a read or a write fails, or that a kick is lost? -/
def Event.fault : Event n → Bool
  | .readFail _ _ _ | .drainFail _ | .written _ _ false | .push _ false => true
  | _ => false

namespace Process

variable {s s' t : Process B n} {e : Event n} {p : Plan B n} {i : Fin n} {r : ConnRef} {v : View}

/-- What an event that can happen has found, and what the shard does. -/
lemma next_eq_some (h : s.next e = some p) :
    match e with
    | .connect i => s.Free i ∧ p = acceptPlan i (s.runtimes i)
    | .send i r bytes => ∃ l, s.link i r = some l ∧ l.socket.closed = false ∧
        p = ([], fun rt => rt.modify r fun l =>
          { l with socket := { l.socket with stream := l.socket.stream ++ bytes } })
    | .close i r => ∃ l, s.link i r = some l ∧ l.socket.closed = false ∧
        p = ([], fun rt => rt.modify r fun l =>
          { l with socket := { l.socket with closed := true } })
    | .start i r => ∃ l, s.link i r = some l ∧ s.Free i ∧ l.reader.phase = .starting ∧
        p = ([.task i (.greet r)], fun rt => rt.modify r (·.goto .waiting))
    | .read i r k order => ∃ l, s.link i r = some l ∧ s.Free i ∧ l.reader.phase = .waiting ∧
        0 < k ∧ k ≤ l.reader.buf.bytes.length ∧ k ≤ l.socket.inbound.length ∧
        p = readPlan i r l k order
    | .readEnd i r order => ∃ l, s.link i r = some l ∧ s.Free i ∧ l.reader.phase = .waiting ∧
        (l.socket.shut ∨ l.socket.closed ∧ l.socket.inbound = []) ∧ p = exitPlan i r l order
    | .readFail i r order => ∃ l, s.link i r = some l ∧ s.Free i ∧ l.reader.phase = .waiting ∧
        p = exitPlan i r l order
    | .parse i r order => ∃ l c k, s.link i r = some l ∧ s.conn i r = some c ∧
        (s.broker.shards i).activity = .idle ∧ (s.runtimes i).running = some r ∧
        l.reader.phase = .parsing k ∧ p = parsePlan i r c l k order
    | .check i r order => ∃ l c k, s.link i r = some l ∧ s.conn i r = some c ∧
        (s.broker.shards i).activity = .idle ∧ (s.runtimes i).running = some r ∧
        l.reader.phase = .checking k ∧ p = checkPlan i r c l k order
    | .push i _ => p = ([.push i], id)
    | .drainRead i => s.Free i ∧ (s.runtimes i).draining ∧ s.lost i < s.broker.wakers i ∧
        p = ([.drainRead i], id)
    | .drainPop i => p = ([.drainPop i], id)
    | .drainFail i => s.Free i ∧ (s.runtimes i).draining ∧
        p = ([], fun rt => { rt with draining := false })
    | .poll i r => ∃ l c w, s.link i r = some l ∧ s.conn i r = some c ∧ s.Free i ∧
        (l.writerOf c.state).step .poll = some w ∧ p = writerPlan i r l .poll w
    | .written i r ok => ∃ l c w, s.link i r = some l ∧ s.conn i r = some c ∧ s.Free i ∧
        (l.writerOf c.state).step (.written ok) = some w ∧
        p = writerPlan i r l (.written ok) w := by
  cases e with
  | push i kicks | drainPop i => exact (Option.some.inj h).symm
  | parse i r order | check i r order =>
      simp only [next, bind_eq_some, Option.guard_eq_some', exists_const] at h
      obtain ⟨l, hl, c, hc, ⟨hidle, hrunning⟩, h⟩ := h
      split at h
      · rename_i k hk
        exact ⟨l, c, k, hl, hc, hidle, hrunning, hk, (Option.some.inj h).symm⟩
      · cases h
  | _ =>
      simp only [next, bind_eq_some, Option.guard_eq_some', exists_const, Option.pure_def,
        Option.some.injEq] at h
      simpa only [and_assoc, exists_and_left, eq_comm (b := p)] using h

/-- An event has a plan, runs its actions, and then changes the tasks of its shard. -/
lemma step_eq_some (h : s.step e = some s') : ∃ p t, s.next e = some p ∧ run act s p.1 = some t ∧
    s' = (t.withLost (s.lostAfter t e)).change e.shard p.2 := by
  obtain ⟨p, hp, h⟩ := bind_eq_some.mp h
  obtain ⟨t, ht, h⟩ := bind_eq_some.mp h
  exact ⟨p, t, hp, ht, (Option.some.inj h).symm⟩

end Process

section links

variable (rt : Runtime B) {r r' : ConnRef}

/-- The link that was changed. -/
@[simp] lemma links_modify_self (f : Link → Link) :
    (rt.modify r f).links[r]? = (rt.links[r]?).map f := by
  simp [Runtime.modify]

/-- The other links stay. -/
lemma links_modify_ne (h : r' ≠ r) (f : Link → Link) :
    (rt.modify r f).links[r']? = rt.links[r']? := by
  simp [Runtime.modify, h.symm]

end links

/-- A plan that concerns connection `r` of shard `i` and no other one. -/
structure Plan.Own (i : Fin n) (r : ConnRef) (p : Plan B n) : Prop where
  actions : ∀ a ∈ p.1, a.conn = some (i, r)
  links : ∀ rt r', r' ≠ r → (p.2 rt).links[r']? = rt.links[r']?
  length : ∀ rt, (p.2 rt).links.length = rt.links.length

section own

variable (i : Fin n) (r : ConnRef) (l : Link) (order : Order)

/-- A plan whose actions are the connection's own and which changes its link only is the
connection's own. -/
lemma own_modify {actions : List (Action n)} (hactions : ∀ a ∈ actions, a.conn = some (i, r))
    (f : Runtime B → Runtime B) (g : Link → Link)
    (hf : ∀ rt, (f rt).links = (rt.modify r g).links) :
    Plan.Own i r (actions, f) := by
  refine ⟨hactions, fun rt r' hr' => ?_, fun rt => ?_⟩
  · rw [hf]
    exact links_modify_ne rt hr' g
  · rw [hf]
    simp [Runtime.modify]

/-- Returning is the reader's own. -/
lemma own_exitPlan : Plan.Own i r (exitPlan i r l order : Plan B n) :=
  own_modify i r (by simp [Action.conn]) _ _ fun _ => rfl

/-- Rejecting the stream is the reader's own. -/
lemma own_rejectPlan : Plan.Own i r (rejectPlan i r l order : Plan B n) :=
  own_modify i r (by simp [Action.conn]) _ _ fun _ => rfl

/-- A read is the reader's own. -/
lemma own_readPlan (k : ℕ) : Plan.Own i r (readPlan i r l k order : Plan B n) := by
  unfold readPlan
  dsimp only
  split_ifs
  · refine ⟨by simp [Action.conn], fun rt r' hr' => ?_, fun rt => ?_⟩
    · exact (links_modify_ne _ hr' _).trans (links_modify_ne rt hr' _)
    · simp [Runtime.readerExit, Runtime.modify]
  · exact own_modify i r (by simp) _ _ fun _ => rfl

/-- A round of the inner loop is the reader's own. -/
lemma own_roundPlan (c : Connection) (consumedTotal : ℕ) :
    Plan.Own i r (roundPlan i r c l consumedTotal order : Plan B n) := by
  unfold roundPlan
  split_ifs
  · exact own_exitPlan i r l order
  · exact own_modify i r (by simp) _ _ fun _ => rfl

/-- A parse is the reader's own. -/
lemma own_parsePlan (c : Connection) (consumedTotal : ℕ) :
    Plan.Own i r (parsePlan i r c l consumedTotal order : Plan B n) := by
  unfold parsePlan
  split
  · exact own_modify i r (by simp [Action.conn]) _ _ fun _ => rfl
  · exact own_roundPlan i r l order c consumedTotal
  · exact own_rejectPlan i r l order

/-- A check for a reason to close is the reader's own. -/
lemma own_checkPlan (c : Connection) (consumedTotal : ℕ) :
    Plan.Own i r (checkPlan i r c l consumedTotal order : Plan B n) := by
  unfold checkPlan
  split_ifs
  · exact own_exitPlan i r l order
  · exact own_modify i r (by simp) _ _ fun _ => rfl

/-- A step of the writer is its own. -/
lemma own_writerPlan (a : Writer.Action) (w : Writer) :
    Plan.Own i r (writerPlan i r l a w : Plan B n) := by
  refine own_modify i r ?_ _ _ fun _ => rfl
  split_ifs <;> simp [Action.conn]

end own

namespace Process

variable {s s' t : Process B n} {e : Event n} {p : Plan B n} {i : Fin n} {r : ConnRef} {v : View}

/-- The plan of an event of a connection concerns that connection only. -/
lemma own_of_next (h : s.next e = some p) (he : e.conn = some (i, r)) : p.Own i r := by
  have hn := next_eq_some h
  cases e with
  | connect j | push j kicks | drainRead j | drainPop j | drainFail j => cases he
  | send j r' bytes | close j r' =>
      obtain ⟨rfl, rfl⟩ : j = i ∧ r' = r := Prod.mk.inj (Option.some.inj he)
      obtain ⟨l, -, -, rfl⟩ := hn
      exact own_modify _ _ (by simp) _ _ fun _ => rfl
  | start j r' =>
      obtain ⟨rfl, rfl⟩ : j = i ∧ r' = r := Prod.mk.inj (Option.some.inj he)
      obtain ⟨l, -, -, -, rfl⟩ := hn
      exact own_modify _ _ (by simp [Action.conn]) _ _ fun _ => rfl
  | read j r' k order =>
      obtain ⟨rfl, rfl⟩ : j = i ∧ r' = r := Prod.mk.inj (Option.some.inj he)
      obtain ⟨l, -, -, -, -, -, -, rfl⟩ := hn
      exact own_readPlan _ _ l order k
  | readEnd j r' order =>
      obtain ⟨rfl, rfl⟩ : j = i ∧ r' = r := Prod.mk.inj (Option.some.inj he)
      obtain ⟨l, -, -, -, -, rfl⟩ := hn
      exact own_exitPlan _ _ l order
  | readFail j r' order =>
      obtain ⟨rfl, rfl⟩ : j = i ∧ r' = r := Prod.mk.inj (Option.some.inj he)
      obtain ⟨l, -, -, -, rfl⟩ := hn
      exact own_exitPlan _ _ l order
  | parse j r' order =>
      obtain ⟨rfl, rfl⟩ : j = i ∧ r' = r := Prod.mk.inj (Option.some.inj he)
      obtain ⟨l, c, k, -, -, -, -, -, rfl⟩ := hn
      exact own_parsePlan _ _ l order c k
  | check j r' order =>
      obtain ⟨rfl, rfl⟩ : j = i ∧ r' = r := Prod.mk.inj (Option.some.inj he)
      obtain ⟨l, c, k, -, -, -, -, -, rfl⟩ := hn
      exact own_checkPlan _ _ l order c k
  | poll j r' | written j r' ok =>
      obtain ⟨rfl, rfl⟩ : j = i ∧ r' = r := Prod.mk.inj (Option.some.inj he)
      obtain ⟨l, c, w, -, -, -, -, rfl⟩ := hn
      exact own_writerPlan _ _ l _ w

/-- An event of no connection is that a client is accepted, or it keeps all links. -/
lemma next_of_none (h : s.next e = some p) (he : e.conn = none) :
    (∃ readBuf pool writeBuf pool', e = .connect e.shard ∧
      (s.runtimes e.shard).pool.acquire = some (readBuf, pool) ∧
      pool.acquire = some (writeBuf, pool') ∧
      p = ([.task e.shard (.accept true)], fun rt =>
        { rt with pool := pool', links := rt.links ++ [.new readBuf writeBuf] })) ∨
    (∀ a ∈ p.1, a.conn = none ∧ ∀ i, a ≠ .task i (.accept true)) ∧
      ∀ rt : Runtime B, (p.2 rt).links = rt.links := by
  have hn := next_eq_some h
  cases e with
  | connect j =>
      obtain ⟨-, rfl⟩ := hn
      unfold acceptPlan
      split
      · exact Or.inr ⟨by simp [Action.conn], fun rt => rfl⟩
      · rename_i readBuf pool hread
        split
        · exact Or.inr ⟨by simp [Action.conn], fun rt => rfl⟩
        · rename_i writeBuf pool' hwrite
          exact Or.inl ⟨readBuf, pool, writeBuf, pool', rfl, hread, hwrite, rfl⟩
  | push j kicks | drainPop j =>
      rw [hn]
      exact Or.inr ⟨by simp [Action.conn], fun rt => rfl⟩
  | drainRead j =>
      obtain ⟨-, -, -, rfl⟩ := hn
      exact Or.inr ⟨by simp [Action.conn], fun rt => rfl⟩
  | drainFail j =>
      obtain ⟨-, -, rfl⟩ := hn
      exact Or.inr ⟨by simp [Action.conn], fun rt => rfl⟩
  | _ => cases he

/-- An event of a connection is one of its shard. -/
lemma shard_of_conn (he : e.conn = some (i, r)) : e.shard = i := by
  cases e with
  | connect _ | push _ _ | drainRead _ | drainPop _ | drainFail _ => cases he
  | _ => exact (Prod.mk.inj (Option.some.inj he)).1

/-- What a shard does for an event leaves the connections alone that the event is not of. -/
lemma next_of_ne (h : s.next e = some p) (hne : e.conn ≠ some (i, r)) :
    (∀ a ∈ p.1, a.conn ≠ some (i, r)) ∧ (e.shard = i → ∀ rt : Runtime B, r < rt.links.length →
      (p.2 rt).links[r]? = rt.links[r]?) := by
  cases he : e.conn with
  | none =>
      rcases next_of_none h he with ⟨_, _, _, _, -, -, -, rfl⟩ | ⟨hactions, hlinks⟩
      · refine ⟨by simp [Action.conn], fun _ rt hr => ?_⟩
        exact List.getElem?_append_left hr
      · refine ⟨fun a ha => by simp [(hactions a ha).1], fun _ rt _ => ?_⟩
        rw [hlinks rt]
  | some x =>
      obtain ⟨j, r'⟩ := x
      have hown := own_of_next h he
      refine ⟨fun a ha => ?_, fun hj rt _ => hown.links rt r ?_⟩
      · rw [hown.actions a ha, ← he]
        exact hne
      · rintro rfl
        rw [he, ← shard_of_conn he, hj] at hne
        exact hne rfl

end Process

/-! ## An event on a view -/

namespace View

/-- Offers made one after the other. -/
lemma Offered.trans {os os' : List Offer} {u v w : View} (h : u.Offered os v)
    (h' : v.Offered os' w) : u.Offered (os ++ os') w := by
  induction os generalizing u with
  | nil =>
      obtain rfl : v = u := h
      exact h'
  | cons o os ih => exact ⟨h.1, ih h.2⟩

/-- A change that has nothing to do with offers may as well come before them. -/
lemma Offered.map {g : View → View} (hstate : ∀ v, (g v).state = v.state)
    (hoffer : ∀ v o, g (v.offer o) = (g v).offer o) {os : List Offer} {v w : View}
    (h : v.Offered os w) : (g v).Offered os (g w) := by
  induction os generalizing v with
  | nil =>
      obtain rfl : w = v := h
      rfl
  | cons o os ih =>
      refine ⟨?_, ?_⟩
      · rw [hstate]
        exact h.1
      · rw [← hoffer]
        exact ih h.2

section acted

variable (i : Fin n) (r : ConnRef) (v : View)

/-- The greeting lets the reader read. -/
lemma acted_greet : v.acted i r (.task i (.greet r)) = { v with status := .reading } := by
  simp [acted, Action.call, Action.readerAfter, Action.marks, Action.frameOf]

/-- A frame that was handled is appended. -/
lemma acted_frame (f : Frame) :
    v.acted i r (.task i (.frame r f)) = { v with frames := v.frames ++ [f] } := by
  simp [acted, Action.call, Action.readerAfter, Action.marks, Action.frameOf]

/-- A rejected stream is a protocol error. -/
lemma acted_reject : v.acted i r (.task i (.reject r)) = v.mark .protocolError := by
  simp [acted, Action.call, Action.readerAfter, Action.marks, Action.frameOf, mark, notice, mapLink,
    ConnectionState.Call.apply]

/-- A reader that returns leaves a reason and is finished. -/
lemma acted_exit (order : Order) : v.acted i r (.task i (.exit r order)) =
    { v.mark .peerClosed with status := .finished } := by
  simp [acted, Action.call, Action.readerAfter, Action.marks, Action.frameOf, mark, notice, mapLink,
    ConnectionState.Call.apply]

/-- The writer drains the buffer. -/
lemma acted_send (buf : Bytes) : v.acted i r (.task i (.send r buf)) =
    { v with state := (v.state.drainInto buf).2.2 } := by
  simp [acted, Action.call, Action.readerAfter, Action.marks, Action.frameOf,
    ConnectionState.Call.apply]

end acted

end View

/-- An action that makes a call for a task of a connection offers nothing. -/
lemma offers_of_call {b b' : Broker n} {a : Action n} (hstep : step b a = some b') {i : Fin n}
    {r : ConnRef} (hcall : a.call i r ≠ none) :
    (b'.shards i).worker.offers = (b.shards i).worker.offers := by
  have hs := step_eq_some hstep
  cases a with
  | task j t =>
      obtain ⟨-, s, hrun, rfl⟩ := hs
      have ht := Shard.run_eq_some hrun
      rcases eq_or_ne i j with rfl | hj
      · rw [shards_setShard_self]
        cases t with
        | reject r' =>
            obtain ⟨-, -, -, rfl⟩ := ht
            rfl
        | exit r' order =>
            obtain ⟨-, -, -, -, rfl⟩ := ht
            rfl
        | send r' buf =>
            obtain ⟨-, -, rfl⟩ := ht
            rfl
        | _ => exact absurd rfl hcall
      · rw [shards_setShard_ne _ _ _ hj]
  | _ => exact absurd rfl hcall

namespace Process

variable {s s' t : Process B n} {e : Event n} {p : Plan B n} {i : Fin n} {r : ConnRef} {v w : View}

/-- Actions of the broker change nothing of a runtime but what the writers are told. -/
lemma runtimes_acts {as : List (Action n)} (h : run act s as = some t) (i : Fin n) :
    ∃ calls, t.runtimes i = (s.runtimes i).notice calls := by
  induction as generalizing s with
  | nil =>
      cases h
      exact ⟨fun _ => [], (t.runtimes i).notice_nil.symm⟩
  | cons a as ih =>
      obtain ⟨u, hu, hrun⟩ := run_cons_eq_some.mp h
      obtain ⟨-, -, hruntimes⟩ := act_eq_some hu
      obtain ⟨calls, hcalls⟩ := ih hrun
      rcases eq_or_ne i a.shard with rfl | hi
      · rw [hcalls, hruntimes, Function.update_self, Runtime.notice_notice]
        exact ⟨_, rfl⟩
      · rw [hcalls, hruntimes, Function.update_of_ne hi]
        exact ⟨calls, rfl⟩

/-- **An invariant of the runtimes.** What the runtimes have at the start, and what neither a call
on a connection nor the plan of an event takes from them, they have in every state of every run. -/
theorem runtimes_run {I : Runtime B → Prop} {inboxCapacity poolCapacity : ℕ} {es : List (Event n)}
    (hinit : ∀ i, I ((init n inboxCapacity poolCapacity : Process B n).runtimes i))
    (hnotice : ∀ rt calls, I rt → I (rt.notice calls))
    (hchange : ∀ (s t : Process B n) e p, s.next e = some p → run act s p.1 = some t →
      I (t.runtimes e.shard) → I (p.2 (t.runtimes e.shard)))
    (hrun : run step (init n inboxCapacity poolCapacity : Process B n) es = some s) (i : Fin n) :
    I (s.runtimes i) := by
  refine run_invariant (I := fun s : Process B n => ∀ i, I (s.runtimes i)) ?_ hinit hrun i
  intro s e s' h hstep i
  obtain ⟨p, t, hnext, hacts, rfl⟩ := step_eq_some hstep
  have ht : ∀ i, I (t.runtimes i) := by
    intro i
    obtain ⟨calls, hcalls⟩ := runtimes_acts hacts i
    rw [hcalls]
    exact hnotice _ calls (h i)
  rcases eq_or_ne i e.shard with rfl | hi
  · rw [runtimes_change_self, runtimes_withLost]
    exact hchange s t e p hnext hacts (ht _)
  · rw [runtimes_change_ne _ hi]
    exact ht i

/-- To a connection that actions are not of, they only offer frames. -/
lemma view_acts {as : List (Action n)} (h : run act s as = some t) (hv : s.view i r = some v)
    (has : ∀ a ∈ as, a.conn ≠ some (i, r)) :
    ∃ new w, (t.broker.shards i).worker.offers = (s.broker.shards i).worker.offers ++ new ∧
      v.Offered (new.filter (·.target = r)) w ∧ t.view i r = some w := by
  induction as generalizing s v with
  | nil =>
      cases h
      exact ⟨[], v, by simp, rfl, hv⟩
  | cons a as ih =>
      obtain ⟨u, hu, hrun⟩ := run_cons_eq_some.mp h
      obtain ⟨new, w, hoffers, hw, hview⟩ := view_act hu hv
      rw [View.acted_of_ne (has a List.mem_cons_self)] at hview
      obtain ⟨new', w', hoffers', hw', hview'⟩ :=
        ih hrun hview fun a ha => has a (List.mem_cons_of_mem _ ha)
      refine ⟨new ++ new', w', ?_, ?_, hview'⟩
      · rw [hoffers', hoffers, List.append_assoc]
      · rw [List.filter_append]
        exact hw.trans hw'

/-- An action that makes a call for a task of a connection does nothing else to it. -/
lemma view_act_of_call {a : Action n} (h : s.act a = some t) (hv : s.view i r = some v)
    (hcall : a.call i r ≠ none) :
    (t.broker.shards i).worker.offers = (s.broker.shards i).worker.offers ∧
      t.view i r = some (v.acted i r a) := by
  have hsame := offers_of_call (act_eq_some h).1 hcall
  obtain ⟨new, w, hoffers, hw, hview⟩ := view_act h hv
  obtain rfl : new = [] := by simpa [hsame] using hoffers
  obtain rfl : w = v := hw
  exact ⟨hsame, hview⟩

/-- The last part of an event: the tasks of the shard change, and of them those of the
connection. -/
lemma view_change {f : Runtime B → Runtime B} {g : Link → Link}
    (hlinks : ∀ rt : Runtime B, (f rt).links[r]? = (rt.links[r]?).map g)
    (hv : s.view i r = some v) :
    (s.change i f).view i r = some (v.mapLink g) := by
  obtain ⟨c, l, hc, hl, rfl⟩ := view_eq_some.mp hv
  have hlink : (s.change i f).link i r = some (g l) := by
    rw [link, runtimes_change_self, hlinks, show (s.runtimes i).links[r]? = some l from hl]
    rfl
  exact view_eq_some.mpr ⟨c, g l, hc, hlink, rfl⟩

/-- To a connection that the event is not of, frames are offered, and nothing else happens. -/
lemma view_step_of_ne (h : s.step e = some s') (hv : s.view i r = some v)
    (hne : e.conn ≠ some (i, r)) :
    ∃ new w, (s'.broker.shards i).worker.offers = (s.broker.shards i).worker.offers ++ new ∧
      v.Offered (new.filter (·.target = r)) w ∧ s'.view i r = some w := by
  obtain ⟨p, t, hp, ht, rfl⟩ := step_eq_some h
  obtain ⟨hactions, hlinks⟩ := next_of_ne hp hne
  obtain ⟨new, w, hoffers, hw, hview⟩ := view_acts ht hv hactions
  refine ⟨new, w, hoffers, hw, ?_⟩
  obtain ⟨c, l, hc, hl, rfl⟩ := view_eq_some.mp hview
  have hlink : (t.change e.shard p.2).link i r = some l := by
    rcases eq_or_ne i e.shard with rfl | hi
    · rw [link, runtimes_change_self, hlinks rfl _ (List.getElem?_eq_some_iff.mp hl).1]
      exact hl
    · rw [link, runtimes_change_ne t hi]
      exact hl
  exact view_eq_some.mpr ⟨c, l, hc, hlink, rfl⟩

/-- The link in a view. -/
lemma link_of_view (hv : s.view i r = some v) : s.link i r = some v.link := by
  obtain ⟨c, l, -, hl, rfl⟩ := view_eq_some.mp hv
  exact hl

/-- The connection in a view. -/
lemma conn_of_view (hv : s.view i r = some v) :
    ∃ c, s.conn i r = some c ∧ c.state = v.state ∧ c.reader = v.status := by
  obtain ⟨c, l, hc, -, rfl⟩ := view_eq_some.mp hv
  exact ⟨c, hc, rfl, rfl⟩

/-- The frames in a view. -/
lemma frames_of_view (hv : s.view i r = some v) : v.frames = framesOf i r s.trace := by
  obtain ⟨c, l, -, -, rfl⟩ := view_eq_some.mp hv
  rfl

/-- The offers in a view. -/
lemma offers_eq_of_view (hv : s.view i r = some v) :
    v.offers = (s.broker.shards i).worker.offers.filter (·.target = r) := by
  obtain ⟨c, l, -, -, rfl⟩ := view_eq_some.mp hv
  rfl

/-- Connection `r` of shard `i` has become `v`, up to the frames that were offered to it. -/
def Reaches (s s' : Process B n) (i : Fin n) (r : ConnRef) (v : View) : Prop :=
  ∃ new w, (s'.broker.shards i).worker.offers = (s.broker.shards i).worker.offers ++ new ∧
    v.Offered (new.filter (·.target = r)) w ∧ s'.view i r = some w

/-- Where nothing was offered, the view is what the connection has become. -/
lemma Reaches.of_quiet
    (hoffers : (s'.broker.shards i).worker.offers = (s.broker.shards i).worker.offers)
    (hv : s'.view i r = some v) : Reaches s s' i r v :=
  ⟨[], v, by simp [hoffers], rfl, hv⟩

end Process

/-! ### The writer -/

/-- The permit plays no part in a drain. -/
lemma drainInto_notify (s : ConnectionState) (permit : Bool) (buf : Bytes) :
    ({ s with notify := permit } : ConnectionState).drainInto buf =
      ((s.drainInto buf).1, (s.drainInto buf).2.1,
        { (s.drainInto buf).2.2 with notify := permit }) := by
  unfold ConnectionState.drainInto
  dsimp only
  split_ifs <;> rfl

/-- A drain leaves the permit. -/
lemma notify_drainInto (s : ConnectionState) (buf : Bytes) :
    (s.drainInto buf).2.2.notify = s.notify := by
  unfold ConnectionState.drainInto
  dsimp only
  split_ifs <;> rfl

namespace Writer

variable (w : Writer)

/-- A writer that waits may take the permit, and changes nothing else of the state. -/
lemma state_waitForEvent : ∃ permit, w.waitForEvent.state = { w.state with notify := permit } := by
  unfold waitForEvent
  split_ifs
  · exact ⟨false, rfl⟩
  · exact ⟨w.state.notify, rfl⟩

/-- So does one that checks for a reason to close. -/
lemma state_checkClose : ∃ permit, w.checkClose.state = { w.state with notify := permit } := by
  rcases w.checkClose_cases with ⟨-, h⟩ | ⟨-, -, h, -⟩
  · rw [h]
    exact w.state_waitForEvent
  · exact ⟨w.state.notify, h⟩

/-- But for the permit, the writer leaves the connection as the drain leaves it. -/
lemma state_drain : ∃ permit,
    w.drain.state = { (w.state.drainInto w.buf).2.2 with notify := permit } := by
  unfold drain
  dsimp only
  split_ifs
  · exact state_checkClose _
  · exact ⟨(w.state.drainInto w.buf).2.2.notify, rfl⟩

end Writer

/-- The state of the connection after the writer has gone on, but for the permit: it drains when it
was woken and after a write that succeeded. -/
lemma Link.state_writerOf {l : Link} {state : ConnectionState} {a : Writer.Action} {w : Writer}
    (ha : a = .poll ∨ ∃ ok, a = .written ok) (h : (l.writerOf state).step a = some w) :
    ({ w.state with notify := state.notify } : ConnectionState) =
      if l.writer.phase = .woken ∨ l.writer.phase = .writing ∧ a = .written true then
        (state.drainInto l.writer.buf.bytes).2.2 else state := by
  have hdrain : w = (l.writerOf state).drain → ({ w.state with notify := state.notify } :
      ConnectionState) = (state.drainInto l.writer.buf.bytes).2.2 := by
    rintro rfl
    obtain ⟨permit, hstate⟩ := (l.writerOf state).state_drain
    have hnotify := notify_drainInto state l.writer.buf.bytes
    have hpermit := drainInto_notify state l.writer.permit l.writer.buf.bytes
    rw [hstate]
    simp only [writerOf, hpermit]
    rw [← hnotify]
  have hs := Writer.step_eq_some h
  rcases ha with rfl | ⟨ok, rfl⟩
  · rcases hs with ⟨hphase, rfl⟩ | ⟨hphase, heq⟩
    · obtain ⟨permit, hstate⟩ := (l.writerOf state).state_waitForEvent
      have hphase : l.writer.phase = .spawned := hphase
      rw [hstate, hphase]
      simp [writerOf]
    · have hphase : l.writer.phase = .woken := hphase
      rw [hdrain heq, if_pos (Or.inl hphase)]
  · rcases hs with ⟨hphase, rfl, heq⟩ | ⟨hphase, rfl, rfl⟩ | ⟨hphase, rfl⟩
    · have hphase : l.writer.phase = .writing := hphase
      rw [hdrain heq, if_pos (Or.inr ⟨hphase, rfl⟩)]
    · have hphase : l.writer.phase = .writing := hphase
      simp [hphase, writerOf]
    · have hphase : l.writer.phase = .parting := hphase
      simp [hphase, writerOf]

namespace Process

variable {s s' t : Process B n} {e : Event n} {p : Plan B n} {i : Fin n} {r : ConnRef} {v w : View}

section reaches

variable {f : Runtime B → Runtime B} {g : Link → Link}

/-- A plan without actions. -/
lemma reaches_of_nil (hlinks : ∀ rt : Runtime B, (f rt).links[r]? = (rt.links[r]?).map g)
    (hv : s.view i r = some v) : Reaches s (s.change i f) i r (v.mapLink g) :=
  .of_quiet rfl (view_change hlinks hv)

/-- The plan of a reader that ends. -/
lemma reaches_of_exit (hlinks : ∀ rt : Runtime B, (f rt).links[r]? = (rt.links[r]?).map g)
    (hv : s.view i r = some v) {order : Order}
    (ht : run act s [.task i (.exit r order)] = some t) :
    Reaches s (t.change i f) i r
      (View.mapLink { v.mark .peerClosed with status := .finished } g) := by
  obtain ⟨u, hu, hlast⟩ := run_cons_eq_some.mp ht
  cases hlast
  obtain ⟨hoffers, hview⟩ := view_act_of_call hu hv (by simp [Action.call])
  rw [View.acted_exit] at hview
  exact .of_quiet hoffers (view_change hlinks hview)

/-- The plan of a reader that ends after it has marked the connection. -/
lemma reaches_of_reject (hlinks : ∀ rt : Runtime B, (f rt).links[r]? = (rt.links[r]?).map g)
    (hv : s.view i r = some v) {order : Order}
    (ht : run act s [.task i (.reject r), .task i (.exit r order)] = some t) :
    Reaches s (t.change i f) i r
      (View.mapLink { (v.mark .protocolError).mark .peerClosed with status := .finished } g) := by
  obtain ⟨u, hu, hrest⟩ := run_cons_eq_some.mp ht
  obtain ⟨hoffers, hview⟩ := view_act_of_call hu hv (by simp [Action.call])
  rw [View.acted_reject] at hview
  obtain ⟨new, w, hoffers', hw, hview'⟩ := reaches_of_exit hlinks hview hrest
  exact ⟨new, w, by rw [hoffers', hoffers], hw, hview'⟩

/-- A plan with one action that makes no call on the connection: its offers may come last. -/
lemma reaches_of_act (hlinks : ∀ rt : Runtime B, (f rt).links[r]? = (rt.links[r]?).map g)
    (hv : s.view i r = some v) {a : Action n} (ht : run act s [a] = some t)
    (hstate : ∀ v : View, ((v.acted i r a).mapLink g).state = v.state)
    (hoffer : ∀ (v : View) (o : Offer),
      ((v.offer o).acted i r a).mapLink g = ((v.acted i r a).mapLink g).offer o) :
    Reaches s (t.change i f) i r ((v.acted i r a).mapLink g) := by
  obtain ⟨u, hu, hlast⟩ := run_cons_eq_some.mp ht
  cases hlast
  obtain ⟨new, w, hoffers, hw, hview⟩ := view_act hu hv
  refine ⟨new, (w.acted i r a).mapLink g, hoffers, ?_, view_change hlinks hview⟩
  exact View.Offered.map (g := fun v => (v.acted i r a).mapLink g) hstate hoffer hw

/-- The plan of a writer. -/
lemma reaches_of_write (hv : s.view i r = some v) {a : Writer.Action} {w : Writer}
    (ha : a = .poll ∨ ∃ ok, a = .written ok) (hstep : (v.link.writerOf v.state).step a = some w)
    (ht : run act s (writerPlan i r v.link a w : Plan B n).1 = some t) :
    Reaches s (t.change i (writerPlan i r v.link a w : Plan B n).2) i r (v.wrote w) := by
  have hlinks : ∀ rt : Runtime B, ((writerPlan i r v.link a w : Plan B n).2 rt).links[r]? = _ :=
    fun rt => links_modify_self rt _
  have hstate := Link.state_writerOf ha hstep
  unfold writerPlan at ht
  dsimp only at ht
  split_ifs at ht hstate
  · obtain ⟨u, hu, hlast⟩ := run_cons_eq_some.mp ht
    cases hlast
    obtain ⟨hoffers, hview⟩ := view_act_of_call hu hv (by simp [Action.call])
    rw [View.acted_send, ← hstate] at hview
    exact .of_quiet hoffers (view_change hlinks hview)
  · cases ht
    refine .of_quiet rfl ((view_change hlinks hv).trans ?_)
    rw [View.wrote, hstate]
    rfl

end reaches

/-- The plan of a reader that leaves its loop. -/
lemma reaches_exitPlan (hv : s.view i r = some v) {l : Link} {order : Order}
    (ht : run act s (exitPlan i r l order : Plan B n).1 = some t) :
    Reaches s (t.change i (exitPlan i r l order : Plan B n).2) i r v.leave :=
  reaches_of_exit (g := (·.goto .finished)) (fun rt => links_modify_self rt _) hv ht

/-- A read is a move. -/
lemma moves_readPlan (hv : s.view i r = some v) {k : ℕ} {order : Order}
    (hphase : v.link.reader.phase = .waiting) (hpos : 0 < k)
    (hbuf : k ≤ v.link.reader.buf.bytes.length) (hk : k ≤ v.link.socket.inbound.length)
    (ht : run act s (readPlan i r v.link k order : Plan B n).1 = some t) :
    ∃ v₁, v.Moves (.reader false) v₁ ∧
      Reaches s (t.change i (readPlan i r v.link k order : Plan B n).2) i r v₁ := by
  unfold readPlan at ht ⊢
  dsimp only at ht ⊢
  split_ifs at ht ⊢ with hsize
  · refine ⟨_, .overflow v k hphase hpos hbuf hk hsize, ?_⟩
    refine reaches_of_reject (g := fun l => (l.afterRead k).goto .finished) (fun rt => ?_) hv ht
    show ((rt.modify r fun l => l.afterRead k).modify r (·.goto .finished)).links[r]? = _
    rw [links_modify_self, links_modify_self, Option.map_map]
    rfl
  · cases ht
    exact ⟨_, .read v k hphase hpos hbuf hk (not_lt.mp hsize),
      reaches_of_nil (fun rt => links_modify_self rt _) hv⟩

/-- A parse is a move. -/
lemma moves_parsePlan (hv : s.view i r = some v) {c : Connection} (hc : c.state = v.state)
    {k : ℕ} {order : Order} (hphase : v.link.reader.phase = .parsing k)
    (ht : run act s (parsePlan i r c v.link k order : Plan B n).1 = some t) :
    ∃ v₁, v.Moves (.reader false) v₁ ∧
      Reaches s (t.change i (parsePlan i r c v.link k order : Plan B n).2) i r v₁ := by
  unfold parsePlan roundPlan at ht ⊢
  split at ht
  · rename_i f consumed hparse
    refine ⟨_, .frame v k f consumed hphase hparse, ?_⟩
    have hacted := v.acted_frame i r f
    have hreach := reaches_of_act (g := (·.goto (.checking (k + consumed))))
      (fun rt => links_modify_self rt _) hv ht
      (fun v => by rw [View.acted_frame]; rfl)
      (fun v o => by rw [View.acted_frame, View.acted_frame]; rfl)
    rw [hacted] at hreach
    exact hreach
  · rename_i hparse
    split_ifs at ht ⊢ with hclosed
    · rw [hc] at hclosed
      exact ⟨_, .roundClosed v k hphase hparse (Option.isSome_iff_ne_none.mp hclosed),
        reaches_exitPlan hv ht⟩
    · cases ht
      rw [hc, Option.not_isSome_iff_eq_none] at hclosed
      exact ⟨_, .round v k hphase hparse hclosed,
        reaches_of_nil (fun rt => links_modify_self rt _) hv⟩
  · rename_i e hparse
    exact ⟨_, .malformed v k e hphase hparse,
      reaches_of_reject (g := (·.goto .finished)) (fun rt => links_modify_self rt _) hv ht⟩

/-- A check for a reason to close is a move. -/
lemma moves_checkPlan (hv : s.view i r = some v) {c : Connection} (hc : c.state = v.state)
    {k : ℕ} {order : Order} (hphase : v.link.reader.phase = .checking k)
    (ht : run act s (checkPlan i r c v.link k order : Plan B n).1 = some t) :
    ∃ v₁, v.Moves (.reader false) v₁ ∧
      Reaches s (t.change i (checkPlan i r c v.link k order : Plan B n).2) i r v₁ := by
  unfold checkPlan at ht ⊢
  split_ifs at ht ⊢ with hclosed
  · rw [hc] at hclosed
    exact ⟨_, .checkClosed v k hphase (Option.isSome_iff_ne_none.mp hclosed),
      reaches_exitPlan hv ht⟩
  · cases ht
    rw [hc, Option.not_isSome_iff_eq_none] at hclosed
    exact ⟨_, .check v k hphase hclosed, reaches_of_nil (fun rt => links_modify_self rt _) hv⟩

/-- An event of a connection is one of its moves, and then frames are offered. -/
lemma view_step_own (h : s.step e = some s') (hv : s.view i r = some v)
    (he : e.conn = some (i, r)) : ∃ v₁, v.Moves e.agent v₁ ∧ Reaches s s' i r v₁ := by
  obtain ⟨p, t, hp, ht, rfl⟩ := step_eq_some h
  -- the kicks that were lost are no part of a view
  change ∃ v₁, v.Moves e.agent v₁ ∧ Reaches s (t.change e.shard p.2) i r v₁
  have hn := next_eq_some hp
  have hlink := link_of_view hv
  obtain ⟨c, hconn, hstate, -⟩ := conn_of_view hv
  cases e with
  | connect j | push j kicks | drainRead j | drainPop j | drainFail j => cases he
  | send j r' bytes =>
      obtain ⟨rfl, rfl⟩ : j = i ∧ r' = r := Prod.mk.inj (Option.some.inj he)
      obtain ⟨l, hl, hopen, rfl⟩ := hn
      obtain rfl := Option.some.inj (hlink.symm.trans hl)
      cases ht
      exact ⟨_, .send v bytes hopen, reaches_of_nil (fun rt => links_modify_self rt _) hv⟩
  | close j r' =>
      obtain ⟨rfl, rfl⟩ : j = i ∧ r' = r := Prod.mk.inj (Option.some.inj he)
      obtain ⟨l, hl, hopen, rfl⟩ := hn
      obtain rfl := Option.some.inj (hlink.symm.trans hl)
      cases ht
      exact ⟨_, .close v hopen, reaches_of_nil (fun rt => links_modify_self rt _) hv⟩
  | start j r' =>
      obtain ⟨rfl, rfl⟩ : j = i ∧ r' = r := Prod.mk.inj (Option.some.inj he)
      obtain ⟨l, hl, -, hphase, rfl⟩ := hn
      obtain rfl := Option.some.inj (hlink.symm.trans hl)
      refine ⟨_, .start v hphase, ?_⟩
      have hacted := v.acted_greet j r'
      have hreach := reaches_of_act (g := (·.goto .waiting))
        (fun rt => links_modify_self rt _) hv ht
        (fun v => by rw [View.acted_greet]; rfl)
        (fun v o => by rw [View.acted_greet, View.acted_greet]; rfl)
      rw [hacted] at hreach
      exact hreach
  | read j r' k order =>
      obtain ⟨rfl, rfl⟩ : j = i ∧ r' = r := Prod.mk.inj (Option.some.inj he)
      obtain ⟨l, hl, -, hphase, hpos, hbuf, hk, rfl⟩ := hn
      obtain rfl := Option.some.inj (hlink.symm.trans hl)
      exact moves_readPlan hv hphase hpos hbuf hk ht
  | readEnd j r' order =>
      obtain ⟨rfl, rfl⟩ : j = i ∧ r' = r := Prod.mk.inj (Option.some.inj he)
      obtain ⟨l, hl, -, hphase, hend, rfl⟩ := hn
      obtain rfl := Option.some.inj (hlink.symm.trans hl)
      exact ⟨_, .eof v false hphase (fun _ => hend), reaches_exitPlan hv ht⟩
  | readFail j r' order =>
      obtain ⟨rfl, rfl⟩ : j = i ∧ r' = r := Prod.mk.inj (Option.some.inj he)
      obtain ⟨l, hl, -, hphase, rfl⟩ := hn
      obtain rfl := Option.some.inj (hlink.symm.trans hl)
      exact ⟨_, .eof v true hphase (by simp), reaches_exitPlan hv ht⟩
  | parse j r' order =>
      obtain ⟨rfl, rfl⟩ : j = i ∧ r' = r := Prod.mk.inj (Option.some.inj he)
      obtain ⟨l, c', k, hl, hc, -, -, hphase, rfl⟩ := hn
      obtain rfl := Option.some.inj (hlink.symm.trans hl)
      obtain rfl := Option.some.inj (hconn.symm.trans hc)
      exact moves_parsePlan hv hstate hphase ht
  | check j r' order =>
      obtain ⟨rfl, rfl⟩ : j = i ∧ r' = r := Prod.mk.inj (Option.some.inj he)
      obtain ⟨l, c', k, hl, hc, -, -, hphase, rfl⟩ := hn
      obtain rfl := Option.some.inj (hlink.symm.trans hl)
      obtain rfl := Option.some.inj (hconn.symm.trans hc)
      exact moves_checkPlan hv hstate hphase ht
  | poll j r' =>
      obtain ⟨rfl, rfl⟩ : j = i ∧ r' = r := Prod.mk.inj (Option.some.inj he)
      obtain ⟨l, c', w, hl, hc, -, hstep, rfl⟩ := hn
      obtain rfl := Option.some.inj (hlink.symm.trans hl)
      obtain rfl := Option.some.inj (hconn.symm.trans hc)
      rw [hstate] at hstep
      exact ⟨_, .write v false _ w (Or.inl rfl) (by simp) hstep,
        reaches_of_write hv (Or.inl rfl) hstep ht⟩
  | written j r' ok =>
      obtain ⟨rfl, rfl⟩ : j = i ∧ r' = r := Prod.mk.inj (Option.some.inj he)
      obtain ⟨l, c', w, hl, hc, -, hstep, rfl⟩ := hn
      obtain rfl := Option.some.inj (hlink.symm.trans hl)
      obtain rfl := Option.some.inj (hconn.symm.trans hc)
      rw [hstate] at hstep
      exact ⟨_, .write v _ _ w (Or.inr ⟨ok, rfl⟩) (by simp) hstep,
        reaches_of_write hv (Or.inr ⟨ok, rfl⟩) hstep ht⟩

end Process

end Aulon.Server
