import Aulon.Core.OutboundQueue
import Aulon.Lib.Run
import Aulon.Proto.Emit

/-!
# The writer task

Each connection has a writer task, which sleeps until it is notified, drains the outbound buffer
through a small write buffer, and says goodbye once there is a reason to close. The other tasks of
the worker enqueue frames and set close reasons wherever the writer is suspended: before it is
first polled, in `wait_for_event`, and in each `write_fixed_all`. A run is any interleaving of such
calls with the writer's pieces between two awaits. A `wait_for_event` that finds a permit still
counts as an await here, so the model has all interleavings of the code and some more.

A notification wakes the task if it is parked, and is stored as a permit otherwise; there is at
most one permit.

`Writer.sent` and `Writer.log` are histories that no code reads: the bytes passed to
`write_fixed_all`, and the calls of the other tasks.

* `Writer.step` — the calls of the other tasks and the pieces of the writer.
* `parked_idle` — a writer that sleeps has nothing to do.
* `sent_exact` — a writer that has exited has sent what was accepted, and the right farewell.
-/

namespace Aulon.Server

open Aulon.Lib Aulon.Core Aulon.Proto

/-! ## State -/

/-- Where the writer task is suspended. -/
inductive WriterPhase where
  /-- Spawned and not polled yet. -/
  | spawned
  /-- In `wait_for_event`. -/
  | parked
  /-- In `wait_for_event`, with a notification: it goes on when it is polled. -/
  | woken
  /-- In `write_fixed_all`, with bytes from the outbound buffer. -/
  | writing
  /-- In `write_fixed_all`, with the farewell. -/
  | parting
  /-- It has returned. -/
  | exited
deriving DecidableEq, Repr

/-- A call another task has made on the connection, with its outcome. -/
inductive WriterEvent where
  | enqueued (bytes : Bytes) (outcome : EnqueueOutcome)
  | marked (reason : CloseReason)
deriving DecidableEq, Repr

/-- The bytes that the call appended to the outbound buffer. -/
def WriterEvent.accepted : WriterEvent → Bytes
  | .enqueued bytes .ok => bytes
  | _ => []

/-- The reason to close that the call gave. -/
def WriterEvent.reason : WriterEvent → Option CloseReason
  | .enqueued _ .slowConsumerClosed => some .slowConsumer
  | .enqueued _ _ => none
  | .marked reason => some reason

/-- The first reason to close among some calls. -/
def firstReason (log : List WriterEvent) : Option CloseReason := (log.filterMap (·.reason)).head?

/-- The bytes of the farewell for a reason. -/
def farewell (reason : CloseReason) : Bytes :=
  reason.errText.elim [] fun text => encode (.err text)

/-- A writer task, the connection it shares with the other tasks, and its write buffer. -/
structure Writer where
  state : ConnectionState
  phase : WriterPhase
  buf : Bytes
  sent : Bytes
  log : List WriterEvent

namespace Writer

/-- A writer that was just spawned. -/
def init (id : ConnectionId) (capacity : ℕ) (buf : Bytes) : Writer :=
  ⟨.new id capacity, .spawned, buf, [], []⟩

/-! ## The pieces of the task -/

/-- Wait for a notification: a stored permit is taken at once, otherwise the task parks.
Source: `connection_state.rs`, `ConnectionState::wait_for_event` -/
def waitForEvent (w : Writer) : Writer :=
  if w.state.notify then { w with state := { w.state with notify := false }, phase := .woken }
  else { w with phase := .parked }

/-- The end of a round: if close was signalled, send the error, if there is one, and exit.
Source: `main.rs`, `writer_task` -/
def checkClose (w : Writer) : Writer :=
  match w.state.closeWith with
  | none => w.waitForEvent
  | some reason =>
      match reason.errText with
      | none => { w with phase := .exited }
      | some text =>
          match emitErr text w.buf with
          | (.ok n, buf) =>
              { w with phase := .parting, buf := buf, sent := w.sent ++ buf.take n }
          | (.error _, buf) => { w with phase := .exited, buf := buf }

/-- The drain loop, up to its next write or to its end.
Source: `main.rs`, `writer_task` -/
def drain (w : Writer) : Writer :=
  let (n, buf, state) := w.state.drainInto w.buf
  let w := { w with state := state, buf := buf }
  if n = 0 then w.checkClose
  else { w with phase := .writing, sent := w.sent ++ buf.take n }

/-- Another task has left the connection in this state. A permit it has stored while the writer is
parked wakes the writer. -/
def setState (w : Writer) (state : ConnectionState) : Writer :=
  if w.phase = .parked ∧ state.notify then
    { w with state := { state with notify := false }, phase := .woken }
  else { w with state := state }

/-- What can happen next: a call of another task, the writer is polled, or its write has ended. -/
inductive Action where
  | enqueue (bytes : Bytes)
  | markClose (reason : CloseReason)
  | poll
  | written (ok : Bool)
deriving DecidableEq, Repr

/-- The calls of the other tasks, and the pieces of the writer task; after a failed write it gives
up, and what came of the farewell is ignored.
Source: `main.rs`, `writer_task` -/
def step (w : Writer) : Action → Option Writer
  | .enqueue bytes =>
      let (outcome, state) := w.state.enqueue bytes
      some { w.setState state with log := w.log ++ [.enqueued bytes outcome] }
  | .markClose reason =>
      some { w.setState (w.state.markClose reason) with log := w.log ++ [.marked reason] }
  | .poll =>
      match w.phase with
      | .spawned => some w.waitForEvent
      | .woken => some w.drain
      | _ => none
  | .written ok =>
      match w.phase with
      | .writing => some (if ok then w.drain else { w with phase := .exited })
      | .parting => some { w with phase := .exited }
      | _ => none

/-- What an action that was taken has found and done. -/
lemma step_eq_some {w w' : Writer} {a : Action} (h : w.step a = some w') :
    match a with
    | .enqueue bytes => w' = { w.setState (w.state.enqueue bytes).2 with
        log := w.log ++ [.enqueued bytes (w.state.enqueue bytes).1] }
    | .markClose reason => w' = { w.setState (w.state.markClose reason) with
        log := w.log ++ [.marked reason] }
    | .poll => (w.phase = .spawned ∧ w' = w.waitForEvent) ∨ (w.phase = .woken ∧ w' = w.drain)
    | .written ok => (w.phase = .writing ∧ ok = true ∧ w' = w.drain) ∨
        (w.phase = .writing ∧ ok = false ∧ w' = { w with phase := .exited }) ∨
        (w.phase = .parting ∧ w' = { w with phase := .exited }) := by
  cases a with
  | enqueue bytes => exact (Option.some.inj h).symm
  | markClose reason => exact (Option.some.inj h).symm
  | poll =>
      unfold step at h
      dsimp only at h
      split at h
      · exact Or.inl ⟨by assumption, (Option.some.inj h).symm⟩
      · exact Or.inr ⟨by assumption, (Option.some.inj h).symm⟩
      · cases h
  | written ok =>
      unfold step at h
      dsimp only at h
      split at h
      · cases ok with
        | true => exact Or.inl ⟨by assumption, rfl, (Option.some.inj h).symm⟩
        | false => exact Or.inr (Or.inl ⟨by assumption, rfl, (Option.some.inj h).symm⟩)
      · exact Or.inr (Or.inr ⟨by assumption, (Option.some.inj h).symm⟩)
      · cases h

/-! ## What the pieces do -/

section pieces

variable (w : Writer) (state : ConnectionState)

/-- A new state has its own reason to close. -/
@[simp] lemma closeWith_setState : (w.setState state).state.closeWith = state.closeWith := by
  unfold setState
  split_ifs <;> rfl

/-- A new state has its own pending bytes. -/
@[simp] lemma pending_setState : (w.setState state).state.pending = state.pending := by
  unfold setState
  split_ifs <;> rfl

/-- A new state leaves the buffer. -/
@[simp] lemma buf_setState : (w.setState state).buf = w.buf := by
  unfold setState
  split_ifs <;> rfl

/-- A new state leaves what was sent. -/
@[simp] lemma sent_setState : (w.setState state).sent = w.sent := by
  unfold setState
  split_ifs <;> rfl

/-- A call of another task leaves the writer where it is, or wakes it. -/
lemma setState_cases :
    (w.phase = .parked → state.notify = false) ∧ w.setState state = { w with state := state } ∨
      w.phase = .parked ∧ state.notify = true ∧ (w.setState state).phase = .woken := by
  unfold setState
  by_cases h : w.phase = .parked ∧ state.notify
  · rw [if_pos h]
    exact Or.inr ⟨h.1, h.2, rfl⟩
  · rw [if_neg h]
    exact Or.inl ⟨fun hparked => by simpa [hparked] using h, rfl⟩

/-- Waiting gives no reason to close. -/
@[simp] lemma closeWith_waitForEvent : w.waitForEvent.state.closeWith = w.state.closeWith := by
  unfold waitForEvent
  split_ifs <;> rfl

/-- Waiting leaves what is pending. -/
@[simp] lemma pending_waitForEvent : w.waitForEvent.state.pending = w.state.pending := by
  unfold waitForEvent
  split_ifs <;> rfl

/-- Waiting leaves the buffer. -/
@[simp] lemma buf_waitForEvent : w.waitForEvent.buf = w.buf := by
  unfold waitForEvent
  split_ifs <;> rfl

/-- Waiting leaves what was sent. -/
@[simp] lemma sent_waitForEvent : w.waitForEvent.sent = w.sent := by
  unfold waitForEvent
  split_ifs <;> rfl

/-- Waiting leaves the log. -/
@[simp] lemma log_waitForEvent : w.waitForEvent.log = w.log := by
  unfold waitForEvent
  split_ifs <;> rfl

/-- The writer goes on at once if there is a permit, and parks otherwise. -/
lemma phase_waitForEvent : w.state.notify = true ∧ w.waitForEvent.phase = .woken ∨
    w.state.notify = false ∧ w.waitForEvent.phase = .parked ∧
      w.waitForEvent.state = w.state := by
  unfold waitForEvent
  by_cases h : w.state.notify
  · rw [if_pos h]
    exact Or.inl ⟨h, rfl⟩
  · rw [if_neg h]
    exact Or.inr ⟨by simpa using h, rfl, rfl⟩

/-- The end of a round: the writer waits again, or it exits after the farewell. -/
lemma checkClose_cases : w.state.closeWith = none ∧ w.checkClose = w.waitForEvent ∨
    ∃ reason, w.state.closeWith = some reason ∧ w.checkClose.state = w.state ∧
      w.checkClose.log = w.log ∧ w.checkClose.buf.length = w.buf.length ∧
      (w.checkClose.phase = .parting ∨ w.checkClose.phase = .exited) ∧
      ((farewell reason).length ≤ w.buf.length → w.buf.length < wordMod →
        w.checkClose.sent = w.sent ++ farewell reason) := by
  unfold checkClose
  cases hclose : w.state.closeWith with
  | none => exact Or.inl ⟨rfl, rfl⟩
  | some reason =>
      refine Or.inr ⟨reason, rfl, ?_⟩
      dsimp only
      cases htext : reason.errText with
      | none => simp [farewell, htext]
      | some text =>
          have hfarewell : farewell reason = encode (.err text) := by rw [farewell, htext]; rfl
          have hlen := length_emitFrame (.err text) w.buf
          rw [hfarewell]
          dsimp only
          cases hemit : emitErr text w.buf with
          | mk res buf =>
              rw [show emitFrame (.err text) w.buf = (res, buf) from hemit] at hlen
              cases res with
              | ok n =>
                  obtain ⟨rfl, -, rfl⟩ := emitFrame_ok (f := .err text) hemit
                  dsimp only
                  rw [take_overwrite_zero]
                  exact ⟨rfl, rfl, hlen, Or.inl rfl, fun _ _ => rfl⟩
              | error e =>
                  refine ⟨rfl, rfl, hlen, Or.inr rfl, fun hfit hword => ?_⟩
                  have hok := emitFrame_of_le hfit hword
                  rw [show emitFrame (.err text) w.buf = (.error e, buf) from hemit] at hok
                  cases hok

/-- A round of the drain loop: it takes the start of the outbound buffer to a write, or there is
nothing left to drain. -/
lemma drain_cases : (∃ taken, w.drain.phase = .writing ∧ w.drain.sent = w.sent ++ taken ∧
      taken ++ w.drain.state.pending = w.state.pending ∧ w.drain.log = w.log ∧
      w.drain.state.closeWith = w.state.closeWith ∧ w.drain.buf.length = w.buf.length) ∨
    ∃ w₁, w.drain = checkClose w₁ ∧ w₁.sent = w.sent ∧ w₁.log = w.log ∧
      w₁.state.closeWith = w.state.closeWith ∧ w₁.state.pending = w.state.pending ∧
      w₁.buf.length = w.buf.length ∧ (w.buf ≠ [] → w.state.pending = []) := by
  have htake := w.state.take_drainInto w.buf
  obtain ⟨hn, hbuf⟩ := w.state.drainInto_eq w.buf
  have hlen : (w.state.drainInto w.buf).2.1.length = w.buf.length := by
    rw [hbuf, length_overwrite (by rw [List.length_take]; omega)]
  have hclose := w.state.closeWith_drainInto w.buf
  unfold drain
  dsimp only
  split_ifs with hzero
  · refine Or.inr ⟨_, rfl, rfl, rfl, hclose, ?_, hlen, fun hne => ?_⟩
    · rw [hzero, List.take_zero, List.nil_append] at htake
      exact htake
    · have hpos := List.length_pos_of_ne_nil hne
      exact List.length_eq_zero_iff.mp (by omega)
  · exact Or.inl ⟨_, rfl, rfl, htake, rfl, hclose, hlen⟩

end pieces

/-! ## No lost wakeup -/

/-- A writer with something to do is not parked, and has a permit when it is first polled. -/
structure Alert (w : Writer) : Prop where
  buf : w.buf ≠ []
  parked : w.phase = .parked → w.state.notify = false ∧ w.state.pending = [] ∧
    w.state.closeWith = none
  spawned : w.phase = .spawned → w.state.notify = false → w.state.pending = [] ∧
    w.state.closeWith = none

/-- A list as long as one that is not empty. -/
lemma ne_nil_of_length_eq {xs ys : Bytes} (h : xs.length = ys.length) (hys : ys ≠ []) :
    xs ≠ [] := by
  rintro rfl
  exact hys (List.length_eq_zero_iff.mp h.symm)

/-- A call of another task wakes the writer or stores a permit, unless it changes nothing. -/
lemma Alert.setState {w : Writer} (h : w.Alert) {state : ConnectionState}
    (hstate : state.notify = true ∨ state = w.state) : (w.setState state).Alert := by
  rcases w.setState_cases state with ⟨hparked, heq⟩ | ⟨-, -, hphase⟩
  · rw [heq]
    rcases hstate with hnotify | rfl
    · refine ⟨h.buf, fun hphase => ?_, fun _ hpermit => ?_⟩
      · rw [hparked hphase] at hnotify
        cases hnotify
      · rw [hnotify] at hpermit
        cases hpermit
    · exact h
  · refine ⟨by simpa using h.buf, ?_, ?_⟩ <;> rw [hphase] <;> simp

/-- A writer that waits is alert if it has a permit or nothing to do. -/
lemma Alert.waitForEvent {w : Writer} (hbuf : w.buf ≠ [])
    (hidle : w.state.notify = false → w.state.pending = [] ∧ w.state.closeWith = none) :
    w.waitForEvent.Alert := by
  rcases w.phase_waitForEvent with ⟨-, hphase⟩ | ⟨hnotify, hphase, hstate⟩
  · refine ⟨by simpa using hbuf, ?_, ?_⟩ <;> rw [hphase] <;> simp
  · refine ⟨by simpa using hbuf, fun _ => ?_, ?_⟩
    · rw [hstate]
      exact ⟨hnotify, hidle hnotify⟩
    · rw [hphase]
      simp

/-- The drain loop ends with nothing pending, so the writer parks only if it is not to close. -/
lemma Alert.drain {w : Writer} (hbuf : w.buf ≠ []) : w.drain.Alert := by
  rcases w.drain_cases with ⟨taken, hphase, -, -, -, -, hlen⟩ |
    ⟨w₁, heq, -, -, -, hpending, hlen, hempty⟩
  · refine ⟨ne_nil_of_length_eq hlen hbuf, ?_, ?_⟩ <;> rw [hphase] <;> simp
  · have hbuf₁ := ne_nil_of_length_eq hlen hbuf
    rw [heq]
    rcases w₁.checkClose_cases with ⟨hopen, hwait⟩ | ⟨reason, -, -, -, hlen₁, hphase, -⟩
    · rw [hwait]
      exact .waitForEvent hbuf₁ fun _ => ⟨hpending.trans (hempty hbuf), hopen⟩
    · refine ⟨ne_nil_of_length_eq hlen₁ hbuf₁, ?_, ?_⟩ <;>
        rcases hphase with hphase | hphase <;> rw [hphase] <;> simp

/-- An attempt to enqueue notifies the writer, unless the connection is closing already. -/
lemma notify_enqueue (s : ConnectionState) (bytes : Bytes) :
    (s.enqueue bytes).2.notify = true ∨ (s.enqueue bytes).2 = s := by
  obtain ⟨-, h⟩ | ⟨-, -, h⟩ | ⟨s', h, -, -, -, -, -, -, hnotify, -⟩ := s.enqueue_cases bytes
  · exact Or.inr (by rw [h])
  · exact Or.inl (by rw [h])
  · exact Or.inl (by rw [h, hnotify])

/-- A step keeps the writer alert. -/
lemma Alert.step {w w' : Writer} {a : Action} (h : w.Alert) (hstep : w.step a = some w') :
    w'.Alert := by
  have hs := step_eq_some hstep
  cases a with
  | enqueue bytes =>
      obtain ⟨hbuf, hparked, hspawned⟩ := h.setState (notify_enqueue w.state bytes)
      rw [hs]
      exact ⟨hbuf, hparked, hspawned⟩
  | markClose reason =>
      have hnotify : (w.state.markClose reason).notify = true := rfl
      obtain ⟨hbuf, hparked, hspawned⟩ := h.setState (Or.inl hnotify)
      rw [hs]
      exact ⟨hbuf, hparked, hspawned⟩
  | poll =>
      rcases hs with ⟨hphase, rfl⟩ | ⟨-, rfl⟩
      · exact .waitForEvent h.buf (h.spawned hphase)
      · exact .drain h.buf
  | written ok =>
      rcases hs with ⟨-, -, rfl⟩ | ⟨-, -, rfl⟩ | ⟨-, rfl⟩
      · exact .drain h.buf
      · exact ⟨h.buf, by simp, by simp⟩
      · exact ⟨h.buf, by simp, by simp⟩

/-- **The writer never sleeps on work.** Whatever the other tasks do and whether the writes succeed
or not, a writer that is parked without a notification has nothing pending and no reason to
close. -/
theorem parked_idle {id : ConnectionId} {capacity : ℕ} {buf : Bytes} (hbuf : buf ≠ [])
    {as : List Action} {w : Writer} (hrun : run Writer.step (init id capacity buf) as = some w)
    (hphase : w.phase = .parked) : w.state.pendingBytes = 0 ∧ w.state.closeWith = none := by
  have hinit : (init id capacity buf).Alert :=
    ⟨hbuf, by simp [init], fun _ _ => ⟨ConnectionState.pending_new id capacity, rfl⟩⟩
  have halert := run_invariant (fun w a w' h hstep => Alert.step h hstep) hinit hrun
  obtain ⟨-, hpending, hopen⟩ := halert.parked hphase
  exact ⟨w.state.pending_eq_nil_iff.mp hpending, hopen⟩

/-- Four bytes go through a buffer of two, one of them enqueued during a write; the writer takes the
permit stored then for one more round, and parks. -/
theorem parked_idle_after_two_writes :
    let as : List Action := [.enqueue [1, 2, 3], .poll, .poll, .enqueue [4], .written true,
      .written true, .poll]
    ∃ w, run Writer.step (init ⟨7⟩ 8 [0, 0]) as = some w ∧ w.phase = .parked ∧
      w.state.pendingBytes = 0 ∧ w.state.closeWith = none := by
  intro as
  have hsome : ((run Writer.step (init ⟨7⟩ 8 [0, 0]) as).map fun w => w.phase) = some .parked := by
    decide
  obtain ⟨w, hrun, hphase⟩ := Option.map_eq_some_iff.mp hsome
  exact ⟨w, hrun, hphase, parked_idle (by decide) hrun hphase⟩

/-! ## What is sent -/

/-- The bytes accepted by some calls. -/
def acceptedBytes (log : List WriterEvent) : Bytes := log.flatMap (·.accepted)

/-- The bytes accepted by a log, its last event apart. -/
lemma acceptedBytes_append (log : List WriterEvent) (e : WriterEvent) :
    acceptedBytes (log ++ [e]) = acceptedBytes log ++ e.accepted := by
  simp [acceptedBytes]

/-- The first reason in a log, its last event apart. -/
lemma firstReason_append (log : List WriterEvent) (e : WriterEvent) :
    firstReason (log ++ [e]) = (firstReason log).orElse fun _ => e.reason := by
  unfold firstReason
  rw [List.filterMap_append, List.head?_append]
  cases hreason : e.reason with
  | none => simp [hreason]
  | some reason => simp [hreason]

/-- The bytes sent and those pending are those accepted, in order, and the close reason is the first
one given. Once the writer has started to part, it has sent everything and the farewell. -/
structure Accounted (w : Writer) : Prop where
  reason : w.state.closeWith = firstReason w.log
  running : w.phase ≠ .parting → w.phase ≠ .exited →
    w.sent ++ w.state.pending = acceptedBytes w.log
  parted : w.phase = .parting ∨ w.phase = .exited → ∃ reason, w.state.closeWith = some reason ∧
    w.sent = acceptedBytes w.log ++ farewell reason

/-- What an enqueue does to the connection, in terms of the event it leaves. -/
lemma enqueue_event (s : ConnectionState) (bytes : Bytes) :
    let e := WriterEvent.enqueued bytes (s.enqueue bytes).1
    (s.enqueue bytes).2.closeWith = s.closeWith.orElse (fun _ => e.reason) ∧
      (s.enqueue bytes).2.pending = s.pending ++ e.accepted ∧
      (s.closeWith ≠ none → e.accepted = []) := by
  rw [s.pending_enqueue bytes, ConnectionState.accepted]
  obtain ⟨hclose, h⟩ | ⟨hopen, -, h⟩ | ⟨s', h, hopen, -, -, -, -, -, -, hopen'⟩ :=
    s.enqueue_cases bytes
  · obtain ⟨reason, hreason⟩ := Option.ne_none_iff_exists'.mp hclose
    simp [h, hreason, WriterEvent.accepted]
  · simp [h, hopen, WriterEvent.accepted, WriterEvent.reason]
  · simp [h, hopen, hopen', WriterEvent.accepted, WriterEvent.reason]

/-- An event on the connection keeps the accounts if the state follows it. -/
lemma Accounted.event {w : Writer} (h : w.Accounted) {state : ConnectionState} {e : WriterEvent}
    (hreason : state.closeWith = w.state.closeWith.orElse fun _ => e.reason)
    (hpending : state.pending = w.state.pending ++ e.accepted)
    (hclosed : w.state.closeWith ≠ none → e.accepted = []) :
    ({ w.setState state with log := w.log ++ [e] } : Writer).Accounted := by
  have hphase : (w.setState state).phase = w.phase ∨
      w.phase = .parked ∧ (w.setState state).phase = .woken := by
    rcases w.setState_cases state with ⟨-, heq⟩ | ⟨hparked, -, hwoken⟩
    · exact Or.inl (by rw [heq])
    · exact Or.inr ⟨hparked, hwoken⟩
  refine ⟨?_, fun hne hne' => ?_, fun hend => ?_⟩
  · rw [firstReason_append, ← h.reason]
    exact (w.closeWith_setState state).trans hreason
  · have hrun : w.sent ++ w.state.pending = acceptedBytes w.log := by
      rcases hphase with hphase | ⟨hparked, -⟩
      · exact h.running (hphase ▸ hne) (hphase ▸ hne')
      · exact h.running (by rw [hparked]; decide) (by rw [hparked]; decide)
    dsimp only
    rw [acceptedBytes_append, ← hrun, sent_setState, pending_setState, hpending, List.append_assoc]
  · have hend' : w.phase = .parting ∨ w.phase = .exited := by
      rcases hphase with hphase | ⟨-, hwoken⟩
      · exact hphase ▸ hend
      · rw [show (w.setState state).phase = .woken from hwoken] at hend
        rcases hend with hend | hend <;> cases hend
    obtain ⟨reason, hsome, hsent⟩ := h.parted hend'
    refine ⟨reason, ?_, ?_⟩
    · rw [show _ = state.closeWith from w.closeWith_setState state, hreason, hsome]
      rfl
    · dsimp only
      rw [acceptedBytes_append, hclosed (by simp [hsome]), List.append_nil, sent_setState, hsent]

/-- A writer that waits has its accounts if state and log agree. -/
lemma Accounted.waitForEvent {w : Writer} (hreason : w.state.closeWith = firstReason w.log)
    (hrun : w.sent ++ w.state.pending = acceptedBytes w.log) : w.waitForEvent.Accounted := by
  refine ⟨by simpa using hreason, fun _ _ => by simpa using hrun, fun hend => ?_⟩
  rcases w.phase_waitForEvent with ⟨-, hphase⟩ | ⟨-, hphase, -⟩ <;> simp [hphase] at hend

/-- A round of the drain loop moves bytes from the queue to the wire; where it ends it has sent
everything. -/
lemma Accounted.drain {w : Writer} (hreason : w.state.closeWith = firstReason w.log)
    (hrun : w.sent ++ w.state.pending = acceptedBytes w.log)
    (hfit : ∀ reason, (farewell reason).length ≤ w.buf.length) (hbuf : w.buf ≠ [])
    (hword : w.buf.length < wordMod) :
    w.drain.Accounted ∧ w.drain.buf.length = w.buf.length := by
  rcases w.drain_cases with ⟨taken, hphase, hsent, htaken, hlog, hclose, hlen⟩ |
    ⟨w₁, heq, hsent, hlog, hclose, hpending, hlen, hempty⟩
  · refine ⟨⟨by rw [hclose, hlog, hreason], fun _ _ => ?_, by simp [hphase]⟩, hlen⟩
    rw [hsent, hlog, List.append_assoc, htaken, hrun]
  · rw [heq]
    rw [← hclose, ← hlog] at hreason
    rw [← hsent, ← hpending, ← hlog] at hrun
    rcases w₁.checkClose_cases with ⟨-, hwait⟩ |
      ⟨reason, hsome, hstate, hlog₁, hlen₁, hphase, hsent₁⟩
    · rw [hwait]
      exact ⟨.waitForEvent hreason hrun, by simpa using hlen⟩
    · refine ⟨⟨by rw [hstate, hlog₁, hreason], fun hne hne' => ?_, fun _ => ?_⟩, hlen₁.trans hlen⟩
      · rcases hphase with hphase | hphase
        · exact absurd hphase hne
        · exact absurd hphase hne'
      · -- nothing was pending, so what was sent before the farewell is all that was accepted
        rw [hpending, hempty hbuf, List.append_nil] at hrun
        refine ⟨reason, by rw [hstate, hsome], ?_⟩
        rw [hsent₁ (by rw [hlen]; exact hfit reason) (by rw [hlen]; exact hword), hlog₁, hrun]

/-- A step that is no failed write keeps the accounts, and the length of the buffer. -/
lemma Accounted.step {w w' : Writer} {a : Action} (h : w.Accounted)
    (hfit : ∀ reason, (farewell reason).length ≤ w.buf.length) (hword : w.buf.length < wordMod)
    (ha : a ≠ .written false) (hstep : w.step a = some w') :
    w'.Accounted ∧ w'.buf.length = w.buf.length := by
  have hbuf : w.buf ≠ [] := by
    intro hnil
    have := hfit .slowConsumer
    rw [hnil] at this
    revert this
    decide
  have hs := step_eq_some hstep
  cases a with
  | enqueue bytes =>
      obtain ⟨hreason, hpending, hclosed⟩ := enqueue_event w.state bytes
      rw [hs]
      exact ⟨h.event hreason hpending hclosed, by simp⟩
  | markClose reason =>
      rw [hs]
      exact ⟨h.event (w.state.closeWith_markClose reason) (by simp [WriterEvent.accepted])
        fun _ => rfl, by simp⟩
  | poll =>
      rcases hs with ⟨hphase, rfl⟩ | ⟨hphase, rfl⟩
      · have hrun := h.running (by rw [hphase]; decide) (by rw [hphase]; decide)
        exact ⟨.waitForEvent h.reason hrun, by simp⟩
      · have hrun := h.running (by rw [hphase]; decide) (by rw [hphase]; decide)
        exact Accounted.drain h.reason hrun hfit hbuf hword
  | written ok =>
      rcases hs with ⟨hphase, -, rfl⟩ | ⟨-, rfl, -⟩ | ⟨hphase, rfl⟩
      · have hrun := h.running (by rw [hphase]; decide) (by rw [hphase]; decide)
        exact Accounted.drain h.reason hrun hfit hbuf hword
      · exact absurd rfl ha
      · exact ⟨⟨h.reason, by simp, fun _ => h.parted (Or.inl hphase)⟩, rfl⟩

/-- **The writer sends exactly what was accepted, then the right farewell.** If all writes succeed,
a writer that has exited has passed to them the bytes of all accepted enqueues, in the order of the
calls, and then the farewell for the first reason to close that was given. After that, no enqueue
is accepted. -/
theorem sent_exact {id : ConnectionId} {capacity : ℕ} {buf : Bytes}
    (hfit : ∀ reason, (farewell reason).length ≤ buf.length) (hword : buf.length < wordMod)
    {as : List Action} (has : ∀ a ∈ as, a ≠ .written false) {w : Writer}
    (hrun : run Writer.step (init id capacity buf) as = some w) (hexit : w.phase = .exited) :
    (∃ reason, firstReason w.log = some reason ∧
      w.sent = acceptedBytes w.log ++ farewell reason) ∧
    ∀ bytes, (w.state.enqueue bytes).1 ≠ .ok := by
  have hinit : (init id capacity buf).Accounted :=
    ⟨rfl, fun _ _ => ConnectionState.pending_new id capacity, by simp [init]⟩
  have hinv : w.Accounted ∧ w.buf.length = buf.length := by
    refine run_invariant_of (I := fun w : Writer => w.Accounted ∧ w.buf.length = buf.length) ?_
      ⟨hinit, rfl⟩ (meets_of_forall (fun a ha _ => has a ha) _) hrun
    rintro w a w' ⟨h, hlen⟩ ha hstep
    obtain ⟨h', hlen'⟩ := h.step (by rwa [hlen]) (by rwa [hlen]) ha hstep
    exact ⟨h', hlen'.trans hlen⟩
  obtain ⟨reason, hclose, hsent⟩ := hinv.1.parted (Or.inr hexit)
  refine ⟨⟨reason, hinv.1.reason ▸ hclose, hsent⟩, fun bytes => ?_⟩
  rw [w.state.enqueue_of_closing bytes (by simp [hclose])]
  simp

/-- Three bytes are sent; during that write two more are accepted, the next nine do not fit, and the
reader fails. The writer still sends the two, and that the consumer is slow. -/
theorem sent_exact_slow_consumer :
    let as : List Action := [.enqueue [1, 2, 3], .poll, .poll, .enqueue [4, 5],
      .enqueue (List.replicate 9 6), .markClose .protocolError, .written true, .written true,
      .written true]
    ∃ w, run Writer.step (init ⟨7⟩ 8 (List.replicate 32 0)) as = some w ∧ w.phase = .exited ∧
      w.sent = [1, 2, 3, 4, 5] ++ encode (.err (ascii "slow consumer")) ∧
      ∀ bytes, (w.state.enqueue bytes).1 ≠ .ok := by
  intro as
  have hsome : ((run Writer.step (init ⟨7⟩ 8 (List.replicate 32 0)) as).map fun w =>
      (w.phase, firstReason w.log, acceptedBytes w.log)) =
        some (.exited, some .slowConsumer, [1, 2, 3, 4, 5]) := by
    decide +kernel
  obtain ⟨w, hrun, hw⟩ := Option.map_eq_some_iff.mp hsome
  simp only [Prod.mk.injEq] at hw
  obtain ⟨hexit, hfirst, haccepted⟩ := hw
  have hfit : ∀ reason, (farewell reason).length ≤ (List.replicate 32 (0 : UInt8)).length := by
    intro reason
    cases reason <;> decide
  obtain ⟨⟨reason, hreason, hsent⟩, hclosed⟩ :=
    sent_exact hfit (by decide +kernel) (by decide) hrun hexit
  obtain rfl : reason = .slowConsumer := Option.some.inj (hreason.symm.trans hfirst)
  exact ⟨w, hrun, hexit, by rw [hsent, haccepted]; rfl, hclosed⟩

end Writer

end Aulon.Server
