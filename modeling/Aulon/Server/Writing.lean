import Aulon.Server.ViewRuns

/-!
# What writers send

The writer task of every connection of the server is the writer of `Aulon.Server.Writer`: whatever
the process does, to the writer it is a run of that model, in which the other tasks enqueue and set
close reasons and the writer is polled. So its theorems hold in every process, and a parked writer
has nothing to do.

* `served_run` — the writer of a connection is a run of the writer model.
* `View.Served.faithful` — what a writer has sent, also when writes fail.
* `logged_run` — what its log tells of the offers that were accepted.
-/

namespace Aulon.Server

open Aulon.Lib Aulon.Core Aulon.Proto

variable {B : FixedBufPool} {n inboxCapacity poolCapacity : ℕ} {es : List (Event n)}
  {s : Process B n} {i : Fin n} {r : ConnRef} {v v' : View}

/-! ## The writer model inside the server -/

/-- The permit plays no part in an enqueue. -/
lemma enqueue_notify (s : ConnectionState) (permit : Bool) (bytes : Bytes) :
    ({ s with notify := permit } : ConnectionState).enqueue bytes =
      ((s.enqueue bytes).1, { (s.enqueue bytes).2 with
        notify := if s.closeWith = none then true else permit }) := by
  cases hclose : s.closeWith with
  | none =>
      unfold ConnectionState.enqueue
      rw [if_pos rfl]
      simp only [hclose, Option.isSome_none, Bool.false_eq_true, if_false]
      split_ifs <;> rfl
  | some reason => simp [ConnectionState.enqueue, hclose]

/-- An enqueue notifies the writer unless the connection is closing. -/
lemma notifies_enqueue (s : ConnectionState) (bytes : Bytes) :
    (WriterEvent.enqueued bytes (s.enqueue bytes).1).notifies = true ↔ s.closeWith = none := by
  obtain ⟨hclose, h⟩ | ⟨hopen, -, h⟩ | ⟨s', h, hopen, -⟩ := s.enqueue_cases bytes
  · simp [h, hclose, WriterEvent.notifies]
  · simp [h, hopen, WriterEvent.notifies]
  · simp [h, hopen, WriterEvent.notifies]

/-- A call on the connection is the same call in the writer model. -/
lemma Link.writerOf_notice {l : Link} {e : WriterEvent}
    (hparked : l.writer.phase = .parked → l.writer.permit = false)
    (state state' : ConnectionState) :
    { (l.writerOf state).setState
        { state' with notify := if e.notifies then true else l.writer.permit } with
      log := l.writer.log ++ [e] } =
      Link.writerOf { l with writer := l.writer.notice e } state' := by
  unfold Writer.setState WriterTask.notice WriterTask.notifyOne
  by_cases hnotifies : e.notifies = true
  · by_cases hphase : l.writer.phase = .parked
    · have hpermit := hparked hphase
      simp [writerOf, hnotifies, hphase, hpermit]
    · simp [writerOf, hnotifies, hphase]
  · by_cases hphase : l.writer.phase = .parked
    · have hpermit := hparked hphase
      simp [writerOf, hnotifies, hphase, hpermit]
    · simp [writerOf, hnotifies, hphase]

namespace View

variable (hparked : v.link.writer.phase = .parked → v.link.writer.permit = false)
include hparked

/-- An offer is a step of the writer model. -/
lemma writer_offer {o : Offer} (ho : o.outcome = (v.state.enqueue o.bytes).1) :
    (v.link.writerOf v.state).step (.enqueue o.bytes) =
      some ((v.offer o).link.writerOf (v.offer o).state) := by
  have henqueue : (v.link.writerOf v.state).state.enqueue o.bytes = _ :=
    enqueue_notify v.state v.link.writer.permit o.bytes
  have hif : (if v.state.closeWith = none then true else v.link.writer.permit) =
      if (WriterEvent.enqueued o.bytes o.outcome).notifies then true else v.link.writer.permit := by
    rw [ho]
    simp only [notifies_enqueue]
  have hnotice := Link.writerOf_notice (e := .enqueued o.bytes o.outcome) hparked v.state
    (v.state.enqueue o.bytes).2
  rw [hif, ← ho] at henqueue
  unfold Writer.step
  dsimp only
  rw [henqueue]
  exact congrArg some hnotice

/-- A mark is a step of the writer model. -/
lemma writer_mark (reason : CloseReason) :
    (v.link.writerOf v.state).step (.markClose reason) =
      some ((v.mark reason).link.writerOf (v.mark reason).state) := by
  have hnotice := Link.writerOf_notice (e := .marked reason) hparked v.state
    (v.state.markClose reason)
  exact congrArg some hnotice

end View

/-- The writer of a connection is a run of the writer model. -/
def View.Served (v : View) : Prop := ∃ id buf as, buf.length = defaultBufferSize ∧
  run Writer.step (.init id defaultOutboundCapacity buf) as = some (v.link.writerOf v.state)

namespace View.Served

/-- A writer with something to do is not parked. -/
lemma alert (h : v.Served) : (v.link.writerOf v.state).Alert := by
  obtain ⟨id, buf, as, hbuf, hrun⟩ := h
  refine run_invariant (fun w a w' h hstep => Writer.Alert.step h hstep) ?_ hrun
  refine ⟨?_, by simp [Writer.init], fun _ _ => ⟨ConnectionState.pending_new id _, rfl⟩⟩
  rintro rfl
  cases hbuf

/-- A writer that is parked has no permit. -/
lemma parked (h : v.Served) (hphase : v.link.writer.phase = .parked) :
    v.link.writer.permit = false :=
  (h.alert.parked hphase).1

/-- A step of the writer model extends its run. -/
lemma step (h : v.Served) {a : Writer.Action}
    (hstep : (v.link.writerOf v.state).step a = some (v'.link.writerOf v'.state)) :
    v'.Served := by
  obtain ⟨id, buf, as, hbuf, hrun⟩ := h
  exact ⟨id, buf, as ++ [a], hbuf,
    run_append_eq_some.mpr ⟨_, hrun, run_cons_eq_some.mpr ⟨_, hstep, rfl⟩⟩⟩

/-- So does an offer. -/
lemma offer (h : v.Served) {o : Offer} (ho : o.outcome = (v.state.enqueue o.bytes).1) :
    (v.offer o).Served :=
  h.step (View.writer_offer h.parked ho)

/-- So does a mark. -/
lemma mark (h : v.Served) (reason : CloseReason) : (v.mark reason).Served :=
  h.step (View.writer_mark h.parked reason)

/-- So does the end of the reader. -/
lemma leave (h : v.Served) : v.leave.Served := h.mark .peerClosed

/-- So does a move of the connection. -/
lemma moves (h : v.Served) {a : Agent} (hmoves : v.Moves a v') : v'.Served := by
  cases hmoves with
  | send | close | start | read | frame | round | check => exact h
  | eof | roundClosed | checkClosed => exact h.leave
  | overflow | malformed => exact (h.mark .protocolError).mark .peerClosed
  | write failed a w ha _ hstep =>
      exact View.Served.step h (show _ = some (Link.writerOf (v.wrote w).link _) from hstep)

end View.Served

/-- **Each connection has the writer of the model.** In every state of every run, the writer of a
connection and the state it shares are reached in a run of the writer model, from a buffer of the
pool's size. -/
theorem served_run (hrun : run Process.step (.init n inboxCapacity poolCapacity) es = some s)
    (hv : s.view i r = some v) : v.Served :=
  Process.view_run (fun id _ writeBuf _ hwrite => ⟨id, writeBuf.bytes, [], hwrite, rfl⟩)
    (fun _ _ _ h hmoves => h.moves hmoves) (fun _ _ h ho => h.offer ho) hrun hv

/-! ## What is sent -/

namespace Writer

/-- The writer has sent what was accepted, and the farewell if it has come to it; or a write has
failed, and it has sent the start of it. -/
def Faithful (w : Writer) : Prop := w.Accounted ∨ w.phase = .exited ∧
  w.state.closeWith = firstReason w.log ∧ w.sent ++ w.state.pending = acceptedBytes w.log

/-- A writer that gave up sends nothing more, and what is accepted later stays in the queue. -/
lemma Faithful.event {w : Writer} (hphase : w.phase = .exited)
    (hreason : w.state.closeWith = firstReason w.log)
    (hsent : w.sent ++ w.state.pending = acceptedBytes w.log) {state : ConnectionState}
    {e : WriterEvent} (hreason' : state.closeWith = w.state.closeWith.orElse fun _ => e.reason)
    (hpending : state.pending = w.state.pending ++ e.accepted) :
    ({ w.setState state with log := w.log ++ [e] } : Writer).Faithful := by
  have hset : w.setState state = { w with state := state } := by
    rcases w.setState_cases state with ⟨-, h⟩ | ⟨hparked, -⟩
    · exact h
    · rw [hphase] at hparked
      cases hparked
  rw [hset]
  refine Or.inr ⟨hphase, ?_, ?_⟩
  · rw [firstReason_append, ← hreason]
    exact hreason'
  · show w.sent ++ state.pending = _
    rw [hpending, acceptedBytes_append, ← hsent, List.append_assoc]

/-- A step keeps the writer faithful, a failed write included. -/
lemma Faithful.step {w w' : Writer} {a : Action} (h : w.Faithful)
    (hfit : ∀ reason, (farewell reason).length ≤ w.buf.length) (hword : w.buf.length < wordMod)
    (hstep : w.step a = some w') : w'.Faithful := by
  have hs := step_eq_some hstep
  rcases h with h | ⟨hphase, hreason, hsent⟩
  · by_cases ha : a = .written false
    · subst ha
      rcases hs with ⟨-, hok, -⟩ | ⟨hphase, -, rfl⟩ | ⟨hphase, rfl⟩
      · cases hok
      · exact Or.inr ⟨rfl, h.reason, h.running (by simp [hphase]) (by simp [hphase])⟩
      · exact Or.inl ⟨h.reason, by simp, fun _ => h.parted (Or.inl hphase)⟩
    · exact Or.inl (h.step hfit hword ha hstep).1
  · cases a with
    | enqueue bytes =>
        obtain ⟨hclose, hpending, -⟩ := enqueue_event w.state bytes
        rw [hs]
        exact .event hphase hreason hsent hclose hpending
    | markClose reason =>
        rw [hs]
        exact .event hphase hreason hsent (w.state.closeWith_markClose reason)
          (by simp [WriterEvent.accepted])
    | poll => rcases hs with ⟨hp, -⟩ | ⟨hp, -⟩ <;> rw [hphase] at hp <;> cases hp
    | written ok => rcases hs with ⟨hp, -⟩ | ⟨hp, -⟩ | ⟨hp, -⟩ <;> rw [hphase] at hp <;> cases hp

/-- The bytes a writer has sent begin those it is to send in all. -/
lemma Faithful.isPrefix {w : Writer} (h : w.Faithful) :
    w.sent <+: acceptedBytes w.log ++ w.state.closeWith.elim [] farewell := by
  rcases h with h | ⟨-, -, hsent⟩
  · by_cases hend : w.phase = .parting ∨ w.phase = .exited
    · obtain ⟨reason, hclose, hsent⟩ := h.parted hend
      rw [hsent, hclose]
      exact List.prefix_refl _
    · rw [not_or] at hend
      rw [← h.running hend.1 hend.2, List.append_assoc]
      exact List.prefix_append _ _
  · rw [← hsent, List.append_assoc]
    exact List.prefix_append _ _

/-- A check for a reason to close leaves the log. -/
lemma log_checkClose (w : Writer) : w.checkClose.log = w.log := by
  rcases w.checkClose_cases with ⟨-, h⟩ | ⟨-, -, -, h, -⟩
  · rw [h, log_waitForEvent]
  · exact h

/-- A drain leaves the log. -/
lemma log_drain (w : Writer) : w.drain.log = w.log := by
  rcases w.drain_cases with ⟨-, -, -, -, h, -⟩ | ⟨w₁, h, -, hlog, -⟩
  · exact h
  · rw [h, log_checkClose, hlog]

/-- The writer itself adds nothing to the log. -/
lemma log_step {w w' : Writer} {a : Action} (ha : a = .poll ∨ ∃ ok, a = .written ok)
    (h : w.step a = some w') : w'.log = w.log := by
  have hs := step_eq_some h
  rcases ha with rfl | ⟨ok, rfl⟩
  · rcases hs with ⟨-, rfl⟩ | ⟨-, rfl⟩
    · exact w.log_waitForEvent
    · exact w.log_drain
  · rcases hs with ⟨-, -, rfl⟩ | ⟨-, -, rfl⟩ | ⟨-, rfl⟩
    · exact w.log_drain
    · rfl
    · rfl

end Writer

/-- A farewell fits the buffer. -/
lemma length_farewell_le (reason : CloseReason) : (farewell reason).length ≤ defaultBufferSize := by
  cases reason <;> decide

/-- Every writer is faithful, whichever writes fail. -/
lemma View.Served.faithful (h : v.Served) : (v.link.writerOf v.state).Faithful := by
  obtain ⟨id, buf, as, hbuf, hrun⟩ := h
  have hinit : (Writer.init id defaultOutboundCapacity buf).Accounted :=
    ⟨rfl, fun _ _ => ConnectionState.pending_new id defaultOutboundCapacity, by simp [Writer.init]⟩
  refine (run_invariant (I := fun w : Writer => w.Faithful ∧ w.buf.length = defaultBufferSize) ?_
    ⟨Or.inl hinit, hbuf⟩ hrun).1
  rintro w a w' ⟨hw, hlen⟩ hstep
  refine ⟨hw.step ?_ ?_ hstep, (Writer.length_buf_step hstep).trans hlen⟩
  · rw [hlen]
    exact length_farewell_le
  · rw [hlen]
    decide +kernel

/-- The bytes of the frames that were accepted. -/
def View.acceptedOffers (v : View) : List Offer := v.offers.filter (·.outcome = .ok)

/-- The log of the writer tells of the offers that were accepted. -/
def View.Logged (v : View) : Prop :=
  Writer.acceptedBytes v.link.writer.log = (v.acceptedOffers.map (·.bytes)).flatten

namespace View.Logged

/-- A call on the connection is appended to the log. -/
lemma log_notice (t : WriterTask) (e : WriterEvent) : (t.notice e).log = t.log ++ [e] := by
  unfold WriterTask.notice WriterTask.notifyOne
  dsimp only
  split_ifs <;> rfl

/-- An offer is logged. -/
lemma offer (h : v.Logged) (o : Offer) : (v.offer o).Logged := by
  have hlog : (v.offer o).link.writer.log = v.link.writer.log ++ [.enqueued o.bytes o.outcome] :=
    log_notice v.link.writer _
  have hoffers : (v.offer o).offers = v.offers ++ [o] := rfl
  unfold View.Logged View.acceptedOffers at h ⊢
  rw [hlog, Writer.acceptedBytes_append, h, hoffers, List.filter_append, List.map_append,
    List.flatten_append]
  cases houtcome : o.outcome <;> simp [WriterEvent.accepted, houtcome]

/-- A mark is logged. -/
lemma mark (h : v.Logged) (reason : CloseReason) : (v.mark reason).Logged := by
  have hlog : (v.mark reason).link.writer.log = v.link.writer.log ++ [.marked reason] :=
    log_notice v.link.writer _
  unfold View.Logged at h ⊢
  rw [hlog, Writer.acceptedBytes_append, h]
  exact List.append_nil _

/-- A move of the connection keeps the log right. -/
lemma moves (h : v.Logged) {a : Agent} (hmoves : v.Moves a v') : v'.Logged := by
  cases hmoves with
  | send | close | start | read | frame | round | check => exact h
  | eof | roundClosed | checkClosed => exact h.mark .peerClosed
  | overflow | malformed => exact (h.mark .protocolError).mark .peerClosed
  | write failed a w ha _ hstep =>
      have hlog : w.log = v.link.writer.log := Writer.log_step ha hstep
      show Writer.acceptedBytes w.log = _
      rw [hlog]
      exact h

end View.Logged

/-- The log is right after every run. -/
lemma logged_run (hrun : run Process.step (.init n inboxCapacity poolCapacity) es = some s)
    (hv : s.view i r = some v) : v.Logged :=
  Process.view_run (fun _ _ _ _ _ => rfl) (fun _ _ _ h hmoves => h.moves hmoves)
    (fun _ o h _ => h.offer o) hrun hv

end Aulon.Server
