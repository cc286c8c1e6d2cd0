import Aulon.Server.Book
import Aulon.Server.Rest

/-!
# Why a connection closes

A connection closes for one of three reasons, and the first that is given stays. While no read and
no write on the connection fails, each reason says something that is true: the stream of the client
does not parse or holds a frame that is too long, or the client has closed its side, or a frame did
not fit into the outbound buffer. The last one need not be the client's doing. Room in the buffer is
measured from where it was last emptied, so a client that reads all the time, but never fast enough
to empty the buffer, loses its connection once the buffer's size has gone through it.

* `View.History`, `View.Refused` — the calls on an outbound buffer, and the one it refuses.
* `View.Because` — what each of the reasons says of a connection.
* `View.Accounted`, `View.Caused` — what its moves keep.
* `closed_for_cause` — a connection closes only for cause.
* `stays_open` — a client that gives no cause, and to which little is sent, stays connected.
* `Process.stepOpen`, `run_of_stepOpen` — runs in which little is sent can be computed without the
  outbound buffers.
-/

namespace Aulon.Server

open Aulon.Lib Aulon.Core Aulon.Proto

variable {B : FixedBufPool} {n inboxCapacity poolCapacity : ℕ} {es : List (Event n)}
  {s s' : Process B n} {i : Fin n} {r : ConnRef} {v v' : View} {a : Agent} {reason : CloseReason}

/-- Has a read or a write failed? -/
def Agent.failed : Agent → Bool
  | .reader failed | .writer failed => failed
  | .client | .router => false

/-- An event of a connection fails if its agent does. -/
lemma Event.failed_agent {e : Event n} {x : Fin n × ConnRef} (h : e.conn = some x) :
    e.agent.failed = e.fault := by
  cases e with
  | connect | push | drainRead | drainPop | drainFail => cases h
  | written i r ok => cases ok <;> rfl
  | _ => rfl

/-! ## What the writer owes -/

/-- As long as no write fails, the writer has sent what was accepted, and the farewell if it has
come to it. -/
structure View.Accounted (v : View) : Prop where
  served : v.Served
  buf : v.link.writer.buf.bytes.length = defaultBufferSize
  writer : (v.link.writerOf v.state).Accounted

namespace View.Accounted

/-- A step of the writer that is no failed write keeps the accounts. -/
lemma step (h : v.Accounted) {a : Writer.Action} (ha : a ≠ .written false)
    (hstep : (v.link.writerOf v.state).step a = some (v'.link.writerOf v'.state)) :
    v'.Accounted := by
  have hbuf : (v.link.writerOf v.state).buf.length = defaultBufferSize := h.buf
  obtain ⟨hwriter, hlen⟩ := h.writer.step (by rw [hbuf]; exact length_farewell_le)
    (by rw [hbuf]; decide +kernel) ha hstep
  exact ⟨h.served.step hstep, hlen.trans h.buf, hwriter⟩

/-- An offer keeps them. -/
lemma offer (h : v.Accounted) {o : Offer} (ho : o.outcome = (v.state.enqueue o.bytes).1) :
    (v.offer o).Accounted :=
  h.step (by simp) (View.writer_offer h.served.parked ho)

/-- A mark keeps them. -/
lemma mark (h : v.Accounted) (reason : CloseReason) : (v.mark reason).Accounted :=
  h.step (by simp) (View.writer_mark h.served.parked reason)

/-- The end of the reader keeps them. -/
lemma leave (h : v.Accounted) : v.leave.Accounted := by
  have hmark := h.mark .peerClosed
  exact ⟨hmark.served, hmark.buf, hmark.writer⟩

/-- A move that does not fail keeps them. -/
lemma moves (h : v.Accounted) (hfailed : a.failed = false) (hmoves : v.Moves a v') :
    v'.Accounted := by
  cases hmoves with
  | send | close | start | read | frame | round | check => exact ⟨h.served, h.buf, h.writer⟩
  | eof | roundClosed | checkClosed => exact h.leave
  | overflow | malformed =>
      have hmark := (h.mark .protocolError).leave
      exact ⟨hmark.served, hmark.buf, hmark.writer⟩
  | write failed a w ha hok hstep =>
      exact h.step (hok hfailed) (show _ = some (Link.writerOf (v.wrote w).link _) from hstep)

end View.Accounted

/-! ## The outbound buffer -/

/-- Calls on the outbound buffer of a connection that have led to its state; what they enqueue is
what was offered. -/
structure View.History (v : View) (id : ConnectionId) (calls : List ConnectionState.Call) :
    Prop where
  state : v.state = .after id defaultOutboundCapacity calls
  enqueued : calls.filterMap ConnectionState.Call.enqueued = v.offers.map (·.bytes)

/-- The outbound buffer has refused a frame: it had taken all that was offered before, and the bytes
drained since it was last emptied, those pending and those of the frame exceed its capacity. -/
structure View.Refused (v : View) (before : List Offer) (o : Offer) (id : ConnectionId)
    (calls : List ConnectionState.Call) : Prop where
  offers : before ++ [o] <+: v.offers
  accepted : ∀ x ∈ before, x.outcome = .ok
  refused : o.outcome = .slowConsumerClosed
  enqueued : calls.filterMap ConnectionState.Call.enqueued = before.map (·.bytes)
  history : ∃ later, v.History id (calls ++ .enqueue o.bytes :: later)
  full : defaultOutboundCapacity <
    ConnectionState.drainedSinceEmpty (.new id defaultOutboundCapacity) 0 calls +
      (ConnectionState.after id defaultOutboundCapacity calls).pendingBytes + o.bytes.length

/-- A connection's own moves offer it nothing. -/
lemma View.Moves.offers (hmoves : v.Moves a v') : v'.offers = v.offers := by
  cases hmoves <;> rfl

/-- A move drains the outbound buffer, or marks the connection, or leaves it alone. -/
lemma View.Moves.calls (hmoves : v.Moves a v') : ∃ calls : List ConnectionState.Call,
    v'.state = calls.foldl ConnectionState.Call.apply v.state ∧
      calls.filterMap ConnectionState.Call.enqueued = [] := by
  cases hmoves with
  | send | close | start | read | frame | round | check => exact ⟨[], rfl, rfl⟩
  | eof | roundClosed | checkClosed => exact ⟨[.markClose .peerClosed], rfl, rfl⟩
  | overflow | malformed =>
      exact ⟨[.markClose .protocolError, .markClose .peerClosed], rfl, rfl⟩
  | write failed a w ha hok hstep =>
      have hstate : (v.wrote w).state = _ := Link.state_writerOf ha hstep
      split_ifs at hstate
      · exact ⟨[.drainInto _], hstate, rfl⟩
      · exact ⟨[], hstate, rfl⟩

namespace View.History

variable {id : ConnectionId} {calls : List ConnectionState.Call}

/-- A new connection has no history. -/
lemma new (id : ConnectionId) (readBuf writeBuf : FixedBuf) :
    (View.new id readBuf writeBuf).History id [] := ⟨rfl, rfl⟩

/-- The calls of a move follow those made before. -/
lemma moves (h : v.History id calls) (hmoves : v.Moves a v') :
    ∃ more, v'.History id (calls ++ more) := by
  obtain ⟨more, hstate, hnone⟩ := hmoves.calls
  refine ⟨more, ?_, ?_⟩
  · rw [hstate, h.state, ConnectionState.after, ConnectionState.after, List.foldl_append]
  · rw [List.filterMap_append, hnone, List.append_nil, hmoves.offers, h.enqueued]

/-- An offer is one more call. -/
lemma offer (h : v.History id calls) (o : Offer) :
    (v.offer o).History id (calls ++ [.enqueue o.bytes]) := by
  constructor
  · rw [ConnectionState.after_append_singleton, ← h.state]
    rfl
  · show _ = (v.offers ++ [o]).map _
    rw [List.filterMap_append, h.enqueued, List.map_append]
    rfl

end View.History

namespace View.Refused

variable {before : List Offer} {o : Offer} {id : ConnectionId} {calls : List ConnectionState.Call}

/-- A refusal stays one when the connection moves. -/
lemma moves (h : v.Refused before o id calls) (hmoves : v.Moves a v') :
    v'.Refused before o id calls := by
  obtain ⟨later, hlater⟩ := h.history
  obtain ⟨more, hmore⟩ := hlater.moves hmoves
  rw [List.append_assoc] at hmore
  exact ⟨hmoves.offers ▸ h.offers, h.accepted, h.refused, h.enqueued, ⟨_, hmore⟩, h.full⟩

/-- A refusal stays one when more is offered. -/
lemma offer (h : v.Refused before o id calls) (x : Offer) :
    (v.offer x).Refused before o id calls := by
  obtain ⟨later, hlater⟩ := h.history
  have hmore := hlater.offer x
  rw [List.append_assoc] at hmore
  exact ⟨h.offers.trans (List.prefix_append _ _), h.accepted, h.refused, h.enqueued, ⟨_, hmore⟩,
    h.full⟩

/-- All the more do all the bytes ever offered exceed the capacity. -/
lemma lt_sum (h : v.Refused before o id calls) :
    defaultOutboundCapacity < (v.offers.map (·.bytes.length)).sum := by
  have hfull := h.full
  have hdrained : ConnectionState.drainedSinceEmpty (.new id defaultOutboundCapacity) 0 calls =
      (ConnectionState.after id defaultOutboundCapacity calls).outboundHead :=
    ConnectionState.drainedSinceEmpty_eq (.new id defaultOutboundCapacity) calls
  have hcursors := (ConnectionState.after id defaultOutboundCapacity calls).head_le_tail
  have htail := ConnectionState.outboundTail_after_le id defaultOutboundCapacity calls
  rw [h.enqueued, List.map_map] at htail
  rw [hdrained, ConnectionState.pendingBytes] at hfull
  obtain ⟨later, hlater⟩ := h.offers
  rw [← hlater]
  simp only [List.map_append, List.sum_append, List.map_singleton, List.sum_singleton]
  simp only [Function.comp_def] at htail
  omega

end View.Refused

/-! ## Causes -/

/-- What a close reason says of a connection: its outbound buffer has refused a frame; or the reader
has handled the frames before an error in the stream, or before one that is too long for the
accumulator, to which a read adds up to the size of a buffer; or the client has closed its side,
and all that it has sent was handled. -/
def View.Because (v : View) : CloseReason → Prop
  | .slowConsumer => ∃ before o id calls, v.Refused before o id calls
  | .protocolError => v.link.reader.phase = .finished ∧
      ((parseAll parseFrame v.link.socket.stream).error ≠ none ∧
          v.frames = v.link.socket.requests ∨
        ∃ part, part <+: v.link.socket.stream ∧ (parseAll parseFrame part).error = none ∧
          v.frames = (parseAll parseFrame part).frames.map (·.1) ∧
          maxFrameSize < (parseAll parseFrame part).rest.length + defaultBufferSize)
  | .peerClosed => v.link.reader.phase = .finished ∧ v.link.socket.closed = true ∧
      v.frames = v.link.socket.requests

/-- What can still happen to a connection whose reader has returned. -/
lemma View.Moves.of_finished (hmoves : v.Moves a v') (h : v.link.reader.phase = .finished) :
    v'.link.reader.phase = .finished ∧ v'.frames = v.frames ∧
      v.link.socket.stream <+: v'.link.socket.stream ∧
      (v.link.socket.closed = true →
        v'.link.socket.closed = true ∧ v'.link.socket.stream = v.link.socket.stream) := by
  cases hmoves with
  | send bytes hopen =>
      refine ⟨h, rfl, List.prefix_append _ _, fun hclosed => ?_⟩
      rw [hopen] at hclosed
      cases hclosed
  | close => exact ⟨h, rfl, List.prefix_refl _, fun _ => ⟨rfl, rfl⟩⟩
  | write => exact ⟨h, rfl, List.prefix_refl _, fun hclosed => ⟨hclosed, rfl⟩⟩
  | start hphase | read k hphase | overflow k hphase | eof failed hphase | frame k f c hphase
  | malformed k e hphase | round k hphase | roundClosed k hphase | check k hphase
  | checkClosed k hphase =>
      rw [h] at hphase
      cases hphase

namespace View.Because

/-- A reason stays true when the connection moves. -/
lemma moves (h : v.Because reason) (hmoves : v.Moves a v') : v'.Because reason := by
  cases reason with
  | slowConsumer =>
      obtain ⟨before, o, id, calls, hrefused⟩ := h
      exact ⟨before, o, id, calls, hrefused.moves hmoves⟩
  | protocolError =>
      obtain ⟨hfinished, hcause⟩ := h
      obtain ⟨hfinished', hframes, hstream, -⟩ := hmoves.of_finished hfinished
      refine ⟨hfinished', ?_⟩
      rw [hframes]
      rcases hcause with ⟨herror, hall⟩ | ⟨part, hpart, hrest⟩
      · -- after an error in the stream, more bytes make no difference
        obtain ⟨more, hmore⟩ := hstream
        obtain ⟨x, hx⟩ := Option.ne_none_iff_exists'.mp herror
        obtain ⟨hsame, hx'⟩ := parseAll_append_of_error incremental_parseFrame _ more hx
        rw [hmore] at hsame hx'
        refine Or.inl ⟨by simp [hx'], ?_⟩
        rw [hall, Socket.requests, Socket.requests, hsame]
      · exact Or.inr ⟨part, hpart.trans hstream, hrest⟩
  | peerClosed =>
      obtain ⟨hfinished, hclosed, hall⟩ := h
      obtain ⟨hfinished', hframes, -, hkeeps⟩ := hmoves.of_finished hfinished
      obtain ⟨hclosed', hstream⟩ := hkeeps hclosed
      refine ⟨hfinished', hclosed', ?_⟩
      rw [hframes, hall, Socket.requests, Socket.requests, hstream]

/-- A reason stays true when more is offered. -/
lemma offer (h : v.Because reason) (o : Offer) : (v.offer o).Because reason := by
  cases reason with
  | slowConsumer =>
      obtain ⟨before, x, id, calls, hrefused⟩ := h
      exact ⟨before, x, id, calls, hrefused.offer o⟩
  | protocolError => exact h
  | peerClosed => exact h

end View.Because

/-- A buffer that can hold all that was ever offered refuses nothing. -/
lemma View.not_slow (hroom : (v.offers.map (·.bytes.length)).sum ≤ defaultOutboundCapacity) :
    ¬ v.Because .slowConsumer := by
  rintro ⟨before, o, id, calls, hrefused⟩
  exact absurd hroom (not_le.mpr hrefused.lt_sum)

/-- Whatever reason to close a connection has is true of it, and what else its moves keep. -/
structure View.Caused (v : View) : Prop where
  reads : v.Reads
  linked : v.Linked
  accounted : v.Accounted
  history : ∃ id calls, v.History id calls
  accepted : v.state.closeWith = none → ∀ o ∈ v.offers, o.outcome = .ok
  cause : ∀ reason, v.state.closeWith = some reason → v.Because reason

namespace View

/-- What was received when nothing waits to be read. -/
lemma received_eq (v : View) (hinbound : v.link.socket.inbound = []) :
    v.received = v.link.socket.stream := by
  have hparts := List.take_append_drop v.link.socket.taken v.link.socket.stream
  rwa [show v.link.socket.stream.drop v.link.socket.taken = [] from hinbound,
    List.append_nil] at hparts

/-- A mark gives its reason to an open connection. -/
lemma closeWith_mark (hopen : v.state.closeWith = none) (reason : CloseReason) :
    (v.mark reason).state.closeWith = some reason := by
  show (v.state.markClose reason).closeWith = _
  simp [hopen]

/-- A reader that returns leaves a reason to an open connection. -/
lemma closeWith_leave (hopen : v.state.closeWith = none) :
    v.leave.state.closeWith = some .peerClosed :=
  closeWith_mark hopen .peerClosed

/-- The first reason stays. -/
lemma closeWith_leave_mark (hopen : v.state.closeWith = none) (reason : CloseReason) :
    (v.mark reason).leave.state.closeWith = some reason := by
  show ((v.mark reason).state.markClose .peerClosed).closeWith = _
  rw [ConnectionState.closeWith_markClose, closeWith_mark hopen]
  rfl

namespace Caused

variable (h : v.Caused)
include h

/-- A reader that meets the end of the stream has handled all that was sent. -/
lemma eof (hopen : v.state.closeWith = none) (hphase : v.link.reader.phase = .waiting)
    (hend : v.link.socket.shut = true ∨
      v.link.socket.closed = true ∧ v.link.socket.inbound = []) : v.leave.Because .peerClosed := by
  rcases hend with hshut | ⟨hclosed, hinbound⟩
  · -- the writer has returned, so there was a reason before
    obtain ⟨reason, hreason, -⟩ := h.accounted.writer.parted (Or.inr (h.linked.shut.mp hshut))
    have hreason : v.state.closeWith = some reason := hreason
    rw [hopen] at hreason
    cases hreason
  · obtain ⟨fs, hfs, hparse⟩ := h.reads.parseAll_received hphase
    refine ⟨rfl, hclosed, ?_⟩
    show v.frames = (parseAll parseFrame v.link.socket.stream).frames.map (·.1)
    rw [← v.received_eq hinbound, hparse, hfs]

/-- A reader that meets a malformed frame has handled the frames before it. -/
lemma malformed {k : ℕ} {e : ParseError} (hphase : v.link.reader.phase = .parsing k)
    (hparse : parseFrame (v.link.reader.accum.drop k) = .err e) :
    (v.mark .protocolError).leave.Because .protocolError := by
  obtain ⟨fs, hfs, hpartway⟩ := h.reads.partway (by simp [hphase])
  rw [hphase] at hpartway
  have hall : parseAll parseFrame v.received = ⟨fs, v.link.reader.accum.drop k, some e⟩ := by
    rw [hpartway, ReaderPhase.consumed, parseAll_of_err hparse, List.append_nil]
  obtain ⟨hsame, herror⟩ := parseAll_append_of_error incremental_parseFrame v.received
    v.link.socket.inbound (by rw [hall])
  rw [View.received, Socket.inbound, List.take_append_drop] at hsame herror
  refine ⟨rfl, Or.inl ⟨?_, ?_⟩⟩
  · show (parseAll parseFrame v.link.socket.stream).error ≠ none
    simp [herror]
  · show v.frames = (parseAll parseFrame v.link.socket.stream).frames.map (·.1)
    rw [hsame, ← View.received, hall, hfs]

/-- A reader whose accumulator overflows has handled the frames before the one that is too long. -/
lemma overflow {k : ℕ} (hphase : v.link.reader.phase = .waiting)
    (hbuf : k ≤ v.link.reader.buf.bytes.length) (hk : k ≤ v.link.socket.inbound.length)
    (hsize : maxFrameSize < (v.link.afterRead k).reader.accum.length) :
    ((v.mark .protocolError).mapLink fun l => l.afterRead k).leave.Because .protocolError := by
  obtain ⟨fs, hfs, hparse⟩ := h.reads.parseAll_received hphase
  rw [(received_afterRead (v := v) hk).2, List.length_append, List.length_take] at hsize
  rw [h.linked.buf] at hbuf
  refine ⟨rfl, Or.inr ⟨v.received, List.take_prefix _ _, by rw [hparse], ?_, ?_⟩⟩
  · show v.frames = _
    rw [hparse, hfs]
  · rw [hparse]
    dsimp only
    omega

/-- A move that is no failure keeps all this. -/
lemma moves (hfailed : a.failed = false) (hmoves : v.Moves a v') : v'.Caused := by
  obtain ⟨id, calls, hhistory⟩ := h.history
  obtain ⟨more, hmore⟩ := hhistory.moves hmoves
  refine ⟨h.reads.moves hmoves, h.linked.moves hmoves, h.accounted.moves hfailed hmoves,
    ⟨id, _, hmore⟩, fun hopen => ?_, fun reason hreason => ?_⟩
  · rw [hmoves.offers]
    refine h.accepted ?_
    by_contra hclosing
    exact View.closing_moves hclosing hmoves hopen
  cases hopen : v.state.closeWith with
  | some first =>
      rw [closeWith_moves hopen hmoves] at hreason
      obtain rfl := Option.some.inj hreason
      exact (h.cause first hopen).moves hmoves
  | none =>
      cases hmoves with
      | send | close | start | read | frame | round | check =>
          exact absurd (hopen.symm.trans hreason) (by simp)
      | roundClosed k hphase hparse hclosed | checkClosed k hphase hclosed =>
          exact absurd hopen hclosed
      | eof failed hphase hend =>
          rw [closeWith_leave hopen] at hreason
          obtain rfl := Option.some.inj hreason
          exact h.eof hopen hphase (hend hfailed)
      | malformed k e hphase hparse =>
          rw [closeWith_leave_mark hopen] at hreason
          obtain rfl := Option.some.inj hreason
          exact h.malformed hphase hparse
      | overflow k hphase hpos hbuf hk hsize =>
          have hmark := closeWith_leave_mark hopen .protocolError
          obtain rfl := Option.some.inj (hmark.symm.trans hreason)
          exact h.overflow hphase hbuf hk hsize
      | write failed a w ha hok hstep =>
          have hclose : (v.wrote w).state.closeWith = _ := Link.closeWith_writerOf ha hstep
          rw [hclose, hopen] at hreason
          cases hreason

/-- The outbound buffer refuses a frame when there is no room after its tail. -/
lemma refused {o : Offer} (hopen : v.state.closeWith = none)
    (hfull : v.state.outboundData.length < v.state.outboundTail + o.bytes.length)
    (ho : o.outcome = .slowConsumerClosed) : (v.offer o).Because .slowConsumer := by
  obtain ⟨id, calls, hhistory⟩ := h.history
  refine ⟨v.offers, o, id, calls, List.prefix_refl _, h.accepted hopen, ho, hhistory.enqueued,
    ⟨[], hhistory.offer o⟩, ?_⟩
  have hcapacity := ConnectionState.outboundCapacity_after id defaultOutboundCapacity calls
  have hdrained : ConnectionState.drainedSinceEmpty (.new id defaultOutboundCapacity) 0 calls =
      (ConnectionState.after id defaultOutboundCapacity calls).outboundHead :=
    ConnectionState.drainedSinceEmpty_eq (.new id defaultOutboundCapacity) calls
  rw [hdrained, ConnectionState.pendingBytes]
  rw [← hhistory.state] at hcapacity ⊢
  have hcursors := v.state.head_le_tail
  unfold ConnectionState.outboundCapacity at hcapacity
  omega

/-- An offer keeps all this. -/
lemma offer {o : Offer} (ho : o.outcome = (v.state.enqueue o.bytes).1) : (v.offer o).Caused := by
  obtain ⟨id, calls, hhistory⟩ := h.history
  have hstate : (v.offer o).state = (v.state.enqueue o.bytes).2 := rfl
  have hoffers : (v.offer o).offers = v.offers ++ [o] := rfl
  refine ⟨h.reads.offer o, h.linked.offer o, h.accounted.offer ho, ⟨id, _, hhistory.offer o⟩,
    ?_, ?_⟩
  · rw [hstate, hoffers]
    intro hopen' x hx
    obtain ⟨hclosing, henqueue⟩ | ⟨-, -, henqueue⟩ | ⟨state, henqueue, hopen, -⟩ :=
      v.state.enqueue_cases o.bytes
    · rw [henqueue] at hopen'
      exact absurd hopen' hclosing
    · rw [henqueue] at hopen'
      cases hopen'
    · rcases List.mem_append.mp hx with hx | hx
      · exact h.accepted hopen x hx
      · rw [List.mem_singleton.mp hx, ho, henqueue]
  · intro reason hreason
    rw [hstate] at hreason
    obtain ⟨-, henqueue⟩ | ⟨hopen, hfull, henqueue⟩ |
      ⟨state, henqueue, -, -, -, -, -, -, -, hopen⟩ := v.state.enqueue_cases o.bytes
    · rw [henqueue] at hreason
      exact (h.cause reason hreason).offer o
    · rw [henqueue] at hreason ho
      obtain rfl := Option.some.inj hreason
      exact h.refused hopen hfull ho
    · rw [henqueue, hopen] at hreason
      cases hreason

end Caused

end View

/-- The reason to close is true of the connection after any run without faults of it. -/
lemma caused_run (hrun : run Process.step (.init n inboxCapacity poolCapacity) es = some s)
    (hsound : ∀ e ∈ es, e.conn = some (i, r) → e.fault = false) (hv : s.view i r = some v) :
    v.Caused := by
  refine Process.view_run_of (P := fun a => a.failed = false) ?_ ?_
    (fun _ _ _ hfailed h hmoves => h.moves hfailed hmoves) (fun _ _ h ho => h.offer ho) hrun hv
  · intro e he hconn
    rw [Event.failed_agent hconn, hsound e he hconn]
  · intro id readBuf writeBuf hread hwrite
    have hwriter : ((View.new id readBuf writeBuf).link.writerOf
        (View.new id readBuf writeBuf).state).Accounted :=
      ⟨rfl, fun _ _ => ConnectionState.pending_new id defaultOutboundCapacity,
        by simp [View.new, Link.new, Link.writerOf]⟩
    refine ⟨View.reads_new id readBuf writeBuf, .new id hread writeBuf,
      ⟨⟨id, writeBuf.bytes, [], hwrite, rfl⟩, hwrite, hwriter⟩, ⟨id, [], .new id readBuf writeBuf⟩,
      fun _ o ho => ?_, fun _ hreason => ?_⟩
    · cases ho
    · cases hreason

/-- As long as all that was ever offered to a connection fits into its outbound buffer, nothing but
the end of its reader closes it. -/
lemma open_of_room
    (hrun : run Process.step (.init n inboxCapacity poolCapacity : Process B n) es = some s)
    (hsound : ∀ e ∈ es, e.conn = some (i, r) → e.fault = false) (hv : s.view i r = some v)
    (hphase : v.link.reader.phase ≠ .finished)
    (hroom : (v.offers.map (·.bytes.length)).sum ≤ defaultOutboundCapacity) :
    v.state.closeWith = none := by
  by_contra hclosing
  obtain ⟨reason, hreason⟩ := Option.ne_none_iff_exists'.mp hclosing
  have hcause := (caused_run hrun hsound hv).cause reason hreason
  cases reason with
  | slowConsumer => exact View.not_slow hroom hcause
  | protocolError => exact hphase hcause.1
  | peerClosed => exact hphase hcause.1

namespace Process

/-- What an event makes its shard do, if there is no reason to close a connection: a loop that looks
for one finds what it would find in a new connection. -/
def nextOpen (s : Process B n) : Event n → Option (Plan B n)
  | .parse i r order => do
      let l ← s.link i r
      guard ((s.broker.shards i).activity = .idle ∧ (s.runtimes i).running = some r)
      match l.reader.phase with
      | .parsing consumedTotal => return parsePlan i r (.new ⟨0⟩) l consumedTotal order
      | _ => none
  | .check i r order => do
      let l ← s.link i r
      guard ((s.broker.shards i).activity = .idle ∧ (s.runtimes i).running = some r)
      match l.reader.phase with
      | .checking consumedTotal => return checkPlan i r (.new ⟨0⟩) l consumedTotal order
      | _ => none
  | e => s.next e

/-- An event, if there is no reason to close a connection: `step` without the outbound buffers. -/
def stepOpen (s : Process B n) (e : Event n) : Option (Process B n) := do
  let (actions, f) ← s.nextOpen e
  let s' ← run act s actions
  return (s'.withLost (s.lostAfter s' e)).change e.shard f

/-- An inner loop looks for nothing but a close reason. -/
lemma plans_of_open {c : Connection} (hopen : c.state.closeWith = none) (i : Fin n) (r : ConnRef)
    (l : Link) (k : ℕ) (order : Order) :
    (parsePlan i r (.new ⟨0⟩) l k order : Plan B n) = parsePlan i r c l k order ∧
      (checkPlan i r (.new ⟨0⟩) l k order : Plan B n) = checkPlan i r c l k order := by
  have hnew : (Connection.new ⟨0⟩).state.closeWith = none := rfl
  unfold parsePlan roundPlan checkPlan
  rw [hopen, hnew]
  exact ⟨rfl, rfl⟩

/-- Where no connection is to close whose reader is in its inner loop, the two agree. -/
lemma next_of_nextOpen {e : Event n} {p : Plan B n} (hnext : s.nextOpen e = some p)
    (hopen : ∀ i r l, s.link i r = some l → l.reader.phase ≠ .finished →
      ∃ c, s.conn i r = some c ∧ c.state.closeWith = none) : s.next e = some p := by
  cases e with
  | parse i r order =>
      simp only [nextOpen, bind_eq_some, Option.guard_eq_some', exists_const] at hnext
      obtain ⟨l, hl, hguard, hnext⟩ := hnext
      split at hnext
      · rename_i k hphase
        obtain ⟨c, hc, hclose⟩ := hopen i r l hl (by simp [hphase])
        rw [(plans_of_open hclose i r l k order).1] at hnext
        simp [next, hl, hc, hguard, hphase, ← hnext]
      · cases hnext
  | check i r order =>
      simp only [nextOpen, bind_eq_some, Option.guard_eq_some', exists_const] at hnext
      obtain ⟨l, hl, hguard, hnext⟩ := hnext
      split at hnext
      · rename_i k hphase
        obtain ⟨c, hc, hclose⟩ := hopen i r l hl (by simp [hphase])
        rw [(plans_of_open hclose i r l k order).2] at hnext
        simp [next, hl, hc, hguard, hphase, ← hnext]
      · cases hnext
  | _ => exact hnext

/-- What was offered stays. -/
lemma offers_acts {as : List (Action n)} {t : Process B n} (h : run act s as = some t) (i : Fin n) :
    (s.broker.shards i).worker.offers <+: (t.broker.shards i).worker.offers := by
  refine run_invariant (I := fun b : Broker n =>
    (s.broker.shards i).worker.offers <+: (b.shards i).worker.offers) ?_ (List.prefix_refl _)
    (trace_acts h).2
  intro b a b' hb hstep
  obtain ⟨new, hnew, -⟩ := step_conn hstep i
  rw [hnew]
  exact hb.trans (List.prefix_append _ _)

/-- All that the connections of a shard were ever offered would fit into one outbound buffer. -/
def Quiet (s : Process B n) (i : Fin n) : Prop :=
  ((s.broker.shards i).worker.offers.map (·.bytes.length)).sum ≤ defaultOutboundCapacity

/-- Each connection was offered a part of that. -/
lemma Quiet.room (h : s.Quiet i) (hv : s.view i r = some v) :
    (v.offers.map (·.bytes.length)).sum ≤ defaultOutboundCapacity := by
  rw [offers_eq_of_view hv]
  exact ((List.filter_sublist).map _).sum_le_sum (fun _ _ => Nat.zero_le _) |>.trans h

/-- **Runs in which little is sent** are those of `stepOpen`. -/
theorem run_of_stepOpen
    (hrun : run stepOpen (init n inboxCapacity poolCapacity : Process B n) es = some s)
    (hsound : ∀ e ∈ es, e.fault = false) (hquiet : ∀ i, s.Quiet i) :
    run step (init n inboxCapacity poolCapacity : Process B n) es = some s := by
  refine run_history (I := fun es (s : Process B n) => (∀ e ∈ es, e.fault = false) →
    (∀ i, s.Quiet i) → run step (init n inboxCapacity poolCapacity : Process B n) es = some s)
    (fun _ _ => rfl) ?_ hrun hsound hquiet
  intro es s e s' _ ih hstep hsound hquiet
  obtain ⟨hsound, -⟩ := List.forall_mem_append.mp hsound
  obtain ⟨p, hnext, hstep⟩ := bind_eq_some.mp hstep
  obtain ⟨t, hacts, hstep⟩ := bind_eq_some.mp hstep
  obtain rfl := Option.some.inj hstep
  have hbefore : ∀ i, s.Quiet i := by
    intro i
    have hoffers := ((offers_acts hacts i).map (·.bytes.length)).sublist.sum_le_sum
      (fun _ _ => Nat.zero_le _)
    exact hoffers.trans (hquiet i)
  have hrun := ih hsound hbefore
  have hopen : ∀ i r l, s.link i r = some l → l.reader.phase ≠ .finished →
      ∃ c, s.conn i r = some c ∧ c.state.closeWith = none := by
    intro i r l hl hphase
    obtain ⟨v, hv⟩ := view_isSome (length_links hrun i) (List.getElem?_eq_some_iff.mp hl).1
    obtain rfl := Option.some.inj ((link_of_view hv).symm.trans hl)
    obtain ⟨c, hc, hstate, -⟩ := conn_of_view hv
    refine ⟨c, hc, ?_⟩
    rw [hstate]
    exact open_of_room hrun (fun e he _ => hsound e he) hv hphase ((hbefore i).room hv)
  exact run_append_eq_some.mpr ⟨s, hrun, run_cons_eq_some.mpr
    ⟨_, step_eq (next_of_nextOpen hnext hopen) hacts, rfl⟩⟩

/-- The trace of such a run is one of the broker. -/
lemma trace_stepOpen
    (hrun : run stepOpen (init n inboxCapacity poolCapacity : Process B n) es = some s) :
    run Server.step (.init n inboxCapacity) s.trace = some s.broker := by
  refine run_invariant (I := fun s : Process B n =>
    run Server.step (.init n inboxCapacity) s.trace = some s.broker) ?_ rfl hrun
  intro s e s' h hstep
  obtain ⟨p, -, hstep⟩ := bind_eq_some.mp hstep
  obtain ⟨t, hacts, hstep⟩ := bind_eq_some.mp hstep
  obtain rfl := Option.some.inj hstep
  obtain ⟨htrace, hbroker⟩ := trace_acts hacts
  show run Server.step _ t.trace = some t.broker
  rw [htrace]
  exact run_append_eq_some.mpr ⟨s.broker, h, hbroker⟩

/-- If the offers on the only shard are known, and fit a buffer, the run is one of the server, and
each client was offered those to it. -/
lemma run_of_replies {es : List (Event 1)} {s : Process B 1}
    (hrun : run stepOpen (init 1 inboxCapacity poolCapacity : Process B 1) es = some s)
    (hsound : ∀ e ∈ es, e.fault = false) (replies : List (ConnRef × Frame))
    (hoffers : (s.broker.shards 0).worker.offers.map (fun o => (o.target, o.frame, o.bytes)) =
      replies.map fun x => (x.1, x.2, encode x.2))
    (hroom : (replies.map fun x => (encode x.2).length).sum ≤ defaultOutboundCapacity) :
    run step (init 1 inboxCapacity poolCapacity : Process B 1) es = some s ∧
      ∀ r v, s.view 0 r = some v → v.offers.map (fun o => (o.frame, o.bytes)) =
        (replies.filter (·.1 = r)).map fun x => (x.2, encode x.2) := by
  have hquiet : ∀ i, s.Quiet i := by
    intro i
    obtain rfl : i = 0 := Subsingleton.elim _ _
    have hlengths := congrArg (fun xs => (xs.map fun x => x.2.2.length).sum) hoffers
    rw [List.map_map, List.map_map] at hlengths
    exact hlengths.trans_le hroom
  refine ⟨run_of_stepOpen hrun hsound hquiet, fun r v hv => ?_⟩
  have hown := congrArg (fun xs => (xs.filter fun x => decide (x.1 = r)).map Prod.snd) hoffers
  simp only [List.filter_map, List.map_map] at hown
  rw [offers_eq_of_view hv]
  exact hown

end Process

/-- A publication that one subscription matches is one offer more, to its subscriber. -/
lemma offers_publication {capacity : ℕ} {as : List (Action n)} {b : Broker n} {r' : ConnRef}
    {frame : PublishedFrame}
    (hrun : run step (Broker.init n capacity) (as ++
      [.task i (.frame r' (.pub frame.subject frame.replyTo frame.payload))]) = some b)
    (hlen : frame.payload.length ≤ maxPayloadBytes) {tokens : List Bytes}
    (hparse : parsePublisherSubject frame.subject = .ok tokens) (sub : Sub)
    (hmatching : (matchingPatterns tokens).flatMap (Book.after i as).entries = [sub])
    (hlookup : (Book.after i as).registered sub.connId = some r)
    (hr : r < (Book.after i as).ids.length)
    (hfit : (encode (frame.msg sub.sid)).length ≤ emitScratchCapacity)
    (replies : List (ConnRef × Frame))
    (hreplies : (run step (Broker.init n capacity) as).map (fun b =>
      (b.shards i).worker.offers.map fun o => (o.target, o.frame, o.bytes)) =
        some (replies.map fun x => (x.1, x.2, encode x.2))) :
    (b.shards i).worker.offers.map (fun o => (o.target, o.frame, o.bytes)) =
      (replies ++ [(r, frame.msg sub.sid)]).map fun x => (x.1, x.2, encode x.2) := by
  obtain ⟨b₀, hrun₀, hstep⟩ := run_append_eq_some.mp hrun
  obtain ⟨b', hstep, hlast⟩ := run_cons_eq_some.mp hstep
  cases hlast
  rw [hrun₀, Option.map_some, Option.some.injEq] at hreplies
  rw [← matching_after hrun₀] at hmatching
  rw [← lookup_after hrun₀] at hlookup
  rw [← length_conns_after hrun₀] at hr
  have hready : (b₀.shards i).worker.Ready frame tokens := by
    refine ⟨by rw [length_emitScratch hrun₀]; decide, fun s hs => ?_⟩
    rw [hmatching, List.mem_singleton] at hs
    rw [hs, length_emitScratch hrun₀]
    exact ⟨hfit, r, hlookup, hr⟩
  obtain ⟨w, hw⟩ := Worker.dispatchLocal_ok hparse (b₀.shards i).worker
  obtain ⟨o, hoffers, hframe, hbytes, -, htarget⟩ :=
    Worker.single_dispatchLocal hparse hready hw hmatching
  rw [hlookup, Option.some.injEq] at htarget
  rw [worker_step_pub hstep hlen hw, hoffers, List.map_append, hreplies, List.map_append,
    List.map_singleton, List.map_singleton, htarget, hframe, hbytes]

/-! ## A client that talks -/

/-- A client subscribes, pings, and publishes to its own subscription. -/
def chat : Bytes := ascii "SUB foo 1\r\nPING\r\nPUB foo 2\r\nhi\r\n"

/-- It is the first to connect to shard `i`, which reads what it sends in one go. -/
def chatEvents (i : Fin n) : List (Event n) :=
  [.connect i, .start i 0, .send i 0 chat, .read i 0 32 [], .parse i 0 [], .check i 0 [],
    .parse i 0 [], .check i 0 [], .parse i 0 [], .check i 0 [], .parse i 0 []]

/-- What the broker does for it, up to the publication. -/
def chatActions (i : Fin n) : List (Action n) :=
  [.task i (.accept true), .task i (.greet 0),
    .task i (.frame 0 (.sub (ascii "foo") none (ascii "1"))), .task i (.frame 0 .ping)]

/-- The publication. -/
def chatFrame : PublishedFrame := ⟨ascii "foo", none, ascii "hi"⟩

/-- The frames that the client gets. -/
def chatReplies : List Frame := [.info serverInfoJson, .pong, chatFrame.msg (ascii "1")]

/-- The broker answers the client, and brings it its own message. -/
lemma chat_offers {b : Broker 1} (hrun : run step (Broker.init 1 4) (chatActions 0 ++
      [.task 0 (.frame 0 (.pub chatFrame.subject chatFrame.replyTo chatFrame.payload))]) = some b) :
    (b.shards 0).worker.offers.map (fun o => (o.target, o.frame, o.bytes)) =
      (chatReplies.map fun f => (0, f)).map fun x => (x.1, x.2, encode x.2) :=
  offers_publication hrun (by decide)
    (show parsePublisherSubject chatFrame.subject = .ok [ascii "foo"] from rfl)
    ⟨⟨0⟩, ascii "1", none⟩ (by decide +kernel) (by decide +kernel) (by decide +kernel)
    (by decide +kernel) [(0, .info serverInfoJson), (0, .pong)] (by decide +kernel)

/-- All this can happen, and then the client waits for what it is sent. -/
lemma exists_chat : ∃ s v, run Process.step (.initStack 1 4 2) (chatEvents 0) = some s ∧ s.Free 0 ∧
    s.view 0 0 = some v ∧ v.link.socket.stream = chat ∧ v.link.socket.closed = false ∧
    v.link.reader.phase = .waiting ∧
    v.offers.map (fun o => (o.frame, o.bytes)) = chatReplies.map fun f => (f, encode f) := by
  have hsome : (run Process.stepOpen (.initStack 1 4 2) (chatEvents 0)).bind (fun s =>
      (s.link 0 0).map fun l => (decide (s.Free 0), s.trace, l.socket.stream, l.socket.closed,
        l.reader.phase)) =
      some (true, chatActions 0 ++
        [.task 0 (.frame 0 (.pub chatFrame.subject chatFrame.replyTo chatFrame.payload))],
        chat, false, .waiting) := by decide +kernel
  obtain ⟨s, hs, hlink⟩ := Option.bind_eq_some_iff.mp hsome
  obtain ⟨l, hl, heq⟩ := Option.map_eq_some_iff.mp hlink
  simp only [Prod.mk.injEq, decide_eq_true_eq] at heq
  obtain ⟨hfree, htrace, hstream, hclosed, hphase⟩ := heq
  have hbroker := Process.trace_stepOpen hs
  rw [htrace] at hbroker
  obtain ⟨hrun, hoffers⟩ :=
    Process.run_of_replies hs (by decide) _ (chat_offers hbroker) (by decide +kernel)
  obtain ⟨v, hv⟩ := Process.view_isSome (Process.length_links hrun 0)
    (List.getElem?_eq_some_iff.mp hl).1
  obtain rfl := Option.some.inj ((Process.link_of_view hv).symm.trans hl)
  exact ⟨s, v, hrun, hfree, hv, hstream, hclosed, hphase, hoffers 0 v hv⟩

/-- The frames and the bytes that the client of `exists_chat` is offered. -/
lemma chat_frames {os : List Offer}
    (h : os.map (fun o => (o.frame, o.bytes)) = chatReplies.map fun f => (f, encode f)) :
    os.map (·.frame) = chatReplies ∧ os.map (·.bytes) = chatReplies.map encode := by
  constructor
  · have hfst := congrArg (List.map Prod.fst) h
    rw [List.map_map, List.map_map] at hfst
    exact hfst.trans (List.map_id _)
  · have hsnd := congrArg (List.map Prod.snd) h
    rw [List.map_map, List.map_map] at hsnd
    exact hsnd

/-- A stream that parses, with frames well below `MAX_FRAME_SIZE`, is no cause to close. -/
lemma View.not_malformed (herror : (parseAll parseFrame v.link.socket.stream).error = none)
    (hframes : ∀ f ∈ (parseAll parseFrame v.link.socket.stream).frames,
      f.2 + defaultBufferSize ≤ maxFrameSize)
    (hrest : (parseAll parseFrame v.link.socket.stream).rest.length + defaultBufferSize ≤
      maxFrameSize) : ¬ v.Because .protocolError := by
  rintro ⟨-, ⟨hbad, -⟩ | ⟨part, ⟨more, hmore⟩, hclean, -, hlong⟩⟩
  · exact hbad herror
  · rw [← hmore] at hframes hrest
    have hle := length_rest_le (m := maxFrameSize - defaultBufferSize) incremental_parseFrame
      part more hclean (fun f hf => Nat.le_sub_of_add_le (hframes f hf))
      (Nat.le_sub_of_add_le hrest)
    have hsize : defaultBufferSize ≤ maxFrameSize := by decide +kernel
    omega

/-- **A client that gives no cause stays connected.** Its side is not closed, its stream parses
without error, no frame in it comes within a read's size of `MAX_FRAME_SIZE`, and no more than the
outbound buffer holds was ever offered to it. -/
theorem stays_open (hrun : run Process.step (.init n inboxCapacity poolCapacity) es = some s)
    (hsound : ∀ e ∈ es, e.conn = some (i, r) → e.fault = false) (hv : s.view i r = some v)
    (hclosed : v.link.socket.closed = false)
    (herror : (parseAll parseFrame v.link.socket.stream).error = none)
    (hframes : ∀ f ∈ (parseAll parseFrame v.link.socket.stream).frames,
      f.2 + defaultBufferSize ≤ maxFrameSize)
    (hrest : (parseAll parseFrame v.link.socket.stream).rest.length + defaultBufferSize ≤
      maxFrameSize)
    (hroom : (v.offers.map (·.bytes.length)).sum ≤ defaultOutboundCapacity) :
    v.state.closeWith = none := by
  by_contra hclosing
  obtain ⟨reason, hreason⟩ := Option.ne_none_iff_exists'.mp hclosing
  have hcause := (caused_run hrun hsound hv).cause reason hreason
  cases reason with
  | slowConsumer => exact View.not_slow hroom hcause
  | protocolError => exact View.not_malformed herror hframes hrest hcause
  | peerClosed =>
      rw [hcause.2.1] at hclosed
      cases hclosed

/-- A client has subscribed, has pinged and has published to itself, and all of it was handled. -/
theorem stays_open_chat :
    ∃ s v, run Process.step (.initStack 1 4 2) (chatEvents 0) = some s ∧ s.view 0 0 = some v ∧
      v.link.socket.stream = chat ∧ v.offers.map (·.frame) = chatReplies ∧
      v.state.closeWith = none := by
  obtain ⟨s, v, hrun, -, hv, hstream, hclosed, -, hoffers⟩ := exists_chat
  obtain ⟨hframes, hbytes⟩ := chat_frames hoffers
  have hparse : (parseAll parseFrame v.link.socket.stream).error = none ∧
      (∀ f ∈ (parseAll parseFrame v.link.socket.stream).frames,
        f.2 + defaultBufferSize ≤ maxFrameSize) ∧
      (parseAll parseFrame v.link.socket.stream).rest.length + defaultBufferSize ≤
        maxFrameSize := by
    rw [hstream]
    decide +kernel
  refine ⟨s, v, hrun, hv, hstream, hframes, stays_open hrun (by decide) hv hclosed hparse.1
    hparse.2.1 hparse.2.2 ?_⟩
  have hlengths := congrArg (fun xs => (xs.map List.length).sum) hbytes
  rw [List.map_map] at hlengths
  exact hlengths.trans_le (by decide +kernel)

/-! ## The first write -/

/-- A writer that is polled for the first time with a permit, and once more, sends what its buffer
holds of the pending bytes. -/
lemma Writer.sends_pending {w : Writer} (hphase : w.phase = .spawned)
    (hnotify : w.state.notify = true) (hne : w.state.pending ≠ [])
    (hbuf : w.state.pending.length ≤ w.buf.length) :
    ∃ w₁ w₂, w.step .poll = some w₁ ∧ w₁.step .poll = some w₂ ∧
      w₂.sent = w.sent ++ w.state.pending := by
  let w₁ : Writer := { w with state := { w.state with notify := false }, phase := .woken }
  refine ⟨w₁, w₁.drain, ?_, rfl, ?_⟩
  · simp [Writer.step, hphase, Writer.waitForEvent, hnotify, w₁]
  · have hpending : w₁.state.pending = w.state.pending := rfl
    have hcount := (w₁.state.drainInto_eq w₁.buf).1
    have htake := w₁.state.take_drainInto w₁.buf
    have hpos : 0 < w.state.pending.length := List.length_pos_iff.mpr hne
    rw [hpending, show w₁.buf = w.buf from rfl, min_eq_left hbuf] at hcount
    rw [w₁.state.pending_drainInto, hpending, hcount, List.drop_length, List.append_nil] at htake
    unfold Writer.drain
    dsimp only
    rw [hcount, if_neg hpos.ne', htake]

/-- A writer that was never polled has sent nothing. -/
lemma unpolled_run
    (hrun : run Process.step (.init n inboxCapacity poolCapacity : Process B n) es = some s)
    (hes : ∀ e ∈ es, e.conn = some (i, r) → ∀ failed, e.agent ≠ .writer failed)
    (hv : s.view i r = some v) : v.link.writer.phase = .spawned ∧ v.link.socket.sent = [] := by
  have hnotice : ∀ (t : WriterTask) (e : WriterEvent), t.phase = .spawned →
      (t.notice e).phase = .spawned := by
    intro t e ht
    unfold WriterTask.notice WriterTask.notifyOne
    split_ifs <;> simp_all
  refine Process.view_run_of (P := fun a => ∀ failed, a ≠ .writer failed)
    (I := fun v => v.link.writer.phase = .spawned ∧ v.link.socket.sent = []) hes ?_ ?_ ?_ hrun hv
  · exact fun id readBuf writeBuf _ _ => ⟨rfl, rfl⟩
  · rintro v a v' hagent ⟨hphase, hsent⟩ hmoves
    cases hmoves with
    | send | close | start | read | frame | round | check => exact ⟨hphase, hsent⟩
    | eof | roundClosed | checkClosed => exact ⟨hnotice _ _ hphase, hsent⟩
    | overflow | malformed => exact ⟨hnotice _ _ (hnotice _ _ hphase), hsent⟩
    | write failed => exact absurd rfl (hagent failed)
  · exact fun v o ⟨hphase, hsent⟩ _ => ⟨hnotice _ _ hphase, hsent⟩

/-- As long as the writer of an open connection was not polled, all that was offered is pending. -/
lemma pending_of_unpolled
    (hrun : run Process.step (.init n inboxCapacity poolCapacity : Process B n) es = some s)
    (hsound : ∀ e ∈ es, e.conn = some (i, r) → e.fault = false)
    (hes : ∀ e ∈ es, e.conn = some (i, r) → ∀ failed, e.agent ≠ .writer failed)
    (hv : s.view i r = some v) (hopen : v.state.closeWith = none) :
    v.state.pending = (v.offers.map (·.bytes)).flatten := by
  obtain ⟨hphase, hsent⟩ := unpolled_run hrun hes hv
  have hcaused := caused_run hrun hsound hv
  have haccepted : v.acceptedOffers = v.offers :=
    List.filter_eq_self.mpr fun o ho => decide_eq_true (hcaused.accepted hopen o ho)
  have hrunning := hcaused.accounted.writer.running (by simp [Link.writerOf, hphase])
    (by simp [Link.writerOf, hphase])
  have hlogged : Writer.acceptedBytes (v.link.writerOf v.state).log = _ := logged_run hrun hv
  rw [hlogged, haccepted] at hrunning
  have hnothing : (v.link.writerOf v.state).sent = [] := hsent
  rwa [hnothing, List.nil_append] at hrunning

/-- What was offered to a client so far can be sent in one write, if its writer was not polled yet
and it fits into a buffer. -/
lemma exists_sent
    (hrun : run Process.step (.init n inboxCapacity poolCapacity : Process B n) es = some s)
    (hsound : ∀ e ∈ es, e.conn = some (i, r) → e.fault = false)
    (hes : ∀ e ∈ es, e.conn = some (i, r) → ∀ failed, e.agent ≠ .writer failed)
    (hfree : s.Free i) (hv : s.view i r = some v) (hopen : v.state.closeWith = none)
    (hne : (v.offers.map (·.bytes)).flatten ≠ [])
    (hlen : (v.offers.map (·.bytes)).flatten.length ≤ defaultBufferSize) :
    ∃ s' v', run Process.step s [.poll i r, .poll i r] = some s' ∧ s'.view i r = some v' ∧
      v'.link.socket.sent = (v.offers.map (·.bytes)).flatten ∧
      v'.link.socket.stream = v.link.socket.stream := by
  obtain ⟨hphase, hsent⟩ := unpolled_run hrun hes hv
  have hcaused := caused_run hrun hsound hv
  have hpending := pending_of_unpolled hrun hsound hes hv hopen
  have hpermit : (v.link.writerOf v.state).state.notify = true := by
    by_contra hnone
    obtain ⟨hempty, -⟩ := hcaused.accounted.served.alert.spawned hphase (Bool.not_eq_true _ ▸ hnone)
    exact hne (hpending.symm.trans hempty)
  obtain ⟨w₁, w₂, hw₁, hw₂, hdone⟩ := Writer.sends_pending (w := v.link.writerOf v.state) hphase
    hpermit (fun hempty => hne (hpending.symm.trans hempty)) (by
      show v.state.pending.length ≤ v.link.writer.buf.bytes.length
      rw [hpending, hcaused.accounted.buf]
      exact hlen)
  obtain ⟨s₁, hpoll, hv₁, hfree₁⟩ := Process.exists_poll hfree hv hw₁
  rw [← Process.writerOf_wrote v w₁] at hw₂
  obtain ⟨s₂, hpoll', hv₂, -⟩ := Process.exists_poll hfree₁ hv₁ hw₂
  refine ⟨s₂, _, run_cons_eq_some.mpr ⟨s₁, hpoll, run_cons_eq_some.mpr ⟨s₂, hpoll', rfl⟩⟩, hv₂,
    ?_, rfl⟩
  show w₂.sent = _
  have hnothing : (v.link.writerOf v.state).sent = [] := hsent
  rw [hdone, hnothing, List.nil_append]
  exact hpending

/-- The client of `exists_chat` gets the greeting, its pong and its own message. -/
lemma exists_chat_sent : ∃ s v, run Process.step (.initStack 1 4 2)
    (chatEvents 0 ++ [.poll 0 0, .poll 0 0]) = some s ∧ s.view 0 0 = some v ∧
      v.link.socket.stream = chat ∧ v.link.socket.sent = (chatReplies.map encode).flatten := by
  obtain ⟨s, v, hrun, hfree, hv, hstream, -, hphase, hoffers⟩ := exists_chat
  have hbytes := (chat_frames hoffers).2
  have hlengths : (v.offers.map (·.bytes.length)).sum ≤ defaultBufferSize := by
    have hmap := congrArg (List.map List.length) hbytes
    rw [List.map_map] at hmap
    exact (congrArg List.sum hmap).trans_le (by decide +kernel)
  have hopen := open_of_room hrun (by decide) hv (by simp [hphase])
    (hlengths.trans (by decide +kernel))
  obtain ⟨s', v', hpolls, hv', hsent, hsame⟩ := exists_sent hrun (by decide) (by decide) hfree hv
    hopen (by rw [hbytes]; decide +kernel)
    (by rw [List.length_flatten, List.map_map]; exact hlengths)
  refine ⟨s', v', run_append_eq_some.mpr ⟨s, hrun, hpolls⟩, hv', hsame.trans hstream, ?_⟩
  rw [hsent, hbytes]

end Aulon.Server
