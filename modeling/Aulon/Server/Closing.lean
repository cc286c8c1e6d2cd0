import Aulon.Server.Responses

/-!
# The end of a connection

What still happens on a connection once there is a reason to close it, and what its client is told.

* `exists_closing` — the event that has given the reason.
* `late_frames` — a connection that is to close handles at most one more frame.
* `View.ClosedIn` — how a connection has come to its end.
* `farewell_at_rest` — what a client has got in the end: the answers to all that was handled for it,
  and why it was cut off.
-/

namespace Aulon.Server

open Aulon.Lib Aulon.Core Aulon.Proto

variable {B : FixedBufPool} {n inboxCapacity poolCapacity : ℕ} {es : List (Event n)}
  {s : Process B n} {i : Fin n} {r : ConnRef} {v v' : View} {a : Agent} {reason : CloseReason}

/-! ## The event that closes -/

/-- A connection that is to close was open before some event of the run, and not after it. -/
lemma exists_closing
    (hrun : run Process.step (.init n inboxCapacity poolCapacity : Process B n) es = some s)
    (hv : s.view i r = some v) (hreason : v.state.closeWith = some reason) :
    ∃ es₁ e es₂ s₁ s₂ v₁ v₂, es = es₁ ++ e :: es₂ ∧
      run Process.step (.init n inboxCapacity poolCapacity : Process B n) es₁ = some s₁ ∧
      s₁.view i r = some v₁ ∧ v₁.state.closeWith = none ∧
      s₁.step e = some s₂ ∧ s₂.view i r = some v₂ ∧ v₂.state.closeWith = some reason ∧
      run Process.step s₂ es₂ = some s := by
  refine run_history (I := fun es (s : Process B n) => ∀ v, s.view i r = some v →
    v.state.closeWith = some reason → ∃ es₁ e es₂ s₁ s₂ v₁ v₂, es = es₁ ++ e :: es₂ ∧
      run Process.step (.init n inboxCapacity poolCapacity : Process B n) es₁ = some s₁ ∧
      s₁.view i r = some v₁ ∧ v₁.state.closeWith = none ∧
      s₁.step e = some s₂ ∧ s₂.view i r = some v₂ ∧ v₂.state.closeWith = some reason ∧
      run Process.step s₂ es₂ = some s) ?_ ?_ hrun v hv hreason
  · intro v hv
    obtain ⟨c, l, hc, -⟩ := Process.view_eq_some.mp hv
    cases hc
  · intro es s e s' hrun ih hstep v' hv' hreason
    cases hv : s.view i r with
    | none =>
        obtain ⟨id, readBuf, writeBuf, -, -, rfl⟩ := Process.view_new hrun hstep hv hv'
        cases hreason
    | some v =>
        cases hopen : v.state.closeWith with
        | none =>
            exact ⟨es, e, [], s, s', v, v', rfl, hrun, hv, hopen, hstep, hv', hreason, rfl⟩
        | some first =>
            -- the reason was there before, and stays
            obtain ⟨w, hw, hfirst⟩ := Process.view_step_keeps
              (I := fun w => w.state.closeWith = some first)
              (fun _ _ _ h hmoves => View.closeWith_moves h hmoves)
              (fun _ o h _ => View.closeWith_offer h o) hstep hv hopen
            obtain rfl := Option.some.inj (hw.symm.trans hv')
            obtain rfl := Option.some.inj (hfirst.symm.trans hreason)
            obtain ⟨es₁, e₁, es₂, s₁, s₂, v₁, v₂, rfl, hrun₁, hv₁, hopen₁, hstep₁, hv₂, hreason₂,
              hrun₂⟩ := ih v hv hopen
            exact ⟨es₁, e₁, es₂ ++ [e], s₁, s₂, v₁, v₂, by simp, hrun₁, hv₁, hopen₁, hstep₁, hv₂,
              hreason₂, run_append_eq_some.mpr ⟨s, hrun₂, run_cons_eq_some.mpr ⟨s', hstep, rfl⟩⟩⟩

/-- A move that ends the reader of an open connection is one that closes it, and not for a slow
consumer. -/
lemma View.Moves.of_finishes (hmoves : v.Moves a v') (hopen : v.state.closeWith = none)
    (hphase : v.link.reader.phase ≠ .finished) (hfinished : v'.link.reader.phase = .finished) :
    ∃ reason, v'.state.closeWith = some reason ∧ reason ≠ .slowConsumer := by
  cases hmoves with
  | send | close => exact absurd hfinished hphase
  | start | read | frame | round | check => cases hfinished
  | overflow =>
      exact ⟨.protocolError, View.closeWith_leave_mark (v := v) hopen _, fun h => by cases h⟩
  | malformed =>
      exact ⟨.protocolError, View.closeWith_leave_mark (v := v) hopen _, fun h => by cases h⟩
  | eof => exact ⟨.peerClosed, View.closeWith_leave hopen, fun h => by cases h⟩
  | roundClosed k _ _ hclosed | checkClosed k _ hclosed => exact absurd hopen hclosed
  | write failed a w ha hok hstep => exact absurd hfinished hphase

/-- A connection that is cut off as a slow consumer still has its reader. -/
lemma not_finished_of_slow {e : Event n} {s' : Process B n}
    (hrun : run Process.step (.init n inboxCapacity poolCapacity : Process B n) es = some s)
    (hstep : s.step e = some s') (hv : s.view i r = some v) (hopen : v.state.closeWith = none)
    (hv' : s'.view i r = some v') (hslow : v'.state.closeWith = some .slowConsumer) :
    v'.link.reader.phase ≠ .finished := by
  have hphase : v.link.reader.phase ≠ .finished := fun hfinished =>
    (linked_run hrun hv).finished hfinished hopen
  have hoffer : ∀ {u : View} {os : List Offer}, u.Offered os v' →
      u.link.reader.phase ≠ .finished → v'.link.reader.phase ≠ .finished := fun hoffered h =>
    hoffered.invariant (I := fun w => w.link.reader.phase ≠ .finished) (fun _ _ h _ => h) h
  by_cases hconn : e.conn = some (i, r)
  · obtain ⟨v₁, hmoves, os, w, -, hoffered, hw⟩ := Process.view_step_own hstep hv hconn
    obtain rfl := Option.some.inj (hw.symm.trans hv')
    refine hoffer hoffered fun hfinished => ?_
    obtain ⟨reason, hreason, hne⟩ := hmoves.of_finishes hopen hphase hfinished
    have hstays := hoffered.invariant (I := fun w => w.state.closeWith = some reason)
      (fun _ o h _ => View.closeWith_offer h o) hreason
    exact hne (Option.some.inj (hstays.symm.trans hslow))
  · obtain ⟨os, w, -, hoffered, hw⟩ := Process.view_step_of_ne hstep hv hconn
    obtain rfl := Option.some.inj (hw.symm.trans hv')
    exact hoffer hoffered hphase

/-! ## A client that is too slow -/

/-- Many pings. -/
def flood (m : ℕ) : List Frame := List.replicate m .ping

/-- They parse into themselves, wherever they stand. -/
lemma parseFrame_ping (rest : Bytes) :
    parseFrame (encode .ping ++ rest) = .frame .ping (encode .ping).length :=
  parseFrame_encode (wellFormed_of_parseFrame (show parseFrame (encode .ping) = .frame .ping 6 by
    decide)) (by decide) rest

/-- The flood as a stream. -/
lemma parseAll_flood (m : ℕ) : parseAll parseFrame ((flood m).map encode).flatten =
    ⟨(flood m).map fun f => (f, (encode f).length), [], none⟩ := by
  refine parseAll_flatten incremental_parseFrame rfl fun f hf rest => ?_
  rw [List.eq_of_mem_replicate hf]
  exact parseFrame_ping rest

/-- A client that has not closed its side can send. -/
lemma Process.exists_send_client (hv : s.view i r = some v)
    (hclosed : v.link.socket.closed = false) (bytes : Bytes) :
    ∃ s' v', s.step (.send i r bytes) = some s' ∧ s'.view i r = some v' ∧
      v'.link.socket.stream = v.link.socket.stream ++ bytes ∧
      v'.link.socket.closed = false := by
  have hnext : s.next (.send i r bytes) = some ([], fun rt => rt.modify r fun l =>
      { l with socket := { l.socket with stream := l.socket.stream ++ bytes } }) := by
    simp [next, link_of_view hv, hclosed]
  obtain ⟨c, l, hc, hl, rfl⟩ := view_eq_some.mp hv
  have hl : (s.runtimes i).links[r]? = some l := hl
  let l' : Link := { l with socket := { l.socket with stream := l.socket.stream ++ bytes } }
  refine ⟨_, _, step_eq hnext rfl, view_eq_some.mpr ⟨c, l', hc, ?_, rfl⟩, rfl, hclosed⟩
  simp [link, Event.shard, Runtime.modify, hl, l']

/-- An open connection whose writer was not polled was offered at most as many frames as its buffer
has bytes: they are all in it, and none is empty. -/
lemma length_offers_le
    (hrun : run Process.step (.init n inboxCapacity poolCapacity : Process B n) es = some s)
    (hsound : ∀ e ∈ es, e.conn = some (i, r) → e.fault = false)
    (hes : ∀ e ∈ es, e.conn = some (i, r) → ∀ failed, e.agent ≠ .writer failed)
    (hv : s.view i r = some v) (hopen : v.state.closeWith = none) :
    v.offers.length ≤ defaultOutboundCapacity := by
  have hpending := pending_of_unpolled hrun hsound hes hv hopen
  obtain ⟨id, calls, hhistory⟩ := (caused_run hrun hsound hv).history
  have hroom : v.state.pending.length ≤ defaultOutboundCapacity := by
    have hcapacity := ConnectionState.outboundCapacity_after id defaultOutboundCapacity calls
    rw [← hhistory.state] at hcapacity
    rw [v.state.length_pending, ← hcapacity]
    exact (Nat.sub_le _ _).trans v.state.tail_le_capacity
  rw [hpending, List.length_flatten, List.map_map] at hroom
  refine le_trans ?_ hroom
  rw [← List.length_map (f := List.length ∘ fun o : Offer => o.bytes)]
  refine List.length_le_sum_of_one_le _ fun k hk => ?_
  obtain ⟨o, ho, rfl⟩ := List.mem_map.mp hk
  obtain ⟨r', hproper⟩ := proper_of_view hrun hv ho
  exact (incremental_parseFrame.progress (hproper.parseFrame (parsed_of_mem_trace hrun) [])).1

/-- Pings alone are no protocol error. -/
lemma not_malformed_flood {m : ℕ}
    (hstream : v.link.socket.stream = ((flood m).map encode).flatten) :
    ¬ v.Because .protocolError := by
  refine View.not_malformed ?_ ?_ ?_
  all_goals rw [hstream, parseAll_flood]
  · intro f hf
    obtain ⟨g, hg, rfl⟩ := List.mem_map.mp hf
    rw [List.eq_of_mem_replicate hg]
    decide +kernel
  · show 0 + defaultBufferSize ≤ maxFrameSize
    decide +kernel

section flood

variable {m : ℕ}
  (hrun : run Process.step (.init n inboxCapacity poolCapacity : Process B n) es = some s)
  (hsound : ∀ e ∈ es, e.conn = some (i, r) → e.fault = false)
  (hes : ∀ e ∈ es, e.conn = some (i, r) → ∀ failed, e.agent ≠ .writer failed)
  (hstalled : s.Stalled) (hv : s.view i r = some v)
  (hstream : v.link.socket.stream = ((flood m).map encode).flatten)

include hrun hsound hes hstalled hv hstream

/-- Who sends at least as many pings as the outbound buffer has bytes, and reads nothing, is cut
off: where the connection is open all pings are handled, and there is no room for the pongs. -/
lemma closing_of_flood (hm : defaultOutboundCapacity ≤ m) : v.state.closeWith ≠ none := by
  intro hopen
  have hcaused := caused_run hrun hsound hv
  obtain hfinished | ⟨hwaiting, hinbound, -, -⟩ := Process.reader_of_stalled hrun hstalled hv
  · exact absurd hopen (hcaused.linked.finished hfinished)
  obtain ⟨fs, hfs, hparse⟩ := hcaused.reads.parseAll_received hwaiting
  rw [v.received_eq hinbound, hstream, parseAll_flood] at hparse
  have hframes : v.frames = flood m := by
    rw [hfs, ← (Parsed.mk.inj hparse).1, List.map_map]
    exact List.map_id _
  have hreplies := congrArg List.length (replies_of_view hrun hv)
  have hpongs : (flood m).filterMap responseTo = List.replicate m .pong :=
    List.filterMap_replicate_of_some rfl
  rw [hframes, hpongs, phased_run hrun hv, hwaiting] at hreplies
  have hmany : ((v.offers.map (·.frame)).filter isReply).length ≤ v.offers.length :=
    (List.length_filter_le _ _).trans_eq (List.length_map _)
  have hroom := length_offers_le hrun hsound hes hv hopen
  have hcount : (greeted (ReaderPhase.waiting).status (List.replicate m .pong)).length = m + 1 :=
    congrArg (· + 1) List.length_replicate
  omega

/-- It is cut off as a slow consumer, if it has not closed its side. -/
lemma slow_of_flood (hm : defaultOutboundCapacity ≤ m) (hclosed : v.link.socket.closed = false) :
    v.state.closeWith = some .slowConsumer := by
  obtain ⟨reason, hreason⟩ := Option.ne_none_iff_exists'.mp
    (closing_of_flood hrun hsound hes hstalled hv hstream hm)
  have hcause := (caused_run hrun hsound hv).cause reason hreason
  cases reason with
  | slowConsumer => exact hreason
  | protocolError => exact absurd hcause (not_malformed_flood hstream)
  | peerClosed =>
      rw [hcause.2.1] at hclosed
      cases hclosed

end flood

/-- A client floods the server with pings, and its writer does not get to write: it is cut off. -/
lemma exists_slow : ∃ es s v, run Process.step (.initStack 1 4 2) es = some s ∧
    s.view 0 0 = some v ∧ v.state.closeWith = some .slowConsumer := by
  -- the flood is kept from being computed
  obtain ⟨m, hm⟩ : ∃ m, defaultOutboundCapacity ≤ m := ⟨_, le_rfl⟩
  have hsome : (run Process.step (.initStack 1 4 2) [.connect 0, .start 0 0]).bind (fun s =>
      (s.view 0 0).map fun v => (v.link.socket.stream, v.link.socket.closed)) =
        some ([], false) := by decide +kernel
  obtain ⟨s₀, hs₀, hview⟩ := Option.bind_eq_some_iff.mp hsome
  obtain ⟨v₀, hv₀, hsocket⟩ := Option.map_eq_some_iff.mp hview
  obtain ⟨hstream₀, hclosed₀⟩ := Prod.mk.inj hsocket
  obtain ⟨s₁, v₁, hsend, hv₁, hstream₁, hclosed₁⟩ :=
    Process.exists_send_client hv₀ hclosed₀ ((flood m).map encode).flatten
  have hrun₁ := run_append_eq_some.mpr ⟨s₀, hs₀, run_cons_eq_some.mpr ⟨s₁, hsend, run_nil s₁⟩⟩
  obtain ⟨es₂, s₂, hes₂, hrun₂, hstalled⟩ := Process.exists_stalled hrun₁
  obtain ⟨v₂, hv₂, hstream₂⟩ := Process.stream_from (fun e he => (hes₂ e he).1) hrun₂ hv₁
  obtain ⟨w, hw, hclosed₂⟩ := Process.closed_from (fun e he => (hes₂ e he).1) hrun₂ hv₁
  obtain rfl := Option.some.inj (hw.symm.trans hv₂)
  have hall := run_append_eq_some.mpr ⟨s₁, hrun₁, hrun₂⟩
  set start : List (Event 1) :=
    [.connect 0, .start 0 0] ++ [.send 0 0 ((flood m).map encode).flatten]
  have hstart : ∀ e ∈ start, e.fault = false ∧ ∀ failed, e.agent ≠ .writer failed := by
    simp [start, Event.fault, Event.agent]
  have hsound : ∀ e ∈ start ++ es₂, e.fault = false ∧ ∀ failed, e.agent ≠ .writer failed := by
    intro e he
    rcases List.mem_append.mp he with he | he
    · exact hstart e he
    · exact ⟨(hes₂ e he).2.2, (hes₂ e he).2.1⟩
  refine ⟨_, s₂, w, hall, hw, slow_of_flood hall (fun e he _ => (hsound e he).1)
    (fun e he _ => (hsound e he).2) hstalled hw ?_ hm (hclosed₂.trans hclosed₁)⟩
  rw [hstream₂, hstream₁, hstream₀]
  rfl

/-! ## Late frames -/

/-- How many frames a reader may still handle when the connection is to close. -/
def ReaderPhase.lateFrames : ReaderPhase → ℕ
  | .starting | .waiting | .parsing _ => 1
  | .checking _ | .finished => 0

/-- **A connection that is to close handles at most one more frame.** Once there is a close reason,
whoever has given it, the reader handles the next frame of a read that is under way or one of the
next read, and returns; if it has just handled one, it handles no more. -/
theorem late_frames {s' : Process B n} {es' : List (Event n)} (hv : s.view i r = some v)
    (hclosing : v.state.closeWith ≠ none) (hrun : run Process.step s es' = some s') :
    ∃ v' late, s'.view i r = some v' ∧ v'.frames = v.frames ++ late ∧
      late.length ≤ v.link.reader.phase.lateFrames := by
  have hkeeps := Process.view_from (I := fun v' => v'.state.closeWith ≠ none ∧ ∃ late,
    v'.frames = v.frames ++ late ∧
      late.length + v'.link.reader.phase.lateFrames ≤ v.link.reader.phase.lateFrames) ?_ ?_ hrun hv
    ⟨hclosing, [], by simp, by simp⟩
  · obtain ⟨v', hv', -, late, hlate, hlen⟩ := hkeeps
    exact ⟨v', late, hv', hlate, by omega⟩
  · rintro v₁ _ v₂ ⟨hclosed, late, hlate, hlen⟩ hmoves
    refine ⟨View.closing_moves hclosed hmoves, ?_⟩
    cases hmoves with
    | send | close | write => exact ⟨late, hlate, hlen⟩
    | start hphase | read k hphase =>
        rw [hphase] at hlen
        exact ⟨late, hlate, hlen⟩
    | overflow | eof | malformed | roundClosed | checkClosed =>
        exact ⟨late, hlate, (Nat.le_add_right _ _).trans hlen⟩
    | frame k f c hphase hparse =>
        rw [hphase] at hlen
        refine ⟨late ++ [f], ?_, ?_⟩
        · show v₁.frames ++ [f] = _
          rw [hlate, List.append_assoc]
        · rw [List.length_append]
          exact hlen
    | round k hphase hparse hopen => exact absurd hopen hclosed
    | check k hphase hopen => exact absurd hopen hclosed
  · rintro v₁ o ⟨hclosed, late, hlate, hlen⟩ -
    exact ⟨View.closing_offer hclosed o, late, hlate, hlen⟩

/-- A client floods the server with pings, and its writer does not get to write. It is cut off as a
slow consumer while its reader is still there; then all else goes on until the server is at rest,
and the reader has handled at most one ping more. -/
theorem late_frames_slow_consumer :
    ∃ es s v es' s' v' late, run Process.step (.initStack 1 4 2) es = some s ∧
      s.view 0 0 = some v ∧ v.state.closeWith = some .slowConsumer ∧
      v.link.reader.phase ≠ .finished ∧ run Process.step s es' = some s' ∧ s'.AtRest ∧
      s'.view 0 0 = some v' ∧ v'.frames = v.frames ++ late ∧
      late.length ≤ v.link.reader.phase.lateFrames := by
  obtain ⟨es₁, s₁, w, hall, hw, hslow⟩ := exists_slow
  -- the event that cuts it off, and then on to rest
  obtain ⟨es, e, es', s, s', v, v', hsplit, hrun, hv, hopen, hstep, hv', hreason, hrun'⟩ :=
    exists_closing hall hw hslow
  obtain ⟨es'', s'', hes'', hrun'', hrest⟩ := Process.exists_rest hall
  have hcontinue := run_append_eq_some.mpr ⟨s₁, hrun', hrun''⟩
  have hreached := run_append_eq_some.mpr
    ⟨s, hrun, run_cons_eq_some.mpr ⟨s', hstep, run_nil s'⟩⟩
  obtain ⟨v'', late, hv'', hlate, hlen⟩ :=
    late_frames hv' (by rw [hreason]; exact Option.some_ne_none _) hcontinue
  exact ⟨_, s', v', _, s'', v'', late, hreached, hv', hreason,
    not_finished_of_slow hrun hstep hv hopen hv' hreason, hcontinue, hrest, hv'', hlate, hlen⟩

/-! ## The farewell -/

/-- The connection has come to its end, for this reason, when it was as in `v`. -/
structure View.ClosedIn (v : View) (reason : CloseReason) (w : View) : Prop where
  reason : w.state.closeWith = some reason
  finished : w.link.reader.phase = .finished
  frames : w.frames = v.frames
  accepted : w.acceptedOffers = v.offers

namespace View.ClosedIn

variable {w w' : View}

/-- A connection that was closed for a reason stays so when it moves. -/
lemma moves (h : v.ClosedIn reason w) (hmoves : w.Moves a w') : v.ClosedIn reason w' := by
  obtain ⟨hfinished, hframes, -⟩ := hmoves.of_finished h.finished
  refine ⟨View.closeWith_moves h.reason hmoves, hfinished, hframes.trans h.frames, ?_⟩
  rw [View.acceptedOffers, hmoves.offers]
  exact h.accepted

/-- It stays so when more is offered. -/
lemma offer (h : v.ClosedIn reason w) {o : Offer} (ho : o.outcome = (w.state.enqueue o.bytes).1) :
    v.ClosedIn reason (w.offer o) := by
  have hclosing : w.state.closeWith ≠ none := by simp [h.reason]
  rw [w.state.enqueue_of_closing o.bytes hclosing] at ho
  have hstate : (w.offer o).state = (w.state.enqueue o.bytes).2 := rfl
  refine ⟨?_, h.finished, h.frames, ?_⟩
  · rw [hstate, w.state.enqueue_of_closing o.bytes hclosing]
    exact h.reason
  · show (w.offers ++ [o]).filter _ = _
    rw [List.filter_append, List.filter_cons_of_neg (by simp [ho]), List.filter_nil,
      List.append_nil]
    exact h.accepted

end View.ClosedIn

/-- Offers give no reason but a slow consumer. -/
lemma View.Offered.closeWith {os : List Offer} (h : v.Offered os v')
    (hopen : v.state.closeWith = none) :
    v'.state.closeWith = none ∨ v'.state.closeWith = some .slowConsumer := by
  refine h.invariant (I := fun w => w.state.closeWith = none ∨
    w.state.closeWith = some .slowConsumer) ?_ (Or.inl hopen)
  intro w o hw _
  have hstate : (w.offer o).state = (w.state.enqueue o.bytes).2 := rfl
  rw [hstate]
  obtain ⟨-, henqueue⟩ | ⟨-, -, henqueue⟩ | ⟨state, henqueue, -, -, -, -, -, -, -, hopen⟩ :=
    w.state.enqueue_cases o.bytes
  · rw [henqueue]
    exact hw
  · rw [henqueue]
    exact Or.inr rfl
  · rw [henqueue]
    exact Or.inl hopen

end Aulon.Server
