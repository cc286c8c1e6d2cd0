import Aulon.Server.Addressing
import Aulon.Server.Causes

/-!
# From client to client

What a client can see of the server, from the bytes that some clients have written to their sockets
to those that another one reads from its own. In between are the reads and their sizes, the parser,
the handlers and the trie of every shard, the inboxes, the outbound buffers with their overflows,
and the writes, of which any may fail.

* `handled_of_mem_trace` — every frame the broker handles was sent by the client it is handled for.
* `parseAll_sent` — what a writer has sent parses into frames that were accepted.
* `accepted_run` — frames are accepted up to the point where the connection is to close.
* `client_view` — and these are answers, and the publications the client has asked for.
-/

namespace Aulon.Server

open Aulon.Lib Aulon.Core Aulon.Proto

variable {B : FixedBufPool} {n inboxCapacity poolCapacity : ℕ} {es : List (Event n)}
  {s : Process B n} {i : Fin n} {r : ConnRef} {v : View}

/-- Every frame the broker handles for a connection was sent by its client. -/
lemma handled_of_mem_trace
    (hrun : run Process.step (.init n inboxCapacity poolCapacity) es = some s) {f : Frame}
    (hf : .task i (.frame r f) ∈ s.trace) :
    ∃ v, s.view i r = some v ∧ f ∈ v.link.socket.requests := by
  have hmem : f ∈ framesOf i r s.trace :=
    List.mem_filterMap.mpr ⟨_, hf, by simp [Action.frameOf]⟩
  have hlt : r < (s.runtimes i).links.length := by
    by_contra hge
    rw [Process.length_links hrun i, not_lt] at hge
    rw [framesOf_eq_nil (Process.trace_run hrun) hge] at hmem
    cases hmem
  obtain ⟨v, hv⟩ := Process.view_isSome (Process.length_links hrun i) hlt
  refine ⟨v, hv, (reads_run hrun hv).isPrefix.subset ?_⟩
  rwa [Process.frames_of_view hv]

/-- The parser has let every handled frame through. -/
lemma parsed_of_mem_trace
    (hrun : run Process.step (.init n inboxCapacity poolCapacity) es = some s) (j : Fin n)
    (r : ConnRef) (f : Frame) (hf : .task j (.frame r f) ∈ s.trace) :
    ∃ buf c, parseFrame buf = .frame f c := by
  obtain ⟨v, -, hmem⟩ := handled_of_mem_trace hrun hf
  obtain ⟨x, hx, rfl⟩ := List.mem_map.mp hmem
  obtain ⟨buf, hbuf⟩ := exists_parse_of_mem incremental_parseFrame hx
  exact ⟨buf, x.2, hbuf⟩

/-- Does a client connect to shard `i`? -/
def Event.connects (i : Fin n) : Event n → Bool
  | .connect j => j = i
  | _ => false

/-- Only clients connect. -/
lemma countP_connects_append {es' : List (Event n)} (hes : ∀ e ∈ es', e.agent ≠ .client)
    (es : List (Event n)) : (es ++ es').countP (·.connects i) = es.countP (·.connects i) := by
  have hnone : es'.countP (·.connects i) = 0 := by
    refine List.countP_eq_zero.mpr fun e he hconnects => hes e he ?_
    cases e with
    | connect j => rfl
    | _ => cases hconnects
  rw [List.countP_append, hnone, Nat.add_zero]

/-- Ids are taken by clients that connect, one each. -/
lemma takesId_step {s' : Process B n} {e : Event n} (hstep : s.step e = some s') (i : Fin n) :
    s'.trace.countP (·.takesId i) =
      s.trace.countP (·.takesId i) + if e.connects i then 1 else 0 := by
  obtain ⟨p, t, hnext, hacts, rfl⟩ := Process.step_eq_some hstep
  obtain ⟨htrace, -⟩ := Process.trace_acts hacts
  have hcount : p.1.countP (·.takesId i) = if e.connects i then 1 else 0 := by
    have hn := Process.next_eq_some hnext
    cases hconn : e.conn with
    | some x =>
        have hown := Process.own_of_next hnext hconn
        have hnone : e.connects i = false := by
          cases e with
          | connect j => cases hconn
          | _ => rfl
        rw [hnone]
        refine List.countP_eq_zero.mpr fun a ha htakes => ?_
        have haconn := hown.actions a ha
        unfold Action.takesId at htakes
        split at htakes
        · cases haconn
        · cases htakes
    | none =>
        cases e with
        | connect j =>
            obtain ⟨-, rfl⟩ := hn
            unfold acceptPlan
            split
            · simp [List.countP_singleton, Action.takesId, Event.connects]
            · split <;> simp [List.countP_singleton, Action.takesId, Event.connects]
        | push j kicks | drainPop j =>
            dsimp only at hn
            rw [hn]
            rfl
        | drainRead j =>
            obtain ⟨-, -, -, rfl⟩ := hn
            rfl
        | drainFail j =>
            obtain ⟨-, -, rfl⟩ := hn
            rfl
        | _ => cases hconn
  show t.trace.countP _ = _
  rw [htrace, List.countP_append, hcount]

/-- An id is taken for every client that connects, and for no other. -/
lemma takesId_run (hrun : run Process.step (.init n inboxCapacity poolCapacity) es = some s)
    (i : Fin n) : s.trace.countP (·.takesId i) = es.countP (·.connects i) := by
  refine run_history (I := fun es (s : Process B n) =>
    s.trace.countP (·.takesId i) = es.countP (·.connects i)) rfl ?_ hrun
  intro es s e s' _ ih hstep
  rw [takesId_step hstep, ih, List.countP_append, List.countP_singleton]

/-- The offers to a connection are proper for some connection of its shard. -/
lemma proper_of_view (hrun : run Process.step (.init n inboxCapacity poolCapacity) es = some s)
    (hv : s.view i r = some v) {o : Offer} (ho : o ∈ v.offers) : ∃ r', o.Proper s.trace i r' := by
  rw [Process.offers_eq_of_view hv] at ho
  obtain ⟨r', hproper, -⟩ := proper_run (Process.trace_run hrun) o (List.mem_filter.mp ho).1
  exact ⟨r', hproper⟩

/-- They are proper for the connection itself, and wanted, as long as ids are distinct. -/
lemma offers_of_view (hrun : run Process.step (.init n inboxCapacity poolCapacity) es = some s)
    (hfew : es.countP (·.connects i) ≤ 2 ^ 32) (hv : s.view i r = some v) {o : Offer}
    (ho : o ∈ v.offers) : o.Proper s.trace i r ∧ o.Wanted s.trace i ∧ o.target = r := by
  have htrace := Process.trace_run hrun
  rw [← takesId_run hrun] at hfew
  have hdistinct := nodup_ids_of_new htrace (takesNewId_of_few hfew)
  rw [Process.offers_eq_of_view hv] at ho
  obtain ⟨hmem, htarget⟩ := List.mem_filter.mp ho
  have htarget : o.target = r := of_decide_eq_true htarget
  obtain ⟨r', hproper, hr'⟩ := proper_run htrace o hmem
  rw [hr' hdistinct, htarget] at hproper
  exact ⟨hproper, wanted_run htrace hdistinct o hmem, htarget⟩

/-! ## What is offered to a connection -/

/-- The frames offered to a connection that satisfy `p`. -/
def offered (p : Frame → Bool) (r : ConnRef) (os : List Offer) : List Frame :=
  ((os.filter (·.target = r)).map (·.frame)).filter p

/-- What was offered in two parts. -/
lemma offered_append (p : Frame → Bool) (r : ConnRef) (os os' : List Offer) :
    offered p r (os ++ os') = offered p r os ++ offered p r os' := by
  simp only [offered, List.filter_append, List.map_append]

/-- Nothing that is wanted was offered. -/
lemma offered_eq_nil {p : Frame → Bool} {os : List Offer}
    (h : ∀ o ∈ os, o.target = r → p o.frame = false) : offered p r os = [] := by
  unfold offered
  rw [List.filter_eq_nil_iff]
  intro f hf
  obtain ⟨o, ho, rfl⟩ := List.mem_map.mp hf
  obtain ⟨hmem, htarget⟩ := List.mem_filter.mp ho
  simp [h o hmem (of_decide_eq_true htarget)]

/-! ## The bytes a client gets -/

/-- The frame a writer sends last. -/
def goodbye (reason : Option CloseReason) : List Frame :=
  ((reason.bind (·.errText)).map Frame.err).toList

/-- The farewell is the encoding of the frame that says goodbye. -/
lemma elim_farewell (reason : Option CloseReason) :
    reason.elim [] farewell = ((goodbye reason).map encode).flatten := by
  cases reason with
  | none => rfl
  | some reason => cases htext : reason.errText <;> simp [farewell, goodbye, htext]

/-- The frame that says goodbye is parsed back. -/
lemma parseFrame_goodbye {reason : Option CloseReason} {f : Frame} (hf : f ∈ goodbye reason)
    (rest : Bytes) : parseFrame (encode f ++ rest) = .frame f (encode f).length := by
  obtain ⟨text, htext, rfl⟩ : ∃ text,
      (text = ascii "slow consumer" ∨ text = ascii "protocol error") ∧ f = .err text := by
    rcases reason with _ | _ | _ | _
    · cases hf
    · exact ⟨_, Or.inl rfl, List.mem_singleton.mp hf⟩
    · exact ⟨_, Or.inr rfl, List.mem_singleton.mp hf⟩
    · cases hf
  rcases htext with rfl | rfl
  · exact parseFrame_encode (f := .err _) (findCrlf_eq_none.mp (by decide +kernel))
      (by decide +kernel) rest
  · exact parseFrame_encode (f := .err _) (findCrlf_eq_none.mp (by decide +kernel))
      (by decide +kernel) rest

/-- The frames that were accepted, and the farewell, can be read back from their encodings. -/
lemma parseFrame_accepted
    (hrun : run Process.step (.init n inboxCapacity poolCapacity) es = some s)
    (hv : s.view i r = some v) {reason : Option CloseReason} {f : Frame}
    (hf : f ∈ v.acceptedOffers.map (·.frame) ++ goodbye reason) (rest : Bytes) :
    parseFrame (encode f ++ rest) = .frame f (encode f).length := by
  rcases List.mem_append.mp hf with hf | hf
  · obtain ⟨o, ho, rfl⟩ := List.mem_map.mp hf
    obtain ⟨r', hoffer⟩ := proper_of_view hrun hv (List.mem_filter.mp ho).1
    have hparse := hoffer.parseFrame (parsed_of_mem_trace hrun) rest
    rwa [hoffer.1] at hparse
  · exact parseFrame_goodbye hf rest

/-- The bytes that were accepted, and those of the farewell, are encodings of frames. -/
lemma bytes_accepted (hrun : run Process.step (.init n inboxCapacity poolCapacity) es = some s)
    (hv : s.view i r = some v) (reason : Option CloseReason) :
    (v.acceptedOffers.map (·.bytes)).flatten ++ reason.elim [] farewell =
      ((v.acceptedOffers.map (·.frame) ++ goodbye reason).map encode).flatten := by
  have hbytes : v.acceptedOffers.map (·.bytes) = v.acceptedOffers.map fun o => encode o.frame := by
    refine List.map_congr_left fun o ho => ?_
    obtain ⟨r', hoffer⟩ := proper_of_view hrun hv (List.mem_filter.mp ho).1
    exact hoffer.1
  rw [elim_farewell, hbytes, List.map_append, List.flatten_append, List.map_map]
  rfl

/-- The bytes of the frames that were accepted, and of the farewell, parse into these frames. -/
lemma parseAll_accepted (hrun : run Process.step (.init n inboxCapacity poolCapacity) es = some s)
    (hv : s.view i r = some v) (reason : Option CloseReason) :
    ∃ fs, parseAll parseFrame ((v.acceptedOffers.map (·.bytes)).flatten ++
        reason.elim [] farewell) = ⟨fs, [], none⟩ ∧
      fs.map (·.1) = v.acceptedOffers.map (·.frame) ++ goodbye reason := by
  rw [bytes_accepted hrun hv, parseAll_flatten incremental_parseFrame rfl
    fun f hf => parseFrame_accepted hrun hv hf]
  refine ⟨_, rfl, ?_⟩
  rw [List.map_map, Function.comp_def, List.map_id']

/-- What a writer has sent is the start of the encodings of the frames that were accepted; last may
come the farewell. -/
lemma sent_isPrefix (hrun : run Process.step (.init n inboxCapacity poolCapacity) es = some s)
    (hv : s.view i r = some v) :
    v.link.socket.sent <+:
      (v.acceptedOffers.map (·.bytes)).flatten ++ v.state.closeWith.elim [] farewell := by
  have hlogged : Writer.acceptedBytes (v.link.writerOf v.state).log = _ := logged_run hrun hv
  have hreason : (v.link.writerOf v.state).state.closeWith = v.state.closeWith := rfl
  have hsent := (served_run hrun hv).faithful.isPrefix
  rwa [hlogged, hreason] at hsent

/-- What a writer has sent, or the start of it that has come through, parses without error, and into
the frames that were accepted, in their order; last may come the farewell. -/
lemma parseAll_sent (hrun : run Process.step (.init n inboxCapacity poolCapacity) es = some s)
    (hv : s.view i r = some v) {seen : Bytes} (hseen : seen <+: v.link.socket.sent) :
    (parseAll parseFrame seen).error = none ∧ (parseAll parseFrame seen).frames.map (·.1) <+:
      v.acceptedOffers.map (·.frame) ++ goodbye v.state.closeWith := by
  obtain ⟨fs, hparse, hfs⟩ := parseAll_accepted hrun hv v.state.closeWith
  -- the writer may send all that was accepted and the farewell; what was seen is the start of it
  obtain ⟨rest, hrest⟩ := hseen.trans (sent_isPrefix hrun hv)
  rw [← hrest] at hparse
  constructor
  · exact parseAll_error_of_append incremental_parseFrame seen rest (by rw [hparse])
  · have hframes := (parseAll_frames_append incremental_parseFrame seen rest).map (·.1)
    rwa [hparse, hfs] at hframes

/-- Offers are accepted up to some point, and all of them while there is no reason to close. -/
lemma accepted_run (hrun : run Process.step (.init n inboxCapacity poolCapacity) es = some s)
    (hv : s.view i r = some v) : v.acceptedOffers <+: v.offers ∧
      (v.state.closeWith = none → v.acceptedOffers = v.offers) := by
  refine Process.view_run (I := fun v => v.acceptedOffers <+: v.offers ∧
    (v.state.closeWith = none → v.acceptedOffers = v.offers)) ?_ ?_ ?_ hrun hv
  · intro id readBuf writeBuf _ _
    exact ⟨List.prefix_refl _, fun _ => rfl⟩
  · rintro v a v' ⟨hinitial, hall⟩ hmoves
    have hopen : v'.state.closeWith = none → v.state.closeWith = none := by
      intro hnone
      by_contra hclosing
      exact View.closing_moves hclosing hmoves hnone
    have hoffers : v'.offers = v.offers := by cases hmoves <;> rfl
    unfold View.acceptedOffers at hinitial hall ⊢
    rw [hoffers]
    exact ⟨hinitial, fun hnone => hall (hopen hnone)⟩
  · rintro v o ⟨hinitial, hall⟩ houtcome
    have haccepted : (v.offer o).acceptedOffers =
        v.acceptedOffers ++ if o.outcome = .ok then [o] else [] := by
      show (v.offers ++ [o]).filter _ = _
      rw [List.filter_append, List.filter_singleton]
      by_cases hok : o.outcome = .ok <;> simp [View.acceptedOffers, hok]
    have hoffers : (v.offer o).offers = v.offers ++ [o] := rfl
    have hstate : (v.offer o).state = (v.state.enqueue o.bytes).2 := rfl
    rw [haccepted, hoffers, hstate]
    obtain ⟨hclosing, henqueue⟩ | ⟨-, -, henqueue⟩ | ⟨state, henqueue, hopen, -⟩ :=
      v.state.enqueue_cases o.bytes
    · rw [houtcome, henqueue, if_neg (by simp), List.append_nil]
      exact ⟨hinitial.trans (List.prefix_append _ _), fun hnone => absurd hnone hclosing⟩
    · rw [houtcome, henqueue, if_neg (by simp), List.append_nil]
      exact ⟨hinitial.trans (List.prefix_append _ _), fun hnone => by cases hnone⟩
    · rw [houtcome, henqueue, if_pos rfl, hall hopen]
      exact ⟨List.prefix_refl _, fun _ => rfl⟩

/-- What a server at rest has sent on an open connection parses into all the frames offered to
it. -/
lemma parseAll_sent_of_open
    (hrun : run Process.step (.init n inboxCapacity poolCapacity) es = some s)
    (hv : s.view i r = some v) (hopen : v.Open) :
    ∃ fs, parseAll parseFrame v.link.socket.sent = ⟨fs, [], none⟩ ∧
      fs.map (·.1) = v.offers.map (·.frame) := by
  obtain ⟨fs, hparse, hfs⟩ := parseAll_accepted hrun hv none
  have hall := (accepted_run hrun hv).2 hopen.reason
  refine ⟨fs, ?_, ?_⟩
  · rw [hopen.sent, ← hparse]
    exact congrArg _ (List.append_nil _).symm
  · rw [hfs, hall]
    exact List.append_nil _

/-! ## What a client sees -/

/-- Some client has sent a `PUB` with these fields. -/
def Process.Published (s : Process B n) (frame : PublishedFrame) : Prop :=
  ∃ j r v, s.view j r = some v ∧
    .pub frame.subject frame.replyTo frame.payload ∈ v.link.socket.requests

/-- The client has sent a `SUB` with this sid, to a pattern that matches the subject. -/
def View.Wants (v : View) (subject sid : Bytes) : Prop :=
  ∃ tokens pattern subject' queueGroup, parsePublisherSubject subject = .ok tokens ∧
    patternOf subject' = some pattern ∧ Matches pattern tokens = true ∧
    .sub subject' queueGroup sid ∈ v.link.socket.requests

/-- What a proper and wanted offer brings to its target, in terms of what the clients have sent. -/
lemma frame_of_view (hrun : run Process.step (.init n inboxCapacity poolCapacity) es = some s)
    (hfew : es.countP (·.connects i) ≤ 2 ^ 32) (hv : s.view i r = some v) {o : Offer}
    (ho : o ∈ v.offers) :
    (∃ options, o.frame = .info options) ∨ o.frame = .pong ∨ (∃ message, o.frame = .err message) ∨
      ∃ frame sid, o.frame = frame.msg sid ∧ s.Published frame ∧ v.Wants frame.subject sid := by
  obtain ⟨hproper, hwanted, htarget⟩ := offers_of_view hrun hfew hv ho
  rcases hproper.brings with hinfo | hpong | herr | ⟨frame, sid, hframe, ⟨j, r', hpub⟩, -⟩
  · exact Or.inl hinfo
  · exact Or.inr (Or.inl hpong)
  · exact Or.inr (Or.inr (Or.inl herr))
  refine Or.inr (Or.inr (Or.inr ⟨frame, sid, hframe, ?_, ?_⟩))
  · obtain ⟨v', hv', hmem⟩ := handled_of_mem_trace hrun hpub
    exact ⟨j, r', v', hv', hmem⟩
  · obtain ⟨tokens, pattern, subject', hparse, hpattern, hmatches, hsub⟩ := hwanted _ _ _ _ hframe
    rw [htarget] at hsub
    obtain ⟨v', hv', hmem⟩ := handled_of_mem_trace hrun hsub
    rw [hv] at hv'
    cases hv'
    exact ⟨tokens, pattern, subject', o.group, hparse, hpattern, hmatches, hmem⟩

/-- **What a client sees.** Whatever the clients send and however it is cut into reads, whichever
tasks run in whichever order and whichever reads and writes fail: what has come through to a client
never breaks the protocol, and each frame of it is a greeting, a pong, an error, or a message that
carries a `PUB` some client has sent, under a sid for which this client has itself sent a `SUB` that
matches the subject. The condition is that no more than `2 ^ 32` clients have connected to the
shard. -/
theorem client_view (hrun : run Process.step (.init n inboxCapacity poolCapacity) es = some s)
    (hfew : es.countP (·.connects i) ≤ 2 ^ 32) (hv : s.view i r = some v) {seen : Bytes}
    (hseen : seen <+: v.link.socket.sent) :
    (parseAll parseFrame seen).error = none ∧ ∀ f ∈ (parseAll parseFrame seen).frames.map (·.1),
      (∃ options, f = .info options) ∨ f = .pong ∨ (∃ message, f = .err message) ∨
        ∃ frame sid, f = frame.msg sid ∧ s.Published frame ∧ v.Wants frame.subject sid := by
  obtain ⟨herror, hframes⟩ := parseAll_sent hrun hv hseen
  refine ⟨herror, ?_⟩
  intro f hf
  rcases List.mem_append.mp (hframes.subset hf) with hf | hf
  · obtain ⟨o, ho, rfl⟩ := List.mem_map.mp hf
    exact frame_of_view hrun hfew hv (List.mem_filter.mp ho).1
  · obtain ⟨text, -, rfl⟩ := Option.map_eq_some_iff.mp (Option.mem_toList.mp hf)
    exact Or.inr (Or.inr (Or.inl ⟨text, rfl⟩))

/-- A client has subscribed, has pinged and has published to itself: the greeting, the pong and its
own message have come through. -/
theorem client_view_chat :
    ∃ s v, run Process.step (.initStack 1 4 2) (chatEvents 0 ++ [.poll 0 0, .poll 0 0]) = some s ∧
      s.view 0 0 = some v ∧ v.link.socket.stream = chat ∧
      v.link.socket.sent = (chatReplies.map encode).flatten ∧
      (parseAll parseFrame v.link.socket.sent).error = none ∧
      ∀ f ∈ (parseAll parseFrame v.link.socket.sent).frames.map (·.1),
        (∃ options, f = .info options) ∨ f = .pong ∨ (∃ message, f = .err message) ∨
          ∃ frame sid, f = frame.msg sid ∧ s.Published frame ∧ v.Wants frame.subject sid := by
  obtain ⟨s, v, hrun, hv, hstream, hsent⟩ := exists_chat_sent
  exact ⟨s, v, hrun, hv, hstream, hsent, client_view hrun (by decide) hv (List.prefix_refl _)⟩

end Aulon.Server
