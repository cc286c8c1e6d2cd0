import Aulon.Server.ClientView
import Aulon.Server.CrossShard

/-!
# From publisher to subscriber

What comes of the `PUB`s that a client sends. Its own shard dispatches each valid one when it
handles it; the others get it through their inboxes, unless these are full, and dispatch it when
they are kicked. Each dispatch brings a block of messages to a subscriber, and in all that the
subscriber gets, the blocks of one publisher stand in the order in which that one has published.

* `published_at_rest` — which publications every shard has dispatched in the end, and where the
  others are.
* `Shard.Blocks`, `blocks_run` — the messages offered to a connection, dispatch by dispatch.
* `publisher_order` — what a subscriber gets of each publisher, and in which order.
-/

namespace Aulon.Server

open Aulon.Lib Aulon.Core Aulon.Proto

variable {B : FixedBufPool} {n inboxCapacity poolCapacity : ℕ} {es : List (Event n)}
  {s : Process B n} {i : Fin n} {r : ConnRef} {v : View}

/-- What a frame asks to publish, if it is a `PUB` within the size limit. -/
def publicationOf : Frame → Option PublishedFrame
  | .pub subject replyTo payload =>
      if payload.length ≤ maxPayloadBytes then some ⟨subject, replyTo, payload⟩ else none
  | _ => none

/-- What an action publishes for a client is the frame that the client's reader has handled, if it
is a `PUB`. -/
lemma published_frameOf (i : Fin n) (r : ConnRef) (a : Action n) :
    ((a.published i).filter (·.1 = r)).map (·.2) =
      (a.frameOf i r).toList.filterMap publicationOf := by
  cases a with
  | task j t =>
      cases t with
      | frame r' f =>
          cases f with
          | pub subject replyTo payload =>
              by_cases hj : j = i <;> by_cases hr : r' = r <;>
                by_cases hlen : payload.length ≤ maxPayloadBytes <;>
                simp [Action.published, Action.frameOf, publicationOf, hj, hr, hlen]
          | _ =>
              rw [Action.frameOf]
              split_ifs <;> rfl
      | _ => rfl
  | _ => rfl

/-- The publications of a client are the `PUB` frames among those that its reader has handled. -/
lemma published_framesOf (i : Fin n) (r : ConnRef) (as : List (Action n)) :
    ((as.flatMap (·.published i)).filter (·.1 = r)).map (·.2) =
      (framesOf i r as).filterMap publicationOf := by
  induction as with
  | nil => rfl
  | cons a as ih =>
      rw [List.flatMap_cons, List.filter_append, List.map_append, ih, published_frameOf,
        ← List.singleton_append, framesOf_append, framesOf_singleton, List.filterMap_append]

/-- The frames of a connection that a shard has dispatched. -/
def Shard.dispatchedFrom (s : Shard n) (origin : Fin n × ConnRef) : List PublishedFrame :=
  (s.dispatches.filter fun d => d.parcel.origin = origin ∧ d.error = none).map (·.parcel.frame)

section routed

variable {b : Broker n} {j : Fin n}

/-- Its own shard has dispatched all that are valid. -/
lemma Shard.Sound.dispatchedFrom_own {s : Shard n} (h : s.Sound i) (r : ConnRef) :
    s.dispatchedFrom (i, r) =
      ((s.pubsOf r).filter (fun p => p.rejected = none)).map (·.frame) := by
  have horigin := congrArg (List.filter fun d => decide (d.error = none)) (h.dispatches_of_origin r)
  rw [List.filter_filter, List.filter_map] at horigin
  unfold Shard.dispatchedFrom
  simp only [Bool.decide_and, Bool.and_comm]
  rw [horigin, List.map_map]
  rfl

/-- Another shard has dispatched what was pushed to it, but for what is still in its inbox. -/
lemma Routed.dispatchedFrom_peer (h : Routed b) (hij : i ≠ j) (r : ConnRef) :
    (b.shards j).dispatchedFrom (i, r) ++ framesFrom (i, r) (b.inboxes j).items =
      (((b.shards i).pubsOf r).filter (·.pushedTo j)).map (·.frame) := by
  rw [← framesFrom_pushedTo, ← h.peer i j hij, ← framesFrom_filter i r (b.inboxes j).items]
  unfold framesFrom Shard.drainedFrom Shard.dispatchedFrom
  rw [List.filter_append, List.map_append]
  refine congrArg (· ++ _) ?_
  rw [List.filter_map, List.map_map, List.filter_filter]
  refine congrArg (List.map _) (List.filter_congr fun d hd => ?_)
  by_cases horigin : d.parcel.origin = (i, r)
  · have hdrained : d.drained = true := by
      by_contra hown
      have hmem : d ∈ (b.shards j).dispatches.filter (!·.drained) :=
        List.mem_filter.mpr ⟨hd, by simpa using hown⟩
      rw [(h.sound j).own] at hmem
      obtain ⟨p, -, rfl⟩ := List.mem_map.mp hmem
      exact hij (congrArg Prod.fst horigin).symm
    simp [horigin, hdrained, ((h.sound j).drained d hd hdrained).2]
  · simp [horigin]

/-- Every shard dispatches what a connection publishes in the order of the publications. -/
lemma Routed.dispatchedFrom_sublist (h : Routed b) (i j : Fin n) (r : ConnRef) :
    ((b.shards j).dispatchedFrom (i, r)).Sublist (((b.shards i).pubsOf r).map (·.frame)) := by
  rcases eq_or_ne i j with rfl | hij
  · rw [(h.sound i).dispatchedFrom_own]
    exact (List.filter_sublist).map _
  · have hpushed := List.sublist_append_left ((b.shards j).dispatchedFrom (i, r))
      (framesFrom (i, r) (b.inboxes j).items)
    rw [h.dispatchedFrom_peer hij r] at hpushed
    exact hpushed.trans ((List.filter_sublist).map _)

/-- A publication that is finished and was not pushed to another shard has met back-pressure. -/
lemma Shard.Sound.backPressureSeen {s : Shard n} (h : s.Sound i) {p : Publication n}
    (hp : p ∈ s.publications) (hvalid : p.rejected = none) (hij : i ≠ j)
    (hpushed : p.pushedTo j = false) : p.backPressureSeen = true := by
  have hpeers := h.finished p hp
  rw [if_pos hvalid] at hpeers
  have hj : j ∈ peers i := List.mem_filter.mpr ⟨List.mem_finRange j, by simpa using hij.symm⟩
  rw [← hpeers] at hj
  obtain ⟨⟨k, pushed⟩, hmem, rfl⟩ := List.mem_map.mp hj
  refine List.any_eq_true.mpr ⟨(k, pushed), hmem, ?_⟩
  cases pushed with
  | false => rfl
  | true =>
      rw [Publication.pushedTo, decide_eq_false_iff_not] at hpushed
      exact absurd hmem hpushed

end routed

/-- The publications of a connection are what its handled frames ask to publish. -/
lemma pubsOf_of_view (hrun : run Process.step (.init n inboxCapacity poolCapacity) es = some s)
    (hv : s.view i r = some v) :
    ((s.broker.shards i).pubsOf r).map (·.frame) = v.frames.filterMap publicationOf := by
  have hpubs := congrArg (fun xs => (xs.filter fun x => decide (x.1 = r)).map (·.2))
    (pubs_run (Process.trace_run hrun) i)
  rw [published_framesOf, List.filter_map, List.map_map] at hpubs
  rw [Process.frames_of_view hv]
  exact hpubs

/-- Is it a message? -/
def isMsg : Frame → Bool
  | .msg _ _ _ _ => true
  | _ => false

/-- Messages that carry one publication differ in their sids only. -/
lemma messages_of_frame {os : List Offer} (frame : PublishedFrame)
    (h : ∀ o ∈ os, ∃ sid, o.frame = frame.msg sid) (r : ConnRef) :
    ∃ sids : List Bytes, offered isMsg r os = sids.map frame.msg := by
  have hrange : offered isMsg r os ∈ Set.range (List.map frame.msg) := by
    rw [Set.range_list_map]
    intro f hf
    obtain ⟨o, ho, rfl⟩ := List.mem_map.mp (List.mem_of_mem_filter hf)
    obtain ⟨sid, hsid⟩ := h o (List.mem_of_mem_filter ho)
    exact ⟨sid, hsid.symm⟩
  obtain ⟨sids, hsids⟩ := hrange
  exact ⟨sids, hsids.symm⟩

/-- An answer is no message. -/
lemma isMsg_of_mem_answers {f : Frame} (hf : f ∈ answers) : isMsg f = false := by
  cases f with
  | msg subject sid replyTo payload =>
      exact absurd hf (by simp [answers])
  | _ => rfl

namespace Shard

variable (sh : Shard n)

/-- Finishing a publication offers no message. -/
lemma grows_finish (p : Publication n) :
    sh.worker.Grows (fun o => isMsg o.frame = false) (sh.finish p).worker := by
  unfold Shard.finish
  split_ifs
  · dsimp only
    refine (sh.worker.extends_emitErrTo p.conn _).grows.mono fun o ho => ?_
    rw [ho.2.2.1]
    rfl
  · exact .of_offers le_rfl rfl rfl

/-- A `PUB` to a bad subject offers no message. -/
lemma grows_handlePub (i : Fin n) (r : ConnRef) {frame : PublishedFrame} {e : SubjectError}
    (hparse : parsePublisherSubject frame.subject = .error e) :
    sh.worker.Grows (fun o => isMsg o.frame = false) (sh.handlePub i r frame).worker := by
  simp only [Shard.handlePub, Worker.dispatchLocal_error hparse]
  exact (sh.worker.grows_emitErrTo r (subjectErrorText_mem e)).mono fun o ho =>
    isMsg_of_mem_answers ho.1

end Shard

/-- A dispatched publication, and the sids under which it was offered to a connection. -/
structure Block (n : ℕ) where
  parcel : Parcel n
  sids : List Bytes

/-- The messages of a block. -/
def Block.messages (x : Block n) : List Frame := x.sids.map x.parcel.frame.msg

/-- The messages offered to a connection are those of its shard's dispatches, one block for each of
them and in their order. -/
def Shard.Blocks (s : Shard n) (r : ConnRef) (blocks : List (Block n)) : Prop :=
  blocks.map (·.parcel) = (s.dispatches.filter (·.error = none)).map (·.parcel) ∧
    offered isMsg r s.worker.offers = blocks.flatMap Block.messages

namespace Shard.Blocks

variable {sh sh' : Shard n} {blocks : List (Block n)}

/-- Where no message is offered and nothing is dispatched, the blocks stay. -/
lemma quiet (h : sh.Blocks r blocks)
    (hgrows : sh.worker.Grows (fun o => isMsg o.frame = false) sh'.worker)
    (hdispatches : sh'.dispatches.filter (·.error = none) =
      sh.dispatches.filter (·.error = none)) : sh'.Blocks r blocks := by
  obtain ⟨-, -, new, hnew, hquiet⟩ := hgrows
  refine ⟨by rw [hdispatches, h.1], ?_⟩
  rw [hnew, offered_append, offered_eq_nil (fun o ho _ => hquiet o ho), List.append_nil, h.2]

/-- A dispatch adds its block. -/
lemma dispatch (h : sh.Blocks r blocks) (sh' : Shard n) (parcel : Parcel n) {drained : Bool}
    (hdispatch : sh.worker.dispatchLocal parcel.frame = .ok sh'.worker)
    (hdispatches : sh'.dispatches = sh.dispatches ++ [⟨parcel, drained, none⟩]) :
    ∃ sids, sh'.Blocks r (blocks ++ [⟨parcel, sids⟩]) := by
  cases hparse : parsePublisherSubject parcel.frame.subject with
  | error e =>
      rw [Worker.dispatchLocal_error hparse] at hdispatch
      cases hdispatch
  | ok tokens =>
      obtain ⟨-, new, hnew, hmsg, -⟩ := Worker.extends_dispatchLocal hparse hdispatch
      obtain ⟨sids, hsids⟩ := messages_of_frame parcel.frame (fun o ho => by
        obtain ⟨sub, -, hframe, -⟩ := hmsg o ho
        exact ⟨sub.sid, hframe⟩) r
      refine ⟨sids, ?_, ?_⟩
      · rw [hdispatches, List.filter_append, List.map_append, List.map_append, h.1]
        rfl
      · rw [hnew, offered_append, h.2, hsids, List.flatMap_append, List.flatMap_singleton]
        rfl

/-- A `PUB` adds a block, or none. -/
lemma handlePub (h : sh.Blocks r blocks) (hidle : sh.activity = .idle) (i : Fin n) (r' : ConnRef)
    (frame : PublishedFrame) : ∃ blocks', (sh.handlePub i r' frame).Blocks r blocks' := by
  obtain ⟨hdispatches, -⟩ := sh.handlePub_spec i r' frame hidle
  dsimp only at hdispatches
  cases hparse : parsePublisherSubject frame.subject with
  | error e =>
      refine ⟨blocks, h.quiet (sh.grows_handlePub i r' hparse) ?_⟩
      rw [hdispatches, subjectError, hparse]
      simp [List.filter_append]
  | ok tokens =>
      obtain ⟨worker, hdispatch⟩ := Worker.dispatchLocal_ok hparse sh.worker
      rw [← sh.worker_handlePub i r' hdispatch] at hdispatch
      rw [subjectError, hparse] at hdispatches
      obtain ⟨sids, hblocks⟩ := h.dispatch _ ⟨(i, r'), frame⟩ hdispatch hdispatches
      exact ⟨_, hblocks⟩

/-- So does a drained frame. -/
lemma dispatchDrained (h : sh.Blocks r blocks) (parcel : Parcel n) :
    ∃ blocks', (sh.dispatchDrained parcel).Blocks r blocks' := by
  unfold Shard.dispatchDrained
  split
  · exact ⟨blocks, h.1.trans (by simp [List.filter_append]), h.2⟩
  · rename_i worker hdispatch
    obtain ⟨sids, hblocks⟩ := h.dispatch { sh with
      worker := worker, dispatches := sh.dispatches ++ [⟨parcel, true, none⟩] } parcel hdispatch rfl
    exact ⟨_, hblocks⟩

end Shard.Blocks

/-- A step of the broker adds at most a block. -/
lemma blocks_step {b b' : Broker n} {a : Action n} (hstep : step b a = some b') {i : Fin n}
    {r : ConnRef} {blocks : List (Block n)} (h : (b.shards i).Blocks r blocks) :
    ∃ blocks', (b'.shards i).Blocks r blocks' := by
  rcases step_shard hstep i with
    ⟨t, rfl, hidle, hrun⟩ | ⟨-, ⟨p, hs⟩ | ⟨parcel, -, hs⟩ | ⟨activity, hs⟩⟩
  · rcases Shard.run_cases hrun with ⟨r', subject, replyTo, payload, -, -, -, hs⟩ |
      ⟨-, -, -, hdispatches, hgrows⟩
    · rw [hs]
      exact h.handlePub hidle i r' ⟨subject, replyTo, payload⟩
    · exact ⟨blocks, h.quiet (hgrows.mono fun o ho => isMsg_of_mem_answers ho.1)
        (by rw [hdispatches])⟩
  · rw [hs]
    exact ⟨blocks, h.quiet ((b.shards i).grows_finish p) rfl⟩
  · rw [hs]
    exact h.dispatchDrained parcel
  · rw [hs]
    exact ⟨blocks, h⟩

/-- After every run, the messages offered to a connection come in blocks. -/
lemma blocks_run {capacity : ℕ} {as : List (Action n)} {b : Broker n}
    (hrun : run step (Broker.init n capacity) as = some b) (i : Fin n) (r : ConnRef) :
    ∃ blocks, (b.shards i).Blocks r blocks :=
  run_invariant (I := fun b : Broker n => ∃ blocks, (b.shards i).Blocks r blocks)
    (fun _ _ _ ⟨_, h⟩ hstep => blocks_step hstep h) ⟨[], rfl, rfl⟩ hrun

/-! ## The order of messages -/

/-- The blocks of one publisher are what its shard's dispatches have taken from it. -/
lemma Shard.Blocks.frames {sh : Shard n} {blocks : List (Block n)} (h : sh.Blocks r blocks)
    (origin : Fin n × ConnRef) : (blocks.filter (·.parcel.origin = origin)).map (·.parcel.frame) =
      sh.dispatchedFrom origin := by
  have hparcels := congrArg (framesFrom origin) h.1
  unfold framesFrom at hparcels
  rw [List.filter_map, List.filter_map, List.map_map, List.map_map, List.filter_filter] at hparcels
  simpa only [Shard.dispatchedFrom, Bool.decide_and, Function.comp_def] using hparcels

/-- What is dispatched comes from a connection. -/
lemma view_of_dispatched (hrun : run Process.step (.init n inboxCapacity poolCapacity) es = some s)
    {j : Fin n} {q : ConnRef} {frame : PublishedFrame}
    (hmem : frame ∈ (s.broker.shards i).dispatchedFrom (j, q)) : ∃ u, s.view j q = some u := by
  have htrace := Process.trace_run hrun
  have hpub := ((routed_run htrace).dispatchedFrom_sublist j i q).subset hmem
  obtain ⟨p, hp, -⟩ := List.mem_map.mp hpub
  obtain ⟨hp, hconn⟩ := List.mem_filter.mp hp
  have hpublished : (p.conn, p.frame) ∈ s.trace.flatMap (·.published j) := by
    rw [← pubs_run htrace]
    exact List.mem_map_of_mem hp
  obtain ⟨a, ha, hmem⟩ := List.mem_flatMap.mp hpublished
  rw [eq_of_mem_published hmem, of_decide_eq_true hconn] at ha
  obtain ⟨u, hu, -⟩ := handled_of_mem_trace hrun ha
  exact ⟨u, hu⟩

/-- The frame that says goodbye is no message. -/
lemma filter_isMsg_goodbye (reason : Option CloseReason) :
    (goodbye reason).filter isMsg = [] := by
  rcases reason with _ | _ | _ | _ <;> rfl

/-- **Messages come in the order of their publisher.** The messages that have come through to a
client fall into blocks, each with one publication under some sids; and for every publisher, its
blocks carry publications that this one has itself sent, each sent `PUB` at most once and in the
order in which they were sent. This holds across shards, however the clients' streams are cut into
reads and the tasks are scheduled, and whatever overflows or fails. -/
theorem publisher_order (hrun : run Process.step (.init n inboxCapacity poolCapacity) es = some s)
    (hv : s.view i r = some v) {seen : Bytes} (hseen : seen <+: v.link.socket.sent) :
    ∃ blocks : List (Block n), ((parseAll parseFrame seen).frames.map (·.1)).filter isMsg <+:
        blocks.flatMap Block.messages ∧
      ∀ x ∈ blocks, ∃ u, s.view x.parcel.origin.1 x.parcel.origin.2 = some u ∧
        ((blocks.filter (·.parcel.origin = x.parcel.origin)).map (·.parcel.frame)).Sublist
          (u.link.socket.requests.filterMap publicationOf) := by
  have htrace := Process.trace_run hrun
  obtain ⟨blocks, hblocks⟩ := blocks_run htrace i r
  refine ⟨blocks, ?_, fun x hx => ?_⟩
  · have hseen := (parseAll_sent hrun hv hseen).2.filter isMsg
    have haccepted := ((accepted_run hrun hv).1.map (·.frame)).filter isMsg
    rw [List.filter_append, filter_isMsg_goodbye, List.append_nil] at hseen
    rw [Process.offers_eq_of_view hv] at haccepted
    rw [← hblocks.2]
    exact hseen.trans haccepted
  · have hframes := hblocks.frames x.parcel.origin
    have hmem : x.parcel.frame ∈ (s.broker.shards i).dispatchedFrom x.parcel.origin := by
      rw [← hframes]
      exact List.mem_map_of_mem (List.mem_filter.mpr ⟨hx, by simp⟩)
    obtain ⟨u, hu⟩ := view_of_dispatched hrun hmem
    refine ⟨u, hu, ?_⟩
    have hpubs := (routed_run htrace).dispatchedFrom_sublist x.parcel.origin.1 i x.parcel.origin.2
    rw [pubsOf_of_view hrun hu] at hpubs
    rw [hframes]
    exact hpubs.trans ((reads_run hrun hu).isPrefix.filterMap publicationOf).sublist

/-- A client has subscribed and has published to itself: its own message has come through. -/
theorem publisher_order_chat :
    ∃ s v, run Process.step (.initStack 1 4 2) (chatEvents 0 ++ [.poll 0 0, .poll 0 0]) = some s ∧
      s.view 0 0 = some v ∧
      ((parseAll parseFrame v.link.socket.sent).frames.map (·.1)).filter isMsg =
        [chatFrame.msg (ascii "1")] ∧
      ∃ blocks : List (Block 1),
        ((parseAll parseFrame v.link.socket.sent).frames.map (·.1)).filter isMsg <+:
          blocks.flatMap Block.messages ∧
        ∀ x ∈ blocks, ∃ u, s.view x.parcel.origin.1 x.parcel.origin.2 = some u ∧
          ((blocks.filter (·.parcel.origin = x.parcel.origin)).map (·.parcel.frame)).Sublist
            (u.link.socket.requests.filterMap publicationOf) := by
  obtain ⟨s, v, hrun, hv, -, hsent⟩ := exists_chat_sent
  refine ⟨s, v, hrun, hv, ?_, publisher_order hrun hv (List.prefix_refl _)⟩
  rw [hsent]
  decide +kernel

end Aulon.Server
