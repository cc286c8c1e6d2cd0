import Aulon.Server.ClientView
import Aulon.Server.CrossShard
import Aulon.Server.Dispatch

/-!
# Requests and responses

A client may send as many commands as it likes before it reads, and tells the responses apart by
their order alone. Here they are put in correspondence: apart from messages and reports of
back-pressure, which come when they come, a connection is offered the greeting and then one
response for each of its own frames that calls for one, in the order of the frames.

* `responseTo` — the response a frame calls for.
* `replies_step`, `replies_run` — what is offered in reply, over any run of the broker.
* `greeting_run` — nothing is offered before the greeting.
* `replies_in_order`, `replies_at_rest` — what a client gets in reply, at any time and in the end.
-/

namespace Aulon.Server

open Aulon.Lib Aulon.Core Aulon.Proto

/-- The response a frame of a client calls for. Frames that are carried out are not answered, but
for `PING`. -/
def responseTo : Frame → Option Frame
  | .connect _ | .pong => none
  | .ping => some .pong
  | .sub subject _ _ =>
      match parseSubscriberSubject subject with
      | .ok _ => none
      | .error e => some (.err (subjectErrorText e))
  | .unsub _ maxMsgs =>
      if maxMsgs.isSome then some (.err (ascii "UNSUB max_msgs not supported in v1")) else none
  | .pub subject _ payload =>
      if payload.length > maxPayloadBytes then some (.err (ascii "maximum payload exceeded"))
      else (subjectError subject).map fun e => .err (subjectErrorText e)
  | .msg _ _ _ _ | .info _ | .ok | .err _ => some (.err (ascii "unexpected verb"))

/-- Is it a reply? -/
def isReply (f : Frame) : Bool := f ∈ answers

/-- A message is no reply. -/
lemma isReply_msg (frame : PublishedFrame) (sid : Bytes) : isReply (frame.msg sid) = false := by
  simp [isReply, answers, PublishedFrame.msg]

/-- A report of back-pressure is no reply. -/
lemma isReply_backPressure : isReply (.err backPressureText) = false := by decide +kernel

namespace Worker

variable {w w' : Worker} {r : ConnRef}

/-- A new offer of an answer is one reply. -/
lemma replies_of_answer {group : Option Bytes} {frame : Frame} {bytes : Bytes}
    (h : ∃ outcome, w'.offers = w.offers ++ [⟨r, group, frame, bytes, outcome⟩])
    (hframe : frame ∈ answers) (r' : ConnRef) :
    offered isReply r' w'.offers =
      offered isReply r' w.offers ++ if r = r' then [frame] else [] := by
  obtain ⟨outcome, hoffers⟩ := h
  rw [hoffers, offered_append]
  by_cases hr : r = r' <;> simp [offered, isReply, hr, hframe]

/-- Every message of the server fits the buffer it is encoded in. -/
lemma replies_emitErrTo (hr : r < w.conns.length) {msg : Bytes} (hmsg : msg ∈ errorTexts)
    (r' : ConnRef) : offered isReply r' (w.emitErrTo r msg).offers =
      offered isReply r' w.offers ++ if r = r' then [.err msg] else [] := by
  have hfit : ∀ msg ∈ errorTexts, (encode (.err msg)).length ≤ shortFrameBuf := by decide +kernel
  exact replies_of_answer (offers_emitErrTo hr (hfit msg hmsg)) (err_mem_answers hmsg) r'

/-- The greeting is a reply to the client that is greeted. -/
lemma replies_greet (hr : r < w.conns.length) (r' : ConnRef) :
    offered isReply r' (w.greet r).offers =
      offered isReply r' w.offers ++ if r = r' then [.info serverInfoJson] else [] := by
  rw [greet_eq]
  exact replies_of_answer (offers_offer hr none _ _) List.mem_cons_self r'

/-- A PONG is a reply to the client that has sent the PING. -/
lemma replies_handlePing (hr : r < w.conns.length) (r' : ConnRef) :
    offered isReply r' (w.handlePing r).offers =
      offered isReply r' w.offers ++ if r = r' then [.pong] else [] := by
  have hemit : ∃ m buf, emitPong (List.replicate 8 0) = (.ok m, buf) := ⟨_, _, rfl⟩
  obtain ⟨m, buf, hemit⟩ := hemit
  simp only [handlePing, hemit]
  exact replies_of_answer (offers_offer hr none _ _) (by simp [answers]) r'

/-- A dispatch is not a reply. -/
lemma replies_dispatchLocal {frame : PublishedFrame} (h : w.dispatchLocal frame = .ok w')
    (r : ConnRef) : offered isReply r w'.offers = offered isReply r w.offers := by
  cases hparse : parsePublisherSubject frame.subject with
  | error e =>
      rw [dispatchLocal_error hparse] at h
      cases h
  | ok tokens =>
      obtain ⟨-, new, hnew, hmsg, -⟩ := extends_dispatchLocal hparse h
      have hnone : offered isReply r new = [] := by
        refine offered_eq_nil fun o ho _ => ?_
        obtain ⟨sub, -, hframe, -⟩ := hmsg o ho
        rw [hframe]
        exact isReply_msg frame sub.sid
      rw [hnew, offered_append, hnone, List.append_nil]

/-- Each command is answered as `responseTo` says. -/
lemma replies_handleCommand {c : Connection} (hr : r < w.conns.length) {f : Frame}
    (hf : ∀ subject replyTo payload, f ≠ .pub subject replyTo payload) (r' : ConnRef) :
    offered isReply r' (w.handleCommand r c f).offers =
      offered isReply r' w.offers ++ if r = r' then (responseTo f).toList else [] := by
  have hunexpected := replies_emitErrTo hr
    (show ascii "unexpected verb" ∈ errorTexts by decide) r'
  have hsilent : ∀ w'' : Worker, w''.offers = w.offers →
      offered isReply r' w''.offers =
        offered isReply r' w.offers ++ if r = r' then [] else [] := by
    intro w'' hoffers
    rw [hoffers, ite_self, List.append_nil]
  cases f with
  | connect options | pong => exact hsilent w rfl
  | pub subject replyTo payload => exact absurd rfl (hf subject replyTo payload)
  | ping => exact replies_handlePing hr r'
  | sub subject queueGroup sid =>
      rw [handleCommand, handleSub, responseTo]
      cases hparse : parseSubscriberSubject subject with
      | error e =>
          rw [subscribe_of_error hparse]
          exact replies_emitErrTo hr (subjectErrorText_mem e) r'
      | ok pattern =>
          have hok : ∃ table, w.table.subscribe subject ⟨c.state.id, sid, queueGroup⟩ =
              .ok table := by
            rw [SubscriptionTrie.subscribe, hparse]
            exact ⟨_, rfl⟩
          obtain ⟨table, hok⟩ := hok
          rw [hok]
          exact hsilent _ rfl
  | unsub sid maxMsgs =>
      rw [handleCommand, handleUnsub, responseTo]
      by_cases hmax : maxMsgs.isSome
      · rw [if_pos hmax, if_pos hmax]
        exact replies_emitErrTo hr (by decide) r'
      · rw [if_neg hmax, if_neg hmax]
        split
        · exact hsilent w rfl
        · exact hsilent _ rfl
  | msg subject sid replyTo payload | info options | ok | err message => exact hunexpected

end Worker

variable {B : FixedBufPool} {n : ℕ}

namespace Shard

variable (s : Shard n)

/-- Finishing a publication replies to no one. -/
lemma replies_finish (p : Publication n) (r : ConnRef) :
    offered isReply r (s.finish p).worker.offers = offered isReply r s.worker.offers := by
  unfold Shard.finish
  split_ifs
  · dsimp only
    obtain ⟨-, new, hnew, hreport, -⟩ :=
      s.worker.extends_emitErrTo p.conn backPressureText
    have hnone : offered isReply r new = [] := by
      refine offered_eq_nil fun o ho _ => ?_
      rw [(hreport o ho).2.2.1]
      exact isReply_backPressure
    rw [hnew, offered_append, hnone, List.append_nil]
  · rfl

/-- A drained frame replies to no one. -/
lemma replies_dispatchDrained (parcel : Parcel n) (r : ConnRef) :
    offered isReply r (s.dispatchDrained parcel).worker.offers =
      offered isReply r s.worker.offers := by
  unfold Shard.dispatchDrained
  split
  · rfl
  · rename_i worker hdispatch
    exact Worker.replies_dispatchLocal hdispatch r

/-- A publication is answered if its subject is not valid. -/
lemma replies_handlePub (i : Fin n) {r : ConnRef} (hr : r < s.worker.conns.length)
    (frame : PublishedFrame) (r' : ConnRef) :
    offered isReply r' (s.handlePub i r frame).worker.offers = offered isReply r' s.worker.offers ++
      if r = r' then ((subjectError frame.subject).map fun e =>
        Frame.err (subjectErrorText e)).toList else [] := by
  unfold subjectError
  cases hparse : parsePublisherSubject frame.subject with
  | error e =>
      simp only [Shard.handlePub, Worker.dispatchLocal_error hparse]
      exact Worker.replies_emitErrTo hr (subjectErrorText_mem e) r'
  | ok tokens =>
      obtain ⟨worker, hdispatch⟩ := Worker.dispatchLocal_ok hparse s.worker
      rw [s.worker_handlePub i r hdispatch, Worker.replies_dispatchLocal hdispatch]
      simp

/-- A frame is replied to as it should, and to the client that has sent it. -/
lemma replies_handleFrame (i : Fin n) {r : ConnRef} (hr : r < s.worker.conns.length)
    (c : Connection) (f : Frame) (r' : ConnRef) :
    offered isReply r' (s.handleFrame i r c f).worker.offers =
      offered isReply r' s.worker.offers ++ if r = r' then (responseTo f).toList else [] := by
  by_cases hpub : ∃ subject replyTo payload, f = .pub subject replyTo payload
  · obtain ⟨subject, replyTo, payload, rfl⟩ := hpub
    rw [Shard.handleFrame, responseTo]
    by_cases hlen : payload.length > maxPayloadBytes
    · rw [if_pos hlen, if_pos hlen]
      dsimp only
      rw [Worker.replies_emitErrTo hr (by decide)]
      rfl
    · rw [if_neg hlen, if_neg hlen]
      exact s.replies_handlePub i hr ⟨subject, replyTo, payload⟩ r'
  · have hne : ∀ subject replyTo payload, f ≠ .pub subject replyTo payload :=
      fun _ _ _ hf => hpub ⟨_, _, _, hf⟩
    rw [s.handleFrame_command i r c hne]
    exact Worker.replies_handleCommand hr hne r'

end Shard

/-! ## Runs of the broker -/

/-- What an action has the broker reply to a connection of shard `i`. -/
def Action.responses (i : Fin n) (r : ConnRef) : Action n → List Frame
  | .task j (.greet r') => if j = i ∧ r' = r then [.info serverInfoJson] else []
  | .task j (.frame r' f) => if j = i ∧ r' = r then (responseTo f).toList else []
  | _ => []

/-- Only the connection that a task is about gets a reply, and it gets the response. -/
lemma Shard.replies_run {s s' : Shard n} {i : Fin n} {t : Task} (hrun : s.run i t = some s')
    (r : ConnRef) : offered isReply r s'.worker.offers =
      offered isReply r s.worker.offers ++ (Action.task i t).responses i r := by
  have heq := Shard.run_eq_some hrun
  cases t with
  | accept granted =>
      rw [heq]
      cases granted <;> exact (List.append_nil _).symm
  | greet r' =>
      obtain ⟨c, hc, -, rfl⟩ := heq
      have hreplies := Worker.replies_greet (List.getElem?_eq_some_iff.mp hc).1 r
      simpa only [Action.responses, true_and] using hreplies
  | frame r' f =>
      obtain ⟨c, hc, -, rfl⟩ := heq
      have hreplies := s.replies_handleFrame i (List.getElem?_eq_some_iff.mp hc).1 c f r
      simpa only [Action.responses, true_and] using hreplies
  | reject r' =>
      obtain ⟨c, -, -, rfl⟩ := heq
      exact (List.append_nil _).symm
  | exit r' order =>
      obtain ⟨c, -, -, -, rfl⟩ := heq
      exact (List.append_nil _).symm
  | send r' buf =>
      obtain ⟨c, -, rfl⟩ := heq
      exact (List.append_nil _).symm

/-- An action of another connection calls for no reply to this one. -/
lemma Action.responses_of_conn_ne {a : Action n} {i : Fin n} {r : ConnRef}
    (h : a.conn ≠ some (i, r)) : a.responses i r = [] := by
  unfold Action.responses
  split
  · exact if_neg fun hown => h (by rw [hown.1, hown.2]; rfl)
  · exact if_neg fun hown => h (by rw [hown.1, hown.2]; rfl)
  · rfl

/-- A step replies as it should. -/
lemma replies_step {b b' : Broker n} {a : Action n} (hstep : step b a = some b') (i : Fin n)
    (r : ConnRef) : offered isReply r (b'.shards i).worker.offers =
      offered isReply r (b.shards i).worker.offers ++ a.responses i r := by
  rcases step_shard hstep i with ⟨t, rfl, -, hrun⟩ | ⟨ha, hshard⟩
  · exact Shard.replies_run hrun r
  · have hconn : a.conn ≠ some (i, r) := by
      intro hconn
      cases a with
      | push j | drainRead j | drainPop j => cases hconn
      | task j t => cases t <;> cases hconn <;> exact ha _ rfl
    rw [Action.responses_of_conn_ne hconn, List.append_nil]
    rcases hshard with ⟨p, hs⟩ | ⟨parcel, -, hs⟩ | ⟨activity, hs⟩
    · rw [hs]
      exact (b.shards i).replies_finish p r
    · rw [hs]
      exact (b.shards i).replies_dispatchDrained parcel r
    · rw [hs]

/-- The replies offered to a connection are those that its actions call for. -/
lemma replies_run {capacity : ℕ} {as : List (Action n)} {b : Broker n}
    (hrun : run step (Broker.init n capacity) as = some b) (i : Fin n) (r : ConnRef) :
    offered isReply r (b.shards i).worker.offers = as.flatMap (·.responses i r) :=
  run_log (fun b : Broker n => offered isReply r (b.shards i).worker.offers)
    (fun _ _ _ hstep => replies_step hstep i r) hrun

/-- What a connection is offered in reply, from the state of its reader and the responses to the
frames handled for it. -/
def greeted : ReaderStatus → List Frame → List Frame
  | .starting, _ => []
  | .reading, fs | .finished, fs => .info serverInfoJson :: fs

/-- An action handles a frame for a connection whose reader reads, or greets one whose reader
starts, or replies nothing to it. -/
lemma responses_cases {b b' : Broker n} {a : Action n} (hstep : step b a = some b') {i : Fin n}
    {r : ConnRef} {c : Connection} (hc : (b.shards i).worker.conns[r]? = some c) :
    (∃ f, a = .task i (.frame r f) ∧ c.reader = .reading) ∨
    (a = .task i (.greet r) ∧ c.reader = .starting) ∨
    a.responses i r = [] ∧ a.frameOf i r = none ∧
      (a.readerAfter i r c.reader = c.reader ∨
        c.reader = .reading ∧ a.readerAfter i r c.reader = .finished) := by
  by_cases hconn : a.conn = some (i, r)
  · cases a with
    | push j | drainRead j | drainPop j => cases hconn
    | task j t =>
        cases t with
        | accept granted => cases hconn
        | greet r' =>
            cases hconn
            obtain ⟨-, s', hrun, -⟩ := step_eq_some hstep
            obtain ⟨c', hc', hreader, -⟩ := Shard.run_eq_some hrun
            cases hc.symm.trans hc'
            exact Or.inr (Or.inl ⟨rfl, hreader⟩)
        | frame r' f =>
            cases hconn
            obtain ⟨-, s', hrun, -⟩ := step_eq_some hstep
            obtain ⟨c', hc', hreader, -⟩ := Shard.run_eq_some hrun
            cases hc.symm.trans hc'
            exact Or.inl ⟨f, rfl, hreader⟩
        | exit r' order =>
            cases hconn
            obtain ⟨-, s', hrun, -⟩ := step_eq_some hstep
            obtain ⟨c', hc', hreader, -⟩ := Shard.run_eq_some hrun
            cases hc.symm.trans hc'
            exact Or.inr (Or.inr ⟨rfl, rfl, Or.inr ⟨hreader, by simp [Action.readerAfter]⟩⟩)
        | reject r' | send r' buf => exact Or.inr (Or.inr ⟨rfl, rfl, Or.inl rfl⟩)
  · obtain ⟨-, hframe, hreader⟩ := Action.of_conn_ne hconn
    exact Or.inr (Or.inr ⟨Action.responses_of_conn_ne hconn, hframe, Or.inl (hreader c.reader)⟩)

/-- A connection that an action brings in was just accepted. -/
lemma accepted_of_le {b b' : Broker n} {a : Action n} (hstep : step b a = some b') {i : Fin n}
    {r : ConnRef} (hr : (b.shards i).worker.conns.length ≤ r) {c' : Connection}
    (hc' : (b'.shards i).worker.conns[r]? = some c') :
    a = .task i (.accept true) ∧ ∃ id, c' = .new id := by
  rcases conns_step hstep i with ⟨rfl, -, id, hconns⟩ | ⟨-, hlen⟩
  · rw [hconns, List.getElem?_append_right hr] at hc'
    obtain ⟨_, hget⟩ := List.getElem?_eq_some_iff.mp hc'
    exact ⟨rfl, id, by rw [← hget, List.getElem_singleton]⟩
  · have hlt := (List.getElem?_eq_some_iff.mp hc').1
    rw [hlen] at hlt
    exact absurd hlt (not_lt.mpr hr)

/-- In every state of every run, the replies of the broker to a connection are the greeting, if its
reader has started, and then the responses to the frames that were handled for it. -/
lemma responses_run {capacity : ℕ} {as : List (Action n)} {b : Broker n}
    (hrun : run step (Broker.init n capacity) as = some b) (i : Fin n) {r : ConnRef}
    {c : Connection} (hc : (b.shards i).worker.conns[r]? = some c) :
    (c.reader = .starting → framesOf i r as = []) ∧
      as.flatMap (·.responses i r) = greeted c.reader ((framesOf i r as).filterMap responseTo) := by
  refine run_history (I := fun as (b : Broker n) => ∀ r c, (b.shards i).worker.conns[r]? = some c →
    (c.reader = .starting → framesOf i r as = []) ∧ as.flatMap (·.responses i r) =
      greeted c.reader ((framesOf i r as).filterMap responseTo)) ?_ ?_ hrun r c hc
  · intro r c hc
    simp [Broker.init, Worker.new] at hc
  · intro as b a b' hrun ih hstep r c' hc'
    by_cases hr : r < (b.shards i).worker.conns.length
    · obtain ⟨c, hc⟩ : ∃ c, (b.shards i).worker.conns[r]? = some c :=
        ⟨_, List.getElem?_eq_getElem hr⟩
      obtain ⟨new, -, hmoves⟩ := step_conn hstep i
      obtain ⟨state, c'', -, hc'', -, hreader⟩ := hmoves r c hc
      cases hc'.symm.trans hc''
      obtain ⟨hstarting, hreplies⟩ := ih r c hc
      rw [List.flatMap_append, List.flatMap_singleton, hreplies, framesOf_append,
        framesOf_singleton, hreader]
      rcases responses_cases hstep hc with ⟨f, rfl, hc⟩ | ⟨rfl, hc⟩ | ⟨hnone, hframe, hstatus⟩
      · have hresponse : (responseTo f).toList = [f].filterMap responseTo := by
          cases hf : responseTo f <;> simp [hf]
        simp [Action.responses, Action.frameOf, Action.readerAfter, hc, greeted, hresponse]
      · simp [Action.responses, Action.frameOf, Action.readerAfter, hc, greeted, hstarting hc]
      · rw [hnone, hframe, Option.toList_none, List.append_nil, List.append_nil]
        rcases hstatus with hstatus | ⟨hreading, hfinished⟩
        · rw [hstatus]
          exact ⟨hstarting, rfl⟩
        · rw [hreading] at hfinished ⊢
          rw [hfinished]
          exact ⟨by simp, rfl⟩
    · -- a connection that was just accepted: nothing was offered to it, and nothing handled
      rw [not_lt] at hr
      obtain ⟨rfl, id, rfl⟩ := accepted_of_le hstep hr hc'
      have hframes : framesOf i r (as ++ [.task i (.accept true)]) = [] := by
        rw [framesOf_append, framesOf_eq_nil hrun hr]
        rfl
      have hnone : offered isReply r (b.shards i).worker.offers = [] := by
        refine offered_eq_nil fun o ho htarget => absurd (target_lt hrun i o ho) ?_
        rw [htarget]
        exact not_lt.mpr hr
      refine ⟨fun _ => hframes, ?_⟩
      rw [List.flatMap_append, ← replies_run hrun, hnone]
      rfl

/-! ## The greeting comes first -/

/-- Nothing is offered to a connection whose reader has not started. -/
lemma silent_of_starting {capacity : ℕ} {as : List (Action n)} {b : Broker n}
    (hrun : run step (Broker.init n capacity) as = some b) {i : Fin n}
    (hdistinct : (b.shards i).worker.ids.Nodup) {r : ConnRef} {c : Connection}
    (hc : (b.shards i).worker.conns[r]? = some c) (hstarting : c.reader = .starting) :
    ∀ o ∈ (b.shards i).worker.offers, o.target ≠ r := by
  intro o ho htarget
  obtain ⟨hframes, hresponses⟩ := responses_run hrun i hc
  have hnone : ∀ f, .task i (.frame r f) ∉ as := by
    intro f hf
    have hmem : f ∈ framesOf i r as := List.mem_filterMap.mpr ⟨_, hf, by simp [Action.frameOf]⟩
    rw [hframes hstarting] at hmem
    cases hmem
  obtain ⟨r', hproper, hr'⟩ := proper_run hrun o ho
  rw [hr' hdistinct, htarget] at hproper
  obtain ⟨-, hanswer | hreport | ⟨frame, sid, -, -, ⟨subject, queueGroup, hsub⟩, -⟩⟩ := hproper
  · have hmem : o.frame ∈ offered isReply r (b.shards i).worker.offers :=
      List.mem_filter.mpr ⟨List.mem_map_of_mem (List.mem_filter.mpr ⟨ho, by simpa using htarget⟩),
        decide_eq_true hanswer⟩
    rw [replies_run hrun, hresponses, hstarting] at hmem
    cases hmem
  · -- a report of back-pressure is for a publication of the connection
    have hcount := ((routed_run hrun).sound i).reported r
    have hpos : 0 < (b.shards i).worker.backPressureOffers r :=
      List.countP_pos_iff.mpr ⟨o, ho, by simp [htarget, hreport]⟩
    rw [hcount] at hpos
    obtain ⟨p, hp, hseen⟩ := List.countP_pos_iff.mp hpos
    have hpublished : (p.conn, p.frame) ∈ as.flatMap (·.published i) := by
      rw [← pubs_run hrun]
      exact List.mem_map_of_mem (List.mem_append_left _ hp)
    obtain ⟨a, ha, hmem⟩ := List.mem_flatMap.mp hpublished
    rw [(of_decide_eq_true hseen).1] at hmem
    rw [eq_of_mem_published hmem] at ha
    exact hnone _ ha
  · exact hnone _ hsub

/-- The first offer of a list is the greeting, and it was accepted. -/
def Greeted (os : List Offer) : Prop :=
  ∃ o rest, os = o :: rest ∧ o.frame = .info serverInfoJson ∧ o.outcome = .ok

/-- A greeting that came first stays first. -/
lemma Greeted.append {os : List Offer} (h : Greeted os) (os' : List Offer) :
    Greeted (os ++ os') := by
  obtain ⟨o, rest, rfl, hframe, houtcome⟩ := h
  exact ⟨o, rest ++ os', rfl, hframe, houtcome⟩

/-- A reader that has not started does not close the connection. -/
lemma closes_of_starting {b b' : Broker n} {a : Action n} (hstep : step b a = some b') {i : Fin n}
    {r : ConnRef} {c : Connection} (hc : (b.shards i).worker.conns[r]? = some c)
    (hstarting : c.reader = .starting) : a.closes i r = false := by
  rw [← Bool.not_eq_true]
  intro hcloses
  unfold Action.closes at hcloses
  split at hcloses
  · obtain ⟨rfl, rfl⟩ := of_decide_eq_true hcloses
    obtain ⟨-, s, hrun, -⟩ := step_eq_some hstep
    obtain ⟨c', hc', hreader, -⟩ := Shard.run_eq_some hrun
    cases hc.symm.trans hc'
    cases hreader.symm.trans hstarting
  · obtain ⟨rfl, rfl⟩ := of_decide_eq_true hcloses
    obtain ⟨-, s, hrun, -⟩ := step_eq_some hstep
    obtain ⟨c', hc', hreader, -⟩ := Shard.run_eq_some hrun
    cases hc.symm.trans hc'
    cases hreader.symm.trans hstarting
  · cases hcloses

/-- Only the writer touches a connection whose reader has not started. -/
lemma hasRoom_step {b b' : Broker n} {a : Action n} (hstep : step b a = some b') {i : Fin n}
    {r : ConnRef} {c c' : Connection} (hc : (b.shards i).worker.conns[r]? = some c)
    (hc' : (b'.shards i).worker.conns[r]? = some c') (hstarting : c.reader = .starting)
    (hsilent : ∀ o ∈ (b'.shards i).worker.offers, o.target ≠ r) {k : ℕ}
    (hroom : c.state.HasRoom k) : c'.state.HasRoom k := by
  obtain ⟨new, hoffers, hmoves⟩ := step_conn hstep i
  obtain ⟨state, c'', henqueued, hc'', hstate, -⟩ := hmoves r c hc
  cases hc'.symm.trans hc''
  obtain rfl := henqueued.eq_of_forall_ne fun o ho => hsilent o (by
    rw [hoffers]
    exact List.mem_append_right _ ho)
  rw [hstate]
  cases hcall : a.call i r with
  | none => exact hroom
  | some call =>
      obtain ⟨buf, rfl⟩ := Action.call_of_closes (closes_of_starting hstep hc hstarting) hcall
      exact hroom.drainInto buf

/-- The greeting is offered to the client that is greeted. -/
lemma offers_step_greet {b b' : Broker n} {i : Fin n} {r : ConnRef}
    (hstep : step b (.task i (.greet r)) = some b') : ∃ outcome, (b'.shards i).worker.offers =
      (b.shards i).worker.offers ++
        [⟨r, none, .info serverInfoJson, encode (.info serverInfoJson), outcome⟩] := by
  obtain ⟨-, s, hrun, rfl⟩ := step_eq_some hstep
  obtain ⟨c, hc, -, rfl⟩ := Shard.run_eq_some hrun
  rw [shards_setShard_self]
  dsimp only
  rw [Worker.greet_eq]
  exact Worker.offers_offer (List.getElem?_eq_some_iff.mp hc).1 none _ _

/-- No reader starts twice. -/
lemma Action.starting_of_readerAfter (a : Action n) {i : Fin n} {r : ConnRef}
    {status : ReaderStatus} (h : a.readerAfter i r status = .starting) : status = .starting := by
  unfold Action.readerAfter at h
  split at h
  · split_ifs at h
    exact h
  · split_ifs at h
    exact h
  · exact h

/-- The first thing a connection is offered is the greeting, and there is room for it. -/
lemma greeting_run {capacity : ℕ} {as : List (Action n)} {b : Broker n}
    (hrun : run step (Broker.init n capacity) as = some b) {i : Fin n}
    (hfew : as.countP (·.takesId i) ≤ 2 ^ 32) {r : ConnRef} {c : Connection}
    (hc : (b.shards i).worker.conns[r]? = some c) :
    (c.reader = .starting → ∀ k ≤ defaultOutboundCapacity, c.state.HasRoom k) ∧
      (c.reader ≠ .starting → Greeted ((b.shards i).worker.offers.filter (·.target = r))) := by
  refine run_history (I := fun as (b : Broker n) => as.countP (·.takesId i) ≤ 2 ^ 32 →
    ∀ r c, (b.shards i).worker.conns[r]? = some c →
      (c.reader = .starting → ∀ k ≤ defaultOutboundCapacity, c.state.HasRoom k) ∧
        (c.reader ≠ .starting → Greeted ((b.shards i).worker.offers.filter (·.target = r))))
    ?_ ?_ hrun hfew r c hc
  · intro _ r c hc
    simp [Broker.init, Worker.new] at hc
  · intro as b a b' hrun ih hstep hfew r c' hc'
    have hrun' : run step (Broker.init n capacity) (as ++ [a]) = some b' :=
      run_append_eq_some.mpr ⟨b, hrun, run_cons_eq_some.mpr ⟨b', hstep, rfl⟩⟩
    have hsilent := fun hstarting => silent_of_starting hrun'
      (nodup_ids_of_new hrun' (takesNewId_of_few hfew)) hc' hstarting
    by_cases hr : r < (b.shards i).worker.conns.length
    · obtain ⟨c, hc⟩ : ∃ c, (b.shards i).worker.conns[r]? = some c :=
        ⟨_, List.getElem?_eq_getElem hr⟩
      have hfew' : as.countP (·.takesId i) ≤ 2 ^ 32 := by
        rw [List.countP_append] at hfew
        omega
      obtain ⟨hroom, hgreeted⟩ := ih hfew' r c hc
      obtain ⟨new, hoffers, hmoves⟩ := step_conn hstep i
      obtain ⟨state, c'', henqueued, hc'', -, hreader⟩ := hmoves r c hc
      cases hc'.symm.trans hc''
      by_cases hstarting : c.reader = .starting
      · refine ⟨fun hstarting' k hk => hasRoom_step hstep hc hc' hstarting (hsilent hstarting')
          (hroom hstarting k hk), fun hstarted => ?_⟩
        -- the reader has started, so this is the greeting
        rcases responses_cases hstep hc with ⟨f, -, hreading⟩ | ⟨rfl, -⟩ |
            ⟨-, -, hsame | ⟨hreading, -⟩⟩
        · cases hreading.symm.trans hstarting
        · have hsilent := silent_of_starting hrun
            (nodup_ids_of_new hrun (takesNewId_of_few hfew')) hc hstarting
          have hnone : (b.shards i).worker.offers.filter (·.target = r) = [] :=
            List.filter_eq_nil_iff.mpr fun o ho => by simpa using hsilent o ho
          obtain ⟨outcome, hgreet⟩ := offers_step_greet hstep
          obtain rfl := List.append_cancel_left (hoffers.symm.trans hgreet)
          rw [Worker.Enqueued, if_pos rfl] at henqueued
          have hfit : (encode (.info serverInfoJson)).length + 0 ≤ defaultOutboundCapacity := by
            decide +kernel
          have hok := (hroom hstarting _ hfit).enqueue.1
          rw [hgreet, List.filter_append, hnone, List.nil_append]
          exact ⟨_, [], by simp, rfl, henqueued.1.trans hok⟩
        · exact absurd (hreader.trans (hsame.trans hstarting)) hstarted
        · cases hreading.symm.trans hstarting
      · refine ⟨fun hstarting' => ?_, fun _ => ?_⟩
        · exact absurd (a.starting_of_readerAfter (hreader.symm.trans hstarting')) hstarting
        · rw [hoffers, List.filter_append]
          exact (hgreeted hstarting).append _
    · obtain ⟨-, id, rfl⟩ := accepted_of_le hstep (not_lt.mp hr) hc'
      exact ⟨fun _ k hk => ConnectionState.hasRoom_new id hk, fun hstarted => absurd rfl hstarted⟩

/-! ## What a client gets in reply -/

section client

variable {inboxCapacity poolCapacity : ℕ} {es : List (Event n)} {s : Process B n} {i : Fin n}
  {r : ConnRef} {v : View}

/-- The replies among what was offered to a connection. -/
lemma replies_of_view (hrun : run Process.step (.init n inboxCapacity poolCapacity) es = some s)
    (hv : s.view i r = some v) :
    (v.offers.map (·.frame)).filter isReply =
      greeted v.status (v.frames.filterMap responseTo) := by
  have htrace := Process.trace_run hrun
  obtain ⟨c, l, hc, -, rfl⟩ := Process.view_eq_some.mp hv
  exact (replies_run htrace i r).trans (responses_run htrace i hc).2

/-- What a client was greeted with and replied to is the start of the greeting and all replies. -/
lemma greeted_isPrefix (status : ReaderStatus) (fs : List Frame) :
    greeted status fs <+: .info serverInfoJson :: fs := by
  cases status with
  | starting => exact List.nil_prefix
  | reading | finished => exact List.prefix_refl _

/-- The frame a writer sends last is not a reply. -/
lemma filter_goodbye (reason : Option CloseReason) :
    (goodbye reason).filter isReply = [] := by
  rcases reason with _ | _ | _ | _ <;> decide +kernel

/-- What is offered first, and accepted, is the greeting; nothing is sent without it. -/
lemma greeting_of_view (hrun : run Process.step (.init n inboxCapacity poolCapacity) es = some s)
    (hfew : es.countP (·.connects i) ≤ 2 ^ 32) (hv : s.view i r = some v) :
    ∀ f ∈ (v.acceptedOffers.map (·.frame) ++ goodbye v.state.closeWith).head?,
      f = .info serverInfoJson := by
  have htrace := Process.trace_run hrun
  rw [← takesId_run hrun] at hfew
  obtain ⟨c, l, hc, -, rfl⟩ := Process.view_eq_some.mp hv
  obtain ⟨hstarting, hstarted⟩ := greeting_run htrace hfew hc
  by_cases hstatus : c.reader = .starting
  · have hsilent := silent_of_starting htrace
      (nodup_ids_of_new htrace (takesNewId_of_few hfew)) hc hstatus
    have hnone : (s.broker.shards i).worker.offers.filter (·.target = r) = [] :=
      List.filter_eq_nil_iff.mpr fun o ho => by simpa using hsilent o ho
    obtain ⟨hopen, -⟩ := hstarting hstatus 0 (Nat.zero_le _)
    dsimp only [View.acceptedOffers]
    rw [hnone, hopen]
    intro f hf
    cases hf
  · obtain ⟨o, rest, hoffers, hframe, hok⟩ := hstarted hstatus
    dsimp only [View.acceptedOffers]
    rw [hoffers, List.filter_cons_of_pos (by simpa using hok)]
    intro f hf
    cases hf
    exact hframe

/-- **Responses come in the order of the requests.** The replies in what has come through to a
client are the greeting and then the responses to the frames that the client has sent, each once and
in their order, up to some point; messages and reports of back-pressure may come in between. As long
as no more than `2 ^ 32` clients have connected to the shard, nothing comes before the greeting. -/
theorem replies_in_order (hrun : run Process.step (.init n inboxCapacity poolCapacity) es = some s)
    (hv : s.view i r = some v) {seen : Bytes} (hseen : seen <+: v.link.socket.sent) :
    let frames := (parseAll parseFrame seen).frames.map (·.1)
    frames.filter isReply <+:
        .info serverInfoJson :: v.link.socket.requests.filterMap responseTo ∧
      (es.countP (·.connects i) ≤ 2 ^ 32 → ∀ f ∈ frames.head?, f = .info serverInfoJson) := by
  intro frames
  obtain ⟨-, hframes⟩ := parseAll_sent hrun hv hseen
  constructor
  · have hhandled := (reads_run hrun hv).isPrefix.filterMap responseTo
    have haccepted := ((accepted_run hrun hv).1.map (·.frame)).filter isReply
    have hreplies := hframes.filter isReply
    rw [List.filter_append, filter_goodbye, List.append_nil] at hreplies
    rw [replies_of_view hrun hv] at haccepted
    exact hreplies.trans (haccepted.trans ((greeted_isPrefix _ _).trans
      (List.cons_prefix_cons.mpr ⟨rfl, hhandled⟩)))
  · intro hfew f hf
    refine greeting_of_view hrun hfew hv f ?_
    obtain ⟨rest, hrest⟩ := hframes
    rw [← hrest]
    exact List.mem_head?_append_of_mem_head? hf

/-- A client has subscribed, has pinged and has published to itself: the greeting and the pong have
come through. -/
theorem replies_in_order_chat :
    ∃ s v, run Process.step (.initStack 1 4 2) (chatEvents 0 ++ [.poll 0 0, .poll 0 0]) = some s ∧
      s.view 0 0 = some v ∧ v.link.socket.stream = chat ∧
      v.link.socket.sent = (chatReplies.map encode).flatten ∧
      let frames := (parseAll parseFrame v.link.socket.sent).frames.map (·.1)
      frames.filter isReply <+:
          .info serverInfoJson :: v.link.socket.requests.filterMap responseTo ∧
        ∀ f ∈ frames.head?, f = .info serverInfoJson := by
  obtain ⟨s, v, hrun, hv, hstream, hsent⟩ := exists_chat_sent
  obtain ⟨hreplies, hfirst⟩ := replies_in_order hrun hv (List.prefix_refl _)
  exact ⟨s, v, hrun, hv, hstream, hsent, hreplies, hfirst (by decide)⟩

/-- **In the end, every request is answered.** At rest, also if that is because kicks were lost, a
client whose connection was not shut down has got complete frames only, and the replies among them
are the greeting and the responses to all the frames it has sent. -/
theorem replies_at_rest (hrun : run Process.step (.init n inboxCapacity poolCapacity) es = some s)
    (hrest : s.AtRest) (hv : s.view i r = some v) :
    v.link.socket.shut = true ∨ ∃ fs, parseAll parseFrame v.link.socket.sent = ⟨fs, [], none⟩ ∧
      (fs.map (·.1)).filter isReply =
        .info serverInfoJson :: v.link.socket.requests.filterMap responseTo := by
  rcases Process.open_or_gone_of_atRest hrun hrest hv with hopen | hgone
  · obtain ⟨fs, hparse, hfs⟩ := parseAll_sent_of_open hrun hv hopen
    have hstatus : v.status = .reading := by
      rw [phased_run hrun hv, hopen.waiting]
      rfl
    refine Or.inr ⟨fs, hparse, ?_⟩
    rw [hfs, replies_of_view hrun hv, hstatus, hopen.handled]
    rfl
  · exact Or.inl hgone.shut

/-- A client pings, and the server settles: there is the greeting and one pong. -/
theorem replies_at_rest_ping :
    ∃ es s v, run Process.step (.initStack 1 4 2) ([.connect 0, .start 0 0,
        .send 0 0 (ascii "PING\r\n")] ++ es) = some s ∧ s.AtRest ∧ s.view 0 0 = some v ∧
      (v.link.socket.shut = true ∨ ∃ fs, parseAll parseFrame v.link.socket.sent = ⟨fs, [], none⟩ ∧
        (fs.map (·.1)).filter isReply = [.info serverInfoJson, .pong]) := by
  have hsome : (run Process.step (.initStack 1 4 2) [.connect 0, .start 0 0,
      .send 0 0 (ascii "PING\r\n")]).bind (fun s => (s.view 0 0).map (·.link.socket.stream)) =
        some (ascii "PING\r\n") := by decide +kernel
  obtain ⟨s₀, hs₀, hview⟩ := Option.bind_eq_some_iff.mp hsome
  obtain ⟨v₀, hv₀, hstream₀⟩ := Option.map_eq_some_iff.mp hview
  obtain ⟨es, s, v, -, -, hes, hrest, hv, hstream⟩ := Process.exists_rest_view hs₀ hv₀
  have hrun := run_append_eq_some.mpr ⟨s₀, hs₀, hes⟩
  have hrequests : v.link.socket.requests.filterMap responseTo = [.pong] := by
    rw [Socket.requests, hstream, hstream₀]
    decide +kernel
  have hreplies := replies_at_rest hrun hrest hv
  rw [hrequests] at hreplies
  exact ⟨es, s, v, hrun, hrest, hv, hreplies⟩

end client

end Aulon.Server
