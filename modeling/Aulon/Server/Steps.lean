import Aulon.Server.Broker

/-!
# What an action does to a shard

The functions a shard runs, from the point of view of its clients: what is offered to whom, and
what is left alone.

* `Offer.IsReply`, `Offer.Addressed` — an answer to the client itself, or a message for an entry of
  the trie; `Offer.IsAnswer` and `Offer.Sent` say the same with the frame and its bytes.
* `Shard.run_cases` — a task either handles a `PUB` or only answers its client.
* `extends_step` — apart from its tasks a shard only enqueues; `step_cases` splits an action by
  that.
* `sent_step`, `grows_step` — what any action adds to the offers of a shard.
* `finished_step` — a reader that has ended handles no frame any more.
-/

namespace Aulon.Server

open Aulon.Lib Aulon.Core Aulon.Proto

variable {n : ℕ}

/-! ## Offers that are neither messages nor reports of back-pressure -/

/-- An offer that answers the client itself. -/
def Offer.IsReply (o : Offer) : Prop :=
  o.frame ≠ .err backPressureText ∧ ∀ subject sid replyTo payload,
    o.frame ≠ .msg subject sid replyTo payload

/-- The errors that a worker reports to the client that it serves, back-pressure apart. -/
def errorTexts : List Bytes :=
  [ascii "unexpected verb", ascii "maximum payload exceeded",
    ascii "UNSUB max_msgs not supported in v1"] ++
    [SubjectError.empty, .emptyToken, .wildcardInPublish, .invalidGreaterPosition].map
      subjectErrorText

/-- The frames with which a worker answers the client that it serves. -/
def answers : List Frame := .info serverInfoJson :: .pong :: errorTexts.map .err

/-- An offer of an answer, as it is encoded. -/
def Offer.IsAnswer (o : Offer) : Prop := o.frame ∈ answers ∧ o.bytes = encode o.frame

/-- The error texts are answers. -/
lemma err_mem_answers {msg : Bytes} (h : msg ∈ errorTexts) : .err msg ∈ answers :=
  List.mem_cons_of_mem _ (List.mem_cons_of_mem _ (List.mem_map_of_mem h))

/-- The text of a bad subject is an error text. -/
lemma subjectErrorText_mem (e : SubjectError) : subjectErrorText e ∈ errorTexts := by
  cases e <;> decide

/-- An answer is a reply. -/
lemma Offer.IsAnswer.isReply {o : Offer} (h : o.IsAnswer) : o.IsReply := by
  obtain ⟨hframe, -⟩ := h
  rcases List.mem_cons.mp hframe with hinfo | hframe
  · exact ⟨by rw [hinfo]; simp, fun _ _ _ _ => by rw [hinfo]; simp⟩
  rcases List.mem_cons.mp hframe with hpong | hframe
  · exact ⟨by rw [hpong]; simp, fun _ _ _ _ => by rw [hpong]; simp⟩
  obtain ⟨msg, hmsg, heq⟩ := List.mem_map.mp hframe
  refine ⟨fun hreport => ?_, fun _ _ _ _ => by rw [← heq]; simp⟩
  rw [← heq, Frame.err.injEq] at hreport
  have hne : ∀ t ∈ errorTexts, t ≠ backPressureText := by decide
  exact hne msg hmsg hreport

/-- From `w` to `w'` connections were only added, every new offer satisfies `P`, and the scratch
buffer has kept its length. -/
structure Worker.Grows (P : Offer → Prop) (w w' : Worker) : Prop where
  conns : w.conns.length ≤ w'.conns.length
  scratch : w'.emitScratch.length = w.emitScratch.length
  offers : ∃ new, w'.offers = w.offers ++ new ∧ ∀ o ∈ new, P o

namespace Worker

variable {P : Offer → Prop} {w w' : Worker}

/-- An extension grows the worker. -/
lemma Extends.grows (h : Extends P w w') : Grows P w w' := by
  obtain ⟨hcore, new, hnew, hP, -⟩ := h
  exact ⟨(length_conns_of_core hcore).ge, scratch_of_core hcore, new, hnew, hP⟩

/-- Where nothing is offered, nothing is new. -/
lemma Grows.of_offers (hconns : w.conns.length ≤ w'.conns.length)
    (hscratch : w'.emitScratch = w.emitScratch) (hoffers : w'.offers = w.offers) : Grows P w w' :=
  ⟨hconns, by rw [hscratch], [], by simp [hoffers], by simp⟩

/-- Growth by offers of one kind is growth by offers of a wider kind. -/
lemma Grows.mono {Q : Offer → Prop} (h : Grows P w w') (hPQ : ∀ o, P o → Q o) : Grows Q w w' := by
  obtain ⟨hconns, hscratch, new, hnew, hP⟩ := h
  exact ⟨hconns, hscratch, new, hnew, fun o ho => hPQ o (hP o ho)⟩

/-- An error extends the worker by an answer. -/
lemma extends_answer (w : Worker) (r : ConnRef) {msg : Bytes} (hmsg : msg ∈ errorTexts) :
    Extends Offer.IsAnswer w (w.emitErrTo r msg) := by
  refine (extends_emitErrTo w r msg).mono ?_
  rintro o ⟨-, -, hframe, hbytes⟩
  exact ⟨hframe ▸ err_mem_answers hmsg, by rw [hbytes, hframe]⟩

/-- An error grows the worker by an answer. -/
lemma grows_emitErrTo (w : Worker) (r : ConnRef) {msg : Bytes} (hmsg : msg ∈ errorTexts) :
    Grows Offer.IsAnswer w (w.emitErrTo r msg) :=
  (extends_answer w r hmsg).grows

/-- A PONG extends the worker by an answer. -/
lemma extends_handlePing (w : Worker) (r : ConnRef) :
    Extends Offer.IsAnswer w (w.handlePing r) := by
  unfold handlePing
  split
  · rename_i m buf hemit
    obtain ⟨rfl, -, rfl⟩ := emitFrame_ok (f := .pong) hemit
    rw [take_overwrite_zero]
    refine (extends_offer w r none .pong _).mono ?_
    rintro o ⟨-, -, hframe, hbytes⟩
    exact ⟨hframe ▸ List.mem_cons_of_mem _ List.mem_cons_self, by rw [hbytes, hframe]⟩
  · exact .refl w

/-- A command answers its client, or it changes the trie and the map of the reader. -/
lemma handleCommand_cases (w : Worker) (r : ConnRef) (c : Connection) (f : Frame) :
    Extends Offer.IsAnswer w (w.handleCommand r c f) ∨ ∃ table subscriptions,
      w.handleCommand r c f = { w with
        table := table
        conns := w.conns.set r { c with subscriptions := subscriptions } } := by
  have hunexpected := extends_answer w r (show ascii "unexpected verb" ∈ errorTexts by decide)
  cases f with
  | connect options | pong | pub subject replyTo payload => exact Or.inl (.refl w)
  | ping => exact Or.inl (extends_handlePing w r)
  | sub subject queueGroup sid =>
      rw [handleCommand, handleSub]
      split
      · exact Or.inl (extends_answer w r (subjectErrorText_mem _))
      · exact Or.inr ⟨_, _, rfl⟩
  | unsub sid maxMsgs =>
      rw [handleCommand, handleUnsub]
      split_ifs
      · exact Or.inl (extends_answer w r (by decide))
      · split
        · exact Or.inl (.refl w)
        · exact Or.inr ⟨_, _, rfl⟩
  | msg subject sid replyTo payload | info options | ok | err message => exact Or.inl hunexpected

/-- A command grows the worker by answers. -/
lemma grows_handleCommand (w : Worker) (r : ConnRef) (c : Connection) (f : Frame) :
    Grows Offer.IsAnswer w (w.handleCommand r c f) := by
  rcases w.handleCommand_cases r c f with h | ⟨table, subscriptions, h⟩
  · exact h.grows
  · rw [h]
    exact .of_offers (by simp) rfl rfl

/-- An accept offers nothing. -/
lemma grows_accept (w : Worker) (granted : Bool) : Grows Offer.IsAnswer w (w.accept granted) := by
  unfold accept
  dsimp only
  split_ifs
  · exact .of_offers (by simp [nextId]) rfl rfl
  · exact .of_offers le_rfl rfl rfl

/-- The greeting is an answer. -/
lemma grows_greet (w : Worker) (r : ConnRef) : Grows Offer.IsAnswer w (w.greet r) := by
  obtain ⟨hcore, new, hnew, hP, -⟩ :=
    extends_offer w r none (.info serverInfoJson) (encode (.info serverInfoJson))
  have hscratch := scratch_of_core hcore
  rw [greet_eq]
  refine ⟨?_, hscratch, new, hnew, fun o ho => ?_⟩
  · simp [setReader, length_conns_of_core hcore]
  · obtain ⟨-, -, hframe, hbytes⟩ := hP o ho
    exact ⟨hframe ▸ List.mem_cons_self, by rw [hbytes, hframe]⟩

/-- The state of a connection plays no part in what was offered. -/
lemma grows_setState (w : Worker) (r : ConnRef) (c : Connection) (state : ConnectionState) :
    Grows P w (w.setState r c state) :=
  .of_offers (by simp [setState]) rfl rfl

/-- The end of a reader offers nothing. -/
lemma grows_cleanup (w : Worker) (r : ConnRef) (c : Connection)
    (order : List (Sigma fun _ : Bytes => Bytes)) : Grows P w (w.cleanup r c order) :=
  .of_offers (by simp [cleanup]) rfl rfl

end Worker

/-! ## What a task does -/

/-- A piece of a task either handles a `PUB` that is not too large, or it leaves the shard's
activity and histories alone and only answers its own client. -/
lemma Shard.run_cases {s s' : Shard n} {i : Fin n} {t : Task} (h : s.run i t = some s') :
    (∃ r subject replyTo payload, t = .frame r (.pub subject replyTo payload) ∧
      payload.length ≤ maxPayloadBytes ∧ r < s.worker.conns.length ∧
      s' = s.handlePub i r ⟨subject, replyTo, payload⟩) ∨
    ((∀ r subject replyTo payload, t = .frame r (.pub subject replyTo payload) →
        ¬ payload.length ≤ maxPayloadBytes) ∧
      s'.activity = s.activity ∧ s'.publications = s.publications ∧
      s'.dispatches = s.dispatches ∧ s.worker.Grows Offer.IsAnswer s'.worker) := by
  -- everything but a `PUB` only replaces the worker
  have hreply : ∀ w', s.worker.Grows Offer.IsAnswer w' → s' = { s with worker := w' } →
      s'.activity = s.activity ∧ s'.publications = s.publications ∧
        s'.dispatches = s.dispatches ∧ s.worker.Grows Offer.IsAnswer s'.worker := by
    rintro w' hw' rfl
    exact ⟨rfl, rfl, rfl, hw'⟩
  have hrun := Shard.run_eq_some h
  cases t with
  | accept granted => exact Or.inr ⟨by simp, hreply _ (s.worker.grows_accept granted) hrun⟩
  | greet r =>
      obtain ⟨c, -, -, heq⟩ := hrun
      exact Or.inr ⟨by simp, hreply _ (s.worker.grows_greet r) heq⟩
  | reject r =>
      obtain ⟨c, -, -, heq⟩ := hrun
      exact Or.inr ⟨by simp, hreply _ (s.worker.grows_setState r c _) heq⟩
  | exit r order =>
      obtain ⟨c, -, -, -, heq⟩ := hrun
      exact Or.inr ⟨by simp, hreply _ (s.worker.grows_cleanup r c order) heq⟩
  | send r buf =>
      obtain ⟨c, -, heq⟩ := hrun
      exact Or.inr ⟨by simp, hreply _ (s.worker.grows_setState r c _) heq⟩
  | frame r f =>
      obtain ⟨c, hc, -, heq⟩ := hrun
      by_cases hpub : ∃ subject replyTo payload, f = .pub subject replyTo payload
      · obtain ⟨subject, replyTo, payload, rfl⟩ := hpub
        rw [Shard.handleFrame] at heq
        by_cases hlen : payload.length > maxPayloadBytes
        · rw [if_pos hlen] at heq
          refine Or.inr ⟨?_, hreply _ (s.worker.grows_emitErrTo r (by decide)) heq⟩
          rintro r' subject' replyTo' payload' ⟨⟩
          omega
        · rw [if_neg hlen] at heq
          exact Or.inl ⟨r, subject, replyTo, payload, rfl, by omega,
            (List.getElem?_eq_some_iff.mp hc).1, heq⟩
      · have hcommand := s.handleFrame_command i r c fun _ _ _ hf => hpub ⟨_, _, _, hf⟩
        refine Or.inr ⟨?_, hreply _ (s.worker.grows_handleCommand r c f) (heq.trans hcommand)⟩
        rintro r' subject replyTo payload ⟨⟩
        exact absurd ⟨_, _, _, rfl⟩ hpub

/-! ## Messages -/

/-- An offer of a message is for an entry of the trie, and goes to the connection registered for
its id. -/
def Offer.Addressed (w : Worker) (o : Offer) : Prop :=
  ∀ subject sid replyTo payload, o.frame = .msg subject sid replyTo payload →
    ∃ q, ∃ s ∈ Node.bucket q w.table.root, s.sid = sid ∧ w.lookup s.connId = some o.target

/-- What a worker sends: answers and reports of back-pressure, and messages, for entries of the
trie, that carry a publication which satisfies `H`. -/
def Offer.Sent (H : PublishedFrame → Prop) (w : Worker) (o : Offer) : Prop :=
  o.bytes = encode o.frame ∧ (o.frame ∈ answers ∨ o.frame = .err backPressureText ∨
    ∃ frame, H frame ∧ ∃ q, ∃ s ∈ Node.bucket q w.table.root, o.frame = frame.msg s.sid ∧
      w.lookup s.connId = some o.target ∧ o.bytes.length ≤ w.emitScratch.length)

section sent

variable {H : PublishedFrame → Prop}

/-- An answer may be sent. -/
lemma Offer.IsAnswer.sent {o : Offer} (h : o.IsAnswer) (w : Worker) : o.Sent H w :=
  ⟨h.2, Or.inl h.1⟩

/-- What is sent is addressed. -/
lemma Offer.Sent.addressed {o : Offer} {w : Worker} (h : o.Sent H w) : o.Addressed w := by
  intro subject sid replyTo payload hmsg
  obtain ⟨hbytes, hanswer | hreport | ⟨frame, -, q, s, hs, hframe, htarget, -⟩⟩ := h
  · exact absurd hmsg ((Offer.IsAnswer.isReply ⟨hanswer, hbytes⟩).2 subject sid replyTo payload)
  · rw [hmsg] at hreport
    cases hreport
  · rw [hframe] at hmsg
    exact ⟨q, s, hs, (Frame.msg.inj hmsg).2.1, htarget⟩

/-- A dispatch sends messages of its publication. -/
lemma Worker.sent_dispatchLocal {w w' : Worker} {frame : PublishedFrame} (hH : H frame)
    (h : w.dispatchLocal frame = .ok w') : w.Extends (Offer.Sent H w) w' := by
  cases hparse : parsePublisherSubject frame.subject with
  | error e => rw [Worker.dispatchLocal_error hparse] at h; cases h
  | ok tokens =>
      refine (Worker.fits_dispatchLocal hparse h).mono ?_
      rintro o ⟨s, hs, hframe, hbytes, -, htarget, hfit⟩
      obtain ⟨q, -, hq⟩ := mem_matching.mp hs
      exact ⟨by rw [hbytes, hframe], Or.inr (Or.inr ⟨frame, hH, q, s, hq, hframe, htarget, hfit⟩)⟩

/-- Finishing a publication sends a report of back-pressure, or nothing. -/
lemma Shard.sent_finish (s : Shard n) (p : Publication n) :
    s.worker.Extends (Offer.Sent H s.worker) (s.finish p).worker := by
  unfold Shard.finish
  split_ifs
  · dsimp only
    refine (s.worker.extends_emitErrTo p.conn backPressureText).mono ?_
    rintro o ⟨-, -, hframe, hbytes⟩
    exact ⟨by rw [hbytes, hframe], Or.inr (Or.inl hframe)⟩
  · exact .refl s.worker

/-- A `PUB` sends messages of its publication, or an answer. -/
lemma Shard.sent_handlePub (s : Shard n) (i : Fin n) (r : ConnRef) {frame : PublishedFrame}
    (hH : H frame) : s.worker.Extends (Offer.Sent H s.worker) (s.handlePub i r frame).worker := by
  cases hdispatch : s.worker.dispatchLocal frame with
  | error e =>
      simp only [Shard.handlePub, hdispatch]
      exact (s.worker.extends_answer r (subjectErrorText_mem e)).mono fun o ho => ho.sent _
  | ok worker =>
      rw [s.worker_handlePub i r hdispatch]
      exact Worker.sent_dispatchLocal hH hdispatch

/-- A drained frame sends messages of its publication. -/
lemma Shard.sent_dispatchDrained (s : Shard n) {parcel : Parcel n} (hH : H parcel.frame) :
    s.worker.Extends (Offer.Sent H s.worker) (s.dispatchDrained parcel).worker := by
  unfold Shard.dispatchDrained
  split
  · exact .refl s.worker
  · rename_i worker hdispatch
    exact Worker.sent_dispatchLocal hH hdispatch

end sent

/-- What a `PUB` sends is addressed. -/
lemma Shard.extends_handlePub (s : Shard n) (i : Fin n) (r : ConnRef) (frame : PublishedFrame) :
    s.worker.Extends (Offer.Addressed s.worker) (s.handlePub i r frame).worker :=
  (s.sent_handlePub i r (H := fun _ => True) trivial).mono fun _ ho => ho.addressed

/-! ## Steps -/

/-- Apart from its tasks, a shard only enqueues, and what it sends is in its inbox. -/
lemma sent_step_of_ne {H : PublishedFrame → Prop} {b b' : Broker n} {a : Action n}
    (hstep : step b a = some b') {i : Fin n} (ha : ∀ t, a ≠ .task i t)
    (hinbox : ∀ x ∈ (b.inboxes i).items, H x.frame) :
    (b.shards i).worker.Extends (Offer.Sent H (b.shards i).worker) (b'.shards i).worker := by
  rcases step_shard hstep i with ⟨t, ht, -⟩ | ⟨-, ⟨p, hs⟩ | ⟨parcel, hparcel, hs⟩ | ⟨activity, hs⟩⟩
  · exact absurd ht (ha t)
  · rw [hs]
    exact (b.shards i).sent_finish p
  · rw [hs]
    exact (b.shards i).sent_dispatchDrained (hinbox parcel hparcel)
  · rw [hs]
    exact .refl _

/-- What a step offers on a shard on which it is no task is addressed. -/
lemma extends_step {b b' : Broker n} {a : Action n} (hstep : step b a = some b') {i : Fin n}
    (ha : ∀ t, a ≠ .task i t) :
    (b.shards i).worker.Extends (Offer.Addressed (b.shards i).worker) (b'.shards i).worker :=
  (sent_step_of_ne (H := fun _ => True) hstep ha fun _ _ => trivial).mono fun _ ho => ho.addressed

/-- What an action means to a shard: it runs a piece of one of its tasks, or it makes it enqueue
messages at most. -/
lemma step_cases {b b' : Broker n} {a : Action n} (hstep : step b a = some b') (i : Fin n) :
    (∃ t, a = .task i t ∧ (b.shards i).run i t = some (b'.shards i)) ∨
    ((∀ t, a ≠ .task i t) ∧
      (b.shards i).worker.Extends (Offer.Addressed (b.shards i).worker) (b'.shards i).worker) := by
  by_cases ha : ∃ t, a = .task i t
  · obtain ⟨t, rfl⟩ := ha
    obtain ⟨-, s, hs, rfl⟩ := step_eq_some hstep
    exact Or.inl ⟨t, rfl, by rwa [shards_setShard_self]⟩
  · have hne : ∀ t, a ≠ .task i t := fun t ht => ha ⟨t, ht⟩
    exact Or.inr ⟨hne, extends_step hstep hne⟩

/-- Handling a `PUB` leaves the worker as the dispatch does. -/
lemma worker_step_pub {b b' : Broker n} {i : Fin n} {r : ConnRef} {frame : PublishedFrame}
    (hstep : step b (.task i (.frame r (.pub frame.subject frame.replyTo frame.payload))) = some b')
    (hlen : frame.payload.length ≤ maxPayloadBytes) {w : Worker}
    (hdispatch : (b.shards i).worker.dispatchLocal frame = .ok w) :
    (b'.shards i).worker = w := by
  obtain ⟨-, s, hs, rfl⟩ := step_eq_some hstep
  obtain ⟨c, -, -, rfl⟩ := Shard.run_eq_some hs
  rw [shards_setShard_self, Shard.handleFrame, if_neg (by omega)]
  exact Shard.worker_handlePub _ i r hdispatch

/-- What an action sends: its messages carry the `PUB` that it handles, or frames of the inbox. -/
lemma sent_step {H : PublishedFrame → Prop} {b b' : Broker n} {a : Action n}
    (hstep : step b a = some b') (i : Fin n)
    (hpub : ∀ r subject replyTo payload, a = .task i (.frame r (.pub subject replyTo payload)) →
      H ⟨subject, replyTo, payload⟩)
    (hinbox : ∀ x ∈ (b.inboxes i).items, H x.frame) :
    (b.shards i).worker.Grows (Offer.Sent H (b.shards i).worker) (b'.shards i).worker := by
  by_cases ha : ∃ t, a = .task i t
  · obtain ⟨t, rfl⟩ := ha
    obtain ⟨-, s, hrun, rfl⟩ := step_eq_some hstep
    rw [shards_setShard_self]
    rcases Shard.run_cases hrun with ⟨r, subject, replyTo, payload, rfl, -, -, rfl⟩ |
      ⟨-, -, -, -, hgrows⟩
    · exact ((b.shards i).sent_handlePub i r (hpub r subject replyTo payload rfl)).grows
    · exact hgrows.mono fun o ho => ho.sent _
  · exact (sent_step_of_ne hstep (fun t ht => ha ⟨t, ht⟩) hinbox).grows

/-- Every message an action offers is for an entry of the trie before it. -/
lemma grows_step {b b' : Broker n} {a : Action n} (hstep : step b a = some b') (i : Fin n) :
    (b.shards i).worker.Grows (Offer.Addressed (b.shards i).worker) (b'.shards i).worker :=
  (sent_step (H := fun _ => True) hstep i (fun _ _ _ _ _ => trivial) fun _ _ => trivial).mono
    fun _ ho => ho.addressed

/-- The scratch buffer has always its full length. -/
lemma length_emitScratch {capacity : ℕ} {as : List (Action n)} {b : Broker n}
    (hrun : run step (Broker.init n capacity) as = some b) (i : Fin n) :
    (b.shards i).worker.emitScratch.length = emitScratchCapacity := by
  refine run_invariant (I := fun b : Broker n =>
    (b.shards i).worker.emitScratch.length = emitScratchCapacity) ?_ ?_ hrun
  · intro b a b' h hstep
    exact (grows_step hstep i).scratch.trans h
  · exact List.length_replicate

/-- A `PUB` makes the worker enqueue at most; every other frame is a command. -/
lemma Shard.worker_handleFrame (s : Shard n) (i : Fin n) (r : ConnRef) (c : Connection)
    (f : Frame) :
    ((∃ subject replyTo payload, f = .pub subject replyTo payload) ∧
      s.worker.Extends (fun _ => True) (s.handleFrame i r c f).worker) ∨
    (s.handleFrame i r c f).worker = s.worker.handleCommand r c f := by
  by_cases hpub : ∃ subject replyTo payload, f = .pub subject replyTo payload
  · refine Or.inl ⟨hpub, ?_⟩
    obtain ⟨subject, replyTo, payload, rfl⟩ := hpub
    rw [Shard.handleFrame]
    split_ifs
    · have hanswer := s.worker.extends_emitErrTo r (ascii "maximum payload exceeded")
      dsimp only
      exact hanswer.mono fun _ _ => trivial
    · exact (s.extends_handlePub i r _).mono fun _ _ => trivial
  · rw [s.handleFrame_command i r c fun _ _ _ hf => hpub ⟨_, _, _, hf⟩]
    exact Or.inr rfl

/-- A frame that is handled makes the shard enqueue, or it changes the trie and the map of the
reader. -/
lemma Shard.handleFrame_cases (s : Shard n) (i : Fin n) (r : ConnRef) (c : Connection) (f : Frame) :
    s.worker.Extends (fun _ => True) (s.handleFrame i r c f).worker ∨ ∃ table subscriptions,
      (s.handleFrame i r c f).worker = { s.worker with
        table := table
        conns := s.worker.conns.set r { c with subscriptions := subscriptions } } := by
  rcases s.worker_handleFrame i r c f with ⟨-, hext⟩ | hcommand
  · exact Or.inl hext
  · rw [hcommand]
    exact (s.worker.handleCommand_cases r c f).imp_left fun hext => hext.mono fun _ _ => trivial

/-! ## Readers that have ended -/

/-- The reader of the connection has ended. -/
def Worker.Finished (w : Worker) (r : ConnRef) : Prop :=
  (w.conns.map (·.reader))[r]? = some .finished

namespace Worker

variable {w w' : Worker} {r r' : ConnRef} {c c' : Connection}

/-- Only the core counts for whether a reader has ended. -/
lemma Finished.of_core (h : w.Finished r) (hcore : w'.core = w.core) : w'.Finished r := by
  have hreaders : ∀ w : Worker, w.conns.map (·.reader) =
      (w.conns.map Connection.core).map (·.2.2) := fun w => by simp [Connection.core]
  rw [Finished, hreaders, conns_of_core hcore, ← hreaders]
  exact h

/-- Replacing a connection by one that has ended if it had ended before. -/
lemma Finished.set (h : w.Finished r) (hc : w.conns[r']? = some c)
    (hreader : c.reader = .finished → c'.reader = .finished) :
    ({ w with conns := w.conns.set r' c' } : Worker).Finished r := by
  simp only [Finished, List.getElem?_map, Option.map_eq_some_iff] at h ⊢
  obtain ⟨d, hd, hfinished⟩ := h
  rcases eq_or_ne r' r with rfl | hr
  · obtain rfl : c = d := Option.some.inj (hc.symm.trans hd)
    exact ⟨c', List.getElem?_set_self (List.getElem?_eq_some_iff.mp hc).1, hreader hfinished⟩
  · exact ⟨d, (List.getElem?_set_ne hr).trans hd, hfinished⟩

/-- A change to another connection does not matter. -/
lemma Finished.modify (h : w.Finished r) (f : Connection → Connection) (hr : r' ≠ r) :
    ({ w with conns := w.conns.modify r' f } : Worker).Finished r := by
  simp only [Finished, List.getElem?_map, List.getElem?_modify, if_neg hr] at h ⊢
  simpa using h

/-- A connection whose reader has not ended is another one. -/
lemma Finished.reader_ne (h : w.Finished r) (hc : w.conns[r']? = some c)
    (hreader : c.reader ≠ .finished) : r' ≠ r := by
  rintro rfl
  simp only [Finished, List.getElem?_map, hc, Option.map_some, Option.some.injEq] at h
  exact hreader h

end Worker

/-- A reader that has ended stays so. -/
lemma Shard.finished_run {s s' : Shard n} {i : Fin n} {t : Task} {r : ConnRef}
    (h : s.worker.Finished r) (hrun : s.run i t = some s') : s'.worker.Finished r := by
  have hs := Shard.run_eq_some hrun
  cases t with
  | accept granted =>
      rw [hs]
      cases granted with
      | false => exact h
      | true =>
          have hlt := (List.getElem?_eq_some_iff.mp h).1
          simp only [Worker.Finished, Worker.accept, Worker.nextId, if_true, List.map_append]
          rw [List.getElem?_append_left hlt]
          exact h
  | greet r' =>
      obtain ⟨c, hc, hreader, rfl⟩ := hs
      have hr := h.reader_ne hc (by rw [hreader]; decide)
      dsimp only
      rw [Worker.greet_eq]
      have hcore := (s.worker.extends_offer r' none (.info serverInfoJson)
        (encode (.info serverInfoJson))).core
      exact (h.of_core hcore).modify _ hr
  | reject r' =>
      obtain ⟨c, hc, -, rfl⟩ := hs
      exact h.set hc id
  | send r' buf =>
      obtain ⟨c, hc, rfl⟩ := hs
      exact h.set hc id
  | exit r' order =>
      obtain ⟨c, hc, -, -, rfl⟩ := hs
      exact h.set hc fun _ => rfl
  | frame r' f =>
      obtain ⟨c, hc, -, rfl⟩ := hs
      rcases s.handleFrame_cases i r' c f with hext | ⟨table, subscriptions, heq⟩
      · exact h.of_core hext.core
      · rw [heq]
        exact h.set hc id

/-- A reader that has ended stays so, and handles no frame. -/
lemma finished_step {b b' : Broker n} {a : Action n} (hstep : step b a = some b') {i : Fin n}
    {r : ConnRef} (h : (b.shards i).worker.Finished r) :
    (b'.shards i).worker.Finished r ∧ ∀ f, a ≠ .task i (.frame r f) := by
  rcases step_cases hstep i with ⟨t, rfl, hs⟩ | ⟨hne, hext⟩
  · refine ⟨Shard.finished_run h hs, ?_⟩
    rintro f ⟨⟩
    obtain ⟨c, hc, hreader, -⟩ := Shard.run_eq_some hs
    exact h.reader_ne hc (by rw [hreader]; decide) rfl
  · exact ⟨h.of_core hext.core, fun f => hne _⟩

end Aulon.Server
