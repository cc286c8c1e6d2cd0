import Aulon.Server.Streams

/-!
# Messages reach those who asked for them

A message is offered for an entry of the trie whose pattern matches the published subject, and the
entry is owed to a `SUB` of the connection that the message goes to. So whatever the other clients
do, a client gets a message under a sid only if the subject of the message matches a subject that
it has itself subscribed to under that sid, and it gets it for a queue group only if it has joined
the group with that `SUB`.

* `Offer.Matched` — a message is for a matching entry of the trie.
* `Offer.Wanted`, `wanted_run` — its target has sent the matching `SUB`.
-/

namespace Aulon.Server

open Aulon.Lib Aulon.Core Aulon.Proto

variable {n capacity : ℕ} {as : List (Action n)} {b : Broker n} {i : Fin n}

/-- If the offer is a message, then for an entry of the trie whose pattern matches its subject. -/
def Offer.Matched (w : Worker) (o : Offer) : Prop :=
  ∀ subject sid replyTo payload, o.frame = .msg subject sid replyTo payload →
    ∃ tokens q, parsePublisherSubject subject = .ok tokens ∧ Matches q tokens = true ∧
      ∃ s ∈ Node.bucket q w.table.root, s.sid = sid ∧ s.queueGroup = o.group ∧
        w.lookup s.connId = some o.target

/-- An error is no message. -/
lemma Offer.Matched.of_err {o : Offer} {msg : Bytes} (h : o.frame = .err msg) (w : Worker) :
    o.Matched w := by
  intro subject sid replyTo payload hmsg
  rw [h] at hmsg
  cases hmsg

/-- An answer is no message. -/
lemma Offer.IsAnswer.matched {o : Offer} (h : o.IsAnswer) (w : Worker) : o.Matched w := by
  intro subject sid replyTo payload hmsg
  exact absurd hmsg (h.isReply.2 _ _ _ _)

/-- A dispatch offers messages for matching entries only. -/
lemma Worker.matched_dispatchLocal {w w' : Worker} {frame : PublishedFrame}
    (h : w.dispatchLocal frame = .ok w') : w.Extends (Offer.Matched w) w' := by
  cases hparse : parsePublisherSubject frame.subject with
  | error e =>
      rw [Worker.dispatchLocal_error hparse] at h
      cases h
  | ok tokens =>
      refine (Worker.extends_dispatchLocal hparse h).mono ?_
      rintro o ⟨s, hs, hframe, -, hgroup, htarget⟩ subject sid replyTo payload hmsg
      obtain ⟨q, hq, hbucket⟩ := mem_matching.mp hs
      rw [hframe, PublishedFrame.msg] at hmsg
      obtain ⟨rfl, rfl, -, -⟩ := Frame.msg.inj hmsg
      exact ⟨tokens, q, hparse, hq, s, hbucket, rfl, hgroup.symm, htarget⟩

namespace Shard

variable (s : Shard n)

/-- Finishing a publication offers no message. -/
lemma matched_finish (p : Publication n) :
    s.worker.Extends (Offer.Matched s.worker) (s.finish p).worker := by
  unfold finish
  split_ifs
  · dsimp only
    refine (s.worker.extends_emitErrTo p.conn backPressureText).mono ?_
    rintro o ⟨-, -, hframe, -⟩
    exact .of_err hframe _
  · exact .refl s.worker

/-- A `PUB` offers messages for matching entries only. -/
lemma matched_handlePub (i : Fin n) (r : ConnRef) (frame : PublishedFrame) :
    s.worker.Extends (Offer.Matched s.worker) (s.handlePub i r frame).worker := by
  cases hdispatch : s.worker.dispatchLocal frame with
  | error e =>
      simp only [handlePub, hdispatch]
      exact (s.worker.extends_answer r (subjectErrorText_mem e)).mono fun o ho => ho.matched _
  | ok worker =>
      rw [s.worker_handlePub i r hdispatch]
      exact Worker.matched_dispatchLocal hdispatch

/-- So does a drained frame. -/
lemma matched_dispatchDrained (parcel : Parcel n) :
    s.worker.Extends (Offer.Matched s.worker) (s.dispatchDrained parcel).worker := by
  unfold dispatchDrained
  split
  · exact .refl s.worker
  · exact Worker.matched_dispatchLocal (by assumption)

end Shard

/-- Every message an action offers is for a matching entry of the trie before it. -/
lemma matched_step {b b' : Broker n} {a : Action n} (hstep : step b a = some b') (i : Fin n) :
    (b.shards i).worker.Grows (Offer.Matched (b.shards i).worker) (b'.shards i).worker := by
  rcases step_shard hstep i with ⟨t, -, -, hrun⟩ | ⟨-, ⟨p, hs⟩ | ⟨parcel, -, hs⟩ | ⟨activity, hs⟩⟩
  · rcases Shard.run_cases hrun with ⟨r, subject, replyTo, payload, -, -, -, hs⟩ |
      ⟨-, -, -, -, hgrows⟩
    · rw [hs]
      exact ((b.shards i).matched_handlePub i r _).grows
    · exact hgrows.mono fun o ho => ho.matched _
  · rw [hs]
    exact ((b.shards i).matched_finish p).grows
  · rw [hs]
    exact ((b.shards i).matched_dispatchDrained parcel).grows
  · rw [hs]
    exact (Worker.Extends.refl _).grows

/-- An entry of the book is owed to a `SUB` for its pattern, of a connection that has its id. -/
lemma Book.sub_after (i : Fin n) (as : List (Action n)) {q : List Token} {s : Sub}
    (hs : s ∈ (Book.after i as).entries q) :
    ∃ r subject, (Book.after i as).ids[r]? = some s.connId ∧ patternOf subject = some q ∧
      .task i (.frame r (.sub subject s.queueGroup s.sid)) ∈ as := by
  induction as using List.reverseRecOn with
  | nil => cases hs
  | append_singleton as a ih =>
      rw [Book.after_concat] at hs ⊢
      rcases Book.mem_entries_apply hs with hold |
        ⟨r, subject, queueGroup, sid, id, hop, hid, hpattern, rfl⟩
      · obtain ⟨r, subject, hr, hpattern, hmem⟩ := ih hold
        exact ⟨r, subject, Book.getElem?_ids_apply hr _, hpattern, List.mem_append_left _ hmem⟩
      · refine ⟨r, subject, Book.getElem?_ids_apply hid _, hpattern, ?_⟩
        rw [eq_of_bookOp_eq_sub hop]
        exact List.mem_append_right _ (List.mem_singleton_self _)

/-- If the offer is a message, then its target has subscribed, with the sid and for the queue group
of the offer, to a subject that matches the subject of the message. -/
def Offer.Wanted (as : List (Action n)) (i : Fin n) (o : Offer) : Prop :=
  ∀ subject sid replyTo payload, o.frame = .msg subject sid replyTo payload →
    ∃ tokens pattern subject', parsePublisherSubject subject = .ok tokens ∧
      patternOf subject' = some pattern ∧ Matches pattern tokens = true ∧
      .task i (.frame o.target (.sub subject' o.group sid)) ∈ as

/-- A subscription that was made once stays made. -/
lemma Offer.Wanted.append {o : Offer} (h : o.Wanted as i) (a : Action n) :
    o.Wanted (as ++ [a]) i := by
  intro subject sid replyTo payload hmsg
  obtain ⟨tokens, pattern, subject', hparse, hpattern, hmatches, hmem⟩ := h _ _ _ _ hmsg
  exact ⟨tokens, pattern, subject', hparse, hpattern, hmatches, List.mem_append_left _ hmem⟩

/-- Where ids are distinct, the connection that the map has for an entry is the one that has
subscribed. -/
lemma Offer.Matched.wanted (hrun : run step (Broker.init n capacity) as = some b)
    (hdistinct : (b.shards i).worker.ids.Nodup) {o : Offer}
    (h : o.Matched (b.shards i).worker) : o.Wanted as i := by
  intro subject sid replyTo payload hmsg
  obtain ⟨tokens, q, hparse, hmatches, s, hs, rfl, hgroup, htarget⟩ := h _ _ _ _ hmsg
  have hentry : s ∈ (Book.after i as).entries q := by
    rw [← book_run hrun i]
    exact hs
  obtain ⟨r, subject', hr, hpattern, hmem⟩ := Book.sub_after i as hentry
  have howner := (sound_book hrun i).registered s.connId o.target htarget
  rw [← book_run hrun i] at hr
  rw [Worker.ids_book] at hr howner
  obtain rfl : r = o.target :=
    (List.getElem?_inj (List.getElem?_eq_some_iff.mp hr).1 hdistinct).mp (hr.trans howner.symm)
  rw [hgroup] at hmem
  exact ⟨tokens, q, subject', hparse, hpattern, hmatches, hmem⟩

/-- Every message of a run with distinct ids is wanted. -/
lemma wanted_run (hrun : run step (Broker.init n capacity) as = some b)
    (hdistinct : (b.shards i).worker.ids.Nodup) :
    ∀ o ∈ (b.shards i).worker.offers, o.Wanted as i := by
  refine run_history (I := fun as b => (b.shards i).worker.ids.Nodup →
    ∀ o ∈ (b.shards i).worker.offers, o.Wanted as i) (fun _ o ho => by cases ho) ?_ hrun hdistinct
  intro as b a b' hrun ih hstep hdistinct' o ho
  have hdistinct : (b.shards i).worker.ids.Nodup := by
    rw [← Worker.ids_book, book_step hstep i] at hdistinct'
    rw [← Worker.ids_book]
    exact Book.nodup_ids_of_apply hdistinct'
  obtain ⟨-, -, new, hnew, hmatched⟩ := matched_step hstep i
  rw [hnew] at ho
  rcases List.mem_append.mp ho with ho | ho
  · exact (ih hdistinct o ho).append a
  · exact ((hmatched o ho).wanted hrun hdistinct).append a

end Aulon.Server
