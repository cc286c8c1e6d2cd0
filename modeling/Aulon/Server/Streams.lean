import Aulon.Proto.Canonical
import Aulon.Server.CrossShard
import Aulon.Server.Identity
import Aulon.Server.Outbound

/-!
# The stream of bytes of a connection

Subjects, reply subjects, payloads and sids are bytes that clients choose, and every connection gets
them back one message after the other, in one stream and without any escaping. A client that reads
the stream with the parser of the broker still finds in it the frames that the broker meant: what
the parser has once let through is well formed when it is written again.

* `Published`, `Subscribed` — a `PUB` with these fields, or a `SUB` of the connection with this sid,
  is among the frames that were handled.
* `Offer.Proper` — an offer is the encoding of an answer, or of a message that carries a publication
  to a sid of some connection of the shard.
* `proper_run` — so is every offer of every run; and as long as no connection id is taken twice,
  that connection is the one it is made to.
* `stream_separates` — so the stream of a connection parses into the frames that were enqueued.
* `stream_injected` — a connection that takes the id of another one gets its messages.
-/

namespace Aulon.Server

open Aulon.Lib Aulon.Core Aulon.Proto

variable {n : ℕ} {capacity : ℕ} {as : List (Action n)} {b : Broker n} {i : Fin n}

/-! ## Where messages come from -/

/-- Some shard has handled a `PUB` with these fields. -/
def Published (as : List (Action n)) (frame : PublishedFrame) : Prop :=
  ∃ j r, .task j (.frame r (.pub frame.subject frame.replyTo frame.payload)) ∈ as

/-- Connection `r` of shard `i` has sent a `SUB` with this sid. -/
def Subscribed (as : List (Action n)) (i : Fin n) (r : ConnRef) (sid : Bytes) : Prop :=
  ∃ subject queueGroup, .task i (.frame r (.sub subject queueGroup sid)) ∈ as

/-- What was published once stays published. -/
lemma Published.append {frame : PublishedFrame} (h : Published as frame) (a : Action n) :
    Published (as ++ [a]) frame := by
  obtain ⟨j, r, hmem⟩ := h
  exact ⟨j, r, List.mem_append_left _ hmem⟩

/-- A subscription that was made once stays made. -/
lemma Subscribed.append {r : ConnRef} {sid : Bytes} (h : Subscribed as i r sid) (a : Action n) :
    Subscribed (as ++ [a]) i r sid := by
  obtain ⟨subject, queueGroup, hmem⟩ := h
  exact ⟨subject, queueGroup, List.mem_append_left _ hmem⟩

/-- What an action publishes is the `PUB` of the client's reader. -/
lemma eq_of_mem_published {a : Action n} {r : ConnRef} {frame : PublishedFrame}
    (h : (r, frame) ∈ a.published i) :
    a = .task i (.frame r (.pub frame.subject frame.replyTo frame.payload)) := by
  unfold Action.published at h
  split at h
  · split_ifs at h with hcond
    · rw [List.mem_singleton, Prod.mk.injEq] at h
      obtain ⟨rfl, rfl⟩ := h
      rw [hcond.1]
    · cases h
  · cases h

/-- The publications of a shard were handled. -/
lemma published_of_mem_pubs (hrun : run step (Broker.init n capacity) as = some b) (j : Fin n)
    {p : Publication n} (hp : p ∈ (b.shards j).pubs) : Published as p.frame := by
  have hmem : (p.conn, p.frame) ∈ as.flatMap (·.published j) := by
    rw [← pubs_run hrun j]
    exact List.mem_map_of_mem hp
  obtain ⟨a, ha, hpublished⟩ := List.mem_flatMap.mp hmem
  rw [eq_of_mem_published hpublished] at ha
  exact ⟨j, p.conn, ha⟩

/-- So were the frames in an inbox, on the shard that pushed them. -/
lemma published_of_mem_inbox (hrun : run step (Broker.init n capacity) as = some b)
    {x : Parcel n} (hx : x ∈ (b.inboxes i).items) : Published as x.frame := by
  obtain ⟨p, hp, -, hframe⟩ := (routed_run hrun).exists_pub_of_mem_inbox hx
  rw [← hframe]
  exact published_of_mem_pubs hrun _ hp

/-- An entry of the book is owed to a `SUB`, of a connection that has its id. -/
lemma Book.subscribed_after (i : Fin n) (as : List (Action n)) {q : List Token} {s : Sub}
    (hs : s ∈ (Book.after i as).entries q) :
    ∃ r, (Book.after i as).ids[r]? = some s.connId ∧ Subscribed as i r s.sid := by
  induction as using List.reverseRecOn with
  | nil => cases hs
  | append_singleton as a ih =>
      rw [Book.after_concat] at hs ⊢
      rcases Book.mem_entries_apply hs with hold |
        ⟨r, subject, queueGroup, sid, id, hop, hid, -, rfl⟩
      · obtain ⟨r, hr, hsub⟩ := ih hold
        exact ⟨r, Book.getElem?_ids_apply hr _, hsub.append a⟩
      · refine ⟨r, Book.getElem?_ids_apply hid _, subject, queueGroup, ?_⟩
        rw [eq_of_bookOp_eq_sub hop]
        exact List.mem_append_right _ (List.mem_singleton_self _)

/-! ## Proper offers -/

/-- What connection `r` of shard `i` may be offered: answers and reports of back-pressure, and
messages that carry a publication to a sid it has subscribed with. -/
def Offer.Proper (as : List (Action n)) (i : Fin n) (r : ConnRef) (o : Offer) : Prop :=
  o.bytes = encode o.frame ∧ (o.frame ∈ answers ∨ o.frame = .err backPressureText ∨
    ∃ frame sid, o.frame = frame.msg sid ∧ Published as frame ∧ Subscribed as i r sid ∧
      o.bytes.length ≤ emitScratchCapacity)

/-- A longer history has the same publications and subscriptions, and maybe more. -/
lemma Offer.Proper.append {r : ConnRef} {o : Offer} (h : o.Proper as i r) (a : Action n) :
    o.Proper (as ++ [a]) i r := by
  obtain ⟨hbytes, hanswer | hreport | ⟨frame, sid, hframe, hpub, hsub, hlen⟩⟩ := h
  · exact ⟨hbytes, Or.inl hanswer⟩
  · exact ⟨hbytes, Or.inr (Or.inl hreport)⟩
  · exact ⟨hbytes, Or.inr (Or.inr ⟨frame, sid, hframe, hpub.append a, hsub.append a, hlen⟩)⟩

/-- What a worker sends is proper for the connection that subscribed. Where ids are distinct, that
is the one the map has for the entry. -/
lemma Offer.Sent.proper (hrun : run step (Broker.init n capacity) as = some b) {a : Action n}
    {o : Offer} (h : o.Sent (Published (as ++ [a])) (b.shards i).worker) :
    ∃ r, o.Proper (as ++ [a]) i r ∧ ((b.shards i).worker.ids.Nodup → r = o.target) := by
  obtain ⟨hbytes, hanswer | hreport | ⟨frame, hpub, q, s, hs, hframe, htarget, hlen⟩⟩ := h
  · exact ⟨o.target, ⟨hbytes, Or.inl hanswer⟩, fun _ => rfl⟩
  · exact ⟨o.target, ⟨hbytes, Or.inr (Or.inl hreport)⟩, fun _ => rfl⟩
  · have hentry : s ∈ (Book.after i as).entries q := by
      rw [← book_run hrun i]
      exact hs
    obtain ⟨r, hr, hsub⟩ := Book.subscribed_after i as hentry
    rw [length_emitScratch hrun i] at hlen
    refine ⟨r, ⟨hbytes, Or.inr (Or.inr ⟨frame, s.sid, hframe, hpub, hsub.append a, hlen⟩)⟩, ?_⟩
    intro hdistinct
    have howner := (sound_book hrun i).registered s.connId o.target htarget
    rw [← book_run hrun i] at hr
    rw [Worker.ids_book] at hr howner
    exact (List.getElem?_inj (List.getElem?_eq_some_iff.mp hr).1 hdistinct).mp
      (hr.trans howner.symm)

/-- Every offer of a run is proper for some connection of its shard, and for its target if ids are
distinct. -/
lemma proper_run (hrun : run step (Broker.init n capacity) as = some b) :
    ∀ o ∈ (b.shards i).worker.offers,
      ∃ r, o.Proper as i r ∧ ((b.shards i).worker.ids.Nodup → r = o.target) := by
  refine run_history (I := fun as b => ∀ o ∈ (b.shards i).worker.offers,
    ∃ r, o.Proper as i r ∧ ((b.shards i).worker.ids.Nodup → r = o.target))
    (fun o ho => by cases ho) ?_ hrun
  intro as b a b' hrun ih hstep o ho
  have hdistinct : (b'.shards i).worker.ids.Nodup → (b.shards i).worker.ids.Nodup := by
    intro hdistinct'
    rw [← Worker.ids_book, book_step hstep i] at hdistinct'
    rw [← Worker.ids_book]
    exact Book.nodup_ids_of_apply hdistinct'
  obtain ⟨-, -, new, hnew, hsent⟩ := sent_step (H := Published (as ++ [a])) hstep i
    (fun r subject replyTo payload ha =>
      ⟨i, r, List.mem_append_right _ (List.mem_singleton.mpr ha.symm)⟩)
    (fun x hx => (published_of_mem_inbox hrun hx).append a)
  rw [hnew] at ho
  rcases List.mem_append.mp ho with ho | ho
  · obtain ⟨r, hproper, htarget⟩ := ih o ho
    exact ⟨r, hproper.append a, fun h => htarget (hdistinct h)⟩
  · obtain ⟨r, hproper, htarget⟩ := (hsent o ho).proper hrun
    exact ⟨r, hproper, fun h => htarget (hdistinct h)⟩

/-! ## The stream -/

/-- The answers of a worker can be read back. -/
lemma wellFormed_of_mem_answers {f : Frame} (hf : f ∈ answers) : f.WellFormed := by
  rcases List.mem_cons.mp hf with rfl | hf
  · exact ⟨by decide +kernel, findCrlf_eq_none.mp (by decide +kernel)⟩
  rcases List.mem_cons.mp hf with rfl | hf
  · exact trivial
  obtain ⟨msg, hmsg, rfl⟩ := List.mem_map.mp hf
  have hnone : ∀ msg ∈ errorTexts, findCrlf msg = none := by decide +kernel
  exact findCrlf_eq_none.mp (hnone msg hmsg)

/-- A message carries the fields of two frames that were parsed, so it can be read back, too. -/
lemma wellFormed_msg {frame : PublishedFrame} {sid subject : Bytes} {queueGroup : Option Bytes}
    (hpub : (Frame.pub frame.subject frame.replyTo frame.payload).WellFormed)
    (hsub : (Frame.sub subject queueGroup sid).WellFormed) : (frame.msg sid).WellFormed :=
  ⟨hpub.1, hsub.2.2, hpub.2⟩

/-- In a stream, a proper offer is followed by the next one. -/
lemma Offer.Proper.parseFrame {r : ConnRef} {o : Offer} (h : o.Proper as i r)
    (hparsed : ∀ j r f, .task j (.frame r f) ∈ as → ∃ buf c, parseFrame buf = .frame f c)
    (rest : Bytes) : parseFrame (o.bytes ++ rest) = .frame o.frame o.bytes.length := by
  obtain ⟨hbytes, hcases⟩ := h
  rw [hbytes]
  rcases hcases with hanswer | hreport | ⟨frame, sid, hframe, ⟨_, _, hpub⟩, ⟨_, _, hsub⟩, hlen⟩
  · have hshort : ∀ f ∈ answers, (encode f).length < wordMod := by decide +kernel
    exact parseFrame_encode (wellFormed_of_mem_answers hanswer) (hshort _ hanswer) rest
  · rw [hreport]
    exact parseFrame_encode (f := .err backPressureText) (findCrlf_eq_none.mp (by decide +kernel))
      (by decide +kernel) rest
  · obtain ⟨_, _, hpub⟩ := hparsed _ _ _ hpub
    obtain ⟨_, _, hsub⟩ := hparsed _ _ _ hsub
    have hshort : emitScratchCapacity < wordMod := by decide
    refine parseFrame_encode ?_ ?_ rest
    · rw [hframe]
      exact wellFormed_msg (wellFormed_of_parseFrame hpub) (wellFormed_of_parseFrame hsub)
    · rw [← hbytes]
      exact lt_of_le_of_lt hlen hshort

/-- What a proper offer brings. -/
lemma Offer.Proper.brings {r : ConnRef} {o : Offer} (h : o.Proper as i r) :
    (∃ options, o.frame = .info options) ∨ o.frame = .pong ∨ (∃ message, o.frame = .err message) ∨
      ∃ frame sid, o.frame = frame.msg sid ∧ Published as frame ∧ Subscribed as i r sid := by
  obtain ⟨-, hanswer | hreport | ⟨frame, sid, hframe, hpub, hsub, -⟩⟩ := h
  · rcases List.mem_cons.mp hanswer with hinfo | hanswer
    · exact Or.inl ⟨_, hinfo⟩
    rcases List.mem_cons.mp hanswer with hpong | hanswer
    · exact Or.inr (Or.inl hpong)
    obtain ⟨msg, -, herr⟩ := List.mem_map.mp hanswer
    exact Or.inr (Or.inr (Or.inl ⟨msg, herr.symm⟩))
  · exact Or.inr (Or.inr (Or.inl ⟨_, hreport⟩))
  · exact Or.inr (Or.inr (Or.inr ⟨frame, sid, hframe, hpub, hsub⟩))

/-- **Nobody writes into the stream of another client**, in a run in which all frames come from the
parser and no connection id is taken twice: for every connection, what its queue has accepted parses
into exactly the frames that were enqueued, in their order and with nothing left over, and these are
greetings, pongs, errors, and messages that carry a handled `PUB` to a sid of a `SUB` of its own. -/
theorem stream_separates (i : Fin n) (hrun : run step (Broker.init n capacity) as = some b)
    (hparsed : ∀ j r f, .task j (.frame r f) ∈ as → ∃ buf c, parseFrame buf = .frame f c)
    (hnew : Meets step (fun b a => b.TakesNewId i a) (Broker.init n capacity) as) (r : ConnRef) :
    let accepted := (b.shards i).worker.offers.filter fun o => o.target = r ∧ o.outcome = .ok
    parseAll parseFrame (accepted.map (·.bytes)).flatten =
      ⟨accepted.map fun o => (o.frame, o.bytes.length), [], none⟩ ∧
    ∀ o ∈ accepted, (∃ options, o.frame = .info options) ∨ o.frame = .pong ∨
      (∃ message, o.frame = .err message) ∨
      ∃ frame sid, o.frame = frame.msg sid ∧ Published as frame ∧ Subscribed as i r sid := by
  intro accepted
  have hproper : ∀ o ∈ accepted, o.Proper as i r := by
    intro o ho
    obtain ⟨hmem, hok⟩ := List.mem_filter.mp ho
    obtain ⟨r', hproper, htarget⟩ := proper_run hrun o hmem
    rwa [htarget (nodup_ids_of_new hrun hnew), (of_decide_eq_true hok).1] at hproper
  refine ⟨?_, fun o ho => ?_⟩
  · exact parseAll_flatten incremental_parseFrame rfl fun o ho => (hproper o ho).parseFrame hparsed
  · exact (hproper o ho).brings

/-- One client subscribes, and another one publishes a payload that looks like the end of a message
and the start of the next one. -/
theorem stream_separates_payload :
    let payload := ascii "\r\nMSG foo 1 1\r\nx"
    let as : List (Action 1) := [.task 0 (.accept true), .task 0 (.greet 0), .task 0 (.accept true),
      .task 0 (.greet 1), .task 0 (.frame 0 (.sub (ascii "foo") none (ascii "7"))),
      .task 0 (.frame 1 (.pub (ascii "foo") none payload))]
    ∃ b, run step (Broker.init 1 1) as = some b ∧
      (∀ j r f, .task j (.frame r f) ∈ as → ∃ buf c, parseFrame buf = .frame f c) ∧
      Meets step (fun b a => b.TakesNewId 0 a) (Broker.init 1 1) as ∧
      let accepted := (b.shards 0).worker.offers.filter fun o => o.target = 0 ∧ o.outcome = .ok
      parseAll parseFrame (accepted.map (·.bytes)).flatten =
        ⟨accepted.map fun o => (o.frame, o.bytes.length), [], none⟩ := by
  intro payload as
  have hsome : (run step (Broker.init 1 1) as).isSome := by decide +kernel
  obtain ⟨b, hrun⟩ := Option.isSome_iff_exists.mp hsome
  have hparsed : ∀ j r f, .task j (.frame r f) ∈ as → ∃ buf c, parseFrame buf = .frame f c := by
    intro j r f hmem
    have hcases : f = .sub (ascii "foo") none (ascii "7") ∨
        f = .pub (ascii "foo") none payload := by
      simp only [as, List.mem_cons, List.not_mem_nil, Action.task.injEq, Task.frame.injEq,
        reduceCtorEq, and_false, false_or, or_false] at hmem
      rcases hmem with ⟨-, -, hf⟩ | ⟨-, -, hf⟩
      · exact Or.inl hf
      · exact Or.inr hf
    rcases hcases with rfl | rfl
    · exact ⟨ascii "SUB foo 7\r\n", 11, by decide +kernel⟩
    · exact ⟨ascii "PUB foo 16\r\n\r\nMSG foo 1 1\r\nx\r\n", 30, by decide +kernel⟩
  have hnew : Meets step (fun b a => b.TakesNewId 0 a) (Broker.init 1 1) as :=
    takesNewId_of_few (by decide)
  exact ⟨b, hrun, hparsed, hnew, (stream_separates 0 hrun hparsed hnew 0).1⟩

/-! ## Messages for somebody else -/

/-- The first client of a shard connects and subscribes to `foo`. -/
def subscribeFoo (i : Fin n) : List (Action n) :=
  [.task i (.accept true), .task i (.greet 0),
    .task i (.frame 0 (.sub (ascii "foo") none (ascii "1")))]

/-- What is known of the broker after `subscribeFoo`. -/
lemma subscribeFoo_run : ∃ b, run step (Broker.init 1 1) (subscribeFoo 0) = some b ∧
    (b.shards 0).activity = .idle ∧
    (∃ c, (b.shards 0).worker.conns[0]? = some c ∧ c.reader = .reading) ∧
    (b.shards 0).worker.table.matching [ascii "foo"] = [⟨⟨0⟩, ascii "1", none⟩] := by
  have hsome : ((run step (Broker.init 1 1) (subscribeFoo 0)).map fun b =>
      decide ((b.shards 0).activity = .idle ∧
        ((b.shards 0).worker.conns[0]?.map (·.reader)) = some .reading)) = some true := by
    decide +kernel
  obtain ⟨b, hrun, hfacts⟩ := Option.map_eq_some_iff.mp hsome
  obtain ⟨hidle, hreader⟩ := of_decide_eq_true hfacts
  refine ⟨b, hrun, hidle, Option.map_eq_some_iff.mp hreader, ?_⟩
  rw [matching_after hrun]
  decide +kernel

/-- **A message for somebody else.** A client subscribes to `foo` and stays, and 2^32 - 1 others
come and go. The next one gets the id of the first one, and with it the messages for `foo`, under a
sid that it has never sent: it has sent nothing at all. -/
theorem stream_injected :
    ∃ (as : List (Action 1)) (b : Broker 1) (r : ConnRef),
      run step (Broker.init 1 1) as = some b ∧
      (∀ j r f, .task j (.frame r f) ∈ as → ∃ buf c, parseFrame buf = .frame f c) ∧
      (∃ o ∈ (b.shards 0).worker.offers, o.target = r ∧ o.outcome = .ok ∧
        o.frame = .msg (ascii "foo") (ascii "1") none (ascii "hello")) ∧
      ∀ f, .task 0 (.frame r f) ∉ as := by
  let frame : PublishedFrame := ⟨ascii "foo", none, ascii "hello"⟩
  obtain ⟨b₁, hrun₁, hidle₁, ⟨c, hc, hreader⟩, hmatching⟩ := subscribeFoo_run
  -- the client that gets the id of the first one
  obtain ⟨visits, b₂, more, hrun₂, hquiet, hidle₂, htable, hconns, hlookup⟩ := run_taking hidle₁ 0
  have hpos : 0 < (b₁.shards 0).worker.conns.length := (List.getElem?_eq_some_iff.mp hc).1
  have hc₂ : (b₂.shards 0).worker.conns[0]? = some c := by
    rw [hconns, List.append_assoc, List.getElem?_append_left hpos, hc]
  have hrun : run step (Broker.init 1 1) (subscribeFoo 0 ++ (visits ++ [.task 0 (.accept true)])) =
      some b₂ :=
    run_append_eq_some.mpr ⟨b₁, hrun₁, hrun₂⟩
  -- the first one publishes
  have hstep := step_frame_eq hidle₂ hc₂ hreader (.pub frame.subject frame.replyTo frame.payload)
  generalize b₂.setShard 0 _ = b₃ at hstep
  have hparse : parsePublisherSubject frame.subject = .ok [ascii "foo"] := rfl
  obtain ⟨w, hw⟩ := Worker.dispatchLocal_ok hparse (b₂.shards 0).worker
  have hlen : (encode (frame.msg (ascii "1"))).length = 20 := by decide +kernel
  obtain ⟨-, haccepted⟩ := Worker.single_accepted frame hparse (length_emitScratch hrun 0)
    (by rw [htable]; exact hmatching) hlookup (by rw [hlen]; decide)
    ⟨_, by rw [hconns]; exact List.getElem?_concat_length, by
      rw [hlen]
      exact ConnectionState.hasRoom_new _ (by decide)⟩
  obtain ⟨o, hoffers, htarget, hframe, -, hok⟩ := haccepted w hw
  have hworker := worker_step_pub hstep (by decide) hw
  have hmem : ∀ {j r f}, .task j (.frame r f) ∈
      subscribeFoo 0 ++ (visits ++ [.task 0 (.accept true)]) ++
      [.task 0 (.frame 0 (.pub frame.subject frame.replyTo frame.payload))] →
      r = 0 ∧ (f = .sub (ascii "foo") none (ascii "1") ∨
        f = .pub frame.subject frame.replyTo frame.payload) := by
    intro j r f h
    simp only [subscribeFoo, List.mem_append, List.mem_cons, List.not_mem_nil, Action.task.injEq,
      Task.frame.injEq, reduceCtorEq, and_false, false_or, or_false, hquiet j r f] at h
    rcases h with ⟨-, hr, hf⟩ | ⟨-, hr, hf⟩
    · exact ⟨hr, Or.inl hf⟩
    · exact ⟨hr, Or.inr hf⟩
  refine ⟨_, b₃, _, run_append_eq_some.mpr ⟨b₂, hrun,
    run_cons_eq_some.mpr ⟨b₃, hstep, run_nil b₃⟩⟩, fun j r f h => ?_,
    ⟨o, ?_, htarget, hok, hframe⟩, fun f h => ?_⟩
  · rcases (hmem h).2 with rfl | rfl
    · exact ⟨ascii "SUB foo 1\r\n", 11, by decide +kernel⟩
    · exact ⟨ascii "PUB foo 5\r\nhello\r\n", 18, by decide +kernel⟩
  · rw [hworker, hoffers]
    exact List.mem_append_right _ (List.mem_singleton_self o)
  · have hzero : ((b₁.shards 0).worker.conns ++ more).length = 0 := (hmem h).1
    rw [List.length_append] at hzero
    omega

end Aulon.Server
