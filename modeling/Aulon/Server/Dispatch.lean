import Aulon.Proto.RoundTrip
import Aulon.Server.Delivery

/-!
# What a dispatch does, and what it drops

`dispatch_local` offers a publication to every matching subscription without a queue group and to
one member of every group, whatever becomes of the single offers. It drops a message, without
telling anyone, in one case: when its encoding does not fit the scratch buffer of the worker.

* `emitted` — the bytes `emit_msg` leaves at the start of a buffer.
* `dispatchLocal_exact` — the attempts of a dispatch, one by one, from any state of the worker.
* `msg_fits_iff` — which messages fit the scratch buffer. The header of a message that the server
  accepts can be longer than what the buffer has beyond the largest payload.
-/

namespace Aulon.Server

open Aulon.Lib Aulon.Core Aulon.Proto

/-- The bytes that `emit_msg` puts at the start of a buffer. -/
def emitted (frame : PublishedFrame) (sid scratch : Bytes) : Bytes :=
  match emitMsg frame.subject sid frame.replyTo frame.payload scratch with
  | (.ok n, out) => out.take n
  | (.error _, _) => []

/-- A message that fits the scratch is emitted whole. -/
lemma emitted_eq {frame : PublishedFrame} {sid scratch : Bytes}
    (hfit : (encode (frame.msg sid)).length ≤ scratch.length) (hword : scratch.length < wordMod) :
    emitted frame sid scratch = encode (frame.msg sid) := by
  have hemit : emitMsg frame.subject sid frame.replyTo frame.payload scratch =
      (.ok (encode (frame.msg sid)).length, overwrite scratch 0 (encode (frame.msg sid))) :=
    emitFrame_of_le (f := frame.msg sid) hfit hword
  rw [emitted, hemit]
  exact take_overwrite_zero scratch (encode (frame.msg sid))

namespace Worker

/-- A connection that is offered nothing stays as it is. -/
lemma Enqueued.eq_of_forall_ne {r : ConnRef} {s s' : ConnectionState} {os : List Offer}
    (h : Enqueued r s os s') (hos : ∀ o ∈ os, o.target ≠ r) : s' = s := by
  induction os with
  | nil => exact h
  | cons o os ih =>
      rw [Enqueued, if_neg (hos o List.mem_cons_self)] at h
      exact ih h fun o' ho' => hos o' (List.mem_cons_of_mem o ho')

/-- What a list of deliveries attempts: each goes to the connection registered under its id, if
there is one, and carries what `emit_msg` writes for it. -/
def attempts (w : Worker) (frame : PublishedFrame) (ds : List (Option Bytes × Snapshot)) :
    List (Option Bytes × ConnRef × Frame × Bytes) :=
  ds.filterMap fun d => (w.registered d.2.1).map fun target =>
    (d.1, target, frame.msg d.2.2, emitted frame d.2.2 w.emitScratch)

/-- **A dispatch delivers to the right connections, once.** Let the messages for the matching
subscriptions fit the scratch. With a valid subject the attempts to enqueue are, in this order: one
for each matching subscription without a group, and one for each group with a matching member, to
one of these. Every connection goes through the attempts made on it, and one without any stays as
it is. With an invalid subject nothing happens. -/
theorem dispatchLocal_exact (w : Worker) (frame : PublishedFrame)
    (hword : w.emitScratch.length < wordMod) :
    (∀ n, 0 < n → (w.pickIndex n).1 < n) ∧
    (∀ tokens, parsePublisherSubject frame.subject = .ok tokens →
      (∀ s ∈ w.table.matching tokens, (encode (frame.msg s.sid)).length ≤ w.emitScratch.length) →
      ∃ (picks : List (Bytes × Snapshot)) (new : List Offer) (w' : Worker),
        w.dispatchLocal frame = .ok w' ∧
        (picks.map (·.1)).Nodup ∧
        (∀ g, g ∈ picks.map (·.1) ↔ ∃ s ∈ w.table.matching tokens, s.queueGroup = some g) ∧
        (∀ p ∈ picks, ∃ s ∈ w.table.matching tokens,
          s.queueGroup = some p.1 ∧ (s.connId, s.sid) = p.2) ∧
        w'.offers = w.offers ++ new ∧
        new.map Offer.attempt = w.attempts frame
          (((w.table.matching tokens).filter (·.queueGroup = none)).map
            (fun s => (none, (s.connId, s.sid))) ++ picks.map fun p => (some p.1, p.2)) ∧
        w'.core = w.core ∧
        ∀ r c, w.conns[r]? = some c → ∃ c', w'.conns[r]? = some c' ∧
          Enqueued r c.state new c'.state ∧ ((∀ o ∈ new, o.target ≠ r) → c' = c)) ∧
    ∀ e, parsePublisherSubject frame.subject = .error e → w.dispatchLocal frame = .error e := by
  refine ⟨fun n hn => Nat.mod_lt _ hn, fun tokens hparse hfit => ?_,
    fun e hparse => dispatchLocal_error hparse w⟩
  obtain ⟨w', new, hdispatch, hnew, hcore, hstates, hattempts⟩ :=
    dispatchLocal_attempts hparse hword hfit
  obtain ⟨picks, hnodup, hnames, hpicks, heq⟩ := deliveries_spec w.rng (w.table.matching tokens)
  refine ⟨picks, new, w', hdispatch, hnodup, hnames, fun p hp => mem_grouped.mp (hpicks p hp), hnew,
    ?_, hcore, fun r c hc => ?_⟩
  · rw [hattempts, attempts, ← heq]
    refine List.filterMap_congr fun d hd => ?_
    obtain ⟨s, hs, -, hentry⟩ := mem_of_mem_deliveries hd
    rw [emitted_eq (hentry ▸ hfit s hs) hword]
  · obtain ⟨c', hc', henq⟩ := hstates r c hc
    refine ⟨c', hc', henq, fun hnone => ?_⟩
    have hstate := henq.eq_of_forall_ne hnone
    obtain ⟨d, hd, hdcore⟩ := getElem?_of_core hcore hc
    obtain rfl : c' = d := Option.some.inj (hc'.symm.trans hd)
    obtain ⟨state, subscriptions, reader⟩ := c
    obtain ⟨state', subscriptions', reader'⟩ := c'
    simp only [Connection.core, Prod.mk.injEq] at hdcore
    obtain ⟨-, rfl, rfl⟩ := hdcore
    obtain rfl : state' = state := hstate
    rfl

/-- A plain subscription, a group with one member, and a subscription whose connection is gone; the
member of the group has no room for the message. -/
theorem dispatchLocal_exact_mixed :
    let subs : List (Bytes × Core.Sub) := [(ascii "a.*", ⟨⟨1⟩, ascii "7", none⟩),
      (ascii "a.b", ⟨⟨2⟩, ascii "8", some (ascii "g")⟩), (ascii "a.>", ⟨⟨9⟩, ascii "9", none⟩)]
    let w : Worker := { Worker.new 0 with
      table := subs.foldl (fun t s => (t.subscribe s.1 s.2).toOption.getD t) .new
      connections := ((∅ : AList fun _ : ConnectionId => ConnRef).insert ⟨1⟩ 0).insert ⟨2⟩ 1
      conns := [⟨.new ⟨1⟩ 64, ∅, .reading⟩, ⟨.new ⟨2⟩ 8, ∅, .reading⟩]
      emitScratch := List.replicate 64 0 }
    let frame : PublishedFrame := ⟨ascii "a.b", none, ascii "hi"⟩
    w.table.matching [ascii "a", ascii "b"] = [⟨⟨9⟩, ascii "9", none⟩,
      ⟨⟨2⟩, ascii "8", some (ascii "g")⟩, ⟨⟨1⟩, ascii "7", none⟩] ∧
    ∃ (picks : List (Bytes × Snapshot)) (new : List Offer) (w' : Worker),
      w.dispatchLocal frame = .ok w' ∧ w'.offers = w.offers ++ new ∧
      new.map Offer.attempt = w.attempts frame
        (((w.table.matching [ascii "a", ascii "b"]).filter (·.queueGroup = none)).map
          (fun s => (none, (s.connId, s.sid))) ++ picks.map fun p => (some p.1, p.2)) := by
  intro subs w frame
  obtain ⟨-, hvalid, -⟩ := dispatchLocal_exact w frame (by decide +kernel)
  obtain ⟨picks, new, w', hw', -, -, -, hnew, hattempts, -⟩ :=
    hvalid [ascii "a", ascii "b"] (by decide +kernel) (by decide +kernel)
  exact ⟨by decide +kernel, picks, new, w', hw', hnew, hattempts⟩

end Worker

/-! ## Messages that do not fit -/

/-- The length of the message that carries a publication to a subscription: verb, subject, sid,
reply subject if there is one, length, payload, separators and line ends. -/
def PublishedFrame.msgLength (frame : PublishedFrame) (sid : Bytes) : ℕ :=
  10 + frame.subject.length + sid.length + (frame.replyTo.elim 0 fun r => r.length + 1) +
    (decimal frame.payload.length).length + frame.payload.length

/-- The length of a message. -/
lemma length_encode_msg (frame : PublishedFrame) (sid : Bytes) :
    (encode (frame.msg sid)).length = frame.msgLength sid := by
  have hverb : (ascii "MSG").length = 3 := by decide
  cases hreply : frame.replyTo <;>
    simp only [encode, headerLine, body, PublishedFrame.msg, PublishedFrame.msgLength, hreply,
      encodeOptional, List.length_append, List.length_singleton, List.length_nil, length_crlf,
      hverb, Option.elim] <;> omega

/-- `emit_msg` succeeds exactly where the message fits. -/
lemma emitMsg_ok_iff (frame : PublishedFrame) (sid : Bytes) {scratch : Bytes}
    (hword : scratch.length < wordMod) :
    (∃ n out, emitMsg frame.subject sid frame.replyTo frame.payload scratch = (.ok n, out)) ↔
      frame.msgLength sid ≤ scratch.length := by
  rw [← length_encode_msg]
  constructor
  · rintro ⟨n, out, hemit⟩
    obtain ⟨rfl, hle, -⟩ := emitFrame_ok (f := frame.msg sid) hemit
    exact hle
  · intro hfit
    exact ⟨_, _, emitFrame_of_le (f := frame.msg sid) hfit hword⟩

/-- The message for a subscription can be encoded into the scratch buffer of a worker, and is
offered to the connection of the subscription, exactly if its fields leave room for it. -/
theorem msg_fits_iff (w : Worker) (frame : PublishedFrame) (sid : Bytes)
    (hscratch : w.emitScratch.length = emitScratchCapacity) :
    ((∃ n out, emitMsg frame.subject sid frame.replyTo frame.payload w.emitScratch =
      (.ok n, out)) ↔ frame.msgLength sid ≤ emitScratchCapacity) ∧
    ∀ group id r, w.registered id = some r →
      ((w.deliver frame group (id, sid)).offers ≠ w.offers ↔
        frame.msgLength sid ≤ emitScratchCapacity) := by
  have hword : w.emitScratch.length < wordMod := by
    rw [hscratch]
    decide
  have hemit := emitMsg_ok_iff frame sid hword
  rw [hscratch] at hemit
  refine ⟨hemit, fun group id r hr => ⟨fun hoffers => ?_, fun hfit => ?_⟩⟩
  · rw [← hemit]
    by_contra hnone
    refine hoffers ?_
    unfold Worker.deliver
    split
    · rfl
    · rename_i n out hok
      exact absurd ⟨n, out, hok⟩ hnone
  · rw [← length_encode_msg, ← hscratch] at hfit
    obtain ⟨new, hnew, hattempt⟩ := Worker.offers_deliver frame (id, sid) hfit hword group
    rw [hr] at hattempt
    rw [hnew]
    intro hsame
    obtain rfl : new = [] := by simpa using hsame
    cases hattempt

/-- A short publication is offered to a subscriber. -/
theorem msg_fits_iff_short :
    let w : Worker := { Worker.new 0 with
      connections := (∅ : AList fun _ : ConnectionId => ConnRef).insert ⟨1⟩ 0
      conns := [⟨.new ⟨1⟩ 64, ∅, .reading⟩] }
    let frame : PublishedFrame := ⟨ascii "a.b", some (ascii "r"), ascii "hi"⟩
    w.emitScratch.length = emitScratchCapacity ∧
      (w.deliver frame none (⟨1⟩, ascii "7")).offers ≠ w.offers := by
  intro w frame
  have hscratch : w.emitScratch.length = emitScratchCapacity := List.length_replicate
  have hreg : w.registered ⟨1⟩ = some 0 := by decide +kernel
  exact ⟨hscratch, ((msg_fits_iff w frame (ascii "7") hscratch).2 none ⟨1⟩ 0 hreg).mpr
    (by decide +kernel)⟩

/-- A subject without dots and wildcards is one token. -/
lemma parsePublisherSubject_of_no_dot {s : Bytes} (hne : s ≠ []) (hdot : ∀ x ∈ s, x ≠ dot)
    (hstar : s ≠ ascii "*") (hgreater : s ≠ ascii ">") : parsePublisherSubject s = .ok [s] := by
  have hsplit : splitDots s = [s] :=
    List.splitOnP_eq_singleton fun x hx => by simpa using hdot x hx
  have htoken : publisherToken s = .ok s := by
    rw [publisherToken, if_neg (by simp [hne]), if_neg (by simp [hstar, hgreater])]
  rw [parsePublisherSubject, if_neg (by simp [hne]), hsplit, List.mapM_cons, htoken]
  rfl

/-- A publication with a payload of the largest size and a subject of 5000 bytes: it is parsed from
a buffer within the limit, but its message for a subscription with a sid of one byte does not
fit. -/
lemma long_subject_does_not_fit {subject payload sid scratch : Bytes} (hlen : subject.length = 5000)
    (htoken : IsToken subject) (hpayload : payload.length = maxPayloadBytes)
    (hsid : sid.length = 1) (hscratch : scratch.length = emitScratchCapacity) :
    (encode (.pub subject none payload)).length ≤ maxFrameSize ∧
      parseFrame (encode (.pub subject none payload)) =
        .frame (.pub subject none payload) (encode (.pub subject none payload)).length ∧
      ¬ ∃ n out, emitMsg subject sid none payload scratch = (.ok n, out) := by
  have hdigits : (decimal payload.length).length = 7 := by
    rw [hpayload]
    decide +kernel
  have hverb : (ascii "PUB").length = 3 := by decide
  have hbuf : (encode (.pub subject none payload)).length = payload.length + 5016 := by
    simp only [encode, headerLine, body, encodeOptional, List.length_append,
      List.length_singleton, List.length_nil, length_crlf, hverb, hlen, hdigits]
    omega
  refine ⟨?_, ?_, ?_⟩
  · rw [hbuf, hpayload]
    decide
  · have hword : (encode (.pub subject none payload)).length < wordMod := by
      rw [hbuf, hpayload]
      decide
    have hparse := parseFrame_encode (f := .pub subject none payload) ⟨htoken, by simp⟩ hword []
    rwa [List.append_nil] at hparse
  · have hword : scratch.length < wordMod := by
      rw [hscratch]
      decide
    have hlong : PublishedFrame.msgLength ⟨subject, none, payload⟩ sid =
        payload.length + 5018 := by
      simp only [PublishedFrame.msgLength, hlen, hsid, hdigits, Option.elim]
      omega
    have hiff := emitMsg_ok_iff ⟨subject, none, payload⟩ sid hword
    rw [hiff, hlong, hscratch, hpayload]
    decide

/-- A `PUB` of a payload of the largest size with a subject of 5000 bytes is parsed from a buffer
within the limit, its payload passes the check and its subject is valid, but its message for the
subscription `1` cannot be encoded. -/
theorem accepted_publish_does_not_fit :
    let subject : Bytes := List.replicate 5000 97
    let payload : Bytes := List.replicate maxPayloadBytes 0
    let buf := encode (.pub subject none payload)
    buf.length ≤ maxFrameSize ∧ parseFrame buf = .frame (.pub subject none payload) buf.length ∧
      ¬ payload.length > maxPayloadBytes ∧ parsePublisherSubject subject = .ok [subject] ∧
      parseFrame (ascii "SUB > 1\r\n") = .frame (.sub (ascii ">") none (ascii "1")) 9 ∧
      ¬ ∃ n out, emitMsg subject (ascii "1") none payload (List.replicate emitScratchCapacity 0) =
        (.ok n, out) := by
  intro subject payload buf
  have hmem : ∀ x ∈ subject, x = 97 := fun x hx => List.eq_of_mem_replicate hx
  have hlen : subject.length = 5000 := List.length_replicate
  have hpayload : payload.length = maxPayloadBytes := List.length_replicate
  have hone : ∀ t : Bytes, t.length ≠ 5000 → subject ≠ t := fun t ht h => ht (h ▸ hlen)
  have hne : subject ≠ [] := hone [] (by decide)
  have htoken : IsToken subject := by
    refine ⟨hne, fun x hx => ?_, fun hcrlf => ?_⟩
    · rw [hmem x hx]
      decide
    · cases hmem cr (hcrlf.subset (by decide))
  obtain ⟨hsize, hparse, hemit⟩ := long_subject_does_not_fit hlen htoken hpayload
    (show (ascii "1").length = 1 by decide)
    (List.length_replicate (n := emitScratchCapacity) (a := (0 : UInt8)))
  refine ⟨hsize, hparse, not_lt.mpr hpayload.le, ?_, by decide, hemit⟩
  refine parsePublisherSubject_of_no_dot hne (fun x hx => ?_) (hone _ (by decide))
    (hone _ (by decide))
  rw [hmem x hx]
  decide

end Aulon.Server
