import Aulon.Server.Book
import Aulon.Server.Dispatch
import Aulon.Server.Outbound
import Mathlib.Algebra.Order.BigOperators.Group.List

/-!
# Messages for the members of a queue group

For each queue group, `dispatch_local` makes one attempt, to the member its generator picks among
the matching entries of the trie. The pick does not look at the connection behind the entry, and
what comes of the attempt is ignored.

* `Worker.demand` — what a publication can make a worker enqueue for a connection.
* `group_appended` — a publication is appended for at most one member of a group, and for exactly
  one if every matching member has a connection that is registered, open and has room for it.
* `group_message_lost` — one such member is not enough.
-/

namespace Aulon.Server

open Aulon.Lib Aulon.Core Aulon.Proto

/-! ## What a dispatch can ask of a connection -/

namespace Worker

/-- The bytes of the messages for the subscriptions of connection `r` among the given ones. -/
def demand (w : Worker) (frame : PublishedFrame) (subs : List Sub) (r : ConnRef) : ℕ :=
  ((subs.filter fun s => w.lookup s.connId = some r).map fun s =>
    (encode (frame.msg s.sid)).length).sum

/-- The connection of the subscription is registered, open, and has room for what a publication
that matches `subs` can ask of it. -/
def Healthy (w : Worker) (frame : PublishedFrame) (subs : List Sub) (s : Sub) : Prop :=
  ∃ r, w.lookup s.connId = some r ∧ w.HasRoom r (w.demand frame subs r)

/-- The subscriptions with a queue group, as deliveries. -/
lemma map_grouped (subs : List Sub) :
    (grouped subs).map (fun p => ((some p.1, p.2) : Option Bytes × Snapshot)) =
      (subs.filter (·.queueGroup ≠ none)).map fun s => (s.queueGroup, (s.connId, s.sid)) := by
  induction subs with
  | nil => rfl
  | cons s subs ih =>
      rw [grouped, List.filterMap_cons, List.filter_cons]
      cases hq : s.queueGroup with
      | none => simpa [grouped, hq] using ih
      | some g => simpa [grouped, hq] using ih

/-- No subscription is delivered to more often than it matches. -/
lemma deliveries_subperm (rng : UInt64) (subs : List Sub) :
    (deliveries rng subs).Subperm (subs.map fun s => (s.queueGroup, (s.connId, s.sid))) := by
  obtain ⟨picks, hnodup, -, hpicks, heq⟩ := deliveries_spec rng subs
  obtain ⟨l, hperm, hsub⟩ := List.subperm_of_subset (List.Nodup.of_map _ hnodup) hpicks
  have hplain : (subs.filter (·.queueGroup = none)).map
      (fun s => ((none, (s.connId, s.sid)) : Option Bytes × Snapshot)) =
        (subs.filter (·.queueGroup = none)).map fun s => (s.queueGroup, (s.connId, s.sid)) := by
    refine List.map_congr_left fun s hs => ?_
    rw [of_decide_eq_true (List.mem_filter.mp hs).2]
  have hgroups : (picks.map fun p => ((some p.1, p.2) : Option Bytes × Snapshot)).Subperm
      ((subs.filter (·.queueGroup ≠ none)).map fun s => (s.queueGroup, (s.connId, s.sid))) := by
    rw [← map_grouped]
    exact ⟨l.map _, hperm.map _, hsub.map _⟩
  rw [heq, hplain]
  refine ((List.Subperm.refl _).append hgroups).trans (List.Perm.subperm ?_)
  rw [← List.map_append]
  have hsplit := List.filter_append_perm (fun s : Sub => decide (s.queueGroup = none)) subs
  simpa using hsplit.map fun s => (s.queueGroup, (s.connId, s.sid))

/-- The bytes that a delivery offers to connection `r`, if its message fits the scratch. -/
def deliveryBytes (w : Worker) (frame : PublishedFrame) (r : ConnRef)
    (d : Option Bytes × Snapshot) : ℕ :=
  if w.lookup d.2.1 = some r then (encode (frame.msg d.2.2)).length else 0

/-- The bytes for a connection, delivery by delivery. -/
lemma demand_eq (w : Worker) (frame : PublishedFrame) (subs : List Sub) (r : ConnRef) :
    w.demand frame subs r = ((subs.map fun s => (s.queueGroup, (s.connId, s.sid))).map
      (w.deliveryBytes frame r)).sum := by
  induction subs with
  | nil => rfl
  | cons s subs ih =>
      rw [List.map_cons, List.map_cons, List.sum_cons, ← ih, demand, demand, List.filter_cons,
        deliveryBytes]
      by_cases hs : w.lookup s.connId = some r
      · simp [hs]
      · simp [hs]

/-- What deliveries offer to a connection is at most their bytes for it. -/
lemma bytesTo_le {w : Worker} {frame : PublishedFrame} {new : List Offer}
    {ds : List (Option Bytes × Snapshot)} (r : ConnRef)
    (h : new.map Offer.attempt = ds.filterMap fun d => (w.registered d.2.1).map fun target =>
      (d.1, target, frame.msg d.2.2, encode (frame.msg d.2.2))) :
    bytesTo r new ≤ (ds.map (w.deliveryBytes frame r)).sum := by
  induction ds generalizing new with
  | nil =>
      obtain rfl : new = [] := by simpa using h
      exact le_rfl
  | cons d ds ih =>
      rw [List.map_cons, List.sum_cons]
      cases hreg : w.registered d.2.1 with
      | none =>
          rw [List.filterMap_cons, hreg] at h
          exact (ih h).trans (Nat.le_add_left _ _)
      | some target =>
          rw [List.filterMap_cons, hreg] at h
          obtain ⟨o, new, rfl, ho, hnew⟩ := List.map_eq_cons_iff.mp h
          simp only [Offer.attempt, Prod.mk.injEq] at ho
          obtain ⟨-, rfl, -, hbytes⟩ := ho
          have hone : bytesTo r [o] ≤ w.deliveryBytes frame r d := by
            by_cases ho : o.target = r
            · rw [deliveryBytes, if_pos (ho ▸ (registered_eq_some.mp hreg).1), ← hbytes]
              exact bytesTo_singleton_le r o
            · simp [bytesTo, ho]
          have hsplit := bytesTo_append r [o] new
          rw [List.singleton_append] at hsplit
          rw [hsplit]
          exact Nat.add_le_add hone (ih hnew)

/-- A dispatch offers a connection at most its demand. -/
lemma bytesTo_le_demand {w : Worker} {frame : PublishedFrame} {new : List Offer} {rng : UInt64}
    {subs : List Sub} (r : ConnRef)
    (h : new.map Offer.attempt = (deliveries rng subs).filterMap fun d =>
      (w.registered d.2.1).map fun target =>
        (d.1, target, frame.msg d.2.2, encode (frame.msg d.2.2))) :
    bytesTo r new ≤ w.demand frame subs r := by
  rw [demand_eq]
  refine (bytesTo_le r h).trans ?_
  obtain ⟨l, hperm, hsub⟩ := deliveries_subperm rng subs
  rw [← (hperm.map _).sum_eq]
  exact (hsub.map _).sum_le_sum fun _ _ => Nat.zero_le _

/-- A dispatch makes at most one offer on behalf of a group. -/
lemma countP_group_le_one {w : Worker} {frame : PublishedFrame} {new : List Offer} {rng : UInt64}
    {subs : List Sub} (g : Bytes)
    (h : new.map Offer.attempt = (deliveries rng subs).filterMap fun d =>
      (w.registered d.2.1).map fun target =>
        (d.1, target, frame.msg d.2.2, encode (frame.msg d.2.2))) :
    new.countP (·.group = some g) ≤ 1 := by
  obtain ⟨picks, hnodup, -, -, heq⟩ := deliveries_spec rng subs
  have hgroups : (new.map (·.group)).Sublist ((deliveries rng subs).map (·.1)) := by
    have hview : new.map (·.group) = (new.map Offer.attempt).map (·.1) := by
      rw [List.map_map]
      rfl
    rw [hview, h]
    generalize deliveries rng subs = ds
    induction ds with
    | nil => exact List.Sublist.slnil
    | cons d ds ih =>
        rw [List.filterMap_cons]
        cases w.registered d.2.1 with
        | none => exact ih.cons _
        | some target => exact ih.cons_cons _
  rw [countP_group]
  refine (hgroups.count_le (some g)).trans ?_
  rw [heq, List.map_append, List.count_append, List.map_map, List.map_map,
    List.count_eq_zero.mpr (by simp), Nat.zero_add]
  have hpicks : picks.map ((fun d : Option Bytes × Snapshot => d.1) ∘ fun p => (some p.1, p.2)) =
      (picks.map (·.1)).map some := by
    rw [List.map_map]
    rfl
  rw [hpicks, List.count_map_of_injective _ _ (Option.some_injective _)]
  exact List.nodup_iff_count_le_one.mp hnodup g

/-- What a dispatch appends on behalf of a group. -/
lemma dispatchLocal_group (w : Worker) {frame : PublishedFrame} {tokens : List Bytes}
    (hparse : parsePublisherSubject frame.subject = .ok tokens)
    (hword : w.emitScratch.length < wordMod) (hfit : ∀ s ∈ w.table.matching tokens,
      (encode (frame.msg s.sid)).length ≤ w.emitScratch.length) :
    ∃ (w' : Worker) (new : List Offer),
      w.dispatchLocal frame = .ok w' ∧ w'.offers = w.offers ++ new ∧
      (∀ r c, w.conns[r]? = some c → ∃ c', w'.conns[r]? = some c' ∧
        Enqueued r c.state new c'.state) ∧
      ∀ g,
        (∀ o ∈ new, o.group = some g → ∃ s ∈ w.table.matching tokens, s.queueGroup = some g ∧
          w.lookup s.connId = some o.target ∧ o.bytes = encode (frame.msg s.sid)) ∧
        new.countP (fun o => o.group = some g ∧ o.outcome = .ok) ≤ 1 ∧
        ((∃ s ∈ w.table.matching tokens, s.queueGroup = some g) →
          (∀ s ∈ w.table.matching tokens, s.queueGroup = some g →
            w.Healthy frame (w.table.matching tokens) s) →
          new.countP (fun o => o.group = some g ∧ o.outcome = .ok) = 1) := by
  obtain ⟨w', new, hdispatch, hnew, -, hstates, hattempts⟩ :=
    dispatchLocal_attempts hparse hword hfit
  obtain ⟨-, new', hnew', hP, -⟩ := extends_dispatchLocal hparse hdispatch
  obtain rfl : new' = new := List.append_cancel_left (hnew'.symm.trans hnew)
  refine ⟨w', new', hdispatch, hnew, hstates, fun g => ?_⟩
  have hle : new'.countP (fun o => o.group = some g ∧ o.outcome = .ok) ≤ 1 :=
    (List.countP_mono_left fun o _ ho => by simp_all).trans (countP_group_le_one g hattempts)
  refine ⟨fun o ho hg => ?_, hle, fun hmember hhealthy => Nat.le_antisymm hle ?_⟩
  · obtain ⟨s, hs, -, hbytes, hgroup, htarget⟩ := hP o ho
    exact ⟨s, hs, hgroup ▸ hg, htarget, hbytes⟩
  · -- the pick of the group is healthy, so its offer is accepted
    obtain ⟨picks, -, hnames, hpicks, heq⟩ := deliveries_spec w.rng (w.table.matching tokens)
    obtain ⟨⟨g', entry⟩, hp, rfl⟩ := List.mem_map.mp ((hnames g).mpr hmember)
    obtain ⟨s, hs, hq, hentry⟩ := mem_grouped.mp (hpicks _ hp)
    obtain ⟨r, hlookup, c, hc, hroom⟩ := hhealthy s hs hq
    have hreg : w.registered entry.1 = some r := by
      rw [← hentry]
      exact registered_eq_some.mpr ⟨hlookup, (List.getElem?_eq_some_iff.mp hc).1⟩
    have hattempt : (some g', r, frame.msg entry.2, encode (frame.msg entry.2)) ∈
        new'.map Offer.attempt := by
      rw [hattempts, List.mem_filterMap]
      refine ⟨(some g', entry), ?_, by rw [hreg]; rfl⟩
      rw [heq]
      exact List.mem_append_right _ (List.mem_map_of_mem hp)
    obtain ⟨o, ho, hoattempt⟩ := List.mem_map.mp hattempt
    simp only [Offer.attempt, Prod.mk.injEq] at hoattempt
    obtain ⟨c', -, henq⟩ := hstates r c hc
    have hroom' : c.state.HasRoom (bytesTo r new' + 0) :=
      ⟨hroom.1, (Nat.add_le_add_left (bytesTo_le_demand r hattempts) _).trans hroom.2⟩
    exact List.countP_pos_iff.mpr ⟨o, ho, by
      simpa using ⟨hoattempt.1, (henq.accepted hroom').1 o ho hoattempt.2.1⟩⟩

end Worker

/-! ## A group with two members -/

/-- Three connections: 0 and 1 are members of a group for `q`, and 0 also subscribes to `x`. -/
def twoMembers : List (Action 1) :=
  [.task 0 (.accept true), .task 0 (.accept true), .task 0 (.accept true),
    .task 0 (.greet 0), .task 0 (.greet 1), .task 0 (.greet 2),
    .task 0 (.frame 0 (.sub (ascii "x") none (ascii "1"))),
    .task 0 (.frame 1 (.sub (ascii "q") (some (ascii "g")) (ascii "1"))),
    .task 0 (.frame 0 (.sub (ascii "q") (some (ascii "g")) (ascii "2")))]

/-- What is known of the broker after `twoMembers`. -/
lemma twoMembers_run : ∃ b, run step (Broker.init 1 1) twoMembers = some b ∧
    (b.shards 0).activity = .idle ∧
    (∃ c, (b.shards 0).worker.conns[2]? = some c ∧ c.reader = .reading) ∧
    (b.shards 0).worker.rng = (Worker.new 0).rng ∧
    (∀ r, bytesTo r (b.shards 0).worker.offers ≤ 495) ∧
    (b.shards 0).worker.table.matching [ascii "x"] = [⟨⟨0⟩, ascii "1", none⟩] ∧
    (b.shards 0).worker.table.matching [ascii "q"] =
      [⟨⟨1⟩, ascii "1", some (ascii "g")⟩, ⟨⟨0⟩, ascii "2", some (ascii "g")⟩] ∧
    (b.shards 0).worker.lookup ⟨0⟩ = some 0 ∧ (b.shards 0).worker.lookup ⟨1⟩ = some 1 ∧
    (b.shards 0).worker.conns.length = 3 := by
  have hsome : ((run step (Broker.init 1 1) twoMembers).map fun b =>
      decide ((b.shards 0).activity = .idle ∧
        ((b.shards 0).worker.conns[2]?.map (·.reader)) = some .reading ∧
        (b.shards 0).worker.rng = (Worker.new 0).rng ∧
        ((b.shards 0).worker.offers.map (·.bytes.length)).sum ≤ 495)) = some true := by
    decide +kernel
  obtain ⟨b, hrun, hfacts⟩ := Option.map_eq_some_iff.mp hsome
  obtain ⟨hidle, hreader, hrng, hbytes⟩ := of_decide_eq_true hfacts
  refine ⟨b, hrun, hidle, Option.map_eq_some_iff.mp hreader, hrng, fun r => ?_, ?_, ?_, ?_, ?_, ?_⟩
  · exact ((List.filter_sublist.map _).sum_le_sum fun _ _ => Nat.zero_le _).trans hbytes
  · rw [matching_after hrun]
    decide +kernel
  · rw [matching_after hrun]
    decide +kernel
  · rw [lookup_after hrun]
    decide +kernel
  · rw [lookup_after hrun]
    decide +kernel
  · rw [length_conns_after hrun]
    decide +kernel

/-! ## What becomes of a message for a group -/

/-- **A group gets a message at most once, and does not lose it if all its members are healthy.** In
every reachable state, a dispatch of a publication whose messages fit the scratch appends it, on
behalf of a group, only to the buffer of a matching member of the group, and to one at most. If the
group has a matching member and all of them are registered, open and have room for what the
publication can ask of them, it is appended to exactly one. -/
theorem group_appended {n capacity : ℕ} {as : List (Action n)} {b : Broker n} (i : Fin n)
    (hrun : run step (Broker.init n capacity) as = some b) (frame : PublishedFrame)
    {tokens : List Bytes} (hparse : parsePublisherSubject frame.subject = .ok tokens)
    (hfit : ∀ s ∈ (b.shards i).worker.table.matching tokens,
      (encode (frame.msg s.sid)).length ≤ emitScratchCapacity) :
    ∃ (w' : Worker) (new : List Offer),
      (b.shards i).worker.dispatchLocal frame = .ok w' ∧
      w'.offers = (b.shards i).worker.offers ++ new ∧
      (∀ r c, (b.shards i).worker.conns[r]? = some c → ∃ c', w'.conns[r]? = some c' ∧
        Worker.Enqueued r c.state new c'.state) ∧
      ∀ g,
        (∀ o ∈ new, o.group = some g → ∃ s ∈ (b.shards i).worker.table.matching tokens,
          s.queueGroup = some g ∧ (b.shards i).worker.lookup s.connId = some o.target ∧
          o.bytes = encode (frame.msg s.sid)) ∧
        new.countP (fun o => o.group = some g ∧ o.outcome = .ok) ≤ 1 ∧
        ((∃ s ∈ (b.shards i).worker.table.matching tokens, s.queueGroup = some g) →
          (∀ s ∈ (b.shards i).worker.table.matching tokens, s.queueGroup = some g →
            (b.shards i).worker.Healthy frame ((b.shards i).worker.table.matching tokens) s) →
          new.countP (fun o => o.group = some g ∧ o.outcome = .ok) = 1) := by
  have hscratch := length_emitScratch hrun i
  exact (b.shards i).worker.dispatchLocal_group hparse (by rw [hscratch]; decide)
    (by rwa [hscratch])

/-- Both members of a group are connected and have room. One of them is picked, and it alone gets
the message. -/
theorem group_appended_two_members :
    let frame : PublishedFrame := ⟨ascii "q", none, ascii "hi"⟩
    ∃ b, run step (Broker.init 1 1) twoMembers = some b ∧
      (b.shards 0).worker.table.matching [ascii "q"] =
        [⟨⟨1⟩, ascii "1", some (ascii "g")⟩, ⟨⟨0⟩, ascii "2", some (ascii "g")⟩] ∧
      ∃ (w' : Worker) (new : List Offer), (b.shards 0).worker.dispatchLocal frame = .ok w' ∧
        w'.offers = (b.shards 0).worker.offers ++ new ∧
        new.countP (fun o => o.group = some (ascii "g") ∧ o.outcome = .ok) = 1 := by
  intro frame
  obtain ⟨b, hrun, -, -, -, hbytes, -, hq, hzero, hone, hconns⟩ := twoMembers_run
  obtain ⟨w', new, hdispatch, hnew, -, hgroup⟩ := group_appended 0 hrun frame
    (show parsePublisherSubject frame.subject = .ok [ascii "q"] from rfl)
    (by rw [hq]; decide +kernel)
  refine ⟨b, hrun, hq, w', new, hdispatch, hnew, (hgroup (ascii "g")).2.2 ?_ ?_⟩
  · rw [hq]
    exact ⟨_, List.mem_cons_self, rfl⟩
  · -- each member has room for all that the publication can ask of any connection
    have hdemand : ∀ r, (b.shards 0).worker.demand frame
        ((b.shards 0).worker.table.matching [ascii "q"]) r ≤ 4096 := by
      intro r
      rw [hq]
      refine ((List.filter_sublist.map _).sum_le_sum fun _ _ => Nat.zero_le _).trans ?_
      decide +kernel
    have hmember : ∀ (m : Sub) (r : ConnRef), (b.shards 0).worker.lookup m.connId = some r →
        r < (b.shards 0).worker.conns.length → (∀ a ∈ twoMembers, a.closes 0 r = false) →
        (b.shards 0).worker.Healthy frame ((b.shards 0).worker.table.matching [ascii "q"]) m := by
      intro m r hlookup hr hopen
      refine ⟨r, hlookup, keeps_run hrun hopen hr _ ?_⟩
      exact (Nat.add_le_add (hbytes r) (hdemand r)).trans (by decide +kernel)
    intro m hm _
    have hcases : m ∈ [_, _] := hq ▸ hm
    rcases List.mem_cons.mp hcases with rfl | hcases
    · exact hmember _ 1 hone (by rw [hconns]; decide) (by decide)
    · obtain rfl := List.mem_singleton.mp hcases
      exact hmember _ 0 hzero (by rw [hconns]; decide) (by decide)

/-! ## A message that is lost -/

/-- An offer that is accepted had room, and takes it. -/
lemma Worker.Enqueued.room_of_ok {r : ConnRef} {s s' : ConnectionState} {o : Offer}
    (h : Worker.Enqueued r s [o] s') (ho : o.target = r) (hok : o.outcome = .ok) :
    s.outboundTail + o.bytes.length ≤ s.outboundCapacity ∧
      s'.outboundTail = s.outboundTail + o.bytes.length := by
  rw [Worker.Enqueued, if_pos ho] at h
  obtain ⟨houtcome, rfl⟩ := h
  exact s.outboundTail_of_ok o.bytes (houtcome.symm.trans hok)

/-- A dispatch that comes down to one delivery, to a registered id, makes one offer. -/
lemma Worker.single_delivery {w : Worker} {frame : PublishedFrame} {tokens : List Bytes}
    (hparse : parsePublisherSubject frame.subject = .ok tokens)
    (hscratch : w.emitScratch.length = emitScratchCapacity)
    (hfit : ∀ s ∈ w.table.matching tokens,
      (encode (frame.msg s.sid)).length ≤ emitScratchCapacity)
    {group : Option Bytes} {id : ConnectionId} {sid : Bytes} {r : ConnRef}
    (hdelivery : Worker.deliveries w.rng (w.table.matching tokens) = [(group, (id, sid))])
    (hreg : w.registered id = some r) :
    ∃ (w' : Worker) (o : Offer), w.dispatchLocal frame = .ok w' ∧ w'.offers = w.offers ++ [o] ∧
      o.target = r ∧ o.bytes = encode (frame.msg sid) ∧
      ∀ c, w.conns[r]? = some c → ∃ s, Worker.Enqueued r c.state [o] s := by
  obtain ⟨w', new, hw', hnew, -, hstates, hattempts⟩ := Worker.dispatchLocal_attempts hparse
    (by rw [hscratch]; decide) (by rwa [hscratch])
  rw [hdelivery, List.filterMap_cons, hreg] at hattempts
  obtain ⟨o, new', rfl, ho, hnil⟩ := List.map_eq_cons_iff.mp hattempts
  obtain rfl : new' = [] := by simpa using hnil
  simp only [Offer.attempt, Prod.mk.injEq] at ho
  obtain ⟨-, htarget, -, hbytes⟩ := ho
  refine ⟨w', o, hw', hnew, htarget, hbytes, fun c hc => ?_⟩
  obtain ⟨c', -, henq⟩ := hstates r c hc
  exact ⟨c'.state, henq⟩

/-- The message that carries a payload of the largest size, without a reply subject, for a subject
and a sid of one byte. -/
lemma length_encode_large {frame : PublishedFrame} {sid : Bytes}
    (hsubject : frame.subject.length = 1) (hreply : frame.replyTo = none)
    (hpayload : frame.payload.length = maxPayloadBytes) (hsid : sid.length = 1) :
    (encode (frame.msg sid)).length = maxPayloadBytes + 19 := by
  have hdigits : (decimal maxPayloadBytes).length = 7 := by decide +kernel
  rw [length_encode_msg, PublishedFrame.msgLength, hsubject, hreply, hpayload, hsid, hdigits]
  simp only [Option.elim]
  omega

/-- What is known of the broker once a message of the largest payload has been published to `x`:
connection 0 has taken it and has no room for another one, and connection 1 has. -/
lemma twoMembers_filled {payload : Bytes} (hpayload : payload.length = maxPayloadBytes) :
    ∃ b b₁, run step (Broker.init 1 1) twoMembers = some b ∧
      step b (.task 0 (.frame 2 (.pub (ascii "x") none payload))) = some b₁ ∧
      (b₁.shards 0).worker.emitScratch.length = emitScratchCapacity ∧
      (b₁.shards 0).worker.rng = (Worker.new 0).rng ∧
      (b₁.shards 0).worker.table.matching [ascii "q"] =
        [⟨⟨1⟩, ascii "1", some (ascii "g")⟩, ⟨⟨0⟩, ascii "2", some (ascii "g")⟩] ∧
      (b₁.shards 0).worker.registered ⟨0⟩ = some 0 ∧
      (b₁.shards 0).worker.lookup ⟨1⟩ = some 1 ∧
      (b₁.shards 0).worker.HasRoom 1 (maxPayloadBytes + 19) ∧
      ∃ c, (b₁.shards 0).worker.conns[0]? = some c ∧
        c.state.outboundCapacity < c.state.outboundTail + (maxPayloadBytes + 19) := by
  obtain ⟨b, hrun, hidle, ⟨c, hc, hreader⟩, hrng, hbytes, hx, hq, hzero, hone, hconns⟩ :=
    twoMembers_run
  have hcap : defaultOutboundCapacity = 2 * maxPayloadBytes := by decide
  have hroom : 1000 ≤ maxPayloadBytes := by decide
  have hlen : (encode (PublishedFrame.msg ⟨ascii "x", none, payload⟩ (ascii "1"))).length =
      maxPayloadBytes + 19 := length_encode_large rfl rfl hpayload rfl
  have hstep := step_frame_eq hidle hc hreader (.pub (ascii "x") none payload)
  generalize b.setShard 0 _ = b₁ at hstep
  have hrun₁ := run_append_eq_some.mpr ⟨b, hrun, run_cons_eq_some.mpr ⟨b₁, hstep, run_nil b₁⟩⟩
  have hopen : ∀ r, ∀ a ∈ twoMembers ++ [.task 0 (.frame 2 (.pub (ascii "x") none payload))],
      a.closes 0 r = false := by
    simp [twoMembers, Action.closes]
  have hparse : parsePublisherSubject (PublishedFrame.mk (ascii "x") none payload).subject =
      .ok [ascii "x"] := rfl
  -- the publication is one offer to connection 0, which is accepted
  obtain ⟨w₁, hw₁⟩ := Worker.dispatchLocal_ok hparse (b.shards 0).worker
  have hworker : (b₁.shards 0).worker = w₁ := worker_step_pub hstep hpayload.le hw₁
  obtain ⟨-, haccepted⟩ := single_dispatch_accepted hrun
    (fun a ha => hopen 0 a (List.mem_append_left _ ha)) (by rw [hconns]; decide) _ hparse hx hzero
    (by rw [hlen]; decide) (by
      have := hbytes 0
      rw [hlen, hcap]
      omega)
  obtain ⟨o, hoffers, htarget, -, -, hok⟩ := haccepted w₁ hw₁
  obtain ⟨hcore, new, hnew, hP, hstates⟩ := Worker.extends_dispatchLocal hparse hw₁
  obtain rfl : new = [o] := List.append_cancel_left (hnew.symm.trans hoffers)
  have hobytes : o.bytes.length = maxPayloadBytes + 19 := by
    obtain ⟨s, hs, -, hbytes, -⟩ := hP o (List.mem_singleton_self o)
    rw [hx, List.mem_singleton] at hs
    rw [hbytes, hs]
    exact hlen
  have hconns₁ : w₁.conns.length = 3 := by rw [Worker.length_conns_of_core hcore, hconns]
  refine ⟨b, b₁, hrun, hstep, length_emitScratch hrun₁ 0, ?_⟩
  have hkeeps := keeps_run hrun₁ (hopen 1)
  have hcapacity := fun c => outboundCapacity_run hrun₁ (i := 0) (r := 0) (c := c)
  rw [hworker] at hkeeps hcapacity ⊢
  refine ⟨?_, ?_, ?_, ?_, hkeeps (by rw [hconns₁]; decide) _ ?_, ?_⟩
  · rw [Worker.rng_dispatchLocal hparse hw₁ (by rw [hx]; decide), hrng]
  · rw [Worker.table_of_core hcore, hq]
  · rw [Worker.registered_of_core hcore]
    exact Worker.registered_eq_some.mpr ⟨hzero, by rw [hconns]; decide⟩
  · rw [Worker.lookup_of_core hcore, hone]
  · have := hbytes 1
    have hnone : bytesTo 1 [o] = 0 := by simp [bytesTo, htarget]
    rw [hoffers, bytesTo_append, hnone, hcap]
    omega
  · obtain ⟨d, hd⟩ : ∃ d, (b.shards 0).worker.conns[0]? = some d :=
      ⟨_, List.getElem?_eq_getElem (by rw [hconns]; decide)⟩
    obtain ⟨d₁, hd₁, henq⟩ := hstates 0 d hd
    obtain ⟨-, htail⟩ := henq.room_of_ok htarget hok
    refine ⟨d₁, hd₁, ?_⟩
    rw [hcapacity d₁ hd₁, htail, hobytes, hcap]
    omega

/-- Now a message to `q` is lost: it is offered to connection 0. -/
lemma lost_of_payload {payload : Bytes} (hpayload : payload.length = maxPayloadBytes) :
    ∃ (b b₁ : Broker 1) (w' : Worker) (new : List Offer),
      run step (Broker.init 1 1) twoMembers = some b ∧
      step b (.task 0 (.frame 2 (.pub (ascii "x") none payload))) = some b₁ ∧
      (b₁.shards 0).worker.table.matching [ascii "q"] =
        [⟨⟨1⟩, ascii "1", some (ascii "g")⟩, ⟨⟨0⟩, ascii "2", some (ascii "g")⟩] ∧
      (∀ s ∈ (b₁.shards 0).worker.table.matching [ascii "q"],
        (encode (PublishedFrame.msg ⟨ascii "q", none, payload⟩ s.sid)).length ≤
          emitScratchCapacity) ∧
      (b₁.shards 0).worker.lookup ⟨1⟩ = some 1 ∧
      (b₁.shards 0).worker.HasRoom 1
        (encode (PublishedFrame.msg ⟨ascii "q", none, payload⟩ (ascii "1"))).length ∧
      (b₁.shards 0).worker.dispatchLocal ⟨ascii "q", none, payload⟩ = .ok w' ∧
      w'.offers = (b₁.shards 0).worker.offers ++ new ∧
      new.countP (fun o => o.group = some (ascii "g") ∧ o.outcome = .ok) = 0 := by
  obtain ⟨b, b₁, hrun, hstep, hscratch, hrng, hq, hreg, hone, hroom, c, hc, hfull⟩ :=
    twoMembers_filled hpayload
  have hlen : ∀ sid : Bytes, sid.length = 1 →
      (encode (PublishedFrame.msg ⟨ascii "q", none, payload⟩ sid)).length = maxPayloadBytes + 19 :=
    fun sid hsid => length_encode_large rfl rfl hpayload hsid
  have hparse : parsePublisherSubject (PublishedFrame.mk (ascii "q") none payload).subject =
      .ok [ascii "q"] := rfl
  have hfits : ∀ s ∈ (b₁.shards 0).worker.table.matching [ascii "q"],
      (encode (PublishedFrame.msg ⟨ascii "q", none, payload⟩ s.sid)).length ≤
        emitScratchCapacity := by
    intro s hs
    have hsid : s.sid.length = 1 := by
      rw [hq] at hs
      revert s
      decide
    rw [hlen _ hsid]
    decide
  have hpick : Worker.deliveries (Worker.new 0).rng [⟨⟨1⟩, ascii "1", some (ascii "g")⟩,
      ⟨⟨0⟩, ascii "2", some (ascii "g")⟩] = [(some (ascii "g"), (⟨0⟩, ascii "2"))] := by
    decide +kernel
  rw [← hrng, ← hq] at hpick
  obtain ⟨w', o, hw', hnew, htarget, hbytes, hstates⟩ :=
    Worker.single_delivery hparse hscratch hfits hpick hreg
  have hlost : o.outcome ≠ .ok := by
    intro hok
    obtain ⟨s, henq⟩ := hstates c hc
    obtain ⟨hle, -⟩ := henq.room_of_ok htarget hok
    rw [hbytes, hlen _ rfl] at hle
    omega
  refine ⟨b, b₁, w', [o], hrun, hstep, hq, hfits, hone, ?_, hw', hnew, by simp [hlost]⟩
  rwa [hlen _ rfl]

/-- **A group loses a message although a member is healthy.** Two publications of the largest size:
the first one fills the buffer of a member that also subscribes to its subject. The second one is
offered to that member, although the other one has room. -/
theorem group_message_lost :
    let frame : PublishedFrame := ⟨ascii "q", none, List.replicate maxPayloadBytes 0⟩
    ∃ (b b₁ : Broker 1) (w' : Worker) (new : List Offer),
      run step (Broker.init 1 1) twoMembers = some b ∧
      step b (.task 0 (.frame 2 (.pub (ascii "x") none (List.replicate maxPayloadBytes 0)))) =
        some b₁ ∧
      (b₁.shards 0).worker.table.matching [ascii "q"] =
        [⟨⟨1⟩, ascii "1", some (ascii "g")⟩, ⟨⟨0⟩, ascii "2", some (ascii "g")⟩] ∧
      (∀ s ∈ (b₁.shards 0).worker.table.matching [ascii "q"],
        (encode (frame.msg s.sid)).length ≤ emitScratchCapacity) ∧
      (b₁.shards 0).worker.lookup ⟨1⟩ = some 1 ∧
      (b₁.shards 0).worker.HasRoom 1 (encode (frame.msg (ascii "1"))).length ∧
      (b₁.shards 0).worker.dispatchLocal frame = .ok w' ∧
      w'.offers = (b₁.shards 0).worker.offers ++ new ∧
      new.countP (fun o => o.group = some (ascii "g") ∧ o.outcome = .ok) = 0 :=
  lost_of_payload List.length_replicate

end Aulon.Server
