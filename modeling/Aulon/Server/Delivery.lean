import Aulon.Server.Worker

/-!
# What a worker offers to whom

The functions of a worker that enqueue frames change the outbound state of connections and
nothing else that matters to routing: the trie, the registered ids, the readers' maps
(`Worker.core`) stay as they are. What they add to the history of offers is stated here, once for
each function.

* `Extends P` — enqueueing only, and every new offer satisfies `P`.
* `offers_emitErrTo` — an error is offered once.
* `deliveries` — whom a dispatch delivers to: every matching subscription without a group, and the
  pick of each group with a matching member (`deliveries_spec`).
* `dispatchLocal_deliveries` — a dispatch is its list of deliveries.
* `dispatchLocal_attempts` — what a dispatch attempts, in order, where all messages fit.
* `extends_dispatchLocal` — every offer of a dispatch goes to a matching subscription.
* `groups_dispatchLocal` — if all messages fit and all ids are registered, the dispatch makes
  exactly one offer on behalf of each group with a matching member.
-/

namespace Aulon.Server

open Aulon.Lib Aulon.Core Aulon.Proto

/-! ## What enqueueing leaves alone -/

/-- The part of a connection that enqueueing leaves alone. -/
def Connection.core (c : Connection) :
    ConnectionId × AList (fun _ : Bytes => Bytes) × ReaderStatus :=
  (c.state.id, c.subscriptions, c.reader)

/-- What an offer attempts, whatever comes of it. -/
def Offer.attempt (o : Offer) : Option Bytes × ConnRef × Frame × Bytes :=
  (o.group, o.target, o.frame, o.bytes)

namespace Worker

/-- The part of a worker that enqueueing leaves alone; the scratch buffer keeps its length. -/
def core (w : Worker) : SubscriptionTrie × AList (fun _ : ConnectionId => ConnRef) × UInt32 × ℕ ×
    List (ConnectionId × AList (fun _ : Bytes => Bytes) × ReaderStatus) :=
  (w.table, w.connections, w.nextConnId, w.emitScratch.length, w.conns.map Connection.core)

/-- The core has the trie. -/
lemma table_of_core {w w' : Worker} (h : w'.core = w.core) : w'.table = w.table :=
  congrArg (·.1) h

/-- The core has the map of connections. -/
lemma connections_of_core {w w' : Worker} (h : w'.core = w.core) :
    w'.connections = w.connections :=
  congrArg (·.2.1) h

/-- The core has the cores of the connections. -/
lemma conns_of_core {w w' : Worker} (h : w'.core = w.core) :
    w'.conns.map Connection.core = w.conns.map Connection.core :=
  congrArg (·.2.2.2.2) h

/-- The core has the length of the scratch. -/
lemma scratch_of_core {w w' : Worker} (h : w'.core = w.core) :
    w'.emitScratch.length = w.emitScratch.length :=
  congrArg (·.2.2.2.1) h

/-- The core has the number of connections. -/
lemma length_conns_of_core {w w' : Worker} (h : w'.core = w.core) :
    w'.conns.length = w.conns.length := by
  simpa using congrArg List.length (conns_of_core h)

/-- The core has that of every connection. -/
lemma getElem?_of_core {w w' : Worker} (h : w'.core = w.core) {r : ℕ} {c : Connection}
    (hc : w.conns[r]? = some c) : ∃ c', w'.conns[r]? = some c' ∧ c'.core = c.core := by
  have hcores := congrArg (fun l : List _ => l[r]?) (conns_of_core h)
  simp only [List.getElem?_map, hc, Option.map_some] at hcores
  exact Option.map_eq_some_iff.mp hcores

/-- The core has what the map of connections finds. -/
lemma lookup_of_core {w w' : Worker} (h : w'.core = w.core) (id : ConnectionId) :
    w'.lookup id = w.lookup id := by
  rw [lookup, lookup, connections_of_core h]

/-- Replacing a connection by one with the same core changes no core. -/
lemma map_core_set {conns : List Connection} {r : ConnRef} {c c' : Connection}
    (hc : conns[r]? = some c) (hcore : c'.core = c.core) :
    (conns.set r c').map Connection.core = conns.map Connection.core := by
  apply List.ext_getElem?
  intro j
  rw [List.getElem?_map, List.getElem?_map, List.getElem?_set]
  split_ifs with hj hlt
  · rw [← hj, hc, Option.map_some, Option.map_some, hcore]
  · subst hj
    rw [List.getElem?_eq_none (by omega)]
  · rfl

/-! ## Offers -/

/-- The offers to connection `r` take its state from `s` to `s'`: each was an attempt to enqueue its
bytes, with the outcome recorded. -/
def Enqueued (r : ConnRef) : ConnectionState → List Offer → ConnectionState → Prop
  | s, [], s' => s' = s
  | s, o :: os, s' =>
      if o.target = r then
        o.outcome = (s.enqueue o.bytes).1 ∧ Enqueued r (s.enqueue o.bytes).2 os s'
      else Enqueued r s os s'

/-- Offers made one after the other. -/
lemma Enqueued.append {r : ConnRef} {s s' s'' : ConnectionState} {os os' : List Offer}
    (h : Enqueued r s os s') (h' : Enqueued r s' os' s'') : Enqueued r s (os ++ os') s'' := by
  induction os generalizing s with
  | nil => cases h; exact h'
  | cons o os ih =>
      rw [List.cons_append, Enqueued]
      rw [Enqueued] at h
      split_ifs at h ⊢
      · exact ⟨h.1, ih h.2⟩
      · exact ih h

/-- `w'` comes from `w` by enqueueing only, and every new offer satisfies `P`. -/
structure Extends (P : Offer → Prop) (w w' : Worker) : Prop where
  core : w'.core = w.core
  offers : ∃ new, w'.offers = w.offers ++ new ∧ (∀ o ∈ new, P o) ∧ ∀ r c, w.conns[r]? = some c →
    ∃ c', w'.conns[r]? = some c' ∧ Enqueued r c.state new c'.state

variable {P : Offer → Prop} {w w' w'' : Worker}

/-- Nothing is enqueued. -/
lemma Extends.of_conns (hcore : w'.core = w.core) (hconns : w'.conns = w.conns)
    (hoffers : w'.offers = w.offers) : Extends P w w' :=
  ⟨hcore, [], by simp [hoffers], by simp, fun _ c hc => ⟨c, by rw [hconns, hc], rfl⟩⟩

/-- A worker extends itself. -/
lemma Extends.refl (w : Worker) : Extends P w w := .of_conns rfl rfl rfl

/-- Extensions compose. -/
lemma Extends.trans (h : Extends P w w') (h' : Extends P w' w'') : Extends P w w'' := by
  obtain ⟨hcore, new, hnew, hP, hstates⟩ := h
  obtain ⟨hcore', new', hnew', hP', hstates'⟩ := h'
  refine ⟨hcore'.trans hcore, new ++ new', by rw [hnew', hnew, List.append_assoc], fun o ho => ?_,
    fun r c hc => ?_⟩
  · rcases List.mem_append.mp ho with ho | ho
    · exact hP o ho
    · exact hP' o ho
  · obtain ⟨c', hc', henq⟩ := hstates r c hc
    obtain ⟨c'', hc'', henq'⟩ := hstates' r c' hc'
    exact ⟨c'', hc'', henq.append henq'⟩

/-- An extension by offers of one kind is one by offers of a wider kind. -/
lemma Extends.mono {Q : Offer → Prop} (h : Extends P w w') (hPQ : ∀ o, P o → Q o) :
    Extends Q w w' := by
  obtain ⟨hcore, new, hnew, hP, hstates⟩ := h
  exact ⟨hcore, new, hnew, fun o ho => hPQ o (hP o ho), hstates⟩

/-- Enqueueing for a connection that exists is recorded once. -/
lemma offers_offer {target : ConnRef} (htarget : target < w.conns.length) (group : Option Bytes)
    (frame : Frame) (bytes : Bytes) : ∃ outcome,
      (w.offer target group frame bytes).offers =
        w.offers ++ [⟨target, group, frame, bytes, outcome⟩] := by
  unfold offer
  rw [List.getElem?_eq_getElem htarget]
  exact ⟨_, rfl⟩

/-- An offer extends the worker by itself. -/
lemma extends_offer (w : Worker) (target : ConnRef) (group : Option Bytes) (frame : Frame)
    (bytes : Bytes) :
    Extends (fun o => o.target = target ∧ o.group = group ∧ o.frame = frame ∧ o.bytes = bytes) w
      (w.offer target group frame bytes) := by
  unfold offer
  cases hc : w.conns[target]? with
  | none => exact .refl w
  | some c =>
      have hcore : Connection.core { c with state := (c.state.enqueue bytes).2 } = c.core := by
        simp [Connection.core]
      refine ⟨by simp only [Worker.core, map_core_set hc hcore], _, rfl, by simp, fun r d hd => ?_⟩
      rcases eq_or_ne target r with rfl | hr
      · obtain rfl : c = d := Option.some.inj (hc.symm.trans hd)
        refine ⟨_, List.getElem?_set_self (List.getElem?_eq_some_iff.mp hc).1, ?_⟩
        simp [Enqueued]
      · exact ⟨d, (List.getElem?_set_ne hr).trans hd, by simp [Enqueued, hr]⟩

/-- An error is offered as it is encoded. -/
lemma extends_emitErrTo (w : Worker) (target : ConnRef) (msg : Bytes) :
    Extends (fun o => o.target = target ∧ o.group = none ∧ o.frame = .err msg ∧
      o.bytes = encode (.err msg)) w (w.emitErrTo target msg) := by
  unfold emitErrTo
  split
  · rename_i n buf hemit
    obtain ⟨rfl, -, rfl⟩ := emitFrame_ok (f := .err msg) hemit
    rw [take_overwrite_zero]
    exact extends_offer w target none _ _
  · exact .refl w

/-- Sending an error leaves the core. -/
@[simp] lemma core_emitErrTo (w : Worker) (target : ConnRef) (msg : Bytes) :
    (w.emitErrTo target msg).core = w.core :=
  (extends_emitErrTo w target msg).core

/-- An error text that fits the buffer of a short frame is offered once. -/
lemma offers_emitErrTo {target : ConnRef} (htarget : target < w.conns.length) {msg : Bytes}
    (hmsg : (encode (.err msg)).length ≤ shortFrameBuf) : ∃ outcome,
      (w.emitErrTo target msg).offers =
        w.offers ++ [⟨target, none, .err msg, encode (.err msg), outcome⟩] := by
  have hemit : emitErr msg (List.replicate shortFrameBuf 0) = (.ok (encode (.err msg)).length,
      overwrite (List.replicate shortFrameBuf 0) 0 (encode (.err msg))) :=
    emitFrame_of_le (f := .err msg) (by simpa using hmsg) (by rw [List.length_replicate]; decide)
  unfold emitErrTo
  rw [hemit]
  dsimp only
  rw [take_overwrite_zero]
  exact offers_offer htarget none _ _

/-- The greeting always fits the buffer it is encoded in. -/
lemma greet_eq (w : Worker) (r : ConnRef) : w.greet r =
    (w.offer r none (.info serverInfoJson) (encode (.info serverInfoJson))).setReader r
      .reading := by
  have hemit : emitInfo serverInfoJson (List.replicate shortFrameBuf 0) =
      (.ok (encode (.info serverInfoJson)).length,
        overwrite (List.replicate shortFrameBuf 0) 0 (encode (.info serverInfoJson))) :=
    emitFrame_of_le (f := .info serverInfoJson)
      (by rw [List.length_replicate]; decide +kernel) (by rw [List.length_replicate]; decide)
  unfold greet
  rw [hemit]
  dsimp only
  rw [take_overwrite_zero]

/-! ## Deliveries -/

/-- The deliveries of a dispatch, one after the other: each is a subscription, and the group on
whose behalf it was chosen. -/
def deliverAll (w : Worker) (frame : PublishedFrame) (ds : List (Option Bytes × Snapshot)) :
    Worker :=
  ds.foldl (fun w d => w.deliver frame d.1 d.2) w

/-- The contents of the scratch do not matter. -/
lemma core_setScratch (w : Worker) {scratch : Bytes}
    (h : scratch.length = w.emitScratch.length) :
    ({ w with emitScratch := scratch } : Worker).core = w.core := by
  simp only [core, h]

/-- A delivery offers the encoded message, which fits the scratch, to the connection registered for
the id. -/
lemma extends_deliver (w : Worker) (frame : PublishedFrame) (group : Option Bytes)
    (entry : Snapshot) :
    Extends (fun o => o.frame = frame.msg entry.2 ∧ o.bytes = encode (frame.msg entry.2) ∧
      o.group = group ∧ w.lookup entry.1 = some o.target ∧
      o.bytes.length ≤ w.emitScratch.length) w (w.deliver frame group entry) := by
  have hlen := length_emitFrame (frame.msg entry.2) w.emitScratch
  rw [show emitFrame (frame.msg entry.2) w.emitScratch =
    emitMsg frame.subject entry.2 frame.replyTo frame.payload w.emitScratch from rfl] at hlen
  unfold deliver
  split
  · rename_i scratch hemit
    rw [hemit] at hlen
    exact .of_conns (core_setScratch w hlen) rfl rfl
  · rename_i n scratch hemit
    rw [hemit] at hlen
    have hcore := core_setScratch w hlen
    cases hlookup : w.lookup entry.1 with
    | none =>
        simp only [lookup_of_core hcore, hlookup]
        exact .of_conns hcore rfl rfl
    | some target =>
        obtain ⟨rfl, hfit, rfl⟩ := emitFrame_ok (f := frame.msg entry.2) hemit
        simp only [lookup_of_core hcore, hlookup]
        rw [take_overwrite_zero]
        refine (Extends.of_conns hcore rfl rfl).trans ((extends_offer _ target group _ _).mono ?_)
        rintro o ⟨rfl, hgroup, hframe, hbytes⟩
        exact ⟨hframe, hbytes, hgroup, rfl, hbytes ▸ hfit⟩

/-- Messages to a list of subscriptions extend the worker by messages for some of them. -/
lemma extends_deliverAll (frame : PublishedFrame) (ds : List (Option Bytes × Snapshot))
    (w : Worker) :
    Extends (fun o => ∃ d ∈ ds, o.frame = frame.msg d.2.2 ∧ o.bytes = encode (frame.msg d.2.2) ∧
      o.group = d.1 ∧ w.lookup d.2.1 = some o.target ∧ o.bytes.length ≤ w.emitScratch.length)
      w (w.deliverAll frame ds) := by
  induction ds generalizing w with
  | nil => exact .refl w
  | cons d ds ih =>
      have hhead := extends_deliver w frame d.1 d.2
      refine (hhead.mono fun o ho => ⟨d, List.mem_cons_self, ho⟩).trans
        ((ih (w.deliver frame d.1 d.2)).mono ?_)
      rintro o ⟨d', hd', hframe, hbytes, hgroup, htarget, hfit⟩
      rw [lookup_of_core hhead.core] at htarget
      rw [scratch_of_core hhead.core] at hfit
      exact ⟨d', List.mem_cons_of_mem _ hd', hframe, hbytes, hgroup, htarget, hfit⟩

/-- The connection registered under an id. -/
def registered (w : Worker) (id : ConnectionId) : Option ConnRef :=
  (w.lookup id).filter (· < w.conns.length)

/-- The connection registered for an id exists. -/
lemma registered_eq_some {w : Worker} {id : ConnectionId} {r : ConnRef} :
    w.registered id = some r ↔ w.lookup id = some r ∧ r < w.conns.length := by
  rw [registered, Option.filter_eq_some_iff, decide_eq_true_eq]

/-- No connection that exists is registered for the id. -/
lemma registered_eq_none {w : Worker} {id : ConnectionId}
    (h : ∀ r, w.lookup id = some r → ¬ r < w.conns.length) : w.registered id = none :=
  Option.eq_none_iff_forall_ne_some.mpr fun r hr =>
    h r (registered_eq_some.mp hr).1 (registered_eq_some.mp hr).2

/-- A message that fits the scratch is offered once, to the connection registered under the id, if
there is one. -/
lemma offers_deliver (frame : PublishedFrame) (entry : Snapshot)
    (hfit : (encode (frame.msg entry.2)).length ≤ w.emitScratch.length)
    (hword : w.emitScratch.length < wordMod) (group : Option Bytes) :
    ∃ new, (w.deliver frame group entry).offers = w.offers ++ new ∧
      new.map Offer.attempt = ((w.registered entry.1).map fun target =>
        (group, target, frame.msg entry.2, encode (frame.msg entry.2))).toList := by
  have hemit : emitMsg frame.subject entry.2 frame.replyTo frame.payload w.emitScratch =
      (.ok (encode (frame.msg entry.2)).length,
        overwrite w.emitScratch 0 (encode (frame.msg entry.2))) :=
    emitFrame_of_le (f := frame.msg entry.2) hfit hword
  set scratch := overwrite w.emitScratch 0 (encode (frame.msg entry.2))
  unfold deliver
  rw [hemit]
  cases hlookup : w.lookup entry.1 with
  | none =>
      have hlookup' : ({ w with emitScratch := scratch } : Worker).lookup entry.1 = none := hlookup
      simp only [hlookup']
      rw [registered_eq_none (by simp [hlookup])]
      exact ⟨[], by simp, rfl⟩
  | some target =>
      have hlookup' : ({ w with emitScratch := scratch } : Worker).lookup entry.1 =
          some target := hlookup
      simp only [hlookup']
      rw [take_overwrite_zero]
      by_cases htarget : target < w.conns.length
      · obtain ⟨outcome, hoffer⟩ := offers_offer (w := { w with emitScratch := scratch }) htarget
          group (frame.msg entry.2) (encode (frame.msg entry.2))
        rw [hoffer, registered_eq_some.mpr ⟨hlookup, htarget⟩]
        exact ⟨_, rfl, rfl⟩
      · unfold offer
        rw [List.getElem?_eq_none (not_lt.mp htarget),
          registered_eq_none (by simpa [hlookup] using htarget)]
        exact ⟨[], by simp, rfl⟩

/-- The connection that the message for an entry reaches: the one registered under the id, if the
message fits the scratch. -/
def reaches (w : Worker) (frame : PublishedFrame) (entry : Snapshot) : Option ConnRef :=
  if (encode (frame.msg entry.2)).length ≤ w.emitScratch.length then w.registered entry.1 else none

/-- What fits the scratch reaches the connection registered under the id. -/
lemma reaches_of_le {w : Worker} {frame : PublishedFrame} {entry : Snapshot}
    (h : (encode (frame.msg entry.2)).length ≤ w.emitScratch.length) :
    w.reaches frame entry = w.registered entry.1 :=
  if_pos h

/-- A message is offered once to the connection that it reaches. One that does not fit the scratch
is skipped, and no one is told. -/
lemma offers_deliver_reaches (frame : PublishedFrame) (entry : Snapshot)
    (hword : w.emitScratch.length < wordMod) (group : Option Bytes) :
    ∃ new, (w.deliver frame group entry).offers = w.offers ++ new ∧
      new.map Offer.attempt = ((w.reaches frame entry).map fun target =>
        (group, target, frame.msg entry.2, encode (frame.msg entry.2))).toList := by
  by_cases hfit : (encode (frame.msg entry.2)).length ≤ w.emitScratch.length
  · rw [reaches_of_le hfit]
    exact offers_deliver frame entry hfit hword group
  · obtain ⟨-, new, hnew, hoffers, -⟩ := extends_deliver w frame group entry
    refine ⟨new, hnew, ?_⟩
    rw [reaches, if_neg hfit]
    refine List.map_eq_nil_iff.mpr (List.eq_nil_iff_forall_not_mem.mpr fun o ho => hfit ?_)
    obtain ⟨-, hbytes, -, -, hlength⟩ := hoffers o ho
    rwa [hbytes] at hlength

/-- Who is registered under an id depends on what deliveries leave as it is. -/
lemma registered_of_core {w w' : Worker} (h : w'.core = w.core) (id : ConnectionId) :
    w'.registered id = w.registered id := by
  rw [registered, registered, lookup_of_core h, length_conns_of_core h]

/-- So does what a message reaches. -/
lemma reaches_of_core {w w' : Worker} (h : w'.core = w.core) (frame : PublishedFrame)
    (entry : Snapshot) : w'.reaches frame entry = w.reaches frame entry := by
  rw [reaches, reaches, registered_of_core h, scratch_of_core h]

/-- Each delivery that reaches a connection makes exactly one offer, and no other makes one. -/
lemma offers_deliverAll (frame : PublishedFrame) (ds : List (Option Bytes × Snapshot)) {w : Worker}
    (hword : w.emitScratch.length < wordMod) :
    ∃ new, (w.deliverAll frame ds).offers = w.offers ++ new ∧
      new.map Offer.attempt = ds.filterMap fun d => (w.reaches frame d.2).map fun target =>
        (d.1, target, frame.msg d.2.2, encode (frame.msg d.2.2)) := by
  induction ds generalizing w with
  | nil => exact ⟨[], by simp [deliverAll], rfl⟩
  | cons d ds ih =>
      obtain ⟨new, hoffer, hnew⟩ := offers_deliver_reaches frame d.2 hword d.1
      have hcore := (extends_deliver w frame d.1 d.2).core
      have hlen := scratch_of_core hcore
      obtain ⟨new', hoffer', hnew'⟩ := ih (w := w.deliver frame d.1 d.2) (hlen ▸ hword)
      simp only [reaches_of_core hcore] at hnew'
      refine ⟨new ++ new', ?_, ?_⟩
      · rw [deliverAll, List.foldl_cons]
        exact hoffer'.trans (by rw [hoffer, List.append_assoc])
      · rw [List.map_append, hnew, hnew', List.filterMap_cons]
        cases w.reaches frame d.2 <;> rfl

/-! ## Dispatch -/

/-- The generator of picks plays no part in a delivery. -/
lemma deliver_rng (w : Worker) (rng : UInt64) (frame : PublishedFrame) (group : Option Bytes)
    (entry : Snapshot) : ({ w with rng := rng } : Worker).deliver frame group entry =
      { w.deliver frame group entry with rng := rng } := by
  unfold deliver offer lookup
  dsimp only
  split
  · rfl
  · split
    · rfl
    · split <;> rfl

/-- The generator plays no part in a delivery. -/
lemma deliverAll_rng (frame : PublishedFrame) (ds : List (Option Bytes × Snapshot)) (w : Worker)
    (rng : UInt64) : ({ w with rng := rng } : Worker).deliverAll frame ds =
      { w.deliverAll frame ds with rng := rng } := by
  induction ds generalizing w with
  | nil => rfl
  | cons d ds ih =>
      rw [deliverAll, List.foldl_cons, deliver_rng]
      exact ih _

/-- A subscription without a group is collected on its own, one with a group in its group. -/
lemma foldl_collect (subs : List Sub) (plain : List Snapshot)
    (groups : List (Bytes × List Snapshot)) (l : List (Bytes × Snapshot))
    (h : Grouped groups l) :
    (subs.foldl collect (plain, groups)).1 =
        plain ++ (subs.filter (·.queueGroup = none)).map (fun s => (s.connId, s.sid)) ∧
      Grouped (subs.foldl collect (plain, groups)).2
        (l ++ subs.filterMap fun s => s.queueGroup.map (·, (s.connId, s.sid))) := by
  induction subs generalizing plain groups l with
  | nil => simpa using h
  | cons s subs ih =>
      rw [List.foldl_cons]
      cases hq : s.queueGroup with
      | none =>
          have hcollect : collect (plain, groups) s = (plain ++ [(s.connId, s.sid)], groups) := by
            simp [collect, hq]
          rw [hcollect]
          simpa [hq] using ih (plain ++ [(s.connId, s.sid)]) groups l h
      | some qg =>
          have hcollect : collect (plain, groups) s =
              (plain, addAt groups qg (s.connId, s.sid)) := by simp [collect, hq]
          rw [hcollect]
          simpa [hq] using ih plain _ _ (h.addAt qg (s.connId, s.sid))

/-- A delivery leaves the generator. -/
lemma rng_deliver (w : Worker) (frame : PublishedFrame) (group : Option Bytes) (entry : Snapshot) :
    (w.deliver frame group entry).rng = w.rng := by
  have h := congrArg Worker.rng (deliver_rng w w.rng frame group entry)
  exact h

/-- Deliveries leave the generator. -/
lemma rng_deliverAll (frame : PublishedFrame) (ds : List (Option Bytes × Snapshot)) (w : Worker) :
    (w.deliverAll frame ds).rng = w.rng := by
  have h := congrArg Worker.rng (deliverAll_rng frame ds w w.rng)
  exact h

/-- The picks of a dispatch: one member of each group, as the generator goes on. -/
def pickAll (rng : UInt64) : List (Bytes × List Snapshot) → List (Bytes × Snapshot)
  | [] => []
  | g :: groups =>
      (g.2[(xorshift rng).toNat % g.2.length]?.map fun entry => (g.1, entry)).toList ++
        pickAll (xorshift rng) groups

/-- The loop over the groups delivers to the picks. -/
lemma foldl_deliverToGroup (frame : PublishedFrame) (groups : List (Bytes × List Snapshot))
    (w : Worker) :
    groups.foldl (fun w group => w.deliverToGroup frame group) w =
      { w.deliverAll frame ((pickAll w.rng groups).map fun p => (some p.1, p.2)) with
        rng := xorshift^[groups.length] w.rng } := by
  induction groups generalizing w with
  | nil => rfl
  | cons g groups ih =>
      have hrng : (w.deliverToGroup frame g).rng = xorshift w.rng := by
        unfold deliverToGroup pickIndex
        dsimp only
        split
        · rfl
        · exact rng_deliver _ frame _ _
      rw [List.foldl_cons, ih, hrng, pickAll, List.length_cons, Function.iterate_succ_apply]
      cases hentry : g.2[(xorshift w.rng).toNat % g.2.length]? with
      | none =>
          have hstep : w.deliverToGroup frame g = { w with rng := xorshift w.rng } := by
            simp only [deliverToGroup, pickIndex, hentry]
          rw [hstep, deliverAll_rng]
          rfl
      | some entry =>
          have hstep : w.deliverToGroup frame g =
              { w.deliver frame (some g.1) entry with rng := xorshift w.rng } := by
            simp only [deliverToGroup, pickIndex, hentry, deliver_rng]
          rw [hstep, deliverAll_rng]
          rfl

/-- From groups that are not empty, every group gets one pick, a member. -/
lemma pickAll_spec {groups : List (Bytes × List Snapshot)} (hne : ∀ g ∈ groups, g.2 ≠ [])
    (rng : UInt64) : (pickAll rng groups).map (·.1) = groups.map (·.1) ∧
      ∀ p ∈ pickAll rng groups, ∃ members, (p.1, members) ∈ groups ∧ p.2 ∈ members := by
  induction groups generalizing rng with
  | nil => exact ⟨rfl, by simp [pickAll]⟩
  | cons g groups ih =>
      have hpick : (xorshift rng).toNat % g.2.length < g.2.length :=
        Nat.mod_lt _ (List.length_pos_of_ne_nil (hne g List.mem_cons_self))
      obtain ⟨entry, hentry⟩ : ∃ entry, g.2[(xorshift rng).toNat % g.2.length]? = some entry :=
        ⟨_, List.getElem?_eq_getElem hpick⟩
      have hcons : pickAll rng (g :: groups) = (g.1, entry) :: pickAll (xorshift rng) groups := by
        rw [pickAll, hentry]
        rfl
      obtain ⟨hnames, hmembers⟩ :=
        ih (fun g' hg' => hne g' (List.mem_cons_of_mem _ hg')) (xorshift rng)
      rw [hcons]
      refine ⟨by rw [List.map_cons, List.map_cons, hnames], fun p hp => ?_⟩
      rcases List.mem_cons.mp hp with rfl | hp
      · exact ⟨g.2, List.mem_cons_self, List.mem_of_getElem? hentry⟩
      · obtain ⟨members, hmem, hp⟩ := hmembers p hp
        exact ⟨members, List.mem_cons_of_mem _ hmem, hp⟩

/-- The subscriptions of a list that are in a group, under their group. -/
def grouped (subs : List Sub) : List (Bytes × Snapshot) :=
  subs.filterMap fun s => s.queueGroup.map (·, (s.connId, s.sid))

/-- The subscriptions with a queue group, with their group. -/
lemma mem_grouped {subs : List Sub} {g : Bytes} {entry : Snapshot} :
    (g, entry) ∈ grouped subs ↔ ∃ s ∈ subs, s.queueGroup = some g ∧ (s.connId, s.sid) = entry := by
  simp only [grouped, List.mem_filterMap, Option.map_eq_some_iff, Prod.mk.injEq]
  constructor
  · rintro ⟨s, hs, q, hq, rfl, hentry⟩
    exact ⟨s, hs, hq, hentry⟩
  · rintro ⟨s, hs, hq, hentry⟩
    exact ⟨s, hs, g, hq, rfl, hentry⟩

/-- The deliveries of a dispatch to matching subscriptions: one for each without a group, and one
for the pick of each group. -/
def deliveries (rng : UInt64) (subs : List Sub) : List (Option Bytes × Snapshot) :=
  (subs.foldl collect ([], [])).1.map (fun entry => (none, entry)) ++
    (pickAll rng (subs.foldl collect ([], [])).2).map fun p => (some p.1, p.2)

/-- The groups that are picked from are those of the subscriptions, each once, and the picks are
members. -/
lemma deliveries_spec (rng : UInt64) (subs : List Sub) : ∃ picks : List (Bytes × Snapshot),
    (picks.map (·.1)).Nodup ∧
    (∀ g, g ∈ picks.map (·.1) ↔ ∃ s ∈ subs, s.queueGroup = some g) ∧
    (∀ p ∈ picks, p ∈ grouped subs) ∧
    deliveries rng subs = (subs.filter (·.queueGroup = none)).map
        (fun s => (none, (s.connId, s.sid))) ++ picks.map fun p => (some p.1, p.2) := by
  obtain ⟨hplain, hgroups⟩ := foldl_collect subs [] [] [] grouped_nil
  rw [List.nil_append] at hplain hgroups
  have hne : ∀ g ∈ (subs.foldl collect ([], [])).2, g.2 ≠ [] := fun g hg => by
    rw [hgroups.values g hg]
    exact valuesAt_ne_nil ((hgroups.keys g.1).mp (List.mem_map_of_mem hg))
  obtain ⟨hnames, hpicks⟩ := pickAll_spec hne rng
  refine ⟨pickAll rng (subs.foldl collect ([], [])).2, by rw [hnames]; exact hgroups.nodup,
    fun g => ?_, fun p hp => ?_, ?_⟩
  · rw [hnames, hgroups.keys g]
    constructor
    · intro hg
      obtain ⟨⟨g', entry⟩, he, rfl⟩ := List.mem_map.mp hg
      obtain ⟨s, hs, hq, -⟩ := mem_grouped.mp he
      exact ⟨s, hs, hq⟩
    · rintro ⟨s, hs, hq⟩
      exact List.mem_map.mpr ⟨(g, (s.connId, s.sid)), mem_grouped.mpr ⟨s, hs, hq, rfl⟩, rfl⟩
  · obtain ⟨members, hmembers, hmem⟩ := hpicks p hp
    have hvalues : members = valuesAt (grouped subs) p.1 := hgroups.values _ hmembers
    exact mem_valuesAt.mp (hvalues ▸ hmem)
  · rw [deliveries, hplain, List.map_map]
    rfl

/-- **A dispatch is a list of deliveries**, if the subject is valid. -/
theorem dispatchLocal_deliveries {frame : PublishedFrame} {tokens : List Bytes}
    (hparse : parsePublisherSubject frame.subject = .ok tokens) (w : Worker) :
    w.dispatchLocal frame =
      .ok { w.deliverAll frame (deliveries w.rng (w.table.matching tokens)) with
        rng := xorshift^[((w.table.matching tokens).foldl collect ([], [])).2.length] w.rng } := by
  rw [dispatchLocal, forEachMatch_of_ok hparse]
  change Except.ok (List.foldl _ _ _) = _
  rw [foldl_deliverToGroup]
  have hplain : ∀ entries : List Snapshot,
      entries.foldl (fun w entry => w.deliver frame none entry) w =
        w.deliverAll frame (entries.map fun entry => (none, entry)) := fun entries => by
    rw [deliverAll, List.foldl_map]
  rw [hplain, rng_deliverAll, deliveries]
  simp only [deliverAll, List.foldl_append]

/-- Every delivery is for one of the subscriptions, with its group. -/
lemma mem_of_mem_deliveries {rng : UInt64} {subs : List Sub} {d : Option Bytes × Snapshot}
    (hd : d ∈ deliveries rng subs) :
    ∃ s ∈ subs, s.queueGroup = d.1 ∧ (s.connId, s.sid) = d.2 := by
  obtain ⟨picks, -, -, hpicks, heq⟩ := deliveries_spec rng subs
  rw [heq] at hd
  rcases List.mem_append.mp hd with hd | hd
  · obtain ⟨s, hs, rfl⟩ := List.mem_map.mp hd
    obtain ⟨hs, hq⟩ := List.mem_filter.mp hs
    exact ⟨s, hs, of_decide_eq_true hq, rfl⟩
  · obtain ⟨p, hp, rfl⟩ := List.mem_map.mp hd
    exact mem_grouped.mp (hpicks p hp)

/-- If all messages fit the scratch, every delivery to a registered id is attempted once. -/
theorem dispatchLocal_attempts {frame : PublishedFrame} {tokens : List Bytes}
    (hparse : parsePublisherSubject frame.subject = .ok tokens) {w : Worker}
    (hword : w.emitScratch.length < wordMod) (hfit : ∀ s ∈ w.table.matching tokens,
      (encode (frame.msg s.sid)).length ≤ w.emitScratch.length) :
    ∃ (w' : Worker) (new : List Offer), w.dispatchLocal frame = .ok w' ∧
      w'.offers = w.offers ++ new ∧ w'.core = w.core ∧
      (∀ r c, w.conns[r]? = some c → ∃ c', w'.conns[r]? = some c' ∧
        Enqueued r c.state new c'.state) ∧
      new.map Offer.attempt = (deliveries w.rng (w.table.matching tokens)).filterMap fun d =>
        (w.registered d.2.1).map fun target =>
          (d.1, target, frame.msg d.2.2, encode (frame.msg d.2.2)) := by
  have hfit' : ∀ d ∈ deliveries w.rng (w.table.matching tokens),
      (encode (frame.msg d.2.2)).length ≤ w.emitScratch.length := by
    intro d hd
    obtain ⟨s, hs, -, hentry⟩ := mem_of_mem_deliveries hd
    rw [← hentry]
    exact hfit s hs
  obtain ⟨new, hnew, hattempts⟩ :=
    offers_deliverAll frame (deliveries w.rng (w.table.matching tokens)) hword
  obtain ⟨hcore, new', hnew', -, hstates⟩ :=
    extends_deliverAll frame (deliveries w.rng (w.table.matching tokens)) w
  obtain rfl : new' = new := List.append_cancel_left (hnew'.symm.trans hnew)
  refine ⟨_, new', dispatchLocal_deliveries hparse w, hnew, hcore, hstates, hattempts.trans ?_⟩
  exact List.filterMap_congr fun d hd => by rw [reaches_of_le (hfit' d hd)]

/-- A publication to a good subject is dispatched. -/
lemma dispatchLocal_ok {frame : PublishedFrame} {tokens : List Bytes}
    (hparse : parsePublisherSubject frame.subject = .ok tokens) (w : Worker) :
    ∃ w', w.dispatchLocal frame = .ok w' :=
  ⟨_, dispatchLocal_deliveries hparse w⟩

/-- A publication to a bad subject is refused. -/
lemma dispatchLocal_error {frame : PublishedFrame} {e : SubjectError}
    (hparse : parsePublisherSubject frame.subject = .error e) (w : Worker) :
    w.dispatchLocal frame = .error e := by
  rw [dispatchLocal, SubscriptionTrie.forEachMatch, hparse]
  rfl

/-- Every offer of a dispatch carries the encoded publication to a matching subscription, under the
reference its id is registered with, and fits the scratch. -/
theorem fits_dispatchLocal {frame : PublishedFrame} {tokens : List Bytes}
    (hparse : parsePublisherSubject frame.subject = .ok tokens) {w w' : Worker}
    (h : w.dispatchLocal frame = .ok w') :
    Extends (fun o => ∃ s ∈ w.table.matching tokens, o.frame = frame.msg s.sid ∧
      o.bytes = encode (frame.msg s.sid) ∧ o.group = s.queueGroup ∧
      w.lookup s.connId = some o.target ∧ o.bytes.length ≤ w.emitScratch.length) w w' := by
  rw [dispatchLocal_deliveries hparse] at h
  cases h
  obtain ⟨hcore, hoffers⟩ :=
    extends_deliverAll frame (deliveries w.rng (w.table.matching tokens)) w
  refine Extends.mono ⟨hcore, hoffers⟩ ?_
  rintro o ⟨d, hd, hframe, hbytes, hgroup, htarget, hfit⟩
  obtain ⟨s, hs, hq, hentry⟩ := mem_of_mem_deliveries hd
  rw [← hentry] at hframe hbytes htarget
  exact ⟨s, hs, hframe, hbytes, by rw [hgroup, hq], htarget, hfit⟩

/-- A dispatch extends the worker by messages for matching entries of the trie. -/
theorem extends_dispatchLocal {frame : PublishedFrame} {tokens : List Bytes}
    (hparse : parsePublisherSubject frame.subject = .ok tokens) {w w' : Worker}
    (h : w.dispatchLocal frame = .ok w') :
    Extends (fun o => ∃ s ∈ w.table.matching tokens, o.frame = frame.msg s.sid ∧
      o.bytes = encode (frame.msg s.sid) ∧ o.group = s.queueGroup ∧
      w.lookup s.connId = some o.target) w w' := by
  refine (fits_dispatchLocal hparse h).mono ?_
  rintro o ⟨s, hs, hframe, hbytes, hgroup, htarget, -⟩
  exact ⟨s, hs, hframe, hbytes, hgroup, htarget⟩

/-- A dispatch to subscriptions without a group picks no one. -/
lemma rng_dispatchLocal {frame : PublishedFrame} {tokens : List Bytes}
    (hparse : parsePublisherSubject frame.subject = .ok tokens) {w w' : Worker}
    (h : w.dispatchLocal frame = .ok w')
    (hplain : ∀ s ∈ w.table.matching tokens, s.queueGroup = none) : w'.rng = w.rng := by
  obtain ⟨-, hgroups⟩ := foldl_collect (w.table.matching tokens) [] [] [] grouped_nil
  have hempty : ((w.table.matching tokens).foldl collect ([], [])).2 = [] := by
    refine List.eq_nil_iff_forall_not_mem.mpr fun g hg => ?_
    obtain ⟨⟨g', entry⟩, he, -⟩ := List.mem_map.mp ((hgroups.keys g.1).mp (List.mem_map_of_mem hg))
    obtain ⟨s, hs, hq, -⟩ := mem_grouped.mp he
    rw [hplain s hs] at hq
    cases hq
  rw [dispatchLocal_deliveries hparse, hempty] at h
  cases h
  rfl

/-- Every message of the publication for a matching subscription fits the scratch buffer, and
every matching subscription belongs to a registered connection. -/
def Ready (w : Worker) (frame : PublishedFrame) (tokens : List Bytes) : Prop :=
  w.emitScratch.length < wordMod ∧ ∀ s ∈ w.table.matching tokens,
    (encode (frame.msg s.sid)).length ≤ w.emitScratch.length ∧
      ∃ target, w.lookup s.connId = some target ∧ target < w.conns.length

/-- A dispatch on a worker that is ready makes exactly the offers it is meant to: one for each
matching subscription without a group, and one for each group with a matching member. -/
theorem offers_dispatchLocal {frame : PublishedFrame} {tokens : List Bytes}
    (hparse : parsePublisherSubject frame.subject = .ok tokens) {w w' : Worker}
    (hready : w.Ready frame tokens) (h : w.dispatchLocal frame = .ok w') :
    ∃ (picks : List (Bytes × Snapshot)) (new : List Offer),
      (picks.map (·.1)).Nodup ∧
      (∀ g, g ∈ picks.map (·.1) ↔ ∃ s ∈ w.table.matching tokens, s.queueGroup = some g) ∧
      w'.offers = w.offers ++ new ∧ new.map (fun o => (o.group, o.frame, some o.target)) =
        ((w.table.matching tokens).filter (·.queueGroup = none)).map
            (fun s => (none, frame.msg s.sid, w.lookup s.connId)) ++
          picks.map fun p => (some p.1, frame.msg p.2.2, w.lookup p.2.1) := by
  obtain ⟨w'', new, hw'', hnew, -, -, hmap⟩ :=
    dispatchLocal_attempts hparse hready.1 fun s hs => (hready.2 s hs).1
  obtain rfl : w'' = w' := Except.ok.inj (hw''.symm.trans h)
  obtain ⟨picks, hnodup, hnames, -, heq⟩ := deliveries_spec w.rng (w.table.matching tokens)
  refine ⟨picks, new, hnodup, hnames, hnew, ?_⟩
  have hready' : ∀ d ∈ deliveries w.rng (w.table.matching tokens), ∃ target,
      w.lookup d.2.1 = some target ∧ target < w.conns.length := by
    intro d hd
    obtain ⟨s, hs, -, hentry⟩ := mem_of_mem_deliveries hd
    rw [← hentry]
    exact (hready.2 s hs).2
  have hall : ∀ ds : List (Option Bytes × Snapshot), (∀ d ∈ ds, ∃ target,
      w.lookup d.2.1 = some target ∧ target < w.conns.length) →
      (ds.filterMap fun d => (w.registered d.2.1).map fun target =>
        (d.1, target, frame.msg d.2.2, encode (frame.msg d.2.2))).map
          (fun a => (a.1, a.2.2.1, some a.2.1)) =
        ds.map fun d => (d.1, frame.msg d.2.2, w.lookup d.2.1) := by
    intro ds hds
    induction ds with
    | nil => rfl
    | cons d ds ih =>
        obtain ⟨target, hlookup, htarget⟩ := hds d List.mem_cons_self
        have hreg : w.registered d.2.1 = some target := registered_eq_some.mpr ⟨hlookup, htarget⟩
        rw [List.filterMap_cons, hreg, List.map_cons, ← ih fun d' hd' =>
          hds d' (List.mem_cons_of_mem _ hd'), hlookup]
        rfl
  have hview : new.map (fun o => (o.group, o.frame, some o.target)) =
      (new.map Offer.attempt).map fun a => (a.1, a.2.2.1, some a.2.1) := by
    rw [List.map_map]
    rfl
  rw [hview, hmap, hall _ hready', heq, List.map_append, List.map_map, List.map_map]
  rfl

/-- A dispatch on a worker that is ready, with one matching subscription, makes one offer. -/
lemma single_dispatchLocal {frame : PublishedFrame} {tokens : List Bytes}
    (hparse : parsePublisherSubject frame.subject = .ok tokens) {w w' : Worker}
    (hready : w.Ready frame tokens) (h : w.dispatchLocal frame = .ok w') {s : Sub}
    (hs : w.table.matching tokens = [s]) :
    ∃ o, w'.offers = w.offers ++ [o] ∧ o.frame = frame.msg s.sid ∧
      o.bytes = encode (frame.msg s.sid) ∧ o.group = s.queueGroup ∧
      w.lookup s.connId = some o.target := by
  obtain ⟨picks, new, hnodup, hnames, hnew, hmap⟩ := offers_dispatchLocal hparse hready h
  rw [hs] at hnames hmap
  have hlen : new.length = 1 := by
    have hlen := congrArg List.length hmap
    rw [List.length_map, List.length_append, List.length_map, List.length_map] at hlen
    cases hq : s.queueGroup with
    | none =>
        have hpicks : picks.map (·.1) = [] := List.eq_nil_iff_forall_not_mem.mpr fun g hg => by
          simp [hnames, hq] at hg
        rw [hlen, List.map_eq_nil_iff.mp hpicks]
        simp [hq]
    | some g =>
        have hpicks : (picks.map (·.1)).Perm [g] :=
          (List.perm_ext_iff_of_nodup hnodup (by simp)).mpr fun g' => by
            simp [hnames, hq, eq_comm]
        have hone : picks.length = 1 := by simpa using hpicks.length_eq
        rw [hlen, hone]
        simp [hq]
  obtain ⟨o, rfl⟩ := List.length_eq_one_iff.mp hlen
  obtain ⟨-, new, hnew', hP, -⟩ := extends_dispatchLocal hparse h
  obtain rfl : new = [o] := List.append_cancel_left (hnew'.symm.trans hnew)
  obtain ⟨s', hs', ho⟩ := hP o (List.mem_singleton_self o)
  rw [hs, List.mem_singleton] at hs'
  exact ⟨o, hnew, hs' ▸ ho⟩

/-- The offers to the members of a group are counted by their groups. -/
lemma countP_group (os : List Offer) (g : Bytes) :
    os.countP (·.group = some g) = (os.map (·.group)).count (some g) := by
  rw [List.count, List.countP_map]
  exact List.countP_congr fun o _ => by simp

/-- The message of the publication for every matching member of a group reaches a connection: it
fits the scratch buffer, and the member's connection is registered. A message that does not fit is
skipped, so that the group whose member was picked gets none. -/
def GroupsReady (w : Worker) (frame : PublishedFrame) (tokens : List Bytes) : Prop :=
  ∀ s ∈ w.table.matching tokens, s.queueGroup ≠ none →
    (encode (frame.msg s.sid)).length ≤ w.emitScratch.length ∧
      ∃ target, w.lookup s.connId = some target ∧ target < w.conns.length

/-- What is asked of all subscriptions is asked of those with a group. -/
lemma Ready.groups {w : Worker} {frame : PublishedFrame} {tokens : List Bytes}
    (h : w.Ready frame tokens) : w.GroupsReady frame tokens :=
  fun s hs _ => h.2 s hs

/-- A dispatch makes exactly one offer on behalf of each group with a matching member, and none on
behalf of any other group, whatever comes of the subscriptions without a group. -/
theorem groups_dispatchLocal {frame : PublishedFrame} {tokens : List Bytes}
    (hparse : parsePublisherSubject frame.subject = .ok tokens) {w w' : Worker}
    (hword : w.emitScratch.length < wordMod) (hready : w.GroupsReady frame tokens)
    (h : w.dispatchLocal frame = .ok w') :
    ∃ new, w'.offers = w.offers ++ new ∧ ∀ g, new.countP (·.group = some g) =
      if ∃ s ∈ w.table.matching tokens, s.queueGroup = some g then 1 else 0 := by
  rw [dispatchLocal_deliveries hparse] at h
  cases h
  obtain ⟨new, hnew, hattempts⟩ :=
    offers_deliverAll frame (deliveries w.rng (w.table.matching tokens)) hword
  obtain ⟨picks, hnodup, hnames, hpicks, hds⟩ := deliveries_spec w.rng (w.table.matching tokens)
  refine ⟨new, hnew, fun g => ?_⟩
  have hgroups : new.map (·.group) = (deliveries w.rng (w.table.matching tokens)).filterMap
      fun d => (w.reaches frame d.2).map fun _ => d.1 := by
    have hfst := congrArg (List.map (·.1)) hattempts
    rw [List.map_map, List.map_filterMap] at hfst
    simp only [Option.map_map] at hfst
    exact hfst
  -- every pick is a member of its group, and so its message reaches a connection
  have hreached : (picks.map fun p => (some p.1, p.2)).filterMap
      (fun d : Option Bytes × Snapshot => (w.reaches frame d.2).map fun _ => d.1) =
        (picks.map (·.1)).map some := by
    rw [List.filterMap_map, List.map_map, ← List.filterMap_eq_map]
    refine List.filterMap_congr fun p hp => ?_
    obtain ⟨s, hs, hgroup, hentry⟩ := mem_grouped.mp (hpicks p hp)
    obtain ⟨hfit, target, hlookup, htarget⟩ := hready s hs (by simp [hgroup])
    have hreaches : w.reaches frame p.2 = some target := by
      rw [← hentry, reaches_of_le hfit, registered_eq_some]
      exact ⟨hlookup, htarget⟩
    simp [hreaches]
  have hplain : some g ∉ (((w.table.matching tokens).filter (·.queueGroup = none)).map
      fun s => ((none : Option Bytes), (s.connId, s.sid))).filterMap
        fun d => (w.reaches frame d.2).map fun _ => d.1 := by
    simp
  rw [countP_group, hgroups, hds, List.filterMap_append, hreached, List.count_append,
    List.count_eq_zero.mpr hplain, Nat.zero_add,
    List.count_map_of_injective _ _ (Option.some_injective _), hnodup.count]
  simp only [hnames g]

end Worker

end Aulon.Server
