import Aulon.Server.Dispatch
import Aulon.Server.Publishing

/-!
# Subscriptions that stand

A client that subscribes to a subject once, without a queue group, and then leaves the sid alone has
one entry in the trie of its shard, for as long as the connection is there. Every publication that
the shard dispatches from then on, and that matches, brings the client one message under the sid:
none is lost, none comes twice, and none is out of order.

* `Book.Stands` — the entry of such a subscription; it is there until its connection closes.
* `Worker.offered_dispatchLocal` — what one dispatch brings to it.
* `stands_run`, `brings_run` — it stands, and what the dispatches of a run bring to it.
* `standing_subscription` — what the client has got in the end.
-/

namespace Aulon.Server

open Aulon.Lib Aulon.Core Aulon.Proto

variable {B : FixedBufPool} {n : ℕ}

/-- Does the operation concern the sid of the connection? -/
def BookOp.touches (r : ConnRef) (sid : Bytes) : BookOp → Prop
  | .sub r' _ _ sid' | .unsub r' sid' => r' = r ∧ sid' = sid
  | .close r' => r' = r
  | .keep | .accept _ => False

namespace Book

/-- Connection `r`, whose id is `id`, is registered, and of the entries with its id and `sid` there
is exactly one, under `pattern` and without a queue group. -/
structure Stands (k : Book) (r : ConnRef) (id : ConnectionId) (sid : Bytes)
    (pattern : List Token) : Prop where
  ids : k.ids[r]? = some id
  registered : k.registered id = some r
  entries : ∀ q, (k.entries q).filter (fun s => s.connId = id ∧ s.sid = sid) =
    if q = pattern then [⟨id, sid, none⟩] else []

variable {k : Book} {op : BookOp} {r : ConnRef} {id : ConnectionId} {sid : Bytes}
  {pattern : List Token}

/-- Where ids are distinct, another connection has another id. -/
lemma id_ne (hdistinct : k.ids.Nodup) (hid : k.ids[r]? = some id) {r' : ConnRef}
    {id' : ConnectionId} {subjects : Bytes → Option Bytes}
    (hr' : k.readers[r']? = some (id', subjects)) (hne : r' ≠ r) : id' ≠ id := by
  rintro rfl
  have hlt := (List.getElem?_eq_some_iff.mp (ids_of_readers hr')).1
  exact hne ((List.getElem?_inj hlt hdistinct).mp ((ids_of_readers hr').trans hid.symm))

/-- Connections stay registered until they close. -/
lemma registered_of_ne (hdistinct : (k.apply op).ids.Nodup) (hid : k.ids[r]? = some id)
    (h : k.registered id = some r) (hop : op ≠ .close r) :
    (k.apply op).registered id = some r := by
  have hids := nodup_ids_of_apply hdistinct
  cases op with
  | keep => exact h
  | accept granted =>
      cases granted with
      | false => exact h
      | true =>
          rw [ids_apply, List.nodup_append] at hdistinct
          have hne : id ≠ ⟨k.nextId⟩ :=
            hdistinct.2.2 id (List.mem_of_getElem? hid) _ (List.mem_singleton_self _)
          exact (Function.update_of_ne hne _ _).trans h
  | sub r' subject queueGroup sid' =>
      rw [Book.apply]
      split
      · exact h
      · exact h
  | unsub r' sid' =>
      rw [Book.apply]
      split
      · exact h
      · exact h
  | close r' =>
      have hr' : r' ≠ r := fun heq => hop (by rw [heq])
      rw [Book.apply]
      split
      · rename_i id' subjects hreaders
        exact (Function.update_of_ne (id_ne hids hid hreaders hr').symm _ _).trans h
      · exact h

/-- A removal leaves the entries alone that it does not select. -/
lemma filter_remove {entries : List Token → List Sub} {id' : ConnectionId}
    {subjects : Bytes → Option Bytes} (h : id' = id → subjects sid = none) (q : List Token) :
    (remove entries id' subjects q).filter (fun s => s.connId = id ∧ s.sid = sid) =
      (entries q).filter fun s => s.connId = id ∧ s.sid = sid := by
  unfold remove
  rw [List.filter_filter]
  refine List.filter_congr fun s _ => ?_
  by_cases hs : s.connId = id ∧ s.sid = sid
  · obtain ⟨rfl, rfl⟩ := hs
    by_cases hid : id' = s.connId
    · simp [h hid]
    · simp [Ne.symm hid]
  · simp [hs]

/-- A subscription stands until its sid is used again or its connection closes. -/
lemma Stands.apply (h : k.Stands r id sid pattern) (hdistinct : (k.apply op).ids.Nodup)
    (hop : ¬ BookOp.touches r sid op) : (k.apply op).Stands r id sid pattern := by
  have hids := nodup_ids_of_apply hdistinct
  have hclose : op ≠ .close r := by
    rintro rfl
    exact hop rfl
  refine ⟨getElem?_ids_apply h.ids op, registered_of_ne hdistinct h.ids h.registered hclose, ?_⟩
  cases op with
  | keep => exact h.entries
  | accept granted => cases granted <;> exact h.entries
  | sub r' subject queueGroup sid' =>
      rw [Book.apply]
      split
      · rename_i id' subjects pattern' hreaders hpattern
        intro q
        have hnew : ¬ (id' = id ∧ sid' = sid) := by
          rintro ⟨rfl, rfl⟩
          by_cases hr' : r' = r
          · exact hop ⟨hr', rfl⟩
          · exact id_ne hids h.ids hreaders hr' rfl
        unfold Book.subscribe
        dsimp only
        by_cases hq : q = pattern'
        · subst hq
          rw [Function.update_self, List.filter_append, h.entries q]
          simp [hnew]
        · rw [Function.update_of_ne hq]
          exact h.entries q
      · exact h.entries
  | unsub r' sid' =>
      rw [Book.apply]
      split
      · rename_i id' subjects hreaders
        have hselect : id' = id → (if sid = sid' then subjects sid' else none) = none := by
          intro hid
          have hr' : r' = r := by
            by_contra hr'
            exact id_ne hids h.ids hreaders hr' hid
          exact if_neg fun hsid => hop ⟨hr', hsid.symm⟩
        intro q
        dsimp only
        rw [filter_remove hselect, h.entries]
      · exact h.entries
  | close r' =>
      have hr' : r' ≠ r := fun heq => hop heq
      rw [Book.apply]
      split
      · rename_i id' subjects hreaders
        intro q
        exact (filter_remove (fun hid => absurd hid (id_ne hids h.ids hreaders hr')) q).trans
          (h.entries q)
      · exact h.entries

/-- A subscription with a sid that has no entries yet stands. -/
lemma Lacks.stands (h : k.Lacks r sid) {subjects : Bytes → Option Bytes}
    (hreaders : k.readers[r]? = some (id, subjects)) (hregistered : k.registered id = some r)
    {subject : Bytes} (hpattern : patternOf subject = some pattern) :
    (k.apply (.sub r subject none sid)).Stands r id sid pattern := by
  have hnone : ∀ q, (k.entries q).filter (fun s => s.connId = id ∧ s.sid = sid) = [] := by
    intro q
    rw [List.filter_eq_nil_iff]
    intro s hs hsel
    obtain ⟨hid, hsid⟩ := of_decide_eq_true hsel
    exact h id (ids_of_readers hreaders) q s hs hid hsid
  refine ⟨getElem?_ids_apply (ids_of_readers hreaders) _, ?_, fun q => ?_⟩
  · simp only [Book.apply, hreaders, hpattern]
    exact hregistered
  · simp only [Book.apply, hreaders, hpattern, Book.subscribe]
    by_cases hq : q = pattern
    · subst hq
      rw [Function.update_self, List.filter_append, hnone]
      simp
    · rw [Function.update_of_ne hq, hnone, if_neg hq]

/-- Of the entries that match, one is of the subscription, if its pattern matches. -/
lemma Stands.filter_matching (h : k.Stands r id sid pattern) (tokens : List Bytes) :
    ((matchingPatterns tokens).flatMap k.entries).filter (fun s => s.connId = id ∧ s.sid = sid) =
      if Matches pattern tokens then [⟨id, sid, none⟩] else [] := by
  rw [List.filter_flatMap]
  simp only [h.entries]
  rw [flatMap_ite_of_nodup (nodup_matchingPatterns tokens)]
  simp only [mem_matchingPatterns]

end Book

/-! ## What a dispatch brings -/

/-- Is it a message with this sid? -/
def isMsgFor (sid : Bytes) : Frame → Bool
  | .msg _ sid' _ _ => sid' = sid
  | _ => false

/-- The messages for a sid. -/
lemma isMsgFor_msg (sid : Bytes) (frame : PublishedFrame) (sid' : Bytes) :
    isMsgFor sid (frame.msg sid') = decide (sid' = sid) := rfl

namespace Worker

variable {w w' : Worker} {r : ConnRef} {id : ConnectionId} {sid : Bytes} {pattern : List Token}

/-- One delivery brings the message to the connection if it is for its id and sid, and fits the
scratch. -/
lemma offered_deliver (hsound : w.book.Sound) (hstands : w.book.Stands r id sid pattern)
    (hword : w.emitScratch.length < wordMod) (frame : PublishedFrame) (group : Option Bytes)
    (entry : Snapshot) : offered (isMsgFor sid) r (w.deliver frame group entry).offers =
      offered (isMsgFor sid) r w.offers ++ if entry = (id, sid) ∧
        (encode (frame.msg sid)).length ≤ w.emitScratch.length then [frame.msg sid] else [] := by
  have hlookup : w.lookup id = some r := hstands.registered
  have hlt : r < w.conns.length := by
    have hlt := (List.getElem?_eq_some_iff.mp hstands.ids).1
    rwa [ids_book, Worker.ids, List.length_map] at hlt
  by_cases hfit : (encode (frame.msg entry.2)).length ≤ w.emitScratch.length
  · obtain ⟨new, hnew, hattempts⟩ := offers_deliver frame entry hfit hword group
    rw [hnew, offered_append]
    refine congrArg _ ?_
    cases hregistered : w.registered entry.1 with
    | none =>
        rw [hregistered] at hattempts
        obtain rfl := List.map_eq_nil_iff.mp hattempts
        rw [if_neg]
        · rfl
        · rintro ⟨rfl, -⟩
          rw [registered_eq_some.mpr ⟨hlookup, hlt⟩] at hregistered
          cases hregistered
    | some target =>
        rw [hregistered] at hattempts
        obtain ⟨o, rfl, ho⟩ := List.map_eq_singleton_iff.mp hattempts
        obtain ⟨-, htarget, hframe, -⟩ : o.group = group ∧ o.target = target ∧
            o.frame = frame.msg entry.2 ∧ o.bytes = encode (frame.msg entry.2) := by
          simpa only [Offer.attempt, Prod.mk.injEq] using ho
        have hown : target = r ↔ entry.1 = id := by
          have hentry := (registered_eq_some.mp hregistered).1
          constructor
          · rintro rfl
            have hid := hsound.registered entry.1 target hentry
            exact Option.some.inj (hid.symm.trans hstands.ids)
          · intro hid
            rw [hid] at hentry
            exact Option.some.inj (hentry.symm.trans hlookup)
        by_cases hentry : entry = (id, sid)
        · subst hentry
          rw [if_pos ⟨rfl, hfit⟩]
          simp [offered, htarget, hown.mpr rfl, hframe, isMsgFor_msg]
        · rw [if_neg fun h => hentry h.1]
          refine offered_eq_nil fun o' ho' htarget' => ?_
          obtain rfl := List.mem_singleton.mp ho'
          rw [hframe, isMsgFor_msg]
          exact decide_eq_false fun hsid =>
            hentry (Prod.ext (hown.mp (htarget.symm.trans htarget')) hsid)
  · obtain ⟨-, new, hnew, hnone, -⟩ := extends_deliver w frame group entry
    rw [hnew, offered_append, if_neg]
    · refine congrArg _ (offered_eq_nil fun o ho _ => absurd ?_ hfit)
      obtain ⟨-, hbytes, -, -, hlength⟩ := hnone o ho
      rwa [hbytes] at hlength
    · rintro ⟨rfl, hfit'⟩
      exact hfit hfit'

/-- Deliveries offer the message under the sid of a subscription that stands once for each time it
is among them, if it fits. -/
lemma offered_deliverAll (frame : PublishedFrame) (ds : List (Option Bytes × Snapshot))
    (hsound : w.book.Sound) (hstands : w.book.Stands r id sid pattern)
    (hword : w.emitScratch.length < wordMod) :
    offered (isMsgFor sid) r (w.deliverAll frame ds).offers = offered (isMsgFor sid) r w.offers ++
      ds.flatMap fun d => if d.2 = (id, sid) ∧
        (encode (frame.msg sid)).length ≤ w.emitScratch.length then [frame.msg sid] else [] := by
  induction ds generalizing w with
  | nil => exact (List.append_nil _).symm
  | cons d ds ih =>
      have hcore := (extends_deliver w frame d.1 d.2).core
      have hlen := scratch_of_core hcore
      have hbook := book_of_core hcore
      have hrest := ih (hbook ▸ hsound) (hbook ▸ hstands) (hlen ▸ hword)
      rw [hlen, offered_deliver hsound hstands hword, List.append_assoc] at hrest
      rw [deliverAll, List.foldl_cons, List.flatMap_cons]
      exact hrest

/-- The deliveries of a dispatch that are for the id and the sid: one, if the pattern matches. -/
lemma filter_deliveries (hstands : w.book.Stands r id sid pattern) (rng : UInt64)
    (tokens : List Bytes) :
    (deliveries rng (w.table.matching tokens)).filter (fun d => d.2 = (id, sid)) =
      if Matches pattern tokens then [(none, (id, sid))] else [] := by
  have hsubs : (w.table.matching tokens).filter (fun s => s.connId = id ∧ s.sid = sid) =
      if Matches pattern tokens then [⟨id, sid, none⟩] else [] :=
    hstands.filter_matching tokens
  obtain ⟨picks, -, -, hpicks, hds⟩ := deliveries_spec rng (w.table.matching tokens)
  -- no entry with the id and the sid is in a group
  have hnone : (picks.map fun p => (some p.1, p.2)).filter (fun d => d.2 = (id, sid)) = [] := by
    rw [List.filter_eq_nil_iff]
    intro d hd hsel
    obtain ⟨p, hp, rfl⟩ := List.mem_map.mp hd
    obtain ⟨s, hs, hgroup, hentry⟩ := mem_grouped.mp (hpicks p hp)
    rw [of_decide_eq_true hsel] at hentry
    obtain ⟨hid, hsid⟩ := Prod.mk.inj hentry
    have hmem : s ∈ (w.table.matching tokens).filter (fun s => s.connId = id ∧ s.sid = sid) :=
      List.mem_filter.mpr ⟨hs, decide_eq_true ⟨hid, hsid⟩⟩
    rw [hsubs] at hmem
    split_ifs at hmem
    · rw [List.mem_singleton.mp hmem] at hgroup
      cases hgroup
    · cases hmem
  have hplain : ((w.table.matching tokens).filter (·.queueGroup = none)).filter
      ((fun d : Option Bytes × Snapshot => decide (d.2 = (id, sid))) ∘
        fun s => (none, (s.connId, s.sid))) =
      ((w.table.matching tokens).filter (fun s => s.connId = id ∧ s.sid = sid)).filter
        (·.queueGroup = none) := by
    rw [List.filter_filter, List.filter_filter]
    refine List.filter_congr fun s _ => ?_
    simp [Bool.and_comm]
  rw [hds, List.filter_append, hnone, List.append_nil, List.filter_map, hplain, hsubs]
  split_ifs <;> rfl

/-- **What a dispatch brings to a subscription that stands**: one message, if the pattern matches
the subject and the message fits the scratch buffer, and else none. -/
lemma offered_dispatchLocal (hsound : w.book.Sound) (hstands : w.book.Stands r id sid pattern)
    (hword : w.emitScratch.length < wordMod) {frame : PublishedFrame} {tokens : List Bytes}
    (hparse : parsePublisherSubject frame.subject = .ok tokens)
    (h : w.dispatchLocal frame = .ok w') : offered (isMsgFor sid) r w'.offers =
      offered (isMsgFor sid) r w.offers ++ if Matches pattern tokens ∧
        frame.msgLength sid ≤ w.emitScratch.length then [frame.msg sid] else [] := by
  rw [dispatchLocal_deliveries hparse] at h
  obtain rfl := Except.ok.inj h
  dsimp only
  rw [offered_deliverAll frame _ hsound hstands hword, ← length_encode_msg]
  refine congrArg _ ?_
  by_cases hfits : (encode (frame.msg sid)).length ≤ w.emitScratch.length
  · have hcount : ∀ ds : List (Option Bytes × Snapshot),
        ds.flatMap (fun d => if d.2 = (id, sid) then [frame.msg sid] else []) =
          (ds.filter (fun d => d.2 = (id, sid))).map fun _ => frame.msg sid := by
      intro ds
      induction ds with
      | nil => rfl
      | cons d ds ih =>
          rw [List.flatMap_cons, ih]
          by_cases hd : d.2 = (id, sid) <;> simp [hd]
    simp only [hfits, and_true]
    rw [hcount, filter_deliveries hstands]
    split_ifs <;> rfl
  · simp [hfits]

end Worker

/-! ## Runs of the broker -/

/-- Does a frame of a client use this sid? -/
def mentions (sid : Bytes) : Frame → Bool
  | .sub _ _ sid' | .unsub sid' _ => sid' = sid
  | _ => false

section broker

variable {capacity : ℕ} {as : List (Action n)} {b b' : Broker n} {a : Action n} {i : Fin n}
  {r : ConnRef} {id : ConnectionId} {sid : Bytes} {pattern : List Token}

/-- What uses the sid of a connection is a frame of its client, or the end of its reader. -/
lemma mentions_of_touches (h : BookOp.touches r sid (a.bookOp i)) :
    (∃ f, a.frameOf i r = some f ∧ mentions sid f = true) ∨
      ∃ order, a = .task i (.exit r order) := by
  unfold Action.bookOp at h
  split at h
  · rename_i j t
    split_ifs at h with hj
    · subst hj
      unfold Task.bookOp at h
      split at h
      · cases h
      · rename_i r' subject queueGroup sid'
        obtain ⟨rfl, rfl⟩ := h
        exact Or.inl ⟨.sub subject queueGroup sid', by simp [Action.frameOf], by simp [mentions]⟩
      · rename_i r' sid'
        obtain ⟨rfl, rfl⟩ := h
        exact Or.inl ⟨.unsub sid' none, by simp [Action.frameOf], by simp [mentions]⟩
      · rename_i r' order
        obtain rfl : r' = r := h
        exact Or.inr ⟨order, rfl⟩
      · cases h
    · cases h
  · cases h

/-- The frame that an action handles is that of a reader. -/
lemma Action.eq_of_frameOf {f : Frame} (h : a.frameOf i r = some f) :
    a = .task i (.frame r f) := by
  unfold Action.frameOf at h
  split at h
  · split_ifs at h with hown
    obtain ⟨rfl, rfl⟩ := hown
    rw [Option.some.inj h]
  · cases h

/-- A reader that ends has finished. -/
lemma finished_of_exit {order : List (Sigma fun _ : Bytes => Bytes)}
    (hstep : step b (.task i (.exit r order)) = some b') :
    (b'.shards i).worker.Finished r := by
  obtain ⟨-, s, hrun, -⟩ := step_eq_some hstep
  obtain ⟨c, hc, -⟩ := Shard.run_eq_some hrun
  obtain ⟨new, -, hmoves⟩ := step_conn hstep i
  obtain ⟨state, c', -, hc', -, hreader⟩ := hmoves r c hc
  rw [Worker.Finished, List.getElem?_map, hc', Option.map_some, hreader]
  simp [Action.readerAfter]

/-- A reader that has finished stays so. -/
lemma finished_run (hrun : run step b as = some b') (h : (b.shards i).worker.Finished r) :
    (b'.shards i).worker.Finished r :=
  run_invariant (I := fun b : Broker n => (b.shards i).worker.Finished r)
    (fun _ _ _ h hstep => (finished_step hstep h).1) h hrun

/-- The map of connections has an entry for each live one, as long as ids are distinct. -/
lemma identified_run (hrun : run step (Broker.init n capacity) as = some b)
    (hnew : Meets step (fun b a => b.TakesNewId i a) (Broker.init n capacity) as) :
    (b.shards i).worker.Identified := by
  refine run_invariant_of (I := fun b : Broker n => (b.shards i).worker.Identified) ?_ ?_ hnew hrun
  · intro b a b' h ha hstep
    rcases step_cases hstep i with ⟨t, rfl, hs⟩ | ⟨-, hext⟩
    · refine Shard.identified_run h hs ?_
      rintro rfl
      exact ha.takesFreeId (by simp [Action.accepts])
    · exact h.of_core hext.core
  · intro id r
    simp [Broker.init, Worker.new, Worker.lookup, Worker.idents]

/-- A sid that no frame of the connection has used has no entries. -/
lemma lacks_run (hrun : run step (Broker.init n capacity) as = some b)
    (hdistinct : (b.shards i).worker.ids.Nodup)
    (hunused : (framesOf i r as).filter (mentions sid) = []) :
    (b.shards i).worker.book.Lacks r sid := by
  refine run_history (I := fun as (b : Broker n) => (b.shards i).worker.book.ids.Nodup →
    (framesOf i r as).filter (mentions sid) = [] → (b.shards i).worker.book.Lacks r sid)
    ?_ ?_ hrun (by rwa [Worker.ids_book]) hunused
  · intro _ _ id hid
    rw [book_init] at hid
    cases hid
  · intro as b a b' hrun ih hstep hdistinct hunused
    rw [framesOf_append, List.filter_append, List.append_eq_nil_iff] at hunused
    rw [book_step hstep i] at hdistinct ⊢
    refine (ih (Book.nodup_ids_of_apply hdistinct) hunused.1).apply (sound_book hrun i) hdistinct
      fun subject queueGroup hop => ?_
    rw [eq_of_bookOp_eq_sub hop] at hunused
    simp [framesOf, Action.frameOf, mentions] at hunused

/-- An action that does not use the sid and does not end the reader leaves a subscription
standing. -/
lemma stands_step (hstep : step b a = some b') (hdistinct : (b'.shards i).worker.ids.Nodup)
    (hlive : ¬ (b'.shards i).worker.Finished r)
    (hunused : (a.frameOf i r).toList.filter (mentions sid) = [])
    (h : (b.shards i).worker.book.Stands r id sid pattern) :
    (b'.shards i).worker.book.Stands r id sid pattern := by
  rw [← Worker.ids_book, book_step hstep i] at hdistinct
  rw [book_step hstep i]
  refine h.apply hdistinct fun htouches => ?_
  rcases mentions_of_touches htouches with ⟨f, hframe, hmentions⟩ | ⟨order, rfl⟩
  · rw [hframe] at hunused
    simp [hmentions] at hunused
  · exact hlive (finished_of_exit hstep)

/-- A connection whose client has used a sid once, to subscribe to a valid pattern without a queue
group, has a subscription that stands. -/
lemma stands_run (hrun : run step (Broker.init n capacity) as = some b)
    (hfew : as.countP (·.takesId i) ≤ 2 ^ 32)
    (hlive : ¬ (b.shards i).worker.Finished r) {subject : Bytes}
    (hpattern : patternOf subject = some pattern)
    (honce : (framesOf i r as).filter (mentions sid) = [.sub subject none sid]) :
    ∃ id, (b.shards i).worker.book.Stands r id sid pattern := by
  refine run_history (I := fun as (b : Broker n) => as.countP (·.takesId i) ≤ 2 ^ 32 →
    ¬ (b.shards i).worker.Finished r →
    (framesOf i r as).filter (mentions sid) = [.sub subject none sid] →
    ∃ id, (b.shards i).worker.book.Stands r id sid pattern) ?_ ?_ hrun hfew hlive honce
  · intro _ _ honce
    cases honce
  · intro as b a b' hrun ih hstep hfew hlive honce
    have hrun' : run step (Broker.init n capacity) (as ++ [a]) = some b' :=
      run_append_eq_some.mpr ⟨b, hrun, run_cons_eq_some.mpr ⟨b', hstep, rfl⟩⟩
    have hdistinct := nodup_ids_of_new hrun' (takesNewId_of_few hfew)
    have hfew' : as.countP (·.takesId i) ≤ 2 ^ 32 := by
      rw [List.countP_append] at hfew
      omega
    rw [framesOf_append, framesOf_singleton, List.filter_append,
      List.append_eq_singleton_iff] at honce
    rcases honce with ⟨hunused, hsub⟩ | ⟨honce, hunused⟩
    · -- this is the subscription
      have hmem : Frame.sub subject none sid ∈ (a.frameOf i r).toList :=
        List.mem_of_mem_filter (hsub ▸ List.mem_singleton_self _)
      obtain rfl := Action.eq_of_frameOf (Option.mem_toList.mp hmem)
      obtain ⟨-, s, hs, -⟩ := step_eq_some hstep
      obtain ⟨c, hc, hreader, -⟩ := Shard.run_eq_some hs
      have hlookup : (b.shards i).worker.lookup c.state.id = some r :=
        (identified_run hrun (takesNewId_of_few hfew') c.state.id r).mpr
          (Worker.getElem?_idents_eq_some.mpr ⟨c, hc, by simp [Connection.live, hreader], rfl⟩)
      have hlacks := lacks_run hrun (nodup_ids_of_new hrun (takesNewId_of_few hfew')) hunused
      have hbook := book_step hstep i
      simp only [Action.bookOp, Task.bookOp, if_true] at hbook
      rw [hbook]
      exact ⟨_, hlacks.stands (Worker.readers_book hc) hlookup hpattern⟩
    · obtain ⟨id, hstands⟩ := ih hfew'
        (fun hfinished => hlive (finished_step hstep hfinished).1) honce
      exact ⟨id, stands_step hstep hdistinct hlive hunused hstands⟩

/-- Does the dispatch bring a message under the sid to a subscription to the pattern? -/
def Dispatch.reaches (pattern : List Token) (sid : Bytes) (d : Dispatch n) : Bool :=
  d.error = none ∧ (parsePublisherSubject d.parcel.frame.subject).toOption.any (Matches pattern) ∧
    d.parcel.frame.msgLength sid ≤ emitScratchCapacity

/-- What is no message is none for a sid. -/
lemma isMsgFor_of_isMsg {f : Frame} (h : isMsg f = false) (sid : Bytes) :
    isMsgFor sid f = false := by
  cases f with
  | msg => cases h
  | _ => rfl

/-- The frames that a list of dispatches brings to a subscription that stands. -/
def reached (pattern : List Token) (sid : Bytes) (ds : List (Dispatch n)) : List Frame :=
  (ds.filter (·.reaches pattern sid)).map (·.parcel.frame.msg sid)

/-- What two lists of dispatches bring. -/
lemma reached_append (pattern : List Token) (sid : Bytes) (ds ds' : List (Dispatch n)) :
    reached pattern sid (ds ++ ds') = reached pattern sid ds ++ reached pattern sid ds' := by
  simp only [reached, List.filter_append, List.map_append]

/-- A dispatch that does not fail reaches a subscription if the pattern matches and the message
fits. -/
lemma reached_singleton {parcel : Parcel n} {tokens : List Bytes} (drained : Bool)
    (hparse : parsePublisherSubject parcel.frame.subject = .ok tokens) :
    reached pattern sid [⟨parcel, drained, none⟩] = if Matches pattern tokens ∧
      parcel.frame.msgLength sid ≤ emitScratchCapacity then [parcel.frame.msg sid] else [] := by
  by_cases h : Matches pattern tokens = true ∧ parcel.frame.msgLength sid ≤ emitScratchCapacity
  · rw [if_pos h]
    simp [reached, Dispatch.reaches, hparse, Except.toOption, h]
  · rw [if_neg h]
    rw [not_and] at h
    simpa [reached, Dispatch.reaches, hparse, Except.toOption] using h

/-- Between two states a shard has dispatched and offered under the sid what its dispatches bring to
the subscription. -/
def Shard.Brings (r : ConnRef) (sid : Bytes) (pattern : List Token) (sh sh' : Shard n) : Prop :=
  ∃ new, sh'.dispatches = sh.dispatches ++ new ∧ offered (isMsgFor sid) r sh'.worker.offers =
    offered (isMsgFor sid) r sh.worker.offers ++ reached pattern sid new

namespace Shard.Brings

variable {sh sh' sh'' : Shard n}

/-- Nothing was dispatched between a state and itself. -/
lemma refl (sh : Shard n) : Brings r sid pattern sh sh :=
  ⟨[], (List.append_nil _).symm, (List.append_nil _).symm⟩

/-- What is brought adds up. -/
lemma trans (h : Brings r sid pattern sh sh') (h' : Brings r sid pattern sh' sh'') :
    Brings r sid pattern sh sh'' := by
  obtain ⟨new, hnew, hoffered⟩ := h
  obtain ⟨new', hnew', hoffered'⟩ := h'
  refine ⟨new ++ new', by rw [hnew', hnew, List.append_assoc], ?_⟩
  rw [hoffered', hoffered, reached_append, List.append_assoc]

/-- Where no message is offered, nothing is brought. -/
lemma quiet (hgrows : sh.worker.Grows (fun o => isMsg o.frame = false) sh'.worker)
    {new : List (Dispatch n)} (hdispatches : sh'.dispatches = sh.dispatches ++ new)
    (hnew : reached pattern sid new = []) : Brings r sid pattern sh sh' := by
  obtain ⟨-, -, os, hos, hquiet⟩ := hgrows
  refine ⟨new, hdispatches, ?_⟩
  rw [hos, offered_append, hnew,
    offered_eq_nil fun o ho _ => isMsgFor_of_isMsg (hquiet o ho) sid]

variable (hsound : sh.worker.book.Sound) (hstands : sh.worker.book.Stands r id sid pattern)
  (hscratch : sh.worker.emitScratch.length = emitScratchCapacity)

include hsound hstands hscratch

/-- A dispatch brings its message to a subscription that stands and matches. -/
lemma dispatch {parcel : Parcel n} {drained : Bool}
    (hdispatch : sh.worker.dispatchLocal parcel.frame = .ok sh'.worker)
    (hdispatches : sh'.dispatches = sh.dispatches ++ [⟨parcel, drained, none⟩]) :
    Brings r sid pattern sh sh' := by
  cases hparse : parsePublisherSubject parcel.frame.subject with
  | error e =>
      rw [Worker.dispatchLocal_error hparse] at hdispatch
      cases hdispatch
  | ok tokens =>
      have hword : sh.worker.emitScratch.length < wordMod := by
        rw [hscratch]
        decide
      refine ⟨_, hdispatches, ?_⟩
      rw [reached_singleton drained hparse, ← hscratch]
      exact Worker.offered_dispatchLocal hsound hstands hword hparse hdispatch

/-- So does a `PUB`. -/
lemma handlePub (hidle : sh.activity = .idle) (i : Fin n) (r' : ConnRef) (frame : PublishedFrame) :
    Brings r sid pattern sh (sh.handlePub i r' frame) := by
  obtain ⟨hdispatches, -⟩ := sh.handlePub_spec i r' frame hidle
  dsimp only at hdispatches
  cases hparse : parsePublisherSubject frame.subject with
  | error e =>
      refine quiet (sh.grows_handlePub i r' hparse) hdispatches ?_
      simp [reached, Dispatch.reaches, subjectError, hparse]
  | ok tokens =>
      obtain ⟨worker, hdispatch⟩ := Worker.dispatchLocal_ok hparse sh.worker
      rw [← sh.worker_handlePub i r' hdispatch] at hdispatch
      rw [subjectError, hparse] at hdispatches
      exact dispatch hsound hstands hscratch hdispatch hdispatches

/-- So does a drained frame. -/
lemma dispatchDrained (parcel : Parcel n) :
    Brings r sid pattern sh (sh.dispatchDrained parcel) := by
  unfold Shard.dispatchDrained
  split
  · exact ⟨_, rfl, by simp [reached, Dispatch.reaches]⟩
  · rename_i worker hdispatch
    exact dispatch hsound hstands hscratch hdispatch rfl

end Shard.Brings

/-- One action. -/
lemma brings_step (hstep : step b a = some b') (hsound : (b.shards i).worker.book.Sound)
    (hstands : (b.shards i).worker.book.Stands r id sid pattern)
    (hscratch : (b.shards i).worker.emitScratch.length = emitScratchCapacity) :
    Shard.Brings r sid pattern (b.shards i) (b'.shards i) := by
  rcases step_shard hstep i with
    ⟨t, rfl, hidle, hrun⟩ | ⟨-, ⟨p, hs⟩ | ⟨parcel, -, hs⟩ | ⟨activity, hs⟩⟩
  · rcases Shard.run_cases hrun with ⟨r', subject, replyTo, payload, -, -, -, hs⟩ |
      ⟨-, -, -, hdispatches, hgrows⟩
    · rw [hs]
      exact .handlePub hsound hstands hscratch hidle i r' ⟨subject, replyTo, payload⟩
    · exact .quiet (hgrows.mono fun o ho => isMsg_of_mem_answers ho.1)
        (by rw [hdispatches, List.append_nil]) rfl
  · rw [hs]
    exact .quiet ((b.shards i).grows_finish p) (List.append_nil _).symm rfl
  · rw [hs]
    exact .dispatchDrained hsound hstands hscratch parcel
  · rw [hs]
    exact .refl _

/-- A whole run. -/
lemma brings_run {as' : List (Action n)} (hrun : run step (Broker.init n capacity) as = some b)
    (hrun' : run step b as' = some b') (hdistinct : (b'.shards i).worker.ids.Nodup)
    (hlive : ¬ (b'.shards i).worker.Finished r)
    (hunused : (framesOf i r as').filter (mentions sid) = [])
    (hstands : (b.shards i).worker.book.Stands r id sid pattern) :
    Shard.Brings r sid pattern (b.shards i) (b'.shards i) := by
  refine (run_history (I := fun as' (b' : Broker n) => (b'.shards i).worker.ids.Nodup →
    ¬ (b'.shards i).worker.Finished r → (framesOf i r as').filter (mentions sid) = [] →
    (b'.shards i).worker.book.Stands r id sid pattern ∧
      Shard.Brings r sid pattern (b.shards i) (b'.shards i)) ?_ ?_ hrun' hdistinct hlive hunused).2
  · intro _ _ _
    exact ⟨hstands, .refl _⟩
  · intro as' b₁ a b₂ hrun₁ ih hstep hdistinct hlive hunused
    have hreach := run_append_eq_some.mpr ⟨b, hrun, hrun₁⟩
    rw [framesOf_append, framesOf_singleton, List.filter_append,
      List.append_eq_nil_iff] at hunused
    have hdistinct₁ : (b₁.shards i).worker.ids.Nodup := by
      rw [← Worker.ids_book, book_step hstep i] at hdistinct
      rw [← Worker.ids_book]
      exact Book.nodup_ids_of_apply hdistinct
    obtain ⟨hstands₁, hbrings⟩ := ih hdistinct₁
      (fun hfinished => hlive (finished_step hstep hfinished).1) hunused.1
    exact ⟨stands_step hstep hdistinct hlive hunused.2 hstands₁, hbrings.trans
      (brings_step hstep (sound_book hreach i) hstands₁ (length_emitScratch hreach i))⟩

end broker

/-! ## What the client gets -/

section client

variable {inboxCapacity poolCapacity : ℕ} {es es' : List (Event n)} {s s' : Process B n} {i : Fin n}
  {r : ConnRef} {v v' : View} {sid : Bytes} {pattern : List Token}

/-- The reader of an open connection has not finished. -/
lemma not_finished_of_open
    (hrun : run Process.step (.init n inboxCapacity poolCapacity) es = some s)
    (hv : s.view i r = some v) (hopen : v.Open) : ¬ (s.broker.shards i).worker.Finished r := by
  intro hfinished
  obtain ⟨c, hc, -, hreader⟩ := Process.conn_of_view hv
  rw [Worker.Finished, List.getElem?_map,
    show (s.broker.shards i).worker.conns[r]? = some c from hc, Option.map_some, hreader,
    phased_run hrun hv, hopen.waiting] at hfinished
  cases hfinished

/-- A client subscribes to a subject once, without a queue group, and leaves the sid alone
afterwards. Its `SUB` has been handled in `s`. Whatever all the clients and tasks do from then on,
once the server is at rest the client has got under the sid, unless it has been cut off, what had
been offered to it before, and then one message for each publication that its shard has dispatched
since `s` and that matches, in the order of the dispatches. At most `2 ^ 32` clients have connected
to the shard, so that no two have the same id. -/
theorem standing_subscription
    (hrun : run Process.step (.init n inboxCapacity poolCapacity) es = some s)
    (hrun' : run Process.step s es' = some s')
    (hfew : (es ++ es').countP (·.connects i) ≤ 2 ^ 32) (hrest : s'.AtRest)
    (hv : s.view i r = some v) (hv' : s'.view i r = some v') {subject : Bytes}
    (hpattern : patternOf subject = some pattern) (hsub : .sub subject none sid ∈ v.frames)
    (honce : v'.link.socket.requests.filter (mentions sid) = [.sub subject none sid]) :
    v'.link.socket.shut = true ∨ ∃ fs new,
      parseAll parseFrame v'.link.socket.sent = ⟨fs, [], none⟩ ∧
      (s'.broker.shards i).dispatches = (s.broker.shards i).dispatches ++ new ∧
      (fs.map (·.1)).filter (isMsgFor sid) =
        (v.offers.map (·.frame)).filter (isMsgFor sid) ++ reached pattern sid new := by
  have hall := run_append_eq_some.mpr ⟨s, hrun, hrun'⟩
  rcases Process.open_or_gone_of_atRest hall hrest hv' with hopen | hgone
  · have hlive := not_finished_of_open hall hv' hopen
    obtain ⟨as, htrace, has⟩ := Process.trace_from hrun'
    have hfew' : s'.trace.countP (·.takesId i) ≤ 2 ^ 32 := by rwa [takesId_run hall]
    have hdistinct := nodup_ids_of_new (Process.trace_run hall) (takesNewId_of_few hfew')
    -- the client has used the sid before `s`, so not afterwards
    have hframes : v'.frames = v.frames ++ framesOf i r as := by
      rw [Process.frames_of_view hv', Process.frames_of_view hv, htrace, framesOf_append]
    have hused : v.frames.filter (mentions sid) ≠ [] :=
      List.ne_nil_of_mem (List.mem_filter.mpr ⟨hsub, by simp [mentions]⟩)
    rw [← hopen.handled, hframes, List.filter_append, List.append_eq_singleton_iff] at honce
    obtain ⟨honce, hunused⟩ := honce.resolve_left fun h => hused h.1
    rw [Process.frames_of_view hv] at honce
    have hlive₁ : ¬ (s.broker.shards i).worker.Finished r := fun h => hlive (finished_run has h)
    have hfew₁ : s.trace.countP (·.takesId i) ≤ 2 ^ 32 := by
      rw [htrace, List.countP_append] at hfew'
      omega
    obtain ⟨id, hstands⟩ := stands_run (Process.trace_run hrun) hfew₁ hlive₁ hpattern honce
    obtain ⟨new, hnew, hoffered⟩ :=
      brings_run (Process.trace_run hrun) has hdistinct hlive hunused hstands
    obtain ⟨fs, hparse, hfs⟩ := parseAll_sent_of_open hall hv' hopen
    refine Or.inr ⟨fs, new, hparse, hnew, ?_⟩
    rw [hfs, Process.offers_eq_of_view hv', Process.offers_eq_of_view hv]
    exact hoffered
  · exact Or.inl hgone.shut

/-- A client has subscribed to a subject; it publishes to it, and the server settles. -/
theorem standing_subscription_own_publication :
    ∃ es s s' v v', run Process.step (.initStack 1 4 2) [.connect 0, .start 0 0,
        .send 0 0 (ascii "SUB a 1\r\n"), .read 0 0 9 [], .parse 0 0 []] = some s ∧
      run Process.step s (.send 0 0 (ascii "PUB a 1\r\nx\r\n") :: es) = some s' ∧ s'.AtRest ∧
      s.view 0 0 = some v ∧ s'.view 0 0 = some v' ∧
      (v'.link.socket.shut = true ∨ ∃ fs new,
        parseAll parseFrame v'.link.socket.sent = ⟨fs, [], none⟩ ∧
        (s'.broker.shards 0).dispatches = (s.broker.shards 0).dispatches ++ new ∧
        (fs.map (·.1)).filter (isMsgFor (ascii "1")) =
          (v.offers.map (·.frame)).filter (isMsgFor (ascii "1")) ++
            reached [.literal (ascii "a")] (ascii "1") new) := by
  let start : List (Event 1) := [.connect 0, .start 0 0, .send 0 0 (ascii "SUB a 1\r\n"),
    .read 0 0 9 [], .parse 0 0 []]
  let publish : Event 1 := .send 0 0 (ascii "PUB a 1\r\nx\r\n")
  have hsome : (run Process.step (.initStack 1 4 2) start).bind (fun s =>
      (s.view 0 0).map (·.frames)) = some [.sub (ascii "a") none (ascii "1")] := by decide +kernel
  have hsome₁ : (run Process.step (.initStack 1 4 2) (start ++ [publish])).bind (fun s =>
      (s.view 0 0).map (·.link.socket.stream)) =
        some (ascii "SUB a 1\r\nPUB a 1\r\nx\r\n") := by decide +kernel
  obtain ⟨s, hs, hview⟩ := Option.bind_eq_some_iff.mp hsome
  obtain ⟨v, hv, hframes⟩ := Option.map_eq_some_iff.mp hview
  obtain ⟨s₁, hs₁, hview₁⟩ := Option.bind_eq_some_iff.mp hsome₁
  obtain ⟨v₁, hv₁, hstream₁⟩ := Option.map_eq_some_iff.mp hview₁
  obtain ⟨es, s', v', hclient, -, hes, hrest, hv', hstream⟩ := Process.exists_rest_view hs₁ hv₁
  obtain ⟨t, ht, hpublish⟩ := run_append_eq_some.mp hs₁
  obtain rfl := Option.some.inj (hs.symm.trans ht)
  have hrun' : run Process.step s (publish :: es) = some s' :=
    run_append_eq_some.mpr ⟨s₁, hpublish, hes⟩
  have hfew := countP_connects_append (i := 0) hclient (start ++ [publish])
  rw [List.append_assoc] at hfew
  have honce : v'.link.socket.requests.filter (mentions (ascii "1")) =
      [.sub (ascii "a") none (ascii "1")] := by
    rw [Socket.requests, hstream, hstream₁]
    decide +kernel
  refine ⟨es, s, s', v, v', hs, hrun', hrest, hv, hv', ?_⟩
  exact standing_subscription hs hrun' (hfew.trans_le (by decide)) hrest hv hv' rfl
    (hframes ▸ List.mem_singleton_self _) honce

end client

end Aulon.Server
