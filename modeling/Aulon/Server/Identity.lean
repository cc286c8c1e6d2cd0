import Aulon.Server.Book

/-!
# Connection ids

A connection is live from its accept until its reader has cleaned up. Its id comes from a counter
of 32 bits, which wraps around and also moves on for the connections that are dropped again; and
neither the insert into the map of connections nor the removal from it looks at whose entry is
there.

* `identity_run` — as long as no accept takes the id of a live connection, live connections have
  distinct ids and each has exactly its own entry in the map.
* `identity_shared` — after 2^32 accepts, a connection takes the id of one that is still live.
-/

namespace Aulon.Server

open Aulon.Lib Aulon.Core Aulon.Proto

variable {n : ℕ}

/-- Accepted, and not cleaned up yet. -/
def Connection.live (c : Connection) : Bool := c.reader ≠ .finished

namespace Worker

/-- The id of every connection, and whether it is live. -/
def idents (w : Worker) : List (ConnectionId × Bool) := w.conns.map fun c => (c.state.id, c.live)

/-- The map of connections has an entry for every live connection, under its id, and no other. -/
def Identified (w : Worker) : Prop :=
  ∀ id r, w.lookup id = some r ↔ w.idents[r]? = some (id, true)

variable {w w' : Worker} {r : ConnRef} {c c' : Connection}

/-- The id of a connection, and whether it is live. -/
lemma getElem?_idents_eq_some {id : ConnectionId} {live : Bool} :
    w.idents[r]? = some (id, live) ↔
      ∃ c, w.conns[r]? = some c ∧ c.live = live ∧ c.state.id = id := by
  simp only [idents, List.getElem?_map, Option.map_eq_some_iff, Prod.mk.injEq]
  exact exists_congr fun c => and_congr_right fun _ => and_comm

/-- Only the map of connections and the ids count. -/
lemma Identified.congr (h : w.Identified) (hconnections : w'.connections = w.connections)
    (hidents : w'.idents = w.idents) : w'.Identified := by
  intro id r
  rw [hidents, lookup, hconnections]
  exact h id r

/-- Only the core counts. -/
lemma Identified.of_core (h : w.Identified) (hcore : w'.core = w.core) : w'.Identified := by
  have hidents : ∀ w : Worker, w.idents =
      (w.conns.map Connection.core).map fun k => (k.1, decide (k.2.2 ≠ .finished)) := fun w => by
    rw [idents, List.map_map]
    rfl
  refine h.congr (connections_of_core hcore) ?_
  rw [hidents, hidents, conns_of_core hcore]

/-- Changing a connection that keeps its id and its reader. -/
lemma Identified.set {table : SubscriptionTrie} (h : w.Identified) (hc : w.conns[r]? = some c)
    (hid : c'.state.id = c.state.id) (hreader : c'.reader = c.reader) :
    ({ w with table := table, conns := w.conns.set r c' } : Worker).Identified := by
  refine h.congr rfl ?_
  have hident : w.idents[r]? = some (c'.state.id, c'.live) :=
    getElem?_idents_eq_some.mpr ⟨c, hc, by simp [Connection.live, hreader], hid.symm⟩
  simp only [idents, List.map_set]
  exact set_of_getElem? hident

/-- A reader that goes on leaves its connection live. -/
lemma Identified.setReader (h : w.Identified) (hc : w.conns[r]? = some c)
    (hlive : c.reader ≠ .finished) {status : ReaderStatus} (hstatus : status ≠ .finished) :
    (w.setReader r status).Identified := by
  refine h.congr rfl ?_
  apply List.ext_getElem?
  intro j
  rw [idents, idents, Worker.setReader, List.getElem?_map, List.getElem?_map, List.getElem?_modify]
  by_cases hj : r = j
  · rw [← hj, hc]
    simp [Connection.live, hlive, hstatus]
  · simp [hj]

/-- Accepting a connection with an id that no live connection has. -/
lemma Identified.accept (h : w.Identified)
    (hfree : ∀ c ∈ w.conns, c.live → c.state.id ≠ ⟨w.nextConnId⟩) :
    (w.accept true).Identified := by
  have hidents : (w.accept true).idents = w.idents ++ [(⟨w.nextConnId⟩, true)] := by
    simp [idents, Worker.accept, nextId, Connection.live, ConnectionState.new]
  have hlen : w.idents.length = w.conns.length := List.length_map _
  intro id r
  have hsplit : (w.accept true).idents[r]? = some (id, true) ↔
      w.idents[r]? = some (id, true) ∨ r = w.conns.length ∧ id = ⟨w.nextConnId⟩ := by
    rw [hidents, List.getElem?_append, hlen]
    split_ifs with hr
    · exact (or_iff_left fun h => hr.ne h.1).symm
    · have hnone : w.idents[r]? = none := List.getElem?_eq_none (by omega)
      rw [hnone, List.getElem?_singleton]
      by_cases hr' : r = w.conns.length
      · simp [hr', eq_comm]
      · have hlt : w.conns.length < r := lt_of_le_of_ne (not_lt.mp hr) (Ne.symm hr')
        simp [hr', Nat.sub_ne_zero_of_lt hlt]
  rw [hsplit]
  change (w.connections.insert ⟨w.nextConnId⟩ w.conns.length).lookup id = _ ↔ _
  by_cases hid : id = ⟨w.nextConnId⟩
  · have hnot : w.idents[r]? ≠ some (id, true) := by
      intro hident
      obtain ⟨c, hc, hlive, hcid⟩ := getElem?_idents_eq_some.mp hident
      exact hfree c (List.mem_of_getElem? hc) hlive (hcid.trans hid)
    rw [or_iff_right hnot, hid, AList.lookup_insert, Option.some.injEq]
    exact ⟨fun hr => ⟨hr.symm, rfl⟩, fun hr => hr.1.symm⟩
  · rw [AList.lookup_insert_ne hid, or_iff_left fun hr => hid hr.2]
    exact h id r

/-- The cleanup of a live connection removes its own entry and no other. -/
lemma Identified.lookup_cleanup (h : w.Identified) (hc : w.conns[r]? = some c) (hlive : c.live)
    (order : List (Sigma fun _ : Bytes => Bytes)) {id : ConnectionId} {r' : ConnRef} :
    (w.cleanup r c order).lookup id = some r' ↔ r' ≠ r ∧ w.lookup id = some r' := by
  have hown : w.lookup c.state.id = some r :=
    (h c.state.id r).mpr (getElem?_idents_eq_some.mpr ⟨c, hc, hlive, rfl⟩)
  change (w.connections.erase c.state.id).lookup id = _ ↔ _
  by_cases hid : id = c.state.id
  · rw [hid, AList.lookup_erase, hown, Option.some.injEq]
    exact iff_of_false (by simp) fun hne => hne.1 hne.2.symm
  · rw [AList.lookup_erase_ne hid]
    refine ⟨fun hlookup => ⟨?_, hlookup⟩, fun hlookup => hlookup.2⟩
    rintro rfl
    have hident := (h id r').mp hlookup
    obtain ⟨d, hd, -, hdid⟩ := getElem?_idents_eq_some.mp hident
    obtain rfl : c = d := Option.some.inj (hc.symm.trans hd)
    exact hid hdid.symm

/-- The end of a reader takes its connection out of the map. -/
lemma Identified.cleanup (h : w.Identified) (hc : w.conns[r]? = some c) (hlive : c.live)
    (order : List (Sigma fun _ : Bytes => Bytes)) : (w.cleanup r c order).Identified := by
  have hr : r < w.idents.length := by
    rw [idents, List.length_map]
    exact (List.getElem?_eq_some_iff.mp hc).1
  have hidents : (w.cleanup r c order).idents = w.idents.set r (c.state.id, false) := by
    simp [idents, Worker.cleanup, List.map_set, Connection.live]
  intro id r'
  rw [h.lookup_cleanup hc hlive order, hidents, h id r']
  by_cases hr' : r' = r
  · rw [hr', List.getElem?_set_self hr]
    simp
  · rw [List.getElem?_set_ne (Ne.symm hr')]
    simp [hr']

end Worker

/-- Does the action accept a connection on shard `i`, for which there are buffers? -/
def Action.accepts (i : Fin n) : Action n → Bool
  | .task j (.accept true) => j = i
  | _ => false

/-- If the action accepts a connection on shard `i`, no live connection of the shard has the id that
it takes. -/
def Broker.TakesFreeId (i : Fin n) (b : Broker n) (a : Action n) : Prop :=
  a.accepts i → ∀ c ∈ (b.shards i).worker.conns, c.live →
    c.state.id ≠ ⟨(b.shards i).worker.nextConnId⟩

/-- Whether an action takes an id that is free can be decided. -/
instance (i : Fin n) (b : Broker n) (a : Action n) : Decidable (b.TakesFreeId i a) :=
  inferInstanceAs (Decidable (a.accepts i → ∀ c ∈ (b.shards i).worker.conns, c.live →
    c.state.id ≠ ⟨(b.shards i).worker.nextConnId⟩))

/-- A task keeps the map right if an accept takes a free id. -/
lemma Shard.identified_run {s s' : Shard n} {i : Fin n} {t : Task} (h : s.worker.Identified)
    (hrun : s.run i t = some s') (hfree : t = .accept true → ∀ c ∈ s.worker.conns, c.live →
      c.state.id ≠ ⟨s.worker.nextConnId⟩) : s'.worker.Identified := by
  have hs := Shard.run_eq_some hrun
  cases t with
  | accept granted =>
      rw [hs]
      cases granted with
      | false => exact h
      | true => exact h.accept (hfree rfl)
  | greet r =>
      obtain ⟨c, hc, hreader, rfl⟩ := hs
      have hcore := (s.worker.extends_offer r none (.info serverInfoJson)
        (encode (.info serverInfoJson))).core
      obtain ⟨c', hc', hcore'⟩ := Worker.getElem?_of_core hcore hc
      have hreader' : c'.reader = c.reader := congrArg (·.2.2) hcore'
      dsimp only
      rw [Worker.greet_eq]
      exact (h.of_core hcore).setReader hc' (by rw [hreader', hreader]; decide) (by decide)
  | reject r =>
      obtain ⟨c, hc, -, rfl⟩ := hs
      exact h.set hc (by simp) rfl
  | send r buf =>
      obtain ⟨c, hc, rfl⟩ := hs
      exact h.set hc (by simp) rfl
  | exit r order =>
      obtain ⟨c, hc, hreader, -, rfl⟩ := hs
      exact h.cleanup hc (by simp [Connection.live, hreader]) order
  | frame r f =>
      obtain ⟨c, hc, -, rfl⟩ := hs
      rcases s.handleFrame_cases i r c f with hext | ⟨table, subscriptions, heq⟩
      · exact h.of_core hext.core
      · rw [heq]
        exact h.set hc rfl rfl

/-! ## The first ids -/

/-- Does the action take an id on shard `i`? -/
def Action.takesId (i : Fin n) : Action n → Bool
  | .task j (.accept _) => j = i
  | _ => false

/-- The ids of the connections are distinct and below `m`, which is the next one. -/
structure Book.Numbered (k : Book) (m : ℕ) : Prop where
  nodup : k.ids.Nodup
  below : ∀ id ∈ k.ids, id.raw.toNat < m
  next : k.nextId = UInt32.ofNat m

/-- Every accept takes the next id. -/
lemma Book.nextId_apply (k : Book) (op : BookOp) : (k.apply op).nextId =
    k.nextId + match op with | .accept _ => 1 | _ => 0 := by
  cases op with
  | keep => exact (UInt32.add_zero _).symm
  | accept granted => cases granted <;> rfl
  | sub r subject queueGroup sid =>
      rw [apply]
      split <;> exact (UInt32.add_zero _).symm
  | unsub r sid =>
      rw [apply]
      split <;> exact (UInt32.add_zero _).symm
  | close r =>
      rw [apply]
      split <;> exact (UInt32.add_zero _).symm

/-- The next id is the number of ids taken, as long as they are few. -/
lemma Book.Numbered.toNat_nextId {k : Book} {m : ℕ} (h : k.Numbered m) (hm : m < 2 ^ 32) :
    k.nextId.toNat = m := by
  rw [h.next]
  exact UInt32.toNat_ofNat_of_lt hm

/-- An accept takes the next id. -/
lemma Book.Numbered.accept {k : Book} {m : ℕ} (h : k.Numbered m) (hm : m < 2 ^ 32)
    (granted : Bool) : (k.apply (.accept granted)).Numbered (m + 1) := by
  have hnext := h.toNat_nextId hm
  have hnext' : (k.apply (.accept granted)).nextId = UInt32.ofNat (m + 1) := by
    rw [Book.nextId_apply, h.next, UInt32.ofNat_add]
    rfl
  cases granted with
  | false => exact ⟨h.nodup, fun id hid => (h.below id hid).trans (Nat.lt_succ_self m), hnext'⟩
  | true =>
      have hids : (k.apply (.accept true)).ids = k.ids ++ [⟨k.nextId⟩] := k.ids_apply (.accept true)
      refine ⟨?_, fun id hid => ?_, hnext'⟩
      · rw [hids, ← List.concat_eq_append]
        refine List.Nodup.concat (fun hmem => ?_) h.nodup
        have hlt := h.below _ hmem
        rw [hnext] at hlt
        exact lt_irrefl m hlt
      · rw [hids] at hid
        rcases List.mem_append.mp hid with hid | hid
        · exact (h.below id hid).trans (Nat.lt_succ_self m)
        · rw [List.mem_singleton.mp hid]
          exact hnext.trans_lt (Nat.lt_succ_self m)

/-- Everything else takes none. -/
lemma Book.Numbered.of_ne {k : Book} {m : ℕ} (h : k.Numbered m) {op : BookOp}
    (hop : ∀ granted, op ≠ .accept granted) : (k.apply op).Numbered m := by
  have hids : (k.apply op).ids = k.ids := by
    rw [Book.ids_apply]
    cases op with
    | accept granted => exact absurd rfl (hop granted)
    | _ => exact List.append_nil _
  have hnext : (k.apply op).nextId = k.nextId := by
    rw [Book.nextId_apply]
    cases op with
    | accept granted => exact absurd rfl (hop granted)
    | _ => exact UInt32.add_zero _
  exact ⟨hids ▸ h.nodup, hids ▸ h.below, hnext.trans h.next⟩

/-- What takes an id is an accept, in the books. -/
lemma Action.bookOp_of_takesId {i : Fin n} {a : Action n} (h : a.takesId i = true) :
    ∃ granted, a.bookOp i = .accept granted := by
  unfold Action.takesId at h
  split at h
  · rename_i j granted
    exact ⟨granted, if_pos (of_decide_eq_true h)⟩
  · cases h

/-- An accept in the books is an accept. -/
lemma Action.eq_of_bookOp_eq_accept {i : Fin n} {a : Action n} {granted : Bool}
    (h : a.bookOp i = .accept granted) : a = .task i (.accept granted) := by
  cases a with
  | task j t =>
      rw [Action.bookOp] at h
      split_ifs at h with hj
      cases t with
      | accept granted' => cases h; rw [hj]
      | frame r f =>
          cases f with
          | unsub sid maxMsgs => cases maxMsgs <;> cases h
          | _ => cases h
      | _ => cases h
  | _ => cases h

/-- What takes no id is no accept, in the books. -/
lemma Action.bookOp_ne_accept {i : Fin n} {a : Action n} (h : a.takesId i = false)
    (granted : Bool) : a.bookOp i ≠ .accept granted := by
  intro hop
  rw [Action.eq_of_bookOp_eq_accept hop] at h
  simp [Action.takesId] at h

/-- While at most 2^32 ids were taken, they are distinct. -/
lemma Book.numbered_after (i : Fin n) {as : List (Action n)}
    (has : as.countP (·.takesId i) ≤ 2 ^ 32) :
    (Book.after i as).Numbered (as.countP (·.takesId i)) := by
  induction as using List.reverseRecOn with
  | nil => exact ⟨List.nodup_nil, by simp [Book.after, Book.ids, Book.empty], rfl⟩
  | append_singleton as a ih =>
      rw [List.countP_append, List.countP_singleton] at has ⊢
      rw [Book.after_concat]
      by_cases ha : a.takesId i = true
      · rw [if_pos ha] at has ⊢
        obtain ⟨granted, hop⟩ := Action.bookOp_of_takesId ha
        rw [hop]
        exact (ih (by omega)).accept (by omega) granted
      · rw [if_neg ha] at has ⊢
        exact (ih (by omega)).of_ne (Action.bookOp_ne_accept (by simpa using ha))

/-- An accept takes an id that no connection of the shard has had before. -/
def Broker.TakesNewId (i : Fin n) (b : Broker n) (a : Action n) : Prop :=
  a.accepts i → ⟨(b.shards i).worker.nextConnId⟩ ∉ (b.shards i).worker.ids

/-- A new id is a free one. -/
lemma Broker.TakesNewId.takesFreeId {i : Fin n} {b : Broker n} {a : Action n}
    (h : b.TakesNewId i a) : b.TakesFreeId i a := by
  intro ha c hc _ hid
  refine h ha ?_
  rw [← hid]
  exact List.mem_map_of_mem hc

/-- While at most 2^32 ids were taken on a shard, every accept took a new one. -/
theorem takesNewId_of_few {capacity : ℕ} {as : List (Action n)} {i : Fin n}
    (has : as.countP (·.takesId i) ≤ 2 ^ 32) :
    Meets step (fun b a => b.TakesNewId i a) (Broker.init n capacity) as := by
  refine meets_of_run fun before a after b hsplit hrun haccepts hmem => ?_
  have ha : a.takesId i = true := by
    unfold Action.accepts at haccepts
    split at haccepts
    · exact haccepts
    · cases haccepts
  have hcount : before.countP (·.takesId i) < 2 ^ 32 := by
    rw [hsplit, List.countP_append, List.countP_cons, if_pos ha] at has
    omega
  have hnumbered := Book.numbered_after i hcount.le
  rw [← book_run hrun i] at hnumbered
  rw [← Worker.ids_book] at hmem
  exact (hnumbered.below _ hmem).ne (hnumbered.toNat_nextId hcount)

/-- And no accept has taken the id of a live connection. -/
theorem takesFreeId_of_few {capacity : ℕ} {as : List (Action n)} {i : Fin n}
    (has : as.countP (·.takesId i) ≤ 2 ^ 32) :
    Meets step (fun b a => b.TakesFreeId i a) (Broker.init n capacity) as :=
  (takesNewId_of_few has).mono fun _ _ h => h.takesFreeId

/-- As long as every accept takes a new id, every connection ever accepted has its own. -/
lemma nodup_ids_of_new {capacity : ℕ} {as : List (Action n)} {b : Broker n} {i : Fin n}
    (hrun : run step (Broker.init n capacity) as = some b)
    (hnew : Meets step (fun b a => b.TakesNewId i a) (Broker.init n capacity) as) :
    (b.shards i).worker.ids.Nodup := by
  refine run_invariant_of (I := fun b : Broker n => (b.shards i).worker.ids.Nodup) ?_ ?_ hnew hrun
  · intro b a b' hnodup ha hstep
    rw [← Worker.ids_book, book_step hstep i, Book.ids_apply]
    split
    · rename_i hop
      rw [Worker.ids_book]
      refine List.nodup_append.mpr ⟨hnodup, List.nodup_singleton _, ?_⟩
      rintro id hid _ hlast rfl
      rw [List.mem_singleton.mp hlast] at hid
      rw [Action.eq_of_bookOp_eq_accept hop] at ha
      exact ha (by simp [Action.accepts]) hid
    · rwa [List.append_nil, Worker.ids_book]
  · exact List.nodup_nil

/-! ## Identity -/

/-- **Connection identity is not shared** in a run in which no accept takes the id of a live
connection: live connections have distinct ids, the map of connections has exactly one entry for
each of them, and closing a connection removes no other's entry. -/
theorem identity_run {capacity : ℕ} {as : List (Action n)} {b : Broker n} (i : Fin n)
    (hrun : run step (Broker.init n capacity) as = some b)
    (hfree : Meets step (fun b a => b.TakesFreeId i a) (Broker.init n capacity) as) :
    (∀ (r r' : ConnRef) c c', (b.shards i).worker.conns[r]? = some c →
      (b.shards i).worker.conns[r']? = some c' → c.live → c'.live → c.state.id = c'.state.id →
      r = r') ∧
    (∀ id r, (b.shards i).worker.lookup id = some r ↔
      ∃ c, (b.shards i).worker.conns[r]? = some c ∧ c.live ∧ c.state.id = id) ∧
    ∀ r order b', step b (.task i (.exit r order)) = some b' → ∀ id, ∀ r' ≠ r,
      (b.shards i).worker.lookup id = some r' → (b'.shards i).worker.lookup id = some r' := by
  have hinv : (b.shards i).worker.Identified := by
    refine run_invariant_of (I := fun b : Broker n => (b.shards i).worker.Identified) ?_ ?_
      hfree hrun
    · intro b a b' h ha hstep
      rcases step_cases hstep i with ⟨t, rfl, hs⟩ | ⟨-, hext⟩
      · refine Shard.identified_run h hs ?_
        rintro rfl
        exact ha (by simp [Action.accepts])
      · exact h.of_core hext.core
    · intro id r
      simp [Broker.init, Worker.new, Worker.lookup, Worker.idents]
  have hentry : ∀ id r, (b.shards i).worker.lookup id = some r ↔
      ∃ c, (b.shards i).worker.conns[r]? = some c ∧ c.live ∧ c.state.id = id := fun id r =>
    (hinv id r).trans Worker.getElem?_idents_eq_some
  refine ⟨fun r r' c c' hc hc' hlive hlive' hid => ?_, hentry,
    fun r order b' hstep id r' hr' h => ?_⟩
  · have hr := (hentry c.state.id r).mpr ⟨c, hc, hlive, rfl⟩
    rw [(hentry c.state.id r').mpr ⟨c', hc', hlive', hid.symm⟩] at hr
    exact (Option.some.inj hr).symm
  · obtain ⟨-, s, hs, rfl⟩ := step_eq_some hstep
    obtain ⟨c, hc, hreader, -, rfl⟩ := Shard.run_eq_some hs
    rw [shards_setShard_self]
    exact (hinv.lookup_cleanup hc (by simp [Connection.live, hreader]) order).mpr ⟨hr', h⟩

/-- A connection is accepted, one is dropped, another one is accepted, the first one ends, and a
third one is accepted: the two that are live have an entry each. -/
theorem identity_run_three :
    let as : List (Action 1) := [.task 0 (.accept true), .task 0 (.greet 0),
      .task 0 (.accept false),
      .task 0 (.accept true), .task 0 (.exit 0 []), .task 0 (.accept true)]
    ∃ b, run step (Broker.init 1 1) as = some b ∧
      Meets step (fun b a => b.TakesFreeId 0 a) (Broker.init 1 1) as ∧
      ∀ id r, (b.shards 0).worker.lookup id = some r ↔
        ∃ c, (b.shards 0).worker.conns[r]? = some c ∧ c.live ∧ c.state.id = id := by
  intro as
  have hsome : (run step (Broker.init 1 1) as).isSome := by decide +kernel
  obtain ⟨b, hrun⟩ := Option.isSome_iff_exists.mp hsome
  have hfree : Meets step (fun b a => b.TakesFreeId 0 a) (Broker.init 1 1) as :=
    takesFreeId_of_few (by decide)
  exact ⟨b, hrun, hfree, (identity_run 0 hrun hfree).2.1⟩

/-! ## Ids that are taken again -/

/-- A client connects, gets the greeting, and leaves. -/
def visit (i : Fin n) (r : ConnRef) : List (Action n) :=
  [.task i (.accept true), .task i (.greet r), .task i (.exit r [])]

/-- Greeting the connection that was accepted last. -/
lemma Worker.greet_last {w : Worker} {conns : List Connection} {c : Connection}
    (h : w.conns = conns ++ [c]) :
    (w.greet conns.length).conns = conns ++ [{ c with
      state := (c.state.enqueue (encode (.info serverInfoJson))).2, reader := .reading }] ∧
    (w.greet conns.length).table = w.table ∧
    (w.greet conns.length).nextConnId = w.nextConnId := by
  rw [Worker.greet_eq, Worker.setReader, Worker.offer, h, List.getElem?_concat_length]
  refine ⟨?_, rfl, rfl⟩
  dsimp only
  rw [List.modify_eq_take_drop]
  simp

/-- The end of the last connection's reader leaves the other connections. -/
lemma Worker.conns_cleanup_last {w : Worker} {conns : List Connection} {c : Connection}
    (h : w.conns = conns ++ [c]) (order : List (Sigma fun _ : Bytes => Bytes)) :
    (w.cleanup conns.length c order).conns = conns ++ [{ c with
      state := c.state.markClose .peerClosed, reader := .finished }] := by
  rw [Worker.cleanup, h, List.set_append_right _ _ le_rfl, Nat.sub_self, List.set_cons_zero]

/-- After `m` visits: there are more connections, and `m` ids were taken. -/
structure Shard.Visited (s s' : Shard n) (m : ℕ) : Prop where
  idle : s'.activity = .idle
  table : s'.worker.table = s.worker.table
  next : s'.worker.nextConnId = s.worker.nextConnId + UInt32.ofNat m
  conns : ∃ more, s'.worker.conns = s.worker.conns ++ more

/-- A client may visit an idle shard: it connects, is greeted and leaves. -/
lemma run_visit {b : Broker n} {i : Fin n} (hidle : (b.shards i).activity = .idle) :
    ∃ b', run step b (visit i (b.shards i).worker.conns.length) = some b' ∧
      (b.shards i).Visited (b'.shards i) 1 := by
  generalize hs : b.shards i = s at hidle
  have hconns₁ : (s.worker.accept true).conns = s.worker.conns ++
      [⟨.new ⟨s.worker.nextConnId⟩ defaultOutboundCapacity, ∅, .starting⟩] := rfl
  obtain ⟨hconns₂, htable, hnext⟩ := Worker.greet_last hconns₁
  generalize (ConnectionState.enqueue _ _).2 = state at hconns₂
  -- the three tasks one after the other
  have hrun₁ : s.run i (.accept true) = some { s with worker := s.worker.accept true } := rfl
  have hrun₂ : ({ s with worker := s.worker.accept true } : Shard n).run i
      (.greet s.worker.conns.length) =
        some { s with worker := (s.worker.accept true).greet s.worker.conns.length } := by
    simp [Shard.run, hconns₁]
  generalize (s.worker.accept true).greet s.worker.conns.length = w at hconns₂ htable hnext hrun₂
  have hrun₃ : ({ s with worker := w } : Shard n).run i (.exit s.worker.conns.length []) =
      some { s with worker := w.cleanup s.worker.conns.length ⟨state, ∅, .reading⟩ [] } := by
    simp [Shard.run, hconns₂]
  obtain ⟨b₁, hstep₁, hs₁⟩ := exists_step_task hs hidle hrun₁
  obtain ⟨b₂, hstep₂, hs₂⟩ := exists_step_task hs₁ hidle hrun₂
  obtain ⟨b₃, hstep₃, hs₃⟩ := exists_step_task hs₂ hidle hrun₃
  refine ⟨b₃, ?_, ?_⟩
  · rw [visit, run_cons, hstep₁, Option.bind_some, run_cons, hstep₂, Option.bind_some, run_cons,
      hstep₃, Option.bind_some, run_nil]
  · rw [hs₃]
    exact ⟨hidle, htable, hnext, _, Worker.conns_cleanup_last hconns₂ []⟩

/-- Any number of visits one after the other. -/
lemma run_visits {b : Broker n} {i : Fin n} (hidle : (b.shards i).activity = .idle) (m : ℕ) :
    ∃ as b', run step b as = some b' ∧ (∀ j r f, .task j (.frame r f) ∉ as) ∧
      (b.shards i).Visited (b'.shards i) m := by
  induction m with
  | zero =>
      exact ⟨[], b, rfl, fun _ _ _ => List.not_mem_nil, hidle, rfl, (UInt32.add_zero _).symm, [],
        (List.append_nil _).symm⟩
  | succ m ih =>
      obtain ⟨as, b₁, hrun, hquiet, hidle₁, htable, hnext, more, hconns⟩ := ih
      obtain ⟨b₂, hrun', hidle₂, htable', hnext', more', hconns'⟩ := run_visit hidle₁
      refine ⟨as ++ visit i (b₁.shards i).worker.conns.length, b₂,
        run_append_eq_some.mpr ⟨b₁, hrun, hrun'⟩, ?_, hidle₂, htable'.trans htable, ?_,
        more ++ more', ?_⟩
      · intro j r f hmem
        rcases List.mem_append.mp hmem with hmem | hmem
        · exact hquiet j r f hmem
        · simp [visit] at hmem
      · rw [hnext', hnext, UInt32.ofNat_add, ← UInt32.add_assoc]
      · rw [hconns', hconns, List.append_assoc]

/-- After enough visits the next connection gets any given id. -/
lemma run_until_next {b : Broker n} {i : Fin n} (hidle : (b.shards i).activity = .idle)
    (id : UInt32) : ∃ as b' m, run step b as = some b' ∧ (∀ j r f, .task j (.frame r f) ∉ as) ∧
      (b.shards i).Visited (b'.shards i) m ∧ (b'.shards i).worker.nextConnId = id := by
  obtain ⟨as, b', hrun, hquiet, hvisited⟩ :=
    run_visits hidle (id - (b.shards i).worker.nextConnId).toNat
  refine ⟨as, b', _, hrun, hquiet, hvisited, ?_⟩
  rw [hvisited.next, UInt32.ofNat_toNat, UInt32.add_comm, UInt32.sub_add_cancel]

/-- So a client can be made to get any given id, and its entry in the map, while nobody sends a
frame. -/
lemma run_taking {b : Broker n} {i : Fin n} (hidle : (b.shards i).activity = .idle) (id : UInt32) :
    ∃ as b' more, run step b (as ++ [.task i (.accept true)]) = some b' ∧
      (∀ j r f, .task j (.frame r f) ∉ as) ∧ (b'.shards i).activity = .idle ∧
      (b'.shards i).worker.table = (b.shards i).worker.table ∧
      (b'.shards i).worker.conns = (b.shards i).worker.conns ++ more ++
        [⟨.new ⟨id⟩ defaultOutboundCapacity, ∅, .starting⟩] ∧
      (b'.shards i).worker.lookup ⟨id⟩ = some ((b.shards i).worker.conns ++ more).length := by
  obtain ⟨as, b₁, m, hrun, hquiet, ⟨hidle₁, htable, -, more, hconns⟩, hnext⟩ :=
    run_until_next hidle id
  obtain ⟨b₂, hstep, hs⟩ := exists_step_task (t := .accept true) rfl hidle₁ rfl
  refine ⟨as, b₂, more, run_append_eq_some.mpr ⟨b₁, hrun, run_cons_eq_some.mpr
    ⟨b₂, hstep, run_nil b₂⟩⟩, hquiet, ?_, ?_, ?_, ?_⟩
  · rw [hs]
    exact hidle₁
  · rw [hs, ← htable]
    rfl
  · rw [hs, ← hnext, ← hconns]
    rfl
  · rw [hs, ← hnext, ← hconns]
    exact AList.lookup_insert _

/-- **Two live connections with one id.** A client connects and stays, and 2^32 - 1 others come and
go. The next one gets the id of the first one, and its entry in the map. -/
theorem identity_shared :
    ∃ (as : List (Action 1)) (b : Broker 1) (r : ConnRef) (c c' : Connection),
      run step (Broker.init 1 1) as = some b ∧ r ≠ 0 ∧
      (b.shards 0).worker.conns[0]? = some c ∧ (b.shards 0).worker.conns[r]? = some c' ∧
      c.live ∧ c'.live ∧ c.state.id = c'.state.id ∧
      (b.shards 0).worker.lookup c.state.id = some r := by
  obtain ⟨b₁, hstep₁, hs₁⟩ := exists_step_task (b := Broker.init 1 1) (i := 0) (t := .accept true)
    rfl rfl rfl
  have hconns₁ : (b₁.shards 0).worker.conns =
      [⟨.new ⟨0⟩ defaultOutboundCapacity, ∅, .starting⟩] := by
    rw [hs₁]
    rfl
  obtain ⟨as, b₂, more, hrun, -, -, -, hconns, hlookup⟩ :=
    run_taking (i := 0) (b := b₁) (by rw [hs₁]; rfl) 0
  rw [hconns₁] at hconns hlookup
  refine ⟨.task 0 (.accept true) :: (as ++ [.task 0 (.accept true)]), b₂, _,
    ⟨.new ⟨0⟩ defaultOutboundCapacity, ∅, .starting⟩,
    ⟨.new ⟨0⟩ defaultOutboundCapacity, ∅, .starting⟩, ?_, Nat.succ_ne_zero more.length, ?_, ?_, rfl,
    rfl, rfl, hlookup⟩
  · rw [run_cons, hstep₁, Option.bind_some, hrun]
  · rw [hconns]
    rfl
  · rw [hconns]
    exact List.getElem?_concat_length

end Aulon.Server
