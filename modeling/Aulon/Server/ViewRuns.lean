import Aulon.Server.Buffers

/-!
# Connections over whole runs

How the connections of a process relate to those of its broker, and the rule by which a property of
single connections is proved for all of them in all states of all runs.

* `trace_run` — the trace of a process leads the broker to where it is.
* `length_links` — every connection has its link.
* `view_run` — what holds of a new connection, and is kept by its moves and by offers, always holds.
-/

namespace Aulon.Server

open Aulon.Lib Aulon.Core Aulon.Proto

variable {B : FixedBufPool} {n : ℕ}

/-- Frames are handled for connections only. -/
lemma framesOf_eq_nil {capacity : ℕ} {as : List (Action n)} {b : Broker n}
    (hrun : run step (Broker.init n capacity) as = some b) {i : Fin n} {r : ConnRef}
    (hr : (b.shards i).worker.conns.length ≤ r) : framesOf i r as = [] := by
  refine run_history (I := fun as (b : Broker n) => ∀ r, (b.shards i).worker.conns.length ≤ r →
    framesOf i r as = []) (fun _ _ => rfl) ?_ hrun r hr
  intro as b a b' _ ih hstep r hr
  have hle := (grows_step hstep i).conns
  rw [framesOf_append, ih r (hle.trans hr), framesOf_singleton, List.nil_append,
    Option.toList_eq_nil_iff]
  cases hframe : a.frameOf i r with
  | none => rfl
  | some f =>
      -- a frame is handled only for a connection that is there
      unfold Action.frameOf at hframe
      split at hframe
      · rename_i j r' f'
        split_ifs at hframe with hown
        obtain ⟨rfl, rfl⟩ := hown
        obtain ⟨-, s, ht, -⟩ := step_eq_some hstep
        obtain ⟨c, hc, -⟩ := Shard.run_eq_some ht
        have hlt := (List.getElem?_eq_some_iff.mp hc).1
        omega
      · cases hframe

/-- What every offer keeps, several offers keep. -/
lemma View.Offered.invariant {I : View → Prop}
    (hoffer : ∀ v o, I v → o.outcome = (v.state.enqueue o.bytes).1 → I (v.offer o))
    {os : List Offer} {v w : View} (h : View.Offered v os w) (hI : I v) : I w := by
  induction os generalizing v with
  | nil =>
      obtain rfl : w = v := h
      exact hI
  | cons o os ih => exact ih h.2 (hoffer v o hI h.1)

namespace Process

variable {inboxCapacity poolCapacity : ℕ} {es : List (Event n)} {s s' t : Process B n} {e : Event n}
  {i : Fin n} {r : ConnRef} {v : View}

/-! ## The trace -/

/-- The actions of a plan are appended to the trace, and the broker takes them. -/
lemma trace_acts {as : List (Action n)} (h : run act s as = some t) :
    t.trace = s.trace ++ as ∧ run Server.step s.broker as = some t.broker := by
  induction as generalizing s with
  | nil =>
      cases h
      simp
  | cons a as ih =>
      obtain ⟨u, hu, hrun⟩ := run_cons_eq_some.mp h
      obtain ⟨hstep, htrace, -⟩ := act_eq_some hu
      obtain ⟨htrace', hrun'⟩ := ih hrun
      refine ⟨?_, run_cons_eq_some.mpr ⟨u.broker, hstep, hrun'⟩⟩
      rw [htrace', htrace, List.append_assoc, List.singleton_append]

/-- An event adds to the trace the actions of its plan. -/
lemma trace_step (hstep : s.step e = some s') : ∃ as, s'.trace = s.trace ++ as ∧
    run Server.step s.broker as = some s'.broker := by
  obtain ⟨p, t, -, hacts, rfl⟩ := step_eq_some hstep
  obtain ⟨htrace, hbroker⟩ := trace_acts hacts
  exact ⟨p.1, htrace, hbroker⟩

/-- The events of a run add to the trace the actions that lead the broker on. -/
lemma trace_from (hrun : run step s es = some s') : ∃ as, s'.trace = s.trace ++ as ∧
    run Server.step s.broker as = some s'.broker := by
  refine run_invariant (I := fun t : Process B n => ∃ as, t.trace = s.trace ++ as ∧
    run Server.step s.broker as = some t.broker) ?_ ⟨[], by simp, rfl⟩ hrun
  rintro t e t' ⟨as, htrace, has⟩ hstep
  obtain ⟨as', htrace', has'⟩ := trace_step hstep
  refine ⟨as ++ as', ?_, run_append_eq_some.mpr ⟨t.broker, has, has'⟩⟩
  rw [htrace', htrace, List.append_assoc]

/-- The trace of a process leads the broker to where it is. -/
theorem trace_run (hrun : run step (init n inboxCapacity poolCapacity : Process B n) es = some s) :
    run Server.step (Broker.init n inboxCapacity) s.trace = some s.broker := by
  obtain ⟨as, htrace, has⟩ := trace_from hrun
  rw [htrace]
  exact has

/-! ## Connections and links -/

/-- Only an accept adds a connection. -/
lemma length_conns_acts {b b' : Broker n} {as : List (Action n)}
    (h : run Server.step b as = some b') (has : ∀ a ∈ as, a ≠ .task i (.accept true)) :
    (b'.shards i).worker.conns.length = (b.shards i).worker.conns.length := by
  induction as generalizing b with
  | nil =>
      cases h
      rfl
  | cons a as ih =>
      obtain ⟨u, hu, hrun⟩ := run_cons_eq_some.mp h
      have ha := has a List.mem_cons_self
      rw [ih hrun fun a ha => has a (List.mem_cons_of_mem _ ha)]
      rcases conns_step hu i with ⟨rfl, -⟩ | ⟨-, hlen⟩
      · exact absurd rfl ha
      · exact hlen

/-- An event accepts a client on shard `i`, or keeps the numbers of connections and of links
there. -/
lemma length_step (hstep : s.step e = some s') (i : Fin n) :
    (∃ readBuf pool writeBuf pool', e = .connect i ∧
      (s.runtimes i).pool.acquire = some (readBuf, pool) ∧
      pool.acquire = some (writeBuf, pool') ∧
      s'.trace = s.trace ++ [.task i (.accept true)] ∧
      (s'.broker.shards i).worker.offers = (s.broker.shards i).worker.offers ∧
      (∃ id, (s'.broker.shards i).worker.conns = (s.broker.shards i).worker.conns ++ [.new id]) ∧
      ∃ links, links.length = (s.runtimes i).links.length ∧
        (s'.runtimes i).links = links ++ [.new readBuf writeBuf]) ∨
    (s'.broker.shards i).worker.conns.length = (s.broker.shards i).worker.conns.length ∧
      (s'.runtimes i).links.length = (s.runtimes i).links.length := by
  obtain ⟨p, t, hnext, hacts, rfl⟩ := step_eq_some hstep
  obtain ⟨htrace, hbroker⟩ := trace_acts hacts
  obtain ⟨calls, hcalls⟩ := runtimes_acts hacts i
  have hnotice : (t.runtimes i).links.length = (s.runtimes i).links.length := by
    rw [hcalls]
    simp [Runtime.notice]
  have hkeep : (∀ a ∈ p.1, a ≠ .task i (.accept true)) →
      (∀ rt, (p.2 rt).links.length = rt.links.length) →
      ((t.change e.shard p.2).broker.shards i).worker.conns.length =
          (s.broker.shards i).worker.conns.length ∧
        ((t.change e.shard p.2).runtimes i).links.length = (s.runtimes i).links.length := by
    intro hactions hlinks
    refine ⟨length_conns_acts hbroker hactions, ?_⟩
    rcases eq_or_ne i e.shard with rfl | hi
    · rw [runtimes_change_self, hlinks, hnotice]
    · rw [runtimes_change_ne t hi, hnotice]
  cases he : e.conn with
  | some x =>
      have hown := own_of_next hnext he
      refine Or.inr (hkeep (fun a ha haccept => ?_) hown.length)
      have hconn := hown.actions a ha
      rw [haccept] at hconn
      cases hconn
  | none =>
      rcases next_of_none hnext he with
        ⟨readBuf, pool, writeBuf, pool', hconnect, hread, hwrite, rfl⟩ | ⟨hactions, hlinks⟩
      · rcases eq_or_ne i e.shard with rfl | hi
        · obtain ⟨b, hb, hlast⟩ := run_cons_eq_some.mp hbroker
          cases hlast
          rcases conns_step hb e.shard with ⟨-, hoffers, hconns⟩ | ⟨hne, -⟩
          · refine Or.inl ⟨readBuf, pool, writeBuf, pool', hconnect, hread, hwrite, htrace, hoffers,
              hconns, (t.runtimes e.shard).links, hnotice, ?_⟩
            rw [runtimes_change_self, runtimes_withLost]
          · exact absurd rfl hne
        · refine Or.inr ⟨length_conns_acts hbroker ?_, ?_⟩
          · simpa using hi.symm
          · rw [runtimes_change_ne _ hi, runtimes_withLost, hnotice]
      · exact Or.inr (hkeep (fun a ha => (hactions a ha).2 i) fun rt => by rw [hlinks rt])

/-- Every connection has its link. -/
lemma length_links
    (hrun : run step (init n inboxCapacity poolCapacity : Process B n) es = some s) (i : Fin n) :
    (s.runtimes i).links.length = (s.broker.shards i).worker.conns.length := by
  refine run_invariant (I := fun s : Process B n =>
    (s.runtimes i).links.length = (s.broker.shards i).worker.conns.length) ?_ rfl hrun
  intro s e s' h hstep
  rcases length_step hstep i with
    ⟨_, _, _, _, -, -, -, -, -, ⟨id, hconns⟩, links, hlen, hlinks⟩ | ⟨hconns, hlinks⟩
  · rw [hconns, hlinks, List.length_append, List.length_append, hlen, h]
    rfl
  · rw [hconns, hlinks, h]

/-- A link has a view if links and connections are as many. -/
lemma view_isSome (hlen : (s.runtimes i).links.length = (s.broker.shards i).worker.conns.length)
    (hr : r < (s.runtimes i).links.length) : ∃ v, s.view i r = some v := by
  have hc : s.conn i r = some _ := List.getElem?_eq_getElem (hlen ▸ hr)
  have hl : s.link i r = some _ := List.getElem?_eq_getElem hr
  exact ⟨_, view_eq_some.mpr ⟨_, _, hc, hl, rfl⟩⟩

/-- A connection that an event has brought in is a new one. -/
lemma view_new (hrun : run step (init n inboxCapacity poolCapacity : Process B n) es = some s)
    (hstep : s.step e = some s') (hnone : s.view i r = none) (hv : s'.view i r = some v) :
    ∃ id readBuf writeBuf, readBuf.bytes.length = defaultBufferSize ∧
      writeBuf.bytes.length = defaultBufferSize ∧ v = .new id readBuf writeBuf := by
  have hlen := length_links hrun i
  obtain ⟨c, l, hc, hl, rfl⟩ := view_eq_some.mp hv
  have hge : (s.runtimes i).links.length ≤ r := by
    by_contra hlt
    obtain ⟨v, hv⟩ := view_isSome hlen (not_le.mp hlt)
    rw [hv] at hnone
    cases hnone
  have hlt := (List.getElem?_eq_some_iff.mp hl).1
  rcases length_step hstep i with
    ⟨readBuf, pool, writeBuf, pool', -, hread, hwrite, htrace, hoffers, ⟨id, hconns⟩, links,
      hlinks, hnew⟩ | ⟨-, hsame⟩
  · rw [hnew, List.length_append, List.length_singleton, hlinks] at hlt
    obtain rfl : r = (s.runtimes i).links.length := le_antisymm (Nat.lt_succ_iff.mp hlt) hge
    have hbalanced := balanced_run hrun i
    have hread' := hbalanced.acquire hread
    have hwrite' := hread'.acquire hwrite
    refine ⟨id, readBuf, writeBuf, hwrite'.size readBuf (by simp), hwrite'.size writeBuf (by simp),
      ?_⟩
    have hc' : c = .new id := by
      rw [conn, hconns, hlen, List.getElem?_concat_length] at hc
      exact (Option.some.inj hc).symm
    have hl' : l = .new readBuf writeBuf := by
      rw [link, hnew, ← hlinks, List.getElem?_concat_length] at hl
      exact (Option.some.inj hl).symm
    have hframes : framesOf i (s.runtimes i).links.length s'.trace = [] := by
      rw [htrace, framesOf_append, framesOf_eq_nil (trace_run hrun) hlen.ge]
      rfl
    have htargets : (s'.broker.shards i).worker.offers.filter
        (·.target = (s.runtimes i).links.length) = [] := by
      rw [hoffers, List.filter_eq_nil_iff]
      intro o ho
      have htarget := target_lt (trace_run hrun) i o ho
      simp only [decide_eq_true_eq]
      exact (htarget.trans_le hlen.ge).ne
    rw [hc', hl', hframes, htargets]
    rfl
  · omega

/-! ## The invariant rule -/

/-- What every move of a connection and every offer to it keep, every event keeps. -/
lemma view_step_keeps {I : View → Prop}
    (hmoves : e.conn = some (i, r) → ∀ v v', I v → v.Moves e.agent v' → I v')
    (hoffer : ∀ v o, I v → o.outcome = (v.state.enqueue o.bytes).1 → I (v.offer o))
    (hstep : s.step e = some s') (hv : s.view i r = some v) (hI : I v) :
    ∃ v', s'.view i r = some v' ∧ I v' := by
  by_cases he : e.conn = some (i, r)
  · obtain ⟨v₁, hmove, new, w, -, hw, hview⟩ := view_step_own hstep hv he
    exact ⟨w, hview, hw.invariant hoffer (hmoves he v v₁ hI hmove)⟩
  · obtain ⟨new, w, -, hw, hview⟩ := view_step_of_ne hstep hv he
    exact ⟨w, hview, hw.invariant hoffer hI⟩

/-- From a state on, for a connection that is there, and events of some agents on it only. -/
theorem view_from_of {I : View → Prop} {P : Agent → Prop}
    (hes : ∀ e ∈ es, e.conn = some (i, r) → P e.agent)
    (hmoves : ∀ v a v', P a → I v → v.Moves a v' → I v')
    (hoffer : ∀ v o, I v → o.outcome = (v.state.enqueue o.bytes).1 → I (v.offer o))
    (hrun : run step s es = some s') (hv : s.view i r = some v) (hI : I v) :
    ∃ v', s'.view i r = some v' ∧ I v' := by
  refine run_invariant_of (I := fun s : Process B n => ∃ v, s.view i r = some v ∧ I v) ?_
    ⟨v, hv, hI⟩ (meets_of_forall (fun e he _ => hes e he) s) hrun
  rintro s e s' ⟨v, hv, hI⟩ he hstep
  exact view_step_keeps (fun hconn v v' => hmoves v e.agent v' (he hconn)) hoffer hstep hv hI

/-- What the moves of a connection and the offers to it keep holds along every run from where it
holds. -/
theorem view_from {I : View → Prop} (hmoves : ∀ v a v', I v → v.Moves a v' → I v')
    (hoffer : ∀ v o, I v → o.outcome = (v.state.enqueue o.bytes).1 → I (v.offer o))
    (hrun : run step s es = some s') (hv : s.view i r = some v) (hI : I v) :
    ∃ v', s'.view i r = some v' ∧ I v' :=
  view_from_of (P := fun _ => True) (fun _ _ _ => trivial) (fun v a v' _ => hmoves v a v') hoffer
    hrun hv hI

/-- Nobody but its client adds to a stream. -/
lemma stream_from (hes : ∀ e ∈ es, e.agent ≠ .client) (hrun : run step s es = some s')
    (hv : s.view i r = some v) :
    ∃ v', s'.view i r = some v' ∧ v'.link.socket.stream = v.link.socket.stream := by
  refine view_from_of (I := fun v' => v'.link.socket.stream = v.link.socket.stream)
    (P := fun a => a ≠ .client) (fun e he _ => hes e he) ?_ (fun _ _ h _ => h) hrun hv rfl
  intro v₁ a v₂ hagent hstream hmoves
  cases hmoves with
  | send => exact absurd rfl hagent
  | _ => exact hstream

/-- Nobody but its client closes its side. -/
lemma closed_from (hes : ∀ e ∈ es, e.agent ≠ .client) (hrun : run step s es = some s')
    (hv : s.view i r = some v) :
    ∃ v', s'.view i r = some v' ∧ v'.link.socket.closed = v.link.socket.closed := by
  refine view_from_of (I := fun v' => v'.link.socket.closed = v.link.socket.closed)
    (P := fun a => a ≠ .client) (fun e he _ => hes e he) ?_ (fun _ _ h _ => h) hrun hv rfl
  intro v₁ a v₂ hagent hclosed hmoves
  cases hmoves with
  | close => exact absurd rfl hagent
  | _ => exact hclosed

/-- **Invariant rule for connections.** What holds of a new connection and is kept by every move of
a connection, and by every frame that is offered to it, holds of every connection in every state of
every run. The moves may be those of some agents only, if the run has no others on the
connection. -/
theorem view_run_of {I : View → Prop} {P : Agent → Prop}
    (hes : ∀ e ∈ es, e.conn = some (i, r) → P e.agent)
    (hnew : ∀ id readBuf writeBuf, readBuf.bytes.length = defaultBufferSize →
      writeBuf.bytes.length = defaultBufferSize → I (.new id readBuf writeBuf))
    (hmoves : ∀ v a v', P a → I v → v.Moves a v' → I v')
    (hoffer : ∀ v o, I v → o.outcome = (v.state.enqueue o.bytes).1 → I (v.offer o))
    (hrun : run step (init n inboxCapacity poolCapacity : Process B n) es = some s)
    (hv : s.view i r = some v) : I v := by
  refine run_history (I := fun es (s : Process B n) =>
    (∀ e ∈ es, e.conn = some (i, r) → P e.agent) → ∀ v, s.view i r = some v → I v)
    ?_ ?_ hrun hes v hv
  · intro _ v hv
    obtain ⟨c, l, hc, -⟩ := view_eq_some.mp hv
    cases hc
  · intro es s e s' hrun ih hstep hes v' hv'
    obtain ⟨hes, he⟩ := List.forall_mem_append.mp hes
    cases hv : s.view i r with
    | none =>
        obtain ⟨id, readBuf, writeBuf, hread, hwrite, rfl⟩ := view_new hrun hstep hv hv'
        exact hnew id readBuf writeBuf hread hwrite
    | some v =>
        obtain ⟨w, hview, hI⟩ := view_step_keeps
          (fun hconn v v' => hmoves v e.agent v' (he e List.mem_cons_self hconn)) hoffer hstep hv
          (ih hes v hv)
        obtain rfl := Option.some.inj (hview.symm.trans hv')
        exact hI

/-- What holds of a new connection, and what its moves and the offers to it keep, holds after every
run. -/
theorem view_run {I : View → Prop}
    (hnew : ∀ id readBuf writeBuf, readBuf.bytes.length = defaultBufferSize →
      writeBuf.bytes.length = defaultBufferSize → I (.new id readBuf writeBuf))
    (hmoves : ∀ v a v', I v → v.Moves a v' → I v')
    (hoffer : ∀ v o, I v → o.outcome = (v.state.enqueue o.bytes).1 → I (v.offer o))
    (hrun : run step (init n inboxCapacity poolCapacity : Process B n) es = some s)
    (hv : s.view i r = some v) : I v :=
  view_run_of (P := fun _ => True) (fun _ _ _ => trivial) hnew (fun v a v' _ => hmoves v a v')
    hoffer hrun hv

end Process

end Aulon.Server
