import Aulon.Server.Steps

/-!
# Publishing across shards

What a publication leaves behind in every shard and inbox, over all interleavings.

* `Routed` — the invariant: each shard's publications against what the other shards have
  dispatched from it and still hold in their inboxes, bucket by bucket.
* `publish_exactly_once` — its consequences for one publisher.
-/

namespace Aulon.Server

open Aulon.Lib Aulon.Core Aulon.Proto

variable {n : ℕ}

/-! ## The invariant -/

/-- The publication a shard is in the middle of pushing. -/
def Shard.current (s : Shard n) : List (Publication n) :=
  match s.activity with
  | .publishing p _ => [p]
  | _ => []

/-- All publications of a shard, in the order in which they were handled. -/
def Shard.pubs (s : Shard n) : List (Publication n) := s.publications ++ s.current

/-- What is pushed for a publication of shard `i`. -/
def Publication.parcel (p : Publication n) (i : Fin n) : Parcel n := ⟨(i, p.conn), p.frame⟩

/-- Was the publication pushed to shard `j`? -/
def Publication.pushedTo (p : Publication n) (j : Fin n) : Bool := (j, true) ∈ p.pushes

/-- The error of a published subject, if it is not valid. -/
def subjectError (subject : Bytes) : Option SubjectError :=
  match parsePublisherSubject subject with
  | .ok _ => none
  | .error e => some e

/-- How often a report of back-pressure was offered to a connection. -/
def Worker.backPressureOffers (w : Worker) (r : ConnRef) : ℕ :=
  w.offers.countP fun o => o.target = r ∧ o.frame = .err backPressureText

/-- The other shards, in the order of the push loop. -/
def peers (i : Fin n) : List (Fin n) := (List.finRange n).filter (· ≠ i)

/-- What a shard has drained that came from shard `i`. -/
def Shard.drainedFrom (s : Shard n) (i : Fin n) : List (Parcel n) :=
  (s.dispatches.filter fun d => d.drained ∧ d.parcel.origin.1 = i).map (·.parcel)

/-- What shard `i` has pushed to shard `j`. -/
def Shard.pushedTo (s : Shard n) (i j : Fin n) : List (Parcel n) :=
  (s.pubs.filter (·.pushedTo j)).map (·.parcel i)

/-- What holds of the shard with index `i` on its own. -/
structure Shard.Sound (s : Shard n) (i : Fin n) : Prop where
  /-- It has dispatched each of its own publications once. -/
  own : s.dispatches.filter (!·.drained) = s.pubs.map fun p => ⟨p.parcel i, false, p.rejected⟩
  /-- What it drained came from elsewhere, and the dispatch did not fail. -/
  drained : ∀ d ∈ s.dispatches, d.drained = true → d.parcel.origin.1 ≠ i ∧ d.error = none
  /-- Publications are rejected for their subject only. -/
  rejected : ∀ p ∈ s.pubs, p.rejected = subjectError p.frame.subject
  /-- A finished publication was offered to every other shard once, a rejected one to none. -/
  finished : ∀ p ∈ s.publications, p.pushes.map (·.1) = if p.rejected = none then peers i else []
  /-- One in progress has still to be offered to the remaining shards. -/
  current : ∀ p todo, s.activity = .publishing p todo → p.rejected = none ∧
    p.conn < s.worker.conns.length ∧ p.pushes.map (·.1) ++ todo.filter (· ≠ i) = peers i
  /-- Back-pressure was reported once for each finished publication that met it. -/
  reported : ∀ r, s.worker.backPressureOffers r =
    s.publications.countP fun p => p.conn = r ∧ p.backPressureSeen

/-- What holds between the shards at any time. -/
structure Routed (b : Broker n) : Prop where
  sound : ∀ i, (b.shards i).Sound i
  /-- What a shard has drained from another one and what it still has in its inbox from it is
  what the other one has pushed to it. -/
  peer : ∀ i j, i ≠ j → (b.shards j).drainedFrom i ++ (b.inboxes j).items.filter (·.origin.1 = i) =
    (b.shards i).pushedTo i j
  /-- Nothing is pushed to the own inbox. -/
  inbox : ∀ j, ∀ x ∈ (b.inboxes j).items, x.origin.1 ≠ j

/-- Where no report of back-pressure is offered, their number stays. -/
lemma Worker.Grows.backPressureOffers {P : Offer → Prop} {w w' : Worker} (h : w.Grows P w')
    (hP : ∀ o, P o → o.frame ≠ .err backPressureText) (r : ConnRef) :
    w'.backPressureOffers r = w.backPressureOffers r := by
  obtain ⟨-, -, new, hnew, hnewP⟩ := h
  have hzero : new.countP (fun o => o.target = r ∧ o.frame = .err backPressureText) = 0 := by
    rw [List.countP_eq_zero]
    intro o ho
    simpa using fun _ => hP o (hnewP o ho)
  rw [Worker.backPressureOffers, hnew, List.countP_append, hzero]
  rfl

/-! ## Each step keeps the invariant -/

/-- The invariant holds at the start. -/
lemma routed_init (n capacity : ℕ) : Routed (Broker.init n capacity) where
  sound i :=
    { own := rfl
      drained := fun _ hd => absurd hd List.not_mem_nil
      rejected := fun _ hp => absurd hp List.not_mem_nil
      finished := fun _ hp => absurd hp List.not_mem_nil
      current := fun _ _ h => by cases h
      reported := fun _ => rfl }
  peer _ _ _ := rfl
  inbox _ _ hx := absurd hx List.not_mem_nil

/-- Soundness of a shard when only its worker and what it is doing have changed. -/
lemma Shard.Sound.of_same {s s' : Shard n} {i : Fin n} (h : s.Sound i)
    (hpublications : s'.publications = s.publications) (hcurrent : s'.current = s.current)
    (hdispatches : s'.dispatches = s.dispatches)
    (hconns : s.worker.conns.length ≤ s'.worker.conns.length)
    (hreported : ∀ r, s'.worker.backPressureOffers r = s.worker.backPressureOffers r)
    (hactivity : ∀ p todo, s'.activity = .publishing p todo → ∃ todo',
      s.activity = .publishing p todo' ∧ todo'.filter (· ≠ i) = todo.filter (· ≠ i)) :
    s'.Sound i := by
  have hpubs : s'.pubs = s.pubs := by rw [Shard.pubs, Shard.pubs, hpublications, hcurrent]
  refine ⟨?_, ?_, ?_, ?_, fun p todo hact => ?_, fun r => ?_⟩
  · rw [hdispatches, hpubs]; exact h.own
  · rw [hdispatches]; exact h.drained
  · rw [hpubs]; exact h.rejected
  · rw [hpublications]; exact h.finished
  · obtain ⟨todo', hact', hfilter⟩ := hactivity p todo hact
    obtain ⟨hrej, hconn, htodo⟩ := h.current p todo' hact'
    exact ⟨hrej, hconn.trans_le hconns, by rw [← hfilter, htodo]⟩
  · rw [hreported r, hpublications]; exact h.reported r

/-- A step of shard `i` that leaves the inboxes alone, and what it has drained and pushed. -/
lemma Routed.of_setShard {b b' : Broker n} (h : Routed b) {i : Fin n} {s : Shard n}
    (hshards : b'.shards = (b.setShard i s).shards) (hinboxes : b'.inboxes = b.inboxes)
    (hsound : s.Sound i) (hdrained : ∀ k, s.drainedFrom k = (b.shards i).drainedFrom k)
    (hpushed : ∀ j, s.pushedTo i j = (b.shards i).pushedTo i j) : Routed b' := by
  refine ⟨fun k => ?_, fun k j hkj => ?_, by rw [hinboxes]; exact h.inbox⟩
  · rw [hshards]
    rcases eq_or_ne k i with rfl | hk
    · rw [shards_setShard_self]; exact hsound
    · rw [shards_setShard_ne _ _ _ hk]; exact h.sound k
  · have htarget : (b'.shards j).drainedFrom k = (b.shards j).drainedFrom k := by
      rw [hshards]
      rcases eq_or_ne j i with rfl | hj
      · rw [shards_setShard_self, hdrained]
      · rw [shards_setShard_ne _ _ _ hj]
    have hsource : (b'.shards k).pushedTo k j = (b.shards k).pushedTo k j := by
      rw [hshards]
      rcases eq_or_ne k i with rfl | hk
      · rw [shards_setShard_self, hpushed]
      · rw [shards_setShard_ne _ _ _ hk]
    rw [htarget, hsource, hinboxes]
    exact h.peer k j hkj

/-- Handling a `PUB` adds one publication, with no push made for it yet, and one dispatch. -/
lemma Shard.handlePub_spec (s : Shard n) (i : Fin n) (r : ConnRef) (frame : PublishedFrame)
    (hidle : s.activity = .idle) :
    let p : Publication n := ⟨r, frame, subjectError frame.subject, []⟩
    let s' := s.handlePub i r frame
    s'.dispatches = s.dispatches ++ [⟨p.parcel i, false, p.rejected⟩] ∧
      s.worker.Grows (fun o => o.frame ≠ .err backPressureText) s'.worker ∧
      ((s'.activity = .publishing p (List.finRange n) ∧ s'.publications = s.publications ∧
          p.rejected = none) ∨
        (s'.activity = .idle ∧ s'.publications = s.publications ++ [p] ∧
          (p.rejected = none → n ≤ 1))) := by
  unfold Shard.handlePub subjectError
  cases hparse : parsePublisherSubject frame.subject with
  | error e =>
      rw [Worker.dispatchLocal_error hparse]
      dsimp only
      refine ⟨rfl, ?_, Or.inr ⟨hidle, rfl, by simp⟩⟩
      exact (s.worker.grows_emitErrTo r (subjectErrorText_mem e)).mono fun o ho => ho.isReply.1
  | ok tokens =>
      obtain ⟨worker, heq⟩ := Worker.dispatchLocal_ok hparse s.worker
      have hgrows := (Worker.extends_dispatchLocal hparse heq).grows.mono
        (Q := fun o => o.frame ≠ .err backPressureText) (by
          rintro o ⟨sub, -, hframe, -⟩
          rw [hframe]
          simp [PublishedFrame.msg])
      rw [heq]
      dsimp only
      by_cases hn : 1 < n
      · rw [if_pos hn]
        exact ⟨rfl, hgrows, Or.inl ⟨rfl, rfl, rfl⟩⟩
      · rw [if_neg hn]
        exact ⟨rfl, hgrows, Or.inr ⟨rfl, rfl, fun _ => by omega⟩⟩

/-- An idle thread is in no push loop. -/
lemma Shard.current_of_idle {s : Shard n} (h : s.activity = .idle) : s.current = [] := by
  rw [Shard.current, h]

/-- A thread in its push loop has one publication in hand. -/
lemma Shard.current_of_publishing {s : Shard n} {p : Publication n} {todo : List (Fin n)}
    (h : s.activity = .publishing p todo) : s.current = [p] := by
  rw [Shard.current, h]

/-- On a single shard there is nobody to push to. -/
lemma peers_eq_nil (hn : n ≤ 1) (i : Fin n) : peers i = [] := by
  rw [peers, List.filter_eq_nil_iff]
  intro j _
  have : j = i := Fin.ext (by omega)
  simp [this]

/-- Handling a `PUB`: the new publication has not been pushed yet, and its dispatch was not a
drained one. -/
lemma Routed.handlePub {b : Broker n} (h : Routed b) {i : Fin n} {r : ConnRef}
    (frame : PublishedFrame) (hidle : (b.shards i).activity = .idle)
    (hr : r < (b.shards i).worker.conns.length) :
    Routed (b.setShard i ((b.shards i).handlePub i r frame)) := by
  obtain ⟨hdisp, hgrows, hcases⟩ := (b.shards i).handlePub_spec i r frame hidle
  have hi := h.sound i
  set p : Publication n := ⟨r, frame, subjectError frame.subject, []⟩
  set s' := (b.shards i).handlePub i r frame
  have hpubs : s'.pubs = (b.shards i).pubs ++ [p] := by
    rw [Shard.pubs, Shard.pubs, Shard.current_of_idle hidle]
    rcases hcases with ⟨hact, hsame, -⟩ | ⟨hact, hadd, -⟩
    · rw [Shard.current_of_publishing hact, hsame, List.append_nil]
    · rw [Shard.current_of_idle hact, hadd, List.append_nil, List.append_nil]
  refine h.of_setShard rfl rfl ⟨?_, ?_, ?_, ?_, ?_, fun r' => ?_⟩ (fun k => ?_) (fun j => ?_)
  · rw [hdisp, hpubs, List.filter_append, List.map_append, hi.own]
    rfl
  · rw [hdisp]
    intro d hd hdrained
    rcases List.mem_append.mp hd with hd | hd
    · exact hi.drained d hd hdrained
    · rw [List.mem_singleton.mp hd] at hdrained
      cases hdrained
  · rw [hpubs]
    intro q hq
    rcases List.mem_append.mp hq with hq | hq
    · exact hi.rejected q hq
    · rw [List.mem_singleton.mp hq]
  · rcases hcases with ⟨-, hsame, -⟩ | ⟨-, hadd, hn⟩
    · rw [hsame]; exact hi.finished
    · rw [hadd]
      intro q hq
      rcases List.mem_append.mp hq with hq | hq
      · exact hi.finished q hq
      · rw [List.mem_singleton.mp hq]
        split_ifs with hrej
        · rw [peers_eq_nil (hn hrej)]; rfl
        · rfl
  · intro q todo hact
    rcases hcases with ⟨hact', -, hrej⟩ | ⟨hact', -, -⟩
    · rw [hact'] at hact
      cases hact
      exact ⟨hrej, hr.trans_le hgrows.conns, rfl⟩
    · rw [hact'] at hact
      cases hact
  · rw [hgrows.backPressureOffers (fun o ho => ho), hi.reported]
    rcases hcases with ⟨-, hsame, -⟩ | ⟨-, hadd, -⟩
    · rw [hsame]
    · rw [hadd, List.countP_append]
      simp [p, Publication.backPressureSeen]
  · rw [Shard.drainedFrom, hdisp, List.filter_append]
    simp [Shard.drainedFrom]
  · rw [Shard.pushedTo, hpubs, List.filter_append]
    simp [Shard.pushedTo, p, Publication.pushedTo]

/-! ### The push loop -/

/-- A shard whose publication has got one more push, or has fewer shards to go. -/
lemma Shard.Sound.push {s : Shard n} {i : Fin n} (h : s.Sound i) {p p' : Publication n}
    {todo todo' : List (Fin n)} (hact : s.activity = .publishing p todo)
    (hconn : p'.conn = p.conn) (hframe : p'.frame = p.frame) (hrej : p'.rejected = p.rejected)
    (htodo : p'.pushes.map (·.1) ++ todo'.filter (· ≠ i) =
      p.pushes.map (·.1) ++ todo.filter (· ≠ i)) :
    ({ s with activity := .publishing p' todo' } : Shard n).Sound i := by
  have hpubs : s.pubs = s.publications ++ [p] := by
    rw [Shard.pubs, Shard.current_of_publishing hact]
  obtain ⟨hnone, hlt, hcur⟩ := h.current p todo hact
  refine ⟨?_, h.drained, ?_, h.finished, ?_, h.reported⟩
  · have hown := h.own
    rw [hpubs] at hown
    rw [hown, List.map_append, Shard.pubs, Shard.current, List.map_append]
    simp [Publication.parcel, hconn, hframe, hrej]
  · intro q hq
    rcases List.mem_append.mp hq with hq | hq
    · exact h.rejected q (by rw [hpubs]; exact List.mem_append_left _ hq)
    · rw [List.mem_singleton.mp hq, hrej, hframe]
      exact h.rejected p (by rw [hpubs]; exact List.mem_append_right _ List.mem_cons_self)
  · rintro q todo'' ⟨⟩
    exact ⟨hrej.trans hnone, by rw [hconn]; exact hlt, htodo.trans hcur⟩

/-- What a shard has pushed to another one, the publication in hand apart. -/
lemma Shard.pushedTo_of_publishing {s : Shard n} {p : Publication n} {todo : List (Fin n)}
    (hact : s.activity = .publishing p todo) (i j : Fin n) :
    s.pushedTo i j = (s.publications.filter (·.pushedTo j)).map (·.parcel i) ++
      if p.pushedTo j then [p.parcel i] else [] := by
  rw [Shard.pushedTo, Shard.pubs, Shard.current_of_publishing hact, List.filter_append,
    List.map_append]
  split_ifs with hp <;> simp [hp]

/-- Where a publication was pushed to after one more attempt. -/
lemma Publication.pushedTo_push (p : Publication n) (j : Fin n) (ok : Bool) (k : Fin n) :
    ({ p with pushes := p.pushes ++ [(j, ok)] } : Publication n).pushedTo k =
      (p.pushedTo k || (decide (k = j) && ok)) := by
  cases ok <;> simp [Publication.pushedTo, Bool.decide_or]

/-- A push that succeeds adds its parcel to what was pushed to that shard. -/
lemma Shard.pushedTo_of_push {s : Shard n} {p : Publication n} {todo : List (Fin n)}
    (hact : s.activity = .publishing p todo) {j : Fin n} (hnew : p.pushedTo j = false)
    (todo' : List (Fin n)) (i k : Fin n) :
    ({ s with activity := .publishing { p with pushes := p.pushes ++ [(j, true)] } todo' } :
      Shard n).pushedTo i k = s.pushedTo i k ++ if k = j then [p.parcel i] else [] := by
  rw [Shard.pushedTo_of_publishing rfl, Shard.pushedTo_of_publishing hact, List.append_assoc,
    Publication.pushedTo_push]
  congr 1
  by_cases hk : k = j
  · subst hk
    simp [hnew, Publication.parcel]
  · simp [hk, Publication.parcel]

/-- A publication is pushed to no shard twice. -/
lemma Shard.Sound.not_pushedTo {s : Shard n} {i j : Fin n} (h : s.Sound i) (hji : j ≠ i)
    {p : Publication n} {todo : List (Fin n)} (hact : s.activity = .publishing p (j :: todo)) :
    p.pushedTo j = false := by
  have hcur := (h.current p _ hact).2.2
  have hnodup : (peers i).Nodup := (List.nodup_finRange n).filter _
  rw [← hcur, List.filter_cons_of_pos (by simpa using hji), List.nodup_append] at hnodup
  by_contra hp
  have hmem : (j, true) ∈ p.pushes := by simpa [Publication.pushedTo] using hp
  exact hnodup.2.2 j (List.mem_map.mpr ⟨_, hmem, rfl⟩) j List.mem_cons_self rfl

/-- Reporting back-pressure adds one offer of it, for the publisher. -/
lemma backPressureOffers_finish {s : Shard n} {p : Publication n}
    (hconn : p.conn < s.worker.conns.length) (r : ConnRef) :
    (s.finish p).worker.backPressureOffers r = s.worker.backPressureOffers r +
      if p.conn = r ∧ p.backPressureSeen then 1 else 0 := by
  unfold Shard.finish
  by_cases hbp : p.backPressureSeen = true
  · simp only [hbp, if_true, and_true]
    obtain ⟨outcome, hoffer⟩ := Worker.offers_emitErrTo hconn
      (show (encode (.err backPressureText)).length ≤ shortFrameBuf by decide)
    rw [Worker.backPressureOffers]
    rw [hoffer, List.countP_append, Worker.backPressureOffers, List.countP_singleton]
    simp
  · simp [hbp]

/-- A publication that has finished keeps the shard sound. -/
lemma Shard.Sound.finish {s : Shard n} {i : Fin n} (h : s.Sound i) {p : Publication n}
    (hact : s.activity = .publishing p []) : (s.finish p).Sound i := by
  obtain ⟨hnone, hlt, hcur⟩ := h.current p [] hact
  have hpubs : (s.finish p).pubs = s.pubs := by
    rw [Shard.pubs, Shard.pubs, Shard.current_of_publishing hact, Shard.current_of_idle rfl,
      List.append_nil]
    rfl
  refine ⟨?_, h.drained, ?_, ?_, ?_, fun r => ?_⟩
  · rw [hpubs]; exact h.own
  · rw [hpubs]; exact h.rejected
  · intro q hq
    rcases List.mem_append.mp hq with hq | hq
    · exact h.finished q hq
    · rw [List.mem_singleton.mp hq, if_pos hnone]
      simpa using hcur
  · intro q todo hq
    cases hq
  · rw [backPressureOffers_finish hlt, h.reported]
    change _ = List.countP _ (s.publications ++ [p])
    rw [List.countP_append, List.countP_singleton]
    simp

/-- A step of shard `i` that appends a parcel of its own to the inbox of another shard. -/
lemma Routed.of_push {b b' : Broker n} (h : Routed b) {i j : Fin n} (hji : j ≠ i) {s : Shard n}
    {x : Parcel n} (hx : x.origin.1 = i) (hshards : b'.shards = (b.setShard i s).shards)
    (hitems : (b'.inboxes j).items = (b.inboxes j).items ++ [x])
    (hinboxes : ∀ k ≠ j, b'.inboxes k = b.inboxes k) (hsound : s.Sound i)
    (hdrained : ∀ k, s.drainedFrom k = (b.shards i).drainedFrom k)
    (hpushed : ∀ k, s.pushedTo i k =
      (b.shards i).pushedTo i k ++ if k = j then [x] else []) : Routed b' := by
  refine ⟨fun k => ?_, fun k l hkl => ?_, fun l y hy => ?_⟩
  · rw [hshards]
    rcases eq_or_ne k i with rfl | hk
    · rw [shards_setShard_self]; exact hsound
    · rw [shards_setShard_ne _ _ _ hk]; exact h.sound k
  · have htarget : (b'.shards l).drainedFrom k = (b.shards l).drainedFrom k := by
      rw [hshards]
      rcases eq_or_ne l i with rfl | hl
      · rw [shards_setShard_self, hdrained]
      · rw [shards_setShard_ne _ _ _ hl]
    have hsource : (b'.shards k).pushedTo k l =
        (b.shards k).pushedTo k l ++ if k = i ∧ l = j then [x] else [] := by
      rw [hshards]
      rcases eq_or_ne k i with rfl | hk
      · rw [shards_setShard_self, hpushed]; simp
      · rw [shards_setShard_ne _ _ _ hk]; simp [hk]
    have hinbox : (b'.inboxes l).items.filter (·.origin.1 = k) =
        (b.inboxes l).items.filter (·.origin.1 = k) ++ if k = i ∧ l = j then [x] else [] := by
      rcases eq_or_ne l j with rfl | hl
      · rw [hitems, List.filter_append]
        by_cases hk : k = i
        · simp [hk, hx]
        · simp [hk, hx, Ne.symm hk]
      · rw [hinboxes l hl]; simp [hl]
    rw [htarget, hsource, hinbox, ← List.append_assoc, h.peer k l hkl]
  · rcases eq_or_ne l j with rfl | hl
    · rw [hitems] at hy
      rcases List.mem_append.mp hy with hy | hy
      · exact h.inbox l y hy
      · rw [List.mem_singleton.mp hy, hx]; exact hji.symm
    · rw [hinboxes l hl] at hy
      exact h.inbox l y hy

/-- A push keeps the invariant. -/
lemma Routed.pushNext {b : Broker n} (h : Routed b) {i : Fin n} {p : Publication n}
    {todo : List (Fin n)} (hact : (b.shards i).activity = .publishing p todo) :
    Routed (b.pushNext i p todo) := by
  have hi := h.sound i
  cases todo with
  | nil =>
      refine h.of_setShard rfl rfl (hi.finish hact) (fun _ => rfl) fun j => ?_
      have hpubs : ((b.shards i).finish p).pubs = (b.shards i).pubs := by
        rw [Shard.pubs, Shard.pubs, Shard.current_of_publishing hact, Shard.current_of_idle rfl,
          List.append_nil]
        rfl
      rw [Shard.pushedTo, Shard.pushedTo, hpubs]
  | cons j todo =>
      rw [Broker.pushNext]
      by_cases hji : j = i
      · -- the own inbox is skipped
        rw [if_pos hji]
        refine h.of_setShard rfl rfl (hi.push hact rfl rfl rfl ?_) (fun _ => rfl) fun k => ?_
        · rw [List.filter_cons_of_neg (by simpa using hji)]
        · rw [Shard.pushedTo_of_publishing rfl, Shard.pushedTo_of_publishing hact]
      · rw [if_neg hji]
        have htodo : ∀ ok : Bool, (p.pushes ++ [(j, ok)]).map (·.1) ++ todo.filter (· ≠ i) =
            p.pushes.map (·.1) ++ (j :: todo).filter (· ≠ i) := by
          intro ok
          rw [List.filter_cons_of_pos (by simpa using hji)]
          simp
        cases hpush : (b.inboxes j).push ⟨(i, p.conn), p.frame⟩ with
        | none =>
            refine h.of_setShard rfl rfl (hi.push hact rfl rfl rfl (htodo false)) (fun _ => rfl)
              fun k => ?_
            rw [Shard.pushedTo_of_publishing rfl, Shard.pushedTo_of_publishing hact,
              Publication.pushedTo_push, Bool.and_false, Bool.or_false]
            rfl
        | some result =>
            obtain ⟨wasEmpty, inbox⟩ := result
            have hitems := BoundedQueue.items_of_push hpush
            have hpushed := Shard.pushedTo_of_push hact (hi.not_pushedTo hji hact) todo i
            refine h.of_push hji rfl rfl ?_ (fun k hk => ?_) (hi.push hact rfl rfl rfl (htodo true))
              (fun _ => rfl) hpushed
            · rw [← Publication.parcel] at hitems
              simpa using hitems
            · simp [hk]

/-! ### The pop loop -/

/-- Only publications that were not rejected are pushed. -/
lemma Shard.Sound.rejected_of_pushedTo {s : Shard n} {i j : Fin n} (h : s.Sound i)
    {p : Publication n} (hp : p ∈ s.pubs) (hpushed : p.pushedTo j = true) : p.rejected = none := by
  have hmem : (j, true) ∈ p.pushes := by simpa [Publication.pushedTo] using hpushed
  rcases List.mem_append.mp hp with hp | hp
  · by_contra hrej
    have hpushes := h.finished p hp
    rw [if_neg hrej, List.map_eq_nil_iff] at hpushes
    rw [hpushes] at hmem
    cases hmem
  · unfold Shard.current at hp
    split at hp
    · rename_i q todo hact
      rw [List.mem_singleton.mp hp]
      exact (h.current q todo hact).1
    · cases hp

/-- A frame in an inbox is a publication of the shard it came from, which was pushed there. -/
lemma Routed.exists_pub_of_mem_inbox {b : Broker n} (h : Routed b) {j : Fin n} {x : Parcel n}
    (hx : x ∈ (b.inboxes j).items) :
    ∃ p ∈ (b.shards x.origin.1).pubs, p.pushedTo j ∧ p.frame = x.frame := by
  have hne := h.inbox j x hx
  have hmem : x ∈ (b.shards x.origin.1).pushedTo x.origin.1 j := by
    rw [← h.peer _ j hne]
    exact List.mem_append_right _ (List.mem_filter.mpr ⟨hx, by simp⟩)
  obtain ⟨p, hp, hparcel⟩ := List.mem_map.mp hmem
  obtain ⟨hpubs, hpushed⟩ := List.mem_filter.mp hp
  exact ⟨p, hpubs, hpushed, by rw [← hparcel]; rfl⟩

/-- The subjects of the frames in an inbox are valid. -/
lemma Routed.valid_of_mem_inbox {b : Broker n} (h : Routed b) {j : Fin n} {x : Parcel n}
    (hx : x ∈ (b.inboxes j).items) :
    ∃ tokens, parsePublisherSubject x.frame.subject = .ok tokens := by
  obtain ⟨p, hpubs, hpushed, hframe⟩ := h.exists_pub_of_mem_inbox hx
  have hrej := (h.sound _).rejected_of_pushedTo hpubs hpushed
  rw [(h.sound _).rejected p hpubs] at hrej
  rw [← hframe]
  unfold subjectError at hrej
  cases hparse : parsePublisherSubject p.frame.subject with
  | ok tokens => exact ⟨tokens, rfl⟩
  | error e => rw [hparse] at hrej; cases hrej

/-- Dispatching a drained frame with a valid subject adds one successful dispatch. -/
lemma Shard.dispatchDrained_spec (s : Shard n) {x : Parcel n} {tokens : List Bytes}
    (hparse : parsePublisherSubject x.frame.subject = .ok tokens) :
    ∃ w, s.dispatchDrained x =
        { s with worker := w, dispatches := s.dispatches ++ [⟨x, true, none⟩] } ∧
      s.worker.dispatchLocal x.frame = .ok w ∧
      s.worker.Grows (fun o => o.frame ≠ .err backPressureText) w := by
  obtain ⟨worker, heq⟩ := Worker.dispatchLocal_ok hparse s.worker
  refine ⟨_, by rw [Shard.dispatchDrained, heq], heq, ?_⟩
  refine (Worker.extends_dispatchLocal hparse heq).grows.mono ?_
  rintro o ⟨sub, -, hframe, -⟩
  rw [hframe]
  simp [PublishedFrame.msg]

/-- A frame that came from another shard and was dispatched without an error. -/
lemma Shard.Sound.drain {s : Shard n} {i : Fin n} (h : s.Sound i) (hact : s.activity = .draining)
    {x : Parcel n} (hx : x.origin.1 ≠ i) {w : Worker}
    (hgrows : s.worker.Grows (fun o => o.frame ≠ .err backPressureText) w) :
    ({ s with worker := w, dispatches := s.dispatches ++ [⟨x, true, none⟩] } : Shard n).Sound
      i where
  own := by
    rw [List.filter_append, List.filter_cons_of_neg (by simp), List.filter_nil, List.append_nil]
    exact h.own
  drained d hd hdrained := by
    rcases List.mem_append.mp hd with hd | hd
    · exact h.drained d hd hdrained
    · rw [List.mem_singleton.mp hd]
      exact ⟨hx, rfl⟩
  rejected := h.rejected
  finished := h.finished
  current p todo hp := by cases hact.symm.trans hp
  reported r := by
    rw [hgrows.backPressureOffers (fun o ho => ho)]
    exact h.reported r

/-- What a shard has drained from another one after one more parcel. -/
lemma Shard.drainedFrom_drain (s : Shard n) (x : Parcel n) (w : Worker) (k : Fin n) :
    ({ s with worker := w, dispatches := s.dispatches ++ [⟨x, true, none⟩] } :
      Shard n).drainedFrom k = s.drainedFrom k ++ if x.origin.1 = k then [x] else [] := by
  rw [Shard.drainedFrom, Shard.drainedFrom]
  by_cases hk : x.origin.1 = k <;> simp [List.filter_append, hk]

/-- A step in which shard `i` takes the frame at the head of its inbox and dispatches it. -/
lemma Routed.of_pop {b b' : Broker n} (h : Routed b) {i : Fin n} {s : Shard n} {x : Parcel n}
    {inbox : BoundedQueue (Parcel n)} (hitems : (b.inboxes i).items = x :: inbox.items)
    (hshards : b'.shards = (b.setShard i s).shards)
    (hinboxes : b'.inboxes = Function.update b.inboxes i inbox) (hsound : s.Sound i)
    (hpushed : ∀ k, s.pushedTo i k = (b.shards i).pushedTo i k)
    (hdrained : ∀ k, s.drainedFrom k =
      (b.shards i).drainedFrom k ++ if x.origin.1 = k then [x] else []) : Routed b' := by
  refine ⟨fun k => ?_, fun k l hkl => ?_, fun l y hy => ?_⟩
  · rw [hshards]
    rcases eq_or_ne k i with rfl | hk
    · rw [shards_setShard_self]
      exact hsound
    · rw [shards_setShard_ne _ _ _ hk]
      exact h.sound k
  · have hsource : ((b.setShard i s).shards k).pushedTo k l = (b.shards k).pushedTo k l := by
      rcases eq_or_ne k i with rfl | hk
      · rw [shards_setShard_self, hpushed]
      · rw [shards_setShard_ne _ _ _ hk]
    rw [hshards, hinboxes, hsource, ← h.peer k l hkl]
    rcases eq_or_ne l i with rfl | hl
    · -- the frame moves from the head of the inbox to the end of what was drained
      rw [shards_setShard_self, Function.update_self, hdrained, hitems, List.append_assoc]
      by_cases hk : x.origin.1 = k <;> simp [hk]
    · rw [shards_setShard_ne _ _ _ hl, Function.update_of_ne hl]
  · rw [hinboxes] at hy
    rcases eq_or_ne l i with rfl | hl
    · rw [Function.update_self] at hy
      exact h.inbox l y (by rw [hitems]; exact List.mem_cons_of_mem _ hy)
    · rw [Function.update_of_ne hl] at hy
      exact h.inbox l y hy

/-- A pop keeps the invariant. -/
lemma Routed.popNext {b : Broker n} (h : Routed b) {i : Fin n}
    (hact : (b.shards i).activity = .draining) : Routed (b.popNext i) := by
  have hi := h.sound i
  have hcurrent : (b.shards i).current = [] := by rw [Shard.current, hact]
  unfold Broker.popNext
  cases hpop : (b.inboxes i).pop with
  | none =>
      have hpubs : ({ b.shards i with activity := .idle } : Shard n).pubs = (b.shards i).pubs := by
        rw [Shard.pubs, Shard.pubs, hcurrent, Shard.current_of_idle rfl]
      refine h.of_setShard rfl rfl (hi.of_same rfl ?_ rfl le_rfl (fun _ => rfl) ?_) (fun _ => rfl)
        fun j => by rw [Shard.pushedTo, Shard.pushedTo, hpubs]
      · rw [hcurrent, Shard.current_of_idle rfl]
      · intro p todo hp
        cases hp
  | some result =>
      obtain ⟨x, inbox⟩ := result
      have hitems := BoundedQueue.items_of_pop hpop
      have hx : x ∈ (b.inboxes i).items := by simp [hitems]
      obtain ⟨tokens, hparse⟩ := h.valid_of_mem_inbox hx
      obtain ⟨w, hs', -, hgrows⟩ := (b.shards i).dispatchDrained_spec hparse
      dsimp only
      rw [hs']
      exact h.of_pop hitems rfl rfl (hi.drain hact (h.inbox i x hx) hgrows) (fun _ => rfl)
        ((b.shards i).drainedFrom_drain x w)

/-! ## Every run -/

/-- A step keeps the invariant. -/
lemma routed_step {b b' : Broker n} {a : Action n} (h : Routed b) (hstep : step b a = some b') :
    Routed b' := by
  have hs := step_eq_some hstep
  cases a with
  | push i =>
      obtain ⟨p, todo, hact, rfl⟩ := hs
      exact h.pushNext hact
  | drainPop i =>
      obtain ⟨hact, rfl⟩ := hs
      exact h.popNext hact
  | drainRead i =>
      obtain ⟨hact, -, rfl⟩ := hs
      have hcurrent : ({ b.shards i with activity := .draining } : Shard n).current =
          (b.shards i).current := by rw [Shard.current_of_idle hact]; rfl
      refine h.of_setShard rfl rfl ((h.sound i).of_same rfl hcurrent rfl le_rfl (fun _ => rfl) ?_)
        (fun _ => rfl) fun j => ?_
      · intro p todo hp
        cases hp
      · rw [Shard.pushedTo, Shard.pushedTo, Shard.pubs, Shard.pubs, hcurrent]
  | task i t =>
      obtain ⟨hact, s, hrun, rfl⟩ := hs
      rcases Shard.run_cases hrun with ⟨r, subject, replyTo, payload, -, -, hr, rfl⟩ |
        ⟨-, hactivity, hpublications, hdispatches, hgrows⟩
      · exact h.handlePub _ hact hr
      · have hcurrent : s.current = (b.shards i).current := by
          rw [Shard.current, Shard.current, hactivity]
        refine h.of_setShard rfl rfl ((h.sound i).of_same hpublications hcurrent hdispatches
          hgrows.conns (hgrows.backPressureOffers fun o ho => ho.isReply.1) ?_) (fun k => ?_)
          fun j => ?_
        · intro p todo hp
          exact ⟨todo, by rw [← hactivity, hp], rfl⟩
        · rw [Shard.drainedFrom, Shard.drainedFrom, hdispatches]
        · rw [Shard.pushedTo, Shard.pushedTo, Shard.pubs, Shard.pubs, hpublications, hcurrent]

/-- The `PUB` an action of shard `i` handles: from which connection, and what it publishes. -/
def Action.published (i : Fin n) : Action n → List (ConnRef × PublishedFrame)
  | .task k (.frame r (.pub subject replyTo payload)) =>
      if k = i ∧ payload.length ≤ maxPayloadBytes then [(r, ⟨subject, replyTo, payload⟩)] else []
  | _ => []

/-- An action publishes on its own shard only. -/
lemma published_of_ne {a : Action n} {i : Fin n} (h : i ≠ a.shard) : a.published i = [] := by
  unfold Action.published
  split
  · exact if_neg fun hcond => h hcond.1.symm
  · rfl

/-- Each step adds to the publications of a shard the `PUB` it handles. -/
lemma pubs_step {b b' : Broker n} {a : Action n} (hstep : step b a = some b') (i : Fin n) :
    (b'.shards i).pubs.map (fun p => (p.conn, p.frame)) =
      (b.shards i).pubs.map (fun p => (p.conn, p.frame)) ++ a.published i := by
  rcases ne_or_eq i a.shard with hi | rfl
  · rw [step_frame hstep hi, published_of_ne hi, List.append_nil]
  have hs := step_eq_some hstep
  cases a with
  | push i =>
      obtain ⟨p, todo, hact, rfl⟩ := hs
      obtain ⟨s, hshards, hcases⟩ := b.shards_pushNext i p todo
      have hbefore : (b.shards i).pubs = (b.shards i).publications ++ [p] := by
        rw [Shard.pubs, Shard.current_of_publishing hact]
      simp only [Action.shard, Action.published, hshards, shards_setShard_self, hbefore,
        List.append_nil]
      rcases hcases with rfl | ⟨p', todo', hconn, hframe, rfl⟩
      · simp [Shard.pubs, Shard.finish, Shard.current]
      · simp [Shard.pubs, Shard.current, hconn, hframe]
  | drainPop i =>
      obtain ⟨hact, rfl⟩ := hs
      obtain ⟨s, hshards, hcases⟩ := b.shards_popNext i
      simp only [Action.shard, Action.published, hshards, shards_setShard_self, List.append_nil]
      rcases hcases with rfl | ⟨parcel, -, rfl⟩
      · simp [Shard.pubs, Shard.current, hact]
      · unfold Shard.dispatchDrained
        split <;> rfl
  | drainRead i =>
      obtain ⟨hact, -, rfl⟩ := hs
      have hself : ((b.startDrain i).shards i) = { b.shards i with activity := .draining } :=
        shards_setShard_self _ _ _
      simp [Action.shard, Action.published, hself, Shard.pubs, Shard.current, hact]
  | task i t =>
      obtain ⟨hact, s, hrun, rfl⟩ := hs
      simp only [Action.shard, shards_setShard_self]
      rcases Shard.run_cases hrun with ⟨r, subject, replyTo, payload, rfl, hlen, -, rfl⟩ |
        ⟨hnone, hactivity, hpublications, -, -⟩
      · obtain ⟨-, -, hcases⟩ :=
          (b.shards i).handlePub_spec i r ⟨subject, replyTo, payload⟩ hact
        rw [Action.published, if_pos ⟨rfl, hlen⟩, Shard.pubs, Shard.pubs,
          Shard.current_of_idle hact, List.append_nil]
        rcases hcases with ⟨hact', hsame, -⟩ | ⟨hact', hadd, -⟩
        · rw [Shard.current_of_publishing hact', hsame, List.map_append]
          rfl
        · rw [Shard.current_of_idle hact', hadd, List.append_nil, List.map_append]
          rfl
      · have hpub : (Action.task i t).published i = [] := by
          unfold Action.published
          split
          · rename_i heq
            cases heq
            exact if_neg fun hcond => hnone _ _ _ _ rfl hcond.2
          · rfl
        rw [hpub, List.append_nil, Shard.pubs, Shard.pubs, Shard.current, Shard.current,
          hactivity, hpublications]

/-- A run keeps the invariant. -/
lemma routed_run {capacity : ℕ} {as : List (Action n)} {b : Broker n}
    (hrun : run step (Broker.init n capacity) as = some b) : Routed b :=
  run_invariant (fun _ _ _ h hs => routed_step h hs) (routed_init n capacity) hrun

/-- The publications of a shard are the `PUB`s it has handled. -/
lemma pubs_run {capacity : ℕ} {as : List (Action n)} {b : Broker n}
    (hrun : run step (Broker.init n capacity) as = some b) (i : Fin n) :
    (b.shards i).pubs.map (fun p => (p.conn, p.frame)) = as.flatMap (·.published i) := by
  have hlog := run_log (fun b : Broker n => (b.shards i).pubs.map fun p => (p.conn, p.frame))
    (fun _ _ _ hs => pubs_step hs i) hrun
  have hnone : ((Broker.init n capacity).shards i).pubs = [] := rfl
  rwa [hnone, List.map_nil, List.nil_append] at hlog

/-- The publications of one connection, in the order in which they were handled. -/
def Shard.pubsOf (s : Shard n) (r : ConnRef) : List (Publication n) := s.pubs.filter (·.conn = r)

/-- What came from one connection, in some list of frames on their way. -/
def framesFrom (origin : Fin n × ConnRef) (parcels : List (Parcel n)) : List PublishedFrame :=
  (parcels.filter (·.origin = origin)).map (·.frame)

/-- Frames of a connection of shard `i` are among the frames of shard `i`. -/
lemma framesFrom_filter (i : Fin n) (r : ConnRef) (parcels : List (Parcel n)) :
    framesFrom (i, r) (parcels.filter (·.origin.1 = i)) = framesFrom (i, r) parcels := by
  unfold framesFrom
  rw [List.filter_filter]
  congr 1
  refine List.filter_congr fun x _ => ?_
  by_cases hx : x.origin = (i, r) <;> simp [hx]

/-- The frames of one client among those pushed are its publications that were pushed. -/
lemma framesFrom_pushedTo (s : Shard n) (i j : Fin n) (r : ConnRef) :
    framesFrom (i, r) (s.pushedTo i j) = ((s.pubsOf r).filter (·.pushedTo j)).map (·.frame) := by
  unfold framesFrom Shard.pushedTo Shard.pubsOf
  rw [List.filter_map, List.map_map, List.filter_filter, List.filter_filter]
  have hfilter : s.pubs.filter (fun p => ((fun x : Parcel n => decide (x.origin = (i, r))) ∘
      fun p : Publication n => p.parcel i) p && p.pushedTo j) =
      s.pubs.filter (fun p => p.pushedTo j && decide (p.conn = r)) :=
    List.filter_congr fun p _ => by simp [Publication.parcel, Bool.and_comm]
  rw [hfilter]
  rfl

/-- A publication that was rejected is pushed nowhere. -/
lemma Shard.Sound.pushes_of_rejected {s : Shard n} {i : Fin n} (h : s.Sound i) {p : Publication n}
    (hp : p ∈ s.pubs) (hrej : p.rejected ≠ none) : p.pushes = [] := by
  rcases List.mem_append.mp hp with hp | hp
  · have hpushes := h.finished p hp
    rwa [if_neg hrej, List.map_eq_nil_iff] at hpushes
  · unfold Shard.current at hp
    split at hp
    · rename_i q todo hact
      rw [List.mem_singleton.mp hp] at hrej
      exact absurd (h.current q todo hact).1 hrej
    · cases hp

/-- The dispatches for a shard's own connection are those of its publications. -/
lemma Shard.Sound.dispatches_of_origin {s : Shard n} {i : Fin n} (h : s.Sound i) (r : ConnRef) :
    s.dispatches.filter (fun d => d.parcel.origin = (i, r)) =
      (s.pubsOf r).map fun p => ⟨p.parcel i, false, p.rejected⟩ := by
  have hown := congrArg (List.filter fun d => decide (d.parcel.origin = (i, r))) h.own
  rw [List.filter_filter, List.filter_map] at hown
  have hleft : s.dispatches.filter (fun d => decide (d.parcel.origin = (i, r)) && !d.drained) =
      s.dispatches.filter (fun d => d.parcel.origin = (i, r)) := by
    refine List.filter_congr fun d hd => ?_
    by_cases horigin : d.parcel.origin = (i, r)
    · have hnot : d.drained = false := by
        by_contra hdrained
        exact (h.drained d hd (by simpa using hdrained)).1 (by rw [horigin])
      simp [hnot]
    · simp [horigin]
  rw [← hleft, hown, Shard.pubsOf]
  congr 1
  exact List.filter_congr fun p _ => by simp [Publication.parcel]

/-- **Publishing across shards loses, duplicates and reorders nothing silently.** After any run
of any number of shards, for connection `r` of shard `i`, with `pubs` its handled `PUB`s:

* `pubs` are the `PUB`s it sent, in order, and exactly those with an invalid subject are rejected;
* for every other shard, the frames of the connection it has drained, followed by those still in
  its inbox, are those of `pubs` whose push to it succeeded, unchanged and in order;
* shard `i` has itself dispatched each of `pubs` once, with an error if it is rejected, and has
  nothing of its own in its inbox;
* a rejected one was pushed to nobody, and a finished one was offered to every other shard once;
* the connection was offered one report of back-pressure for each finished one of them with a
  push that failed;
* no dispatch of a drained frame fails, on any shard. -/
theorem publish_exactly_once {capacity : ℕ} {as : List (Action n)} {b : Broker n}
    (hrun : run step (Broker.init n capacity) as = some b) (i : Fin n) (r : ConnRef) :
    let pubs := (b.shards i).pubsOf r
    (pubs.map (·.frame) = ((as.flatMap (·.published i)).filter (·.1 = r)).map (·.2) ∧
      ∀ p ∈ pubs, p.rejected = subjectError p.frame.subject) ∧
    (∀ j ≠ i, framesFrom (i, r) (((b.shards j).dispatches.filter (·.drained)).map (·.parcel)) ++
      framesFrom (i, r) (b.inboxes j).items = (pubs.filter (·.pushedTo j)).map (·.frame)) ∧
    ((b.shards i).dispatches.filter (fun d => d.parcel.origin = (i, r)) =
        pubs.map (fun p => ⟨p.parcel i, false, p.rejected⟩) ∧
      framesFrom (i, r) (b.inboxes i).items = []) ∧
    (∀ p ∈ pubs, (p.rejected ≠ none → p.pushes = []) ∧
      (p.rejected = none → p ∈ (b.shards i).publications → p.pushes.map (·.1) = peers i)) ∧
    (b.shards i).worker.backPressureOffers r =
      (b.shards i).publications.countP (fun p => p.conn = r ∧ p.backPressureSeen) ∧
    ∀ j, ∀ d ∈ (b.shards j).dispatches, d.drained = true → d.error = none := by
  have hrouted := routed_run hrun
  have hi := hrouted.sound i
  refine ⟨⟨?_, ?_⟩, fun j hj => ?_, ⟨?_, ?_⟩, fun p hp => ⟨fun hrej => ?_, fun hrej hfin => ?_⟩,
    hi.reported r, fun j d hd hdrained => ((hrouted.sound j).drained d hd hdrained).2⟩
  · rw [← pubs_run hrun i, Shard.pubsOf, List.filter_map, List.map_map]
    rfl
  · exact fun p hp => hi.rejected p (List.mem_filter.mp hp).1
  · have hpeer := congrArg (framesFrom (i, r)) (hrouted.peer i j hj.symm)
    have hdrained : framesFrom (i, r) ((b.shards j).drainedFrom i) =
        framesFrom (i, r) (((b.shards j).dispatches.filter (·.drained)).map (·.parcel)) := by
      rw [← framesFrom_filter i r (((b.shards j).dispatches.filter _).map _), List.filter_map,
        List.filter_filter, Shard.drainedFrom]
      congr 3
      funext d
      simp [Bool.and_comm]
    rw [framesFrom_pushedTo] at hpeer
    rw [← hpeer, ← hdrained, ← framesFrom_filter i r (b.inboxes j).items]
    unfold framesFrom
    rw [List.filter_append, List.map_append]
  · exact hi.dispatches_of_origin r
  · rw [framesFrom, List.map_eq_nil_iff, List.filter_eq_nil_iff]
    intro x hx
    simpa using fun horigin => hrouted.inbox i x hx (by rw [horigin])
  · exact hi.pushes_of_rejected (List.mem_filter.mp hp).1 hrej
  · rw [hi.finished p hfin, if_pos hrej]

/-- Two shards with inboxes of one frame: the first publication of the client of shard 0 has been
drained by shard 1, the second waits in its inbox, and the third has met back-pressure. -/
theorem publish_exactly_once_two_shards :
    let pub (payload : String) : Action 2 :=
      .task 0 (.frame 0 (.pub (ascii "a") none (ascii payload)))
    ∃ b, run step (Broker.init 2 1)
        ([.task 0 (.accept true), .task 0 (.greet 0), pub "x", .push 0, .push 0, .push 0,
          .drainRead 1, .drainPop 1, pub "y", .push 0, .push 0, .push 0,
          pub "z", .push 0, .push 0, .push 0]) = some b ∧
      (framesFrom (0, 0) (((b.shards 1).dispatches.filter (·.drained)).map (·.parcel)) ++
          framesFrom (0, 0) (b.inboxes 1).items =
        (((b.shards 0).pubsOf 0).filter (·.pushedTo 1)).map (·.frame)) ∧
      ((b.shards 0).pubsOf 0).map (·.frame) = [⟨ascii "a", none, ascii "x"⟩,
        ⟨ascii "a", none, ascii "y"⟩, ⟨ascii "a", none, ascii "z"⟩] := by
  intro pub
  obtain ⟨b, hrun⟩ := Option.isSome_iff_exists.mp (show (run step (Broker.init 2 1)
    [.task 0 (.accept true), .task 0 (.greet 0), pub "x", .push 0, .push 0, .push 0,
      .drainRead 1, .drainPop 1, pub "y", .push 0, .push 0, .push 0,
      pub "z", .push 0, .push 0, .push 0]).isSome = true by decide +kernel)
  have h := publish_exactly_once hrun 0 0
  refine ⟨b, hrun, h.2.1 1 (by decide), ?_⟩
  rw [h.1.1]
  decide

end Aulon.Server
