import Aulon.Core.InboxInvariant

/-!
# The inbox loses, duplicates and reorders nothing

* `inbox_fifo` — under every interleaving `pop` returns the claimed values in the order of their
  claims, no value is overwritten before it is read, none is read before it is written, and a
  `push` that fails hands its own value back and leaves the ring alone; it fails only on a full
  ring, as long as claims and capacity stay below `2 ^ 63`.
* `inbox_full_of_stale_tail` — beyond that bound a producer that kept an old copy of `tail` takes
  an empty ring for a full one.
-/

namespace Aulon.Core.ShardInbox

open Aulon.Lib

variable {ι α : Type} [DecidableEq ι]

/-! ## The value of a call -/

/-- The value with which an event calls the `push` of the producer `i`. -/
def Event.callOf (i : ι) : Event ι α → Option α
  | .called j v => if j = i then some v else none
  | .returned _ _ => none

/-- The value of the latest `push` that the producer `i` has called. -/
def lastCall (i : ι) (events : List (Event ι α)) : Option α :=
  events.reverse.findSome? (Event.callOf i)

/-- The latest call is that of the last event, if it is one. -/
lemma lastCall_append (i : ι) (events : List (Event ι α)) (e : Event ι α) :
    lastCall i (events ++ [e]) = (e.callOf i).or (lastCall i events) := by
  simp [lastCall, List.findSome?_cons]
  cases e.callOf i <;> rfl

variable {mask cap : ℕ} {s s' : System ι α}

/-- A `push` under way still carries the value it was called with. -/
lemma lastCall_step
    (h : ∀ i c, s.producers i = some c → lastCall i s.events = some c.value) {a : Act ι α}
    (hstep : step mask s a = some s') :
    ∀ i c, s'.producers i = some c → lastCall i s'.events = some c.value := by
  have hs := step_eq_some hstep
  cases a with
  | push i v =>
      obtain ⟨-, rfl⟩ := hs
      refine producer_update i _ (fun c hc => ?_) fun j c hji hj => ?_
      · cases hc
        simp [lastCall_append, Event.callOf, PushCall.start]
      · simpa [lastCall_append, Event.callOf, Ne.symm hji] using h j c hj
  | producer i spurious =>
      obtain ⟨d, hd, rfl⟩ := hs
      simp only [System.stepProducer]
      split
      · refine producer_update i _ (fun c hc => ?_) fun j c _ hj => h j c hj
        cases hc
        exact h i d hd
      · refine producer_update i none (fun c hc => by cases hc) fun j c _ hj => ?_
        simpa [lastCall_append, Event.callOf] using h j c hj
  | pop =>
      obtain ⟨-, rfl⟩ := hs
      exact h
  | consumer =>
      obtain ⟨d, hd, rfl⟩ := hs
      simp only [System.stepConsumer]
      split <;> exact h

/-- What a step does to the call of one producer: it is made, it goes on, or it stays. -/
lemma producer_step {a : Act ι α} (hstep : step mask s a = some s') (i : ι) :
    (∃ v, a = .push i v ∧ s'.producers i = some (.start v)) ∨
      (∃ spurious c, a = .producer i spurious ∧ s.producers i = some c ∧
        s' = s.stepProducer mask i spurious c) ∨
      (∀ v, a ≠ .push i v) ∧ s'.producers i = s.producers i := by
  have hs := step_eq_some hstep
  cases a with
  | push j v =>
      obtain ⟨-, rfl⟩ := hs
      rcases eq_or_ne i j with rfl | hij
      · exact Or.inl ⟨v, rfl, Function.update_self ..⟩
      · exact Or.inr (Or.inr ⟨fun v' h => hij (Act.push.inj h).1.symm,
          Function.update_of_ne hij _ _⟩)
  | producer j spurious =>
      obtain ⟨c, hc, rfl⟩ := hs
      rcases eq_or_ne i j with rfl | hij
      · exact Or.inr (Or.inl ⟨spurious, c, rfl, hc, rfl⟩)
      · refine Or.inr (Or.inr ⟨by simp, ?_⟩)
        simp only [System.stepProducer]
        split <;> exact Function.update_of_ne hij _ _
  | pop =>
      obtain ⟨-, rfl⟩ := hs
      exact Or.inr (Or.inr ⟨by simp, rfl⟩)
  | consumer =>
      obtain ⟨c, -, rfl⟩ := hs
      refine Or.inr (Or.inr ⟨by simp, ?_⟩)
      simp only [System.stepConsumer]
      split <;> rfl

/-- A `push` keeps its value from access to access. -/
lemma value_stepProducer {i : ι} {spurious : Bool} {c d : PushCall α}
    (h : (s.stepProducer mask i spurious c).producers i = some d) : d.value = c.value := by
  simp only [System.stepProducer] at h
  split at h
  · simp only [Function.update_self, Option.some.injEq] at h
    rw [← h]
  · simp at h

/-- The call of a `push` under way is in the run, and its producer has called no other since. -/
lemma call_run {as : List (Act ι α)} (hrun : run (step mask) System.start as = some s) {i : ι}
    {c : PushCall α} (hc : s.producers i = some c) :
    ∃ before after, as = before ++ .push i c.value :: after ∧ ∀ v, .push i v ∉ after := by
  refine run_history (I := fun as (s : System ι α) => ∀ c, s.producers i = some c →
    ∃ before after, as = before ++ .push i c.value :: after ∧ ∀ v, .push i v ∉ after)
    (fun _ h => by cases h) ?_ hrun c hc
  intro as s a s' _ ih hstep c hc
  -- a call from before goes on with any action but a call of the same producer
  have hgoes : ∀ d, s.producers i = some d → c.value = d.value → (∀ v, a ≠ .push i v) →
      ∃ before after, as ++ [a] = before ++ .push i c.value :: after ∧ ∀ v, .push i v ∉ after := by
    intro d hd hvalue ha
    obtain ⟨before, after, rfl, hafter⟩ := ih d hd
    refine ⟨before, after ++ [a], by simp [hvalue], fun v hv => ?_⟩
    rcases List.mem_append.mp hv with hv | hv
    · exact hafter v hv
    · exact ha v (List.mem_singleton.mp hv).symm
  rcases producer_step hstep i with ⟨v, rfl, hstart⟩ | ⟨spurious, d, rfl, hd, rfl⟩ | ⟨ha, hsame⟩
  · obtain rfl := Option.some.inj (hstart.symm.trans hc)
    exact ⟨as, [], rfl, fun _ => List.not_mem_nil⟩
  · exact hgoes d hd (value_stepProducer hc) fun _ h => by cases h
  · exact hgoes c (hsame.symm.trans hc) rfl ha

/-! ## A `push` that fails -/

/-- Has a `push` at this access claimed an index? -/
def PushPc.hasClaimed : PushPc → Bool
  | .loadTail | .loadSeq _ | .exchange _ => false
  | .write _ | .publish _ | .loadHead _ => true

/-- The `push` of producer `i` cannot fail any more: it has claimed an index, or has returned. -/
def System.Decided (s : System ι α) (i : ι) : Prop :=
  ∀ c, s.producers i = some c → c.pc.hasClaimed = true

/-- A `push` that has claimed an index keeps it until it returns. -/
lemma hasClaimed_stepProducer {i : ι} {spurious : Bool} {c d : PushCall α}
    (hclaimed : c.pc.hasClaimed = true)
    (h : (s.stepProducer mask i spurious c).producers i = some d) : d.pc.hasClaimed = true := by
  obtain ⟨v, pc⟩ := c
  cases pc with
  | loadTail | loadSeq | exchange => cases hclaimed
  | write t =>
      rw [stepProducer_write] at h
      simp only [Function.update_self, Option.some.injEq] at h
      rw [← h]
      rfl
  | publish t =>
      rw [stepProducer_publish] at h
      simp only [Function.update_self, Option.some.injEq] at h
      rw [← h]
      rfl
  | loadHead t =>
      rw [stepProducer_loadHead] at h
      simp at h

/-- What is decided stays so until the producer calls `push` again. -/
lemma System.Decided.step {i : ι} (h : s.Decided i) {a : Act ι α} (ha : ∀ v, a ≠ .push i v)
    (hstep : step mask s a = some s') : s'.Decided i := by
  intro d hd
  rcases producer_step hstep i with ⟨v, rfl, -⟩ | ⟨spurious, c, rfl, hc, rfl⟩ | ⟨-, hsame⟩
  · exact absurd rfl (ha v)
  · exact hasClaimed_stepProducer (h c hc) hd
  · exact h d (hsame.symm.trans hd)

/-- So it does along a run. -/
lemma decided_run {i : ι} (h : s.Decided i) {as : List (Act ι α)} (has : ∀ v, .push i v ∉ as)
    (hrun : run (step mask) s as = some s') : s'.Decided i := by
  refine run_invariant_of (I := fun s : System ι α => s.Decided i)
    (C := fun _ a => ∀ v, a ≠ .push i v) (fun _ _ _ hs ha hstep => hs.step ha hstep) h
    (meets_of_forall (fun a ha _ v hv => ?_) s) hrun
  rw [hv] at ha
  exact has v ha

/-- An access before the claim that does not claim either leaves the ring as it is. -/
lemma stepProducer_of_undecided {i : ι} {spurious : Bool} {c : PushCall α}
    (hbefore : c.pc.hasClaimed = false)
    (hafter : ∀ d, (s.stepProducer mask i spurious c).producers i = some d →
      d.pc.hasClaimed = false) :
    (s.stepProducer mask i spurious c).memory = s.memory ∧
      (s.stepProducer mask i spurious c).claims = s.claims := by
  obtain ⟨v, pc⟩ := c
  cases pc with
  | write | publish | loadHead => cases hbefore
  | loadTail =>
      rw [stepProducer_loadTail]
      exact ⟨rfl, rfl⟩
  | loadSeq t =>
      rw [stepProducer_loadSeq]
      split_ifs <;> exact ⟨rfl, rfl⟩
  | exchange t =>
      rw [stepProducer_exchange] at hafter ⊢
      split_ifs at hafter ⊢
      · cases hafter _ (Function.update_self ..)
      · exact ⟨rfl, rfl⟩

/-- The accesses of producer `i` in a run from `s` change nothing in the ring. -/
def LeavesRing (mask : ℕ) (i : ι) (s : System ι α) (as : List (Act ι α)) : Prop :=
  ∀ mid spurious rest t t', as = mid ++ .producer i spurious :: rest →
    run (step mask) s mid = some t → step mask t (.producer i spurious) = some t' →
    t'.memory = t.memory ∧ t'.claims = t.claims

/-- Where a `push` is not decided at the end of a run, and its producer has made no other call, none
of its accesses has changed the ring. -/
lemma leavesRing_of_undecided {s₀ : System ι α} {i : ι} {as : List (Act ι α)}
    (hrun : run (step mask) s₀ as = some s) (has : ∀ v, .push i v ∉ as) (h : ¬ s.Decided i) :
    LeavesRing mask i s₀ as := by
  rintro mid spurious rest t t' rfl hmid hstep
  obtain ⟨u, hu, hrest⟩ := run_append_eq_some.mp hrun
  obtain rfl := Option.some.inj (hmid.symm.trans hu)
  obtain ⟨u', hu', hrest⟩ := run_cons_eq_some.mp hrest
  obtain rfl := Option.some.inj (hstep.symm.trans hu')
  -- had it been decided before or after this access, it would still be at the end
  have hbefore : ¬ t.Decided i := fun hdecided =>
    h (decided_run hdecided (fun v hv => has v (List.mem_append_right _ hv))
      (run_cons_eq_some.mpr ⟨_, hstep, hrest⟩))
  have hafter : ¬ t'.Decided i := fun hdecided =>
    h (decided_run hdecided
      (fun v hv => has v (List.mem_append_right _ (List.mem_cons_of_mem _ hv))) hrest)
  obtain ⟨c, hc, rfl⟩ := Option.map_eq_some_iff.mp hstep
  simp only [System.Decided, not_forall, Bool.not_eq_true] at hbefore hafter
  obtain ⟨d, hd, hundecided⟩ := hbefore
  obtain ⟨d', hd', hundecided'⟩ := hafter
  refine stepProducer_of_undecided ?_ fun e he => ?_
  · rwa [← Option.some.inj (hc.symm.trans hd)] at hundecided
  · rwa [← Option.some.inj (he.symm.trans hd')] at hundecided'

/-- A failing `push` is at its load of a sequence number that reads as being behind; it hands its
value back and changes nothing else. -/
lemma stepProducer_error {i : ι} {spurious : Bool} {c : PushCall α} {x : α}
    (h : (s.stepProducer mask i spurious c).events = s.events ++ [.returned i (.error x)]) :
    ∃ t, c = ⟨x, .loadSeq t⟩ ∧
      signed (wrappingSub (s.memory.word (.seq (t &&& mask))) t) < 0 ∧
      s.stepProducer mask i spurious c =
        { s with
          producers := Function.update s.producers i none
          events := s.events ++ [.returned i (.error x)] } := by
  obtain ⟨v, pc⟩ := c
  cases pc with
  | loadTail => simp [stepProducer_loadTail] at h
  | loadSeq t =>
      rw [stepProducer_loadSeq] at h ⊢
      split_ifs at h ⊢ with hzero hneg
      · simp at h
      · obtain rfl : v = x := by simpa using h
        exact ⟨t, rfl, hneg, rfl⟩
      · simp at h
  | exchange t =>
      rw [stepProducer_exchange] at h
      split_ifs at h <;> simp at h
  | write t => simp [stepProducer_write] at h
  | publish t => simp [stepProducer_publish] at h
  | loadHead t => simp [stepProducer_loadHead] at h

/-- A `push` that fails has changed nothing in the ring, from its call to the access that it returns
from. -/
lemma leavesRing_of_error {as : List (Act ι α)} (hrun : run (step mask) System.start as = some s)
    {i : ι} {spurious : Bool} {x : α} (hstep : step mask s (.producer i spurious) = some s')
    (hevents : s'.events = s.events ++ [.returned i (.error x)]) :
    ∃ before after s₀, as = before ++ .push i x :: after ∧ (∀ v, .push i v ∉ after) ∧
      run (step mask) System.start (before ++ [.push i x]) = some s₀ ∧
      LeavesRing mask i s₀ (after ++ [.producer i spurious]) := by
  obtain ⟨c, hi, rfl⟩ := Option.map_eq_some_iff.mp hstep
  obtain ⟨t, rfl, -, heq⟩ := stepProducer_error hevents
  obtain ⟨before, after, rfl, hafter⟩ := call_run hrun hi
  have hundecided : ¬ s.Decided i := by
    intro hdecided
    cases hdecided _ hi
  rw [List.append_cons] at hrun
  obtain ⟨s₀, hs₀, hrest⟩ := run_append_eq_some.mp hrun
  refine ⟨before, after, s₀, rfl, hafter, hs₀, ?_⟩
  rintro mid sp rest u u' hsplit hmid haccess
  rcases List.eq_nil_or_concat' rest with rfl | ⟨rest, a, rfl⟩
  · -- the access that it returns from
    obtain ⟨rfl, hlast⟩ := List.append_inj' hsplit rfl
    obtain rfl := Option.some.inj (hrest.symm.trans hmid)
    obtain ⟨d, hd, rfl⟩ := Option.map_eq_some_iff.mp haccess
    obtain rfl := Option.some.inj (hi.symm.trans hd)
    obtain ⟨-, rfl⟩ := Act.producer.inj (List.cons.inj hlast).1
    rw [heq]
    exact ⟨rfl, rfl⟩
  · rw [← List.cons_append, ← List.append_assoc] at hsplit
    obtain ⟨hsplit, -⟩ := List.append_inj' hsplit rfl
    exact leavesRing_of_undecided hrest hafter hundecided mid sp rest u u' hsplit hmid haccess

omit [DecidableEq ι] in
/-- While claims and capacity stay below `2 ^ 63`, a sequence number that reads as being behind the
copy of `tail` is a whole lap behind: the ring is full and the copy is fresh. -/
lemma Consistent.full (hcap : IsCapacity mask cap) (h : Consistent cap s)
    (hlt : s.claims.length + cap ≤ signBit) {t : ℕ} (ht : t ≤ s.claims.length)
    (hneg : signed (wrappingSub (s.seqAt cap t) t) < 0) :
    s.claims.length = s.released + cap := by
  have hpos := hcap.two_le
  have hle := h.released_le
  have hfull := h.length_le
  obtain ⟨k, hk, hk', hmod, hs⟩ := h.exists_seqAt (by omega) t
  have hseq : s.seqAt cap t < signBit ∧ k ≤ s.seqAt cap t := by
    rcases hs with hs | ⟨hs', hs⟩ <;> omega
  rw [signed_wrappingSub (by omega) (by omega)] at hneg
  have hkt : k < t := by omega
  -- `k` and `t` have the same slot, so they are at least a lap apart
  have hdvd : cap ∣ t - k := (Nat.modEq_iff_dvd' hkt.le).mp hmod
  have := Nat.le_of_dvd (by omega) hdvd
  omega

/-! ## The order of the values -/

/-- **No element is lost, duplicated or reordered.** Let any number of producers and one consumer
run on an inbox, their accesses interleaved in any way, and fewer than `2 ^ 63` pushes have claimed
an index. Then

* the values returned by `pop` are a prefix of the values of the claimed pushes, in the order of
  their successful compare-exchanges;
* a `push` that is about to write its value finds the slot empty;
* a `pop` that is about to read finds the value of the next index there, and no `push` is still
  busy with that index;
* a `push` that fails returns the value it was called with, and none of its accesses, from its call
  to the one that it returns from, has changed anything in the ring;
* if claims and capacity are at most `2 ^ 63`, then exactly as many claimed elements as the capacity
  were not released when it loaded the sequence number. -/
theorem inbox_fifo {requested : ℕ} (hreq : requested ≤ 2 ^ 63) {as : List (Act ι α)}
    (hrun : run (step (capacityFor requested - 1)) System.start as = some s)
    (hlt : s.claims.length < 2 ^ 63) :
    s.popped <+: s.claims.map some ∧
      (∀ i v t, s.producers i = some ⟨v, .write t⟩ →
        s.memory.cell (t &&& (capacityFor requested - 1)) = none) ∧
      (∀ h, s.consumer = some (.read h) → h = s.popped.length ∧
        (∃ v, s.claims[h]? = some v ∧
          s.memory.cell (h &&& (capacityFor requested - 1)) = some v) ∧
        ∀ i c, s.producers i = some c → c.holds ≠ some h) ∧
      ∀ i spurious s' x,
        step (capacityFor requested - 1) s (.producer i spurious) = some s' →
        s'.events = s.events ++ [.returned i (.error x)] →
        lastCall i s.events = some x ∧
          s'.memory = s.memory ∧ s'.claims = s.claims ∧
          (∃ before after s₀, as = before ++ .push i x :: after ∧ (∀ v, .push i v ∉ after) ∧
            run (step (capacityFor requested - 1)) System.start (before ++ [.push i x]) =
              some s₀ ∧
            LeavesRing (capacityFor requested - 1) i s₀ (after ++ [.producer i spurious])) ∧
          (s.claims.length + capacityFor requested ≤ 2 ^ 63 →
            s.claims.length = s.released + capacityFor requested) := by
  have hcap := isCapacity_capacityFor hreq
  have h := consistent_run hcap (consistent_start _) hrun hlt
  have hcalls : ∀ i c, s.producers i = some c → lastCall i s.events = some c.value :=
    run_invariant (I := fun s => ∀ i c, s.producers i = some c → lastCall i s.events = some c.value)
      (fun _ _ _ hs hstep => lastCall_step hs hstep) (fun _ _ hc => by cases hc) hrun
  refine ⟨?_, fun i v t hi => ?_, fun head hc => ?_, fun i spurious s' x hstep hevents => ?_⟩
  · rw [h.popped]
    exact (List.take_prefix _ _).map some
  · rw [hcap.and_mask]
    exact (h.producer i _ hi).2.2.2
  · have hcons := h.consumer
    rw [hc] at hcons
    obtain ⟨hpop, rfl, hlt, hseq⟩ := hcons
    have hcell := h.published _ le_rfl hlt hseq (by simp [hc])
    rw [hcap.and_mask]
    refine ⟨hpop, ⟨s.claims[s.released], List.getElem?_eq_getElem hlt, ?_⟩, fun i c hi hheld => ?_⟩
    · exact hcell.trans (List.getElem?_eq_getElem hlt)
    · have := (h.of_holds hi hheld).2.2
      omega
  · have hwhole := leavesRing_of_error hrun hstep hevents
    obtain ⟨c, hi, rfl⟩ := Option.map_eq_some_iff.mp hstep
    obtain ⟨t, rfl, hneg, heq⟩ := stepProducer_error hevents
    rw [hcap.and_mask] at hneg
    rw [heq]
    exact ⟨hcalls i _ hi, rfl, rfl, hwhole,
      fun hbound => h.full hcap hbound (h.producer i _ hi) hneg⟩

/-- Two pushes fill a ring of two slots; the third hands its value back. -/
theorem inbox_fifo_full_ring :
    ∃ s s' : System Bool ℕ,
      run (step (capacityFor 2 - 1)) System.start
        (pushAlone false 10 ++ pushAlone false 11 ++ [.push true 12, .producer true false]) =
          some s ∧
      step (capacityFor 2 - 1) s (.producer true false) = some s' ∧
      lastCall true s.events = some 12 ∧ s'.memory = s.memory ∧
      s.claims.length = s.released + capacityFor 2 := by
  have hcap : capacityFor 2 = 2 := capacityFor_eq 0 (by decide) (by decide)
  obtain ⟨s, s', hrun, hstep, hlen, hevents⟩ : ∃ s s' : System Bool ℕ,
      run (step (capacityFor 2 - 1)) System.start
        (pushAlone false 10 ++ pushAlone false 11 ++ [.push true 12, .producer true false]) =
          some s ∧
      step (capacityFor 2 - 1) s (.producer true false) = some s' ∧ s.claims.length = 2 ∧
      s'.events = s.events ++ [.returned true (.error 12)] := by
    rw [hcap]
    exact ⟨_, _, rfl, rfl, rfl, rfl⟩
  obtain ⟨-, -, -, h⟩ := inbox_fifo (by norm_num) hrun (by rw [hlen]; norm_num)
  obtain ⟨hcall, hmemory, -, -, hfull⟩ := h true false s' 12 hstep hevents
  exact ⟨s, s', hrun, hstep, hcall, hmemory, hfull (by rw [hlen, hcap]; norm_num)⟩

/-! ## A stale copy of `tail` -/

/-- A producer pushes and the consumer pops it, on a ring that is empty before. -/
lemma run_round (hcap : IsCapacity mask cap) (h : Consistent cap s) {i : ι}
    (hi : s.producers i = none) (v : α) (hc : s.consumer = none)
    (hempty : s.released = s.claims.length) (hlt : s.claims.length + 1 < signBit) :
    ∃ s', run (step mask) s (pushAlone i v ++ popAlone) = some s' ∧ Consistent cap s' ∧
      s'.producers = s.producers ∧ s'.consumer = none ∧
      s'.claims.length = s.claims.length + 1 ∧ s'.released = s'.claims.length := by
  have hpos := hcap.two_le
  have hword : s.claims.length + 1 < wordMod := by
    rw [signBit_eq] at hlt
    rw [wordMod_eq]
    omega
  have hseq : s.memory.word (.seq (s.claims.length &&& mask)) = s.claims.length := by
    rw [hcap.and_mask]
    exact (h.free _ le_rfl (by omega)).1
  have hhead : s.memory.word .head = s.claims.length := by
    have hcons := h.consumer
    rw [hc] at hcons
    rw [h.head, ← hempty]
    exact hcons.symm
  obtain ⟨s₁, hpush, hhead₁, hseq₁, hc₁, hprod₁, hclaims₁, hreleased₁⟩ : ∃ s₁,
      run (step mask) s (pushAlone i v) = some s₁ ∧ s₁.memory.word .head = s.claims.length ∧
      s₁.memory.word (.seq (s.claims.length &&& mask)) = wrappingAdd s.claims.length 1 ∧
      s₁.consumer = none ∧ s₁.producers = s.producers ∧ s₁.claims = s.claims ++ [v] ∧
      s₁.released = s.released :=
    ⟨_, run_push mask s hi v h.tail (Nat.lt_of_succ_lt hword) hseq, hhead,
      Memory.word_store_self _ _ _, hc, rfl, rfl, rfl⟩
  have hrun := run_append_eq_some.mpr ⟨s₁, hpush, run_pop mask s₁ hc₁ hhead₁ hseq₁⟩
  refine ⟨_, hrun, consistent_run hcap h hrun ?_, hprod₁, hc₁, ?_, ?_⟩
  · simpa [hclaims₁] using hlt
  · simp [hclaims₁]
  · simp [hclaims₁, hreleased₁, hempty]

/-- The same, any number of times. -/
lemma run_rounds (hcap : IsCapacity mask cap) (h : Consistent cap s) {i : ι}
    (hi : s.producers i = none) (v : α) (hc : s.consumer = none)
    (hempty : s.released = s.claims.length) (n : ℕ) (hlt : s.claims.length + n < signBit) :
    ∃ s', run (step mask) s (List.replicate n (pushAlone i v ++ popAlone)).flatten = some s' ∧
      Consistent cap s' ∧ s'.producers = s.producers ∧
      s'.claims.length = s.claims.length + n ∧ s'.released = s'.claims.length := by
  induction n generalizing s with
  | zero => exact ⟨s, rfl, h, rfl, rfl, hempty⟩
  | succ n ih =>
      obtain ⟨s₁, hrun₁, h₁, hprod₁, hc₁, hlen₁, hempty₁⟩ :=
        run_round hcap h hi v hc hempty (by omega)
      obtain ⟨s₂, hrun₂, h₂, hprod₂, hlen₂, hempty₂⟩ :=
        ih h₁ (hprod₁ ▸ hi) hc₁ hempty₁ (by omega)
      refine ⟨s₂, ?_, h₂, hprod₂.trans hprod₁, by omega, hempty₂⟩
      rw [List.replicate_succ, List.flatten_cons]
      exact run_append_eq_some.mpr ⟨s₁, hrun₁, hrun₂⟩

/-- Is the action a call of `push`? -/
def Act.isPush : Act ι α → Bool
  | .push _ _ => true
  | _ => false

/-- **A stale copy of `tail` near `2 ^ 63`.** On a ring of four slots a producer loads `tail` and is
then not scheduled, while another one and the consumer pass `2 ^ 63 - 3` elements along. The slot's
sequence number is then `2 ^ 63`, which reads as a negative distance from zero: the `push` reports
a full ring, and the ring is empty. Fewer than `2 ^ 63` pushes were called. -/
theorem inbox_full_of_stale_tail :
    ∃ (as : List (Act Bool ℕ)) (s s' : System Bool ℕ),
      run (step (capacityFor 4 - 1)) System.start as = some s ∧ as.countP Act.isPush < 2 ^ 63 ∧
      step (capacityFor 4 - 1) s (.producer false false) = some s' ∧
      s'.events = s.events ++ [.returned false (.error 7)] ∧ s.claims.length = s.released := by
  have hcap : capacityFor 4 = 4 := capacityFor_eq 1 (by decide) (by decide)
  have hcapacity := isCapacity_capacityFor (show 4 ≤ 2 ^ 63 by norm_num)
  rw [hcap] at hcapacity ⊢
  obtain ⟨n, hn⟩ : ∃ n, n + 3 = 2 ^ 63 := ⟨2 ^ 63 - 3, by norm_num⟩
  obtain ⟨s₀, hrun₀, hstale, hidle, hc, hlen, hempty⟩ : ∃ s₀ : System Bool ℕ,
      run (step (4 - 1)) System.start [.push false 7, .producer false false] = some s₀ ∧
      s₀.producers false = some ⟨7, .loadSeq 0⟩ ∧ s₀.producers true = none ∧
      s₀.consumer = none ∧ s₀.claims.length = 0 ∧ s₀.released = s₀.claims.length :=
    ⟨_, rfl, rfl, rfl, rfl, rfl, rfl⟩
  have h₀ := consistent_run hcapacity (consistent_start _) hrun₀ (by rw [hlen]; decide)
  obtain ⟨s, hrun, h, hprod, hlen', hempty'⟩ :=
    run_rounds hcapacity h₀ hidle 0 hc hempty n (by rw [hlen]; unfold signBit; omega)
  -- the sequence number of slot 0 is free for index `2 ^ 63`
  have hseq : s.memory.word (.seq 0) = 2 ^ 63 := by
    have hfree := (h.free (2 ^ 63) (by omega) (by omega)).1
    rwa [System.seqAt, show 2 ^ 63 % 4 = 0 by norm_num] at hfree
  refine ⟨_, s, _, run_append_eq_some.mpr ⟨s₀, hrun₀, hrun⟩, ?_,
    Option.map_eq_some_iff.mpr ⟨_, (congrFun hprod false).trans hstale, rfl⟩, ?_, hempty'.symm⟩
  · have hround : (pushAlone true 0 ++ popAlone : List (Act Bool ℕ)).countP Act.isPush = 1 := rfl
    have hstale : [Act.push false 7, .producer false false].countP Act.isPush = 1 := rfl
    rw [List.countP_append, List.countP_flatten, List.map_replicate, hround, hstale,
      List.sum_replicate, smul_eq_mul]
    omega
  · have hneg : signed (wrappingSub (2 ^ 63) 0) < 0 := by decide
    rw [stepProducer_loadSeq, Nat.zero_and, hseq, if_neg hneg.ne, if_pos hneg]

end Aulon.Core.ShardInbox
