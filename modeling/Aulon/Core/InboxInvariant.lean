import Aulon.Core.InboxSystem

/-!
# The invariant of the inbox

* `Consistent` — it relates `tail`, `head` and every slot's sequence number to the claimed,
  released and popped elements, and says what each thread's stale copies still mean.
* `consistent_step`, `consistent_run` — every step and every run keeps it, as long as fewer than
  `2 ^ 63` pushes have claimed an index.
-/

namespace Aulon.Core.ShardInbox

open Aulon.Lib

variable {ι α : Type}

/-! ## The invariant -/

/-- The sequence number of the slot of index `k`. -/
def System.seqAt (s : System ι α) (cap k : ℕ) : ℕ := s.memory.word (.seq (k % cap))

/-- The content of the slot of index `k`. -/
def System.cellAt (s : System ι α) (cap k : ℕ) : Option α := s.memory.cell (k % cap)

/-- The index a `push` has claimed and not yet published. -/
def PushCall.holds : PushCall α → Option ℕ
  | ⟨_, .write t⟩ => some t
  | ⟨_, .publish t⟩ => some t
  | _ => none

/-- What a `push` under way may rely on. A copy of `tail` can be stale; a compare-exchange on a
copy that is not finds the slot free. -/
def System.Producer (s : System ι α) (cap : ℕ) : PushCall α → Prop
  | ⟨_, .loadTail⟩ => True
  | ⟨_, .loadSeq t⟩ => t ≤ s.claims.length
  | ⟨_, .exchange t⟩ =>
      t ≤ s.claims.length ∧ (t = s.claims.length → t < s.released + cap)
  | ⟨v, .write t⟩ =>
      s.released ≤ t ∧ s.claims[t]? = some v ∧ s.seqAt cap t = t ∧ s.cellAt cap t = none
  | ⟨v, .publish t⟩ =>
      s.released ≤ t ∧ s.claims[t]? = some v ∧ s.seqAt cap t = t ∧ s.cellAt cap t = some v
  | ⟨_, .loadHead _⟩ => True

/-- What the consumer may rely on: between `release` and `advance` one slot more is released than
elements are popped. -/
def System.Consumer (s : System ι α) (cap : ℕ) : Option (PopCall α) → Prop
  | none => s.released = s.popped.length
  | some .loadHead => s.released = s.popped.length
  | some (.loadSeq h) => s.released = s.popped.length ∧ h = s.released
  | some (.read h) =>
      s.released = s.popped.length ∧ h = s.released ∧ h < s.claims.length ∧ s.seqAt cap h = h + 1
  | some (.release h v) =>
      s.released = s.popped.length ∧ h = s.released ∧ h < s.claims.length ∧
        s.seqAt cap h = h + 1 ∧ s.cellAt cap h = none ∧ v = s.claims[h]?
  | some (.advance h v) =>
      s.released = s.popped.length + 1 ∧ h = s.popped.length ∧ v = s.claims[h]?

/-- **The invariant.** The slots hold the indices from `released` on, one lap of them: the claimed
ones are being filled or published, the others are free. -/
structure Consistent (cap : ℕ) (s : System ι α) : Prop where
  tail : s.memory.word .tail = s.claims.length
  head : s.memory.word .head = s.popped.length
  released_le : s.released ≤ s.claims.length
  length_le : s.claims.length ≤ s.released + cap
  popped : s.popped = (s.claims.take s.popped.length).map some
  free : ∀ k, s.claims.length ≤ k → k < s.released + cap →
    s.seqAt cap k = k ∧ s.cellAt cap k = none
  claimed : ∀ k, s.released ≤ k → k < s.claims.length →
    s.seqAt cap k = k ∨ s.seqAt cap k = k + 1
  published : ∀ k, s.released ≤ k → k < s.claims.length → s.seqAt cap k = k + 1 →
    (∀ v, s.consumer ≠ some (.release k v)) → s.cellAt cap k = s.claims[k]?
  producer : ∀ i c, s.producers i = some c → s.Producer cap c
  owner : ∀ i j c d t, s.producers i = some c → s.producers j = some d →
    c.holds = some t → d.holds = some t → i = j
  consumer : s.Consumer cap s.consumer

/-- The invariant holds at the start. -/
lemma consistent_start (cap : ℕ) : Consistent cap (System.start : System ι α) where
  tail := rfl
  head := rfl
  released_le := le_rfl
  length_le := Nat.zero_le _
  popped := rfl
  free k _ hk := ⟨Nat.mod_eq_of_lt (by simpa [System.start] using hk), rfl⟩
  claimed k _ hk := absurd hk (Nat.not_lt_zero k)
  published k _ hk := absurd hk (Nat.not_lt_zero k)
  producer i c hc := by cases hc
  owner i j c d t hc := by cases hc
  consumer := rfl

/-! ## Slots of one lap -/

/-- Two indices of one lap with the same slot are equal. -/
lemma eq_of_mod_eq {r cap a b : ℕ} (ha : r ≤ a) (ha' : a < r + cap) (hb : r ≤ b)
    (hb' : b < r + cap) (h : a % cap = b % cap) : a = b :=
  Nat.mod_injOn_Ico r cap (by simp [ha, ha']) (by simp [hb, hb']) h

namespace Consistent

variable {cap : ℕ} {s : System ι α}

/-- The index that the slot of `t` currently stands for, and its sequence number. -/
lemma exists_seqAt (h : Consistent cap s) (hcap : 0 < cap) (t : ℕ) :
    ∃ k, s.released ≤ k ∧ k < s.released + cap ∧ k % cap = t % cap ∧
      (s.seqAt cap t = k ∨ k < s.claims.length ∧ s.seqAt cap t = k + 1) := by
  -- the one member of the lap that is congruent to `t`
  have hex : ∃ k, s.released ≤ k ∧ k < s.released + cap ∧ k % cap = t % cap := by
    refine ⟨s.released + (t % cap + cap - s.released % cap) % cap, Nat.le_add_right _ _,
      Nat.add_lt_add_left (Nat.mod_lt _ hcap) _, ?_⟩
    have hr := Nat.mod_lt s.released hcap
    rw [Nat.add_mod, Nat.mod_mod, ← Nat.add_mod, ← Nat.mod_add_mod,
      show s.released % cap + (t % cap + cap - s.released % cap) = t % cap + cap by omega,
      Nat.add_mod_right, Nat.mod_mod]
  obtain ⟨k, hk, hk', hmod⟩ := hex
  refine ⟨k, hk, hk', hmod, ?_⟩
  have hseq : s.seqAt cap t = s.seqAt cap k := by simp only [System.seqAt, hmod]
  rw [hseq]
  by_cases hlt : k < s.claims.length
  · exact (h.claimed k hk hlt).imp_right fun hs => ⟨hlt, hs⟩
  · exact Or.inl (h.free k (not_lt.mp hlt) hk').1

/-- Below the sign bit no sequence number wraps. -/
lemma seqAt_lt (h : Consistent cap s) {mask : ℕ} (hcap : IsCapacity mask cap)
    (hlt : s.claims.length < signBit) (t : ℕ) : s.seqAt cap t < wordMod := by
  have hle := h.released_le
  have hpos := hcap.two_le
  have hcap' := hcap.le_signBit
  rw [signBit_eq] at hlt hcap'
  rw [wordMod_eq]
  obtain ⟨k, -, hk, -, hs | ⟨hk', hs⟩⟩ := h.exists_seqAt (by omega) t
  · omega
  · omega

/-- The slot at the head is published only for a claimed index. -/
lemma lt_of_seqAt_eq_succ (h : Consistent cap s) (hcap : 0 < cap)
    (hseq : s.seqAt cap s.released = s.released + 1) : s.released < s.claims.length := by
  by_contra hge
  have := (h.free s.released (by omega) (by omega)).1
  omega

/-- A sequence number equal to an index says that the slot is free for, or being filled with, the
element of that index. -/
lemma lt_of_seqAt_eq (h : Consistent cap s) (hcap : 2 ≤ cap) {t : ℕ} (ht : s.seqAt cap t = t) :
    s.released ≤ t ∧ t < s.released + cap := by
  obtain ⟨k, hk, hk', hmod, hs | ⟨-, hs⟩⟩ := h.exists_seqAt (by omega) t
  · obtain rfl : k = t := hs.symm.trans ht
    exact ⟨hk, hk'⟩
  · -- `t = k + 1` would be congruent to `k`
    obtain rfl : k + 1 = t := hs.symm.trans ht
    have hdvd : cap ∣ (k + 1) - k := (Nat.modEq_iff_dvd' (Nat.le_succ k)).mp hmod
    have := Nat.le_of_dvd (by omega) hdvd
    omega

end Consistent

/-! ## Frame lemmas -/

/-- A `push` keeps what it relies on when claims and releases are only added and the slot it holds
stays as it is. -/
lemma System.Producer.transfer {cap : ℕ} {s s' : System ι α} {c : PushCall α}
    (hp : s.Producer cap c) (hlen : s.claims.length ≤ s'.claims.length)
    (hreleased : s.released ≤ s'.released)
    (hheld : ∀ t, c.holds = some t → s'.released ≤ t ∧ s'.claims[t]? = s.claims[t]? ∧
      s'.seqAt cap t = s.seqAt cap t ∧ s'.cellAt cap t = s.cellAt cap t) :
    s'.Producer cap c := by
  obtain ⟨v, pc⟩ := c
  cases pc with
  | loadTail => trivial
  | loadSeq t => exact Nat.le_trans hp hlen
  | exchange t =>
      obtain ⟨hle, hroom⟩ := hp
      refine ⟨hle.trans hlen, fun ht => ?_⟩
      have := hroom (by omega)
      omega
  | write t =>
      obtain ⟨hr, hclaims, hseq, hcell⟩ := hheld t rfl
      exact ⟨hr, hclaims.trans hp.2.1, hseq.trans hp.2.2.1, hcell.trans hp.2.2.2⟩
  | publish t =>
      obtain ⟨hr, hclaims, hseq, hcell⟩ := hheld t rfl
      exact ⟨hr, hclaims.trans hp.2.1, hseq.trans hp.2.2.1, hcell.trans hp.2.2.2⟩
  | loadHead t => trivial

/-- A `pop` keeps what it relies on when the producers' steps leave the slot at the head alone
once it is published. -/
lemma System.Consumer.transfer {cap : ℕ} {s s' : System ι α} {c : Option (PopCall α)}
    (hc : s.Consumer cap c) (hreleased : s'.released = s.released)
    (hpopped : s'.popped = s.popped) (hlen : s.claims.length ≤ s'.claims.length)
    (hget : ∀ k, k < s.claims.length → s'.claims[k]? = s.claims[k]?)
    (hle : s.released ≤ s.claims.length)
    (hslot : s.released < s.claims.length → s.seqAt cap s.released = s.released + 1 →
      s'.seqAt cap s.released = s.seqAt cap s.released ∧
        s'.cellAt cap s.released = s.cellAt cap s.released) :
    s'.Consumer cap c := by
  rcases c with _ | (_ | h | h | ⟨h, v⟩ | ⟨h, v⟩)
  · exact (hreleased.trans hc).trans (by rw [hpopped])
  · exact (hreleased.trans hc).trans (by rw [hpopped])
  · exact ⟨by rw [hreleased, hpopped]; exact hc.1, hc.2.trans hreleased.symm⟩
  · obtain ⟨hr, rfl, hlt, hseq⟩ := hc
    exact ⟨by rw [hreleased, hpopped]; exact hr, hreleased.symm, hlt.trans_le hlen,
      (hslot hlt hseq).1.trans hseq⟩
  · obtain ⟨hr, rfl, hlt, hseq, hcell, hv⟩ := hc
    exact ⟨by rw [hreleased, hpopped]; exact hr, hreleased.symm, hlt.trans_le hlen,
      (hslot hlt hseq).1.trans hseq, (hslot hlt hseq).2.trans hcell, hv.trans (hget _ hlt).symm⟩
  · obtain ⟨hr, rfl, hv⟩ := hc
    exact ⟨by rw [hreleased, hpopped]; exact hr, by rw [hpopped],
      hv.trans (hget _ (by omega)).symm⟩

/-- What the producer that moves and all the others satisfy, every producer satisfies. -/
lemma producer_update [DecidableEq ι] {s : System ι α} {P : ι → PushCall α → Prop} (i : ι)
    (c' : Option (PushCall α)) (hself : ∀ c, c' = some c → P i c)
    (hother : ∀ j c, j ≠ i → s.producers j = some c → P j c)
    (j : ι) (c : PushCall α) (hj : Function.update s.producers i c' j = some c) : P j c := by
  rcases eq_or_ne j i with rfl | hji
  · exact hself c (by simpa using hj)
  · exact hother j c hji (by simpa [hji] using hj)

namespace Consistent

variable [DecidableEq ι] {cap : ℕ} {s : System ι α}

omit [DecidableEq ι] in
/-- A held index is claimed, not released, and not published. -/
lemma of_holds (h : Consistent cap s) {i : ι} {c : PushCall α} {t : ℕ}
    (hi : s.producers i = some c) (hc : c.holds = some t) :
    s.released ≤ t ∧ t < s.claims.length ∧ s.seqAt cap t = t := by
  have hp := h.producer i c hi
  obtain ⟨v, pc⟩ := c
  cases pc with
  | write t' =>
      cases hc
      exact ⟨hp.1, (List.getElem?_eq_some_iff.mp hp.2.1).1, hp.2.2.1⟩
  | publish t' =>
      cases hc
      exact ⟨hp.1, (List.getElem?_eq_some_iff.mp hp.2.1).1, hp.2.2.1⟩
  | loadTail => cases hc
  | loadSeq t' => cases hc
  | exchange t' => cases hc
  | loadHead t' => cases hc

omit [DecidableEq ι] in
/-- Two indices of the current lap have different slots. -/
lemma mod_ne (h : Consistent cap s) {k t : ℕ} (hk : s.released ≤ k) (hk' : k < s.released + cap)
    (ht : s.released ≤ t) (ht' : t < s.claims.length) (hne : k ≠ t) : k % cap ≠ t % cap :=
  fun hmod => hne (eq_of_mod_eq hk hk' ht (ht'.trans_le h.length_le) hmod)

/-- No index gets a second owner when the one producer that moves holds none that another holds. -/
lemma owner_update (h : Consistent cap s) (i : ι) (c' : Option (PushCall α))
    (hfresh : ∀ c t, c' = some c → c.holds = some t →
      ∀ j d, j ≠ i → s.producers j = some d → d.holds ≠ some t)
    (j j' : ι) (c d : PushCall α) (t : ℕ) (hj : Function.update s.producers i c' j = some c)
    (hj' : Function.update s.producers i c' j' = some d) (hc : c.holds = some t)
    (hd : d.holds = some t) : j = j' := by
  by_cases hji : j = i
  · by_cases hji' : j' = i
    · rw [hji, hji']
    · subst hji
      rw [Function.update_self] at hj
      rw [Function.update_of_ne hji'] at hj'
      exact absurd hd (hfresh c t hj hc j' d hji' hj')
  · rw [Function.update_of_ne hji] at hj
    by_cases hji' : j' = i
    · subst hji'
      rw [Function.update_self] at hj'
      exact absurd hc (hfresh d t hj' hd j c hji hj)
    · rw [Function.update_of_ne hji'] at hj'
      exact h.owner j j' c d t hj hj' hc hd

/-! ## What one step does to the invariant -/

/-- A producer moves without touching the memory and without claiming an index. -/
lemma of_producer (h : Consistent cap s) (i : ι) (c' : Option (PushCall α))
    (events : List (Event ι α))
    (hc : ∀ c, c' = some c → s.Producer cap c ∧ c.holds = none) :
    Consistent cap { s with producers := Function.update s.producers i c', events := events } where
  __ := h
  producer := producer_update i c' (fun c hc' => (hc c hc').1) fun j c _ hj => h.producer j c hj
  owner := h.owner_update i c' fun c t hc' ht => by
    have := (hc c hc').2
    rw [ht] at this
    cases this

/-- A producer's compare-exchange succeeds: it now owns the slot of the index it claimed. -/
lemma claim (h : Consistent cap s) {i : ι} {v : α} {t : ℕ}
    (hi : s.producers i = some ⟨v, .exchange t⟩) (ht : s.memory.word .tail = t)
    (hlt : s.claims.length + 1 < wordMod) :
    Consistent cap { s with
      memory := s.memory.store .tail (wrappingAdd t 1)
      claims := s.claims ++ [v]
      producers := Function.update s.producers i (some ⟨v, .write t⟩) } := by
  obtain rfl : t = s.claims.length := ht.symm.trans h.tail
  have hroom : s.claims.length < s.released + cap := (h.producer i _ hi).2 rfl
  have hfree := h.free _ le_rfl hroom
  have hget : ∀ k, k < s.claims.length → (s.claims ++ [v])[k]? = s.claims[k]? :=
    fun k hk => List.getElem?_append_left hk
  have hlen : (s.claims ++ [v]).length = s.claims.length + 1 := by simp
  constructor
  case tail => simp [wrappingAdd_of_lt hlt]
  case head => simpa [Memory.store] using h.head
  case released_le => exact h.released_le.trans (by simp)
  case length_le => simpa using hroom
  case popped =>
    have hle : s.popped.length ≤ s.claims.length := by
      have := congrArg List.length h.popped
      simp only [List.length_map, List.length_take] at this
      omega
    simpa [List.take_append_of_le_length hle] using h.popped
  case free =>
    intro k hk hk'
    exact h.free k (by simp only [hlen] at hk; omega) hk'
  case claimed =>
    intro k hk hk'
    rcases Nat.lt_or_ge k s.claims.length with hlt | hge
    · exact h.claimed k hk hlt
    · obtain rfl : k = s.claims.length := by simp only [hlen] at hk'; omega
      exact Or.inl hfree.1
  case published =>
    intro k hk hk' hseq hcons
    rcases Nat.lt_or_ge k s.claims.length with hlt | hge
    · rw [hget k hlt]
      exact h.published k hk hlt hseq hcons
    · -- the new index is not published yet
      obtain rfl : k = s.claims.length := by simp only [hlen] at hk'; omega
      have : s.seqAt cap s.claims.length = s.claims.length + 1 := hseq
      omega
  case producer =>
    refine producer_update i _ (fun c hc => ?_) fun j c _ hj => ?_
    · cases hc
      exact ⟨h.released_le, by simp, hfree.1, hfree.2⟩
    · refine (h.producer j c hj).transfer (by simp) le_rfl fun t ht => ?_
      obtain ⟨hr, hlt, -⟩ := h.of_holds hj ht
      exact ⟨hr, hget t hlt, rfl, rfl⟩
  case owner =>
    refine h.owner_update i _ fun c t hc ht j d _ hj hd => ?_
    cases hc
    cases ht
    exact absurd (h.of_holds hj hd).2.1 (lt_irrefl _)
  case consumer =>
    exact h.consumer.transfer rfl rfl (by simp) hget h.released_le fun _ _ => ⟨rfl, rfl⟩

/-- A producer writes its value into the slot it owns. -/
lemma write (h : Consistent cap s) {i : ι} {v : α} {t : ℕ}
    (hi : s.producers i = some ⟨v, .write t⟩) :
    Consistent cap { s with
      memory := { s.memory with cell := Function.update s.memory.cell (t % cap) (some v) }
      producers := Function.update s.producers i (some ⟨v, .publish t⟩) } := by
  obtain ⟨hr, hlt, hseq⟩ := h.of_holds hi rfl
  obtain ⟨-, hclaim, -, -⟩ := h.producer i _ hi
  have hframe : ∀ k, s.released ≤ k → k < s.released + cap → k ≠ t →
      Function.update s.memory.cell (t % cap) (some v) (k % cap) = s.cellAt cap k :=
    fun k hk hk' hne => Function.update_of_ne (h.mod_ne hk hk' hr hlt hne) _ _
  have hlap : ∀ k, k < s.claims.length → k < s.released + cap :=
    fun k hk => hk.trans_le h.length_le
  exact {
    h with
    free := fun k (hk : s.claims.length ≤ k) hk' =>
      ⟨(h.free k hk hk').1, (hframe k (h.released_le.trans hk) hk' (by omega)).trans
        (h.free k hk hk').2⟩
    published := fun k hk hk' hs hcons => by
      have hs : s.seqAt cap k = k + 1 := hs
      refine (hframe k hk (hlap k hk') ?_).trans (h.published k hk hk' hs hcons)
      rintro rfl
      omega
    producer := by
      refine producer_update i _ (fun c hc => ?_) fun j c hji hj => ?_
      · cases hc
        exact ⟨hr, hclaim, hseq, Function.update_self _ _ _⟩
      · refine (h.producer j c hj).transfer le_rfl le_rfl fun t' ht' => ?_
        obtain ⟨hr', hlt', -⟩ := h.of_holds hj ht'
        refine ⟨hr', rfl, rfl, hframe t' hr' (hlap t' hlt') ?_⟩
        rintro rfl
        exact hji (h.owner j i c _ t' hj hi ht' rfl)
    owner := by
      refine h.owner_update i _ fun c t' hc ht' j d hji hj hd => ?_
      cases hc
      cases ht'
      exact hji (h.owner j i d _ t hj hi hd rfl)
    consumer := by
      refine h.consumer.transfer rfl rfl le_rfl (fun _ _ => rfl) h.released_le fun hlt' hs => ?_
      refine ⟨rfl, hframe _ le_rfl (hlap _ hlt') ?_⟩
      rintro rfl
      omega }

/-- A producer publishes the index it owns. -/
lemma publish (h : Consistent cap s) {i : ι} {v : α} {t : ℕ}
    (hi : s.producers i = some ⟨v, .publish t⟩) (hword : t + 1 < wordMod) :
    Consistent cap { s with
      memory := s.memory.store (.seq (t % cap)) (wrappingAdd t 1)
      producers := Function.update s.producers i (some ⟨v, .loadHead t⟩) } := by
  obtain ⟨hr, hlt, hseq⟩ := h.of_holds hi rfl
  obtain ⟨-, hclaim, -, hcell⟩ := h.producer i _ hi
  rw [wrappingAdd_of_lt hword]
  have hframe : ∀ k, s.released ≤ k → k < s.released + cap → k ≠ t →
      (s.memory.store (.seq (t % cap)) (t + 1)).word (.seq (k % cap)) = s.seqAt cap k :=
    fun k hk hk' hne => s.memory.word_store_of_ne (by simpa using h.mod_ne hk hk' hr hlt hne) _
  have hself : (s.memory.store (.seq (t % cap)) (t + 1)).word (.seq (t % cap)) = t + 1 :=
    s.memory.word_store_self _ _
  have hlap : ∀ k, k < s.claims.length → k < s.released + cap :=
    fun k hk => hk.trans_le h.length_le
  exact {
    h with
    free := fun k (hk : s.claims.length ≤ k) hk' =>
      ⟨(hframe k (h.released_le.trans hk) hk' (by omega)).trans (h.free k hk hk').1,
        (h.free k hk hk').2⟩
    claimed := fun k hk hk' => by
      rcases eq_or_ne k t with rfl | hne
      · exact Or.inr hself
      · have hsame := hframe k hk (hlap k hk') hne
        exact (h.claimed k hk hk').imp hsame.trans hsame.trans
    published := fun k hk hk' hs hcons => by
      rcases eq_or_ne k t with rfl | hne
      · exact hcell.trans hclaim.symm
      · exact h.published k hk hk' ((hframe k hk (hlap k hk') hne).symm.trans hs) hcons
    producer := by
      refine producer_update i _ (fun c hc => ?_) fun j c hji hj => ?_
      · cases hc
        trivial
      · refine (h.producer j c hj).transfer le_rfl le_rfl fun t' ht' => ?_
        obtain ⟨hr', hlt', -⟩ := h.of_holds hj ht'
        refine ⟨hr', rfl, hframe t' hr' (hlap t' hlt') ?_, rfl⟩
        rintro rfl
        exact hji (h.owner j i c _ t' hj hi ht' rfl)
    owner := by
      refine h.owner_update i _ fun c t' hc ht' => ?_
      cases hc
      cases ht'
    consumer := by
      refine h.consumer.transfer rfl rfl le_rfl (fun _ _ => rfl) h.released_le fun hlt' hs => ?_
      refine ⟨hframe _ le_rfl (hlap _ hlt') ?_, rfl⟩
      rintro rfl
      omega }

omit [DecidableEq ι] in
/-- The consumer moves without touching the memory. -/
lemma of_consumer (h : Consistent cap s) (hold : ∀ k v, s.consumer ≠ some (.release k v))
    (c' : Option (PopCall α)) (hc : s.Consumer cap c') :
    Consistent cap { s with consumer := c' } :=
  { h with
    published := fun k hk hk' hs _ => h.published k hk hk' hs (hold k)
    consumer := hc }

omit [DecidableEq ι] in
/-- The consumer takes the value out of the slot at the head. -/
lemma read (h : Consistent cap s) {head : ℕ} (hc : s.consumer = some (.read head)) :
    Consistent cap { s with
      memory := { s.memory with cell := Function.update s.memory.cell (head % cap) none }
      consumer := some (.release head (s.cellAt cap head)) } := by
  have hcons := h.consumer
  rw [hc] at hcons
  obtain ⟨hpop, rfl, hlt, hseq⟩ := hcons
  have hvalue : s.cellAt cap s.released = s.claims[s.released]? :=
    h.published _ le_rfl hlt hseq (by simp [hc])
  have hframe : ∀ k, s.released ≤ k → k < s.released + cap → k ≠ s.released →
      Function.update s.memory.cell (s.released % cap) none (k % cap) = s.cellAt cap k :=
    fun k hk hk' hne => Function.update_of_ne (h.mod_ne hk hk' le_rfl hlt hne) _ _
  have hlap : ∀ k, k < s.claims.length → k < s.released + cap :=
    fun k hk => hk.trans_le h.length_le
  exact {
    h with
    free := fun k (hk : s.claims.length ≤ k) hk' =>
      ⟨(h.free k hk hk').1, (hframe k (h.released_le.trans hk) hk' (by omega)).trans
        (h.free k hk hk').2⟩
    published := fun k hk hk' hs hne => by
      refine (hframe k hk (hlap k hk') ?_).trans (h.published k hk hk' hs (by simp [hc]))
      rintro rfl
      exact hne _ rfl
    producer := fun j c hj => by
      refine (h.producer j c hj).transfer le_rfl le_rfl fun t ht => ?_
      obtain ⟨hr, hlt', hseq'⟩ := h.of_holds hj ht
      refine ⟨hr, rfl, rfl, hframe t hr (hlap t hlt') ?_⟩
      rintro rfl
      omega
    consumer := ⟨hpop, rfl, hlt, hseq, Function.update_self _ _ _, hvalue⟩ }

omit [DecidableEq ι] in
/-- The consumer frees the slot for the index one lap later. -/
lemma release (h : Consistent cap s) {head : ℕ} {v : Option α}
    (hc : s.consumer = some (.release head v)) (hword : head + cap < wordMod) :
    Consistent cap { s with
      memory := s.memory.store (.seq (head % cap)) (wrappingAdd head cap)
      released := s.released + 1
      consumer := some (.advance head v) } := by
  have hcons := h.consumer
  rw [hc] at hcons
  obtain ⟨hpop, rfl, hlt, hseq, hcell, hv⟩ := hcons
  rw [wrappingAdd_of_lt hword]
  have hframe : ∀ k, s.released < k → k < s.released + cap →
      (s.memory.store (.seq (s.released % cap)) (s.released + cap)).word (.seq (k % cap)) =
        s.seqAt cap k :=
    fun k hk hk' => s.memory.word_store_of_ne
      (by simpa using h.mod_ne hk.le hk' le_rfl hlt hk.ne') _
  have hlap : ∀ k, k < s.claims.length → k < s.released + cap :=
    fun k hk => hk.trans_le h.length_le
  constructor
  case tail => exact h.tail
  case head => exact h.head
  case released_le => exact hlt
  case length_le => exact h.length_le.trans (by simp)
  case popped => exact h.popped
  case free =>
    intro k (hk : s.claims.length ≤ k) (hk' : k < s.released + 1 + cap)
    rcases Nat.lt_or_ge k (s.released + cap) with hlt' | hge
    · exact ⟨(hframe k (by omega) hlt').trans (h.free k hk hlt').1, (h.free k hk hlt').2⟩
    · -- the slot just freed
      obtain rfl : k = s.released + cap := by omega
      simp only [System.seqAt, System.cellAt, Nat.add_mod_right]
      exact ⟨s.memory.word_store_self _ _, hcell⟩
  case claimed =>
    intro k (hk : s.released + 1 ≤ k) hk'
    have hsame := hframe k hk (hlap k hk')
    exact (h.claimed k (by omega) hk').imp hsame.trans hsame.trans
  case published =>
    intro k (hk : s.released + 1 ≤ k) hk' hs _
    refine h.published k (by omega) hk' ((hframe k hk (hlap k hk')).symm.trans hs) fun w hw => ?_
    rw [hc] at hw
    cases hw
    omega
  case producer =>
    intro j c hj
    refine (h.producer j c hj).transfer le_rfl (Nat.le_succ _) fun t ht => ?_
    obtain ⟨hr, hlt', hseq'⟩ := h.of_holds hj ht
    have hne : s.released < t := by
      refine lt_of_le_of_ne hr ?_
      rintro rfl
      omega
    exact ⟨hne, rfl, hframe t hne (hlap t hlt'), rfl⟩
  case owner => exact h.owner
  case consumer => exact ⟨by simpa using hpop, hpop, hv⟩

omit [DecidableEq ι] in
/-- The consumer advances `head` and returns the value. -/
lemma advance (h : Consistent cap s) {head : ℕ} {v : Option α}
    (hc : s.consumer = some (.advance head v)) (hword : head + 1 < wordMod) :
    Consistent cap { s with
      memory := s.memory.store .head (wrappingAdd head 1)
      consumer := none
      popped := s.popped ++ [v] } := by
  have hcons := h.consumer
  rw [hc] at hcons
  obtain ⟨hr, rfl, rfl⟩ := hcons
  have hlt : s.popped.length < s.claims.length := by
    have := h.released_le
    omega
  rw [wrappingAdd_of_lt hword]
  exact {
    h with
    head := by simp
    popped := by
      have hsome : s.claims[s.popped.length]? = some s.claims[s.popped.length] :=
        List.getElem?_eq_getElem hlt
      dsimp only
      rw [List.length_append, List.length_singleton, List.take_add_one, List.map_append, ← h.popped,
        hsome]
      rfl
    published := fun k hk hk' hs _ => h.published k hk hk' hs (by simp [hc])
    consumer := by simpa [System.Consumer] using hr }

end Consistent

/-! ## Every step keeps the invariant -/

variable [DecidableEq ι] {mask cap : ℕ} {s s' : System ι α}

/-- A step of a producer gives no claim back. -/
lemma length_claims_stepProducer (i : ι) (spurious : Bool) (c : PushCall α) :
    s.claims.length ≤ (s.stepProducer mask i spurious c).claims.length := by
  simp only [System.stepProducer]
  split <;> simp

omit [DecidableEq ι] in
/-- A step of the consumer claims nothing. -/
lemma claims_stepConsumer (c : PopCall α) : (s.stepConsumer mask c).claims = s.claims := by
  simp only [System.stepConsumer]
  split <;> rfl

/-- An access of a producer keeps the invariant. -/
lemma consistent_stepProducer (hcap : IsCapacity mask cap) (h : Consistent cap s) {i : ι}
    {c : PushCall α}
    (hi : s.producers i = some c) {spurious : Bool}
    (hlt : (s.stepProducer mask i spurious c).claims.length < signBit) :
    Consistent cap (s.stepProducer mask i spurious c) := by
  have hlt' : s.claims.length < signBit := (length_claims_stepProducer i spurious c).trans_lt hlt
  have hword : ∀ t, t ≤ s.claims.length → t + 1 < wordMod := fun t ht => by
    rw [signBit_eq] at hlt'
    rw [wordMod_eq]
    omega
  have hp := h.producer i c hi
  obtain ⟨v, pc⟩ := c
  cases pc with
  | loadTail =>
      rw [stepProducer_loadTail]
      exact h.of_producer i _ _ fun c hc => by cases hc; exact ⟨h.tail.le, rfl⟩
  | loadSeq t =>
      rw [stepProducer_loadSeq, hcap.and_mask]
      split_ifs with hzero hneg
      · -- only a copy of `tail` in the current lap passes
        have hle : t ≤ s.claims.length := hp
        have hseq : s.seqAt cap t = t :=
          (signed_wrappingSub_eq_zero (h.seqAt_lt hcap hlt' t)
            (Nat.lt_of_succ_lt (hword t hle))).mp hzero
        refine h.of_producer i _ _ fun c hc => ?_
        cases hc
        exact ⟨⟨hle, fun _ => (h.lt_of_seqAt_eq hcap.two_le hseq).2⟩, rfl⟩
      · exact h.of_producer i none _ fun c hc => by cases hc
      · exact h.of_producer i _ _ fun c hc => by cases hc; exact ⟨trivial, rfl⟩
  | exchange t =>
      rw [stepProducer_exchange]
      split_ifs with hok
      · exact h.claim hi hok.1 (hword _ le_rfl)
      · exact h.of_producer i _ _ fun c hc => by cases hc; exact ⟨h.tail.le, rfl⟩
  | write t =>
      rw [stepProducer_write, hcap.and_mask]
      exact h.write hi
  | publish t =>
      rw [stepProducer_publish, hcap.and_mask]
      exact h.publish hi (hword t (h.of_holds hi rfl).2.1.le)
  | loadHead t =>
      rw [stepProducer_loadHead]
      exact h.of_producer i none _ fun c hc => by cases hc

omit [DecidableEq ι] in
/-- An access of the consumer keeps the invariant. -/
lemma consistent_stepConsumer (hcap : IsCapacity mask cap) (h : Consistent cap s) {c : PopCall α}
    (hc : s.consumer = some c) (hlt : s.claims.length < signBit) :
    Consistent cap (s.stepConsumer mask c) := by
  have hcap2 := hcap.two_le
  have hword : ∀ k, k ≤ s.claims.length → k + 1 < wordMod ∧ k + cap < wordMod := fun k hk => by
    have hcap' := hcap.le_signBit
    rw [signBit_eq] at hlt hcap'
    rw [wordMod_eq]
    omega
  have hcons := h.consumer
  rw [hc] at hcons
  cases c with
  | loadHead =>
      rw [stepConsumer_loadHead]
      exact h.of_consumer (by simp [hc]) _ ⟨hcons, h.head.trans hcons.symm⟩
  | loadSeq head =>
      obtain ⟨hpop, rfl⟩ := hcons
      have hsucc := (hword _ h.released_le).1
      rw [stepConsumer_loadSeq, hcap.and_mask, wrappingAdd_of_lt hsucc]
      refine h.of_consumer (by simp [hc]) _ ?_
      split_ifs with hzero
      · have hseq : s.seqAt cap s.released = s.released + 1 :=
          (signed_wrappingSub_eq_zero (h.seqAt_lt hcap hlt _) hsucc).mp hzero
        exact ⟨hpop, rfl, h.lt_of_seqAt_eq_succ (by omega) hseq, hseq⟩
      · exact hpop
  | read head =>
      rw [stepConsumer_read, hcap.and_mask]
      exact h.read hc
  | release head v =>
      rw [stepConsumer_release, hcap.and_mask, hcap.mask_add_one]
      exact h.release hc (hword head hcons.2.2.1.le).2
  | advance head v =>
      have hle := h.released_le
      obtain ⟨hr, rfl, -⟩ := hcons
      rw [stepConsumer_advance]
      exact h.advance hc (hword _ (by omega)).1

/-- **Step lemma.** As long as fewer than `2 ^ 63` pushes have claimed an index, every step keeps
the invariant. -/
theorem consistent_step (hcap : IsCapacity mask cap) (h : Consistent cap s) {a : Act ι α}
    (hstep : step mask s a = some s') (hlt : s'.claims.length < signBit) : Consistent cap s' := by
  have hs := step_eq_some hstep
  cases a with
  | push i v =>
      obtain ⟨-, rfl⟩ := hs
      exact h.of_producer i _ _ fun c hc => by cases hc; exact ⟨trivial, rfl⟩
  | producer i spurious =>
      obtain ⟨c, hi, rfl⟩ := hs
      exact consistent_stepProducer hcap h hi hlt
  | pop =>
      obtain ⟨hnone, rfl⟩ := hs
      have hcons := h.consumer
      rw [hnone] at hcons
      exact h.of_consumer (by simp [hnone]) _ hcons
  | consumer =>
      obtain ⟨c, hc, rfl⟩ := hs
      rw [claims_stepConsumer] at hlt
      exact consistent_stepConsumer hcap h hc hlt

/-- Claims are never taken back. -/
lemma length_claims_step {a : Act ι α} (hstep : step mask s a = some s') :
    s.claims.length ≤ s'.claims.length := by
  have hs := step_eq_some hstep
  cases a with
  | push i v =>
      obtain ⟨-, rfl⟩ := hs
      exact le_rfl
  | producer i spurious =>
      obtain ⟨c, -, rfl⟩ := hs
      exact length_claims_stepProducer i spurious c
  | pop =>
      obtain ⟨-, rfl⟩ := hs
      exact le_rfl
  | consumer =>
      obtain ⟨c, -, rfl⟩ := hs
      rw [claims_stepConsumer]

/-- **Run lemma.** Every run with fewer than `2 ^ 63` claims keeps the invariant. -/
theorem consistent_run (hcap : IsCapacity mask cap) (h : Consistent cap s) {as : List (Act ι α)}
    (hrun : run (step mask) s as = some s') (hlt : s'.claims.length < signBit) :
    Consistent cap s' := by
  refine run_invariant (I := fun s => s.claims.length < signBit → Consistent cap s)
    (fun s a t hs hstep hlt => ?_) (fun _ => h) hrun hlt
  exact consistent_step hcap (hs ((length_claims_step hstep).trans_lt hlt)) hstep hlt

end Aulon.Core.ShardInbox
