import Aulon.Core.ShardInbox
import Aulon.Lib.BoundedQueue
import Aulon.Lib.Simulation

/-!
# The inbox without interleaving

Calls of `push`, `pop` and `is_empty` that run one after the other, each from its start to its
return. The counters wrap: the relation to a bounded queue is stated for counters that do not, of
which the words of the inbox are the remainders, so it holds over any number of laps.

* `push`, `pop`, `isEmpty`, `drop` — whole calls; the compare-exchange of a `push` may fail any
  number of times for no reason.
* `Holds` — the inbox holds a list of elements, from an index on.
* `Holds.push`, `Holds.pop` and the like — what each call does to an inbox that holds a list.
* `inbox_is_bounded_queue` — whole sequences of calls.

Source: `aulon-core/src/shard_inbox.rs`.
-/

namespace Aulon.Core.ShardInbox

open Aulon.Lib

variable {α : Type}

/-! ## Whole calls -/

/-- The accesses of a `push` of `v` from a point on. -/
def runPush (mask : ℕ) (v : α) : List Bool → PushPc → Memory Field α →
    Option (Except α Bool × Memory Field α) :=
  Memory.runCall (fun pc => PushCall.request mask ⟨v, pc⟩) fun pc => PushCall.resume mask ⟨v, pc⟩

/-- A whole `push`. The flags say which of its accesses fail for no reason, if they are
compare-exchanges; after them none does.
Source: `shard_inbox.rs`, `ShardInbox::push` -/
def push (mask : ℕ) (v : α) (flags : List Bool) (m : Memory Field α) :
    Option (Except α Bool × Memory Field α) :=
  runPush mask v (flags ++ List.replicate 6 false) .loadTail m

/-- A whole `pop`.
Source: `shard_inbox.rs`, `ShardInbox::pop` -/
def pop (mask : ℕ) (m : Memory Field α) : Option (Option (Option α) × Memory Field α) :=
  Memory.runCall (PopCall.request mask) (PopCall.resume mask) (List.replicate 5 false) .loadHead m

/-- A whole `is_empty`.
Source: `shard_inbox.rs`, `ShardInbox::is_empty` -/
def isEmpty (mask : ℕ) (m : Memory Field α) : Option (Bool × Memory Field α) :=
  Memory.runCall (IsEmptyCall.request mask) (IsEmptyCall.resume mask) (List.replicate 2 false)
    .loadHead m

/-- The loop that empties the inbox when it is dropped, and what it popped; `none` if the fuel was
not enough.
Source: `shard_inbox.rs`, `ShardInbox::drop` -/
def drop (mask : ℕ) : ℕ → Memory Field α → Option (List (Option α) × Memory Field α)
  | 0, _ => none
  | fuel + 1, m =>
      match pop mask m with
      | none => none
      | some (none, m) => some ([], m)
      | some (some value, m) => (drop mask fuel m).map fun r => (value :: r.1, r.2)

/-! ### What a `push` does -/

section Push

variable {mask : ℕ} {v : α} {m : Memory Field α} {t : ℕ}

/-- The memory after the element has been published at the index `t`. -/
def filled (mask : ℕ) (v : α) (t : ℕ) (m : Memory Field α) : Memory Field α :=
  ({ m.store .tail (wrappingAdd t 1) with
    cell := Function.update m.cell (t &&& mask) (some v) }).store (.seq (t &&& mask))
      (wrappingAdd t 1)

/-- A push leaves the head. -/
lemma word_head_filled : (filled mask v t m).word .head = m.word .head := rfl

/-- A push advances the tail by one. -/
lemma word_tail_filled : (filled mask v t m).word .tail = wrappingAdd t 1 := rfl

/-- A push stamps its slot, and no other. -/
lemma word_seq_filled (slot : ℕ) : (filled mask v t m).word (.seq slot) =
    if slot = t &&& mask then wrappingAdd t 1 else m.word (.seq slot) := by
  by_cases hslot : slot = t &&& mask
  · simp [filled, Memory.store, hslot]
  · simp [filled, Memory.store, hslot]

/-- A push fills its slot, and no other. -/
lemma cell_filled (slot : ℕ) : (filled mask v t m).cell slot =
    if slot = t &&& mask then some v else m.cell slot := by
  by_cases hslot : slot = t &&& mask
  · simp [filled, hslot]
  · simp [filled, hslot]

/-- Once it has claimed its index, a `push` takes three more accesses. -/
lemma runPush_write {flags : List Bool} (hlen : 3 ≤ flags.length) :
    runPush mask v flags (.write t) (m.store .tail (wrappingAdd t 1)) =
      some (.ok (m.word .head == t), filled mask v t m) := by
  rcases flags with _ | ⟨a, _ | ⟨b, _ | ⟨c, rest⟩⟩⟩
  · simp at hlen
  · simp at hlen
  · simp at hlen
  · rfl

/-- The first step of a push reads the tail. -/
lemma runPush_loadTail (ht : m.word .tail = t) (spurious : Bool) (flags : List Bool) :
    runPush mask v (spurious :: flags) .loadTail m = runPush mask v flags (.loadSeq t) m := by
  rw [← ht]
  rfl

/-- A slot that carries the tail's own number is free: the push goes on to claim it. -/
lemma runPush_loadSeq (hlt : t < wordMod) (hseq : m.word (.seq (t &&& mask)) = t)
    (spurious : Bool) (flags : List Bool) :
    runPush mask v (spurious :: flags) (.loadSeq t) m = runPush mask v flags (.exchange t) m := by
  have hzero : signed (wrappingSub t t) = 0 := (signed_wrappingSub_eq_zero hlt hlt).mpr rfl
  simp only [runPush, Memory.runCall, PushCall.request, PushCall.resume, Memory.serve, hseq,
    hzero, if_true]

/-- Nobody else moves `tail`: a compare-exchange fails only for no reason. -/
lemma runPush_exchange (ht : m.word .tail = t) (spurious : Bool) (flags : List Bool) :
    runPush mask v (spurious :: flags) (.exchange t) m =
      if spurious then runPush mask v flags (.loadSeq t) m
      else runPush mask v flags (.write t) (m.store .tail (wrappingAdd t 1)) := by
  cases spurious with
  | true =>
      simp only [runPush, Memory.runCall, PushCall.request, PushCall.resume, Memory.serve, ht,
        Bool.true_eq_false, and_false, if_false, if_true]
  | false =>
      simp only [runPush, Memory.runCall, PushCall.request, PushCall.resume, Memory.serve, ht,
        and_self, if_true, Bool.false_eq_true, if_false]

/-- A `push` that finds its slot free publishes its element there, however often its
compare-exchange fails for no reason. -/
lemma push_of_free (ht : m.word .tail = t) (hlt : t < wordMod)
    (hseq : m.word (.seq (t &&& mask)) = t) (flags : List Bool) :
    push mask v flags m = some (.ok (m.word .head == t), filled mask v t m) := by
  -- from every access of the loop, by induction on the flags
  have hall : ∀ flags : List Bool, ∀ pc ∈ [PushPc.loadTail, .loadSeq t, .exchange t],
      runPush mask v (flags ++ List.replicate 6 false) pc m =
        some (.ok (m.word .head == t), filled mask v t m) := by
    intro flags
    induction flags with
    | nil =>
        have hexchange : ∀ k, runPush mask v (List.replicate (k + 4) false) (.exchange t) m =
            some (.ok (m.word .head == t), filled mask v t m) := by
          intro k
          rw [List.replicate_succ, runPush_exchange ht, if_neg (by decide)]
          exact runPush_write (by simp)
        have hloadSeq : ∀ k, runPush mask v (List.replicate (k + 5) false) (.loadSeq t) m =
            some (.ok (m.word .head == t), filled mask v t m) := by
          intro k
          rw [List.replicate_succ, runPush_loadSeq hlt hseq]
          exact hexchange k
        intro pc hpc
        rw [List.nil_append]
        simp only [List.mem_cons, List.not_mem_nil, or_false] at hpc
        rcases hpc with rfl | rfl | rfl
        · rw [List.replicate_succ, runPush_loadTail ht]
          exact hloadSeq 0
        · exact hloadSeq 1
        · exact hexchange 2
    | cons spurious flags ih =>
        intro pc hpc
        rw [List.cons_append]
        simp only [List.mem_cons, List.not_mem_nil, or_false] at hpc
        rcases hpc with rfl | rfl | rfl
        · rw [runPush_loadTail ht]
          exact ih _ (by simp)
        · rw [runPush_loadSeq hlt hseq]
          exact ih _ (by simp)
        · rw [runPush_exchange ht]
          split_ifs
          · exact ih _ (by simp)
          · exact runPush_write (by simp)
  exact hall flags .loadTail (by simp)

/-- A `push` that finds the slot a lap behind gives its element back and changes nothing. -/
lemma push_of_full (ht : m.word .tail = t)
    (hneg : signed (wrappingSub (m.word (.seq (t &&& mask))) t) < 0) (flags : List Bool) :
    push mask v flags m = some (.error v, m) := by
  have hlen : 2 ≤ (flags ++ List.replicate 6 false).length := by simp
  unfold push
  generalize flags ++ List.replicate 6 false = rest at hlen
  rcases rest with _ | ⟨a, _ | ⟨b, rest⟩⟩
  · simp at hlen
  · simp at hlen
  · simp only [runPush, Memory.runCall, PushCall.request, PushCall.resume, Memory.serve, ht,
      hneg.ne, hneg, if_true, if_false]

end Push

/-! ### What a `pop` and an `is_empty` do -/

section Pop

variable {mask : ℕ} {m : Memory Field α} {h : ℕ}

/-- The memory after the slot of the index `h` has been emptied and freed. -/
def emptied (mask h : ℕ) (m : Memory Field α) : Memory Field α :=
  (({ m with cell := Function.update m.cell (h &&& mask) none }).store (.seq (h &&& mask))
    (wrappingAdd h (mask + 1))).store .head (wrappingAdd h 1)

/-- A pop advances the head by one. -/
lemma word_head_emptied : (emptied mask h m).word .head = wrappingAdd h 1 := rfl

/-- A pop leaves the tail. -/
lemma word_tail_emptied : (emptied mask h m).word .tail = m.word .tail := rfl

/-- A pop stamps its slot for the next round, and no other. -/
lemma word_seq_emptied (slot : ℕ) : (emptied mask h m).word (.seq slot) =
    if slot = h &&& mask then wrappingAdd h (mask + 1) else m.word (.seq slot) := by
  by_cases hslot : slot = h &&& mask
  · simp [emptied, Memory.store, hslot]
  · simp [emptied, Memory.store, hslot]

/-- A pop empties its slot, and no other. -/
lemma cell_emptied (slot : ℕ) : (emptied mask h m).cell slot =
    if slot = h &&& mask then none else m.cell slot := by
  by_cases hslot : slot = h &&& mask
  · simp [emptied, hslot]
  · simp [emptied, hslot]

/-- A pop takes the value of a published slot. -/
lemma pop_of_published (hh : m.word .head = h)
    (hseq : m.word (.seq (h &&& mask)) = wrappingAdd h 1) :
    pop mask m = some (some (m.cell (h &&& mask)), emptied mask h m) := by
  have hzero : signed (wrappingSub (wrappingAdd h 1) (wrappingAdd h 1)) = 0 :=
    (signed_wrappingSub_eq_zero (wrappingAdd_lt h 1) (wrappingAdd_lt h 1)).mpr rfl
  simp only [pop, List.replicate, Memory.runCall, PopCall.request, PopCall.resume, Memory.serve,
    hh, hseq, hzero, if_true, emptied]

/-- A pop of a slot that is not published finds nothing and changes nothing. -/
lemma pop_of_not_published (hh : m.word .head = h)
    (hlt : m.word (.seq (h &&& mask)) < wordMod)
    (hseq : m.word (.seq (h &&& mask)) ≠ wrappingAdd h 1) : pop mask m = some (none, m) := by
  have hne := mt (signed_wrappingSub_eq_zero hlt (wrappingAdd_lt h 1)).mp hseq
  simp only [pop, List.replicate, Memory.runCall, PopCall.request, PopCall.resume, Memory.serve,
    hh, hne, if_false]

/-- The ring is empty exactly if the slot at the head is not published. -/
lemma isEmpty_eq (hh : m.word .head = h) :
    isEmpty mask m = some (m.word (.seq (h &&& mask)) != wrappingAdd h 1, m) := by
  rw [← hh]
  rfl

end Pop

/-! ## Holding a list -/

/-- The inbox holds `items` from the index `h` on. The indices do not wrap; the words are their
remainders. -/
structure Holds (cap h : ℕ) (items : List α) (m : Memory Field α) : Prop where
  length_le : items.length ≤ cap
  head : m.word .head = h % wordMod
  tail : m.word .tail = (h + items.length) % wordMod
  /-- A slot of this lap that is filled is published, the others are free for this lap. -/
  seq : ∀ i < cap, m.word (.seq ((h + i) % cap)) =
    (h + i + if i < items.length then 1 else 0) % wordMod
  cell : ∀ i < cap, m.cell ((h + i) % cap) = items[i]?

/-- What the size of a ring guarantees over laps: a lap divides the words. -/
structure IsRing (mask cap : ℕ) : Prop extends IsCapacity mask cap where
  dvd : cap ∣ wordMod

namespace IsRing

variable {mask cap : ℕ} (hring : IsRing mask cap)

include hring

/-- The slot of an index that has wrapped. -/
lemma mod_and_mask (k : ℕ) : k % wordMod &&& mask = k % cap := by
  rw [hring.and_mask, Nat.mod_mod_of_dvd k hring.dvd]

/-- The capacity of a ring is a word. -/
lemma lt_wordMod : cap < wordMod := by
  have hle := hring.le_signBit
  have hword := signBit_add_signBit
  have hpos : 0 < signBit := by decide
  omega

end IsRing

/-- The constructor's capacity makes a ring. -/
lemma isRing_capacityFor {requested : ℕ} (h : requested ≤ 2 ^ 63) :
    IsRing (capacityFor requested - 1) (capacityFor requested) where
  toIsCapacity := isCapacity_capacityFor h
  dvd := nextPowerOfTwo_dvd (max_le h (by decide))

/-- Counters less than a lap of the words apart are equal only if they are the same. -/
lemma add_mod_eq_iff {h k : ℕ} (hk : k < wordMod) : (h + k) % wordMod = h % wordMod ↔ k = 0 := by
  rw [wordMod_eq] at *
  omega

/-- Two slots of one lap. -/
lemma slot_inj {cap h i j : ℕ} (hi : i < cap) (hj : j < cap) :
    (h + i) % cap = (h + j) % cap ↔ i = j := by
  refine ⟨fun heq => ?_, fun heq => by rw [heq]⟩
  have hij : h + i = h + j := Nat.mod_injOn_Ico h cap (by simp [hi]) (by simp [hj]) heq
  omega

/-- A new ring holds nothing. -/
lemma holds_withCapacity {mask cap : ℕ} (hring : IsRing mask cap) :
    Holds cap 0 ([] : List α) withCapacity where
  length_le := Nat.zero_le cap
  head := rfl
  tail := rfl
  seq i hi := by
    have hword := hring.lt_wordMod
    have hslot : (0 + i) % cap = i := by rw [zero_add, Nat.mod_eq_of_lt hi]
    rw [hslot, List.length_nil, if_neg (Nat.not_lt_zero i), add_zero, zero_add,
      Nat.mod_eq_of_lt (hi.trans hword)]
    rfl
  cell i _ := rfl

namespace Holds

variable {mask cap h : ℕ} {items : List α} {m : Memory Field α}

/-- A `push` with room appends its element, and says whether there was none before. -/
lemma push (hm : Holds cap h items m) (hring : IsRing mask cap) (hroom : items.length < cap)
    (v : α) (flags : List Bool) :
    ∃ m', ShardInbox.push mask v flags m = some (.ok items.isEmpty, m') ∧
      Holds cap h (items ++ [v]) m' := by
  have hslot := hring.mod_and_mask (h + items.length)
  have hseq := hm.seq items.length hroom
  rw [if_neg (lt_irrefl _), add_zero] at hseq
  refine ⟨filled mask v ((h + items.length) % wordMod) m, ?_, ?_⟩
  · have hempty : (m.word .head == (h + items.length) % wordMod) = items.isEmpty := by
      have hiff := add_mod_eq_iff (h := h) (hroom.trans hring.lt_wordMod)
      rw [hm.head, Bool.eq_iff_iff, beq_iff_eq, eq_comm, hiff, List.length_eq_zero_iff,
        List.isEmpty_iff]
    rw [push_of_free hm.tail (Nat.mod_lt _ (by decide)) (by rw [hslot, hseq]) flags, hempty]
  · have hlen : (items ++ [v]).length = items.length + 1 := by simp
    refine ⟨by omega, ?_, ?_, fun i hi => ?_, fun i hi => ?_⟩
    · rw [word_head_filled, hm.head]
    · rw [word_tail_filled, wrappingAdd_mod, hlen, add_assoc]
    · rw [word_seq_filled, hslot, wrappingAdd_mod, hlen]
      by_cases heq : i = items.length
      · rw [if_pos ((slot_inj hi hroom).mpr heq), if_pos (by omega), heq]
      · rw [if_neg (mt (slot_inj hi hroom).mp heq), hm.seq i hi]
        simp only [show i < items.length + 1 ↔ i < items.length by omega]
    · rw [cell_filled, hslot]
      by_cases heq : i = items.length
      · rw [if_pos ((slot_inj hi hroom).mpr heq), heq, List.getElem?_concat_length]
      · rw [if_neg (mt (slot_inj hi hroom).mp heq), hm.cell i hi]
        rcases Nat.lt_or_gt_of_ne heq with hlt | hgt
        · rw [List.getElem?_append_left hlt]
        · rw [List.getElem?_eq_none (by omega), List.getElem?_eq_none (by omega)]

/-- A `push` without room gives its element back and changes nothing. -/
lemma push_full (hm : Holds cap h items m) (hring : IsRing mask cap) (hfull : items.length = cap)
    (v : α) (flags : List Bool) :
    ShardInbox.push mask v flags m = some (.error v, m) := by
  have htwo := hring.two_le
  have hsign := hring.le_signBit
  -- the slot of `tail` is the one of `head`, published for the lap that is not over yet
  have hslot : (h + items.length) % wordMod &&& mask = (h + 0) % cap := by
    rw [hring.mod_and_mask, hfull, Nat.add_mod_right, add_zero]
  have hseq := hm.seq 0 (by omega)
  rw [if_pos (by omega)] at hseq
  refine push_of_full hm.tail ?_ flags
  rw [hslot, hseq, wrappingSub_mod, signed_wrappingSub (by omega) (by omega)]
  omega

/-- The slot at the head is published exactly if the ring holds something. -/
lemma seq_head (hm : Holds cap h items m) (hring : IsRing mask cap) :
    m.word (.seq (h % wordMod &&& mask)) =
      (h + if 0 < items.length then 1 else 0) % wordMod := by
  have hseq := hm.seq 0 (by have := hring.two_le; omega)
  rwa [add_zero, ← hring.mod_and_mask] at hseq

/-- The sequence number at the head says whether there is an element. -/
lemma seq_head_eq_iff (hm : Holds cap h items m) (hring : IsRing mask cap) :
    m.word (.seq (h % wordMod &&& mask)) = wrappingAdd (h % wordMod) 1 ↔ items ≠ [] := by
  rw [hm.seq_head hring, wrappingAdd_mod]
  cases items with
  | nil =>
      have hne : (h + 1) % wordMod ≠ h % wordMod := mt (add_mod_eq_iff (by decide)).mp one_ne_zero
      simpa using hne.symm
  | cons x items => simp

/-- A `pop` takes the oldest element. -/
lemma pop_cons {x : α} (hm : Holds cap h (x :: items) m) (hring : IsRing mask cap) :
    ∃ m', ShardInbox.pop mask m = some (some (some x), m') ∧ Holds cap (h + 1) items m' := by
  have hslot := hring.mod_and_mask h
  have htwo := hring.two_le
  have hlen := hm.length_le
  rw [List.length_cons] at hlen
  refine ⟨emptied mask (h % wordMod) m, ?_, ?_⟩
  · have hcell := hm.cell 0 (by omega)
    rw [add_zero, ← hslot] at hcell
    rw [pop_of_published hm.head ((hm.seq_head_eq_iff hring).mpr (by simp)), hcell]
    rfl
  · -- the index `i` after the first is the index `i + 1` before; the last one is freed
    have hnext : ∀ i, h + 1 + i = h + (i + 1) := fun i => by omega
    have hlast : ∀ i < cap, (h + (i + 1)) % cap = h % cap ↔ i + 1 = cap := by
      intro i hi
      rcases eq_or_lt_of_le (Nat.succ_le_of_lt hi) with heq | hlt
      · simp only [← heq, Nat.succ_eq_add_one, Nat.add_mod_right]
      · have hfirst := slot_inj (h := h) hlt (show 0 < cap by omega)
        rw [add_zero] at hfirst
        exact ⟨fun hmod => absurd (hfirst.mp hmod) (by omega), fun heq => by omega⟩
    refine ⟨by omega, ?_, ?_, fun i hi => ?_, fun i hi => ?_⟩
    · rw [word_head_emptied, wrappingAdd_mod]
    · rw [word_tail_emptied, hm.tail, List.length_cons, hnext]
    · rw [word_seq_emptied, hslot, wrappingAdd_mod, hring.mask_add_one, hnext]
      by_cases heq : i + 1 = cap
      · rw [if_pos ((hlast i hi).mpr heq), if_neg (by omega), heq, add_zero]
      · rw [if_neg (mt (hlast i hi).mp heq), hm.seq (i + 1) (by omega), List.length_cons]
        simp only [Nat.add_lt_add_iff_right]
    · rw [cell_emptied, hslot, hnext]
      by_cases heq : i + 1 = cap
      · rw [if_pos ((hlast i hi).mpr heq), List.getElem?_eq_none (by omega)]
      · rw [if_neg (mt (hlast i hi).mp heq), hm.cell (i + 1) (by omega), List.getElem?_cons_succ]

/-- A pop of an empty ring finds nothing. -/
lemma pop_nil (hm : Holds cap h ([] : List α) m) (hring : IsRing mask cap) :
    ShardInbox.pop mask m = some (none, m) := by
  refine pop_of_not_published hm.head ?_ (mt (hm.seq_head_eq_iff hring).mp (by simp))
  rw [hm.seq_head hring]
  exact Nat.mod_lt _ (by decide)

/-- A `pop` returns the oldest element, if there is one. -/
lemma pop (hm : Holds cap h items m) (hring : IsRing mask cap) :
    ∃ m', ShardInbox.pop mask m = some (items.head?.map some, m') ∧ (items = [] → m' = m) := by
  cases items with
  | nil => exact ⟨m, hm.pop_nil hring, fun _ => rfl⟩
  | cons x items =>
      obtain ⟨m', hpop, -⟩ := hm.pop_cons hring
      exact ⟨m', hpop, fun hnil => by cases hnil⟩

/-- The ring says that it is empty exactly if it holds nothing. -/
lemma isEmpty (hm : Holds cap h items m) (hring : IsRing mask cap) :
    ShardInbox.isEmpty mask m = some (items.isEmpty, m) := by
  have hiff := hm.seq_head_eq_iff hring
  have hflag : (m.word (.seq (h % wordMod &&& mask)) != wrappingAdd (h % wordMod) 1) =
      items.isEmpty := by
    rw [Bool.eq_iff_iff, bne_iff_ne, ne_eq, hiff, not_not, List.isEmpty_iff]
  rw [isEmpty_eq hm.head, hflag]

/-- Dropping pops every element once, the oldest first, and leaves no slot filled. -/
lemma drop (hm : Holds cap h items m) (hring : IsRing mask cap) {fuel : ℕ}
    (hfuel : items.length < fuel) :
    ∃ m', ShardInbox.drop mask fuel m = some (items.map some, m') ∧
      ∃ h', Holds cap h' ([] : List α) m' := by
  induction items generalizing h m fuel with
  | nil =>
      obtain ⟨fuel, rfl⟩ := Nat.exists_eq_add_of_lt hfuel
      refine ⟨m, ?_, h, hm⟩
      simp only [ShardInbox.drop, hm.pop_nil hring, List.map_nil]
  | cons x items ih =>
      obtain ⟨fuel, rfl⟩ := Nat.exists_eq_succ_of_ne_zero (Nat.ne_zero_of_lt hfuel)
      obtain ⟨m₁, hpop, hm₁⟩ := hm.pop_cons hring
      obtain ⟨m', hdrop, hempty⟩ := ih hm₁ (Nat.lt_of_succ_lt_succ hfuel)
      refine ⟨m', ?_, hempty⟩
      simp only [ShardInbox.drop, hpop, hdrop, Option.map_some, List.map_cons]

/-- An inbox that holds nothing has no value in any slot. -/
lemma cell_eq_none (hm : Holds cap h ([] : List α) m) (hcap : 0 < cap) {slot : ℕ}
    (hslot : slot < cap) : m.cell slot = none := by
  have hcell := hm.cell ((slot + (cap - h % cap)) % cap) (Nat.mod_lt _ hcap)
  have hmod := Nat.mod_lt h hcap
  have heq : (h + (slot + (cap - h % cap)) % cap) % cap = slot := by
    rw [Nat.add_mod_mod, ← Nat.mod_add_mod,
      show h % cap + (slot + (cap - h % cap)) = slot + cap by omega, Nat.add_mod_right,
      Nat.mod_eq_of_lt hslot]
  rwa [heq] at hcell

end Holds

/-! ## Sequences of calls -/

/-- A call; `flags` says which compare-exchanges of a `push` fail for no reason. -/
inductive Call (α : Type)
  | push (v : α) (flags : List Bool)
  | pop
  | isEmpty

/-- What a call returned. -/
inductive Answer (α : Type)
  | push (result : Except α Bool)
  | pop (result : Option (Option α))
  | isEmpty (result : Bool)

/-- A call on the inbox; the answer is `none` if it does not return. -/
def call (mask : ℕ) (m : Memory Field α) : Call α → Memory Field α × Option (Answer α)
  | .push v flags => (push mask v flags m).elim (m, none) fun r => (r.2, some (.push r.1))
  | .pop => (pop mask m).elim (m, none) fun r => (r.2, some (.pop r.1))
  | .isEmpty => (isEmpty mask m).elim (m, none) fun r => (r.2, some (.isEmpty r.1))

/-- The same call on a bounded queue. -/
def queueCall (q : BoundedQueue α) : Call α → BoundedQueue α × Option (Answer α)
  | .push v _ =>
      (q.push v).elim (q, some (.push (.error v))) fun r => (r.2, some (.push (.ok r.1)))
  | .pop => q.pop.elim (q, some (.pop none)) fun r => (r.2, some (.pop (some (some r.1))))
  | .isEmpty => (q, some (.isEmpty q.items.isEmpty))

/-- The inbox holds what the queue holds. -/
def Represents (cap : ℕ) (m : Memory Field α) (q : BoundedQueue α) : Prop :=
  q.capacity = cap ∧ ∃ h, Holds cap h q.items m

/-- **Step lemma.** A call does to the inbox what it does to the queue, and returns the same. -/
lemma represents_call {mask cap : ℕ} (hring : IsRing mask cap) (m : Memory Field α)
    (q : BoundedQueue α) (c : Call α) (hrep : Represents cap m q) :
    Represents cap (call mask m c).1 (queueCall q c).1 ∧
      (call mask m c).2 = (queueCall q c).2 := by
  obtain ⟨rfl, h, hm⟩ := hrep
  cases c with
  | push v flags =>
      by_cases hroom : q.items.length < q.capacity
      · obtain ⟨m', hpush, hm'⟩ := hm.push hring hroom v flags
        simp only [call, queueCall, hpush, BoundedQueue.push, dif_pos hroom, Option.elim_some]
        exact ⟨⟨rfl, h, hm'⟩, trivial⟩
      · have hfull := le_antisymm q.length_le (not_lt.mp hroom)
        simp only [call, queueCall, hm.push_full hring hfull v flags, BoundedQueue.push,
          dif_neg hroom, Option.elim_some, Option.elim_none]
        exact ⟨⟨rfl, h, hm⟩, trivial⟩
  | pop =>
      obtain ⟨capacity, items, hle⟩ := q
      cases items with
      | nil =>
          simp only [call, queueCall, hm.pop_nil hring, BoundedQueue.pop, Option.elim_some,
            Option.elim_none]
          exact ⟨⟨rfl, h, hm⟩, trivial⟩
      | cons x items =>
          obtain ⟨m', hpop, hm'⟩ := hm.pop_cons hring
          simp only [call, queueCall, hpop, BoundedQueue.pop, Option.elim_some]
          exact ⟨⟨rfl, h + 1, hm'⟩, trivial⟩
  | isEmpty =>
      simp only [call, queueCall, hm.isEmpty hring, Option.elim_some]
      exact ⟨⟨rfl, h, hm⟩, trivial⟩

/-- **Without interleaving, the inbox is a bounded queue.** The capacity is the least power of two
that is at least the requested one and at least two. After any sequence of whole calls, of any
length and so over any number of wraps of the counters, all calls have returned what they return on
the queue, and the next one does: a `push` succeeds exactly if there is room, with the flag whether
the queue was empty, and otherwise gives the element back and changes nothing; a `pop` takes the
oldest element, or returns nothing if there is none; `is_empty` is exact; and dropping the inbox
pops every element that is left once, and nothing else. -/
theorem inbox_is_bounded_queue (requested : ℕ) (hreq : requested ≤ 2 ^ 62) :
    ((∃ k, capacityFor requested = 2 ^ k) ∧ max requested 2 ≤ capacityFor requested ∧
      ∀ k, max requested 2 ≤ 2 ^ k → capacityFor requested ≤ 2 ^ k) ∧
    ∀ calls : List (Call α),
      let cap := capacityFor requested
      let m := (exec (call (cap - 1)) withCapacity calls).1
      let q := (exec queueCall (.empty cap) calls).1
      (exec (call (cap - 1)) withCapacity calls).2 = (exec queueCall (.empty cap) calls).2 ∧
      (∀ v flags, ∃ m', push (cap - 1) v flags m =
          some (if q.items.length < cap then .ok q.items.isEmpty else .error v, m') ∧
        (¬ q.items.length < cap → m' = m)) ∧
      (∃ m', pop (cap - 1) m = some (q.items.head?.map some, m') ∧ (q.items = [] → m' = m)) ∧
      isEmpty (cap - 1) m = some (q.items.isEmpty, m) ∧
      ∀ fuel, q.items.length < fuel → ∃ m', drop (cap - 1) fuel m = some (q.items.map some, m') ∧
        ∀ slot < cap, m'.cell slot = none := by
  refine ⟨⟨⟨_, rfl⟩, le_nextPowerOfTwo _, fun k hk => nextPowerOfTwo_le hk⟩, fun calls => ?_⟩
  intro cap m q
  have hring : IsRing (cap - 1) cap := isRing_capacityFor (hreq.trans (by decide))
  obtain ⟨⟨hcapacity, h, hm⟩, hanswers⟩ := exec_simulation (represents_call (α := α) hring)
    (t := BoundedQueue.empty cap) ⟨rfl, 0, holds_withCapacity hring⟩ calls
  refine ⟨hanswers, fun v flags => ?_, ?_, hm.isEmpty hring, fun fuel hfuel => ?_⟩
  · by_cases hroom : q.items.length < cap
    · obtain ⟨m', hpush, -⟩ := hm.push hring hroom v flags
      exact ⟨m', by rw [if_pos hroom]; exact hpush, fun hnot => absurd hroom hnot⟩
    · have hfull := le_antisymm hm.length_le (not_lt.mp hroom)
      exact ⟨m, by rw [if_neg hroom]; exact hm.push_full hring hfull v flags, fun _ => rfl⟩
  · exact hm.pop hring
  · obtain ⟨m', hdrop, h', hm'⟩ := hm.drop hring hfuel
    have htwo := hring.two_le
    exact ⟨m', hdrop, fun slot hslot => hm'.cell_eq_none (by omega) hslot⟩

/-- An inbox for three elements that has been filled, one `push` too many included, and drained by
one: it holds the second to fourth element, there is room again, and dropping it pops these. -/
theorem inbox_is_bounded_queue_three :
    let calls : List (Call ℕ) := [.isEmpty, .push 1 [true, false, true], .push 2 [], .push 3 [true],
      .push 4 [], .push 5 [], .pop]
    let m := (exec (call 3) withCapacity calls).1
    (exec (call 3) withCapacity calls).2 = [some (.isEmpty true), some (.push (.ok true)),
      some (.push (.ok false)), some (.push (.ok false)), some (.push (.ok false)),
      some (.push (.error 5)), some (.pop (some (some 1)))] ∧
    (∃ m', push 3 6 [] m = some (.ok false, m')) ∧
    ∃ m', drop 3 10 m = some ([some 2, some 3, some 4], m') ∧ ∀ slot < 4, m'.cell slot = none := by
  have hcap : capacityFor 3 = 4 := capacityFor_eq 1 (by decide) (by decide)
  have hall := (inbox_is_bounded_queue (α := ℕ) 3 (by decide)).2
  rw [hcap] at hall
  intro calls m
  obtain ⟨hanswers, hpush, -, -, hdrop⟩ := hall calls
  refine ⟨hanswers, ?_, ?_⟩
  · obtain ⟨m', h, -⟩ := hpush 6 []
    exact ⟨m', h⟩
  · exact hdrop 10 (by decide)

end Aulon.Core.ShardInbox
