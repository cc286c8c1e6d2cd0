import Aulon.Core.ShardInbox
import Aulon.Lib.Run

/-!
# Wake-ups on the cross-shard path

Producers push into an inbox and kick the eventfd if `push` says that the ring was empty; one
consumer sleeps on the eventfd and, once woken, pops until there is nothing left. The threads run
on total store order: a store to `seq` or `head` waits in the buffer of its thread.

* `Wakeup`, `wakeStep` — the producers, the consumer, the eventfd counter and the buffers.
* `Wakeup.Fenced` — the condition on a step under which no wake-up is lost: a `push` loads `head`
  after its publication has reached the memory, a `pop` loads the next sequence number after its
  own stores have.
* `no_lost_wakeup_of_fenced` — in runs of such steps the consumer never sleeps on a published
  element.
* `wakeup_lost` — in other runs it does.
-/

namespace Aulon.Core.ShardInbox

open Aulon.Lib

variable {ι α : Type} [DecidableEq ι]

/-! ## The system -/

/-- A producer is idle, runs `push`, or is about to kick the eventfd.

Source: `main.rs`, `handle_pub`. -/
inductive Producer (α : Type)
  | idle
  | pushing (c : PushCall α)
  | waking

/-- The consumer is at its read of the eventfd, or runs `pop`.

Source: `main.rs`, `drain_task`. -/
inductive Consumer (α : Type)
  | reading
  | popping (c : PopCall α)

/-- The threads, the eventfd counter and the memory; the thread `none` is the consumer. -/
structure Wakeup (ι α : Type) where
  buffered : Buffered (Option ι) Field α
  producers : ι → Producer α
  consumer : Consumer α
  counter : ℕ

/-- A fresh inbox: nobody pushes and the consumer is at its first read of the eventfd. -/
def Wakeup.start : Wakeup ι α where
  buffered := { memory := withCapacity, pending := fun _ => [] }
  producers _ := .idle
  consumer := .reading
  counter := 0

/-- Who moves: a producer calls `push`, a producer takes its next step, the consumer takes its next
step, the oldest pending store of a thread reaches the memory. -/
inductive WakeAct (ι α : Type)
  | push (i : ι) (v : α)
  | producer (i : ι) (spurious : Bool)
  | consumer
  | flush (thread : Option ι)

/-- The step of a producer: the next access of its `push`, or the kick, which is an eventfd write
and flushes the buffer. `push` is followed by a kick exactly if it returns `Ok(true)`.

Source: `main.rs`, `handle_pub`. -/
def Wakeup.stepProducer (mask : ℕ) (s : Wakeup ι α) (i : ι) (spurious : Bool) :
    Option (Wakeup ι α) :=
  match s.producers i with
  | .idle => none
  | .pushing c =>
      let answer := s.buffered.serve (some i) spurious (c.request mask)
      let next : Producer α :=
        match c.resume mask answer.1 with
        | .next pc => .pushing { c with pc }
        | .ret (.ok true) => .waking
        | .ret _ => .idle
      some { s with buffered := answer.2, producers := Function.update s.producers i next }
  | .waking =>
      some { s with
        buffered := s.buffered.flush (some i)
        producers := Function.update s.producers i .idle
        counter := s.counter + 1 }

/-- The step of the consumer: the read of the eventfd, which blocks while the counter is zero,
resets it and flushes the buffer, or the next access of its `pop`. A `pop` that finds an element is
followed by the next one.

Source: `main.rs`, `drain_task`. -/
def Wakeup.stepConsumer (mask : ℕ) (s : Wakeup ι α) : Option (Wakeup ι α) :=
  match s.consumer with
  | .reading =>
      if s.counter = 0 then none
      else
        some { s with
          buffered := s.buffered.flush none
          consumer := .popping .loadHead
          counter := 0 }
  | .popping c =>
      let answer := s.buffered.serve none false (c.request mask)
      let next : Consumer α :=
        match c.resume mask answer.1 with
        | .next c => .popping c
        | .ret none => .reading
        | .ret (some _) => .popping .loadHead
      some { s with buffered := answer.2, consumer := next }

/-- One step of the system. -/
def wakeStep (mask : ℕ) (s : Wakeup ι α) : WakeAct ι α → Option (Wakeup ι α)
  | .push i v =>
      match s.producers i with
      | .idle =>
          some { s with producers := Function.update s.producers i (.pushing (.start v)) }
      | _ => none
  | .producer i spurious => s.stepProducer mask i spurious
  | .consumer => s.stepConsumer mask
  | .flush thread => (s.buffered.flushOne thread).map fun b => { s with buffered := b }

/-- All producers are idle, all buffers are flushed, and the consumer is blocked on the eventfd. -/
structure Wakeup.Asleep (s : Wakeup ι α) : Prop where
  idle : ∀ i, s.producers i = .idle
  flushed : ∀ thread, s.buffered.pending thread = []
  reading : s.consumer = .reading
  counter : s.counter = 0

/-- A published element is at the head of the inbox. -/
def Wakeup.HeadPublished (mask : ℕ) (s : Wakeup ι α) : Prop :=
  s.buffered.memory.word (.seq (s.buffered.memory.word .head &&& mask)) =
    wrappingAdd (s.buffered.memory.word .head) 1

/-- Whether the slot at the head is published can be decided. -/
instance decidableHeadPublished (mask : ℕ) (s : Wakeup ι α) : Decidable (s.HeadPublished mask) :=
  inferInstanceAs (Decidable (_ = _))

/-- Whether a producer is idle can be decided. -/
instance decidableIdle : DecidablePred fun p : Producer α => p = .idle
  | .idle => isTrue rfl
  | .pushing _ => isFalse nofun
  | .waking => isFalse nofun

/-- Whether the consumer is reading can be decided. -/
instance decidableReading : DecidablePred fun c : Consumer α => c = .reading
  | .reading => isTrue rfl
  | .popping _ => isFalse nofun

/-- Whether the system is asleep can be decided. -/
instance decidableAsleep [Fintype ι] (s : Wakeup ι α) : Decidable s.Asleep :=
  decidable_of_iff ((∀ i, s.producers i = .idle) ∧ (∀ thread, s.buffered.pending thread = []) ∧
    s.consumer = .reading ∧ s.counter = 0)
    ⟨fun h => ⟨h.1, h.2.1, h.2.2.1, h.2.2.2⟩, fun h => ⟨h.idle, h.flushed, h.reading, h.counter⟩⟩

/-- A `push` loads `head` when its publication has reached the memory, or finds `head` at its own
index anyway. -/
def Producer.Fenced (pending : List (Field × ℕ)) (head : ℕ) : Producer α → Prop
  | .pushing ⟨_, .loadHead t⟩ => pending = [] ∨ head = t
  | _ => True

/-- A `pop` loads a sequence number when its own stores have reached the memory, or finds an element
anyway. -/
def Consumer.Fenced (mask : ℕ) (pending : List (Field × ℕ)) (observe : Field → ℕ) :
    Consumer α → Prop
  | .popping (.loadSeq h) => pending = [] ∨ observe (.seq (h &&& mask)) = wrappingAdd h 1
  | _ => True

/-- The step does not depend on a store of its own thread that the others cannot see yet. -/
def Wakeup.Fenced (mask : ℕ) (s : Wakeup ι α) : WakeAct ι α → Prop
  | .producer i _ =>
      (s.producers i).Fenced (s.buffered.pending (some i)) (s.buffered.observe (some i) .head)
  | .consumer => s.consumer.Fenced mask (s.buffered.pending none) (s.buffered.observe none)
  | _ => True

/-- Whether the next step of a producer is fenced can be decided. -/
instance (pending : List (Field × ℕ)) (head : ℕ) :
    (p : Producer α) → Decidable (p.Fenced pending head)
  | .idle => .isTrue trivial
  | .waking => .isTrue trivial
  | .pushing ⟨_, .loadHead t⟩ => inferInstanceAs (Decidable (pending = [] ∨ head = t))
  | .pushing ⟨_, .loadTail⟩ => .isTrue trivial
  | .pushing ⟨_, .loadSeq _⟩ => .isTrue trivial
  | .pushing ⟨_, .exchange _⟩ => .isTrue trivial
  | .pushing ⟨_, .write _⟩ => .isTrue trivial
  | .pushing ⟨_, .publish _⟩ => .isTrue trivial

/-- Whether the next step of the consumer is fenced can be decided. -/
instance (mask : ℕ) (pending : List (Field × ℕ)) (observe : Field → ℕ) :
    (c : Consumer α) → Decidable (c.Fenced mask pending observe)
  | .reading => .isTrue trivial
  | .popping (.loadSeq h) =>
      inferInstanceAs (Decidable (pending = [] ∨ observe (.seq (h &&& mask)) = wrappingAdd h 1))
  | .popping .loadHead => .isTrue trivial
  | .popping (.read _) => .isTrue trivial
  | .popping (.release _ _) => .isTrue trivial
  | .popping (.advance _ _) => .isTrue trivial

/-- Whether an action is fenced can be decided. -/
instance (mask : ℕ) (s : Wakeup ι α) : (a : WakeAct ι α) → Decidable (s.Fenced mask a)
  | .push _ _ => .isTrue trivial
  | .producer i _ => inferInstanceAs (Decidable ((s.producers i).Fenced _ _))
  | .consumer => inferInstanceAs (Decidable (s.consumer.Fenced _ _ _))
  | .flush _ => .isTrue trivial

/-! ## The invariant -/

/-- The producer will kick the eventfd, given that `head` stays where it is. -/
def Producer.Kicks (head : ℕ) : Producer α → Prop
  | .waking => True
  | .pushing ⟨_, .loadHead t⟩ => t = head
  | _ => False

/-- The one store that a producer can have pending: its publication of the index `t`. -/
def publication (mask t : ℕ) : Field × ℕ := (.seq (t &&& mask), wrappingAdd t 1)

/-- What is pending at each point of a producer, and that its copy of `tail` is a word. -/
def Producer.Pending (mask : ℕ) (pending : List (Field × ℕ)) : Producer α → Prop
  | .idle => pending = []
  | .pushing ⟨_, .loadTail⟩ => pending = []
  | .pushing ⟨_, .loadSeq t⟩ => t < wordMod ∧ pending = []
  | .pushing ⟨_, .exchange t⟩ => t < wordMod ∧ pending = []
  | .pushing ⟨_, .write t⟩ => t < wordMod ∧ pending = []
  | .pushing ⟨_, .publish t⟩ => t < wordMod ∧ pending = []
  | .pushing ⟨_, .loadHead t⟩ => t < wordMod ∧ (pending = [] ∨ pending = [publication mask t])
  | .waking => pending = [] ∨ ∃ t, pending = [publication mask t]

/-- **The invariant.** A consumer that is about to sleep on a published element will be kicked. -/
structure Awake (mask : ℕ) (s : Wakeup ι α) : Prop where
  tail_lt : s.buffered.memory.word .tail < wordMod
  head_lt : s.buffered.memory.word .head < wordMod
  pending_lt : ∀ thread, ∀ e ∈ s.buffered.pending thread, e.2 < wordMod
  producer : ∀ i, (s.producers i).Pending mask (s.buffered.pending (some i))
  copy : ∀ h, s.consumer = .popping (.loadSeq h) → s.buffered.observe none .head = h
  flushed : s.consumer = .reading → s.buffered.pending none = []
  kick : s.consumer = .reading → s.HeadPublished mask →
    0 < s.counter ∨ ∃ i, (s.producers i).Kicks (s.buffered.memory.word .head)

omit [DecidableEq ι] in
/-- The invariant holds at the start. -/
lemma awake_start (mask : ℕ) : Awake mask (Wakeup.start : Wakeup ι α) where
  tail_lt := Nat.two_pow_pos 64
  head_lt := Nat.two_pow_pos 64
  pending_lt _ e he := by cases he
  producer _ := rfl
  copy h hc := by cases hc
  flushed _ := rfl
  kick _ hpub := by
    simp [Wakeup.HeadPublished, Wakeup.start, withCapacity, wrappingAdd, wordMod] at hpub

/-- All that a producer can have pending is one publication. -/
lemma Producer.Pending.eq_nil_or {mask : ℕ} {pending : List (Field × ℕ)} {p : Producer α}
    (h : p.Pending mask pending) : pending = [] ∨ ∃ t, pending = [publication mask t] := by
  match p with
  | .idle => exact Or.inl h
  | .pushing ⟨_, .loadTail⟩ => exact Or.inl h
  | .pushing ⟨_, .loadSeq t⟩ => exact Or.inl h.2
  | .pushing ⟨_, .exchange t⟩ => exact Or.inl h.2
  | .pushing ⟨_, .write t⟩ => exact Or.inl h.2
  | .pushing ⟨_, .publish t⟩ => exact Or.inl h.2
  | .pushing ⟨_, .loadHead t⟩ => exact h.2.imp_right fun ht => ⟨t, ht⟩
  | .waking => exact h

/-- A producer with a pending publication is about to decide on the kick, or to kick. -/
lemma Producer.Pending.of_cons {mask : ℕ} {e : Field × ℕ} {rest : List (Field × ℕ)}
    {p : Producer α} (h : p.Pending mask (e :: rest)) :
    rest = [] ∧ ∃ t, e = publication mask t ∧
      ((∃ v, p = .pushing ⟨v, .loadHead t⟩ ∧ t < wordMod) ∨ p = .waking) := by
  match p with
  | .idle => cases h
  | .pushing ⟨_, .loadTail⟩ => cases h
  | .pushing ⟨_, .loadSeq t⟩ => cases h.2
  | .pushing ⟨_, .exchange t⟩ => cases h.2
  | .pushing ⟨_, .write t⟩ => cases h.2
  | .pushing ⟨_, .publish t⟩ => cases h.2
  | .pushing ⟨v, .loadHead t⟩ =>
      obtain ⟨ht, hnil | hone⟩ := h
      · cases hnil
      · cases hone
        exact ⟨rfl, t, rfl, Or.inl ⟨v, rfl, ht⟩⟩
  | .waking =>
      obtain hnil | ⟨t, hone⟩ := h
      · cases hnil
      · cases hone
        exact ⟨rfl, t, rfl, Or.inr rfl⟩

namespace Awake

variable {mask : ℕ} {s : Wakeup ι α}

omit [DecidableEq ι] in
/-- A producer sees `head` as it is in the memory. -/
lemma observe_head (h : Awake mask s) (i : ι) :
    s.buffered.observe (some i) .head = s.buffered.memory.word .head := by
  refine Buffered.observe_of_forall fun e he => ?_
  rcases (h.producer i).eq_nil_or with hnil | ⟨t, hone⟩
  · rw [hnil] at he
    cases he
  · rw [hone, List.mem_singleton] at he
    subst he
    simp [publication]

/-- A producer moves and the memory changes at most outside `head` and the sequence numbers, or the
counter is raised. -/
lemma of_producer (h : Awake mask s) {i : ι} {p : Producer α} {b : Buffered (Option ι) Field α}
    {counter : ℕ} (hhead : b.memory.word .head = s.buffered.memory.word .head)
    (htail : b.memory.word .tail < wordMod)
    (hother : ∀ thread, thread ≠ some i → b.pending thread = s.buffered.pending thread)
    (hlt : ∀ e ∈ b.pending (some i), e.2 < wordMod)
    (hpending : p.Pending mask (b.pending (some i)))
    (hkick : (∀ k, b.memory.word (.seq k) = s.buffered.memory.word (.seq k)) ∧
        counter = s.counter ∧ ((s.producers i).Kicks (s.buffered.memory.word .head) →
          p.Kicks (s.buffered.memory.word .head)) ∨ 0 < counter) :
    Awake mask { s with
      buffered := b, producers := Function.update s.producers i p, counter := counter } where
  tail_lt := htail
  head_lt := hhead.trans_lt h.head_lt
  pending_lt thread e he := by
    by_cases hthread : thread = some i
    · subst hthread
      exact hlt e he
    · exact h.pending_lt thread e (hother thread hthread ▸ he)
  producer j := by
    by_cases hji : j = i
    · subst hji
      simpa using hpending
    · have hne : (some j : Option ι) ≠ some i := by simpa using hji
      simpa [hji, hother _ hne] using h.producer j
  copy head hc := by
    rw [← h.copy head hc]
    simp only [Buffered.observe, hother none (by simp), hhead]
  flushed hc := (hother none (by simp)).trans (h.flushed hc)
  kick hc hpub := by
    rcases hkick with ⟨hseq, rfl, hself⟩ | hpos
    · have hpub' : s.HeadPublished mask := by
        simpa [Wakeup.HeadPublished, hhead, hseq] using hpub
      rw [hhead]
      refine (h.kick hc hpub').imp_right fun hkicks => ?_
      obtain ⟨j, hj⟩ := hkicks
      by_cases hji : j = i
      · subst hji
        exact ⟨j, by simpa using hself hj⟩
      · exact ⟨j, by simpa [hji] using hj⟩
    · exact Or.inl hpos

/-- The same when the memory does not change at all and nothing gets pending. -/
lemma of_local (h : Awake mask s) {i : ι} {p : Producer α}
    (hpending : p.Pending mask (s.buffered.pending (some i)))
    (hkick : (s.producers i).Kicks (s.buffered.memory.word .head) →
      p.Kicks (s.buffered.memory.word .head)) :
    Awake mask { s with producers := Function.update s.producers i p } :=
  h.of_producer rfl h.tail_lt (fun _ _ => rfl) (h.pending_lt _) hpending
    (Or.inl ⟨fun _ => rfl, rfl, hkick⟩)

/-! ## Every fenced step keeps the invariant -/

variable {s' : Wakeup ι α}

/-- A step of a producer. -/
lemma stepProducer (h : Awake mask s) {i : ι} {spurious : Bool}
    (hfence : s.Fenced mask (.producer i spurious))
    (hstep : s.stepProducer mask i spurious = some s') : Awake mask s' := by
  have hp := h.producer i
  simp only [Wakeup.Fenced] at hfence
  unfold Wakeup.stepProducer at hstep
  split at hstep
  · cases hstep
  · rename_i c hi
    simp only [hi] at hfence hp
    cases hstep
    obtain ⟨v, pc⟩ := c
    cases pc with
    | loadTail =>
        refine h.of_local ⟨?_, hp⟩ (by simp [hi, Producer.Kicks])
        exact (Buffered.observe_of_nil hp _).trans_lt h.tail_lt
    | loadSeq t =>
        refine h.of_local ?_ (by simp [hi, Producer.Kicks])
        dsimp only [PushCall.request, Buffered.serve, PushCall.resume]
        by_cases hzero :
            signed (wrappingSub (s.buffered.observe (some i) (.seq (t &&& mask))) t) = 0
        · rw [if_pos hzero]
          exact hp
        · rw [if_neg hzero]
          split_ifs
          · exact hp.2
          · exact hp.2
    | exchange t =>
        have hflush := Buffered.flush_of_nil hp.2
        dsimp only [PushCall.request, Buffered.serve]
        rw [hflush]
        by_cases hok : s.buffered.memory.word .tail = t ∧ spurious = false
        · simp only [Memory.serve, if_pos hok, PushCall.resume]
          exact h.of_producer rfl (by simpa using wrappingAdd_lt t 1) (fun _ _ => rfl)
            (h.pending_lt _) hp (Or.inl ⟨fun _ => rfl, rfl, by simp [hi, Producer.Kicks]⟩)
        · simp only [Memory.serve, if_neg hok, PushCall.resume]
          exact h.of_local ⟨h.tail_lt, hp.2⟩ (by simp [hi, Producer.Kicks])
    | write t =>
        exact h.of_producer rfl h.tail_lt (fun _ _ => rfl) (h.pending_lt _) hp
          (Or.inl ⟨fun _ => rfl, rfl, by simp [hi, Producer.Kicks]⟩)
    | publish t =>
        have hpending : s.buffered.pending (some i) ++ [publication mask t] =
            [publication mask t] := by
          rw [hp.2, List.nil_append]
        refine h.of_producer rfl h.tail_lt (fun thread hne => ?_) (fun e he => ?_)
          ⟨hp.1, Or.inr ?_⟩ (Or.inl ⟨fun _ => rfl, rfl, by simp [hi, Producer.Kicks]⟩)
        · exact Function.update_of_ne hne _ _
        · have he : e ∈ [publication mask t] := by
            rw [← hpending]
            simpa [Buffered.serve, PushCall.request, publication] using he
          rw [List.mem_singleton.mp he]
          exact wrappingAdd_lt t 1
        · exact (Function.update_self _ _ _).trans hpending
    | loadHead t =>
        dsimp only [PushCall.request, Buffered.serve, PushCall.resume]
        rw [h.observe_head] at hfence ⊢
        by_cases hhead : s.buffered.memory.word .head = t
        · -- the ring was empty: kick
          simp only [hhead, beq_self_eq_true]
          exact h.of_local (hp.2.imp_right fun ht => ⟨t, ht⟩) (fun _ => trivial)
        · have hfalse : (s.buffered.memory.word .head == t) = false := by simpa using hhead
          simp only [hfalse]
          refine h.of_local (hfence.resolve_right hhead) ?_
          simpa [hi, Producer.Kicks] using fun ht => hhead ht.symm
  · rename_i hi
    cases hstep
    rw [hi] at hp
    rcases hp with hnil | ⟨t, hone⟩
    · rw [Buffered.flush_of_nil hnil]
      exact h.of_producer rfl h.tail_lt (fun _ _ => rfl) (h.pending_lt _) hnil
        (Or.inr (Nat.succ_pos _))
    · refine h.of_producer ?_ ?_ (fun thread hne => Function.update_of_ne hne _ _) ?_
        (Function.update_self _ _ _) (Or.inr (Nat.succ_pos _))
      · simp [Buffered.flush, hone, publication, Memory.word_store_of_ne]
      · simpa [Buffered.flush, hone, publication, Memory.word_store_of_ne] using h.tail_lt
      · simp [Buffered.flush]

omit [DecidableEq ι] in
/-- The consumer moves within `pop`. -/
lemma of_popping (h : Awake mask s) {c : PopCall α} {b : Buffered (Option ι) Field α}
    (hword : b.memory.word = s.buffered.memory.word)
    (hother : ∀ i, b.pending (some i) = s.buffered.pending (some i))
    (hlt : ∀ e ∈ b.pending none, e.2 < wordMod)
    (hcopy : ∀ h, c = .loadSeq h → b.observe none .head = h) :
    Awake mask { s with buffered := b, consumer := .popping c } where
  tail_lt := by simpa [hword] using h.tail_lt
  head_lt := by simpa [hword] using h.head_lt
  pending_lt
    | none => hlt
    | some i => fun e he => h.pending_lt (some i) e (hother i ▸ he)
  producer i := by simpa [hother i] using h.producer i
  copy head hc := hcopy head (by simpa using hc)
  flushed hc := by cases hc
  kick hc := by cases hc

omit [DecidableEq ι] in
/-- What a store of the consumer makes pending are words. -/
lemma pending_lt_append (h : Awake mask s) (l : Field) (k n : ℕ) :
    ∀ e ∈ s.buffered.pending none ++ [(l, wrappingAdd k n)], e.2 < wordMod := by
  intro e he
  rcases List.mem_append.mp he with he | he
  · exact h.pending_lt none e he
  · rw [List.mem_singleton.mp he]
    exact wrappingAdd_lt k n

/-- A step of the consumer. -/
lemma stepConsumer (h : Awake mask s) (hfence : s.Fenced mask .consumer)
    (hstep : s.stepConsumer mask = some s') : Awake mask s' := by
  simp only [Wakeup.Fenced] at hfence
  unfold Wakeup.stepConsumer at hstep
  split at hstep
  · rename_i hc
    split_ifs at hstep
    cases hstep
    rw [Buffered.flush_of_nil (h.flushed hc)]
    have hpopping := h.of_popping (c := .loadHead) rfl (fun _ => rfl) (h.pending_lt none)
      fun _ hc => by cases hc
    exact { hpopping with
      copy := hpopping.copy
      kick := fun hc => by cases hc }
  · rename_i c hc
    simp only [hc] at hfence
    cases hstep
    cases c with
    | loadHead =>
        exact h.of_popping rfl (fun _ => rfl) (h.pending_lt none) fun head heq => by cases heq; rfl
    | loadSeq head =>
        dsimp only [PopCall.request, Buffered.serve, PopCall.resume]
        by_cases hzero : signed (wrappingSub
            (s.buffered.observe none (.seq (head &&& mask))) (wrappingAdd head 1)) = 0
        · rw [if_pos hzero]
          exact h.of_popping rfl (fun _ => rfl) (h.pending_lt none) fun head heq => by cases heq
        · rw [if_neg hzero]
          have hne : s.buffered.observe none (.seq (head &&& mask)) ≠ wrappingAdd head 1 := by
            intro heq
            rw [heq] at hzero
            exact hzero
              ((signed_wrappingSub_eq_zero (wrappingAdd_lt _ _) (wrappingAdd_lt _ _)).mpr rfl)
          have hnil := hfence.resolve_right hne
          exact { h with
            copy := fun _ heq => by cases heq
            flushed := fun _ => hnil
            kick := fun _ hpub => by
              -- nothing is pending, so the consumer has seen the memory: nothing is published
              have hhead := h.copy head hc
              rw [Buffered.observe_of_nil hnil] at hne hhead
              simp only [Wakeup.HeadPublished, hhead] at hpub
              exact absurd hpub hne }
    | read head =>
        exact h.of_popping rfl (fun _ => rfl) (h.pending_lt none) fun head heq => by cases heq
    | release head v =>
        refine h.of_popping rfl (fun i => by simp [Buffered.serve, PopCall.request]) ?_
          fun head heq => by cases heq
        simpa [Buffered.serve, PopCall.request] using
          h.pending_lt_append (.seq (head &&& mask)) head (mask + 1)
    | advance head v =>
        refine h.of_popping rfl (fun i => by simp [Buffered.serve, PopCall.request]) ?_
          fun head heq => by cases heq
        simpa [Buffered.serve, PopCall.request] using h.pending_lt_append .head head 1

/-- A store of the consumer reaches the memory. -/
lemma flush_consumer (h : Awake mask s) {b : Buffered (Option ι) Field α}
    (hb : s.buffered.flushOne none = some b) : Awake mask { s with buffered := b } := by
  have hobserve := Buffered.observe_flushOne hb
  obtain ⟨e, rest, hpending, rfl⟩ := Buffered.flushOne_eq_some hb
  have hlt : ∀ l, s.buffered.memory.word l < wordMod →
      (s.buffered.memory.store e.1 e.2).word l < wordMod := by
    intro l hl
    by_cases hle : l = e.1
    · rw [hle, Memory.word_store_self]
      exact h.pending_lt none e (by simp [hpending])
    · rwa [Memory.word_store_of_ne _ hle]
  have hreading : s.consumer ≠ .reading := fun hc => by
    rw [h.flushed hc] at hpending
    cases hpending
  exact
    { tail_lt := hlt _ h.tail_lt
      head_lt := hlt _ h.head_lt
      pending_lt := fun thread e' he' => by
        cases thread with
        | none => exact h.pending_lt none e' (by simpa [hpending] using Or.inr (by simpa using he'))
        | some i => exact h.pending_lt (some i) e' (by simpa using he')
      producer := fun i => by simpa using h.producer i
      copy := fun head hc => (hobserve _).trans (h.copy head hc)
      flushed := fun hc => absurd hc hreading
      kick := fun hc => absurd hc hreading }

/-- The publication of a producer reaches the memory: if it is the one the consumer waits for, then
the producer is the one that kicks. -/
lemma flush_producer (h : Awake mask s) {i : ι} {b : Buffered (Option ι) Field α}
    (hb : s.buffered.flushOne (some i) = some b) : Awake mask { s with buffered := b } := by
  obtain ⟨e, rest, hpending, rfl⟩ := Buffered.flushOne_eq_some hb
  have hp := h.producer i
  rw [hpending] at hp
  obtain ⟨rfl, t, rfl, hstate⟩ := hp.of_cons
  have hhead : (s.buffered.memory.store (publication mask t).1 (publication mask t).2).word .head =
      s.buffered.memory.word .head := Memory.word_store_of_ne _ (by simp [publication]) _
  have htail : (s.buffered.memory.store (publication mask t).1 (publication mask t).2).word .tail =
      s.buffered.memory.word .tail := Memory.word_store_of_ne _ (by simp [publication]) _
  exact
    { tail_lt := htail.trans_lt h.tail_lt
      head_lt := hhead.trans_lt h.head_lt
      pending_lt := fun thread e' he' => by
        by_cases hthread : thread = some i
        · subst hthread
          simp at he'
        · exact h.pending_lt thread e' (by simpa [hthread] using he')
      producer := fun j => by
        by_cases hji : j = i
        · subst hji
          simp only [Function.update_self]
          rcases hstate with ⟨v, hj, ht⟩ | hj
          · rw [hj]
            exact ⟨ht, Or.inl rfl⟩
          · rw [hj]
            exact Or.inl rfl
        · simpa [hji] using h.producer j
      copy := fun head hc => by
        rw [← h.copy head hc]
        simp [Buffered.observe, hhead]
      flushed := fun hc => by simpa using h.flushed hc
      kick := fun hc hpub => by
        simp only [Wakeup.HeadPublished] at hpub
        rw [hhead] at hpub ⊢
        by_cases hslot : s.buffered.memory.word .head &&& mask = t &&& mask
        · rcases hstate with ⟨v, hi, ht⟩ | hi
          · -- the published index is the one at the head
            rw [hslot] at hpub
            have heq : wrappingAdd t 1 = wrappingAdd (s.buffered.memory.word .head) 1 :=
              (Memory.word_store_self _ _ _).symm.trans hpub
            exact Or.inr ⟨i, by rw [hi]; exact wrappingAdd_one_inj ht h.head_lt heq⟩
          · exact Or.inr ⟨i, by rw [hi]; trivial⟩
        · rw [Memory.word_store_of_ne _ (by simpa [publication] using hslot)] at hpub
          exact h.kick hc hpub }

/-- **Step lemma.** Every fenced step keeps the invariant. -/
lemma step (h : Awake mask s) {a : WakeAct ι α} (hfence : s.Fenced mask a)
    (hstep : wakeStep mask s a = some s') : Awake mask s' := by
  cases a with
  | push i v =>
      simp only [wakeStep] at hstep
      split at hstep
      · rename_i hi
        cases hstep
        have hp := h.producer i
        rw [hi] at hp
        exact h.of_local hp (by simp [hi, Producer.Kicks])
      · cases hstep
  | producer i spurious => exact h.stepProducer hfence hstep
  | consumer => exact h.stepConsumer hfence hstep
  | flush thread =>
      obtain ⟨b, hb, rfl⟩ := Option.map_eq_some_iff.mp hstep
      cases thread with
      | none => exact h.flush_consumer hb
      | some i => exact h.flush_producer hb

end Awake

/-! ## No wake-up is lost -/

/-- **No lost wake-up, given fences.** In every run whose steps are all fenced, no published element
is at the head of the inbox when all producers are idle, all buffers are flushed and the consumer
is blocked on the eventfd. -/
theorem no_lost_wakeup_of_fenced {requested : ℕ} {as : List (WakeAct ι α)} {s : Wakeup ι α}
    (hfenced : Meets (wakeStep (capacityFor requested - 1))
      (Wakeup.Fenced (capacityFor requested - 1)) Wakeup.start as)
    (hrun : run (wakeStep (capacityFor requested - 1)) Wakeup.start as = some s)
    (hasleep : s.Asleep) : ¬ s.HeadPublished (capacityFor requested - 1) := by
  have h : Awake (capacityFor requested - 1) s :=
    run_invariant_of (fun _ _ _ h hfence hstep => h.step hfence hstep) (awake_start _) hfenced hrun
  intro hpub
  rcases h.kick hasleep.reading hpub with hpos | ⟨i, hi⟩
  · have := hasleep.counter
    omega
  · rw [hasleep.idle i] at hi
    exact hi

/-- The actions of a `push` that claims its index at once, up to the load of `head`. -/
def pushTo (v : ℕ) : List (WakeAct Unit ℕ) := .push () v :: List.replicate 5 (.producer () false)

/-- An element is pushed, the consumer is kicked and pops it, and goes back to sleep; every store
reaches the memory before the next access of its thread. -/
theorem no_lost_wakeup_of_fenced_one_element :
    ∃ s : Wakeup Unit ℕ,
      run (wakeStep (capacityFor 2 - 1)) Wakeup.start
        (pushTo 10 ++ [.flush (some ()), .producer () false, .producer () false] ++
          List.replicate 6 .consumer ++ [.flush none, .flush none, .consumer, .consumer]) =
          some s ∧
      s.Asleep ∧ ¬ s.HeadPublished (capacityFor 2 - 1) := by
  have hcap : capacityFor 2 = 2 := capacityFor_eq 0 (by decide) (by decide)
  have hany : (run (wakeStep (capacityFor 2 - 1)) Wakeup.start
      (pushTo 10 ++ [WakeAct.flush (some ()), .producer () false, .producer () false] ++
        List.replicate 6 WakeAct.consumer ++
        [WakeAct.flush none, .flush none, .consumer, .consumer])).any
      (fun s => decide s.Asleep) = true := by
    rw [hcap]
    decide +kernel
  obtain ⟨s, hrun, hasleep⟩ := (Option.any_eq_true _ _).mp hany
  replace hasleep := of_decide_eq_true hasleep
  refine ⟨s, hrun, hasleep, no_lost_wakeup_of_fenced ?_ hrun hasleep⟩
  rw [hcap]
  decide +kernel

/-- **A wake-up is lost.** The first element is pushed, kicked for and popped, but the store to
`head` stays in the consumer's buffer. The second `push` publishes, still sees the old `head`, and
does not kick. The publication stays in its buffer, so the consumer's next `pop` finds nothing and
the consumer goes to sleep. -/
theorem wakeup_lost :
    ∃ (as : List (WakeAct Unit ℕ)) (s : Wakeup Unit ℕ),
      run (wakeStep (capacityFor 2 - 1)) Wakeup.start as = some s ∧ s.Asleep ∧
      s.HeadPublished (capacityFor 2 - 1) := by
  have hcap : capacityFor 2 = 2 := capacityFor_eq 0 (by decide) (by decide)
  rw [hcap]
  have hany : (run (wakeStep (2 - 1)) Wakeup.start
      (pushTo 10 ++ [WakeAct.flush (some ()), .producer () false, .producer () false] ++
        List.replicate 6 WakeAct.consumer ++ pushTo 11 ++ [WakeAct.producer () false] ++
        [WakeAct.consumer, .consumer, .flush none, .flush none, .flush (some ())])).any
      (fun s => decide (s.Asleep ∧ s.HeadPublished (2 - 1))) = true := by
    decide +kernel
  obtain ⟨s, hrun, hlost⟩ := (Option.any_eq_true _ _).mp hany
  exact ⟨_, s, hrun, of_decide_eq_true hlost⟩

end Aulon.Core.ShardInbox
