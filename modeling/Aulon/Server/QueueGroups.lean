import Aulon.Server.Book
import Aulon.Server.CrossShard
import Aulon.Server.Outbound

/-!
# Queue groups across shards

Each shard that dispatches a publication picks a member of every queue group on its own. So a group
gets one message from every shard on which it has a matching member.

* `FanOut` — the state of a broker that was quiet while a publication travels to the shards.
* `dispatched_of_fanOut` — once all pushes have succeeded and all is drained, every shard has
  dispatched the publication once.
* `groups_once_iff` — every group gets exactly one message if and only if no group has matching
  members on two shards.
-/

namespace Aulon.Server

open Aulon.Lib Aulon.Core Aulon.Proto

variable {n : ℕ}

/-! ## The way of a publication -/

/-- An action of the push loop or of a drain task. -/
def Action.Internal : Action n → Prop
  | .task _ _ => False
  | _ => True

/-- No thread is busy, and the inboxes are empty. -/
def Broker.Quiet (b : Broker n) : Prop :=
  ∀ j, (b.shards j).activity = .idle ∧ (b.inboxes j).items = []

/-- Whether the broker is quiet can be decided. -/
instance (b : Broker n) : Decidable b.Quiet :=
  inferInstanceAs (Decidable (∀ j, (b.shards j).activity = .idle ∧ (b.inboxes j).items = []))

/-- The broker was in state `b₀`, shard `i` has handled a `PUB`, and `p` is what is known of it:
every other shard has not got it, has it in its inbox, or has dispatched it, and no worker has
done anything else, unless back-pressure was reported. -/
structure FanOut (b₀ : Broker n) (i : Fin n) (p : Publication n) (b : Broker n) : Prop where
  pubs : (b.shards i).pubs = (b₀.shards i).publications ++ [p]
  own : p.backPressureSeen = false →
    (b₀.shards i).worker.dispatchLocal p.frame = .ok (b.shards i).worker
  inbox : (b.inboxes i).items = []
  calm : ∀ j ≠ i, ∀ q todo, (b.shards j).activity ≠ .publishing q todo
  waiting : ∀ j ≠ i, p.pushedTo j = false → (b.inboxes j).items = [] ∧
    (b.shards j).worker = (b₀.shards j).worker
  pushed : ∀ j ≠ i, p.pushedTo j = true →
    ((b.inboxes j).items = [p.parcel i] ∧ (b.shards j).worker = (b₀.shards j).worker) ∨
    ((b.inboxes j).items = [] ∧
      (b₀.shards j).worker.dispatchLocal p.frame = .ok (b.shards j).worker)

/-- A step of the publishing shard that changes no inbox. -/
lemma FanOut.of_own {b₀ b b' : Broker n} {i : Fin n} {p p' : Publication n}
    (h : FanOut b₀ i p b) {s : Shard n} (hshards : b'.shards = (b.setShard i s).shards)
    (hinboxes : b'.inboxes = b.inboxes) (hparcel : p'.parcel i = p.parcel i)
    (hpushed : ∀ j, p'.pushedTo j = p.pushedTo j)
    (hpubs : s.pubs = (b₀.shards i).publications ++ [p'])
    (hown : p'.backPressureSeen = false →
      p.backPressureSeen = false ∧ s.worker = (b.shards i).worker) : FanOut b₀ i p' b' := by
  have hframe : p'.frame = p.frame := congrArg Parcel.frame hparcel
  have hother : ∀ j ≠ i, b'.shards j = b.shards j := fun j hj => by
    rw [hshards, shards_setShard_ne _ _ _ hj]
  refine ⟨?_, ?_, by rw [hinboxes]; exact h.inbox, fun j hj => ?_, fun j hj => ?_, fun j hj => ?_⟩
  · rw [hshards, shards_setShard_self, hpubs]
  · intro hseen
    rw [hshards, shards_setShard_self, hframe, (hown hseen).2]
    exact h.own (hown hseen).1
  · rw [hother j hj]
    exact h.calm j hj
  · rw [hpushed, hinboxes, hother j hj]
    exact h.waiting j hj
  · rw [hpushed, hinboxes, hother j hj, hparcel, hframe]
    exact h.pushed j hj

/-- A step of another shard that changes no inbox and not its worker. -/
lemma FanOut.of_other {b₀ b b' : Broker n} {i k : Fin n} {p : Publication n}
    (h : FanOut b₀ i p b) (hk : k ≠ i) {s : Shard n}
    (hshards : b'.shards = (b.setShard k s).shards) (hinboxes : b'.inboxes = b.inboxes)
    (hworker : s.worker = (b.shards k).worker)
    (hcalm : ∀ q todo, s.activity ≠ .publishing q todo) : FanOut b₀ i p b' := by
  have hsame : b'.shards i = b.shards i := by rw [hshards, shards_setShard_ne _ _ _ hk.symm]
  have hworkers : ∀ j, (b'.shards j).worker = (b.shards j).worker := fun j => by
    rw [hshards]
    rcases eq_or_ne j k with rfl | hj
    · rw [shards_setShard_self, hworker]
    · rw [shards_setShard_ne _ _ _ hj]
  refine ⟨?_, ?_, by rw [hinboxes]; exact h.inbox, fun j hj => ?_, fun j hj => ?_, fun j hj => ?_⟩
  · rw [hsame]; exact h.pubs
  · rw [hsame]; exact h.own
  · rw [hshards]
    rcases eq_or_ne j k with rfl | hjk
    · rw [shards_setShard_self]; exact hcalm
    · rw [shards_setShard_ne _ _ _ hjk]; exact h.calm j hj
  · rw [hinboxes, hworkers]; exact h.waiting j hj
  · rw [hinboxes, hworkers]; exact h.pushed j hj

/-- A step after which shard `k` has the publication in its inbox or has dispatched it. -/
lemma FanOut.of_peer {b₀ b b' : Broker n} {i k : Fin n} {p p' : Publication n}
    (h : FanOut b₀ i p b) (hk : k ≠ i) (hparcel : p'.parcel i = p.parcel i)
    (hpushed : ∀ j ≠ k, p'.pushedTo j = p.pushedTo j) (hpushedk : p'.pushedTo k = true)
    (hpubs : (b'.shards i).pubs = (b₀.shards i).publications ++ [p'])
    (hseen : p'.backPressureSeen = p.backPressureSeen)
    (hown : (b'.shards i).worker = (b.shards i).worker)
    (hother : ∀ j ≠ i, j ≠ k → b'.shards j = b.shards j)
    (hinboxes : ∀ j ≠ k, b'.inboxes j = b.inboxes j)
    (hactivity : (b'.shards k).activity = (b.shards k).activity)
    (hpeer : ((b'.inboxes k).items = [p'.parcel i] ∧
        (b'.shards k).worker = (b₀.shards k).worker) ∨
      ((b'.inboxes k).items = [] ∧
        (b₀.shards k).worker.dispatchLocal p'.frame = .ok (b'.shards k).worker)) :
    FanOut b₀ i p' b' := by
  have hframe : p'.frame = p.frame := congrArg Parcel.frame hparcel
  refine ⟨hpubs, ?_, ?_, fun j hj => ?_, fun j hj hfalse => ?_, fun j hj htrue => ?_⟩
  · rw [hown, hframe, hseen]
    exact h.own
  · rw [hinboxes i hk.symm]
    exact h.inbox
  · rcases eq_or_ne j k with rfl | hjk
    · rw [hactivity]
      exact h.calm j hj
    · rw [hother j hj hjk]
      exact h.calm j hj
  · rcases eq_or_ne j k with rfl | hjk
    · rw [hpushedk] at hfalse
      cases hfalse
    · rw [hpushed j hjk] at hfalse
      rw [hother j hj hjk, hinboxes j hjk]
      exact h.waiting j hj hfalse
  · rcases eq_or_ne j k with rfl | hjk
    · exact hpeer
    · rw [hpushed j hjk] at htrue
      rw [hother j hj hjk, hinboxes j hjk, hparcel, hframe]
      exact h.pushed j hj htrue

/-- A push takes the publication one shard further. -/
lemma FanOut.pushNext {b₀ b : Broker n} {i : Fin n} {p : Publication n} (h : FanOut b₀ i p b)
    (hrouted : Routed b) {todo : List (Fin n)}
    (hact : (b.shards i).activity = .publishing p todo) :
    ∃ p', p'.parcel i = p.parcel i ∧ FanOut b₀ i p' (b.pushNext i p todo) := by
  have hpublications : (b.shards i).publications = (b₀.shards i).publications := by
    have hpubs := h.pubs
    rw [Shard.pubs, Shard.current_of_publishing hact] at hpubs
    exact List.append_cancel_right hpubs
  have hpubs : ∀ (p' : Publication n) (todo' : List (Fin n)),
      ({ b.shards i with activity := .publishing p' todo' } : Shard n).pubs =
        (b₀.shards i).publications ++ [p'] := fun p' todo' => by
    rw [← hpublications]; rfl
  cases todo with
  | nil =>
      refine ⟨p, rfl, h.of_own rfl rfl rfl (fun _ => rfl) ?_ fun hseen => ⟨hseen, ?_⟩⟩
      · rw [← hpublications, Shard.pubs, Shard.current_of_idle rfl, List.append_nil]
        rfl
      · simp [Shard.finish, hseen]
  | cons j todo =>
      rw [Broker.pushNext]
      by_cases hji : j = i
      · rw [if_pos hji]
        exact ⟨p, rfl, h.of_own rfl rfl rfl (fun _ => rfl) (hpubs p todo) fun hseen => ⟨hseen, rfl⟩⟩
      · rw [if_neg hji]
        cases hpush : (b.inboxes j).push ⟨(i, p.conn), p.frame⟩ with
        | none =>
            exact ⟨{ p with pushes := p.pushes ++ [(j, false)] }, rfl, h.of_own rfl rfl rfl
              (fun k => by simp [Publication.pushedTo_push]) (hpubs _ todo)
              fun hseen => by simp [Publication.backPressureSeen] at hseen⟩
        | some result =>
            obtain ⟨wasEmpty, inbox⟩ := result
            set p' : Publication n := { p with pushes := p.pushes ++ [(j, true)] } with hp'
            set s' : Shard n := { b.shards i with activity := .publishing p' todo }
            obtain ⟨hempty, hworker⟩ := h.waiting j hji ((hrouted.sound i).not_pushedTo hji hact)
            have hsame : (b.setShard i s').shards j = b.shards j := shards_setShard_ne _ _ _ hji
            refine ⟨p', rfl, h.of_peer hji rfl (fun k hk => ?_) ?_ ?_ ?_ ?_ (fun k hk _ => ?_)
              (fun k hk => Function.update_of_ne hk _ _) ?_ (Or.inl ⟨?_, ?_⟩)⟩
            · simp [hp', Publication.pushedTo_push, hk]
            · simp [hp', Publication.pushedTo_push]
            · exact (congrArg Shard.pubs (shards_setShard_self b i s')).trans (hpubs p' todo)
            · simp [hp', Publication.backPressureSeen]
            · have hself := congrArg Shard.worker (shards_setShard_self b i s')
              exact hself
            · exact shards_setShard_ne _ _ _ hk
            · exact congrArg Shard.activity hsame
            · change (Function.update b.inboxes j inbox j).items = _
              rw [Function.update_self, BoundedQueue.items_of_push hpush, hempty]
              rfl
            · exact (congrArg Shard.worker hsame).trans hworker

/-- A pop dispatches it, or nothing. -/
lemma FanOut.popNext {b₀ b : Broker n} {i k : Fin n} {p : Publication n} (h : FanOut b₀ i p b)
    (hrouted : Routed b) (hact : (b.shards k).activity = .draining) :
    FanOut b₀ i p (b.popNext k) := by
  unfold Broker.popNext
  cases hpop : (b.inboxes k).pop with
  | none =>
      rcases eq_or_ne k i with rfl | hk
      · refine h.of_own rfl rfl rfl (fun _ => rfl) ?_ fun hseen => ⟨hseen, rfl⟩
        rw [← h.pubs, Shard.pubs, Shard.pubs, Shard.current_of_idle rfl, Shard.current, hact]
      · exact h.of_other hk rfl rfl rfl fun _ _ => by simp
  | some result =>
      obtain ⟨x, inbox⟩ := result
      have hitems := BoundedQueue.items_of_pop hpop
      have hk : k ≠ i := by
        rintro rfl
        rw [h.inbox] at hitems
        cases hitems
      -- the inbox holds the publication and nothing else, and the worker is as it was
      obtain ⟨hpushed, hone, hworker⟩ : p.pushedTo k = true ∧
          (b.inboxes k).items = [p.parcel i] ∧ (b.shards k).worker = (b₀.shards k).worker := by
        cases hpushed : p.pushedTo k with
        | false =>
            rw [(h.waiting k hk hpushed).1] at hitems
            cases hitems
        | true =>
            rcases h.pushed k hk hpushed with ⟨hone, hworker⟩ | ⟨hnil, -⟩
            · exact ⟨rfl, hone, hworker⟩
            · rw [hnil] at hitems
              cases hitems
      obtain ⟨rfl, hempty⟩ : p.parcel i = x ∧ [] = inbox.items := by
        rw [hone] at hitems
        exact List.cons.inj hitems
      obtain ⟨tokens, hparse⟩ :=
        hrouted.valid_of_mem_inbox (j := k) (x := p.parcel i) (by simp [hone])
      obtain ⟨w, hs, hdispatch, -⟩ := (b.shards k).dispatchDrained_spec hparse
      dsimp only
      rw [hs]
      set s' : Shard n := { b.shards k with
        worker := w
        dispatches := (b.shards k).dispatches ++ [⟨p.parcel i, true, none⟩] }
      have hself : (b.setShard k s').shards k = s' := shards_setShard_self b k s'
      have hsame : (b.setShard k s').shards i = b.shards i := shards_setShard_ne _ _ _ hk.symm
      refine h.of_peer hk rfl (fun _ _ => rfl) hpushed ?_ rfl ?_ (fun j _ hjk => ?_)
        (fun j hj => Function.update_of_ne hj _ _) ?_ (Or.inr ⟨?_, ?_⟩)
      · exact (congrArg Shard.pubs hsame).trans h.pubs
      · exact congrArg Shard.worker hsame
      · exact shards_setShard_ne _ _ _ hjk
      · have hactivity := congrArg Shard.activity hself
        exact hactivity
      · change (Function.update b.inboxes k inbox k).items = _
        rw [Function.update_self, ← hempty]
      · have hw : ((b.setShard k s').shards k).worker = w := congrArg Shard.worker hself
        rw [← hworker]
        exact hdispatch.trans (by rw [← hw])

/-- The actions of the push loop and of the drain tasks carry the publication on. -/
lemma FanOut.step {b₀ b b' : Broker n} {i : Fin n} {p : Publication n} (h : FanOut b₀ i p b)
    (hrouted : Routed b) {a : Action n} (ha : a.Internal) (hstep : step b a = some b') :
    ∃ p', p'.parcel i = p.parcel i ∧ FanOut b₀ i p' b' := by
  have hs := step_eq_some hstep
  cases a with
  | task k t => exact absurd ha id
  | push k =>
      obtain ⟨q, todo, hact, rfl⟩ := hs
      obtain rfl : k = i := by
        by_contra hk
        exact h.calm k hk q todo hact
      obtain rfl : q = p := by
        have hpubs := h.pubs
        rw [Shard.pubs, Shard.current_of_publishing hact] at hpubs
        exact (List.cons.inj (List.append_inj' hpubs rfl).2).1
      exact h.pushNext hrouted hact
  | drainRead k =>
      obtain ⟨hact, -, rfl⟩ := hs
      refine ⟨p, rfl, ?_⟩
      rcases eq_or_ne k i with rfl | hk
      · refine h.of_own rfl rfl rfl (fun _ => rfl) ?_ fun hseen => ⟨hseen, rfl⟩
        rw [← h.pubs, Shard.pubs, Shard.pubs, Shard.current_of_idle hact]
        rfl
      · exact h.of_other hk rfl rfl rfl fun _ _ => by simp
  | drainPop k =>
      obtain ⟨hact, rfl⟩ := hs
      exact ⟨p, rfl, h.popNext hrouted hact⟩

/-- Handling a `PUB` starts it. -/
lemma fanOut_pub {b b' : Broker n} (hquiet : b.Quiet) {i : Fin n} {r : ConnRef}
    {frame : PublishedFrame}
    (hpub : step b (.task i (.frame r (.pub frame.subject frame.replyTo frame.payload))) = some b')
    (hlen : frame.payload.length ≤ maxPayloadBytes) {tokens : List Bytes}
    (hparse : parsePublisherSubject frame.subject = .ok tokens) :
    ∃ p, p.parcel i = ⟨(i, r), frame⟩ ∧ FanOut b i p b' := by
  obtain ⟨w, hdispatch⟩ := Worker.dispatchLocal_ok hparse (b.shards i).worker
  have hworker := worker_step_pub hpub hlen hdispatch
  obtain ⟨hidle, s, hs, rfl⟩ := step_eq_some hpub
  obtain ⟨c, -, -, rfl⟩ := Shard.run_eq_some hs
  rw [Shard.handleFrame, if_neg (by omega)] at hworker ⊢
  obtain ⟨-, -, hcases⟩ := (b.shards i).handlePub_spec i r frame hidle
  refine ⟨⟨r, frame, subjectError frame.subject, []⟩, rfl, ?_, ?_, (hquiet i).2, fun j hj => ?_,
    fun j hj _ => ?_, fun j hj hpushed => ?_⟩
  · rw [shards_setShard_self, Shard.pubs]
    rcases hcases with ⟨hact, hsame, -⟩ | ⟨hact, hadd, -⟩
    · rw [Shard.current_of_publishing hact, hsame]
    · rw [Shard.current_of_idle hact, hadd, List.append_nil]
  · rw [hworker]
    exact fun _ => hdispatch
  · intro q todo
    rw [shards_setShard_ne _ _ _ hj, (hquiet j).1]
    simp
  · rw [shards_setShard_ne _ _ _ hj]
    exact ⟨(hquiet j).2, rfl⟩
  · simp [Publication.pushedTo] at hpushed

/-- A publication whose pushes have all succeeded was pushed to every other shard. -/
lemma Shard.Sound.pushedTo_of_finished {s : Shard n} {i : Fin n} (h : s.Sound i)
    {p : Publication n} (hp : p ∈ s.publications) (hrej : p.rejected = none)
    (hpushes : p.backPressureSeen = false) {j : Fin n} (hj : j ≠ i) : p.pushedTo j = true := by
  have hpeers := h.finished p hp
  rw [if_pos hrej] at hpeers
  have hmem : j ∈ p.pushes.map (·.1) := by
    rw [hpeers]
    exact List.mem_filter.mpr ⟨List.mem_finRange j, by simpa using hj⟩
  obtain ⟨push, hpush, rfl⟩ := List.mem_map.mp hmem
  have hok : push.2 = true := by simpa using List.any_eq_false.mp hpushes _ hpush
  exact decide_eq_true (hok ▸ hpush)

/-- **Every shard dispatches a publication once.** In a broker that is quiet a `PUB` is handled, and
nothing but that goes on until it is quiet again. If all pushes have succeeded, the worker of every
shard is the one before after one dispatch of the publication. -/
theorem dispatched_of_fanOut {capacity : ℕ} {as bs : List (Action n)} {b b₁ b₂ : Broker n}
    (hrun : run step (Broker.init n capacity) as = some b) (hquiet : b.Quiet) {i : Fin n}
    {r : ConnRef} (frame : PublishedFrame)
    (hpub : step b (.task i (.frame r (.pub frame.subject frame.replyTo frame.payload))) = some b₁)
    (hlen : frame.payload.length ≤ maxPayloadBytes) {tokens : List Bytes}
    (hparse : parsePublisherSubject frame.subject = .ok tokens) (hbs : ∀ a ∈ bs, a.Internal)
    (hrest : run step b₁ bs = some b₂) (hquiet' : b₂.Quiet) {p : Publication n}
    (hp : (b₂.shards i).publications = (b.shards i).publications ++ [p])
    (hpushes : p.backPressureSeen = false) (j : Fin n) :
    (b.shards j).worker.dispatchLocal frame = .ok (b₂.shards j).worker := by
  have hrouted : Routed b :=
    run_invariant (fun _ _ _ h hs => routed_step h hs) (routed_init n capacity) hrun
  obtain ⟨hrouted₂, p', hparcel, hfan⟩ := run_invariant_of
    (I := fun b' : Broker n => Routed b' ∧ ∃ p, p.parcel i = ⟨(i, r), frame⟩ ∧ FanOut b i p b')
    (fun b' a b'' ⟨hrouted, p, hparcel, hfan⟩ ha hstep => by
      obtain ⟨p', hparcel', hfan'⟩ := hfan.step hrouted ha hstep
      exact ⟨routed_step hrouted hstep, p', hparcel'.trans hparcel, hfan'⟩)
    ⟨routed_step hrouted hpub, fanOut_pub hquiet hpub hlen hparse⟩
    (meets_of_forall (fun a ha _ => hbs a ha) b₁) hrest
  have hframe : p'.frame = frame := congrArg Parcel.frame hparcel
  obtain rfl : p' = p := by
    have hpubs := hfan.pubs
    rw [Shard.pubs, Shard.current_of_idle (hquiet' i).1, List.append_nil, hp] at hpubs
    exact (List.cons.inj (List.append_cancel_left hpubs)).1.symm
  rcases eq_or_ne j i with rfl | hj
  · rw [← hframe]
    exact hfan.own hpushes
  · have hmem : p' ∈ (b₂.shards i).publications := by rw [hp]; simp
    have hrej : p'.rejected = none := by
      rw [(hrouted₂.sound i).rejected p' (List.mem_append_left _ hmem), hframe, subjectError,
        hparse]
    have hpushed := (hrouted₂.sound i).pushedTo_of_finished hmem hrej hpushes hj
    rcases hfan.pushed j hj hpushed with ⟨hone, -⟩ | ⟨-, hdispatched⟩
    · rw [(hquiet' j).2] at hone
      cases hone
    · rw [← hframe]
      exact hdispatched

/-! ## What the groups receive -/

/-- The offers a shard has made from state `b` to state `b'`. -/
def Broker.newOffers (b b' : Broker n) (j : Fin n) : List Offer :=
  (b'.shards j).worker.offers.drop (b.shards j).worker.offers.length

/-- How many messages a queue group has received from state `b` to state `b'`, on all shards. -/
def Broker.groupMessages (b b' : Broker n) (g : Bytes) : ℕ :=
  ∑ j, (b.newOffers b' j).countP fun o => o.group = some g ∧ o.outcome = .ok

/-- The queue group has a member on shard `j` whose subscription matches. -/
def Broker.HasMember (b : Broker n) (tokens : List Bytes) (g : Bytes) (j : Fin n) : Prop :=
  ∃ s ∈ (b.shards j).worker.table.matching tokens, s.queueGroup = some g

/-- Whether a group has a member on a shard can be decided. -/
instance (b : Broker n) (tokens : List Bytes) (g : Bytes) (j : Fin n) :
    Decidable (b.HasMember tokens g j) :=
  inferInstanceAs (Decidable (∃ s ∈ _, _))

/-- A shard that has dispatched a publication once has given one message to each group with a
matching member on it. -/
lemma countP_newOffers {b b' : Broker n} {j : Fin n} {frame : PublishedFrame} {tokens : List Bytes}
    (hparse : parsePublisherSubject frame.subject = .ok tokens)
    (hword : (b.shards j).worker.emitScratch.length < wordMod)
    (hready : (b.shards j).worker.GroupsReady frame tokens)
    (hdispatch : (b.shards j).worker.dispatchLocal frame = .ok (b'.shards j).worker)
    (haccepted : ∀ o ∈ b.newOffers b' j, o.group ≠ none → o.outcome = .ok) (g : Bytes) :
    (b.newOffers b' j).countP (fun o => o.group = some g ∧ o.outcome = .ok) =
      if b.HasMember tokens g j then 1 else 0 := by
  obtain ⟨new, hnew, hcount⟩ := Worker.groups_dispatchLocal hparse hword hready hdispatch
  have hoffers : b.newOffers b' j = new := by rw [Broker.newOffers, hnew, List.drop_left]
  have hall : (b.newOffers b' j).countP (fun o => o.group = some g ∧ o.outcome = .ok) =
      (b.newOffers b' j).countP (·.group = some g) :=
    List.countP_congr fun o ho => by
      have hok := haccepted o ho
      grind
  rw [hall, hoffers, hcount g]
  rfl

/-- **One message for a group, or one for each of its shards.** In a broker that is quiet a valid
`PUB` is handled, and nothing but that goes on until it is quiet again; all pushes have succeeded,
the messages for the members of groups fit the scratch buffers, the connections of these members are
registered, and those that were picked have taken their message. Then each group with a matching
member has received exactly one message if and only if no group has matching members on two shards.
Nothing is asked of the subscriptions without a group. -/
theorem groups_once_iff {capacity : ℕ} {as bs : List (Action n)} {b b₁ b₂ : Broker n}
    (hrun : run step (Broker.init n capacity) as = some b) (hquiet : b.Quiet) {i : Fin n}
    {r : ConnRef} (frame : PublishedFrame)
    (hpub : step b (.task i (.frame r (.pub frame.subject frame.replyTo frame.payload))) = some b₁)
    (hlen : frame.payload.length ≤ maxPayloadBytes) {tokens : List Bytes}
    (hparse : parsePublisherSubject frame.subject = .ok tokens) (hbs : ∀ a ∈ bs, a.Internal)
    (hrest : run step b₁ bs = some b₂) (hquiet' : b₂.Quiet) {p : Publication n}
    (hp : (b₂.shards i).publications = (b.shards i).publications ++ [p])
    (hpushes : p.backPressureSeen = false)
    (hready : ∀ j, (b.shards j).worker.GroupsReady frame tokens)
    (haccepted : ∀ j, ∀ o ∈ b.newOffers b₂ j, o.group ≠ none → o.outcome = .ok) :
    (∀ g, (∃ j, b.HasMember tokens g j) → b.groupMessages b₂ g = 1) ↔
      ∀ g j k, b.HasMember tokens g j → b.HasMember tokens g k → j = k := by
  have hmessages : ∀ g, b.groupMessages b₂ g =
      (Finset.univ.filter fun j => b.HasMember tokens g j).card := by
    intro g
    rw [Broker.groupMessages, Finset.card_filter]
    refine Finset.sum_congr rfl fun j _ => countP_newOffers hparse ?_ (hready j) ?_ (haccepted j) g
    · rw [length_emitScratch hrun]
      decide
    · exact dispatched_of_fanOut hrun hquiet frame hpub hlen hparse hbs hrest hquiet' hp hpushes j
  constructor
  · intro h g j k hj hk
    have hcard := h g ⟨j, hj⟩
    rw [hmessages] at hcard
    exact Finset.card_le_one.mp hcard.le j (by simpa using hj) k (by simpa using hk)
  · rintro h g ⟨j, hj⟩
    rw [hmessages]
    refine le_antisymm (Finset.card_le_one.mpr fun k hk l hl => ?_)
      (Finset.card_pos.mpr ⟨j, by simpa using hj⟩)
    exact h g k l (by simpa using hk) (by simpa using hl)

/-- A group with its member on one of two shards, and a publication on the other. -/
theorem groups_once_iff_one_member :
    let acts : List (Action 2) :=
      [.task 0 (.accept true), .task 0 (.greet 0), .task 1 (.accept true), .task 1 (.greet 0),
        .task 1 (.frame 0 (.sub (ascii "jobs") (some (ascii "g")) (ascii "1")))]
    ∃ b b₁ b₂, run step (Broker.init 2 2) acts = some b ∧
      step b (.task 0 (.frame 0 (.pub (ascii "jobs") none []))) = some b₁ ∧
      run step b₁ [.push 0, .push 0, .push 0, .drainRead 1, .drainPop 1, .drainPop 1] = some b₂ ∧
      ∀ g, (∃ j, b.HasMember [ascii "jobs"] g j) → b.groupMessages b₂ g = 1 := by
  intro acts
  have hsome : ((run step (Broker.init 2 2) acts).bind fun b =>
      (step b (.task 0 (.frame 0 (.pub (ascii "jobs") none [])))).bind fun b₁ =>
        (run step b₁ [.push 0, .push 0, .push 0, .drainRead 1, .drainPop 1, .drainPop 1]).map
          fun b₂ => decide (b.Quiet ∧ b₂.Quiet ∧ (b₂.shards 0).publications =
              (b.shards 0).publications ++ [⟨0, ⟨ascii "jobs", none, []⟩, none, [(1, true)]⟩] ∧
            bytesTo 0 (b.shards 1).worker.offers ≤ 4096)) = some true := by
    decide +kernel
  obtain ⟨b, hrun, hsome⟩ := Option.bind_eq_some_iff.mp hsome
  obtain ⟨b₁, hpub, hsome⟩ := Option.bind_eq_some_iff.mp hsome
  obtain ⟨b₂, hrest, hfacts⟩ := Option.map_eq_some_iff.mp hsome
  obtain ⟨hquiet, hquiet', hp, hbytes⟩ := of_decide_eq_true hfacts
  have hnone : (b.shards 0).worker.table.matching [ascii "jobs"] = [] := by
    rw [matching_after hrun]
    decide +kernel
  have hone : (b.shards 1).worker.table.matching [ascii "jobs"] =
      [⟨⟨0⟩, ascii "1", some (ascii "g")⟩] := by
    rw [matching_after hrun]
    decide +kernel
  have hlookup : (b.shards 1).worker.lookup ⟨0⟩ = some 0 := by
    rw [lookup_after hrun]
    decide +kernel
  have hconns : 0 < (b.shards 1).worker.conns.length := by
    rw [length_conns_after hrun]
    decide +kernel
  have hparse : parsePublisherSubject (ascii "jobs") = .ok [ascii "jobs"] := rfl
  have hdispatch := dispatched_of_fanOut hrun hquiet ⟨ascii "jobs", none, []⟩ hpub
    (Nat.zero_le _) hparse (by simp [Action.Internal]) hrest hquiet' hp rfl
  obtain ⟨hready, haccepted⟩ := single_dispatch_accepted hrun (by decide) hconns
    ⟨ascii "jobs", none, []⟩ hparse hone hlookup (by decide +kernel)
    ((Nat.add_le_add_right hbytes _).trans (by decide +kernel))
  refine ⟨b, b₁, b₂, hrun, hpub, hrest, ?_⟩
  refine (groups_once_iff hrun hquiet ⟨ascii "jobs", none, []⟩ hpub (Nat.zero_le _) hparse
    (by simp [Action.Internal]) hrest hquiet' hp rfl ?_ ?_).mpr ?_
  · refine Fin.forall_fin_two.mpr ⟨fun s hs => ?_, hready.groups⟩
    rw [hnone] at hs
    cases hs
  · refine Fin.forall_fin_two.mpr ⟨fun o ho _ => ?_, fun o ho _ => ?_⟩
    · obtain ⟨-, new, hnew, hP, -⟩ := Worker.extends_dispatchLocal hparse (hdispatch 0)
      obtain ⟨s, hs, -⟩ := hP o (by simpa [Broker.newOffers, hnew] using ho)
      rw [hnone] at hs
      cases hs
    · obtain ⟨o', ho', -, -, -, hok⟩ := haccepted _ (hdispatch 1)
      obtain rfl : o = o' := by simpa [Broker.newOffers, ho'] using ho
      exact hok
  · have hempty : ∀ g, ¬ b.HasMember [ascii "jobs"] g 0 := by simp [Broker.HasMember, hnone]
    refine fun g => Fin.forall_fin_two.mpr ⟨fun k hj => absurd hj (hempty g), ?_⟩
    exact Fin.forall_fin_two.mpr ⟨fun _ hk => absurd hk (hempty g), fun _ _ => rfl⟩

/-- A group with a member on each of two shards gets a publication twice: the shard of the publisher
and the other one pick a member each. All pushes have succeeded, and both members have taken their
message. -/
theorem groups_twice_across_shards :
    let member (i : Fin 2) : List (Action 2) :=
      [.task i (.accept true), .task i (.greet 0),
        .task i (.frame 0 (.sub (ascii "jobs") (some (ascii "g")) (ascii "1")))]
    let p : Publication 2 := ⟨0, ⟨ascii "jobs", none, []⟩, none, [(1, true)]⟩
    ∃ b b₁ b₂, run step (Broker.init 2 2) (member 0 ++ member 1) = some b ∧ b.Quiet ∧
      step b (.task 0 (.frame 0 (.pub (ascii "jobs") none []))) = some b₁ ∧
      run step b₁ [.push 0, .push 0, .push 0, .drainRead 1, .drainPop 1, .drainPop 1] = some b₂ ∧
      b₂.Quiet ∧ (b₂.shards 0).publications = (b.shards 0).publications ++ [p] ∧
      (∀ j, ∃ o, b.newOffers b₂ j = [o] ∧ o.target = 0 ∧ o.group = some (ascii "g") ∧
        o.frame = .msg (ascii "jobs") (ascii "1") none [] ∧ o.outcome = .ok) ∧
      b.groupMessages b₂ (ascii "g") = 2 := by
  intro member p
  have hsome : ((run step (Broker.init 2 2) (member 0 ++ member 1)).bind fun b =>
      (step b (.task 0 (.frame 0 (.pub (ascii "jobs") none [])))).bind fun b₁ =>
        (run step b₁ [.push 0, .push 0, .push 0, .drainRead 1, .drainPop 1, .drainPop 1]).map
          fun b₂ => decide (b.Quiet ∧ b₂.Quiet ∧
            (b₂.shards 0).publications = (b.shards 0).publications ++ [p] ∧
            ∀ j, bytesTo 0 (b.shards j).worker.offers ≤ 4096)) = some true := by
    decide +kernel
  obtain ⟨b, hrun, hsome⟩ := Option.bind_eq_some_iff.mp hsome
  obtain ⟨b₁, hpub, hsome⟩ := Option.bind_eq_some_iff.mp hsome
  obtain ⟨b₂, hrest, hfacts⟩ := Option.map_eq_some_iff.mp hsome
  obtain ⟨hquiet, hquiet', hp, hbytes⟩ := of_decide_eq_true hfacts
  have hmatching : ∀ j, (b.shards j).worker.table.matching [ascii "jobs"] =
      [⟨⟨0⟩, ascii "1", some (ascii "g")⟩] := fun j => by
    rw [matching_after hrun]
    revert j
    decide +kernel
  have hlookup : ∀ j, (b.shards j).worker.lookup ⟨0⟩ = some 0 := fun j => by
    rw [lookup_after hrun]
    revert j
    decide +kernel
  have hconns : ∀ j, 0 < (b.shards j).worker.conns.length := fun j => by
    rw [length_conns_after hrun]
    revert j
    decide +kernel
  have hcloses : ∀ j : Fin 2, ∀ a ∈ member 0 ++ member 1, a.closes j 0 = false := by decide
  have hparse : parsePublisherSubject (ascii "jobs") = .ok [ascii "jobs"] := rfl
  have hoffers : ∀ j, ∃ o, b.newOffers b₂ j = [o] ∧ o.target = 0 ∧ o.group = some (ascii "g") ∧
      o.frame = .msg (ascii "jobs") (ascii "1") none [] ∧ o.outcome = .ok := by
    intro j
    have hdispatch := dispatched_of_fanOut hrun hquiet ⟨ascii "jobs", none, []⟩ hpub
      (Nat.zero_le _) hparse (by simp [Action.Internal]) hrest hquiet' hp rfl j
    obtain ⟨-, haccepted⟩ := single_dispatch_accepted hrun (hcloses j) (hconns j)
      ⟨ascii "jobs", none, []⟩ hparse (hmatching j) (hlookup j) (by decide +kernel)
      ((Nat.add_le_add_right (hbytes j) _).trans (by decide +kernel))
    obtain ⟨o, ho, htarget, hframe, hgroup, hok⟩ := haccepted _ hdispatch
    exact ⟨o, by rw [Broker.newOffers, ho, List.drop_left], htarget, hgroup, hframe, hok⟩
  refine ⟨b, b₁, b₂, hrun, hquiet, hpub, hrest, hquiet', hp, hoffers, ?_⟩
  have hone : ∀ j, (b.newOffers b₂ j).countP
      (fun o => o.group = some (ascii "g") ∧ o.outcome = .ok) = 1 := by
    intro j
    obtain ⟨o, ho, -, hgroup, -, hok⟩ := hoffers j
    rw [ho]
    simp [hgroup, hok]
  simp only [Broker.groupMessages, hone]
  rfl

end Aulon.Server
