import Aulon.Lib.LinearGenerator
import Aulon.Server.Steps

/-!
# The picks of a worker

A worker picks the member of a queue group with a xorshift generator. Zero is a fixed point of the
generator: a worker in that state would pick the first member of every group for ever. It is never
in that state, because no shard id cancels the constant of the seed and only zero is taken to zero;
and more than that, the generator runs through all words but zero.

* `xorshiftCertificate` — the period of the generator, as a computation.
* `rng_new_ne_zero` — the seed.
* `pickIndex_never_degenerates` — any number of picks, out of whatever numbers of members.
* `rng_run` — in every run of the broker the generator of a worker has only gone on from its seed.
-/

namespace Aulon.Server

open Aulon.Lib Aulon.Core Aulon.Proto

/-! ## The generator -/

/-- The generator is linear under exclusive or. -/
lemma xorLinear_xorshift : XorLinear xorshift :=
  (xorLinear_shiftLeft 17).xor_self.comp
    ((xorLinear_shiftRight 7).xor_self.comp (xorLinear_shiftLeft 13).xor_self)

/-- The characteristic polynomial of the generator, and the inverses that show that its period is
no proper divisor of `2 ^ 64 - 1`. -/
def xorshiftCertificate : PeriodCertificate where
  modulus := ⟨64, 0x1013ed4a358913201, by decide +kernel, by decide⟩
  inverses := [(3, 15511182550047884770), (5, 11814715471047095913), (17, 7202445018898142789),
    (257, 9031751854939573325), (641, 138158124418806406), (65537, 17109817795786126257),
    (6700417, 5204763322158105013)]
  degree_eq := rfl
  prime := by norm_num
  prod_eq := by decide
  order := by decide +kernel
  inverse := by decide +kernel

/-- The generator is a root of the polynomial of its certificate. -/
lemma applyMask_xorshift : ∀ i < 64,
    applyMask xorshift 65 xorshiftCertificate.modulus.mask (UInt64.ofNat (2 ^ i)) = 0 := by
  decide +kernel

/-- The generator does not get to zero. -/
lemma xorshift_ne_zero {s : UInt64} (hs : s ≠ 0) : xorshift s ≠ 0 :=
  xorshiftCertificate.apply_ne_zero xorLinear_xorshift applyMask_xorshift hs

/-- It does not, after any number of draws. -/
lemma iterate_xorshift_ne_zero {s : UInt64} (hs : s ≠ 0) (k : ℕ) : xorshift^[k] s ≠ 0 := by
  induction k with
  | zero => exact hs
  | succ k ih =>
      rw [Function.iterate_succ_apply']
      exact xorshift_ne_zero ih

/-- The generator runs through all words but zero. -/
lemma exists_iterate_xorshift {s y : UInt64} (hs : s ≠ 0) (hy : y ≠ 0) :
    ∃ k < 2 ^ 64 - 1, xorshift^[k] s = y :=
  xorshiftCertificate.exists_iterate xorLinear_xorshift applyMask_xorshift hs hy

/-- The constant of the seed is no multiple of the factor of the shard id. -/
lemma seed_ne_mul (x : ℕ) (hx : x < 2 ^ 32) :
    1311768467463790320 ≠ x * 2654435769 % 2 ^ 64 := by
  rw [Nat.mod_eq_of_lt (by omega)]
  omega

/-- No shard id cancels the constant of the seed. -/
lemma rng_new_ne_zero (shardId : UInt32) : (Worker.new shardId).rng ≠ 0 := by
  intro h
  have heq : (0x123456789abcdef0 : UInt64) = shardId.toUInt64 * 0x9E3779B9 :=
    UInt64.xor_eq_zero_iff.mp h
  have hnat := congrArg UInt64.toNat heq
  rw [UInt64.toNat_mul, UInt32.toNat_toUInt64] at hnat
  exact seed_ne_mul shardId.toNat shardId.toNat_lt hnat

/-! ## Picks -/

namespace Worker

/-- The worker after `k` picks, of which the one with index `j` is out of `ns j`. -/
def afterPicks (w : Worker) (ns : ℕ → ℕ) : ℕ → Worker
  | 0 => w
  | k + 1 => ((w.afterPicks ns k).pickIndex (ns k)).2

/-- The pick after `k` picks. -/
def pickAfter (w : Worker) (ns : ℕ → ℕ) (k : ℕ) : ℕ := ((w.afterPicks ns k).pickIndex (ns k)).1

/-- The state of the generator after some picks. -/
lemma rng_afterPicks (w : Worker) (ns : ℕ → ℕ) (k : ℕ) :
    (w.afterPicks ns k).rng = xorshift^[k] w.rng := by
  induction k with
  | zero => rfl
  | succ k ih =>
      rw [Function.iterate_succ_apply', ← ih]
      rfl

/-- A pick is the next state of the generator, reduced. -/
lemma pickAfter_eq (w : Worker) (ns : ℕ → ℕ) (k : ℕ) :
    w.pickAfter ns k = (xorshift^[k + 1] w.rng).toNat % ns k := by
  rw [Function.iterate_succ_apply', ← rng_afterPicks w ns k]
  rfl

/-- Any number but zero is what a later pick reduces. -/
lemma exists_pickAfter_eq {w : Worker} (hw : w.rng ≠ 0) (ns : ℕ → ℕ) (k : ℕ) {y : UInt64}
    (hy : y ≠ 0) : ∃ j, k ≤ j ∧ j < k + (2 ^ 64 - 1) ∧ w.pickAfter ns j = y.toNat % ns j := by
  obtain ⟨m, hm, heq⟩ := exists_iterate_xorshift (iterate_xorshift_ne_zero hw (k + 1)) hy
  refine ⟨m + k, Nat.le_add_left k m, by omega, ?_⟩
  rw [pickAfter_eq, add_assoc, Function.iterate_add_apply, heq]

end Worker

/-- A positive number below `2 ^ 64` is a word other than zero. -/
lemma exists_word_eq {m : ℕ} (hpos : 0 < m) (hm : m < 2 ^ 64) :
    ∃ y : UInt64, y ≠ 0 ∧ y.toNat = m := by
  have hnat : (UInt64.ofNat m).toNat = m := UInt64.toNat_ofNat_of_lt' hm
  refine ⟨UInt64.ofNat m, fun hzero => ?_, hnat⟩
  rw [hzero] at hnat
  exact hpos.ne hnat

/-- **The generator never degenerates.** From the seed of any shard, after any number of picks out
of whatever positive numbers: the state is not zero and every pick is in range. From any point on,
if there are at least two to pick from, some pick is not the first one; and if the number to pick
from stays the same, every index is picked. -/
theorem pickIndex_never_degenerates (shardId : UInt32) (ns : ℕ → ℕ) (hns : ∀ k, 0 < ns k) :
    (∀ k, ((Worker.new shardId).afterPicks ns k).rng ≠ 0) ∧
    (∀ k, (Worker.new shardId).pickAfter ns k < ns k) ∧
    (∀ k, (∀ j, k ≤ j → 2 ≤ ns j) →
      ∃ j, k ≤ j ∧ j < k + (2 ^ 64 - 1) ∧ (Worker.new shardId).pickAfter ns j ≠ 0) ∧
    (∀ k n, n < 2 ^ 64 → (∀ j, k ≤ j → ns j = n) →
      ∀ i < n, ∃ j, k ≤ j ∧ j < k + (2 ^ 64 - 1) ∧ (Worker.new shardId).pickAfter ns j = i) := by
  have hseed := rng_new_ne_zero shardId
  refine ⟨fun k => ?_, fun k => ?_, fun k htwo => ?_, fun k n hn hconst i hi => ?_⟩
  · rw [Worker.rng_afterPicks]
    exact iterate_xorshift_ne_zero hseed k
  · rw [Worker.pickAfter_eq]
    exact Nat.mod_lt _ (hns k)
  · -- the state one leaves the remainder one
    obtain ⟨j, hkj, hj, heq⟩ := Worker.exists_pickAfter_eq hseed ns k (y := 1) (by decide)
    refine ⟨j, hkj, hj, ?_⟩
    have hone : (1 : UInt64).toNat % ns j = 1 := Nat.mod_eq_of_lt (htwo j hkj)
    rw [heq, hone]
    decide
  · -- the index zero is the remainder of the number itself
    have hindex : ∃ y : UInt64, y ≠ 0 ∧ y.toNat % n = i := by
      rcases Nat.eq_zero_or_pos i with rfl | hpos
      · obtain ⟨y, hy, hyn⟩ := exists_word_eq hi hn
        exact ⟨y, hy, by rw [hyn, Nat.mod_self]⟩
      · obtain ⟨y, hy, hyi⟩ := exists_word_eq hpos (hi.trans hn)
        exact ⟨y, hy, by rw [hyi, Nat.mod_eq_of_lt hi]⟩
    obtain ⟨y, hy, hmod⟩ := hindex
    obtain ⟨j, hkj, hj, heq⟩ := Worker.exists_pickAfter_eq hseed ns k hy
    exact ⟨j, hkj, hj, by rw [heq, hconst j hkj, hmod]⟩

/-- A group of two that becomes one of three after ten picks: from any later point on each of the
three is picked. -/
theorem pickIndex_never_degenerates_three :
    let ns : ℕ → ℕ := fun k => if k < 10 then 2 else 3
    (∀ k, 0 < ns k) ∧ ((Worker.new 7).afterPicks ns 1000).rng ≠ 0 ∧
      (∃ j, 5 ≤ j ∧ (Worker.new 7).pickAfter ns j ≠ 0) ∧
      ∀ i < 3, ∃ j, 1000 ≤ j ∧ (Worker.new 7).pickAfter ns j = i := by
  intro ns
  have htwo : ∀ k, 2 ≤ ns k := by
    intro k
    by_cases hk : k < 10
    · simp [ns, hk]
    · simp [ns, hk]
  have hpos : ∀ k, 0 < ns k := fun k => Nat.lt_of_lt_of_le two_pos (htwo k)
  obtain ⟨hne, -, hlater, hall⟩ := pickIndex_never_degenerates 7 ns hpos
  refine ⟨hpos, hne 1000, ?_, fun i hi => ?_⟩
  · obtain ⟨j, hj, -, hpick⟩ := hlater 5 fun j _ => htwo j
    exact ⟨j, hj, hpick⟩
  · have hthree : ∀ j, 1000 ≤ j → ns j = 3 := fun j hj => if_neg (by omega)
    obtain ⟨j, hj, -, hpick⟩ := hall 1000 3 (by decide) hthree i hi
    exact ⟨j, hj, hpick⟩

/-! ## The generator in the broker -/

namespace Worker

variable {w w' w'' : Worker}

/-- The generator of a worker has gone on from that of another one. -/
def Drawn (w w' : Worker) : Prop := ∃ k, w'.rng = xorshift^[k] w.rng

/-- Where nothing is drawn, the generator stays. -/
lemma Drawn.of_rng (h : w'.rng = w.rng) : w.Drawn w' := ⟨0, h⟩

/-- Draws go on from each other. -/
lemma Drawn.trans (h : w.Drawn w') (h' : w'.Drawn w'') : w.Drawn w'' := by
  obtain ⟨k, hk⟩ := h
  obtain ⟨k', hk'⟩ := h'
  exact ⟨k' + k, by rw [hk', hk, Function.iterate_add_apply]⟩

/-- An offer draws nothing. -/
lemma rng_offer (w : Worker) (target : ConnRef) (group : Option Bytes) (frame : Frame)
    (bytes : Bytes) : (w.offer target group frame bytes).rng = w.rng := by
  unfold offer
  split <;> rfl

/-- An error draws nothing. -/
lemma rng_emitErrTo (w : Worker) (target : ConnRef) (msg : Bytes) :
    (w.emitErrTo target msg).rng = w.rng := by
  unfold emitErrTo
  split
  · exact rng_offer w target none (.err msg) _
  · rfl

/-- A PONG draws nothing. -/
lemma rng_handlePing (w : Worker) (r : ConnRef) : (w.handlePing r).rng = w.rng := by
  unfold handlePing
  split
  · exact rng_offer w r none .pong _
  · rfl

/-- An accept draws nothing. -/
lemma rng_accept (w : Worker) (granted : Bool) : (w.accept granted).rng = w.rng := by
  cases granted <;> rfl

/-- Of the handlers, only the one for `PUB` draws. -/
lemma rng_handleCommand (w : Worker) (r : ConnRef) (c : Connection) (f : Frame) :
    (w.handleCommand r c f).rng = w.rng := by
  cases f with
  | connect options | pong | pub subject replyTo payload => rfl
  | ping => exact rng_handlePing w r
  | sub subject queueGroup sid =>
      rw [handleCommand, handleSub]
      split
      · exact rng_emitErrTo w r _
      · rfl
  | unsub sid maxMsgs =>
      rw [handleCommand, handleUnsub]
      split_ifs
      · exact rng_emitErrTo w r _
      · split <;> rfl
  | msg subject sid replyTo payload | info options | ok | err message =>
      exact rng_emitErrTo w r (ascii "unexpected verb")

/-- A dispatch draws from the generator, and does nothing else to it. -/
lemma drawn_dispatchLocal {frame : PublishedFrame} (h : w.dispatchLocal frame = .ok w') :
    w.Drawn w' := by
  cases hparse : parsePublisherSubject frame.subject with
  | error e =>
      rw [dispatchLocal_error hparse] at h
      cases h
  | ok tokens =>
      rw [dispatchLocal_deliveries hparse] at h
      cases h
      exact ⟨_, rfl⟩

end Worker

variable {n : ℕ}

namespace Shard

/-- Finishing a publication draws nothing. -/
lemma drawn_finish (s : Shard n) (p : Publication n) : s.worker.Drawn (s.finish p).worker := by
  refine .of_rng ?_
  unfold finish
  split_ifs
  · exact Worker.rng_emitErrTo s.worker p.conn backPressureText
  · rfl

/-- A `PUB` draws what its dispatch does. -/
lemma drawn_handlePub (s : Shard n) (i : Fin n) (r : ConnRef) (frame : PublishedFrame) :
    s.worker.Drawn (s.handlePub i r frame).worker := by
  cases hdispatch : s.worker.dispatchLocal frame with
  | error e =>
      simp only [handlePub, hdispatch]
      exact .of_rng (s.worker.rng_emitErrTo r (subjectErrorText e))
  | ok worker =>
      rw [s.worker_handlePub i r hdispatch]
      exact Worker.drawn_dispatchLocal hdispatch

/-- A drained frame draws what its dispatch does. -/
lemma drawn_dispatchDrained (s : Shard n) (parcel : Parcel n) :
    s.worker.Drawn (s.dispatchDrained parcel).worker := by
  unfold dispatchDrained
  split
  · exact .of_rng rfl
  · rename_i worker hdispatch
    exact Worker.drawn_dispatchLocal hdispatch

/-- A frame of a client draws what its handler does. -/
lemma drawn_handleFrame (s : Shard n) (i : Fin n) (r : ConnRef) (c : Connection) (f : Frame) :
    s.worker.Drawn (s.handleFrame i r c f).worker := by
  by_cases hpub : ∃ subject replyTo payload, f = .pub subject replyTo payload
  · obtain ⟨subject, replyTo, payload, rfl⟩ := hpub
    rw [handleFrame]
    split_ifs
    · exact .of_rng (s.worker.rng_emitErrTo r (ascii "maximum payload exceeded"))
    · exact s.drawn_handlePub i r ⟨subject, replyTo, payload⟩
  · rw [s.handleFrame_command i r c fun _ _ _ hf => hpub ⟨_, _, _, hf⟩]
    exact .of_rng (s.worker.rng_handleCommand r c f)

/-- A task draws what it dispatches. -/
lemma drawn_run {s s' : Shard n} {i : Fin n} {t : Task} (h : s.run i t = some s') :
    s.worker.Drawn s'.worker := by
  have hrun := Shard.run_eq_some h
  cases t with
  | accept granted =>
      rw [hrun]
      exact .of_rng (s.worker.rng_accept granted)
  | greet r =>
      obtain ⟨c, -, -, rfl⟩ := hrun
      rw [Worker.greet_eq]
      exact .of_rng (s.worker.rng_offer r none _ _)
  | frame r f =>
      obtain ⟨c, -, -, rfl⟩ := hrun
      exact s.drawn_handleFrame i r c f
  | reject r =>
      obtain ⟨c, -, -, rfl⟩ := hrun
      exact .of_rng rfl
  | exit r order =>
      obtain ⟨c, -, -, -, rfl⟩ := hrun
      exact .of_rng rfl
  | send r buf =>
      obtain ⟨c, -, rfl⟩ := hrun
      exact .of_rng rfl

end Shard

/-- **Step lemma.** Every action lets the generators go on, if it touches them at all. -/
lemma drawn_step {b b' : Broker n} {a : Action n} (hstep : step b a = some b') (i : Fin n) :
    (b.shards i).worker.Drawn (b'.shards i).worker := by
  rcases step_shard hstep i with ⟨t, -, -, hrun⟩ | ⟨-, ⟨p, hs⟩ | ⟨parcel, -, hs⟩ | ⟨activity, hs⟩⟩
  · exact Shard.drawn_run hrun
  · rw [hs]
    exact (b.shards i).drawn_finish p
  · rw [hs]
    exact (b.shards i).drawn_dispatchDrained parcel
  · rw [hs]
    exact .of_rng rfl

/-- **The generators of a run.** In every run of the broker the generator of every worker has only
gone on from its seed, and it is never in the state zero. -/
theorem rng_run {capacity : ℕ} {as : List (Action n)} {b : Broker n}
    (hrun : run step (Broker.init n capacity) as = some b) (i : Fin n) :
    (∃ k, (b.shards i).worker.rng = xorshift^[k] (Worker.new (UInt32.ofNat i)).rng) ∧
      (b.shards i).worker.rng ≠ 0 := by
  have hdrawn : (Worker.new (UInt32.ofNat i)).Drawn (b.shards i).worker :=
    run_invariant (I := fun b : Broker n =>
      (Worker.new (UInt32.ofNat i)).Drawn (b.shards i).worker)
      (fun _ _ _ h hstep => h.trans (drawn_step hstep i)) (.of_rng rfl) hrun
  obtain ⟨k, hk⟩ := hdrawn
  refine ⟨⟨k, hk⟩, ?_⟩
  rw [hk]
  exact iterate_xorshift_ne_zero (rng_new_ne_zero _) k

end Aulon.Server
