import Aulon.Core.OutboundQueue
import Aulon.Server.Steps

/-!
# Room in the outbound buffers

A connection is closed as a slow consumer only when its buffer is full. So as long as all that was
ever offered to a connection fits its buffer, and no one closes it, every offer is accepted,
whatever the writer has sent in the meantime.

* `Enqueued.accepted` — offers for which there is room are accepted.
* `relates_run` — the rule for what relates the offers to a connection with its state.
* `keeps_run` — what was not offered yet is still free.
* `dispatch_accepted`, `Worker.single_accepted` — so a dispatch within the capacity is accepted.
-/

namespace Aulon.Server

open Aulon.Lib Aulon.Core Aulon.Proto

variable {n : ℕ}

/-- How many bytes some offers hold for a connection. -/
def bytesTo (r : ConnRef) (os : List Offer) : ℕ :=
  ((os.filter (·.target = r)).map (·.bytes.length)).sum

/-- The bytes of two lists of offers. -/
lemma bytesTo_append (r : ConnRef) (os os' : List Offer) :
    bytesTo r (os ++ os') = bytesTo r os + bytesTo r os' := by
  simp [bytesTo]

/-- The bytes of one offer. -/
lemma bytesTo_singleton_le (r : ConnRef) (o : Offer) : bytesTo r [o] ≤ o.bytes.length := by
  by_cases h : o.target = r <;> simp [bytesTo, h]

/-- Offers for which there is room are accepted, and take the room of their bytes. -/
lemma Worker.Enqueued.accepted {r : ConnRef} {s s' : ConnectionState} {os : List Offer} {k : ℕ}
    (h : Worker.Enqueued r s os s') (hroom : s.HasRoom (bytesTo r os + k)) :
    (∀ o ∈ os, o.target = r → o.outcome = .ok) ∧ s'.HasRoom k := by
  induction os generalizing s with
  | nil =>
      cases h
      exact ⟨by simp, by simpa [bytesTo] using hroom⟩
  | cons o os ih =>
      rw [Worker.Enqueued] at h
      split_ifs at h with htarget
      · have hsum : bytesTo r (o :: os) + k = o.bytes.length + (bytesTo r os + k) := by
          simp [bytesTo, htarget, Nat.add_assoc]
        rw [hsum] at hroom
        obtain ⟨houtcome, hroom'⟩ := hroom.enqueue
        obtain ⟨hrest, hroom''⟩ := ih h.2 hroom'
        refine ⟨fun o' ho' ht => ?_, hroom''⟩
        rcases List.mem_cons.mp ho' with rfl | ho'
        · rw [h.1, houtcome]
        · exact hrest o' ho' ht
      · have hsum : bytesTo r (o :: os) = bytesTo r os := by simp [bytesTo, htarget]
        rw [hsum] at hroom
        obtain ⟨hrest, hroom'⟩ := ih h hroom
        refine ⟨fun o' ho' ht => ?_, hroom'⟩
        rcases List.mem_cons.mp ho' with rfl | ho'
        · exact absurd ht htarget
        · exact hrest o' ho' ht

namespace Worker

/-- Connection `r` is not closing and has room for `k` more bytes. -/
def HasRoom (w : Worker) (r : ConnRef) (k : ℕ) : Prop :=
  ∃ c, w.conns[r]? = some c ∧ c.state.HasRoom k

/-- What was not offered to connection `r` yet is still free in its buffer. -/
def Keeps (w : Worker) (r : ConnRef) : Prop :=
  r < w.conns.length → ∀ k, bytesTo r w.offers + k ≤ defaultOutboundCapacity → w.HasRoom r k

/-- `I` relates the offers made to connection `r` so far to its state, if it exists. -/
def Relates (I : List Offer → ConnectionState → Prop) (w : Worker) (r : ConnRef) : Prop :=
  ∀ c, w.conns[r]? = some c → I (w.offers.filter (·.target = r)) c.state

/-- `I` holds of new connections, and an offer keeps it. -/
structure IsOfferInvariant (I : List Offer → ConnectionState → Prop) : Prop where
  new : ∀ os id, I os (.new id defaultOutboundCapacity)
  offer : ∀ os s o, I os s → o.outcome = (s.enqueue o.bytes).1 → I (os ++ [o]) (s.enqueue o.bytes).2

variable {I : List Offer → ConnectionState → Prop} {P : Offer → Prop} {w w' : Worker}
  {r r' : ConnRef} {c c' : Connection}

/-- Offers keep it. -/
lemma IsOfferInvariant.enqueued (hI : IsOfferInvariant I) {s s' : ConnectionState}
    {os new : List Offer} (h : I os s) (henq : Enqueued r s new s') :
    I (os ++ new.filter (·.target = r)) s' := by
  induction new generalizing s os with
  | nil =>
      cases henq
      simpa using h
  | cons o new ih =>
      rw [Enqueued] at henq
      split_ifs at henq with htarget
      · rw [List.filter_cons_of_pos (by simpa using htarget)]
        simpa using ih (hI.offer os s o h henq.1) henq.2
      · rw [List.filter_cons_of_neg (by simpa using htarget)]
        exact ih h henq

/-- Offers keep the relation. -/
lemma Relates.of_extends (hI : IsOfferInvariant I) (h : w.Relates I r) (hext : w.Extends P w') :
    w'.Relates I r := by
  obtain ⟨hcore, new, hnew, -, hstates⟩ := hext
  intro c' hc'
  have hr : r < w.conns.length := by
    rw [← length_conns_of_core hcore]
    exact (List.getElem?_eq_some_iff.mp hc').1
  obtain ⟨d, hd, henq⟩ := hstates r _ (List.getElem?_eq_getElem hr)
  obtain rfl : d = c' := Option.some.inj (hd.symm.trans hc')
  rw [hnew, List.filter_append]
  exact hI.enqueued (h _ (List.getElem?_eq_getElem hr)) henq

/-- Changing a connection in a way that keeps it. -/
lemma Relates.set {table : SubscriptionTrie} {connections : AList fun _ : ConnectionId => ConnRef}
    (h : w.Relates I r) (hc : w.conns[r']? = some c)
    (hstate : r' = r → ∀ os, I os c.state → I os c'.state) :
    ({ w with table := table, connections := connections, conns := w.conns.set r' c' } :
      Worker).Relates I r := by
  intro d hd
  rcases eq_or_ne r' r with rfl | hne
  · obtain rfl : c' = d := Option.some.inj
      ((List.getElem?_set_self (List.getElem?_eq_some_iff.mp hc).1).symm.trans hd)
    exact hstate rfl _ (h c hc)
  · exact h d ((List.getElem?_set_ne hne).symm.trans hd)

/-- An accept keeps it. -/
lemma Relates.accept (hI : IsOfferInvariant I) (h : w.Relates I r) (granted : Bool) :
    (w.accept granted).Relates I r := by
  cases granted with
  | false => exact h
  | true =>
      intro c hc
      simp only [Worker.accept, nextId, if_true] at hc ⊢
      rcases Nat.lt_or_ge r w.conns.length with hlt | hge
      · exact h c ((List.getElem?_append_left hlt).symm.trans hc)
      · rw [List.getElem?_append_right hge, List.getElem?_singleton] at hc
        split_ifs at hc
        rw [← Option.some.inj hc]
        exact hI.new _ _

/-- What a reader does plays no part in it. -/
lemma Relates.setReader (h : w.Relates I r) (r' : ConnRef) (status : ReaderStatus) :
    (w.setReader r' status).Relates I r := by
  intro c hc
  rw [Worker.setReader, List.getElem?_modify] at hc
  obtain ⟨d, hd, rfl⟩ := Option.map_eq_some_iff.mp hc
  have hstate := h d hd
  split_ifs <;> exact hstate

end Worker

/-- The call, other than an enqueue, that the action makes on connection `r` of shard `i`. -/
def Action.call (i : Fin n) (r : ConnRef) : Action n → Option ConnectionState.Call
  | .task j (.reject r') => if j = i ∧ r' = r then some (.markClose .protocolError) else none
  | .task j (.exit r' _) => if j = i ∧ r' = r then some (.markClose .peerClosed) else none
  | .task j (.send r' buf) => if j = i ∧ r' = r then some (.drainInto buf) else none
  | _ => none

/-- A task keeps it if the call it makes does. -/
lemma Shard.relates_run {I : List Offer → ConnectionState → Prop} (hI : Worker.IsOfferInvariant I)
    {s s' : Shard n} {i : Fin n} {t : Task} {r : ConnRef} (h : s.worker.Relates I r)
    (hrun : s.run i t = some s') (ht : ∀ call, (Action.task i t).call i r = some call →
      ∀ os s, I os s → I os (call.apply s)) : s'.worker.Relates I r := by
  have hs := Shard.run_eq_some hrun
  cases t with
  | accept granted =>
      rw [hs]
      exact h.accept hI granted
  | greet r' =>
      obtain ⟨c, -, -, rfl⟩ := hs
      dsimp only
      rw [Worker.greet_eq]
      exact (h.of_extends hI (s.worker.extends_offer r' none (.info serverInfoJson)
        (encode (.info serverInfoJson)))).setReader r' .reading
  | reject r' =>
      obtain ⟨c, hc, -, rfl⟩ := hs
      exact h.set hc fun hr os =>
        ht (.markClose .protocolError) (by simp [Action.call, hr]) os c.state
  | exit r' order =>
      obtain ⟨c, hc, -, -, rfl⟩ := hs
      exact h.set hc fun hr os => ht (.markClose .peerClosed) (by simp [Action.call, hr]) os c.state
  | send r' buf =>
      obtain ⟨c, hc, rfl⟩ := hs
      exact h.set hc fun hr os => ht (.drainInto buf) (by simp [Action.call, hr]) os c.state
  | frame r' f =>
      obtain ⟨c, hc, -, rfl⟩ := hs
      rcases s.handleFrame_cases i r' c f with hext | ⟨table, subscriptions, heq⟩
      · exact h.of_extends hI hext
      · rw [heq]
        exact h.set hc fun _ _ hstate => hstate

/-- **Rule for connections.** What holds of new connections and is kept by offers and by the other
calls of a run holds of a connection and the offers made to it. -/
theorem relates_run {I : List Offer → ConnectionState → Prop} (hI : Worker.IsOfferInvariant I)
    {capacity : ℕ} {as : List (Action n)} {b : Broker n} {i : Fin n} {r : ConnRef}
    (hrun : run step (Broker.init n capacity) as = some b)
    (has : ∀ a ∈ as, ∀ call, a.call i r = some call → ∀ os s, I os s → I os (call.apply s)) :
    (b.shards i).worker.Relates I r := by
  refine run_invariant_of (I := fun b : Broker n => (b.shards i).worker.Relates I r) ?_ ?_
    (meets_of_forall (fun a ha _ => has a ha) _) hrun
  · intro b a b' h ha hstep
    rcases step_cases hstep i with ⟨t, rfl, hs⟩ | ⟨-, hext⟩
    · exact Shard.relates_run hI h hs ha
    · exact h.of_extends hI hext
  · intro c hc
    cases hc

/-- Every connection has a buffer of the default capacity. -/
theorem outboundCapacity_run {capacity : ℕ} {as : List (Action n)} {b : Broker n} {i : Fin n}
    {r : ConnRef} (hrun : run step (Broker.init n capacity) as = some b) {c : Connection}
    (hc : (b.shards i).worker.conns[r]? = some c) :
    c.state.outboundCapacity = defaultOutboundCapacity := by
  have hI : Worker.IsOfferInvariant fun _ s =>
      s.outboundCapacity = defaultOutboundCapacity :=
    ⟨fun _ _ => List.length_replicate,
      fun _ s o h _ => (s.outboundCapacity_enqueue o.bytes).trans h⟩
  exact relates_run hI hrun (fun _ _ call _ _ s h => (s.outboundCapacity_apply call).trans h) c hc

/-- Does the action close connection `r` of shard `i`? -/
def Action.closes (i : Fin n) (r : ConnRef) : Action n → Bool
  | .task j (.reject r') | .task j (.exit r' _) => j = i ∧ r' = r
  | _ => false

/-- An action that does not close a connection at most drains it. -/
lemma Action.call_of_closes {i : Fin n} {r : ConnRef} {a : Action n} (ha : a.closes i r = false)
    {call : ConnectionState.Call} (hcall : a.call i r = some call) :
    ∃ buf, call = .drainInto buf := by
  unfold Action.call at hcall
  split at hcall
  · simp_all [Action.closes]
  · simp_all [Action.closes]
  · split_ifs at hcall
    exact ⟨_, (Option.some.inj hcall).symm⟩
  · cases hcall

/-- What was not offered yet to a connection that no one closes is still free in its buffer. -/
theorem keeps_run {capacity : ℕ} {as : List (Action n)} {b : Broker n} {i : Fin n} {r : ConnRef}
    (hrun : run step (Broker.init n capacity) as = some b) (has : ∀ a ∈ as, a.closes i r = false) :
    (b.shards i).worker.Keeps r := by
  have hI : Worker.IsOfferInvariant fun os s => ∀ k,
      (os.map (·.bytes.length)).sum + k ≤ defaultOutboundCapacity → s.HasRoom k := by
    refine ⟨fun os id k hk => ?_, fun os s o h _ k hk => ?_⟩
    · exact ConnectionState.hasRoom_new id ((Nat.le_add_left _ _).trans hk)
    · rw [List.map_append, List.sum_append, List.map_singleton, List.sum_singleton,
        Nat.add_assoc] at hk
      exact (h _ hk).enqueue.2
  intro hr k hk
  refine ⟨_, List.getElem?_eq_getElem hr,
    relates_run hI hrun ?_ _ (List.getElem?_eq_getElem hr) k hk⟩
  intro a ha call hcall os s h k hk
  obtain ⟨buf, rfl⟩ := Action.call_of_closes (has a ha) hcall
  exact (h k hk).drainInto buf

/-- **No slow consumer below capacity.** If no one closes a connection and all that is offered to it
up to the end of a dispatch fits its buffer, the dispatch's offers to it are accepted. -/
theorem dispatch_accepted {capacity : ℕ} {as : List (Action n)} {b : Broker n} {i : Fin n}
    {r : ConnRef} (hrun : run step (Broker.init n capacity) as = some b)
    (has : ∀ a ∈ as, a.closes i r = false) (hr : r < (b.shards i).worker.conns.length)
    {P : Offer → Prop} {w' : Worker} (hext : (b.shards i).worker.Extends P w')
    (hbytes : bytesTo r w'.offers ≤ defaultOutboundCapacity) {new : List Offer}
    (hnew : w'.offers = (b.shards i).worker.offers ++ new) :
    ∀ o ∈ new, o.target = r → o.outcome = .ok := by
  obtain ⟨-, new', hnew', -, hstates⟩ := hext
  obtain rfl : new' = new := List.append_cancel_left (hnew'.symm.trans hnew)
  rw [hnew, bytesTo_append] at hbytes
  obtain ⟨c, hc, hroom⟩ := keeps_run hrun has hr (bytesTo r new' + 0) hbytes
  obtain ⟨c', -, henq⟩ := hstates r c hc
  exact (henq.accepted hroom).1

/-- Where one subscription matches, and its connection is registered and has room, the worker is
ready and the dispatch is one offer, which is accepted. -/
lemma Worker.single_accepted {w : Worker} {r : ConnRef} (frame : PublishedFrame)
    {tokens : List Bytes} (hparse : parsePublisherSubject frame.subject = .ok tokens)
    (hscratch : w.emitScratch.length = emitScratchCapacity) {s : Sub}
    (hs : w.table.matching tokens = [s]) (hlookup : w.lookup s.connId = some r)
    (hfit : (encode (frame.msg s.sid)).length ≤ emitScratchCapacity)
    (hroom : w.HasRoom r (encode (frame.msg s.sid)).length) :
    w.Ready frame tokens ∧ ∀ w', w.dispatchLocal frame = .ok w' →
      ∃ o, w'.offers = w.offers ++ [o] ∧ o.target = r ∧ o.frame = frame.msg s.sid ∧
        o.group = s.queueGroup ∧ o.outcome = .ok := by
  obtain ⟨c, hc, hroom⟩ := hroom
  have hready : w.Ready frame tokens := by
    refine ⟨by rw [hscratch]; decide, fun s' hs' => ?_⟩
    rw [hs, List.mem_singleton] at hs'
    rw [hs', hscratch]
    exact ⟨hfit, r, hlookup, (List.getElem?_eq_some_iff.mp hc).1⟩
  refine ⟨hready, fun w' hdispatch => ?_⟩
  obtain ⟨o, hoffers, hframe, hbytes, hgroup, htarget⟩ :=
    Worker.single_dispatchLocal hparse hready hdispatch hs
  obtain ⟨-, new, hnew, -, hstates⟩ := Worker.extends_dispatchLocal hparse hdispatch
  obtain rfl : new = [o] := List.append_cancel_left (hnew.symm.trans hoffers)
  rw [hlookup, Option.some.injEq] at htarget
  obtain ⟨d, -, henq⟩ := hstates r c hc
  have hone : bytesTo r [o] + 0 = (encode (frame.msg s.sid)).length := by
    simp [bytesTo, ← htarget, hbytes]
  obtain ⟨haccepted, -⟩ := Worker.Enqueued.accepted henq (by rwa [hone])
  exact ⟨o, hoffers, htarget.symm, hframe, hgroup,
    haccepted o (List.mem_singleton_self o) htarget.symm⟩

/-- So it is for a connection that nobody has closed, and whose offers leave room. -/
lemma single_dispatch_accepted {capacity : ℕ} {as : List (Action n)} {b : Broker n} {i : Fin n}
    {r : ConnRef} (hrun : run step (Broker.init n capacity) as = some b)
    (has : ∀ a ∈ as, a.closes i r = false) (hr : r < (b.shards i).worker.conns.length)
    (frame : PublishedFrame) {tokens : List Bytes}
    (hparse : parsePublisherSubject frame.subject = .ok tokens) {s : Sub}
    (hs : (b.shards i).worker.table.matching tokens = [s])
    (hlookup : (b.shards i).worker.lookup s.connId = some r)
    (hfit : (encode (frame.msg s.sid)).length ≤ emitScratchCapacity)
    (hbytes : bytesTo r (b.shards i).worker.offers + (encode (frame.msg s.sid)).length ≤
      defaultOutboundCapacity) :
    (b.shards i).worker.Ready frame tokens ∧
      ∀ w', (b.shards i).worker.dispatchLocal frame = .ok w' →
      ∃ o, w'.offers = (b.shards i).worker.offers ++ [o] ∧ o.target = r ∧
        o.frame = frame.msg s.sid ∧ o.group = s.queueGroup ∧ o.outcome = .ok :=
  Worker.single_accepted frame hparse (length_emitScratch hrun i) hs hlookup hfit
    (keeps_run hrun has hr _ hbytes)

end Aulon.Server
