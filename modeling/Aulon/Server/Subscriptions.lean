import Aulon.Server.Book
import Aulon.Server.Outbound

/-!
# Subscriptions over whole runs

What the end of a reader and an `UNSUB` leave in the trie, and what is offered to a connection
afterwards.

* `cleanup_removes_all` — the end of a reader removes exactly the entries of its connection.
* `unsub_ends` — after an `UNSUB` nothing is offered under the sid.

Both hold as long as the client does not use a sid for another subject while it is in use; the
counterexamples show what happens otherwise.
-/

namespace Aulon.Server

open Aulon.Lib Aulon.Core Aulon.Proto

variable {n : ℕ}

/-! ## The end of a reader -/

/-- After the end of the reader of connection `r` no entry of the connection comes back. -/
lemma lacks_of_finished {as : List (Action n)} {b b' : Broker n} {i : Fin n} {r : ConnRef}
    {sid : Bytes} (hrun : run step b as = some b') (hsound : (b.shards i).worker.book.Sound)
    (hfinished : (b.shards i).worker.Finished r) (hlacks : (b.shards i).worker.book.Lacks r sid)
    (hdistinct : (b'.shards i).worker.ids.Nodup) : (b'.shards i).worker.book.Lacks r sid := by
  refine (run_invariant (I := fun b : Broker n => (b.shards i).worker.book.Sound ∧
    (b.shards i).worker.Finished r ∧ ((b.shards i).worker.book.ids.Nodup →
      (b.shards i).worker.book.Lacks r sid)) ?_ ⟨hsound, hfinished, fun _ => hlacks⟩ hrun).2.2
    (by rwa [Worker.ids_book])
  rintro b a b' ⟨hsound, hfinished, hlacks⟩ hstep
  obtain ⟨hfinished', hframe⟩ := finished_step hstep hfinished
  rw [book_step hstep i]
  refine ⟨hsound.apply _, hfinished', fun hdistinct => ?_⟩
  refine (hlacks (Book.nodup_ids_of_apply hdistinct)).apply hsound hdistinct ?_
  intro subject queueGroup hop
  exact absurd (eq_of_bookOp_eq_sub hop) (hframe _)

/-- **The end of a reader.** If a connection never uses a sid for another subject while it has one
for it, and ids are distinct, then the end of its reader removes from the trie exactly its own
subscriptions, and none of them is ever there again. -/
theorem cleanup_removes_all {capacity : ℕ} {as : List (Action n)} {b b' : Broker n} {i : Fin n}
    {r : ConnRef} {c : Connection} {order : List (Sigma fun _ : Bytes => Bytes)}
    (hrun : run step (Broker.init n capacity) as = some b)
    (hsids : Meets step (fun b a => b.rebinds i r a = none) (Broker.init n capacity) as)
    (hdistinct : (b.shards i).worker.ids.Nodup) (hc : (b.shards i).worker.conns[r]? = some c)
    (hexit : step b (.task i (.exit r order)) = some b') :
    (∀ q, Node.bucket q (b'.shards i).worker.table.root =
      (Node.bucket q (b.shards i).worker.table.root).filter (·.connId ≠ c.state.id)) ∧
    ∀ bs b'', run step b' bs = some b'' → (b''.shards i).worker.ids.Nodup →
      ∀ q, ∀ s ∈ Node.bucket q (b''.shards i).worker.table.root, s.connId ≠ c.state.id := by
  have hr : (b.shards i).worker.book.ids[r]? = some c.state.id := by
    simp [Worker.ids_book, Worker.ids, hc]
  have hmirrors : ∀ sid, (b.shards i).worker.book.Mirrors r sid := fun sid =>
    mirrors_book hrun (hsids.mono fun b a h => by rw [h]; simp) hdistinct
  have hbook : (b'.shards i).worker.book = (b.shards i).worker.book.apply (.close r) := by
    rw [book_step hexit i, Action.bookOp, if_pos rfl, Task.bookOp]
  have hclose : ∀ q, Node.bucket q (b'.shards i).worker.table.root =
      (Node.bucket q (b.shards i).worker.table.root).filter (·.connId ≠ c.state.id) := fun q =>
    (congrFun (congrArg Book.entries hbook) q).trans (Book.entries_close hmirrors hr q)
  refine ⟨hclose, fun bs b'' hrest hdistinct' q s hs hid => ?_⟩
  have hfinished : (b'.shards i).worker.Finished r := by
    obtain ⟨-, s', hs', rfl⟩ := step_eq_some hexit
    obtain ⟨c', hc', -, -, rfl⟩ := Shard.run_eq_some hs'
    rw [shards_setShard_self]
    simp [Worker.Finished, Worker.cleanup, (List.getElem?_eq_some_iff.mp hc').1]
  have hlacks : (b'.shards i).worker.book.Lacks r s.sid := by
    intro id hid' q' s' hs' hconn
    rw [hbook, Book.getElem?_ids_apply hr _] at hid'
    obtain rfl := Option.some.inj hid'
    have hmem : s' ∈ Node.bucket q' (b'.shards i).worker.table.root := hs'
    rw [hclose q'] at hmem
    exact absurd hconn (of_decide_eq_true (List.mem_filter.mp hmem).2)
  have hsound : (b'.shards i).worker.book.Sound := by
    rw [hbook]
    exact (sound_book hrun i).apply _
  have hr'' : (b''.shards i).worker.book.ids[r]? = some c.state.id := by
    refine run_invariant (I := fun b : Broker n => (b.shards i).worker.book.ids[r]? =
      some c.state.id) (fun b a b' h hstep => ?_) ?_ hrest
    · rw [book_step hstep i]
      exact Book.getElem?_ids_apply h _
    · rw [hbook]
      exact Book.getElem?_ids_apply hr _
  exact lacks_of_finished hrest hsound hfinished hlacks hdistinct' _ hr'' q s hs hid rfl

/-- Two connections, with the same sid and overlapping subjects, and the end of the first. -/
theorem cleanup_removes_all_two_connections :
    let acts : List (Action 1) :=
      [.task 0 (.accept true), .task 0 (.accept true), .task 0 (.greet 0), .task 0 (.greet 1),
        .task 0 (.frame 0 (.sub (ascii "a.*") none (ascii "1"))),
        .task 0 (.frame 1 (.sub (ascii "a.*") (some (ascii "g")) (ascii "1"))),
        .task 0 (.frame 0 (.sub (ascii "a.*") (some (ascii "g")) (ascii "1")))]
    ∃ b b' c, run step (Broker.init 1 1) acts = some b ∧
      (b.shards 0).worker.ids.Nodup ∧ (b.shards 0).worker.conns[0]? = some c ∧
      step b (.task 0 (.exit 0 [⟨ascii "1", ascii "a.*"⟩])) = some b' ∧
      ∀ q, Node.bucket q (b'.shards 0).worker.table.root =
        (Node.bucket q (b.shards 0).worker.table.root).filter (·.connId ≠ c.state.id) := by
  intro acts
  have hsome : ((run step (Broker.init 1 1) acts).bind fun b => (b.shards 0).worker.conns[0]?.bind
      fun c => (step b (.task 0 (.exit 0 [⟨ascii "1", ascii "a.*"⟩]))).map fun _ => ()) =
        some () := by
    decide +kernel
  obtain ⟨b, hrun, hsome⟩ := Option.bind_eq_some_iff.mp hsome
  obtain ⟨c, hc, hsome⟩ := Option.bind_eq_some_iff.mp hsome
  obtain ⟨b', hexit, -⟩ := Option.map_eq_some_iff.mp hsome
  have hdistinct : (b.shards 0).worker.ids.Nodup := by
    rw [← Worker.ids_book, book_run hrun]
    decide +kernel
  have hsids : Meets step (fun b a => b.rebinds 0 0 a = none) (Broker.init 1 1) acts := by
    decide +kernel
  exact ⟨b, b', c, hrun, hdistinct, hc, hexit,
    (cleanup_removes_all hrun hsids hdistinct hc hexit).1⟩

/-- Without that condition the trie keeps entries of a connection that has gone: the second `SUB`
takes over the sid of the first, and the reader ends without knowing of the first one. -/
theorem cleanup_leaves_rebound_sid :
    let acts : List (Action 1) :=
      [.task 0 (.accept true), .task 0 (.greet 0),
        .task 0 (.frame 0 (.sub (ascii "foo") none (ascii "1"))),
        .task 0 (.frame 0 (.sub (ascii "bar") none (ascii "1"))),
        .task 0 (.exit 0 [⟨ascii "1", ascii "bar"⟩])]
    ∃ b, run step (Broker.init 1 1) acts = some b ∧ (b.shards 0).worker.ids = [⟨0⟩] ∧
      Node.bucket [.literal (ascii "foo")] (b.shards 0).worker.table.root =
        [⟨⟨0⟩, ascii "1", none⟩] := by
  intro acts
  have hsome : (run step (Broker.init 1 1) acts).isSome = true := by decide +kernel
  obtain ⟨b, hrun⟩ := Option.isSome_iff_exists.mp hsome
  have hbook := book_run hrun 0
  refine ⟨b, hrun, ?_, ?_⟩
  · rw [← Worker.ids_book, hbook]
    decide +kernel
  · change (b.shards 0).worker.book.entries [.literal (ascii "foo")] = _
    rw [hbook]
    decide +kernel

/-! ## `UNSUB` -/

/-- **`UNSUB` ends a subscription.** If a connection never uses the sid for another subject while it
has one for it, and ids are distinct, then after its `UNSUB` no message with the sid is offered to
it until it has subscribed again. -/
theorem unsub_ends {capacity : ℕ} {as bs : List (Action n)} {b b₁ b₂ : Broker n} {i : Fin n}
    {r : ConnRef} {sid : Bytes} (hrun : run step (Broker.init n capacity) as = some b)
    (hsids : Meets step (fun b a => b.rebinds i r a ≠ some sid) (Broker.init n capacity) as)
    (hunsub : step b (.task i (.frame r (.unsub sid none))) = some b₁)
    (hrest : run step b₁ bs = some b₂) (hdistinct : (b₂.shards i).worker.ids.Nodup)
    (hsub : ∀ subject queueGroup, .task i (.frame r (.sub subject queueGroup sid)) ∈ bs →
      ∃ e, parseSubscriberSubject subject = .error e) :
    ∃ new, (b₂.shards i).worker.offers = (b₁.shards i).worker.offers ++ new ∧ ∀ o ∈ new,
      o.target = r → ∀ subject replyTo payload, o.frame ≠ .msg subject sid replyTo payload := by
  have hbook : (b₁.shards i).worker.book = (b.shards i).worker.book.apply (.unsub r sid) := by
    rw [book_step hunsub i, Action.bookOp, if_pos rfl, Task.bookOp]
  have hmeets : Meets step (fun _ a => ∀ subject queueGroup,
      a = .task i (.frame r (.sub subject queueGroup sid)) → patternOf subject = none) b₁ bs := by
    refine meets_of_forall (fun a ha _ subject queueGroup heq => ?_) b₁
    obtain ⟨e, he⟩ := hsub subject queueGroup (heq ▸ ha)
    rw [patternOf, he]
    rfl
  -- as long as the connection has no entry under the sid, it is offered nothing under it
  refine ((run_invariant_of (I := fun b : Broker n => (b.shards i).worker.book.Sound ∧
    ((b.shards i).worker.book.ids.Nodup → (b.shards i).worker.book.Lacks r sid ∧
      ∃ new, (b.shards i).worker.offers = (b₁.shards i).worker.offers ++ new ∧ ∀ o ∈ new,
        o.target = r → ∀ subject replyTo payload, o.frame ≠ .msg subject sid replyTo payload))
    ?_ ?_ hmeets hrest).2 (by rwa [Worker.ids_book])).2
  · rintro b a b' ⟨hsound, hlacks⟩ hsub hstep
    obtain ⟨-, -, new', hnew', haddressed⟩ := grows_step hstep i
    rw [book_step hstep i]
    refine ⟨hsound.apply _, fun hdistinct => ?_⟩
    obtain ⟨hlacks, new, hnew, hoffers⟩ := hlacks (Book.nodup_ids_of_apply hdistinct)
    refine ⟨hlacks.apply hsound hdistinct fun subject queueGroup hop =>
      hsub subject queueGroup (eq_of_bookOp_eq_sub hop), new ++ new',
      by rw [hnew', hnew, List.append_assoc], fun o ho htarget subject replyTo payload hframe => ?_⟩
    rcases List.mem_append.mp ho with ho | ho
    · exact hoffers o ho htarget subject replyTo payload hframe
    · obtain ⟨q, s, hs, hsid, hreg⟩ := haddressed o ho subject sid replyTo payload hframe
      rw [htarget] at hreg
      exact hlacks s.connId (hsound.registered _ _ hreg) q s hs rfl hsid
  · rw [hbook]
    refine ⟨(sound_book hrun i).apply _, fun hdistinct => ⟨?_, [], by simp, by simp⟩⟩
    refine (mirrors_book hrun hsids ?_).lacks_unsub
    rw [← Worker.ids_book]
    exact Book.nodup_ids_of_apply hdistinct

/-- A connection ends one of two subscriptions, and a publication follows. -/
theorem unsub_ends_one_of_two :
    let acts : List (Action 1) :=
      [.task 0 (.accept true), .task 0 (.greet 0),
        .task 0 (.frame 0 (.sub (ascii "foo") none (ascii "1"))),
        .task 0 (.frame 0 (.sub (ascii "foo") none (ascii "2")))]
    ∃ b b₁ b₂, run step (Broker.init 1 1) acts = some b ∧
      step b (.task 0 (.frame 0 (.unsub (ascii "1") none))) = some b₁ ∧
      run step b₁ [.task 0 (.frame 0 (.pub (ascii "foo") none []))] = some b₂ ∧
      ∃ new, (b₂.shards 0).worker.offers = (b₁.shards 0).worker.offers ++ new ∧ ∀ o ∈ new,
        o.target = 0 → ∀ subject replyTo payload,
          o.frame ≠ .msg subject (ascii "1") replyTo payload := by
  intro acts
  have hsome : ((run step (Broker.init 1 1) acts).bind fun b =>
      (step b (.task 0 (.frame 0 (.unsub (ascii "1") none)))).bind fun b₁ =>
        (run step b₁ [.task 0 (.frame 0 (.pub (ascii "foo") none []))]).map fun _ => ()) =
      some () := by
    decide +kernel
  obtain ⟨b, hrun, hsome⟩ := Option.bind_eq_some_iff.mp hsome
  obtain ⟨b₁, hunsub, hsome⟩ := Option.bind_eq_some_iff.mp hsome
  obtain ⟨b₂, hrest, -⟩ := Option.map_eq_some_iff.mp hsome
  have hsids : Meets step (fun b a => b.rebinds 0 0 a ≠ some (ascii "1")) (Broker.init 1 1)
      acts := by
    decide +kernel
  have hdistinct : (b₂.shards 0).worker.ids.Nodup := by
    rw [← Worker.ids_book, book_run (run_append_eq_some.mpr ⟨b, hrun,
      run_cons_eq_some.mpr ⟨b₁, hunsub, hrest⟩⟩)]
    decide +kernel
  exact ⟨b, b₁, b₂, hrun, hunsub, hrest,
    unsub_ends hrun hsids hunsub hrest hdistinct (by simp)⟩

/-- Without that condition messages still arrive after the `UNSUB`: the second `SUB` takes over the
sid of the first, and the `UNSUB` ends the second one only. -/
theorem unsub_leaves_rebound_sid :
    let acts : List (Action 1) :=
      [.task 0 (.accept true), .task 0 (.greet 0),
        .task 0 (.frame 0 (.sub (ascii "foo") none (ascii "1"))),
        .task 0 (.frame 0 (.sub (ascii "bar") none (ascii "1"))),
        .task 0 (.frame 0 (.unsub (ascii "1") none))]
    ∃ b b' o, run step (Broker.init 1 1) acts = some b ∧
      step b (.task 0 (.frame 0 (.pub (ascii "foo") none []))) = some b' ∧
      (b'.shards 0).worker.offers = (b.shards 0).worker.offers ++ [o] ∧ o.target = 0 ∧
      o.frame = .msg (ascii "foo") (ascii "1") none [] ∧ o.outcome = .ok := by
  intro acts
  have hsome : ((run step (Broker.init 1 1) acts).bind fun b =>
      (step b (.task 0 (.frame 0 (.pub (ascii "foo") none [])))).map fun _ =>
        decide (bytesTo 0 (b.shards 0).worker.offers ≤ 4096)) = some true := by
    decide +kernel
  obtain ⟨b, hrun, hsome⟩ := Option.bind_eq_some_iff.mp hsome
  obtain ⟨b', hpub, hbytes⟩ := Option.map_eq_some_iff.mp hsome
  have hmatching : (b.shards 0).worker.table.matching [ascii "foo"] = [⟨⟨0⟩, ascii "1", none⟩] := by
    rw [matching_after hrun]
    decide +kernel
  have hlookup : (b.shards 0).worker.lookup ⟨0⟩ = some 0 := by
    rw [lookup_after hrun]
    decide +kernel
  have hconns : 0 < (b.shards 0).worker.conns.length := by
    rw [length_conns_after hrun]
    decide +kernel
  -- so the dispatch makes one offer, to the connection that has ended the subscription
  have hparse : parsePublisherSubject (ascii "foo") = .ok [ascii "foo"] := rfl
  obtain ⟨w', hdispatch⟩ :
      ∃ w', (b.shards 0).worker.dispatchLocal ⟨ascii "foo", none, []⟩ = .ok w' :=
    Worker.dispatchLocal_ok hparse _
  obtain ⟨-, haccepted⟩ := single_dispatch_accepted hrun (by decide) hconns
    ⟨ascii "foo", none, []⟩ hparse hmatching hlookup (by decide +kernel)
    ((Nat.add_le_add_right (of_decide_eq_true hbytes) _).trans (by decide +kernel))
  obtain ⟨o, hoffers, htarget, hframe, -, hok⟩ := haccepted w' hdispatch
  refine ⟨b, b', o, hrun, hpub, ?_, htarget, hframe, hok⟩
  rw [worker_step_pub hpub (Nat.zero_le _) hdispatch, hoffers]

end Aulon.Server
