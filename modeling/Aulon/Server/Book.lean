import Aulon.Server.Steps

/-!
# The book of a worker

A subscription is kept twice: the trie of the worker has an entry under its pattern, and the reader
of the connection has its subject under the sid. `Book` is what both come to, with the buckets of
the trie and the maps of the readers as plain functions. Every action of the broker is one `BookOp`
on the book of each shard (`book_step`), and the invariants are proved of books.

* `Book.apply` — the operations.
* `book_step`, `book_run` — the broker acts on the books.
* `Book.Sound` — ids are registered for connections that have them, and so are entries.
* `Book.Mirrors` — the entries of a connection under a sid are those its reader knows of. It is kept
  by every operation that does not take the sid over from another subject (`Book.rebinds`).
* `Book.Lacks` — there are none; this is kept by all but a `SUB`.
-/

namespace Aulon.Server

open Aulon.Lib Aulon.Core Aulon.Proto

variable {n : ℕ}

/-! ## The book of a worker -/

/-- The pattern of a subject, if it is one that can be subscribed to. -/
def patternOf (subject : Bytes) : Option (List Token) := (parseSubscriberSubject subject).toOption

/-- The subscriptions of a worker. -/
structure Book where
  /-- The entries under a pattern. -/
  entries : List Token → List Sub
  /-- The id of the next connection. -/
  nextId : UInt32
  /-- The connection registered for an id. -/
  registered : ConnectionId → Option ConnRef
  /-- The id of every connection, and the subjects its reader has under its sids. -/
  readers : List (ConnectionId × (Bytes → Option Bytes))

/-- What an action does to the subscriptions. -/
inductive BookOp where
  | keep
  | accept (granted : Bool)
  | sub (r : ConnRef) (subject : Bytes) (queueGroup : Option Bytes) (sid : Bytes)
  | unsub (r : ConnRef) (sid : Bytes)
  | close (r : ConnRef)
deriving DecidableEq

namespace Book

/-- A successful `SUB` of the connection `r`, which has this id and this map. -/
def subscribe (k : Book) (r : ConnRef) (id : ConnectionId) (subjects : Bytes → Option Bytes)
    (subject : Bytes) (queueGroup : Option Bytes) (sid : Bytes) (pattern : List Token) : Book where
  entries := Function.update k.entries pattern (k.entries pattern ++ [⟨id, sid, queueGroup⟩])
  nextId := k.nextId
  registered := k.registered
  readers := k.readers.set r (id, Function.update subjects sid (some subject))

/-- Remove the entries of `id` under the sids that `subjects` has with the pattern they are
stored under. -/
def remove (entries : List Token → List Sub) (id : ConnectionId)
    (subjects : Bytes → Option Bytes) : List Token → List Sub :=
  fun pattern => (entries pattern).filter fun s =>
    !(s.connId = id ∧ (subjects s.sid).bind patternOf = some pattern)

/-- An operation on the book. -/
def apply (k : Book) : BookOp → Book
  | .keep => k
  | .accept false => { k with nextId := k.nextId + 1 }
  | .accept true =>
      { k with
        nextId := k.nextId + 1
        registered := Function.update k.registered ⟨k.nextId⟩ (some k.readers.length)
        readers := k.readers ++ [(⟨k.nextId⟩, fun _ => none)] }
  | .sub r subject queueGroup sid =>
      match k.readers[r]?, patternOf subject with
      | some (id, subjects), some pattern =>
          k.subscribe r id subjects subject queueGroup sid pattern
      | _, _ => k
  | .unsub r sid =>
      match k.readers[r]? with
      | some (id, subjects) =>
          { k with
            entries := remove k.entries id fun sid' => if sid' = sid then subjects sid else none
            readers := k.readers.set r (id, Function.update subjects sid none) }
      | none => k
  | .close r =>
      match k.readers[r]? with
      | some (id, subjects) =>
          { k with
            entries := remove k.entries id subjects
            registered := Function.update k.registered id none }
      | none => k

end Book

/-- The book of a worker. -/
def Worker.book (w : Worker) : Book where
  entries pattern := Node.bucket pattern w.table.root
  nextId := w.nextConnId
  registered := w.lookup
  readers := w.conns.map fun c => (c.state.id, c.subscriptions.lookup)

/-- What a piece of a task does to the book. -/
def Task.bookOp : Task → BookOp
  | .accept granted => .accept granted
  | .frame r (.sub subject queueGroup sid) => .sub r subject queueGroup sid
  | .frame r (.unsub sid none) => .unsub r sid
  | .exit r _ => .close r
  | _ => .keep

/-- What an action of the broker does to the book of shard `i`. -/
def Action.bookOp (i : Fin n) : Action n → BookOp
  | .task j t => if j = i then t.bookOp else .keep
  | _ => .keep

/-! ## The actions of the broker on the book -/

/-- An unsubscription filters, under every pattern, what it is for. -/
lemma bucket_unsubscribe (trie : SubscriptionTrie) (subject : Bytes) (id : ConnectionId)
    (sid : Bytes) (q : List Token) :
    Node.bucket q (trie.unsubscribe subject id sid).1.root =
      (Node.bucket q trie.root).filter fun s => !(s.isOf id sid ∧ patternOf subject = some q) := by
  cases hparse : parseSubscriberSubject subject with
  | error e =>
      have hnone : patternOf subject = none := by rw [patternOf, hparse]; rfl
      rw [unsubscribe_of_error trie hparse]
      simp [hnone]
  | ok pattern =>
      have hsome : patternOf subject = some pattern := by rw [patternOf, hparse]; rfl
      rw [(removesAt_unsubscribe trie hparse id sid).1 q]
      split_ifs with hq
      · simp [hsome, hq]
      · simp [hsome, Ne.symm hq]

/-- The unsubscriptions of a reader that ends, one after the other. -/
lemma bucket_foldl_unsubscribe (order : List (Sigma fun _ : Bytes => Bytes)) (id : ConnectionId)
    (trie : SubscriptionTrie) (q : List Token) :
    Node.bucket q (order.foldl (fun table e => (table.unsubscribe e.2 id e.1).1) trie).root =
      (Node.bucket q trie.root).filter fun s =>
        !(s.connId = id ∧ ∃ e ∈ order, e.1 = s.sid ∧ patternOf e.2 = some q) := by
  induction order generalizing trie with
  | nil => simp
  | cons e order ih =>
      rw [List.foldl_cons, ih, bucket_unsubscribe, List.filter_filter]
      refine List.filter_congr fun s _ => ?_
      rw [Bool.eq_iff_iff]
      simp only [Sub.isOf, List.mem_cons, Bool.and_eq_true, Bool.not_eq_true',
        decide_eq_false_iff_not,
        decide_eq_true_eq, exists_eq_or_imp]
      grind

/-- The books depend on the core alone. -/
lemma Worker.book_of_core {w w' : Worker} (h : w'.core = w.core) : w'.book = w.book := by
  have hreaders : ∀ w : Worker, w.conns.map (fun c => (c.state.id, c.subscriptions.lookup)) =
      (w.conns.map Connection.core).map fun c => (c.1, c.2.1.lookup) := by
    intro w
    simp [Connection.core]
  unfold Worker.book
  rw [hreaders w', hreaders w, conns_of_core h, table_of_core h]
  congr 1
  · exact congrArg (·.2.2.1) h
  · exact funext fun id => lookup_of_core h id

/-- Setting an entry to what it is changes nothing. -/
lemma set_of_getElem? {α : Type*} {l : List α} {j : ℕ} {a : α} (h : l[j]? = some a) :
    l.set j a = l := by
  obtain ⟨hlt, rfl⟩ := List.getElem?_eq_some_iff.mp h
  exact List.set_getElem_self hlt

namespace Worker

variable {w : Worker} {r : ConnRef} {c : Connection}

/-- The books have the map of the connection's reader. -/
lemma readers_book (hc : w.conns[r]? = some c) :
    w.book.readers[r]? = some (c.state.id, c.subscriptions.lookup) := by
  simp [book, hc]

/-- An accept that is granted, in the books. -/
lemma book_accept (w : Worker) : (w.accept true).book = w.book.apply (.accept true) := by
  have hlookup : (w.connections.insert ⟨w.nextConnId⟩ w.conns.length).lookup =
      Function.update w.lookup ⟨w.nextConnId⟩ (some w.conns.length) := by
    funext id
    rcases eq_or_ne id ⟨w.nextConnId⟩ with rfl | hid
    · rw [Function.update_self, AList.lookup_insert]
    · rw [Function.update_of_ne hid, AList.lookup_insert_ne hid, lookup]
  have hempty : (∅ : AList fun _ : Bytes => Bytes).lookup = fun _ => none :=
    funext fun sid => AList.lookup_empty sid
  simp only [book, accept, nextId, Book.apply, if_true, List.map_append, List.map_cons,
    List.map_nil,
    List.length_map, hempty]
  congr 1

/-- Changing a connection without changing its id or its map. -/
lemma book_set {c' : Connection} (hc : w.conns[r]? = some c) (hid : c'.state.id = c.state.id)
    (hsubs : c'.subscriptions = c.subscriptions) :
    ({ w with conns := w.conns.set r c' } : Worker).book = w.book := by
  have hreaders := readers_book hc
  simp only [book] at hreaders ⊢
  rw [List.map_set, hid, hsubs]
  congr 1
  exact set_of_getElem? hreaders

/-- An error that is sent leaves the books. -/
@[simp] lemma book_emitErrTo (w : Worker) (r : ConnRef) (msg : Bytes) :
    (w.emitErrTo r msg).book = w.book :=
  book_of_core (core_emitErrTo w r msg)

/-- A `SUB`, in the books. -/
lemma book_handleSub (hc : w.conns[r]? = some c) (subject : Bytes) (queueGroup : Option Bytes)
    (sid : Bytes) : (w.handleSub r c subject queueGroup sid).book =
      w.book.apply (.sub r subject queueGroup sid) := by
  unfold handleSub
  cases hsub : w.table.subscribe subject ⟨c.state.id, sid, queueGroup⟩ with
  | error e =>
      have hnone : patternOf subject = none := by
        cases hparse : parseSubscriberSubject subject with
        | error e' => rw [patternOf, hparse]; rfl
        | ok pattern => rw [SubscriptionTrie.subscribe, hparse] at hsub; cases hsub
      simp only [Book.apply, hnone, readers_book hc]
      exact book_emitErrTo w r (subjectErrorText e)
  | ok table =>
      obtain ⟨pattern, hparse, hbucket⟩ := bucket_subscribe hsub
      have hsome : patternOf subject = some pattern := by rw [patternOf, hparse]; rfl
      simp only [Book.apply, hsome, readers_book hc]
      simp only [book, Book.subscribe, List.map_set]
      congr 1
      · funext q
        rw [hbucket q, Function.update_apply]
        split_ifs with hq
        · rw [hq]
        · rfl
      · congr 2
        funext sid'
        rcases eq_or_ne sid' sid with rfl | hne
        · rw [AList.lookup_insert, Function.update_self]
        · rw [AList.lookup_insert_ne hne, Function.update_of_ne hne]

/-- An `UNSUB` without a limit, in the books. -/
lemma book_handleUnsub (hc : w.conns[r]? = some c) (sid : Bytes) :
    (w.handleUnsub r c sid none).book = w.book.apply (.unsub r sid) := by
  have hreaders := readers_book hc
  simp only [Book.apply, hreaders, handleUnsub, Option.isSome_none, Bool.false_eq_true, if_false]
  cases hlookup : c.subscriptions.lookup sid with
  | none =>
      simp only [book] at hreaders ⊢
      congr 1
      · funext q
        simp [Book.remove]
      · have hsame : Function.update c.subscriptions.lookup sid none = c.subscriptions.lookup := by
          rw [← hlookup, Function.update_eq_self]
        rw [hsame, set_of_getElem? hreaders]
  | some subject =>
      simp only [book, List.map_set]
      congr 1
      · funext q
        rw [bucket_unsubscribe]
        refine List.filter_congr fun s _ => ?_
        by_cases hsid : s.sid = sid
        · simp [Sub.isOf, hsid]
        · simp [Sub.isOf, hsid]
      · congr 2
        funext sid'
        rcases eq_or_ne sid' sid with rfl | hne
        · rw [AList.lookup_erase, Function.update_self]
        · rw [AList.lookup_erase_ne hne, Function.update_of_ne hne]

/-- The end of a reader, in the books. -/
lemma book_cleanup (hc : w.conns[r]? = some c) {order : List (Sigma fun _ : Bytes => Bytes)}
    (horder : order.Perm c.subscriptions.entries) :
    (w.cleanup r c order).book = w.book.apply (.close r) := by
  have hset : Worker.book { w with
      conns := w.conns.set r
        { c with state := c.state.markClose .peerClosed, reader := .finished } } = w.book :=
    book_set hc (by simp) rfl
  simp only [Book.apply, readers_book hc]
  simp only [book] at hset ⊢
  simp only [cleanup]
  congr 1
  · funext q
    rw [bucket_foldl_unsubscribe]
    refine List.filter_congr fun s _ => ?_
    rw [Bool.eq_iff_iff]
    simp only [Bool.not_eq_true', decide_eq_false_iff_not, not_and, not_exists,
      Option.bind_eq_some_iff]
    refine forall_congr' fun _ => ⟨?_, ?_⟩
    · intro h subject hlookup hpattern
      exact h ⟨s.sid, subject⟩ (horder.mem_iff.mpr (AList.mem_lookup_iff.mp hlookup)) rfl hpattern
    · rintro h ⟨sid, subject⟩ hmem rfl hpattern
      exact h subject (AList.mem_lookup_iff.mpr (horder.mem_iff.mp hmem)) hpattern
  · funext id
    rcases eq_or_ne id c.state.id with rfl | hid
    · rw [lookup, AList.lookup_erase, Function.update_self]
    · rw [lookup, AList.lookup_erase_ne hid, Function.update_of_ne hid, lookup]
  · exact congrArg Book.readers hset

/-- The books do not tell what a reader does. -/
lemma book_setReader (w : Worker) (r : ConnRef) (status : ReaderStatus) :
    (w.setReader r status).book = w.book := by
  have hreaders : (w.setReader r status).conns.map (fun c => (c.state.id, c.subscriptions.lookup)) =
      w.conns.map fun c => (c.state.id, c.subscriptions.lookup) := by
    apply List.ext_getElem?
    intro j
    rw [setReader, List.getElem?_map, List.getElem?_map, List.getElem?_modify]
    cases w.conns[j]? with
    | none => rfl
    | some c =>
        dsimp only [Option.map_some, Option.map_eq_map]
        split_ifs <;> rfl
  simp only [book, hreaders]
  rfl

/-- The greeting leaves the books. -/
lemma book_greet (w : Worker) (r : ConnRef) : (w.greet r).book = w.book := by
  rw [greet_eq, book_setReader]
  exact book_of_core (extends_offer w r none (.info serverInfoJson)
    (encode (.info serverInfoJson))).core

/-- A command of a client, in the books. -/
lemma book_handleCommand (hc : w.conns[r]? = some c) (f : Frame) :
    (w.handleCommand r c f).book = w.book.apply (Task.frame r f).bookOp := by
  have hunexpected := book_emitErrTo w r (ascii "unexpected verb")
  cases f with
  | connect options | pong | pub subject replyTo payload => rfl
  | ping => exact book_of_core (extends_handlePing w r).core
  | sub subject queueGroup sid => exact book_handleSub hc subject queueGroup sid
  | unsub sid maxMsgs =>
      cases maxMsgs with
      | none => exact book_handleUnsub hc sid
      | some m =>
          rw [handleCommand, handleUnsub, if_pos (Option.isSome_some), book_emitErrTo]
          rfl
  | msg subject sid replyTo payload | info options | ok | err message => exact hunexpected

end Worker

/-- Only a `SUB` frame subscribes. -/
lemma eq_of_bookOp_eq_sub {i : Fin n} {a : Action n} {r : ConnRef}
    {subject sid : Bytes} {queueGroup : Option Bytes}
    (h : a.bookOp i = .sub r subject queueGroup sid) :
    a = .task i (.frame r (.sub subject queueGroup sid)) := by
  cases a with
  | task j t =>
      rw [Action.bookOp] at h
      split_ifs at h with hj
      cases t with
      | frame r' f =>
          cases f with
          | sub subject' queueGroup' sid' => cases h; rw [hj]
          | unsub sid' maxMsgs => cases maxMsgs <;> cases h
          | _ => cases h
      | _ => cases h
  | _ => cases h

/-! ## The broker acts on the books -/

/-- A piece of a task does to the book what `Task.bookOp` says. -/
lemma Shard.book_run {s s' : Shard n} {i : Fin n} {t : Task} (h : s.run i t = some s') :
    s'.worker.book = s.worker.book.apply t.bookOp := by
  have hrun := Shard.run_eq_some h
  cases t with
  | accept granted =>
      rw [hrun]
      cases granted with
      | true => exact s.worker.book_accept
      | false => rfl
  | greet r =>
      obtain ⟨c, -, -, rfl⟩ := hrun
      dsimp only
      rw [Worker.book_greet]
      rfl
  | reject r =>
      obtain ⟨c, hc, -, rfl⟩ := hrun
      exact Worker.book_set hc (by simp) rfl
  | send r buf =>
      obtain ⟨c, hc, rfl⟩ := hrun
      exact Worker.book_set hc (by simp) rfl
  | exit r order =>
      obtain ⟨c, hc, -, horder, rfl⟩ := hrun
      exact Worker.book_cleanup hc horder
  | frame r f =>
      obtain ⟨c, hc, -, rfl⟩ := hrun
      rcases s.worker_handleFrame i r c f with ⟨⟨subject, replyTo, payload, rfl⟩, hext⟩ | hcommand
      · exact Worker.book_of_core hext.core
      · rw [hcommand]
        exact Worker.book_handleCommand hc f

/-- **The broker acts on the books.** Every action does to the book of every shard what
`Action.bookOp` says. -/
theorem book_step {b b' : Broker n} {a : Action n} (hstep : step b a = some b') (i : Fin n) :
    (b'.shards i).worker.book = (b.shards i).worker.book.apply (a.bookOp i) := by
  rcases step_cases hstep i with ⟨t, rfl, hs⟩ | ⟨hne, hext⟩
  · rw [Action.bookOp, if_pos rfl]
    exact Shard.book_run hs
  · have hkeep : a.bookOp i = .keep := by
      cases a with
      | task j t =>
          rw [Action.bookOp, if_neg]
          rintro rfl
          exact hne t rfl
      | _ => rfl
    rw [hkeep]
    exact Worker.book_of_core hext.core

/-! ## Invariants of the book -/

namespace Book

/-- The ids of the connections. -/
def ids (k : Book) : List ConnectionId := k.readers.map (·.1)

/-- Ids are registered for connections that have them, and the entries belong to connections. -/
structure Sound (k : Book) : Prop where
  registered : ∀ id r, k.registered id = some r → k.ids[r]? = some id
  owned : ∀ q, ∀ s ∈ k.entries q, s.connId ∈ k.ids

/-- The entries of connection `r` under `sid` are those its reader knows of. -/
def Mirrors (k : Book) (r : ConnRef) (sid : Bytes) : Prop :=
  ∀ id subjects, k.readers[r]? = some (id, subjects) → ∀ q, ∀ s ∈ k.entries q,
    s.connId = id → s.sid = sid → (subjects sid).bind patternOf = some q

/-- Connection `r` has no entry under `sid`. -/
def Lacks (k : Book) (r : ConnRef) (sid : Bytes) : Prop :=
  ∀ id, k.ids[r]? = some id → ∀ q, ∀ s ∈ k.entries q, s.connId = id → s.sid ≠ sid

/-- The sid that a `SUB` of connection `r` takes over from another subject. -/
def rebinds (k : Book) (r : ConnRef) : BookOp → Option Bytes
  | .sub r' subject _ sid =>
      match k.readers[r]? with
      | some (_, subjects) =>
          if r' = r ∧ (patternOf subject).isSome ∧ (subjects sid).any (· ≠ subject) then some sid
          else none
      | none => none
  | _ => none

variable {k : Book} {op : BookOp} {r : ConnRef} {id : ConnectionId} {sid : Bytes}

/-- A connection with a reader has an id. -/
lemma ids_of_readers {subjects : Bytes → Option Bytes} (h : k.readers[r]? = some (id, subjects)) :
    k.ids[r]? = some id := by
  simp [ids, h]

/-- Ids are only ever added. -/
lemma ids_apply (k : Book) (op : BookOp) : (k.apply op).ids =
    k.ids ++ match op with | .accept true => [⟨k.nextId⟩] | _ => [] := by
  have hset : ∀ {r id} {subjects subjects' : Bytes → Option Bytes},
      k.readers[r]? = some (id, subjects) →
        (k.readers.set r (id, subjects')).map (·.1) = k.ids := by
    intro r id subjects subjects' h
    rw [List.map_set]
    exact set_of_getElem? (ids_of_readers h)
  cases op with
  | keep => exact (List.append_nil _).symm
  | accept granted =>
      cases granted with
      | true => exact List.map_append
      | false => exact (List.append_nil _).symm
  | sub r subject queueGroup sid =>
      rw [apply, List.append_nil]
      split
      · exact hset (by assumption)
      · rfl
  | unsub r sid =>
      rw [apply, List.append_nil]
      split
      · exact hset (by assumption)
      · rfl
  | close r =>
      rw [apply, List.append_nil]
      split <;> rfl

/-- Ids that are distinct after an operation were so before. -/
lemma nodup_ids_of_apply (h : (k.apply op).ids.Nodup) : k.ids.Nodup := by
  rw [ids_apply] at h
  exact (List.nodup_append.mp h).1

/-- A connection keeps its id. -/
lemma getElem?_ids_apply (h : k.ids[r]? = some id) (op : BookOp) :
    (k.apply op).ids[r]? = some id := by
  rw [ids_apply, List.getElem?_append_left (List.getElem?_eq_some_iff.mp h).1, h]

/-- An entry was there before, or a `SUB` has added it. -/
lemma mem_entries_apply {q : List Token} {s : Sub} (h : s ∈ (k.apply op).entries q) :
    s ∈ k.entries q ∨ ∃ r subject queueGroup sid id, op = .sub r subject queueGroup sid ∧
      k.ids[r]? = some id ∧ patternOf subject = some q ∧ s = ⟨id, sid, queueGroup⟩ := by
  cases op with
  | keep => exact Or.inl h
  | accept granted => cases granted <;> exact Or.inl h
  | sub r subject queueGroup sid =>
      rw [apply] at h
      split at h
      · rename_i id subjects pattern hreader hpattern
        simp only [subscribe, Function.update_apply] at h
        split_ifs at h with hq
        · rcases List.mem_append.mp h with hs | hs
          · exact Or.inl (hq ▸ hs)
          · exact Or.inr ⟨r, subject, queueGroup, sid, id, rfl, ids_of_readers hreader,
              hq ▸ hpattern, List.mem_singleton.mp hs⟩
        · exact Or.inl h
      · exact Or.inl h
  | unsub r sid =>
      rw [apply] at h
      split at h
      · exact Or.inl (List.mem_filter.mp h).1
      · exact Or.inl h
  | close r =>
      rw [apply] at h
      split at h
      · exact Or.inl (List.mem_filter.mp h).1
      · exact Or.inl h

/-- A registration was there before, or it is that of a connection just accepted. -/
lemma registered_apply (h : (k.apply op).registered id = some r) :
    k.registered id = some r ∨ op = .accept true ∧ id = ⟨k.nextId⟩ ∧ r = k.ids.length := by
  cases op with
  | keep => exact Or.inl h
  | accept granted =>
      cases granted with
      | false => exact Or.inl h
      | true =>
          simp only [apply, Function.update_apply] at h
          split_ifs at h with hid
          · exact Or.inr ⟨rfl, hid, by simpa [ids] using h.symm⟩
          · exact Or.inl h
  | sub r' subject queueGroup sid =>
      rw [apply] at h
      split at h <;> exact Or.inl h
  | unsub r' sid =>
      rw [apply] at h
      split at h <;> exact Or.inl h
  | close r' =>
      rw [apply] at h
      split at h
      · simp only [Function.update_apply] at h
        split_ifs at h
        exact Or.inl h
      · exact Or.inl h

/-- An operation keeps the books sound. -/
lemma Sound.apply (h : k.Sound) (op : BookOp) : (k.apply op).Sound := by
  refine ⟨fun id r hreg => ?_, fun q s hs => ?_⟩
  · rcases registered_apply hreg with hreg | ⟨rfl, rfl, rfl⟩
    · exact getElem?_ids_apply (h.registered id r hreg) op
    · rw [ids_apply]
      exact List.getElem?_concat_length
  · rw [ids_apply]
    apply List.mem_append_left
    rcases mem_entries_apply hs with hs | ⟨r, _, _, _, id, -, hid, -, rfl⟩
    · exact h.owned q s hs
    · exact List.mem_of_getElem? hid

/-- With distinct ids, a connection whose id was in use before was there before. -/
lemma getElem?_ids_of_mem (hdistinct : (k.apply op).ids.Nodup)
    (hr : (k.apply op).ids[r]? = some id) (hmem : id ∈ k.ids) : k.ids[r]? = some id := by
  obtain ⟨j, hj⟩ := List.mem_iff_getElem?.mp hmem
  have hj' := getElem?_ids_apply hj op
  have hlt := (List.getElem?_eq_some_iff.mp hr).1
  rwa [(List.getElem?_inj hlt hdistinct).mp (hr.trans hj'.symm)]

/-- With distinct ids, an entry of a connection was there before, and so was the connection, or
the connection has just subscribed. -/
lemma mem_entries_apply_of_distinct (hsound : k.Sound) (hdistinct : (k.apply op).ids.Nodup)
    (hr : (k.apply op).ids[r]? = some id) {q : List Token} {s : Sub}
    (hs : s ∈ (k.apply op).entries q) (hid : s.connId = id) : k.ids[r]? = some id ∧
      (s ∈ k.entries q ∨ ∃ subject queueGroup, op = .sub r subject queueGroup s.sid ∧
        patternOf subject = some q) := by
  rcases mem_entries_apply hs with hold | ⟨r', subject, queueGroup, sid, id', rfl, hr', hq, rfl⟩
  · exact ⟨getElem?_ids_of_mem hdistinct hr (hid ▸ hsound.owned q s hold), Or.inl hold⟩
  · obtain rfl : id' = id := hid
    have hlt := (List.getElem?_eq_some_iff.mp hr).1
    obtain rfl := (List.getElem?_inj hlt hdistinct).mp (hr.trans (getElem?_ids_apply hr' _).symm)
    exact ⟨hr', Or.inr ⟨subject, queueGroup, rfl, hq⟩⟩

/-- What an operation does to the map of the reader of a connection. -/
def rebind (r : ConnRef) (subjects : Bytes → Option Bytes) : BookOp → Bytes → Option Bytes
  | .sub r' subject _ sid =>
      if r' = r ∧ (patternOf subject).isSome then Function.update subjects sid (some subject)
      else subjects
  | .unsub r' sid => if r' = r then Function.update subjects sid none else subjects
  | _ => subjects

/-- The map of a reader after an operation. -/
lemma readers_apply {subjects : Bytes → Option Bytes} (h : k.readers[r]? = some (id, subjects))
    (op : BookOp) : (k.apply op).readers[r]? = some (id, rebind r subjects op) := by
  have hlt := (List.getElem?_eq_some_iff.mp h).1
  cases op with
  | keep => exact h
  | accept granted =>
      cases granted with
      | true => exact (List.getElem?_append_left hlt).trans h
      | false => exact h
  | sub r' subject queueGroup sid =>
      rw [apply, rebind]
      rcases eq_or_ne r' r with rfl | hr
      · rw [h]
        cases hq : patternOf subject with
        | none => rw [if_neg (by simp), h]
        | some q =>
            rw [if_pos (by simp)]
            exact List.getElem?_set_self hlt
      · rw [if_neg fun hc => hr hc.1]
        split
        · rw [subscribe, List.getElem?_set_ne hr, h]
        · exact h
  | unsub r' sid =>
      rw [apply, rebind]
      rcases eq_or_ne r' r with rfl | hr
      · rw [h, if_pos rfl, List.getElem?_set_self hlt]
      · rw [if_neg hr]
        split
        · rw [List.getElem?_set_ne hr, h]
        · exact h
  | close r' =>
      rw [apply]
      split <;> exact h

/-- An operation that does not take the sid over from another subject keeps the reader's map and
the entries together. -/
lemma Mirrors.apply (h : k.Mirrors r sid) (hsound : k.Sound)
    (hdistinct : (k.apply op).ids.Nodup) (hop : k.rebinds r op ≠ some sid) :
    (k.apply op).Mirrors r sid := by
  intro id subjects' hreader q s hs hid hsid
  obtain ⟨hr, hcases⟩ :=
    mem_entries_apply_of_distinct hsound hdistinct (ids_of_readers hreader) hs hid
  obtain ⟨⟨id', subjects⟩, hold, rfl⟩ : ∃ rd, k.readers[r]? = some rd ∧ rd.1 = id := by
    simpa [ids] using hr
  have hmap := readers_apply hold op
  rw [hreader] at hmap
  obtain rfl := (Prod.mk.inj (Option.some.inj hmap)).2
  rcases hcases with hs' | ⟨subject, queueGroup, rfl, hq⟩
  · have hbound := h id' subjects hold q s hs' hid hsid
    cases op with
    | keep => exact hbound
    | accept granted => exact hbound
    | close r' => exact hbound
    | sub r' subject queueGroup sid' =>
        rw [rebind]
        split_ifs with hsub
        · obtain ⟨rfl, hvalid⟩ := hsub
          rcases eq_or_ne sid' sid with rfl | hne
          · obtain ⟨old, hold', hpattern⟩ := Option.bind_eq_some_iff.mp hbound
            have hsame : old = subject := by
              by_contra hdiff
              exact hop (by simp [rebinds, hold, hvalid, hold', hdiff])
            rw [Function.update_self, Option.bind_some, ← hsame, hpattern]
          · rw [Function.update_of_ne hne.symm]
            exact hbound
        · exact hbound
    | unsub r' sid' =>
        rw [rebind]
        split_ifs with hr'
        · subst hr'
          rcases eq_or_ne sid' sid with rfl | hne
          · -- the entry has just been removed
            simp only [Book.apply, hold, remove, List.mem_filter] at hs
            simp [hid, hsid, hbound] at hs
          · rw [Function.update_of_ne hne.symm]
            exact hbound
        · exact hbound
  · subst hsid
    rw [rebind, if_pos ⟨rfl, by simp [hq]⟩, Function.update_self]
    exact hq

/-- A connection without an entry under a sid gets one only by a `SUB`. -/
lemma Lacks.apply (h : k.Lacks r sid) (hsound : k.Sound) (hdistinct : (k.apply op).ids.Nodup)
    (hop : ∀ subject queueGroup, op = .sub r subject queueGroup sid → patternOf subject = none) :
    (k.apply op).Lacks r sid := by
  rintro id hr q s hs hid rfl
  obtain ⟨hr, hs | ⟨subject, queueGroup, rfl, hq⟩⟩ :=
    mem_entries_apply_of_distinct hsound hdistinct hr hs hid
  · exact h id hr q s hs hid rfl
  · rw [hop subject queueGroup rfl] at hq
    cases hq

/-- After an `UNSUB` the connection has no entry under the sid. -/
lemma Mirrors.lacks_unsub (h : k.Mirrors r sid) : (k.apply (.unsub r sid)).Lacks r sid := by
  rintro id hr q s hs hid hsid
  rw [ids_apply, List.append_nil] at hr
  obtain ⟨⟨id', subjects⟩, hreader, rfl⟩ : ∃ rd, k.readers[r]? = some rd ∧ rd.1 = id := by
    simpa [ids] using hr
  simp only [Book.apply, hreader, remove, List.mem_filter] at hs
  have hbound := h id' subjects hreader q s hs.1 hid hsid
  simp [hid, hsid, hbound] at hs

/-- After the end of the reader the connection has no entry, and the others have theirs. -/
lemma entries_close (h : ∀ sid, k.Mirrors r sid) (hr : k.ids[r]? = some id) (q : List Token) :
    (k.apply (.close r)).entries q = (k.entries q).filter (·.connId ≠ id) := by
  obtain ⟨⟨id', subjects⟩, hreader, rfl⟩ : ∃ rd, k.readers[r]? = some rd ∧ rd.1 = id := by
    simpa [ids] using hr
  simp only [Book.apply, hreader, remove]
  refine List.filter_congr fun s hs => ?_
  by_cases hid : s.connId = id'
  · simp [hid, h s.sid id' subjects hreader q s hs hid rfl]
  · simp [hid]

end Book

/-! ## Whole runs -/

/-- The sid that an action, a `SUB` of connection `r` of shard `i`, takes over from another
subject. -/
def Broker.rebinds (b : Broker n) (i : Fin n) (r : ConnRef) (a : Action n) : Option Bytes :=
  (b.shards i).worker.book.rebinds r (a.bookOp i)

/-- The ids of the connections of a worker. -/
def Worker.ids (w : Worker) : List ConnectionId := w.conns.map (·.state.id)

/-- The ids in the books are those of the worker. -/
@[simp] lemma Worker.ids_book (w : Worker) : w.book.ids = w.ids := by
  simp [Worker.book, Worker.ids, Book.ids]

/-- The book at the start. -/
def Book.empty : Book := ⟨fun _ => [], 0, fun _ => none, []⟩

/-- The book after the actions of a run. -/
def Book.after (i : Fin n) (as : List (Action n)) : Book :=
  as.foldl (fun k a => k.apply (a.bookOp i)) .empty

/-- The books after one more action. -/
lemma Book.after_concat (i : Fin n) (as : List (Action n)) (a : Action n) :
    Book.after i (as ++ [a]) = (Book.after i as).apply (a.bookOp i) := by
  simp [Book.after]

/-- The books are empty at the start. -/
lemma book_init (n capacity : ℕ) (i : Fin n) :
    ((Broker.init n capacity).shards i).worker.book = .empty := by
  change Book.mk _ _ _ _ = Book.mk _ _ _ _
  congr 1
  exact funext fun q => holds_new q

/-- The book of a shard is that of the actions so far. -/
lemma book_run {capacity : ℕ} {as : List (Action n)} {b : Broker n}
    (hrun : run step (Broker.init n capacity) as = some b) (i : Fin n) :
    (b.shards i).worker.book = .after i as := by
  rw [run_view (fun b => (b.shards i).worker.book) (fun k a => k.apply (a.bookOp i))
    (fun b a b' h => book_step h i) hrun, book_init]
  rfl

section after

variable {capacity : ℕ} {as : List (Action n)} {b : Broker n}
  (hrun : run step (Broker.init n capacity) as = some b) (i : Fin n)
include hrun

/-- The trie of a shard matches what its books say. -/
lemma matching_after (tokens : List Bytes) : (b.shards i).worker.table.matching tokens =
    (matchingPatterns tokens).flatMap (Book.after i as).entries := by
  rw [← book_run hrun i]
  rfl

/-- The map of connections of a shard finds what its books say. -/
lemma lookup_after (id : ConnectionId) :
    (b.shards i).worker.lookup id = (Book.after i as).registered id := by
  rw [← book_run hrun i]
  rfl

/-- A shard has as many connections as its books say. -/
lemma length_conns_after :
    (b.shards i).worker.conns.length = (Book.after i as).ids.length := by
  rw [← book_run hrun i, Worker.ids_book, Worker.ids, List.length_map]

end after

/-- The empty books are sound. -/
lemma Book.sound_empty : Book.empty.Sound where
  registered _ _ h := by cases h
  owned _ _ h := absurd h List.not_mem_nil

/-- Every book is sound. -/
lemma sound_book {capacity : ℕ} {as : List (Action n)} {b : Broker n}
    (hrun : run step (Broker.init n capacity) as = some b) (i : Fin n) :
    (b.shards i).worker.book.Sound := by
  refine run_invariant (I := fun b : Broker n => (b.shards i).worker.book.Sound) ?_ ?_ hrun
  · intro b a b' h hstep
    rw [book_step hstep i]
    exact h.apply _
  · rw [book_init]
    exact Book.sound_empty

/-- The reader's map and the entries of a connection under a sid agree after every run in which the
connection never takes the sid over from another subject. -/
lemma mirrors_book {capacity : ℕ} {as : List (Action n)} {b : Broker n} {i : Fin n} {r : ConnRef}
    {sid : Bytes} (hrun : run step (Broker.init n capacity) as = some b)
    (hsids : Meets step (fun b a => b.rebinds i r a ≠ some sid) (Broker.init n capacity) as)
    (hdistinct : (b.shards i).worker.ids.Nodup) : (b.shards i).worker.book.Mirrors r sid := by
  -- distinctness is part of the invariant: ids are never dropped, so it holds all along
  refine (run_invariant_of (I := fun b : Broker n => (b.shards i).worker.book.Sound ∧
    ((b.shards i).worker.book.ids.Nodup → (b.shards i).worker.book.Mirrors r sid))
    ?_ ?_ hsids hrun).2 (by rwa [Worker.ids_book])
  · rintro b a b' ⟨hsound, hmirrors⟩ hsid hstep
    rw [book_step hstep i]
    refine ⟨hsound.apply _, fun hdistinct => ?_⟩
    exact (hmirrors (Book.nodup_ids_of_apply hdistinct)).apply hsound hdistinct hsid
  · rw [book_init]
    exact ⟨Book.sound_empty, fun _ id subjects h => by cases h⟩

end Aulon.Server
