import Aulon.Core.Subjects
import Aulon.Core.TrieNodes

/-!
# Undoing and reordering

The children of a node are a map, so two tries are compared node by node, at every path. Without
dead nodes this is decided by the buckets, since a node is there exactly if some bucket at or
below it is not empty. Two results about the nodes then come down to equations between views.

* `Node.SameNodes` — the same paths lead to nodes, with the same lists.
* `sameNodes_of_bucket` — pruned nodes with the same buckets have the same nodes.
* `SubscriptionTrie.View` — the buckets and the counter, on which the calls act.
* `View.unsubscribe_comm` — on the views, any two removals commute.
* `unsubscribe_undoes_subscribe`, `unsubscribe_order_irrelevant` — the results about tries.
-/

namespace Aulon.Core

open Aulon.Lib

/-! ## The same nodes -/

namespace Node

/-- The same paths lead to nodes, and these have the same lists of subscriptions, in order. -/
def SameNodes (m n : Node) : Prop :=
  ∀ path, (nodeAt path m).map (fun d => (d.exact, d.rest)) =
    (nodeAt path n).map fun d => (d.exact, d.rest)

/-- A node that counts some subscription has it in a bucket. -/
lemma exists_bucket_of_count_pos {node : Node} (h : node.WellFormed) (hpos : 0 < node.count) :
    ∃ q, bucket q node ≠ [] := by
  induction h with
  | @intro node hkeys hchild hstar ihchild ihstar =>
      by_contra hnone
      simp only [not_exists, not_not] at hnone
      have hexact : node.exact = [] := hnone []
      have hrest : node.rest = [] := hnone [.greater]
      have hstar0 : (node.star.getD {}).count = 0 := by
        cases hs : node.star with
        | none => exact count_empty
        | some c =>
            by_contra hc
            obtain ⟨q, hq⟩ := ihstar c hs (Nat.pos_of_ne_zero hc)
            have hbucket := hnone (.star :: q)
            rw [bucket, child, hs] at hbucket
            exact hq hbucket
      have hchildren0 : ∀ l : List (Sigma fun _ : Bytes => Node), (∀ c ∈ l, c ∈ node.children) →
          countChildren l = 0 := by
        intro l hl
        induction l with
        | nil => rw [countChildren]
        | cons c l ih =>
            obtain ⟨key, c⟩ := c
            rw [countChildren, ih fun d hd => hl d (List.mem_cons_of_mem _ hd), add_zero]
            by_contra hc
            have hmem : ⟨key, c⟩ ∈ node.children := hl _ List.mem_cons_self
            obtain ⟨q, hq⟩ := ihchild _ hmem (Nat.pos_of_ne_zero hc)
            have hbucket := hnone (.literal key :: q)
            rw [bucket, child, List.mem_dlookup hkeys hmem] at hbucket
            exact hq hbucket
      rw [count_eq, hexact, hrest, countStar_eq, hstar0,
        hchildren0 node.children fun _ hc => hc] at hpos
      exact absurd hpos (lt_irrefl 0)

/-- In a pruned node a child is there exactly if some bucket below it is not empty. -/
lemma Pruned.child_isSome_iff {node : Node} (h : node.Pruned) (hnode : node.WellFormed)
    {tok : Token} (htok : tok ≠ .greater) :
    (node.child tok).isSome ↔ ∃ q, bucket (tok :: q) node ≠ [] := by
  cases hc : node.child tok with
  | none =>
      simp only [bucket_cons htok, hc, Option.getD_none, bucket_empty, ne_eq, not_true_eq_false,
        exists_false, Option.isSome_none, Bool.false_eq_true]
  | some c =>
      obtain ⟨q, hq⟩ := exists_bucket_of_count_pos (hnode.child hc) (pruned_iff.mp h tok c hc).1
      refine ⟨fun _ => ⟨q, ?_⟩, fun _ => rfl⟩
      rw [bucket_cons htok, hc]
      exact hq

/-- **Pruned nodes with the same buckets have the same nodes.** -/
theorem sameNodes_of_bucket {m n : Node} (hm : m.Pruned) (hn : n.Pruned) (hmwf : m.WellFormed)
    (hnwf : n.WellFormed) (h : ∀ q, bucket q m = bucket q n) : m.SameNodes n := by
  intro path
  induction path generalizing m n with
  | nil =>
      have hexact : m.exact = n.exact := h []
      have hrest : m.rest = n.rest := h [.greater]
      simp only [nodeAt, Option.map_some, hexact, hrest]
  | cons tok path ih =>
      by_cases htok : tok = .greater
      · subst htok
        rfl
      · have hsome : (m.child tok).isSome ↔ (n.child tok).isSome := by
          rw [hm.child_isSome_iff hmwf htok, hn.child_isSome_iff hnwf htok]
          simp only [h]
        rw [nodeAt, nodeAt]
        cases hmc : m.child tok with
        | none =>
            have hnc : n.child tok = none := by
              rw [hmc] at hsome
              simpa using hsome
            rw [hnc]
        | some c =>
            obtain ⟨d, hnd⟩ := Option.isSome_iff_exists.mp (hsome.mp (by rw [hmc]; rfl))
            rw [hnd]
            refine ih (hm.child hmc) (hn.child hnd) (hmwf.child hmc) (hnwf.child hnd) fun q => ?_
            have hq := h (tok :: q)
            rwa [bucket_cons htok, bucket_cons htok, hmc, hnd] at hq

end Node

open Node

/-! ## Views -/

namespace SubscriptionTrie

/-- Two tries agree node by node and in the counter. -/
def Same (trie trie' : SubscriptionTrie) : Prop :=
  trie.root.SameNodes trie'.root ∧ trie.totalSubscriptions = trie'.totalSubscriptions

/-- What the calls see of a trie: a bucket for every pattern, and the counter. -/
structure View where
  buckets : List Token → List Sub
  total : ℕ

/-- The view of a trie. -/
def view (trie : SubscriptionTrie) : View := ⟨(bucket · trie.root), trie.totalSubscriptions⟩

/-- Tries without empty nodes are the same if their views are. -/
lemma same_of_view {trie trie' : SubscriptionTrie} (h : trie.root.Pruned)
    (h' : trie'.root.Pruned) (hview : trie.view = trie'.view) : trie.Same trie' :=
  ⟨sameNodes_of_bucket h h' trie.wellFormed trie'.wellFormed
    (congrFun (congrArg View.buckets hview)), congrArg View.total hview⟩

namespace View

/-- Adding a subscription under a pattern. -/
def add (v : View) (pattern : List Token) (sub : Sub) : View where
  buckets := Function.update v.buckets pattern (v.buckets pattern ++ [sub])
  total := v.total + 1

/-- Removing `(connId, sid)` under a pattern. -/
def remove (v : View) (pattern : List Token) (connId : ConnectionId) (sid : Bytes) : View where
  buckets := Function.update v.buckets pattern
    ((v.buckets pattern).filter fun s => !s.isOf connId sid)
  total := if (v.buckets pattern).any (Sub.isOf connId sid) then v.total - 1 else v.total

/-- Is there something to remove? -/
def has (v : View) (pattern : List Token) (connId : ConnectionId) (sid : Bytes) : Bool :=
  (v.buckets pattern).any (Sub.isOf connId sid)

/-- The call to unsubscribe. -/
def unsubscribe (v : View) (subject : Bytes) (connId : ConnectionId) (sid : Bytes) : View :=
  match parseSubscriberSubject subject with
  | .ok pattern => v.remove pattern connId sid
  | .error _ => v

section remove

variable (v : View) (p p' : List Token) (connId connId' : ConnectionId) (sid sid' : Bytes)

/-- A subscription that is removed is of one connection and `sid` only. -/
lemma isOf_of_ne (hne : (connId, sid) ≠ (connId', sid')) (s : Sub)
    (hof : s.isOf connId sid = true) : s.isOf connId' sid' = false := by
  simp only [Sub.isOf, decide_eq_true_eq] at hof
  obtain ⟨rfl, rfl⟩ := hof
  simpa [Sub.isOf, Prod.ext_iff] using hne

/-- Removing something else leaves what there is to remove. -/
lemma has_remove (hne : (p, connId, sid) ≠ (p', connId', sid')) :
    (v.remove p' connId' sid').has p connId sid = v.has p connId sid := by
  simp only [has, remove]
  by_cases hp : p = p'
  · subst hp
    rw [Function.update_self, List.any_filter]
    congr 1
    funext s
    cases hof : s.isOf connId sid with
    | false => rw [Bool.and_false]
    | true =>
        rw [isOf_of_ne connId connId' sid sid' (fun h => hne (by rw [h])) s hof]
        rfl
  · rw [Function.update_of_ne hp]

/-- The buckets do not depend on the order of two removals. -/
lemma buckets_remove_comm :
    ((v.remove p connId sid).remove p' connId' sid').buckets =
      ((v.remove p' connId' sid').remove p connId sid).buckets := by
  by_cases hp : p = p'
  · subst hp
    simp only [remove, Function.update_self, Function.update_idem, List.filter_filter]
    congr 1
    exact List.filter_congr fun s _ => Bool.and_comm _ _
  · simp only [remove, Function.update_of_ne hp, Function.update_of_ne (Ne.symm hp)]
    exact Function.update_comm hp _ _ _

/-- A removal takes one off the total if the subscription was there. -/
lemma total_remove : (v.remove p connId sid).total =
    v.total - (v.has p connId sid).toNat := by
  unfold remove has
  cases (v.buckets p).any (Sub.isOf connId sid) <;> rfl

/-- **Removals commute.** -/
theorem remove_comm : (v.remove p connId sid).remove p' connId' sid' =
    (v.remove p' connId' sid').remove p connId sid := by
  by_cases heq : (p, connId, sid) = (p', connId', sid')
  · cases heq
    rfl
  · have hbuckets := buckets_remove_comm v p p' connId connId' sid sid'
    have htotal : ((v.remove p connId sid).remove p' connId' sid').total =
        ((v.remove p' connId' sid').remove p connId sid).total := by
      simp only [total_remove, has_remove v p p' connId connId' sid sid' heq,
        has_remove v p' p connId' connId sid' sid (Ne.symm heq)]
      omega
    exact View.mk.injEq .. ▸ ⟨hbuckets, htotal⟩

/-- A subscription that was added is there. -/
lemma has_add (sub : Sub) : (v.add p sub).has p sub.connId sub.sid = true := by
  simp [has, add, Sub.isOf]

/-- **Removing what was added gives back the view**, if it held nothing else to remove. -/
theorem remove_add (sub : Sub)
    (hnew : ∀ s ∈ v.buckets p, (s.connId, s.sid) ≠ (sub.connId, sub.sid)) :
    (v.add p sub).remove p sub.connId sub.sid = v := by
  have hkept : (v.buckets p).filter (fun s => !s.isOf sub.connId sub.sid) = v.buckets p := by
    refine List.filter_eq_self.mpr fun s hs => ?_
    have hne := hnew s hs
    simpa [Sub.isOf, Prod.ext_iff, imp_iff_not_or] using hne
  have hgone : [sub].filter (fun s => !s.isOf sub.connId sub.sid) = [] := by simp [Sub.isOf]
  have hbuckets : ((v.add p sub).remove p sub.connId sub.sid).buckets = v.buckets := by
    simp only [remove, add, Function.update_self, Function.update_idem, List.filter_append, hkept,
      hgone, List.append_nil, Function.update_eq_self]
  have htotal : ((v.add p sub).remove p sub.connId sub.sid).total = v.total := by
    rw [total_remove, has_add]
    rfl
  exact View.mk.injEq .. ▸ ⟨hbuckets, htotal⟩

end remove

/-- Removals commute. -/
lemma unsubscribe_comm (v : View) (s s' : Bytes) (connId connId' : ConnectionId)
    (sid sid' : Bytes) : (v.unsubscribe s connId sid).unsubscribe s' connId' sid' =
      (v.unsubscribe s' connId' sid').unsubscribe s connId sid := by
  unfold unsubscribe
  cases parseSubscriberSubject s with
  | error e => rfl
  | ok p =>
      cases parseSubscriberSubject s' with
      | error e => rfl
      | ok p' => exact remove_comm v p p' connId connId' sid sid'

end View

/-- Subscribing adds to the view. -/
lemma view_subscribe {trie trie' : SubscriptionTrie} {subject : Bytes} {pattern : List Token}
    (hparse : parseSubscriberSubject subject = .ok pattern) {sub : Sub}
    (h : trie.subscribe subject sub = .ok trie') : trie'.view = trie.view.add pattern sub := by
  obtain ⟨pattern', hparse', hbucket⟩ := bucket_subscribe h
  obtain rfl : pattern = pattern' := Except.ok.inj (hparse.symm.trans hparse')
  rw [subscribe, hparse] at h
  cases h
  simp only [view, View.add, View.mk.injEq, and_true]
  refine funext fun q => ?_
  rw [hbucket q, Function.update_apply]
  split_ifs with hq
  · rw [hq]
  · rfl

/-- Unsubscribing removes from the view. -/
lemma view_unsubscribe (trie : SubscriptionTrie) (subject : Bytes) (connId : ConnectionId)
    (sid : Bytes) :
    (trie.unsubscribe subject connId sid).1.view = trie.view.unsubscribe subject connId sid := by
  cases hparse : parseSubscriberSubject subject with
  | error e => rw [unsubscribe_of_error trie hparse, View.unsubscribe, hparse]
  | ok pattern =>
      obtain ⟨hbucket, hflag⟩ := removesAt_unsubscribe trie hparse connId sid
      have htotal : (trie.unsubscribe subject connId sid).1.totalSubscriptions =
          if (trie.unsubscribe subject connId sid).2 then trie.totalSubscriptions - 1
          else trie.totalSubscriptions := by
        rw [unsubscribe, hparse]
        exact total_unsubscribeWalk connId sid pattern trie.root trie.totalSubscriptions
      simp only [View.unsubscribe, hparse, view, View.remove, View.mk.injEq]
      refine ⟨funext fun q => ?_, by rw [htotal, hflag]; rfl⟩
      rw [hbucket q, Function.update_apply]
      split_ifs with hq
      · rw [hq]
      · rfl

/-- The flag says whether the view had something to remove. -/
lemma unsubscribe_flag (trie : SubscriptionTrie) {subject : Bytes} {pattern : List Token}
    (hparse : parseSubscriberSubject subject = .ok pattern) (connId : ConnectionId) (sid : Bytes) :
    (trie.unsubscribe subject connId sid).2 = trie.view.has pattern connId sid :=
  (removesAt_unsubscribe trie hparse connId sid).2

/-- Removing something else leaves the flag of a removal. -/
lemma unsubscribe_flag_of_ne (trie : SubscriptionTrie) {s s' : Bytes}
    {connId connId' : ConnectionId} {sid sid' : Bytes}
    (hne : (s, connId, sid) ≠ (s', connId', sid')) :
    ((trie.unsubscribe s' connId' sid').1.unsubscribe s connId sid).2 =
      (trie.unsubscribe s connId sid).2 := by
  cases hparse : parseSubscriberSubject s with
  | error e => rw [unsubscribe_of_error _ hparse, unsubscribe_of_error _ hparse]
  | ok p =>
      rw [unsubscribe_flag _ hparse, unsubscribe_flag _ hparse, view_unsubscribe]
      unfold View.unsubscribe
      cases hparse' : parseSubscriberSubject s' with
      | error e => rfl
      | ok p' =>
          refine View.has_remove _ p p' connId connId' sid sid' fun heq => hne ?_
          cases heq
          rw [parseSubscriberSubject_injective hparse hparse']

/-- Unsubscribing leaves no empty node. -/
lemma pruned_unsubscribe {trie : SubscriptionTrie} (h : trie.root.Pruned) (subject : Bytes)
    (connId : ConnectionId) (sid : Bytes) : (trie.unsubscribe subject connId sid).1.root.Pruned :=
  pruned_apply h (.unsubscribe subject connId sid)

end SubscriptionTrie

open SubscriptionTrie

/-! ## Subscribing and unsubscribing -/

/-- **Unsubscribing undoes subscribing.** From any reachable trie, a valid subject and a
subscription whose `(conn_id, sid)` is not there yet: subscribing succeeds, unsubscribing returns
true, and the trie is as before, node by node and in the counter. -/
theorem unsubscribe_undoes_subscribe (ops : List TrieOp) {subject : Bytes} {pattern : List Token}
    (hparse : parseSubscriberSubject subject = .ok pattern) (sub : Sub)
    (hnew : ∀ s ∈ bucket pattern (exec SubscriptionTrie.apply .new ops).1.root,
      (s.connId, s.sid) ≠ (sub.connId, sub.sid)) :
    ∃ trie', (exec SubscriptionTrie.apply .new ops).1.subscribe subject sub = .ok trie' ∧
      (trie'.unsubscribe subject sub.connId sub.sid).2 = true ∧
      (trie'.unsubscribe subject sub.connId sub.sid).1.Same
        (exec SubscriptionTrie.apply .new ops).1 := by
  have hpruned := pruned_exec ops
  generalize (exec SubscriptionTrie.apply .new ops).1 = trie at hnew hpruned ⊢
  obtain ⟨trie', hsub⟩ : ∃ trie', trie.subscribe subject sub = .ok trie' := by
    rw [subscribe, hparse]
    exact ⟨_, rfl⟩
  have hpruned' : trie'.root.Pruned := by
    have h := pruned_apply hpruned (.subscribe subject sub)
    rwa [SubscriptionTrie.apply, hsub] at h
  refine ⟨trie', hsub, ?_, same_of_view (pruned_unsubscribe hpruned' _ _ _) hpruned ?_⟩
  · rw [unsubscribe_flag trie' hparse, view_subscribe hparse hsub, View.has_add]
  · rw [view_unsubscribe, View.unsubscribe, hparse, view_subscribe hparse hsub]
    exact View.remove_add _ _ _ hnew

/-- A new `*` and `>` pattern next to an old one: subscribing creates two nodes below `a`, and
unsubscribing prunes these two. -/
theorem unsubscribe_undoes_subscribe_wildcards :
    let ops : List TrieOp := [.subscribe (ascii "a.b") ⟨⟨1⟩, ascii "1", none⟩]
    let sub : Sub := ⟨⟨2⟩, ascii "7", some (ascii "q")⟩
    ∃ trie', (exec SubscriptionTrie.apply .new ops).1.subscribe (ascii "a.*.c.>") sub = .ok trie' ∧
      (trie'.unsubscribe (ascii "a.*.c.>") sub.connId sub.sid).2 = true ∧
      (trie'.unsubscribe (ascii "a.*.c.>") sub.connId sub.sid).1.Same
        (exec SubscriptionTrie.apply .new ops).1 := by
  intro ops sub
  have hparse : parseSubscriberSubject (ascii "a.*.c.>") =
      .ok [.literal (ascii "a"), .star, .literal (ascii "c"), .greater] := rfl
  exact unsubscribe_undoes_subscribe ops hparse sub (by decide +kernel)

/-! ## The order of removals -/

/-- The cleanup of a connection: unsubscribe from all its subjects, in the order in which the map
of its subscriptions yields them.
Source: `main.rs`, `reader_task` (the loop over `subscriptions` at its end) -/
def unsubscribeAll (connId : ConnectionId) (order : List (Bytes × Bytes))
    (trie : SubscriptionTrie) : SubscriptionTrie :=
  order.foldl (fun trie e => (trie.unsubscribe e.2 connId e.1).1) trie

/-- Removing the subscriptions of a connection removes each from the view. -/
lemma view_unsubscribeAll (connId : ConnectionId) (order : List (Bytes × Bytes))
    (trie : SubscriptionTrie) : (unsubscribeAll connId order trie).view =
      order.foldl (fun v e => v.unsubscribe e.2 connId e.1) trie.view := by
  induction order generalizing trie with
  | nil => rfl
  | cons e order ih =>
      rw [List.foldl_cons, ← view_unsubscribe]
      exact ih _

/-- Removing the subscriptions of a connection leaves no empty node. -/
lemma pruned_unsubscribeAll (connId : ConnectionId) (order : List (Bytes × Bytes))
    {trie : SubscriptionTrie} (h : trie.root.Pruned) :
    (unsubscribeAll connId order trie).root.Pruned := by
  induction order generalizing trie with
  | nil => exact h
  | cons e order ih => exact ih (pruned_unsubscribe h _ _ _)

/-- On a trie without dead nodes the cleanup comes to the same in every order. -/
lemma same_unsubscribeAll (connId : ConnectionId) {order order' : List (Bytes × Bytes)}
    (hperm : order.Perm order') {trie : SubscriptionTrie} (h : trie.root.Pruned) :
    (unsubscribeAll connId order trie).Same (unsubscribeAll connId order' trie) := by
  refine same_of_view (pruned_unsubscribeAll connId order h)
    (pruned_unsubscribeAll connId order' h) ?_
  rw [view_unsubscribeAll, view_unsubscribeAll]
  exact hperm.foldl_eq' (fun _ _ _ _ v => View.unsubscribe_comm v _ _ _ _ _ _) trie.view

/-- **The order of removals does not matter.** On any reachable trie, the cleanup of a connection
gives the same trie, node by node and in the counter, in every order; any two calls to unsubscribe
commute; and if they differ in the subject, the connection or the `sid`, each returns the same
flag before and after the other. -/
theorem unsubscribe_order_irrelevant (ops : List TrieOp) :
    let trie := (exec SubscriptionTrie.apply .new ops).1
    (∀ connId (order order' : List (Bytes × Bytes)), order.Perm order' →
      (unsubscribeAll connId order trie).Same (unsubscribeAll connId order' trie)) ∧
    ∀ (s s' : Bytes) (connId connId' : ConnectionId) (sid sid' : Bytes),
      ((trie.unsubscribe s connId sid).1.unsubscribe s' connId' sid').1.Same
        ((trie.unsubscribe s' connId' sid').1.unsubscribe s connId sid).1 ∧
      ((s, connId, sid) ≠ (s', connId', sid') →
        ((trie.unsubscribe s' connId' sid').1.unsubscribe s connId sid).2 =
          (trie.unsubscribe s connId sid).2 ∧
        ((trie.unsubscribe s connId sid).1.unsubscribe s' connId' sid').2 =
          (trie.unsubscribe s' connId' sid').2) := by
  intro trie
  have hpruned : trie.root.Pruned := pruned_exec ops
  refine ⟨fun connId order order' hperm => same_unsubscribeAll connId hperm hpruned,
    fun s s' connId connId' sid sid' => ⟨?_, ?_⟩⟩
  · refine same_of_view (pruned_unsubscribe (pruned_unsubscribe hpruned _ _ _) _ _ _)
      (pruned_unsubscribe (pruned_unsubscribe hpruned _ _ _) _ _ _) ?_
    simp only [view_unsubscribe]
    exact View.unsubscribe_comm _ _ _ _ _ _ _
  · exact fun hne => ⟨unsubscribe_flag_of_ne trie hne, unsubscribe_flag_of_ne trie hne.symm⟩

/-- A connection with three overlapping subscriptions, removed in two orders. -/
theorem unsubscribe_order_irrelevant_overlap :
    let sub (sid : Bytes) : Sub := ⟨⟨1⟩, sid, none⟩
    let ops : List TrieOp := [.subscribe (ascii "a.b") (sub (ascii "1")),
      .subscribe (ascii "a.*") (sub (ascii "2")), .subscribe (ascii "a.b.>") (sub (ascii "3"))]
    let trie := (exec SubscriptionTrie.apply .new ops).1
    (unsubscribeAll ⟨1⟩ [(ascii "1", ascii "a.b"), (ascii "2", ascii "a.*"),
        (ascii "3", ascii "a.b.>")] trie).Same
      (unsubscribeAll ⟨1⟩ [(ascii "3", ascii "a.b.>"), (ascii "1", ascii "a.b"),
        (ascii "2", ascii "a.*")] trie) := by
  intro sub ops trie
  exact (unsubscribe_order_irrelevant ops).1 _ _ _ (by decide)

end Aulon.Core
