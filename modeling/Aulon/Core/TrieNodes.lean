import Aulon.Core.TrieRefinement

/-!
# The nodes of the trie

What the walks do to the nodes themselves, which the buckets do not show: how many subscriptions
a node and its descendants hold, and which nodes are there at all.

* `Node.count` — the subscriptions of a node and of everything below it.
* `count_subscribeWalk`, `count_unsubscribeWalk` — subscribing adds one, unsubscribing removes as
  many as the bucket held.
* `Node.nodeAt`, `Node.Pruned` — the node at a path; no node below this one is without
  subscriptions.
* `SubscriptionTrie.apply_cases` — what one call does, from which both invariants follow.
* `total_eq_count_iff` — when the counter is right; `no_dead_nodes` — the pruning.
-/

namespace Aulon.Core

open Aulon.Lib

namespace Node

/-! ## Counting -/

mutual

/-- The number of subscriptions in the `exact` and `rest` lists of a node and of all nodes below
it. -/
def count : Node → ℕ
  | ⟨exact, rest, children, star⟩ =>
      exact.length + rest.length + countChildren children + countStar star

/-- The number of subscriptions below the literal tokens. -/
def countChildren : List (Sigma fun _ : Bytes => Node) → ℕ
  | [] => 0
  | ⟨_, c⟩ :: children => count c + countChildren children

/-- The number of subscriptions below `*`. -/
def countStar : Option Node → ℕ
  | none => 0
  | some c => count c

end

/-- The count of a node, part by part. -/
lemma count_eq (node : Node) : node.count = node.exact.length + node.rest.length +
    countChildren node.children + countStar node.star := by
  cases node
  rw [count]

/-- The empty node counts nothing. -/
@[simp] lemma count_empty : count {} = 0 := by
  rw [count_eq]
  rfl

/-- The `*` child counts as the empty node if there is none. -/
lemma countStar_eq (star : Option Node) : countStar star = (star.getD {}).count := by
  cases star with
  | none => rw [countStar, Option.getD_none, count_empty]
  | some c => rw [countStar, Option.getD_some]

/-- The slot of a token counts apart from the others. -/
lemma countChildren_kerase (children : List (Sigma fun _ : Bytes => Node)) (bytes : Bytes) :
    countChildren (children.kerase bytes) + ((children.dlookup bytes).getD {}).count =
      countChildren children := by
  induction children with
  | nil => simp [countChildren]
  | cons c children ih =>
      obtain ⟨key, c⟩ := c
      by_cases hkey : bytes = key
      · subst hkey
        have hkept : List.kerase bytes (⟨bytes, c⟩ :: children) = children :=
          List.kerase_cons_eq rfl
        rw [hkept, List.dlookup_cons_eq, countChildren, Option.getD_some]
        omega
      · have hkept : List.kerase bytes (⟨key, c⟩ :: children) =
            ⟨key, c⟩ :: List.kerase bytes children := List.kerase_cons_ne hkey
        have hfound : List.dlookup bytes (⟨key, c⟩ :: children) = List.dlookup bytes children :=
          List.dlookup_cons_ne _ _ hkey
        rw [hkept, hfound, countChildren, countChildren]
        omega

/-- Dropping a child takes its subscriptions off. -/
lemma count_dropChild (node : Node) (tok : Token) :
    (node.dropChild tok).count + ((node.child tok).getD {}).count = node.count := by
  cases tok with
  | literal bytes =>
      have hsum := countChildren_kerase node.children bytes
      rw [count_eq (node.dropChild _), count_eq node]
      simp only [dropChild, child]
      omega
  | star =>
      rw [count_eq (node.dropChild _), count_eq node]
      simp only [dropChild, child, countStar_eq, Option.getD_none, count_empty]
      omega
  | greater => simp only [dropChild, child, Option.getD_none, count_empty, add_zero]

/-- Putting a child counts its subscriptions for those of the old one. -/
lemma count_putChild {tok : Token} (htok : tok ≠ .greater) (node c : Node) :
    (node.putChild tok c).count + ((node.child tok).getD {}).count = node.count + c.count := by
  cases tok with
  | literal bytes =>
      have hsum := countChildren_kerase node.children bytes
      rw [count_eq (node.putChild _ _), count_eq node]
      simp only [putChild, child, List.kinsert, countChildren]
      omega
  | star =>
      rw [count_eq (node.putChild _ _), count_eq node]
      simp only [putChild, child, countStar_eq, Option.getD_some]
      omega
  | greater => exact absurd rfl htok

/-- So does putting it and dropping it if it is empty. -/
lemma count_putOrPrune {tok : Token} (htok : tok ≠ .greater) (node c : Node) :
    (putOrPrune node tok c).count + ((node.child tok).getD {}).count = node.count + c.count := by
  unfold putOrPrune
  split_ifs with hempty
  · rw [eq_empty_of_isEmpty hempty, count_empty, count_dropChild, add_zero]
  · exact count_putChild htok node c

/-- A node counts what its children count. -/
lemma count_le_of_child {node c : Node} {tok : Token} (h : node.child tok = some c) :
    c.count ≤ node.count := by
  have hsum := count_dropChild node tok
  rw [h, Option.getD_some] at hsum
  omega

end Node

open Node

/-- A subscription adds one. -/
lemma count_subscribeWalk (pattern : List Token) (sub : Sub) (node : Node) :
    (subscribeWalk pattern sub node).count = node.count + 1 := by
  induction pattern generalizing node with
  | nil =>
      simp only [subscribeWalk, count_eq, List.length_append, List.length_singleton]
      omega
  | cons tok pattern ih =>
      by_cases htok : tok = .greater
      · subst htok
        simp only [subscribeWalk, count_eq, List.length_append, List.length_singleton]
        omega
      · have hput := count_putChild htok node
          (subscribeWalk pattern sub ((node.child tok).getD {}))
        rw [ih] at hput
        rw [subscribeWalk_cons htok]
        omega

section removal

variable (connId : ConnectionId) (sid : Bytes)

/-- `retain` takes the subscriptions of the pair out, and no other. -/
lemma length_retainOthers (bucket : List Sub) (total : ℕ) :
    (retainOthers connId sid bucket total).1.length + bucket.countP (Sub.isOf connId sid) =
      bucket.length := by
  have hsplit := List.length_eq_countP_add_countP (Sub.isOf connId sid) (l := bucket)
  have hkept : (retainOthers connId sid bucket total).1.length =
      bucket.countP fun s => !s.isOf connId sid := by
    rw [List.countP_eq_length_filter]
    rfl
  simp only [Bool.not_eq_true, Bool.decide_eq_false] at hsplit
  omega

/-- The counter goes down by one if anything was removed, however much it was. -/
lemma total_retainOthers (bucket : List Sub) (total : ℕ) :
    (retainOthers connId sid bucket total).2.1 =
      if (retainOthers connId sid bucket total).2.2 then total - 1 else total := rfl

/-- The equation of the walk at a token with a slot. -/
lemma unsubscribeWalk_cons {tok : Token} (htok : tok ≠ .greater) (pattern : List Token)
    (node : Node) (total : ℕ) : unsubscribeWalk connId sid (tok :: pattern) node total =
      (node.child tok).elim (node, total, false) fun child =>
        let r := stepOrRemove pattern.isEmpty connId sid (unsubscribeWalk connId sid pattern) child
          total
        (putOrPrune node tok r.1, r.2.1, r.2.2) := by
  cases tok with
  | greater => exact absurd rfl htok
  | star => rw [unsubscribeWalk]; cases node.child .star <;> rfl
  | literal bytes => rw [unsubscribeWalk]; cases node.child (.literal bytes) <;> rfl

/-- Unsubscribing removes from the nodes what the bucket of the pattern held. -/
lemma count_unsubscribeWalk {pattern : List Token} (hne : pattern ≠ [])
    (hpattern : .greater ∉ pattern.dropLast) (node : Node) (total : ℕ) :
    (unsubscribeWalk connId sid pattern node total).1.count +
      (bucket pattern node).countP (Sub.isOf connId sid) = node.count := by
  induction pattern generalizing node with
  | nil => exact absurd rfl hne
  | cons tok pattern ih =>
      by_cases htok : tok = .greater
      · subst htok
        obtain rfl := eq_nil_of_greater hpattern
        have hkept := length_retainOthers connId sid node.rest total
        simp only [unsubscribeWalk, bucket, if_pos, count_eq]
        omega
      · rw [unsubscribeWalk_cons connId sid htok, bucket_cons htok]
        cases hchild : node.child tok with
        | none => simp
        | some child =>
            have hput := count_putOrPrune htok node (stepOrRemove pattern.isEmpty connId sid
              (unsubscribeWalk connId sid pattern) child total).1
            rw [hchild, Option.getD_some] at hput
            have hbelow : (stepOrRemove pattern.isEmpty connId sid
                (unsubscribeWalk connId sid pattern) child total).1.count +
                (bucket pattern child).countP (Sub.isOf connId sid) = child.count := by
              cases pattern with
              | cons tok' pattern =>
                  exact ih (List.cons_ne_nil _ _) (greater_notMem_dropLast_tail hpattern) child
              | nil =>
                  have hkept := length_retainOthers connId sid child.exact total
                  simp only [stepOrRemove, List.isEmpty_nil, if_true, bucket, count_eq]
                  omega
            simp only [Option.elim_some, Option.getD_some]
            omega

/-- The total goes down by one exactly if the walk says that it removed something. -/
lemma total_unsubscribeWalk (pattern : List Token) (node : Node) (total : ℕ) :
    (unsubscribeWalk connId sid pattern node total).2.1 =
      if (unsubscribeWalk connId sid pattern node total).2.2 then total - 1 else total := by
  induction pattern generalizing node with
  | nil => rfl
  | cons tok pattern ih =>
      by_cases htok : tok = .greater
      · subst htok
        exact total_retainOthers connId sid node.rest total
      · rw [unsubscribeWalk_cons connId sid htok]
        cases hchild : node.child tok with
        | none => rfl
        | some child =>
            cases pattern with
            | nil => exact total_retainOthers connId sid child.exact total
            | cons tok' pattern => exact ih child

end removal

/-! ## Pruning -/

namespace Node

/-- The node at the end of a path of tokens. -/
def nodeAt : List Token → Node → Option Node
  | [], node => some node
  | tok :: path, node => (node.child tok).bind (nodeAt path)

/-- Every node below this one has a subscription, or a descendant that has one. -/
def Pruned (node : Node) : Prop :=
  ∀ path below, path ≠ [] → nodeAt path node = some below → 0 < below.count

/-- A node is pruned if its children are pruned and not empty. -/
lemma pruned_iff {node : Node} :
    node.Pruned ↔ ∀ tok c, node.child tok = some c → 0 < c.count ∧ c.Pruned := by
  constructor
  · intro h tok c hc
    refine ⟨h [tok] c (List.cons_ne_nil _ _) ?_, fun path below _ hbelow =>
      h (tok :: path) below (List.cons_ne_nil _ _) ?_⟩
    · rw [nodeAt, hc, Option.bind_some, nodeAt]
    · rw [nodeAt, hc, Option.bind_some, hbelow]
  · intro h path below hne hbelow
    cases path with
    | nil => exact absurd rfl hne
    | cons tok path =>
        obtain ⟨c, hc, hbelow⟩ := Option.bind_eq_some_iff.mp hbelow
        cases path with
        | nil =>
            obtain rfl : c = below := Option.some.inj hbelow
            exact (h tok c hc).1
        | cons tok' path => exact (h tok c hc).2 _ _ (List.cons_ne_nil _ _) hbelow

namespace Pruned

/-- The empty node is pruned. -/
lemma empty : Pruned {} := pruned_iff.mpr fun tok c hc => by cases tok <;> cases hc

/-- Pruning is about the children alone. -/
lemma congr {node node' : Node} (h : node.Pruned)
    (hchild : ∀ tok, node'.child tok = node.child tok) : node'.Pruned :=
  pruned_iff.mpr fun tok c hc => pruned_iff.mp h tok c (hchild tok ▸ hc)

/-- The children of a pruned node are pruned. -/
lemma child {node c : Node} {tok : Token} (h : node.Pruned) (hc : node.child tok = some c) :
    c.Pruned := (pruned_iff.mp h tok c hc).2

/-- So is the child that is made where there is none. -/
lemma child_getD {node : Node} (h : node.Pruned) (tok : Token) :
    ((node.child tok).getD {}).Pruned := by
  cases hc : node.child tok with
  | none => exact empty
  | some c => exact h.child hc

/-- A child that is not empty may be put. -/
lemma putChild {node c : Node} {tok : Token} (h : node.Pruned) (htok : tok ≠ .greater)
    (hc : c.Pruned) (hpos : 0 < c.count) : (node.putChild tok c).Pruned := by
  refine pruned_iff.mpr fun tok' c' hc' => ?_
  by_cases heq : tok' = tok
  · subst heq
    rw [child_putChild _ _ htok] at hc'
    cases hc'
    exact ⟨hpos, hc⟩
  · rw [child_putChild_ne _ _ heq] at hc'
    exact pruned_iff.mp h tok' c' hc'

/-- A child may be dropped. -/
lemma dropChild {node : Node} {tok : Token} (h : node.Pruned) (hnode : node.WellFormed) :
    (node.dropChild tok).Pruned := by
  refine pruned_iff.mpr fun tok' c' hc' => ?_
  by_cases heq : tok' = tok
  · subst heq
    rw [child_dropChild _ hnode] at hc'
    cases hc'
  · rw [child_dropChild_ne _ heq] at hc'
    exact pruned_iff.mp h tok' c' hc'

/-- In a pruned node, the test the source makes before it drops a node says that the node holds
nothing. -/
lemma count_pos {node : Node} (h : node.Pruned) (hempty : node.isEmpty = false) :
    0 < node.count := by
  have hbelow : ∀ tok c, node.child tok = some c → 0 < node.count := fun tok c hc =>
    (pruned_iff.mp h tok c hc).1.trans_le (count_le_of_child hc)
  obtain ⟨exact, rest, children, star⟩ := node
  cases exact with
  | cons s exact => rw [count_eq, List.length_cons]; omega
  | nil =>
      cases rest with
      | cons s rest => rw [count_eq, List.length_cons]; omega
      | nil =>
          cases children with
          | cons c children =>
              obtain ⟨key, c⟩ := c
              exact hbelow (.literal key) c (List.dlookup_cons_eq _ _ _)
          | nil =>
              cases star with
              | some c => exact hbelow .star c rfl
              | none => cases hempty

/-- A pruned node without subscriptions is the empty node. -/
lemma eq_empty {node : Node} (h : node.Pruned) (hcount : node.count = 0) : node = {} := by
  cases hempty : node.isEmpty with
  | true => exact eq_empty_of_isEmpty hempty
  | false => exact absurd hcount (h.count_pos hempty).ne'

/-- A child may be put, or dropped if it is empty. -/
lemma putOrPrune {node c : Node} {tok : Token} (h : node.Pruned) (hnode : node.WellFormed)
    (htok : tok ≠ .greater) (hc : c.Pruned) : (putOrPrune node tok c).Pruned := by
  unfold Core.putOrPrune
  split_ifs with hempty
  · exact h.dropChild hnode
  · exact h.putChild htok hc (hc.count_pos (Bool.eq_false_iff.mpr hempty))

/-- A subscription keeps the trie pruned. -/
lemma subscribeWalk {node : Node} (h : node.Pruned) (pattern : List Token) (sub : Sub) :
    (subscribeWalk pattern sub node).Pruned := by
  induction pattern generalizing node with
  | nil => exact h.congr fun tok => by cases tok <;> rfl
  | cons tok pattern ih =>
      by_cases htok : tok = .greater
      · subst htok
        exact h.congr fun tok => by cases tok <;> rfl
      · rw [subscribeWalk_cons htok]
        refine h.putChild htok (ih (h.child_getD tok)) ?_
        rw [count_subscribeWalk]
        omega

/-- A removal keeps the trie pruned. -/
lemma unsubscribeWalk {node : Node} (h : node.Pruned) (hnode : node.WellFormed)
    (connId : ConnectionId) (sid : Bytes) (pattern : List Token) (total : ℕ) :
    (unsubscribeWalk connId sid pattern node total).1.Pruned := by
  induction pattern generalizing node with
  | nil => exact h
  | cons tok pattern ih =>
      by_cases htok : tok = .greater
      · subst htok
        exact h.congr fun tok => by cases tok <;> rfl
      · rw [unsubscribeWalk_cons connId sid htok]
        cases hchild : node.child tok with
        | none => exact h
        | some child =>
            refine h.putOrPrune hnode htok ?_
            cases pattern with
            | cons tok' pattern => exact ih (h.child hchild) (hnode.child hchild)
            | nil => exact (h.child hchild).congr fun tok => by cases tok <;> rfl

end Pruned

end Node

/-! ## Whole runs -/

/-- How many subscriptions with its `(conn_id, sid)` a call to unsubscribe finds under its
subject. -/
def TrieOp.found (trie : SubscriptionTrie) : TrieOp → ℕ
  | .subscribe _ _ => 0
  | .unsubscribe subject connId sid =>
      match parseSubscriberSubject subject with
      | .ok pattern => (bucket pattern trie.root).countP (Sub.isOf connId sid)
      | .error _ => 0

/-- What one call does: nothing, if the subject was rejected, or one of the two walks. -/
theorem SubscriptionTrie.apply_cases (trie : SubscriptionTrie) (op : TrieOp) :
    ((trie.apply op).1 = trie ∧ op.found trie = 0) ∨
    (∃ pattern sub, (trie.apply op).1.root = subscribeWalk pattern sub trie.root ∧
      (trie.apply op).1.totalSubscriptions = trie.totalSubscriptions + 1 ∧ op.found trie = 0) ∨
    ∃ connId sid pattern, ValidPattern pattern ∧
      (trie.apply op).1.root =
        (unsubscribeWalk connId sid pattern trie.root trie.totalSubscriptions).1 ∧
      (trie.apply op).1.totalSubscriptions =
        (unsubscribeWalk connId sid pattern trie.root trie.totalSubscriptions).2.1 ∧
      op.found trie = (bucket pattern trie.root).countP (Sub.isOf connId sid) := by
  cases op with
  | subscribe subject sub =>
      simp only [apply]
      cases hparse : parseSubscriberSubject subject with
      | error e =>
          rw [subscribe_of_error hparse]
          exact .inl ⟨rfl, rfl⟩
      | ok pattern =>
          rw [subscribe, hparse]
          exact .inr (.inl ⟨pattern, sub, rfl, rfl, rfl⟩)
  | unsubscribe subject connId sid =>
      simp only [apply, TrieOp.found]
      cases hparse : parseSubscriberSubject subject with
      | error e =>
          rw [unsubscribe_of_error trie hparse]
          exact .inl ⟨rfl, rfl⟩
      | ok pattern =>
          refine .inr (.inr ⟨connId, sid, pattern, parseSubscriberSubject_valid hparse, ?_⟩)
          rw [unsubscribe, hparse]
          exact ⟨rfl, rfl, rfl⟩

/-- One call keeps the counter at or above the number of subscriptions, and the two equal unless
several were found at once. -/
lemma count_apply {trie : SubscriptionTrie} (h : trie.root.count ≤ trie.totalSubscriptions)
    (op : TrieOp) :
    (trie.apply op).1.root.count ≤ (trie.apply op).1.totalSubscriptions ∧
      ((trie.apply op).1.totalSubscriptions = (trie.apply op).1.root.count ↔
        trie.totalSubscriptions = trie.root.count ∧ op.found trie ≤ 1) := by
  rcases trie.apply_cases op with ⟨htrie, hfound⟩ | ⟨pattern, sub, hroot, htotal, hfound⟩ |
    ⟨connId, sid, pattern, ⟨hne, hgreater⟩, hroot, htotal, hfound⟩
  · rw [htrie, hfound]
    exact ⟨h, by omega⟩
  · rw [hroot, htotal, hfound, count_subscribeWalk]
    omega
  · have hcount := count_unsubscribeWalk connId sid hne hgreater trie.root
      trie.totalSubscriptions
    have hflag := (removesAt_unsubscribeWalk connId sid hne hgreater trie.wellFormed
      trie.totalSubscriptions).2
    have hany : (bucket pattern trie.root).any (Sub.isOf connId sid) = true ↔
        0 < op.found trie := by
      rw [hfound, List.countP_pos_iff, List.any_eq_true]
    rw [hroot, htotal, total_unsubscribeWalk, hflag]
    split_ifs with hremoved <;> rw [hany] at hremoved <;> omega

/-- The counter is never below the number of subscriptions. -/
lemma count_le_total (ops : List TrieOp) : (exec SubscriptionTrie.apply .new ops).1.root.count ≤
    (exec SubscriptionTrie.apply .new ops).1.totalSubscriptions :=
  exec_invariant (I := fun trie : SubscriptionTrie => trie.root.count ≤ trie.totalSubscriptions)
    (fun _ op h => (count_apply h op).1) (Nat.le_of_eq count_empty) ops

/-- **When the counter is right.** After any calls, `total_subscriptions` is the number of
subscriptions in the trie exactly if no call to unsubscribe found more than one subscription with
its `(conn_id, sid)` under its subject. -/
theorem total_eq_count_iff (ops : List TrieOp) :
    (exec SubscriptionTrie.apply .new ops).1.totalSubscriptions =
        (exec SubscriptionTrie.apply .new ops).1.root.count ↔
      ∀ before op after, ops = before ++ op :: after →
        op.found (exec SubscriptionTrie.apply .new before).1 ≤ 1 := by
  induction ops using List.reverseRecOn with
  | nil =>
      refine ⟨fun _ before op after heq => ?_, fun _ => count_empty.symm⟩
      simp at heq
  | append_singleton ops op ih =>
      rw [exec_concat, (count_apply (count_le_total ops) op).2, ih, forall_split_concat]

/-- A client that subscribes twice with one `sid` and unsubscribes once: the trie is empty, and
the counter says one. -/
theorem total_subscriptions_drifts :
    let sub : Sub := ⟨⟨1⟩, ascii "1", none⟩
    let ops : List TrieOp := [.subscribe (ascii "foo") sub, .subscribe (ascii "foo") sub,
      .unsubscribe (ascii "foo") ⟨1⟩ (ascii "1")]
    (exec SubscriptionTrie.apply .new ops).1.totalSubscriptions = 1 ∧
      (exec SubscriptionTrie.apply .new ops).1.root.count = 0 := by
  decide +kernel

/-- Every call keeps the trie pruned. -/
lemma pruned_apply {trie : SubscriptionTrie} (h : trie.root.Pruned) (op : TrieOp) :
    (trie.apply op).1.root.Pruned := by
  rcases trie.apply_cases op with ⟨htrie, -⟩ | ⟨pattern, sub, hroot, -, -⟩ |
    ⟨connId, sid, pattern, -, hroot, -, -⟩
  · rw [htrie]
    exact h
  · rw [hroot]
    exact h.subscribeWalk pattern sub
  · rw [hroot]
    exact h.unsubscribeWalk trie.wellFormed connId sid pattern _

/-- Every trie that the operations can build is pruned. -/
lemma pruned_exec (ops : List TrieOp) :
    (exec SubscriptionTrie.apply .new ops).1.root.Pruned :=
  exec_invariant (I := fun trie : SubscriptionTrie => trie.root.Pruned)
    (fun _ op h => pruned_apply h op) Pruned.empty ops

/-- **No dead nodes.** After any calls, every node but the root has a subscription or a descendant
that has one, so a trie without subscriptions is an empty root. -/
theorem no_dead_nodes (ops : List TrieOp) :
    (∀ path node, path ≠ [] → nodeAt path (exec SubscriptionTrie.apply .new ops).1.root =
      some node → 0 < node.count) ∧
    ((exec SubscriptionTrie.apply .new ops).1.root.count = 0 →
      (exec SubscriptionTrie.apply .new ops).1.root = {}) := by
  have h := pruned_exec ops
  exact ⟨h, h.eq_empty⟩

/-- Two patterns that share the node `a`: removing the longer one takes `a.b` away and leaves
`a`. -/
theorem no_dead_nodes_shared :
    let sub (n : UInt32) : Sub := ⟨⟨n⟩, ascii "1", none⟩
    let ops : List TrieOp := [.subscribe (ascii "a.b.>") (sub 1), .subscribe (ascii "a.*") (sub 2),
      .unsubscribe (ascii "a.b.>") ⟨1⟩ (ascii "1")]
    let root := (exec SubscriptionTrie.apply .new ops).1.root
    (nodeAt [.literal (ascii "a"), .literal (ascii "b")] root).isNone ∧
      ∃ node, nodeAt [.literal (ascii "a")] root = some node ∧ 0 < node.count := by
  intro sub ops root
  obtain ⟨node, hnode⟩ : ∃ node, nodeAt [.literal (ascii "a")] root = some node :=
    Option.isSome_iff_exists.mp (by decide +kernel)
  exact ⟨by decide +kernel, node, hnode,
    (no_dead_nodes ops).1 _ node (List.cons_ne_nil _ _) hnode⟩

end Aulon.Core
