import Aulon.Core.Subscription
import Aulon.Lib.Keyed
import Aulon.Lib.Simulation

/-!
# The trie refines a flat list of entries

The trie spreads its subscriptions over the `exact` and `rest` lists of its nodes. `Node.bucket`
reads them back as one bucket per pattern, and in these terms each operation is simple:

* `bucket_subscribeWalk` — subscribing appends to one bucket;
* `removesAt_unsubscribeWalk` — unsubscribing filters one bucket, and pruning loses nothing;
* `walkMatch_eq` — matching reads the buckets of `matchingPatterns`, which are the patterns that
  match, each once.

The reference is a list of entries `(pattern, subscription)`, and `trie_refines_entries` says
that no sequence of operations can tell the two apart.
-/

namespace Aulon.Core

open Aulon.Lib

/-! ## Patterns -/

/-- Does a pattern match the tokens of a published subject? A literal matches the same token, `*`
matches any one token, and a final `>` matches one or more tokens. -/
def Matches : List Token → List Bytes → Bool
  | [], [] => true
  | [.greater], _ :: _ => true
  | .star :: pattern, _ :: tokens => Matches pattern tokens
  | .literal bytes :: pattern, tok :: tokens => bytes = tok && Matches pattern tokens
  | _, _ => false

/-- A pattern the validator lets through: not empty, and `>` at most at its end. -/
def ValidPattern (pattern : List Token) : Prop := pattern ≠ [] ∧ .greater ∉ pattern.dropLast

/-- What a subscriber may use is a valid pattern. -/
lemma parseSubscriberSubject_valid {subject : Bytes} {pattern : List Token}
    (h : parseSubscriberSubject subject = .ok pattern) : ValidPattern pattern := by
  unfold parseSubscriberSubject at h
  split_ifs at h
  cases htokens : (splitDots subject).mapM subscriberToken with
  | error e => rw [htokens] at h; cases h
  | ok tokens =>
      rw [htokens] at h
      simp only [bind, Except.bind] at h
      split_ifs at h with hgreater
      cases h
      refine ⟨?_, hgreater⟩
      rintro rfl
      obtain ⟨part, parts, hparts⟩ := List.exists_cons_of_ne_nil
        (List.splitOnP_ne_nil (· == dot) subject)
      rw [splitDots, hparts, List.mapM_cons] at htokens
      cases hpart : subscriberToken part <;> rw [hpart] at htokens
      · cases htokens
      · cases hrest : parts.mapM subscriberToken <;> rw [hrest] at htokens <;> cases htokens

/-- Below the first token of a valid pattern, unless it is `>`, a valid pattern or nothing is
left. -/
lemma greater_notMem_dropLast_tail {tok : Token} {pattern : List Token}
    (h : .greater ∉ (tok :: pattern).dropLast) : .greater ∉ pattern.dropLast := by
  cases pattern with
  | nil => simp
  | cons tok' pattern =>
      rw [List.dropLast_cons_cons] at h
      exact fun hmem => h (List.mem_cons_of_mem _ hmem)

/-- Nothing follows `>` in a valid pattern. -/
lemma eq_nil_of_greater {pattern : List Token} (h : .greater ∉ (.greater :: pattern).dropLast) :
    pattern = [] := by
  cases pattern with
  | nil => rfl
  | cons tok pattern => simp at h

/-! ## Buckets -/

namespace Node

/-- The subscriptions stored under a pattern, in the order they came. -/
def bucket : List Token → Node → List Sub
  | [], node => node.exact
  | .greater :: pattern, node => if pattern = [] then node.rest else []
  | .star :: pattern, node => bucket pattern ((node.child .star).getD {})
  | .literal bytes :: pattern, node => bucket pattern ((node.child (.literal bytes)).getD {})

/-- The bucket of a pattern is that of its rest, in the child of its first token. -/
lemma bucket_cons {tok : Token} (htok : tok ≠ .greater) (pattern : List Token) (node : Node) :
    bucket (tok :: pattern) node = bucket pattern ((node.child tok).getD {}) := by
  cases tok with
  | greater => exact absurd rfl htok
  | star => rfl
  | literal bytes => rfl

/-- The empty node has only empty buckets. -/
@[simp] lemma bucket_empty (pattern : List Token) : bucket pattern {} = [] := by
  induction pattern with
  | nil => rfl
  | cons tok pattern ih =>
      cases tok with
      | greater => simp [bucket]
      | star => exact ih
      | literal bytes => exact ih

/-- A node that says it is empty is the empty node. -/
lemma eq_empty_of_isEmpty {node : Node} (h : node.isEmpty = true) : node = {} := by
  obtain ⟨exact, rest, children, star⟩ := node
  simp only [isEmpty, Bool.and_eq_true, List.isEmpty_iff, Option.isNone_iff_eq_none] at h
  obtain ⟨⟨⟨rfl, rfl⟩, rfl⟩, rfl⟩ := h
  rfl

/-- Two nodes with the same own lists have the same bucket if the children it lies below do. -/
lemma bucket_congr {node node' : Node} {pattern : List Token} (hexact : node'.exact = node.exact)
    (hrest : node'.rest = node.rest)
    (hchild : ∀ tok tail, pattern = tok :: tail → tok ≠ .greater →
      bucket tail ((node'.child tok).getD {}) = bucket tail ((node.child tok).getD {})) :
    bucket pattern node' = bucket pattern node := by
  cases pattern with
  | nil => exact hexact
  | cons tok tail =>
      by_cases htok : tok = .greater
      · subst htok
        simp only [bucket, hrest]
      · rw [bucket_cons htok, bucket_cons htok]
        exact hchild tok tail rfl htok

section slots

variable (node c : Node) (tok : Token)

/-- Putting a child leaves the exact bucket. -/
@[simp] lemma exact_putChild : (node.putChild tok c).exact = node.exact := by cases tok <;> rfl

/-- Putting a child leaves the `>` bucket. -/
@[simp] lemma rest_putChild : (node.putChild tok c).rest = node.rest := by cases tok <;> rfl

/-- Dropping a child leaves the exact bucket. -/
@[simp] lemma exact_dropChild : (node.dropChild tok).exact = node.exact := by cases tok <;> rfl

/-- Dropping a child leaves the `>` bucket. -/
@[simp] lemma rest_dropChild : (node.dropChild tok).rest = node.rest := by cases tok <;> rfl

variable {tok}

/-- A child that was put is there. -/
lemma child_putChild (htok : tok ≠ .greater) : (node.putChild tok c).child tok = some c := by
  cases tok with
  | greater => exact absurd rfl htok
  | star => rfl
  | literal bytes => exact List.dlookup_kinsert _

/-- Putting a child leaves the others. -/
lemma child_putChild_ne {tok' : Token} (h : tok' ≠ tok) :
    (node.putChild tok c).child tok' = node.child tok' := by
  cases tok <;> cases tok' <;> first | rfl | exact absurd rfl h | skip
  exact List.dlookup_kinsert_ne fun heq => h (by rw [heq])

/-- A child that was dropped is not there. -/
lemma child_dropChild (hnode : node.WellFormed) : (node.dropChild tok).child tok = none := by
  cases tok with
  | greater => rfl
  | star => rfl
  | literal bytes => exact List.dlookup_kerase _ hnode.nodupKeys

/-- Dropping a child leaves the others. -/
lemma child_dropChild_ne {tok' : Token} (h : tok' ≠ tok) :
    (node.dropChild tok).child tok' = node.child tok' := by
  cases tok <;> cases tok' <;> first | rfl | exact absurd rfl h | skip
  exact List.dlookup_kerase_ne fun heq => h (by rw [heq])

end slots

end Node

open Node

/-! ## Subscribing -/

/-- A subscription goes down to the child of its first token. -/
lemma subscribeWalk_cons {tok : Token} (htok : tok ≠ .greater) (pattern : List Token) (sub : Sub)
    (node : Node) : subscribeWalk (tok :: pattern) sub node =
      node.putChild tok (subscribeWalk pattern sub ((node.child tok).getD {})) := by
  cases tok with
  | greater => exact absurd rfl htok
  | star => rfl
  | literal bytes => rfl

/-- Subscribing under a pattern appends to its bucket and leaves the others alone. -/
theorem bucket_subscribeWalk {pattern : List Token} (hpattern : .greater ∉ pattern.dropLast)
    (sub : Sub) (node : Node) (q : List Token) :
    bucket q (subscribeWalk pattern sub node) =
      if q = pattern then bucket q node ++ [sub] else bucket q node := by
  induction pattern generalizing node q with
  | nil =>
      split_ifs with hq
      · subst hq; rfl
      · cases q with
        | nil => exact absurd rfl hq
        | cons tok tail => cases tok <;> rfl
  | cons tok pattern ih =>
      by_cases htok : tok = .greater
      · subst htok
        obtain rfl := eq_nil_of_greater hpattern
        split_ifs with hq
        · subst hq; rfl
        · rcases q with _ | ⟨_ | _ | _, tail⟩
          · rfl
          · rfl
          · rfl
          · have htail : tail ≠ [] := by rintro rfl; exact hq rfl
            simp only [bucket, if_neg htail]
      · rw [subscribeWalk_cons htok]
        -- the only child that changed is the one in the slot of the first token
        by_cases hhead : ∃ tail, q = tok :: tail
        · obtain ⟨tail, rfl⟩ := hhead
          rw [bucket_cons htok, bucket_cons htok, child_putChild _ _ htok, Option.getD_some,
            ih (greater_notMem_dropLast_tail hpattern)]
          simp only [List.cons.injEq, true_and]
        · rw [if_neg fun hq => hhead ⟨pattern, hq⟩]
          refine bucket_congr (exact_putChild _ _ _) (rest_putChild _ _ _) ?_
          rintro tok' tail rfl -
          rw [child_putChild_ne _ _ fun h => hhead ⟨tail, by rw [h]⟩]

/-! ## Unsubscribing -/

/-- `r` is the result of removing the subscriptions `(connId, sid)` under `pattern` from `node`:
one bucket is filtered, the others are as before, and the flag says whether there were any. -/
def RemovesAt (connId : ConnectionId) (sid : Bytes) (pattern : List Token) (node : Node)
    (r : Node × ℕ × Bool) : Prop :=
  (∀ q, bucket q r.1 =
    if q = pattern then (bucket q node).filter (fun s => !s.isOf connId sid)
    else bucket q node) ∧
  r.2.2 = (bucket pattern node).any (Sub.isOf connId sid)

section removal

variable (connId : ConnectionId) (sid : Bytes)

/-- The lengths of a bucket before and after differ exactly if something was removed. -/
lemma retainOthers_removed (bucket : List Sub) (total : ℕ) :
    (retainOthers connId sid bucket total).2.2 = bucket.any (Sub.isOf connId sid) := by
  unfold retainOthers
  by_cases h : ∃ s ∈ bucket, s.isOf connId sid = true
  · have hlt : (bucket.filter fun s => !s.isOf connId sid).length < bucket.length := by
      obtain ⟨s, hs, hof⟩ := h
      exact List.length_filter_lt_length_iff_exists.mpr ⟨s, hs, by simp [hof]⟩
    simp only [List.any_eq_true.mpr h, bne_iff_ne]
    omega
  · have hall : bucket.filter (fun s => !s.isOf connId sid) = bucket :=
      List.filter_eq_self.mpr fun s hs => by
        simpa using fun hof => h ⟨s, hs, hof⟩
    have hany : bucket.any (Sub.isOf connId sid) = false := by
      rw [Bool.eq_false_iff]
      exact fun hany => h (List.any_eq_true.mp hany)
    simp only [hall, hany, bne_self_eq_false]

/-- One level of the removal is right if the levels below are. -/
lemma removesAt_stepOrRemove {pattern : List Token} {child : Node} {total : ℕ}
    {walk : Node → ℕ → Node × ℕ × Bool}
    (hwalk : pattern ≠ [] → RemovesAt connId sid pattern child (walk child total)) :
    RemovesAt connId sid pattern child
      (stepOrRemove pattern.isEmpty connId sid walk child total) := by
  cases pattern with
  | cons tok pattern => exact hwalk (List.cons_ne_nil _ _)
  | nil =>
      refine ⟨fun q => ?_, retainOthers_removed connId sid child.exact total⟩
      cases q with
      | nil => rfl
      | cons tok tail => cases tok <;> rfl

/-- Storing back the child a removal has left, or pruning it, is a removal from the node. -/
lemma removesAt_putOrPrune {tok : Token} (htok : tok ≠ .greater) {pattern : List Token}
    {node child : Node} (hnode : node.WellFormed) (hchild : node.child tok = some child)
    {r : Node × ℕ × Bool} (hr : RemovesAt connId sid pattern child r) :
    RemovesAt connId sid (tok :: pattern) node (putOrPrune node tok r.1, r.2.1, r.2.2) := by
  have hslot : ((putOrPrune node tok r.1).child tok).getD {} = r.1 := by
    unfold putOrPrune
    split_ifs with hempty
    · rw [child_dropChild _ hnode, Option.getD_none, eq_empty_of_isEmpty hempty]
    · rw [child_putChild _ _ htok, Option.getD_some]
  have hother : ∀ tok' ≠ tok, (putOrPrune node tok r.1).child tok' = node.child tok' := by
    intro tok' hne
    unfold putOrPrune
    split_ifs
    · exact child_dropChild_ne _ hne
    · exact child_putChild_ne _ _ hne
  refine ⟨fun q => ?_, ?_⟩
  · by_cases hhead : ∃ tail, q = tok :: tail
    · obtain ⟨tail, rfl⟩ := hhead
      simp only [bucket_cons htok, hslot, hr.1 tail, hchild, Option.getD_some, List.cons.injEq,
        true_and]
    · rw [if_neg fun hq => hhead ⟨pattern, hq⟩]
      refine bucket_congr ?_ ?_ ?_
      · unfold putOrPrune; split_ifs <;> simp
      · unfold putOrPrune; split_ifs <;> simp
      · rintro tok' tail rfl -
        rw [hother tok' fun h => hhead ⟨tail, by rw [h]⟩]
  · rw [bucket_cons htok, hchild]
    exact hr.2

/-- Where there is no child, there is nothing to remove. -/
lemma removesAt_of_child_none {tok : Token} (htok : tok ≠ .greater) {pattern : List Token}
    {node : Node} (hchild : node.child tok = none) (total : ℕ) :
    RemovesAt connId sid (tok :: pattern) node (node, total, false) := by
  have hbucket : bucket (tok :: pattern) node = [] := by
    rw [bucket_cons htok, hchild, Option.getD_none, bucket_empty]
  refine ⟨fun q => ?_, by rw [hbucket]; rfl⟩
  split_ifs with hq
  · rw [hq, hbucket]; rfl
  · rfl

/-- Unsubscribing under a pattern filters its bucket and leaves the others alone; pruning the
nodes that became empty changes no bucket. -/
theorem removesAt_unsubscribeWalk {pattern : List Token} (hne : pattern ≠ [])
    (hpattern : .greater ∉ pattern.dropLast) {node : Node} (hnode : node.WellFormed) (total : ℕ) :
    RemovesAt connId sid pattern node (unsubscribeWalk connId sid pattern node total) := by
  induction pattern generalizing node with
  | nil => exact absurd rfl hne
  | cons tok pattern ih =>
      have hbelow : ∀ child, node.child tok = some child → RemovesAt connId sid pattern child
          (stepOrRemove pattern.isEmpty connId sid (unsubscribeWalk connId sid pattern) child
            total) := fun child hchild =>
        removesAt_stepOrRemove connId sid fun hpne =>
          ih hpne (greater_notMem_dropLast_tail hpattern) (hnode.child hchild)
      cases tok with
      | greater =>
          obtain rfl := eq_nil_of_greater hpattern
          refine ⟨fun q => ?_, retainOthers_removed connId sid node.rest total⟩
          rcases q with _ | ⟨_ | _ | _, tail⟩
          · rfl
          · rfl
          · rfl
          · cases tail <;> rfl
      | star =>
          rw [unsubscribeWalk]
          cases hchild : node.child .star with
          | none => exact removesAt_of_child_none connId sid (by decide) hchild total
          | some child =>
              exact removesAt_putOrPrune connId sid (by decide) hnode hchild (hbelow child hchild)
      | literal bytes =>
          rw [unsubscribeWalk]
          cases hchild : node.child (.literal bytes) with
          | none => exact removesAt_of_child_none connId sid (by simp) hchild total
          | some child =>
              exact removesAt_putOrPrune connId sid (by simp) hnode hchild (hbelow child hchild)

end removal

/-! ## Matching -/

/-- The patterns that match some published tokens, in the order in which the walk meets them. -/
def matchingPatterns : List Bytes → List (List Token)
  | [] => [[]]
  | tok :: tokens =>
      [.greater] :: ((matchingPatterns tokens).map (.literal tok :: ·) ++
        (matchingPatterns tokens).map (.star :: ·))

/-- The patterns that the walk for a subject goes to are those that match it. -/
lemma mem_matchingPatterns {pattern : List Token} {tokens : List Bytes} :
    pattern ∈ matchingPatterns tokens ↔ Matches pattern tokens = true := by
  induction tokens generalizing pattern with
  | nil => rcases pattern with _ | ⟨_ | _ | _, _ | _⟩ <;> simp [matchingPatterns, Matches]
  | cons tok tokens ih =>
      rcases pattern with _ | ⟨_ | _ | _, tail⟩
      · simp [matchingPatterns, Matches]
      · simp only [matchingPatterns, Matches, List.mem_cons, List.mem_append, List.mem_map,
          List.cons.injEq, reduceCtorEq, false_and, false_or, and_false, exists_false, or_false,
          Token.literal.injEq, Bool.and_eq_true, decide_eq_true_eq, ih]
        constructor
        · rintro ⟨p, hp, rfl, rfl⟩; exact ⟨rfl, hp⟩
        · rintro ⟨rfl, hp⟩; exact ⟨tail, hp, rfl, rfl⟩
      · simp [matchingPatterns, Matches, ih]
      · cases tail <;> simp [matchingPatterns, Matches]

/-- No pattern is met twice, through the literal and the star branches or otherwise. -/
lemma nodup_matchingPatterns (tokens : List Bytes) : (matchingPatterns tokens).Nodup := by
  induction tokens with
  | nil => simp [matchingPatterns]
  | cons tok tokens ih =>
      have hmap : ∀ t : Token, ((matchingPatterns tokens).map (t :: ·)).Nodup := fun t =>
        ih.map (List.cons_injective)
      rw [matchingPatterns, List.nodup_cons, List.nodup_append]
      refine ⟨by simp, hmap _, hmap _, ?_⟩
      rintro p hp q hq rfl
      obtain ⟨_, -, rfl⟩ := List.mem_map.mp hp
      obtain ⟨_, -, h⟩ := List.mem_map.mp hq
      cases h

/-- The match walk runs the visitor over the buckets of the matching patterns, one after the
other. -/
theorem walkMatch_eq {σ : Type} (f : σ → Sub → σ) (tokens : List Bytes) (node : Node) (acc : σ) :
    walkMatch f tokens node acc =
      ((matchingPatterns tokens).flatMap (bucket · node)).foldl f acc := by
  induction tokens generalizing node acc with
  | nil => simp [walkMatch, matchingPatterns, bucket]
  | cons tok tokens ih =>
      -- a child that is not there and an empty one visit the same buckets, namely none
      have hslot : ∀ (o : Option Node) (acc : σ),
          o.elim acc (fun child => walkMatch f tokens child acc) =
            ((matchingPatterns tokens).flatMap (bucket · (o.getD {}))).foldl f acc := by
        intro o acc
        cases o with
        | none =>
            have hnil : (matchingPatterns tokens).flatMap (bucket · {}) = [] := by simp
            rw [Option.getD_none, hnil]
            rfl
        | some child => exact ih child acc
      have hwalk : walkMatch f (tok :: tokens) node acc =
          node.star.elim
            ((node.children.dlookup tok).elim (node.rest.foldl f acc)
              fun child => walkMatch f tokens child (node.rest.foldl f acc))
            fun star => walkMatch f tokens star
              ((node.children.dlookup tok).elim (node.rest.foldl f acc)
                fun child => walkMatch f tokens child (node.rest.foldl f acc)) := by
        rw [walkMatch]
        cases node.children.dlookup tok <;> cases node.star <;> rfl
      rw [hwalk, hslot, hslot, matchingPatterns, List.flatMap_cons, List.flatMap_append,
        List.flatMap_map, List.flatMap_map, List.foldl_append, List.foldl_append]
      rfl

/-- The subscriptions a match visits, in the order in which it visits them. -/
def SubscriptionTrie.matching (trie : SubscriptionTrie) (tokens : List Bytes) : List Sub :=
  (matchingPatterns tokens).flatMap (bucket · trie.root)

/-- The walk for a good subject folds over the matching subscriptions. -/
lemma forEachMatch_of_ok {trie : SubscriptionTrie} {subject : Bytes} {tokens : List Bytes}
    (hparse : parsePublisherSubject subject = .ok tokens) {σ : Type} (f : σ → Sub → σ) (acc : σ) :
    trie.forEachMatch subject f acc = .ok ((trie.matching tokens).foldl f acc) := by
  rw [SubscriptionTrie.forEachMatch, hparse, SubscriptionTrie.matching, ← walkMatch_eq]
  rfl

/-- The subscriptions that a subject matches are those in the buckets of the matching patterns. -/
lemma mem_matching {trie : SubscriptionTrie} {tokens : List Bytes} {sub : Sub} :
    sub ∈ trie.matching tokens ↔
      ∃ pattern, Matches pattern tokens = true ∧ sub ∈ bucket pattern trie.root := by
  simp only [SubscriptionTrie.matching, List.mem_flatMap, mem_matchingPatterns]

/-- A subscription that is accepted lands at the end of the bucket of its pattern. -/
lemma bucket_subscribe {trie trie' : SubscriptionTrie} {subject : Bytes} {sub : Sub}
    (h : trie.subscribe subject sub = .ok trie') : ∃ pattern,
      parseSubscriberSubject subject = .ok pattern ∧ ∀ q, bucket q trie'.root =
        if q = pattern then bucket q trie.root ++ [sub] else bucket q trie.root := by
  cases hparse : parseSubscriberSubject subject with
  | error e =>
      rw [SubscriptionTrie.subscribe, hparse] at h
      cases h
  | ok pattern =>
      rw [SubscriptionTrie.subscribe, hparse] at h
      cases h
      exact ⟨pattern, rfl, bucket_subscribeWalk (parseSubscriberSubject_valid hparse).2 sub _⟩

/-- Subscribing to a bad subject fails. -/
lemma subscribe_of_error {trie : SubscriptionTrie} {subject : Bytes} {e : SubjectError}
    (hparse : parseSubscriberSubject subject = .error e) (sub : Sub) :
    trie.subscribe subject sub = .error e := by
  rw [SubscriptionTrie.subscribe, hparse]
  rfl

/-- An unsubscription filters the bucket of its pattern. -/
lemma removesAt_unsubscribe (trie : SubscriptionTrie) {subject : Bytes} {pattern : List Token}
    (hparse : parseSubscriberSubject subject = .ok pattern) (connId : ConnectionId) (sid : Bytes) :
    RemovesAt connId sid pattern trie.root ((trie.unsubscribe subject connId sid).1.root, 0,
      (trie.unsubscribe subject connId sid).2) := by
  obtain ⟨hne, hgreater⟩ := parseSubscriberSubject_valid hparse
  rw [SubscriptionTrie.unsubscribe, hparse]
  exact removesAt_unsubscribeWalk connId sid hne hgreater trie.wellFormed _

/-- Unsubscribing from a bad subject does nothing. -/
lemma unsubscribe_of_error (trie : SubscriptionTrie) {subject : Bytes} {e : SubjectError}
    (hparse : parseSubscriberSubject subject = .error e) (connId : ConnectionId) (sid : Bytes) :
    trie.unsubscribe subject connId sid = (trie, false) := by
  rw [SubscriptionTrie.unsubscribe, hparse]

/-! ## The reference list -/

/-- A call that changes the trie. -/
inductive TrieOp where
  | subscribe (subject : Bytes) (sub : Sub)
  | unsubscribe (subject : Bytes) (connId : ConnectionId) (sid : Bytes)
deriving DecidableEq

/-- What such a call returns. -/
inductive TrieReply where
  | subscribed
  | rejected (e : SubjectError)
  | unsubscribed (removed : Bool)
deriving DecidableEq

/-- One call on the trie. -/
def SubscriptionTrie.apply (trie : SubscriptionTrie) : TrieOp → SubscriptionTrie × TrieReply
  | .subscribe subject sub =>
      match trie.subscribe subject sub with
      | .ok trie => (trie, .subscribed)
      | .error e => (trie, .rejected e)
  | .unsubscribe subject connId sid =>
      let (trie, removed) := trie.unsubscribe subject connId sid
      (trie, .unsubscribed removed)

/-- The reference: every stored subscription with the pattern it was stored under. -/
abbrev Entries := List (List Token × Sub)

/-- One call on the reference. -/
def Entries.apply (entries : Entries) : TrieOp → Entries × TrieReply
  | .subscribe subject sub =>
      match parseSubscriberSubject subject with
      | .ok pattern => (entries ++ [(pattern, sub)], .subscribed)
      | .error e => (entries, .rejected e)
  | .unsubscribe subject connId sid =>
      match parseSubscriberSubject subject with
      | .ok pattern =>
          (deleteAt entries pattern (Sub.isOf connId sid),
            .unsubscribed (entries.any fun e => e.1 = pattern ∧ e.2.isOf connId sid))
      | .error _ => (entries, .unsubscribed false)

/-- The subscriptions of the reference that match some published tokens. -/
def Entries.matching (entries : Entries) (tokens : List Bytes) : List Sub :=
  (entries.filter fun e => Matches e.1 tokens).map (·.2)

/-- The trie holds the entries: bucket by bucket. -/
def SubscriptionTrie.Holds (trie : SubscriptionTrie) (entries : Entries) : Prop :=
  ∀ pattern, bucket pattern trie.root = valuesAt entries pattern

/-- The new trie holds nothing. -/
lemma holds_new : SubscriptionTrie.new.Holds [] := fun pattern => bucket_empty pattern

/-- One call keeps the trie and the reference together, and both answer alike. -/
lemma apply_refines {trie : SubscriptionTrie} {entries : Entries} (h : trie.Holds entries)
    (op : TrieOp) : (trie.apply op).1.Holds (entries.apply op).1 ∧
      (trie.apply op).2 = (entries.apply op).2 := by
  cases op with
  | subscribe subject sub =>
      cases hsub : trie.subscribe subject sub with
      | ok trie' =>
          obtain ⟨pattern, hparse, hbucket⟩ := bucket_subscribe hsub
          simp only [SubscriptionTrie.apply, Entries.apply, hsub, hparse]
          refine ⟨fun q => ?_, trivial⟩
          rw [hbucket q, h q, valuesAt_append_singleton]
      | error e =>
          have hparse : parseSubscriberSubject subject = .error e := by
            cases hparse : parseSubscriberSubject subject with
            | ok pattern => rw [SubscriptionTrie.subscribe, hparse] at hsub; cases hsub
            | error e' => rw [subscribe_of_error hparse] at hsub; cases hsub; rfl
          simp only [SubscriptionTrie.apply, Entries.apply, hsub, hparse]
          exact ⟨h, trivial⟩
  | unsubscribe subject connId sid =>
      cases hparse : parseSubscriberSubject subject with
      | ok pattern =>
          obtain ⟨hbucket, hflag⟩ := removesAt_unsubscribe trie hparse connId sid
          simp only [SubscriptionTrie.apply, Entries.apply, hparse]
          refine ⟨fun q => ?_, ?_⟩
          · rw [hbucket q, h q, valuesAt_deleteAt]
          · rw [hflag, h pattern, any_eq_any_valuesAt]
      | error e =>
          simp only [SubscriptionTrie.apply, Entries.apply, hparse,
            unsubscribe_of_error trie hparse]
          exact ⟨h, trivial⟩

/-- A match on the trie calls the visitor on exactly the matching entries, each once. -/
lemma forEachMatch_of_holds {trie : SubscriptionTrie} {entries : Entries} (h : trie.Holds entries)
    {subject : Bytes} {tokens : List Bytes} (hparse : parsePublisherSubject subject = .ok tokens) :
    ∃ calls : List Sub, calls.Perm (entries.matching tokens) ∧
      ∀ {σ : Type} (f : σ → Sub → σ) (acc : σ),
        trie.forEachMatch subject f acc = .ok (calls.foldl f acc) := by
  refine ⟨trie.matching tokens, ?_, fun f acc => forEachMatch_of_ok hparse f acc⟩
  have hread : trie.matching tokens = (matchingPatterns tokens).flatMap (valuesAt entries) :=
    List.flatMap_congr fun pattern _ => h pattern
  rw [hread]
  exact flatMap_valuesAt_perm entries (nodup_matchingPatterns tokens) fun _ =>
    mem_matchingPatterns

/-- **The trie refines the list of entries.** After any calls, made from an empty trie, all
answers were those of the reference, and a match on any valid published subject calls the visitor
exactly once for each entry of the reference whose pattern matches, and for nothing else. -/
theorem trie_refines_entries (ops : List TrieOp) :
    (exec SubscriptionTrie.apply .new ops).2 = (exec Entries.apply [] ops).2 ∧
    ∀ subject tokens, parsePublisherSubject subject = .ok tokens →
      ∃ calls : List Sub, calls.Perm ((exec Entries.apply [] ops).1.matching tokens) ∧
        ∀ {σ : Type} (f : σ → Sub → σ) (acc : σ),
          (exec SubscriptionTrie.apply .new ops).1.forEachMatch subject f acc =
            .ok (calls.foldl f acc) := by
  obtain ⟨hholds, hreplies⟩ := exec_simulation (R := SubscriptionTrie.Holds)
    (fun _ _ op h => apply_refines h op) holds_new ops
  exact ⟨hreplies, fun _ _ hparse => forEachMatch_of_holds hholds hparse⟩

/-- Overlapping patterns, one of them subscribed twice, and an unsubscription that removes both
copies: a publication on `a.b` reaches the entries under `a.*` and `a.>` once each. -/
theorem trie_refines_entries_overlap :
    let sub (n : UInt32) : Sub := ⟨⟨n⟩, ascii "1", none⟩
    let ops : List TrieOp :=
      [.subscribe (ascii "a.*") (sub 1), .subscribe (ascii "a.b") (sub 2),
        .subscribe (ascii "a.b") (sub 2), .subscribe (ascii "a.>") (sub 3),
        .subscribe (ascii "a..b") (sub 4), .unsubscribe (ascii "a.b") ⟨2⟩ (ascii "1")]
    parsePublisherSubject (ascii "a.b") = .ok [ascii "a", ascii "b"] ∧
    ∃ calls : List Sub, calls.Perm [sub 1, sub 3] ∧ ∀ {σ : Type} (f : σ → Sub → σ) (acc : σ),
      (exec SubscriptionTrie.apply .new ops).1.forEachMatch (ascii "a.b") f acc =
        .ok (calls.foldl f acc) := by
  intro sub ops
  have hparse : parsePublisherSubject (ascii "a.b") = .ok [ascii "a", ascii "b"] := rfl
  have hmatching : (exec Entries.apply [] ops).1.matching [ascii "a", ascii "b"] =
      [sub 1, sub 3] := by decide
  refine ⟨hparse, ?_⟩
  rw [← hmatching]
  exact (trie_refines_entries ops).2 _ _ hparse

end Aulon.Core
