import Aulon.Core.Subjects
import Aulon.Core.TrieNodes

/-!
# The trie does not panic

The walks once more, as the source writes them: over a token array with an index, with the
subtractions, indexings, assertions and `expect`s that can panic, on a trie that carries no
invariant. The lemmas say that each of them returns what the walk of the model returns.

* `RawTrie` — the record of the source, with the operations of the source.
* `subscribeLoop_eq`, `unsubscribeWalkAt_eq`, `walkMatchAt_eq` — the loops and recursions.
* `trie_never_panics` — over all sequences of calls.

The decrement of the counter needs an invariant of the whole history, `count_le_total`: whoever
removes something finds the counter positive. The increment of the counter, `+= 1` on a `usize`,
is the one operation that is not safe in principle; it takes `2 ^ 64` calls to reach it. Indices
are natural numbers: none exceeds the number of tokens, which is at most one more than the length
of the subject.
-/

namespace Aulon.Core

open Aulon.Lib Node

/-- The trie as the source declares it.
Source: `subscription.rs`, `SubscriptionTrie` -/
structure RawTrie where
  root : Node
  totalSubscriptions : ℕ

/-- A trie of the model, without its invariant. -/
def SubscriptionTrie.raw (trie : SubscriptionTrie) : RawTrie :=
  ⟨trie.root, trie.totalSubscriptions⟩

namespace RawTrie

/-- Source: `subscription.rs`, `SubscriptionTrie::new` -/
def new : RawTrie := ⟨{}, 0⟩

/-! ## The validator -/

/-- Source: `subscription.rs`, `parse_subscriber_subject` -/
def parseSubscriberSubject (s : Bytes) : Checked (Except SubjectError (List Token)) :=
  if s.isEmpty then .ok (.error .empty)
  else
    match (splitDots s).mapM subscriberToken with
    | .error e => .ok (.error e)
    | .ok tokens => do
        let last ← Checked.sub tokens.length 1
        return if tokens.zipIdx.any fun t => t.1 = .greater && t.2 ≠ last then
            .error .invalidGreaterPosition
          else .ok tokens

/-- The loop over the indices finds a `>` that is not last exactly if one is before the last
token. -/
lemma any_zipIdx_greater (tokens : List Token) :
    (tokens.zipIdx.any fun t => t.1 = .greater && t.2 ≠ tokens.length - 1) =
      decide (.greater ∈ tokens.dropLast) := by
  rw [Bool.eq_iff_iff, List.any_eq_true, decide_eq_true_iff, List.mem_iff_getElem?]
  constructor
  · rintro ⟨⟨tok, i⟩, hmem, h⟩
    rw [List.mk_mem_zipIdx_iff_getElem?] at hmem
    simp only [Bool.and_eq_true, decide_eq_true_eq] at h
    obtain ⟨rfl, hlast⟩ := h
    obtain ⟨hlt, -⟩ := List.getElem?_eq_some_iff.mp hmem
    refine ⟨i, ?_⟩
    rw [List.getElem?_dropLast, if_pos (by omega), hmem]
  · rintro ⟨i, hi⟩
    rw [List.getElem?_dropLast] at hi
    split_ifs at hi with hlt
    refine ⟨(.greater, i), ?_, ?_⟩
    · rw [List.mk_mem_zipIdx_iff_getElem?]
      exact hi
    · simp only [Bool.and_eq_true, decide_eq_true_eq]
      exact ⟨trivial, by omega⟩

/-- Parsing a subscriber's subject does not panic. -/
lemma parseSubscriberSubject_eq (s : Bytes) :
    parseSubscriberSubject s = .ok (Core.parseSubscriberSubject s) := by
  unfold parseSubscriberSubject Core.parseSubscriberSubject
  split_ifs with hs
  · rfl
  · cases htokens : (splitDots s).mapM subscriberToken with
    | error e => rfl
    | ok tokens =>
        obtain ⟨-, hmap⟩ := (mapM_eq_ok_iff subscriberToken_eq_ok_iff _ _).mp htokens
        have hlen : 1 ≤ tokens.length := by
          rw [hmap, List.length_map]
          exact List.length_pos_iff.mpr (List.splitOnP_ne_nil _ _)
        simp only [Checked.sub_eq hlen, bind, Except.bind, pure, Except.pure, any_zipIdx_greater,
          decide_eq_true_eq]

/-! ## Subscribing -/

/-- The loop of `subscribe` from index `i` on. It descends and gives back the node with the new
subscription below it, and the counter.
Source: `subscription.rs`, `SubscriptionTrie::subscribe` -/
def subscribeLoop (lastIdx : ℕ) (sub : Sub) : ℕ → List Token → Node → ℕ → Checked (Node × ℕ)
  | _, [], _, _ => .error .unreachable
  | i, .greater :: _, node, total => do
      Checked.ensure (i = lastIdx)
      let total ← Checked.add total 1
      return ({ node with rest := node.rest ++ [sub] }, total)
  | i, tok :: tokens, node, total => do
      let node := if (node.child tok).isNone then node.putChild tok {} else node
      let child ← Checked.expect (node.child tok)
      if i = lastIdx then
        let total ← Checked.add total 1
        return (node.putChild tok { child with exact := child.exact ++ [sub] }, total)
      else
        let (child, total) ← subscribeLoop lastIdx sub (i + 1) tokens child total
        return (node.putChild tok child, total)

/-- Source: `subscription.rs`, `SubscriptionTrie::subscribe` -/
def subscribe (trie : RawTrie) (subject : Bytes) (sub : Sub) :
    Checked (RawTrie × Except SubjectError Unit) := do
  match ← parseSubscriberSubject subject with
  | .error e => return (trie, .error e)
  | .ok tokens =>
      let lastIdx ← Checked.sub tokens.length 1
      let (root, total) ← subscribeLoop lastIdx sub 0 tokens trie.root trie.totalSubscriptions
      return (⟨root, total⟩, .ok ())

/-- The loop of `subscribe`, its first token apart: it creates the child if there is none and goes
on in it. -/
lemma subscribeLoop_cons {tok : Token} (htok : tok ≠ .greater) (lastIdx i : ℕ) (sub : Sub)
    (tokens : List Token) (node : Node) (total : ℕ) :
    subscribeLoop lastIdx sub i (tok :: tokens) node total = (do
      let node := if (node.child tok).isNone then node.putChild tok {} else node
      let child ← Checked.expect (node.child tok)
      if i = lastIdx then
        let total ← Checked.add total 1
        return (node.putChild tok { child with exact := child.exact ++ [sub] }, total)
      else
        let (child, total) ← subscribeLoop lastIdx sub (i + 1) tokens child total
        return (node.putChild tok child, total)) := by
  cases tok with
  | greater => exact absurd rfl htok
  | star => rw [subscribeLoop]; exact fun h => htok h
  | literal bytes => rw [subscribeLoop]; exact fun h => htok h

/-- A slot that was filled and is filled again holds the last child. -/
lemma putChild_putChild (node c c' : Node) (tok : Token) :
    (node.putChild tok c).putChild tok c' = node.putChild tok c' := by
  cases tok with
  | greater => rfl
  | star => rfl
  | literal bytes =>
      simp only [putChild, List.kinsert]
      congr 2
      exact List.kerase_cons_eq rfl

/-- The child the loop finds, created if it was missing, is the one the walk starts from. -/
lemma child_created {tok : Token} (htok : tok ≠ .greater) (node : Node) :
    (if (node.child tok).isNone then node.putChild tok {} else node).child tok =
      some ((node.child tok).getD {}) := by
  cases hc : node.child tok with
  | none => exact child_putChild node {} htok
  | some c => exact hc

/-- Creating a child that is then replaced makes no difference. -/
lemma putChild_created (tok : Token) (node c : Node) :
    (if (node.child tok).isNone then node.putChild tok {} else node).putChild tok c =
      node.putChild tok c := by
  split_ifs
  · exact putChild_putChild node {} c tok
  · rfl

/-- The loop does what the walk does, and the increment of the counter is all that can fail. -/
lemma subscribeLoop_eq {lastIdx : ℕ} (sub : Sub) {i : ℕ} {tokens : List Token}
    (hlen : i + tokens.length = lastIdx + 1) (hne : tokens ≠ [])
    (hgreater : .greater ∉ tokens.dropLast) (node : Node) (total : ℕ) :
    subscribeLoop lastIdx sub i tokens node total =
      (fun total => (subscribeWalk tokens sub node, total)) <$> Checked.add total 1 := by
  induction tokens generalizing i node with
  | nil => exact absurd rfl hne
  | cons tok tokens ih =>
      rw [List.length_cons] at hlen
      by_cases htok : tok = .greater
      · subst htok
        obtain rfl := eq_nil_of_greater hgreater
        have hi : i = lastIdx := by simpa using hlen
        rw [subscribeLoop, Checked.bind_ok (Checked.ensure_eq hi)]
        cases Checked.add total 1 <;> rfl
      · have hchild : Checked.expect ((if (node.child tok).isNone then node.putChild tok {}
            else node).child tok) = .ok ((node.child tok).getD {}) := by
          rw [child_created htok]
          rfl
        rw [subscribeLoop_cons htok]
        simp only [Checked.bind_ok hchild, putChild_created, subscribeWalk_cons htok]
        cases tokens with
        | nil =>
            rw [if_pos (by simpa using hlen)]
            cases Checked.add total 1 <;> rfl
        | cons tok' tokens =>
            rw [List.length_cons] at hlen
            rw [if_neg (by omega), ih (by rw [List.length_cons]; omega) (List.cons_ne_nil _ _)
              (greater_notMem_dropLast_tail hgreater)]
            cases Checked.add total 1 <;> rfl

/-- `subscribe` panics only if the counter overflows. -/
lemma subscribe_eq (trie : SubscriptionTrie) (subject : Bytes) (sub : Sub) :
    trie.raw.subscribe subject sub =
      match trie.subscribe subject sub with
      | .error e => .ok (trie.raw, .error e)
      | .ok trie' => (fun _ => (trie'.raw, .ok ())) <$>
          Checked.add trie.totalSubscriptions 1 := by
  rw [subscribe, Checked.bind_ok (parseSubscriberSubject_eq subject), SubscriptionTrie.subscribe]
  cases hparse : Core.parseSubscriberSubject subject with
  | error e => rfl
  | ok tokens =>
      obtain ⟨hne, hgreater⟩ := parseSubscriberSubject_valid hparse
      have hlen : 1 ≤ tokens.length := List.length_pos_iff.mpr hne
      simp only [Checked.bind_ok (Checked.sub_eq hlen)]
      rw [subscribeLoop_eq sub (by omega) hne hgreater]
      have htotal : trie.raw.totalSubscriptions = trie.totalSubscriptions := rfl
      rw [htotal]
      unfold Checked.add
      split_ifs <;> rfl

/-! ## Unsubscribing -/

/-- Source: `subscription.rs`, the `retain` blocks of `unsubscribe_walk` and `step_or_remove` -/
def retainOthers (connId : ConnectionId) (sid : Bytes) (bucket : List Sub) (total : ℕ) :
    Checked (List Sub × ℕ × Bool) := do
  let kept := bucket.filter fun s => !s.isOf connId sid
  let removed := kept.length != bucket.length
  let total ← if removed then Checked.sub total 1 else .ok total
  return (kept, total, removed)

/-- Source: `subscription.rs`, `step_or_remove` -/
def stepOrRemove (depth last : ℕ) (connId : ConnectionId) (sid : Bytes)
    (walk : Node → ℕ → Checked (Node × ℕ × Bool)) (child : Node) (total : ℕ) :
    Checked (Node × ℕ × Bool) :=
  if depth = last then do
    let (kept, total, removed) ← retainOthers connId sid child.exact total
    return ({ child with exact := kept }, total, removed)
  else walk child total

/-- Source: `subscription.rs`, `unsubscribe_walk` -/
def unsubscribeWalkAt (connId : ConnectionId) (sid : Bytes) (tokens : List Token) (depth : ℕ)
    (node : Node) (total : ℕ) : Checked (Node × ℕ × Bool) := do
  let last ← Checked.sub tokens.length 1
  match _h : tokens[depth]? with
  | none => .error .index
  | some tok =>
      if tok = .greater then
        let (kept, total, removed) ← retainOthers connId sid node.rest total
        return ({ node with rest := kept }, total, removed)
      else
        match tok with
        | .greater => .error .unreachable
        | tok =>
            match node.child tok with
            | none => return (node, total, false)
            | some child =>
                let (child, total, removed) ← stepOrRemove depth last connId sid
                  (unsubscribeWalkAt connId sid tokens (depth + 1)) child total
                return (putOrPrune node tok child, total, removed)
termination_by tokens.length - depth
decreasing_by
  obtain ⟨hlt, -⟩ := List.getElem?_eq_some_iff.mp _h
  omega

/-- Source: `subscription.rs`, `SubscriptionTrie::unsubscribe` -/
def unsubscribe (trie : RawTrie) (subject : Bytes) (connId : ConnectionId) (sid : Bytes) :
    Checked (RawTrie × Bool) := do
  match ← parseSubscriberSubject subject with
  | .error _ => return (trie, false)
  | .ok tokens =>
      let (root, total, removed) ←
        unsubscribeWalkAt connId sid tokens 0 trie.root trie.totalSubscriptions
      return (⟨root, total⟩, removed)

section removal

variable (connId : ConnectionId) (sid : Bytes)

/-- Whoever removes something needs a positive counter. -/
lemma retainOthers_eq {bucket : List Sub} {total : ℕ}
    (htotal : bucket.any (Sub.isOf connId sid) = true → 1 ≤ total) :
    retainOthers connId sid bucket total = .ok (Core.retainOthers connId sid bucket total) := by
  have hremoved := retainOthers_removed connId sid bucket total
  unfold Core.retainOthers at hremoved ⊢
  unfold retainOthers
  simp only at hremoved ⊢
  rw [hremoved]
  cases hany : bucket.any (Sub.isOf connId sid) with
  | false => rfl
  | true =>
      rw [if_pos rfl, Checked.bind_ok (Checked.sub_eq (htotal hany))]
      rfl

/-- One level of the removal does not panic if the counter covers what it removes. -/
lemma stepOrRemove_eq {depth last : ℕ} {rest : List Token} (hlast : depth = last ↔ rest = [])
    {walk : Node → ℕ → Checked (Node × ℕ × Bool)} {walk' : Node → ℕ → Node × ℕ × Bool}
    {child : Node} {total : ℕ} (hwalk : rest ≠ [] → walk child total = .ok (walk' child total))
    (htotal : (bucket rest child).any (Sub.isOf connId sid) = true → 1 ≤ total) :
    stepOrRemove depth last connId sid walk child total =
      .ok (Core.stepOrRemove rest.isEmpty connId sid walk' child total) := by
  unfold stepOrRemove
  cases rest with
  | cons tok rest =>
      rw [if_neg fun h => List.cons_ne_nil _ _ (hlast.mp h)]
      exact hwalk (List.cons_ne_nil _ _)
  | nil =>
      rw [if_pos (hlast.mpr rfl)]
      exact Checked.bind_ok (retainOthers_eq connId sid htotal) _

/-- The recursion with an index does what the walk over the tokens that are left does. -/
lemma unsubscribeWalkAt_eq {tokens rest : List Token} {depth : ℕ}
    (hrest : tokens.drop depth = rest) (hne : rest ≠ []) (hgreater : .greater ∉ rest.dropLast)
    (node : Node) {total : ℕ}
    (htotal : (bucket rest node).any (Sub.isOf connId sid) = true → 1 ≤ total) :
    unsubscribeWalkAt connId sid tokens depth node total =
      .ok (unsubscribeWalk connId sid rest node total) := by
  induction rest generalizing depth node with
  | nil => exact absurd rfl hne
  | cons tok rest ih =>
      obtain ⟨hget, hrest', hlen⟩ := Checked.index_of_drop_eq_cons hrest
      rw [unsubscribeWalkAt, Checked.bind_ok (Checked.sub_eq (by omega)), hget]
      by_cases htok : tok = .greater
      · subst htok
        obtain rfl := eq_nil_of_greater hgreater
        exact Checked.bind_ok (retainOthers_eq connId sid htotal) _
      · have hlast : depth = tokens.length - 1 ↔ rest = [] := by
          rw [hlen, ← List.length_eq_zero_iff]
          omega
        have hslot : (match node.child tok with
            | none => pure (node, total, false)
            | some child => do
                let (child, total, removed) ← stepOrRemove depth (tokens.length - 1) connId sid
                  (unsubscribeWalkAt connId sid tokens (depth + 1)) child total
                return (putOrPrune node tok child, total, removed)) =
            Except.ok (unsubscribeWalk connId sid (tok :: rest) node total) := by
          rw [unsubscribeWalk_cons connId sid htok]
          rw [bucket_cons htok] at htotal
          cases hchild : node.child tok with
          | none => rfl
          | some child =>
              rw [hchild] at htotal
              exact Checked.bind_ok (stepOrRemove_eq connId sid hlast
                (fun hrne => ih hrest' hrne (greater_notMem_dropLast_tail hgreater) child htotal)
                htotal) _
        cases tok with
        | greater => exact absurd rfl htok
        | star => exact hslot
        | literal bytes => exact hslot

/-- `unsubscribe` does not panic if the counter covers what is in the trie. -/
lemma unsubscribe_eq {trie : SubscriptionTrie}
    (hcount : trie.root.count ≤ trie.totalSubscriptions) (subject : Bytes) :
    trie.raw.unsubscribe subject connId sid =
      .ok ((trie.unsubscribe subject connId sid).1.raw,
        (trie.unsubscribe subject connId sid).2) := by
  rw [unsubscribe, Checked.bind_ok (parseSubscriberSubject_eq subject),
    SubscriptionTrie.unsubscribe]
  cases hparse : Core.parseSubscriberSubject subject with
  | error e => rfl
  | ok tokens =>
      obtain ⟨hne, hgreater⟩ := parseSubscriberSubject_valid hparse
      -- what is removed was counted, and the counter is at least the count
      have htotal : (bucket tokens trie.root).any (Sub.isOf connId sid) = true →
          1 ≤ trie.totalSubscriptions := by
        intro hany
        rw [List.any_eq_true, ← List.countP_pos_iff] at hany
        have h := count_unsubscribeWalk connId sid hne hgreater trie.root trie.totalSubscriptions
        omega
      exact Checked.bind_ok
        (unsubscribeWalkAt_eq connId sid List.drop_zero hne hgreater trie.root htotal) _

end removal

/-! ## Matching -/

/-- Source: `subscription.rs`, `walk_match` -/
def walkMatchAt {σ : Type} (f : σ → Sub → σ) (tokens : List Bytes) (depth : ℕ) (node : Node)
    (acc : σ) : Checked σ :=
  if depth = tokens.length then .ok (node.exact.foldl f acc)
  else
    match _h : tokens[depth]? with
    | none => .error .index
    | some tok => do
        let acc ← (node.children.dlookup tok).elim (.ok (node.rest.foldl f acc)) fun child =>
          walkMatchAt f tokens (depth + 1) child (node.rest.foldl f acc)
        node.star.elim (.ok acc) fun star => walkMatchAt f tokens (depth + 1) star acc
termination_by tokens.length - depth
decreasing_by
  all_goals
    obtain ⟨hlt, -⟩ := List.getElem?_eq_some_iff.mp _h
    omega

/-- Source: `subscription.rs`, `SubscriptionTrie::for_each_match` -/
def forEachMatch {σ : Type} (trie : RawTrie) (subject : Bytes) (f : σ → Sub → σ) (acc : σ) :
    Checked (Except SubjectError σ) :=
  match parsePublisherSubject subject with
  | .error e => .ok (.error e)
  | .ok tokens => do return .ok (← walkMatchAt f tokens 0 trie.root acc)

/-- The walk for a subject does not panic. -/
lemma walkMatchAt_eq {σ : Type} (f : σ → Sub → σ) {tokens rest : List Bytes} {depth : ℕ}
    (hdepth : depth ≤ tokens.length) (hrest : tokens.drop depth = rest) (node : Node) (acc : σ) :
    walkMatchAt f tokens depth node acc = .ok (walkMatch f rest node acc) := by
  induction rest generalizing depth node acc with
  | nil =>
      have hlen : depth = tokens.length := hdepth.antisymm (List.drop_eq_nil_iff.mp hrest)
      rw [walkMatchAt, if_pos hlen, walkMatch]
  | cons tok rest ih =>
      obtain ⟨hget, hrest', hlen⟩ := Checked.index_of_drop_eq_cons hrest
      have hbelow : ∀ node acc, walkMatchAt f tokens (depth + 1) node acc =
          .ok (walkMatch f rest node acc) := fun node acc => ih (by omega) hrest' node acc
      rw [walkMatchAt, if_neg (by omega), hget, walkMatch]
      simp only [hbelow]
      cases node.children.dlookup tok <;> cases node.star <;> rfl

/-- `for_each_match` does not panic. -/
lemma forEachMatch_eq {σ : Type} (trie : SubscriptionTrie) (subject : Bytes) (f : σ → Sub → σ)
    (acc : σ) : trie.raw.forEachMatch subject f acc = .ok (trie.forEachMatch subject f acc) := by
  rw [forEachMatch, SubscriptionTrie.forEachMatch]
  cases hparse : parsePublisherSubject subject with
  | error e => rfl
  | ok tokens =>
      exact Checked.bind_ok (walkMatchAt_eq f (Nat.zero_le _) List.drop_zero trie.root acc) _

end RawTrie

/-! ## All sequences of calls -/

/-- A call on the trie. -/
inductive TrieCall where
  | change (op : TrieOp)
  | forEachMatch (subject : Bytes)

/-- One call; a visitor that collects what it is shown stands for the one the caller passes. -/
def RawTrie.call (trie : RawTrie) : TrieCall → Checked RawTrie
  | .change (.subscribe subject sub) => do return (← trie.subscribe subject sub).1
  | .change (.unsubscribe subject connId sid) => do
      return (← trie.unsubscribe subject connId sid).1
  | .forEachMatch subject => do
      let _ ← trie.forEachMatch subject (fun subs sub => subs ++ [sub]) []
      return trie

/-- The change a call makes, if it makes one. -/
def TrieCall.op : TrieCall → Option TrieOp
  | .change op => some op
  | .forEachMatch _ => none

/-- Is this a call to subscribe? -/
def TrieCall.isSubscribe : TrieCall → Bool
  | .change (.subscribe _ _) => true
  | _ => false

/-- The trie of the model after a call. -/
def SubscriptionTrie.call (trie : SubscriptionTrie) (call : TrieCall) : SubscriptionTrie :=
  call.op.elim trie fun op => (trie.apply op).1

/-- One call returns what the model returns, or is the increment that overflows. -/
lemma call_cases {trie : SubscriptionTrie} (hcount : trie.root.count ≤ trie.totalSubscriptions)
    (call : TrieCall) :
    trie.raw.call call = .ok (trie.call call).raw ∨
      trie.raw.call call = .error .addOverflow ∧ call.isSubscribe = true ∧
        wordMod ≤ trie.totalSubscriptions + 1 := by
  rcases call with (⟨subject, sub⟩ | ⟨subject, connId, sid⟩) | subject
  · rw [RawTrie.call, RawTrie.subscribe_eq, SubscriptionTrie.call]
    simp only [TrieCall.op, Option.elim_some, SubscriptionTrie.apply]
    cases trie.subscribe subject sub with
    | error e => exact .inl rfl
    | ok trie' =>
        by_cases hsmall : trie.totalSubscriptions + 1 < wordMod
        · rw [Checked.add_eq hsmall]
          exact .inl rfl
        · rw [Checked.add, if_neg hsmall]
          exact .inr ⟨rfl, rfl, not_lt.mp hsmall⟩
  · rw [RawTrie.call, RawTrie.unsubscribe_eq connId sid hcount]
    exact .inl rfl
  · rw [RawTrie.call, RawTrie.forEachMatch_eq]
    exact .inl rfl

/-- The counter grows with the calls to subscribe, and stays above the count. -/
lemma total_call_le {trie : SubscriptionTrie} (hcount : trie.root.count ≤ trie.totalSubscriptions)
    (call : TrieCall) : (trie.call call).root.count ≤ (trie.call call).totalSubscriptions ∧
      (trie.call call).totalSubscriptions ≤
        trie.totalSubscriptions + call.isSubscribe.toNat := by
  rcases call with (⟨subject, sub⟩ | ⟨subject, connId, sid⟩) | subject
  · refine ⟨(count_apply hcount _).1, ?_⟩
    rw [SubscriptionTrie.call, TrieCall.op, Option.elim_some, SubscriptionTrie.apply,
      SubscriptionTrie.subscribe]
    cases Core.parseSubscriberSubject subject with
    | error e => exact Nat.le_succ _
    | ok pattern => exact le_rfl
  · refine ⟨(count_apply hcount _).1, ?_⟩
    rw [SubscriptionTrie.call, TrieCall.op, Option.elim_some, SubscriptionTrie.apply,
      SubscriptionTrie.unsubscribe]
    cases Core.parseSubscriberSubject subject with
    | error e => exact le_rfl
    | ok pattern =>
        have h := total_unsubscribeWalk connId sid pattern trie.root trie.totalSubscriptions
        simp only [h]
        split_ifs <;> omega
  · exact ⟨hcount, le_rfl⟩

/-- The sequence of calls, from any trie whose counter is at least its count. -/
lemma foldlM_call {trie : SubscriptionTrie} (hcount : trie.root.count ≤ trie.totalSubscriptions)
    (calls : List TrieCall) :
    calls.foldlM RawTrie.call trie.raw = .ok (calls.foldl SubscriptionTrie.call trie).raw ∨
      calls.foldlM RawTrie.call trie.raw = .error .addOverflow ∧
        wordMod ≤ trie.totalSubscriptions + calls.countP TrieCall.isSubscribe := by
  induction calls generalizing trie with
  | nil => exact .inl rfl
  | cons call calls ih =>
      obtain ⟨hcount', htotal⟩ := total_call_le hcount call
      have hcalls : (call :: calls).countP TrieCall.isSubscribe =
          call.isSubscribe.toNat + calls.countP TrieCall.isSubscribe := by
        cases h : call.isSubscribe <;> simp [h, add_comm]
      rw [List.foldlM_cons, hcalls]
      rcases call_cases hcount call with hok | ⟨herror, hsub, hbig⟩
      · rw [hok]
        refine (ih hcount').imp id fun h => ⟨h.1, h.2.trans ?_⟩
        omega
      · rw [herror, hsub]
        refine .inr ⟨rfl, hbig.trans ?_⟩
        rw [Bool.toNat_true]
        omega

/-- A history of calls is one of operations; the reads change nothing. -/
lemma foldl_call_eq_exec (trie : SubscriptionTrie) (calls : List TrieCall) :
    calls.foldl SubscriptionTrie.call trie =
      (exec SubscriptionTrie.apply trie (calls.filterMap TrieCall.op)).1 := by
  induction calls generalizing trie with
  | nil => rfl
  | cons call calls ih => cases call <;> exact ih _

/-- **The trie does not panic.** Every sequence of calls to `subscribe`, `unsubscribe` and
`for_each_match` goes through, with the results of the model, and so does a match with any
visitor after it. None of the subtractions, indexings, assertions, `expect`s and `unreachable!`s
fails: the only other outcome is that the increment of the counter overflows, after `2 ^ 64` calls
to `subscribe`. -/
theorem trie_never_panics (calls : List TrieCall) :
    let trie := (exec SubscriptionTrie.apply .new (calls.filterMap TrieCall.op)).1
    (calls.foldlM RawTrie.call .new = .ok trie.raw ∧
      ∀ {σ : Type} (subject : Bytes) (f : σ → Sub → σ) (acc : σ),
        trie.raw.forEachMatch subject f acc = .ok (trie.forEachMatch subject f acc)) ∨
    calls.foldlM RawTrie.call .new = .error .addOverflow ∧
      2 ^ 64 ≤ calls.countP TrieCall.isSubscribe := by
  intro trie
  have hzero : SubscriptionTrie.new.root.count ≤ SubscriptionTrie.new.totalSubscriptions :=
    Nat.le_of_eq count_empty
  have hrun := foldlM_call hzero calls
  rw [foldl_call_eq_exec] at hrun
  refine hrun.imp (fun h => ⟨h, fun subject f acc => RawTrie.forEachMatch_eq trie subject f acc⟩)
    fun h => ⟨h.1, ?_⟩
  have hbig := h.2
  rwa [SubscriptionTrie.new, zero_add] at hbig

end Aulon.Core
