import Aulon.Lib.Bytes
import Mathlib.Data.List.Sigma
import Mathlib.Tactic

/-!
# The subscription trie

The per-worker trie of subscriptions, keyed on dot-separated tokens, with the `*` and `>`
wildcards.

* `parseSubscriberSubject`, `parsePublisherSubject` — the two validators.
* `Node` — a node of the trie; `Node.WellFormed` says that no map of children holds a key twice,
  which is what a hash map guarantees.
* `SubscriptionTrie` — a well-formed root and the counter of subscriptions, with the operations
  `subscribe`, `unsubscribe` and `forEachMatch`.

The source walks a token array with an index; here the walks recurse on the tokens that are
left, so that "the index is the last one" reads "no token is left after this one".
-/

namespace Aulon.Core

open Aulon.Lib

/-! ## Subscriptions and subjects -/

/-- Worker-local connection identifier, assigned at accept.
Source: `subscription.rs`, `ConnectionId` -/
structure ConnectionId where
  raw : UInt32
deriving DecidableEq, Repr

/-- One subscription on a (possibly wildcarded) subject.
Source: `subscription.rs`, `Sub` -/
structure Sub where
  connId : ConnectionId
  sid : Bytes
  queueGroup : Option Bytes
deriving DecidableEq, Repr

/-- Why a subject was rejected at validation.
Source: `subscription.rs`, `SubjectError` -/
inductive SubjectError where
  | empty
  | emptyToken
  | wildcardInPublish
  | invalidGreaterPosition
deriving DecidableEq, Repr

/-- One token of a subscriber subject.
Source: `subscription.rs`, `Token` -/
inductive Token where
  | literal (bytes : Bytes)
  | star
  | greater
deriving DecidableEq, Repr

/-- The byte `.`. -/
def dot : UInt8 := 46

/-- The parts of a subject between its dots. -/
def splitDots (s : Bytes) : List Bytes := s.splitOnP (· == dot)

/-- The token a part of a subscriber subject stands for. -/
def toToken (tok : Bytes) : Token :=
  if tok = ascii "*" then .star else if tok = ascii ">" then .greater else .literal tok

/-- One round of the loop of `parse_subscriber_subject`. -/
def subscriberToken (tok : Bytes) : Except SubjectError Token :=
  if tok.isEmpty then .error .emptyToken else .ok (toToken tok)

/-- Source: `subscription.rs`, `parse_subscriber_subject` -/
def parseSubscriberSubject (s : Bytes) : Except SubjectError (List Token) :=
  if s.isEmpty then .error .empty
  else do
    let tokens ← (splitDots s).mapM subscriberToken
    if Token.greater ∈ tokens.dropLast then .error .invalidGreaterPosition else .ok tokens

/-- One round of the loop of `parse_publisher_subject`. -/
def publisherToken (tok : Bytes) : Except SubjectError Bytes :=
  if tok.isEmpty then .error .emptyToken
  else if tok = ascii "*" ∨ tok = ascii ">" then .error .wildcardInPublish
  else .ok tok

/-- Source: `subscription.rs`, `parse_publisher_subject` -/
def parsePublisherSubject (s : Bytes) : Except SubjectError (List Bytes) :=
  if s.isEmpty then .error .empty else (splitDots s).mapM publisherToken

/-! ## Nodes -/

/-- A node of the trie: the subscriptions that end here, those anchored here with `>`, the
children by literal token, and the child for `*`.
Source: `subscription.rs`, `Node` -/
structure Node where
  exact : List Sub := []
  rest : List Sub := []
  children : List (Sigma fun _ : Bytes => Node) := []
  star : Option Node := none

namespace Node

/-- Source: `subscription.rs`, `Node::is_empty` -/
def isEmpty (node : Node) : Bool :=
  node.exact.isEmpty && node.rest.isEmpty && node.children.isEmpty && node.star.isNone

/-- The child in the slot of a token; `>` has no slot of its own. -/
def child (node : Node) : Token → Option Node
  | .literal bytes => node.children.dlookup bytes
  | .star => node.star
  | .greater => none

/-- The node with `c` in the slot of a token. -/
def putChild (node : Node) (tok : Token) (c : Node) : Node :=
  match tok with
  | .literal bytes => { node with children := node.children.kinsert bytes c }
  | .star => { node with star := some c }
  | .greater => node

/-- The node with the slot of a token empty. -/
def dropChild (node : Node) : Token → Node
  | .literal bytes => { node with children := node.children.kerase bytes }
  | .star => { node with star := none }
  | .greater => node

/-- Every map of children of the node and of its descendants has each key once. -/
inductive WellFormed : Node → Prop where
  | intro {node : Node} : node.children.NodupKeys → (∀ c ∈ node.children, WellFormed c.2) →
      (∀ c ∈ node.star, WellFormed c) → WellFormed node

end Node

/-! ## The walks -/

/-- Add `sub` under the tokens. The source's loop descends, creating the nodes that are missing,
and pushes to `rest` at a `>` and to `exact` below the last token.
Source: `subscription.rs`, `SubscriptionTrie::subscribe` -/
def subscribeWalk : List Token → Sub → Node → Node
  | [], sub, node => { node with exact := node.exact ++ [sub] }
  | .greater :: _, sub, node => { node with rest := node.rest ++ [sub] }
  | .star :: tokens, sub, node =>
      node.putChild .star (subscribeWalk tokens sub ((node.child .star).getD {}))
  | .literal bytes :: tokens, sub, node =>
      node.putChild (.literal bytes)
        (subscribeWalk tokens sub ((node.child (.literal bytes)).getD {}))

/-- Is this the subscription `sid` of connection `connId`? -/
def Sub.isOf (connId : ConnectionId) (sid : Bytes) (s : Sub) : Bool :=
  s.connId = connId ∧ s.sid = sid

/-- Remove every subscription `(connId, sid)` of a bucket; count the removal once.
Source: `subscription.rs`, the `retain` blocks of `unsubscribe_walk` and `step_or_remove` -/
def retainOthers (connId : ConnectionId) (sid : Bytes) (bucket : List Sub) (total : ℕ) :
    List Sub × ℕ × Bool :=
  let kept := bucket.filter fun s => !s.isOf connId sid
  let removed := kept.length != bucket.length
  (kept, if removed then total - 1 else total, removed)

/-- At the last token remove from the child's own bucket, above it walk on.
Source: `subscription.rs`, `step_or_remove` -/
def stepOrRemove (atLast : Bool) (connId : ConnectionId) (sid : Bytes)
    (walk : Node → ℕ → Node × ℕ × Bool) (child : Node) (total : ℕ) : Node × ℕ × Bool :=
  if atLast then
    let (kept, total, removed) := retainOthers connId sid child.exact total
    ({ child with exact := kept }, total, removed)
  else walk child total

/-- Put back a child after a removal below it, unless it has become empty. -/
def putOrPrune (node : Node) (tok : Token) (child : Node) : Node :=
  if child.isEmpty then node.dropChild tok else node.putChild tok child

/-- Remove the subscriptions `(connId, sid)` under the tokens, and prune on the way back up. The
two arms of the source for a literal and for `*` differ only in the slot they use.
Source: `subscription.rs`, `unsubscribe_walk` -/
def unsubscribeWalk (connId : ConnectionId) (sid : Bytes) :
    List Token → Node → ℕ → Node × ℕ × Bool
  | [], node, total => (node, total, false)
  | .greater :: _, node, total =>
      let (kept, total, removed) := retainOthers connId sid node.rest total
      ({ node with rest := kept }, total, removed)
  | .literal bytes :: tokens, node, total =>
      match node.child (.literal bytes) with
      | none => (node, total, false)
      | some child =>
          let (child, total, removed) := stepOrRemove tokens.isEmpty connId sid
            (unsubscribeWalk connId sid tokens) child total
          (putOrPrune node (.literal bytes) child, total, removed)
  | .star :: tokens, node, total =>
      match node.child .star with
      | none => (node, total, false)
      | some child =>
          let (child, total, removed) := stepOrRemove tokens.isEmpty connId sid
            (unsubscribeWalk connId sid tokens) child total
          (putOrPrune node .star child, total, removed)

/-- Run the visitor `f` over every subscription that matches the tokens.
Source: `subscription.rs`, `walk_match` -/
def walkMatch {σ : Type} (f : σ → Sub → σ) : List Bytes → Node → σ → σ
  | [], node, acc => node.exact.foldl f acc
  | tok :: tokens, node, acc =>
      let acc := node.rest.foldl f acc
      let acc := match node.children.dlookup tok with
        | some child => walkMatch f tokens child acc
        | none => acc
      match node.star with
      | some star => walkMatch f tokens star acc
      | none => acc

/-! ## The walks keep the nodes well formed -/

namespace Node.WellFormed

/-- The empty node is well formed. -/
lemma empty : WellFormed {} :=
  .intro List.nodupKeys_nil (fun _ hc => absurd hc List.not_mem_nil) (fun _ hc => by cases hc)

/-- No token of a well-formed node has two children. -/
lemma nodupKeys {node : Node} (h : node.WellFormed) : node.children.NodupKeys := by
  cases h; assumption

/-- Well-formedness is about the children alone. -/
lemma congr {node node' : Node} (h : node.WellFormed) (hchildren : node'.children = node.children)
    (hstar : node'.star = node.star) : node'.WellFormed := by
  cases h with
  | intro hkeys hchild hs =>
      exact .intro (hchildren ▸ hkeys) (hchildren ▸ hchild) (hstar ▸ hs)

/-- The children of a well-formed node are well formed. -/
lemma child {node c : Node} {tok : Token} (h : node.WellFormed) (hc : node.child tok = some c) :
    c.WellFormed := by
  cases h with
  | intro hkeys hchild hstar =>
      cases tok with
      | literal bytes => exact hchild ⟨bytes, c⟩ (List.of_mem_dlookup hc)
      | star => exact hstar c hc
      | greater => cases hc

/-- So is the child that is made where there is none. -/
lemma child_getD {node : Node} (h : node.WellFormed) (tok : Token) :
    ((node.child tok).getD {}).WellFormed := by
  cases hc : node.child tok with
  | none => exact empty
  | some c => exact h.child hc

/-- A child may be put. -/
lemma putChild {node c : Node} (h : node.WellFormed) (tok : Token) (hc : c.WellFormed) :
    (node.putChild tok c).WellFormed := by
  cases h with
  | intro hkeys hchild hstar =>
      cases tok with
      | literal bytes =>
          refine .intro (List.kinsert_nodupKeys _ _ hkeys) (fun d hd => ?_) hstar
          rcases List.mem_cons.mp hd with rfl | hd
          · exact hc
          · exact hchild d ((List.kerase_sublist _ _).subset hd)
      | star => exact .intro hkeys hchild (by rintro d ⟨⟩; exact hc)
      | greater => exact .intro hkeys hchild hstar

/-- A child may be dropped. -/
lemma dropChild {node : Node} (h : node.WellFormed) (tok : Token) :
    (node.dropChild tok).WellFormed := by
  cases h with
  | intro hkeys hchild hstar =>
      cases tok with
      | literal bytes =>
          exact .intro (hkeys.kerase _)
            (fun d hd => hchild d ((List.kerase_sublist _ _).subset hd)) hstar
      | star => exact .intro hkeys hchild (by rintro d ⟨⟩)
      | greater => exact .intro hkeys hchild hstar

/-- A child may be put, or dropped if it is empty. -/
lemma putOrPrune {node c : Node} (h : node.WellFormed) (tok : Token) (hc : c.WellFormed) :
    (putOrPrune node tok c).WellFormed := by
  unfold Core.putOrPrune
  split_ifs
  · exact h.dropChild tok
  · exact h.putChild tok hc

/-- A subscription keeps the trie well formed. -/
lemma subscribeWalk {node : Node} (h : node.WellFormed) (tokens : List Token) (sub : Sub) :
    (subscribeWalk tokens sub node).WellFormed := by
  induction tokens generalizing node with
  | nil => exact h.congr rfl rfl
  | cons tok tokens ih =>
      cases tok with
      | greater => exact h.congr rfl rfl
      | star => exact h.putChild _ (ih (h.child_getD _))
      | literal bytes => exact h.putChild _ (ih (h.child_getD _))

/-- One level of the removal keeps it well formed, if the levels below do. -/
lemma stepOrRemove {node : Node} (h : node.WellFormed) (atLast : Bool) (connId : ConnectionId)
    (sid : Bytes) {walk : Node → ℕ → Node × ℕ × Bool} (total : ℕ)
    (hwalk : (walk node total).1.WellFormed) :
    (stepOrRemove atLast connId sid walk node total).1.WellFormed := by
  unfold Core.stepOrRemove
  split_ifs
  · exact h.congr rfl rfl
  · exact hwalk

/-- A removal keeps the trie well formed. -/
lemma unsubscribeWalk {node : Node} (h : node.WellFormed) (connId : ConnectionId) (sid : Bytes)
    (tokens : List Token) (total : ℕ) :
    (unsubscribeWalk connId sid tokens node total).1.WellFormed := by
  induction tokens generalizing node with
  | nil => exact h
  | cons tok tokens ih =>
      cases tok with
      | greater => exact h.congr rfl rfl
      | star =>
          rw [Core.unsubscribeWalk]
          cases hc : node.child .star with
          | none => exact h
          | some c =>
              exact h.putOrPrune _ ((h.child hc).stepOrRemove _ _ _ _ (ih (h.child hc)))
      | literal bytes =>
          rw [Core.unsubscribeWalk]
          cases hc : node.child (.literal bytes) with
          | none => exact h
          | some c =>
              exact h.putOrPrune _ ((h.child hc).stepOrRemove _ _ _ _ (ih (h.child hc)))

end Node.WellFormed

/-! ## The trie -/

/-- The trie of one worker.
Source: `subscription.rs`, `SubscriptionTrie` -/
structure SubscriptionTrie where
  root : Node
  totalSubscriptions : ℕ
  wellFormed : root.WellFormed

namespace SubscriptionTrie

/-- Source: `subscription.rs`, `SubscriptionTrie::new` -/
def new : SubscriptionTrie := ⟨{}, 0, Node.WellFormed.empty⟩

/-- Add `sub` under `subject`; a rejected subject leaves the trie alone.
Source: `subscription.rs`, `SubscriptionTrie::subscribe` -/
def subscribe (trie : SubscriptionTrie) (subject : Bytes) (sub : Sub) :
    Except SubjectError SubscriptionTrie := do
  let tokens ← parseSubscriberSubject subject
  return ⟨subscribeWalk tokens sub trie.root, trie.totalSubscriptions + 1,
    trie.wellFormed.subscribeWalk tokens sub⟩

/-- Remove `(connId, sid)` from `subject`; was anything removed?
Source: `subscription.rs`, `SubscriptionTrie::unsubscribe` -/
def unsubscribe (trie : SubscriptionTrie) (subject : Bytes) (connId : ConnectionId)
    (sid : Bytes) : SubscriptionTrie × Bool :=
  match parseSubscriberSubject subject with
  | .error _ => (trie, false)
  | .ok tokens =>
      (⟨(unsubscribeWalk connId sid tokens trie.root trie.totalSubscriptions).1,
        (unsubscribeWalk connId sid tokens trie.root trie.totalSubscriptions).2.1,
        trie.wellFormed.unsubscribeWalk connId sid tokens _⟩,
        (unsubscribeWalk connId sid tokens trie.root trie.totalSubscriptions).2.2)

/-- Run the visitor `f` over every subscription that matches the literal `subject`.
Source: `subscription.rs`, `SubscriptionTrie::for_each_match` -/
def forEachMatch {σ : Type} (trie : SubscriptionTrie) (subject : Bytes) (f : σ → Sub → σ)
    (acc : σ) : Except SubjectError σ := do
  let tokens ← parsePublisherSubject subject
  return walkMatch f tokens trie.root acc

end SubscriptionTrie

end Aulon.Core
