import Aulon.Core.TrieRefinement
import Aulon.Lib.Checked

/-!
# Validation of subjects

The two validators are separate loops over the parts of a subject. Each accepts a subject exactly
if all its parts pass a test, and returns their images; in this form they are compared.

* `parseSubscriberSubject_eq_ok_iff`, `parsePublisherSubject_eq_ok_iff` — what each accepts.
* `joinDots_text`, `parseSubscriberSubject_injective` — a subject is the join of its tokens, so
  two subjects with the same tokens are the same.
* `matches_literals` — without wildcards, matching is equality.
* `subject_validators_agree` — the comparison, and what it means for exact routing.
-/

namespace Aulon.Core

open Aulon.Lib Node

/-! ## What the validators accept -/

/-- The bytes of a token. -/
def Token.text : Token → Bytes
  | .literal bytes => bytes
  | .star => ascii "*"
  | .greater => ascii ">"

/-- Tokens with dots between them. -/
def joinDots (parts : List Bytes) : Bytes := List.intercalate [dot] parts

/-- A subject is its parts, joined. -/
lemma joinDots_splitDots (s : Bytes) : joinDots (splitDots s) = s := List.intercalate_splitOn dot

/-- A token has the text it was read from. -/
@[simp] lemma text_toToken (part : Bytes) : (toToken part).text = part := by
  unfold toToken
  split_ifs with hstar hgreater
  · exact hstar.symm
  · exact hgreater.symm
  · rfl

/-- Only `>` is the tail wildcard. -/
lemma toToken_eq_greater {part : Bytes} : toToken part = .greater ↔ part = ascii ">" := by
  refine ⟨fun h => by rw [← text_toToken part, h, Token.text], ?_⟩
  rintro rfl
  rfl

/-- Every part but the two wildcards is a literal. -/
lemma toToken_eq_literal {part bytes : Bytes} : toToken part = .literal bytes ↔
    part = bytes ∧ part ≠ ascii "*" ∧ part ≠ ascii ">" := by
  unfold toToken
  split_ifs with hstar hgreater
  · simp [hstar]
  · simp [hgreater]
  · simp [hstar, hgreater]

/-- The parts that a subscriber may use are those that are not empty. -/
lemma subscriberToken_eq_ok_iff (part : Bytes) (tok : Token) :
    subscriberToken part = .ok tok ↔ part ≠ [] ∧ tok = toToken part := by
  unfold subscriberToken
  split_ifs with hempty
  · simp [List.isEmpty_iff.mp hempty]
  · rw [List.isEmpty_iff] at hempty
    simp [hempty, eq_comm]

/-- The parts that a publisher may use are those that are neither empty nor a wildcard. -/
lemma publisherToken_eq_ok_iff (part tok : Bytes) :
    publisherToken part = .ok tok ↔
      (part ≠ [] ∧ part ≠ ascii "*" ∧ part ≠ ascii ">") ∧ tok = part := by
  unfold publisherToken
  split_ifs with hempty hwild
  · simp [List.isEmpty_iff.mp hempty]
  · rcases hwild with rfl | rfl <;> simp
  · rw [List.isEmpty_iff] at hempty
    simp [hempty, not_or.mp hwild, eq_comm]

/-- The subjects that a subscriber may use, and their tokens: no part is empty, and `>` comes last
only. -/
lemma parseSubscriberSubject_eq_ok_iff (s : Bytes) (tokens : List Token) :
    parseSubscriberSubject s = .ok tokens ↔
      (s ≠ [] ∧ (∀ part ∈ splitDots s, part ≠ []) ∧ ∀ part ∈ (splitDots s).dropLast,
        part ≠ ascii ">") ∧ tokens = (splitDots s).map toToken := by
  -- the positions where the validator refuses `>` are those before the last one
  have hgreater : .greater ∉ ((splitDots s).map toToken).dropLast ↔
      ∀ part ∈ (splitDots s).dropLast, part ≠ ascii ">" := by
    rw [← List.map_dropLast, List.mem_map]
    simp only [toToken_eq_greater, not_exists, not_and, ne_eq]
  have hloop := mapM_eq_ok_iff subscriberToken_eq_ok_iff (splitDots s)
  unfold parseSubscriberSubject
  by_cases hs : s = []
  · simp [hs]
  rw [if_neg (by simpa using hs)]
  constructor
  · intro h
    cases hmap : (splitDots s).mapM subscriberToken with
    | error e => rw [hmap] at h; cases h
    | ok tokens' =>
        obtain ⟨hparts, rfl⟩ := (hloop tokens').mp hmap
        rw [hmap] at h
        simp only [bind, Except.bind] at h
        split_ifs at h with hpos
        cases h
        exact ⟨⟨hs, hparts, hgreater.mp hpos⟩, rfl⟩
  · rintro ⟨⟨-, hparts, hpos⟩, rfl⟩
    rw [(hloop _).mpr ⟨hparts, rfl⟩]
    simp only [bind, Except.bind]
    rw [if_neg (hgreater.mpr hpos)]

/-- The subjects that a publisher may use, and their parts: no part is empty or a wildcard. -/
lemma parsePublisherSubject_eq_ok_iff (s : Bytes) (parts : List Bytes) :
    parsePublisherSubject s = .ok parts ↔
      (s ≠ [] ∧ ∀ part ∈ splitDots s, part ≠ [] ∧ part ≠ ascii "*" ∧ part ≠ ascii ">") ∧
      parts = splitDots s := by
  have hloop := mapM_eq_ok_iff (g := id) publisherToken_eq_ok_iff (splitDots s) parts
  rw [List.map_id] at hloop
  unfold parsePublisherSubject
  by_cases hs : s = []
  · simp [hs]
  · rw [if_neg (by simpa using hs), hloop]
    simp [hs]

/-- A subject is the join of the tokens the validator returned. -/
lemma joinDots_text {s : Bytes} {tokens : List Token} (h : parseSubscriberSubject s = .ok tokens) :
    joinDots (tokens.map Token.text) = s := by
  obtain ⟨-, rfl⟩ := (parseSubscriberSubject_eq_ok_iff s tokens).mp h
  have htext : Token.text ∘ toToken = id := funext text_toToken
  rw [List.map_map, htext, List.map_id, joinDots_splitDots]

/-- Two subjects with the same tokens are the same. -/
lemma parseSubscriberSubject_injective {s s' : Bytes} {tokens : List Token}
    (h : parseSubscriberSubject s = .ok tokens) (h' : parseSubscriberSubject s' = .ok tokens) :
    s = s' := by
  rw [← joinDots_text h, joinDots_text h']

/-- Parts read as literals exactly if none of them is a wildcard. -/
lemma map_toToken_eq_literals {parts literals : List Bytes} :
    parts.map toToken = literals.map .literal ↔
      parts = literals ∧ ∀ part ∈ parts, part ≠ ascii "*" ∧ part ≠ ascii ">" := by
  induction parts generalizing literals with
  | nil => cases literals <;> simp
  | cons part parts ih =>
      cases literals with
      | nil => simp
      | cons bytes literals =>
          rw [List.map_cons, List.map_cons, List.cons.injEq, List.cons.injEq, ih,
            toToken_eq_literal, List.forall_mem_cons]
          tauto

/-- The publisher's validator accepts what the subscriber's one accepts as all literals. -/
lemma parsePublisherSubject_iff_literals (s : Bytes) (parts : List Bytes) :
    parsePublisherSubject s = .ok parts ↔
      parseSubscriberSubject s = .ok (parts.map .literal) := by
  rw [parsePublisherSubject_eq_ok_iff, parseSubscriberSubject_eq_ok_iff,
    eq_comm (b := (splitDots s).map toToken), map_toToken_eq_literals]
  constructor
  · rintro ⟨⟨hs, hparts⟩, rfl⟩
    exact ⟨⟨hs, fun part h => (hparts part h).1,
      fun part h => (hparts part (List.mem_of_mem_dropLast h)).2.2⟩, rfl,
      fun part h => (hparts part h).2⟩
  · rintro ⟨⟨hs, hne, -⟩, rfl, hwild⟩
    exact ⟨⟨hs, fun part h => ⟨hne part h, hwild part h⟩⟩, rfl⟩

/-! ## Exact routing -/

/-- Without wildcards, a pattern matches one list of tokens, its own. -/
lemma matches_literals {literals tokens : List Bytes} :
    Matches (literals.map .literal) tokens = true ↔ literals = tokens := by
  induction literals generalizing tokens with
  | nil => cases tokens <;> simp [Matches]
  | cons bytes literals ih =>
      cases tokens with
      | nil => simp [Matches]
      | cons tok tokens => simp [Matches, ih]

/-- The subscriptions on which a publication calls the visitor, in order. -/
def SubscriptionTrie.visited (trie : SubscriptionTrie) (subject : Bytes) :
    Except SubjectError (List Sub) :=
  trie.forEachMatch subject (fun subs sub => subs ++ [sub]) []

/-- A walk for a good subject visits the matching subscriptions. -/
lemma visited_of_ok {subject : Bytes} {tokens : List Bytes}
    (hparse : parsePublisherSubject subject = .ok tokens) (trie : SubscriptionTrie) :
    trie.visited subject = .ok (trie.matching tokens) := by
  rw [SubscriptionTrie.visited, forEachMatch_of_ok hparse, List.foldl_append_eq_append,
    List.nil_append, ← List.flatMap_def, List.flatMap_singleton']

/-- A walk for a bad subject fails. -/
lemma visited_of_error {subject : Bytes} {e : SubjectError}
    (hparse : parsePublisherSubject subject = .error e) (trie : SubscriptionTrie) :
    trie.visited subject = .error e := by
  rw [SubscriptionTrie.visited, SubscriptionTrie.forEachMatch, hparse]
  rfl

/-- A new subscription is visited once more by the publications its pattern matches. -/
lemma matching_subscribe_of_matches {trie trie' : SubscriptionTrie} {pattern : List Token}
    {sub : Sub} (hbucket : ∀ q, bucket q trie'.root =
      if q = pattern then bucket q trie.root ++ [sub] else bucket q trie.root)
    {tokens : List Bytes} (h : Matches pattern tokens = true) : ∃ before after,
      trie.matching tokens = before ++ after ∧ trie'.matching tokens = before ++ sub :: after := by
  obtain ⟨ps, qs, hsplit⟩ := List.append_of_mem (mem_matchingPatterns.mpr h)
  have hnodup := nodup_matchingPatterns tokens
  rw [hsplit, List.nodup_middle, List.nodup_cons, List.mem_append, not_or] at hnodup
  have hsame : ∀ rs : List (List Token), pattern ∉ rs →
      rs.flatMap (bucket · trie'.root) = rs.flatMap (bucket · trie.root) := by
    intro rs hrs
    refine List.flatMap_congr fun q hq => ?_
    rw [hbucket q, if_neg (ne_of_mem_of_not_mem hq hrs)]
  refine ⟨ps.flatMap (bucket · trie.root) ++ bucket pattern trie.root,
    qs.flatMap (bucket · trie.root), ?_, ?_⟩
  · simp only [SubscriptionTrie.matching, hsplit, List.flatMap_append, List.flatMap_cons,
      List.append_assoc]
  · simp only [SubscriptionTrie.matching, hsplit, List.flatMap_append, List.flatMap_cons,
      hsame ps hnodup.1.1, hsame qs hnodup.1.2, hbucket pattern, if_pos, List.append_assoc,
      List.singleton_append]

/-- A subscription to another pattern leaves what a subject matches. -/
lemma matching_subscribe_of_not_matches {trie trie' : SubscriptionTrie} {pattern : List Token}
    {sub : Sub} (hbucket : ∀ q, bucket q trie'.root =
      if q = pattern then bucket q trie.root ++ [sub] else bucket q trie.root)
    {tokens : List Bytes} (h : Matches pattern tokens ≠ true) :
    trie'.matching tokens = trie.matching tokens := by
  refine List.flatMap_congr fun q hq => ?_
  rw [hbucket q, if_neg]
  rintro rfl
  exact h (mem_matchingPatterns.mp hq)

/-- **The two validators agree.** A publisher's subject is accepted with some tokens exactly if it
is accepted as a subscriber's subject with these tokens as literals; a subscriber's subject is
accepted exactly if it is not empty, no token is empty and no token before the last is `>`; the
join of the tokens is the subject. So a subscription without wildcards is visited by a publication
if the two subjects are the same bytes, and changes nothing for any other. -/
theorem subject_validators_agree (s : Bytes) :
    (∀ parts, parsePublisherSubject s = .ok parts ↔
      parseSubscriberSubject s = .ok (parts.map .literal)) ∧
    ((∃ tokens, parseSubscriberSubject s = .ok tokens) ↔
      s ≠ [] ∧ (∀ part ∈ splitDots s, part ≠ []) ∧
        ∀ part ∈ (splitDots s).dropLast, part ≠ ascii ">") ∧
    (∀ tokens, parseSubscriberSubject s = .ok tokens → joinDots (tokens.map Token.text) = s) ∧
    (∀ parts, parsePublisherSubject s = .ok parts → joinDots parts = s) ∧
    ∀ (p : Bytes) (literals : List Bytes), parseSubscriberSubject p = .ok (literals.map .literal) →
      ∀ (trie trie' : SubscriptionTrie) (sub : Sub), trie.subscribe p sub = .ok trie' →
        (p = s → ∃ before after, trie.visited s = .ok (before ++ after) ∧
          trie'.visited s = .ok (before ++ sub :: after)) ∧
        (p ≠ s → trie'.visited s = trie.visited s) := by
  refine ⟨parsePublisherSubject_iff_literals s, ?_, fun _ h => joinDots_text h, ?_, ?_⟩
  · simp only [parseSubscriberSubject_eq_ok_iff, exists_and_left, exists_eq, and_true]
  · intro parts h
    rw [((parsePublisherSubject_eq_ok_iff s parts).mp h).2, joinDots_splitDots]
  · intro p literals hp trie trie' sub hsub
    obtain ⟨pattern, hpattern, hbucket⟩ := bucket_subscribe hsub
    obtain rfl : literals.map .literal = pattern := Except.ok.inj (hp.symm.trans hpattern)
    constructor
    · rintro rfl
      have hpub := (parsePublisherSubject_iff_literals p literals).mpr hp
      obtain ⟨before, after, h, h'⟩ :=
        matching_subscribe_of_matches hbucket (matches_literals.mpr (rfl : literals = literals))
      exact ⟨before, after, by rw [visited_of_ok hpub, h], by rw [visited_of_ok hpub, h']⟩
    · intro hne
      cases hpub : parsePublisherSubject s with
      | error e => rw [visited_of_error hpub, visited_of_error hpub]
      | ok tokens =>
          rw [visited_of_ok hpub, visited_of_ok hpub, matching_subscribe_of_not_matches hbucket]
          rw [Ne, matches_literals]
          rintro rfl
          exact hne (parseSubscriberSubject_injective hp
            ((parsePublisherSubject_iff_literals s literals).mp hpub))

/-- A subscription on `foo.bar` in an empty trie: a publication on `foo.bar` visits it, and one on
`foo` does not. -/
theorem subject_validators_agree_foo_bar :
    let sub : Sub := ⟨⟨1⟩, ascii "1", none⟩
    ∃ trie', SubscriptionTrie.new.subscribe (ascii "foo.bar") sub = .ok trie' ∧
      trie'.visited (ascii "foo.bar") = .ok [sub] ∧
      trie'.visited (ascii "foo") = SubscriptionTrie.new.visited (ascii "foo") := by
  intro sub
  have hparse : parseSubscriberSubject (ascii "foo.bar") =
      .ok ([ascii "foo", ascii "bar"].map .literal) := rfl
  refine ⟨_, rfl, ?_, ?_⟩
  · obtain ⟨before, after, h, h'⟩ := ((subject_validators_agree (ascii "foo.bar")).2.2.2.2
      _ _ hparse .new _ sub rfl).1 rfl
    have hnil : before ++ after = [] := Except.ok.inj (h.symm.trans rfl)
    obtain ⟨rfl, rfl⟩ := List.append_eq_nil_iff.mp hnil
    exact h'
  · exact ((subject_validators_agree (ascii "foo")).2.2.2.2 _ _ hparse .new _ sub rfl).2
      (by decide)

end Aulon.Core
