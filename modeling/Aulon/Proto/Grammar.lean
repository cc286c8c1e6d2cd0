import Aulon.Proto.RoundTrip
import Mathlib.Data.List.TakeWhile

/-!
# The grammar of the wire format

The frames on the wire are described here by rules that do not mention the parser, and the parser
accepts exactly what the rules derive.

* `Fields ts s` — `s` is the fields `ts`, each after one or more blanks, and maybe blanks at the
  end. `fields_cons_iff` ties it to the tokens the parser takes.
* `Numeral t n` — `t` is a string of digits with the value `n`, below `2 ^ 64`; leading zeros count.
* `Derives line body f` — the frame `f` has the header line `line` and, after its line end, `body`.
* `parseFrame_eq_frame_iff` — the parser accepts exactly the derivable frames, and blanks between
  fields never change what it reads.
-/

namespace Aulon.Proto

open Aulon.Lib

/-! ## Blanks, fields and numerals -/

/-- A string of blanks. -/
def Blanks (w : Bytes) : Prop := ∀ x ∈ w, isBlank x = true

/-- A field that is not empty and has no blank inside. -/
def Field (t : Bytes) : Prop := t ≠ [] ∧ ∀ x ∈ t, isBlank x = false

/-- Fields, each after one or more blanks, and blanks at the end. -/
inductive Fields : List Bytes → Bytes → Prop
  | nil {w : Bytes} (hw : Blanks w) : Fields [] w
  | cons {w t s : Bytes} {ts : List Bytes} (hne : w ≠ []) (hw : Blanks w) (ht : Field t)
      (hs : Fields ts s) : Fields (t :: ts) (w ++ (t ++ s))

/-- A string of ASCII digits and its value, below `2 ^ 64`. -/
def Numeral (t : Bytes) (n : ℕ) : Prop :=
  (∀ x ∈ t, isAsciiDigit x = true) ∧ value t = n ∧ n < wordMod

/-! ## The grammar -/

/-- The rules: a frame, its header line without the line end, and what follows the line end. -/
inductive Derives : Bytes → Bytes → Frame → Prop
  | ping {w : Bytes} (hw : Blanks w) (hone : w.length ≤ 1) : Derives (ascii "PING" ++ w) [] .ping
  | pong {w : Bytes} (hw : Blanks w) (hone : w.length ≤ 1) : Derives (ascii "PONG" ++ w) [] .pong
  | ok {w : Bytes} (hw : Blanks w) (hone : w.length ≤ 1) : Derives (ascii "+OK" ++ w) [] .ok
  | errAlone : Derives (ascii "-ERR") [] (.err [])
  | err {b : UInt8} (hb : isBlank b = true) (message : Bytes) :
      Derives (ascii "-ERR" ++ b :: message) [] (.err message)
  | connect {b : UInt8} (hb : isBlank b = true) {options : Bytes} (hne : options ≠ []) :
      Derives (ascii "CONNECT" ++ b :: options) [] (.connect options)
  | info {b : UInt8} (hb : isBlank b = true) {options : Bytes} (hne : options ≠ []) :
      Derives (ascii "INFO" ++ b :: options) [] (.info options)
  | sub {subject sid s : Bytes} (h : Fields [subject, sid] s) :
      Derives (ascii "SUB" ++ s) [] (.sub subject none sid)
  | subQueue {subject queueGroup sid s : Bytes} (h : Fields [subject, queueGroup, sid] s) :
      Derives (ascii "SUB" ++ s) [] (.sub subject (some queueGroup) sid)
  | unsub {sid s : Bytes} (h : Fields [sid] s) : Derives (ascii "UNSUB" ++ s) [] (.unsub sid none)
  | unsubMax {sid count s : Bytes} {n : UInt64} (h : Fields [sid, count] s)
      (hcount : Numeral count n.toNat) : Derives (ascii "UNSUB" ++ s) [] (.unsub sid (some n))
  | pub {subject count s : Bytes} (payload : Bytes) (h : Fields [subject, count] s)
      (hcount : Numeral count payload.length) :
      Derives (ascii "PUB" ++ s) (payload ++ crlf) (.pub subject none payload)
  | pubReply {subject replyTo count s : Bytes} (payload : Bytes)
      (h : Fields [subject, replyTo, count] s) (hcount : Numeral count payload.length) :
      Derives (ascii "PUB" ++ s) (payload ++ crlf) (.pub subject (some replyTo) payload)
  | msg {subject sid count s : Bytes} (payload : Bytes) (h : Fields [subject, sid, count] s)
      (hcount : Numeral count payload.length) :
      Derives (ascii "MSG" ++ s) (payload ++ crlf) (.msg subject sid none payload)
  | msgReply {subject sid replyTo count s : Bytes} (payload : Bytes)
      (h : Fields [subject, sid, replyTo, count] s) (hcount : Numeral count payload.length) :
      Derives (ascii "MSG" ++ s) (payload ++ crlf) (.msg subject sid (some replyTo) payload)

/-- The first line end of a buffer stands at position `i`. -/
def FirstCrlf (buf : Bytes) (i : ℕ) : Prop :=
  slice buf i (i + 2) = crlf ∧ ∀ j < i, slice buf j (j + 2) ≠ crlf

/-! ## Fields and tokens -/

/-- Blanks before the fields make no difference. -/
lemma tokens_append_of_blanks {w : Bytes} (hw : Blanks w) (s : Bytes) :
    tokens (w ++ s) = tokens s := by
  induction w with
  | nil => rfl
  | cons b w ih =>
      rw [List.cons_append, tokens_cons_of_blank (hw b List.mem_cons_self)]
      exact ih fun x hx => hw x (List.mem_cons_of_mem b hx)

/-- There is no field in blanks. -/
lemma tokens_of_blanks {w : Bytes} (hw : Blanks w) : tokens w = [] := by
  simpa using tokens_append_of_blanks hw []

/-- What stands after a field is empty or starts with a blank. -/
lemma Fields.head_blank {ts : List Bytes} {s : Bytes} (h : Fields ts s) :
    ∀ x ∈ s.head?, isBlank x = true := by
  intro x hx
  have hmem := List.mem_of_mem_head? hx
  cases h with
  | nil hw => exact hw x hmem
  | @cons w t s ts hne hw ht hs =>
      obtain ⟨y, w, rfl⟩ := List.exists_cons_of_ne_nil hne
      simp only [List.cons_append, List.head?_cons, Option.mem_def, Option.some.injEq] at hx
      exact hx ▸ hw y List.mem_cons_self

/-- A field ends at the next blank. -/
lemma tokens_field_append {t s : Bytes} (ht : Field t) (hs : ∀ x ∈ s.head?, isBlank x = true) :
    tokens (t ++ s) = t :: tokens s := by
  cases s with
  | nil => rw [List.append_nil, tokens_of_no_blank ht.1 ht.2, tokens_nil]
  | cons b s =>
      have hb := hs b rfl
      rw [tokens_append_cons ht.1 ht.2 hb, tokens_cons_of_blank hb]

/-- The tokens of a string of fields are the fields. -/
lemma Fields.tokens_eq {ts : List Bytes} {s : Bytes} (h : Fields ts s) : tokens s = ts := by
  induction h with
  | nil hw => exact tokens_of_blanks hw
  | cons hne hw ht hs ih =>
      rw [tokens_append_of_blanks hw, tokens_field_append ht hs.head_blank, ih]

/-- The fields of a list are fields. -/
lemma Fields.field {ts : List Bytes} {s : Bytes} (h : Fields ts s) : ∀ t ∈ ts, Field t := by
  induction h with
  | nil hw => simp
  | cons hne hw ht hs ih =>
      intro t hmem
      rcases List.mem_cons.mp hmem with rfl | hmem
      · exact ht
      · exact ih t hmem

/-- Every string is blanks, then nothing or a field and what follows it. -/
lemma exists_blanks (s : Bytes) : ∃ w r, s = w ++ r ∧ Blanks w ∧
    (r = [] ∨ ∃ t u, r = t ++ u ∧ Field t ∧ ∀ x ∈ u.head?, isBlank x = true) := by
  refine ⟨s.takeWhile isBlank, s.dropWhile isBlank, (List.takeWhile_append_dropWhile).symm,
    fun x hx => List.mem_takeWhile_imp hx, ?_⟩
  rcases trimLeadingSpaces_cases s with hnil | ⟨x, t, hcons, hx⟩
  · exact Or.inl hnil
  · rw [trimLeadingSpaces] at hcons
    refine Or.inr ⟨(x :: t).takeWhile (!isBlank ·), (x :: t).dropWhile (!isBlank ·), ?_,
      ⟨?_, ?_⟩, ?_⟩
    · rw [hcons, List.takeWhile_append_dropWhile]
    · simp [hx]
    · intro y hy
      simpa using List.mem_takeWhile_imp hy
    · intro y hy
      have hstop := List.head?_dropWhile_not (!isBlank ·) (x :: t)
      rw [Option.mem_def.mp hy] at hstop
      simpa using hstop

/-- After a blank, a string is the fields that are its tokens. -/
lemma fields_of_tokens {b : UInt8} (hb : isBlank b = true) {ts : List Bytes} {r : Bytes}
    (h : tokens r = ts) : Fields ts (b :: r) := by
  induction ts generalizing b r with
  | nil =>
      obtain ⟨w, r, rfl, hw, rfl | ⟨t, u, rfl, ht, hu⟩⟩ := exists_blanks r
      · refine Fields.nil fun x hx => ?_
        rcases List.mem_cons.mp hx with rfl | hx
        · exact hb
        · exact hw x (by simpa using hx)
      · rw [tokens_append_of_blanks hw, tokens_field_append ht hu] at h
        cases h
  | cons t ts ih =>
      obtain ⟨w, r, rfl, hw, rfl | ⟨t', u, rfl, ht, hu⟩⟩ := exists_blanks r
      · rw [tokens_append_of_blanks hw, tokens_nil] at h
        cases h
      · rw [tokens_append_of_blanks hw, tokens_field_append ht hu] at h
        obtain ⟨rfl, hts⟩ := List.cons.inj h
        have hrest : Fields ts u := by
          cases u with
          | nil => rw [← hts, tokens_nil]; exact Fields.nil (by simp [Blanks])
          | cons c u => exact ih (hu c rfl) ((tokens_cons_of_blank (hu c rfl) u).symm.trans hts)
        refine Fields.cons (w := b :: w) (by simp) (fun x hx => ?_) ht hrest
        rcases List.mem_cons.mp hx with rfl | hx
        · exact hb
        · exact hw x hx

/-- Where a blank comes first, fields are tokens. -/
lemma fields_cons_iff {b : UInt8} (hb : isBlank b = true) {ts : List Bytes} {r : Bytes} :
    Fields ts (b :: r) ↔ tokens r = ts := by
  refine ⟨fun h => ?_, fields_of_tokens hb⟩
  rw [← tokens_cons_of_blank hb]
  exact h.tokens_eq

/-! ## Numerals -/

/-- One digit is read if it is a digit and the value stays a word. -/
lemma digitStep_eq_some {n m : ℕ} {b : UInt8} :
    digitStep n b = some m ↔
      isAsciiDigit b = true ∧ m = n * 10 + digitVal b ∧ m < wordMod := by
  unfold digitStep
  by_cases hb : isAsciiDigit b = true
  · rw [hb, Bool.not_true, if_neg Bool.false_ne_true, Option.bind_eq_some_iff]
    simp only [checkedMul, checkedAdd_eq_some, Option.ite_none_right_eq_some, Option.some.injEq]
    constructor
    · rintro ⟨k, ⟨-, rfl⟩, hlt, rfl⟩
      exact ⟨trivial, rfl, hlt⟩
    · rintro ⟨-, rfl, hlt⟩
      exact ⟨n * 10, ⟨by omega, rfl⟩, hlt, rfl⟩
  · simp [hb]

/-- The digit loop succeeds on strings of digits whose value fits a word, and only on them. -/
lemma foldlM_digitStep_eq_some {t : Bytes} {n v : ℕ} (hn : n < wordMod) :
    t.foldlM digitStep n = some v ↔
      (∀ x ∈ t, isAsciiDigit x = true) ∧ valueFrom n t = v ∧ v < wordMod := by
  refine ⟨fun h => ?_, fun ⟨ht, hv, hlt⟩ => by rw [← hv] at hlt ⊢; exact foldlM_digitStep ht hlt⟩
  induction t generalizing n with
  | nil =>
      cases h
      exact ⟨by simp, rfl, hn⟩
  | cons b t ih =>
      rw [List.foldlM_cons, Option.bind_eq_bind, Option.bind_eq_some_iff] at h
      obtain ⟨m, hm, h⟩ := h
      obtain ⟨hb, rfl, hlt⟩ := digitStep_eq_some.mp hm
      obtain ⟨ht, hv, hvlt⟩ := ih hlt h
      refine ⟨fun x hx => ?_, hv, hvlt⟩
      rcases List.mem_cons.mp hx with rfl | hx
      · exact hb
      · exact ht x hx

/-- The numerals that are read as a `usize`. -/
lemma parseUsize_eq_some {t : Bytes} {n : ℕ} :
    parseUsize t = some n ↔ t ≠ [] ∧ Numeral t n := by
  unfold parseUsize Numeral value
  by_cases ht : t = []
  · simp [ht]
  · rw [if_neg (by simp [ht]), foldlM_digitStep_eq_some (by decide)]
    simp [ht]

/-- The numerals that are read as a `u64`. -/
lemma parseU64_eq_some {t : Bytes} {n : UInt64} :
    parseU64 t = some n ↔ t ≠ [] ∧ Numeral t n.toNat := by
  have hparse : parseU64 t = (parseUsize t).map UInt64.ofNat := by
    unfold parseU64 parseUsize
    split_ifs <;> rfl
  rw [hparse, Option.map_eq_some_iff, ← parseUsize_eq_some]
  constructor
  · rintro ⟨m, hm, rfl⟩
    have hlt : m < wordMod := (parseUsize_eq_some.mp hm).2.2.2
    rwa [toNat_ofNat_of_le le_rfl hlt]
  · intro h
    exact ⟨n.toNat, h, by simp⟩

/-! ## The verb -/

/-- The verb is the line up to its first blank; that blank is skipped. -/
lemma splitVerb_eq_iff {line verb rest : Bytes} :
    splitVerb line = (verb, rest) ↔ (∀ x ∈ verb, isBlank x = false) ∧
      ((line = verb ∧ rest = []) ∨ ∃ b, isBlank b = true ∧ line = verb ++ b :: rest) := by
  constructor
  · intro h
    unfold splitVerb at h
    cases hidx : line.findIdx? isBlank with
    | none =>
        rw [hidx] at h
        obtain ⟨rfl, rfl⟩ := Prod.mk.inj h
        exact ⟨by simpa [List.findIdx?_eq_none_iff] using hidx, Or.inl ⟨rfl, rfl⟩⟩
    | some i =>
        rw [hidx] at h
        obtain ⟨rfl, rfl⟩ := Prod.mk.inj h
        obtain ⟨hi, hblank, hbefore⟩ := List.findIdx?_eq_some_iff_getElem.mp hidx
        refine ⟨fun x hx => ?_, Or.inr ⟨_, hblank, ?_⟩⟩
        · obtain ⟨j, hj, rfl⟩ := List.mem_take_iff_getElem.mp hx
          simpa using hbefore j (by omega)
        · rw [← List.drop_eq_getElem_cons hi, List.take_append_drop]
  · rintro ⟨hverb, ⟨rfl, rfl⟩ | ⟨b, hb, rfl⟩⟩
    · unfold splitVerb
      rw [List.findIdx?_eq_none_iff.mpr hverb]
    · have hidx : (verb ++ b :: rest).findIdx? isBlank = some verb.length := by
        rw [List.findIdx?_append, List.findIdx?_eq_none_iff.mpr hverb]
        simp [List.findIdx?_cons, hb]
      rw [splitVerb, hidx]
      simp

/-- Where fields follow a verb, the verb is cut off and the fields are the tokens of the rest. -/
lemma splitVerb_fields (verb : Bytes) {s : Bytes} {ts : List Bytes}
    (hverb : verb.any isBlank = false) (h : Fields ts s) :
    ∃ rest, splitVerb (verb ++ s) = (verb, rest) ∧ tokens rest = ts := by
  have hblank : ∀ x ∈ verb, isBlank x = false := by simpa using hverb
  cases s with
  | nil =>
      exact ⟨[], splitVerb_eq_iff.mpr ⟨hblank, Or.inl ⟨List.append_nil verb, rfl⟩⟩, h.tokens_eq⟩
  | cons b rest =>
      have hb := h.head_blank b rfl
      exact ⟨rest, splitVerb_eq_iff.mpr ⟨hblank, Or.inr ⟨b, hb, rfl⟩⟩, (fields_cons_iff hb).mp h⟩

/-- A verb without anything after it but one blank at most. -/
lemma splitVerb_optional {verb w : Bytes} (hverb : verb.any isBlank = false) (hw : Blanks w)
    (hone : w.length ≤ 1) : splitVerb (verb ++ w) = (verb, []) := by
  have hblank : ∀ x ∈ verb, isBlank x = false := by simpa using hverb
  rcases w with _ | ⟨b, _ | ⟨c, w⟩⟩
  · exact splitVerb_eq_iff.mpr ⟨hblank, Or.inl ⟨List.append_nil verb, rfl⟩⟩
  · exact splitVerb_eq_iff.mpr ⟨hblank, Or.inr ⟨b, hw b List.mem_cons_self, rfl⟩⟩
  · simp at hone

/-- A verb ends at the first blank. -/
lemma splitVerb_cons {verb : Bytes} (hverb : verb.any isBlank = false) {b : UInt8}
    (hb : isBlank b = true) (rest : Bytes) : splitVerb (verb ++ b :: rest) = (verb, rest) := by
  have hblank : ∀ x ∈ verb, isBlank x = false := by simpa using hverb
  exact splitVerb_eq_iff.mpr ⟨hblank, Or.inr ⟨b, hb, rfl⟩⟩

/-- Nothing after the verb: the line is the verb and at most one blank. -/
lemma optional_of_splitVerb {line verb : Bytes} (h : splitVerb line = (verb, [])) :
    ∃ w, line = verb ++ w ∧ Blanks w ∧ w.length ≤ 1 := by
  obtain ⟨-, ⟨rfl, -⟩ | ⟨b, hb, rfl⟩⟩ := splitVerb_eq_iff.mp h
  · exact ⟨[], (List.append_nil line).symm, by simp [Blanks], by simp⟩
  · exact ⟨[b], rfl, by simpa [Blanks] using hb, le_rfl⟩

/-- Something after the verb: there is a blank in between. -/
lemma cons_of_splitVerb {line verb rest : Bytes} (h : splitVerb line = (verb, rest))
    (hne : rest ≠ []) : ∃ b, isBlank b = true ∧ line = verb ++ b :: rest := by
  obtain ⟨-, ⟨-, hnil⟩ | hcons⟩ := splitVerb_eq_iff.mp h
  · exact absurd hnil hne
  · exact hcons

/-- Tokens after the verb are fields of the line. -/
lemma fields_of_splitVerb {line verb rest : Bytes} {ts : List Bytes}
    (h : splitVerb line = (verb, rest)) (hts : tokens rest = ts) (hne : ts ≠ []) :
    ∃ s, line = verb ++ s ∧ Fields ts s := by
  have hrest : rest ≠ [] := by
    rintro rfl
    exact hne hts.symm
  obtain ⟨b, hb, rfl⟩ := cons_of_splitVerb h hrest
  exact ⟨b :: rest, rfl, fields_of_tokens hb hts⟩

/-! ## What a header line says, rule by rule -/

/-- With the given body, the header line stands for the frame. -/
def Header.Means (body : Bytes) (f : Frame) : Header → Prop
  | .bad _ => False
  | .full g => body = [] ∧ f = g
  | .withBody mk len => ∃ payload, body = payload ++ crlf ∧ payload.length = len ∧ f = mk payload

section means

variable {ts : List Bytes} {body : Bytes} {f : Frame}

/-- A bad header means no frame. -/
@[simp] lemma means_bad {e : ParseError} : (Header.bad e).Means body f ↔ False := Iff.rfl

/-- A full header means its frame, with no body. -/
@[simp] lemma means_full {g : Frame} : (Header.full g).Means body f ↔ body = [] ∧ f = g := Iff.rfl

/-- A header with a count means a frame with a payload of this length. -/
lemma means_countHeader {mk : Bytes → Frame} {t : Bytes} : (countHeader mk t).Means body f ↔
    ∃ payload : Bytes, body = payload ++ crlf ∧ parseUsize t = some payload.length ∧
      f = mk payload := by
  unfold countHeader
  cases parseUsize t with
  | none => simp
  | some len =>
      simp only [Header.Means, Option.some.injEq]
      constructor
      · rintro ⟨payload, hbody, rfl, hf⟩
        exact ⟨payload, hbody, rfl, hf⟩
      · rintro ⟨payload, hbody, rfl, hf⟩
        exact ⟨payload, hbody, rfl, hf⟩

/-- What a SUB header means. -/
lemma means_subHeader : (subHeader ts).Means body f ↔ body = [] ∧
    ((∃ subject sid, ts = [subject, sid] ∧ f = .sub subject none sid) ∨
      ∃ subject queueGroup sid, ts = [subject, queueGroup, sid] ∧
        f = .sub subject (some queueGroup) sid) := by
  rcases ts with _ | ⟨a, _ | ⟨b, _ | ⟨c, _ | ⟨d, ts⟩⟩⟩⟩ <;> simp [subHeader]

/-- What an UNSUB header means. -/
lemma means_unsubHeader : (unsubHeader ts).Means body f ↔ body = [] ∧
    ((∃ sid, ts = [sid] ∧ f = .unsub sid none) ∨
      ∃ sid count n, ts = [sid, count] ∧ parseU64 count = some n ∧ f = .unsub sid (some n)) := by
  rcases ts with _ | ⟨a, _ | ⟨b, ts⟩⟩
  · simp [unsubHeader]
  · simp [unsubHeader]
  · rw [unsubHeader]
    cases hn : parseU64 b with
    | none => simp [hn]
    | some n => cases ts <;> simp [hn]

/-- What a PUB header means. -/
lemma means_pubHeader : (pubHeader ts).Means body f ↔
    ∃ payload : Bytes, body = payload ++ crlf ∧
      ((∃ subject count, ts = [subject, count] ∧ parseUsize count = some payload.length ∧
        f = .pub subject none payload) ∨
      ∃ subject replyTo count, ts = [subject, replyTo, count] ∧
        parseUsize count = some payload.length ∧ f = .pub subject (some replyTo) payload) := by
  rcases ts with _ | ⟨a, _ | ⟨b, _ | ⟨c, _ | ⟨d, ts⟩⟩⟩⟩ <;>
    simp [pubHeader, means_countHeader]

/-- What a MSG header means. -/
lemma means_msgHeader : (msgHeader ts).Means body f ↔
    ∃ payload : Bytes, body = payload ++ crlf ∧
      ((∃ subject sid count, ts = [subject, sid, count] ∧
        parseUsize count = some payload.length ∧ f = .msg subject sid none payload) ∨
      ∃ subject sid replyTo count, ts = [subject, sid, replyTo, count] ∧
        parseUsize count = some payload.length ∧
        f = .msg subject sid (some replyTo) payload) := by
  rcases ts with _ | ⟨a, _ | ⟨b, _ | ⟨c, _ | ⟨d, _ | ⟨e, ts⟩⟩⟩⟩⟩ <;>
    simp [msgHeader, means_countHeader]

end means

/-- A verb that takes nothing. -/
lemma optional_of_means {line verb rest body : Bytes} {f g : Frame} {e : ParseError}
    (hs : splitVerb line = (verb, rest))
    (h : (if rest = [] then Header.full g else .bad e).Means body f) :
    ∃ w, line = verb ++ w ∧ Blanks w ∧ w.length ≤ 1 ∧ body = [] ∧ f = g := by
  by_cases hrest : rest = []
  · rw [if_pos hrest] at h
    subst hrest
    obtain ⟨w, hline, hw, hone⟩ := optional_of_splitVerb hs
    exact ⟨w, hline, hw, hone, h⟩
  · rw [if_neg hrest] at h
    exact absurd h id

/-- A verb that takes a non-empty text verbatim. -/
lemma verbatim_of_means {line verb rest body : Bytes} {f g : Frame} {e : ParseError}
    (hs : splitVerb line = (verb, rest))
    (h : (if rest = [] then Header.bad e else .full g).Means body f) :
    ∃ b, line = verb ++ b :: rest ∧ isBlank b = true ∧ rest ≠ [] ∧ body = [] ∧ f = g := by
  by_cases hrest : rest = []
  · rw [if_pos hrest] at h
    exact absurd h id
  · rw [if_neg hrest] at h
    obtain ⟨b, hb, hline⟩ := cons_of_splitVerb hs hrest
    exact ⟨b, hline, hb, hrest, h⟩

/-- Every derivation is the verdict of the parser on the line. -/
lemma Derives.means {line body : Bytes} {f : Frame} (h : Derives line body f) :
    (parseHeader line).Means body f := by
  unfold parseHeader
  cases h with
  | ping hw hone | pong hw hone | ok hw hone =>
      rw [splitVerb_optional (by decide) hw hone]
      exact ⟨rfl, rfl⟩
  | errAlone => exact ⟨rfl, rfl⟩
  | err hb message => rw [splitVerb_cons (by decide) hb message]; exact ⟨rfl, rfl⟩
  | @connect b hb options hne =>
      rw [splitVerb_cons (by decide) hb options]
      change (if options = [] then Header.bad .badHeader else .full (.connect options)).Means _ _
      rw [if_neg hne]
      exact ⟨rfl, rfl⟩
  | @info b hb options hne =>
      rw [splitVerb_cons (by decide) hb options]
      change (if options = [] then Header.bad .badHeader else .full (.info options)).Means _ _
      rw [if_neg hne]
      exact ⟨rfl, rfl⟩
  | sub h =>
      obtain ⟨rest, hs, hts⟩ := splitVerb_fields (ascii "SUB") (by decide) h
      rw [hs]
      exact means_subHeader.mpr ⟨rfl, Or.inl ⟨_, _, hts, rfl⟩⟩
  | subQueue h =>
      obtain ⟨rest, hs, hts⟩ := splitVerb_fields (ascii "SUB") (by decide) h
      rw [hs]
      exact means_subHeader.mpr ⟨rfl, Or.inr ⟨_, _, _, hts, rfl⟩⟩
  | unsub h =>
      obtain ⟨rest, hs, hts⟩ := splitVerb_fields (ascii "UNSUB") (by decide) h
      rw [hs]
      exact means_unsubHeader.mpr ⟨rfl, Or.inl ⟨_, hts, rfl⟩⟩
  | unsubMax h hcount =>
      obtain ⟨rest, hs, hts⟩ := splitVerb_fields (ascii "UNSUB") (by decide) h
      rw [hs]
      exact means_unsubHeader.mpr ⟨rfl, Or.inr ⟨_, _, _, hts,
        parseU64_eq_some.mpr ⟨(h.field _ (by simp)).1, hcount⟩, rfl⟩⟩
  | pub payload h hcount =>
      obtain ⟨rest, hs, hts⟩ := splitVerb_fields (ascii "PUB") (by decide) h
      rw [hs]
      exact means_pubHeader.mpr ⟨payload, rfl, Or.inl ⟨_, _, hts,
        parseUsize_eq_some.mpr ⟨(h.field _ (by simp)).1, hcount⟩, rfl⟩⟩
  | pubReply payload h hcount =>
      obtain ⟨rest, hs, hts⟩ := splitVerb_fields (ascii "PUB") (by decide) h
      rw [hs]
      exact means_pubHeader.mpr ⟨payload, rfl, Or.inr ⟨_, _, _, hts,
        parseUsize_eq_some.mpr ⟨(h.field _ (by simp)).1, hcount⟩, rfl⟩⟩
  | msg payload h hcount =>
      obtain ⟨rest, hs, hts⟩ := splitVerb_fields (ascii "MSG") (by decide) h
      rw [hs]
      exact means_msgHeader.mpr ⟨payload, rfl, Or.inl ⟨_, _, _, hts,
        parseUsize_eq_some.mpr ⟨(h.field _ (by simp)).1, hcount⟩, rfl⟩⟩
  | msgReply payload h hcount =>
      obtain ⟨rest, hs, hts⟩ := splitVerb_fields (ascii "MSG") (by decide) h
      rw [hs]
      exact means_msgHeader.mpr ⟨payload, rfl, Or.inr ⟨_, _, _, _, hts,
        parseUsize_eq_some.mpr ⟨(h.field _ (by simp)).1, hcount⟩, rfl⟩⟩

/-- Every verdict of the parser on a line has a derivation. -/
lemma derives_of_means {line body : Bytes} {f : Frame} (h : (parseHeader line).Means body f) :
    Derives line body f := by
  obtain ⟨verb, rest, hs⟩ : ∃ verb rest, splitVerb line = (verb, rest) := ⟨_, _, rfl⟩
  rw [parseHeader, hs] at h
  dsimp only at h
  by_cases hping : verb = ascii "PING"
  · subst hping
    rw [if_pos rfl] at h
    obtain ⟨w, rfl, hw, hone, rfl, rfl⟩ := optional_of_means hs h
    exact .ping hw hone
  rw [if_neg hping] at h
  by_cases hpong : verb = ascii "PONG"
  · subst hpong
    rw [if_pos rfl] at h
    obtain ⟨w, rfl, hw, hone, rfl, rfl⟩ := optional_of_means hs h
    exact .pong hw hone
  rw [if_neg hpong] at h
  by_cases hok : verb = ascii "+OK"
  · subst hok
    rw [if_pos rfl] at h
    obtain ⟨w, rfl, hw, hone, rfl, rfl⟩ := optional_of_means hs h
    exact .ok hw hone
  rw [if_neg hok] at h
  by_cases herr : verb = ascii "-ERR"
  · subst herr
    rw [if_pos rfl] at h
    obtain ⟨rfl, rfl⟩ := h
    obtain ⟨-, ⟨rfl, rfl⟩ | ⟨b, hb, rfl⟩⟩ := splitVerb_eq_iff.mp hs
    · exact .errAlone
    · exact .err hb rest
  rw [if_neg herr] at h
  by_cases hconnect : verb = ascii "CONNECT"
  · subst hconnect
    rw [if_pos rfl] at h
    obtain ⟨b, rfl, hb, hne, rfl, rfl⟩ := verbatim_of_means hs h
    exact .connect hb hne
  rw [if_neg hconnect] at h
  by_cases hinfo : verb = ascii "INFO"
  · subst hinfo
    rw [if_pos rfl] at h
    obtain ⟨b, rfl, hb, hne, rfl, rfl⟩ := verbatim_of_means hs h
    exact .info hb hne
  rw [if_neg hinfo] at h
  by_cases hsub : verb = ascii "SUB"
  · subst hsub
    rw [if_pos rfl] at h
    obtain ⟨rfl, ⟨subject, sid, hts, rfl⟩ | ⟨subject, queueGroup, sid, hts, rfl⟩⟩ :=
      means_subHeader.mp h
    · obtain ⟨s, rfl, hfields⟩ := fields_of_splitVerb hs hts (by simp)
      exact .sub hfields
    · obtain ⟨s, rfl, hfields⟩ := fields_of_splitVerb hs hts (by simp)
      exact .subQueue hfields
  rw [if_neg hsub] at h
  by_cases hunsub : verb = ascii "UNSUB"
  · subst hunsub
    rw [if_pos rfl] at h
    obtain ⟨rfl, ⟨sid, hts, rfl⟩ | ⟨sid, count, n, hts, hcount, rfl⟩⟩ := means_unsubHeader.mp h
    · obtain ⟨s, rfl, hfields⟩ := fields_of_splitVerb hs hts (by simp)
      exact .unsub hfields
    · obtain ⟨s, rfl, hfields⟩ := fields_of_splitVerb hs hts (by simp)
      exact .unsubMax hfields (parseU64_eq_some.mp hcount).2
  rw [if_neg hunsub] at h
  by_cases hpub : verb = ascii "PUB"
  · subst hpub
    rw [if_pos rfl] at h
    obtain ⟨payload, rfl, ⟨subject, count, hts, hcount, rfl⟩ |
      ⟨subject, replyTo, count, hts, hcount, rfl⟩⟩ := means_pubHeader.mp h
    · obtain ⟨s, rfl, hfields⟩ := fields_of_splitVerb hs hts (by simp)
      exact .pub payload hfields (parseUsize_eq_some.mp hcount).2
    · obtain ⟨s, rfl, hfields⟩ := fields_of_splitVerb hs hts (by simp)
      exact .pubReply payload hfields (parseUsize_eq_some.mp hcount).2
  rw [if_neg hpub] at h
  by_cases hmsg : verb = ascii "MSG"
  · subst hmsg
    rw [if_pos rfl] at h
    obtain ⟨payload, rfl, ⟨subject, sid, count, hts, hcount, rfl⟩ |
      ⟨subject, sid, replyTo, count, hts, hcount, rfl⟩⟩ := means_msgHeader.mp h
    · obtain ⟨s, rfl, hfields⟩ := fields_of_splitVerb hs hts (by simp)
      exact .msg payload hfields (parseUsize_eq_some.mp hcount).2
    · obtain ⟨s, rfl, hfields⟩ := fields_of_splitVerb hs hts (by simp)
      exact .msgReply payload hfields (parseUsize_eq_some.mp hcount).2
  rw [if_neg hmsg] at h
  exact absurd h id

/-- The verdict of the parser on a line is what the rules derive. -/
lemma means_parseHeader {line body : Bytes} {f : Frame} :
    (parseHeader line).Means body f ↔ Derives line body f :=
  ⟨derives_of_means, Derives.means⟩

/-! ## The first line end -/

/-- What the search finds is the first line end. -/
lemma firstCrlf_of_findCrlf {buf : Bytes} {i : ℕ} (h : findCrlf buf = some i) :
    FirstCrlf buf i := by
  constructor
  · rw [eq_append_of_findCrlf h, ← List.append_assoc]
    have hle := findCrlf_le h
    have hlen : (buf.take i).length = i := by rw [List.length_take]; omega
    exact slice_append_append _ _ _ hlen.symm (by rw [hlen, length_crlf])
  · intro j hj hslice
    have hnone := findCrlf_take_of_lt h (show j + 2 < i + 2 by omega)
    refine findCrlf_eq_none.mp hnone (List.IsSuffix.isInfix ?_)
    rw [← hslice]
    exact List.drop_suffix j _

/-- The search finds the first line end. -/
lemma FirstCrlf.findCrlf_eq {buf : Bytes} {i : ℕ} (h : FirstCrlf buf i) :
    findCrlf buf = some i := by
  cases hfind : findCrlf buf with
  | none =>
      refine absurd ?_ (findCrlf_eq_none.mp hfind)
      rw [← h.1, slice]
      exact (List.drop_suffix i _).isInfix.trans (List.take_prefix _ buf).isInfix
  | some j =>
      have hj := firstCrlf_of_findCrlf hfind
      rcases lt_trichotomy i j with hlt | rfl | hlt
      · exact absurd h.1 (hj.2 i hlt)
      · rfl
      · exact absurd hj.1 (h.2 j hlt)

/-! ## The parser accepts exactly the grammar -/

/-- What the parser accepts has a derivation. -/
lemma derives_of_parseFrame {buf : Bytes} {f : Frame} {c : ℕ} (h : parseFrame buf = .frame f c) :
    ∃ line body, buf.take c = line ++ crlf ++ body ∧ FirstCrlf buf line.length ∧
      Derives line body f := by
  obtain ⟨i, hi, ho⟩ := exists_findCrlf (b := buf) (by rw [h]; simp)
  have hle := findCrlf_le hi
  have hfirst := firstCrlf_of_findCrlf hi
  have hlen : (buf.take i).length = i := by rw [List.length_take]; omega
  have hline : buf.take (i + 2) = buf.take i ++ crlf := by
    rw [← hfirst.1, take_append_slice buf (by omega)]
  rw [ho, Header.outcome_eq_frame] at h
  obtain ⟨hd, rfl⟩ | ⟨mk, len, hd, rfl, -, hc, hcrlf, rfl⟩ := h
  · refine ⟨buf.take i, [], by rw [hline, List.append_nil], by rwa [hlen], ?_⟩
    exact means_parseHeader.mp (by rw [hd]; exact ⟨rfl, rfl⟩)
  · refine ⟨buf.take i, slice buf (i + 2) (i + 2 + len) ++ crlf, ?_, by rwa [hlen], ?_⟩
    · rw [← hline, ← hcrlf, ← List.append_assoc, take_append_slice buf (by omega),
        take_append_slice buf (by omega)]
    · refine means_parseHeader.mp ?_
      rw [hd]
      exact ⟨_, rfl, by rw [length_slice (by omega)]; omega, rfl⟩

/-- What has a derivation is accepted; a slice is always shorter than `2 ^ 64` bytes. -/
lemma parseFrame_of_derives {buf line body : Bytes} {f : Frame} {c : ℕ}
    (hbuf : buf.length < wordMod) (hc : c ≤ buf.length) (htake : buf.take c = line ++ crlf ++ body)
    (hfirst : FirstCrlf buf line.length) (h : Derives line body f) :
    parseFrame buf = .frame f c := by
  obtain ⟨rest, hrest⟩ : ∃ rest, buf = line ++ crlf ++ body ++ rest :=
    ⟨buf.drop c, by rw [← htake, List.take_append_drop]⟩
  have hcount : c = line.length + 2 + body.length := by
    have hlen := congrArg List.length htake
    simp only [List.length_take, List.length_append, length_crlf] at hlen
    omega
  have hline : buf.take line.length = line := by
    rw [hrest, List.append_assoc, List.append_assoc, List.take_left']
    rfl
  rw [parseFrame_of_some hfirst.findCrlf_eq, hline]
  have hmeans := h.means
  cases hd : parseHeader line with
  | bad e => rw [hd] at hmeans; exact absurd hmeans id
  | full g =>
      rw [hd] at hmeans
      obtain ⟨rfl, rfl⟩ := hmeans
      rw [Header.outcome, hcount]
      rfl
  | withBody mk len =>
      rw [hd] at hmeans
      obtain ⟨payload, rfl, rfl, rfl⟩ := hmeans
      have hlen : (line ++ crlf ++ (payload ++ crlf)).length = c := by
        simp only [List.length_append, length_crlf] at hcount ⊢
        omega
      rw [hrest, outcome_withBody mk line payload rest (by omega), hlen]

/-! ## Blanks between fields -/

/-- A string of fields holds a line end only inside a field. -/
lemma Fields.findCrlf_append {a s : Bytes} {ts : List Bytes} (h : Fields ts s)
    (ha : findCrlf a = none) (hts : ∀ t ∈ ts, findCrlf t = none) : findCrlf (a ++ s) = none := by
  have hblanks : ∀ w s : Bytes, Blanks w → findCrlf s = none → findCrlf (w ++ s) = none := by
    intro w s hw hs
    induction w with
    | nil => exact hs
    | cons b w ih =>
        exact findCrlf_cons_of_blank (hw b List.mem_cons_self)
          (ih fun x hx => hw x (List.mem_cons_of_mem b hx))
  induction h generalizing a with
  | @nil w hw =>
      cases w with
      | nil => rwa [List.append_nil]
      | cons b w =>
          refine findCrlf_append_blank (hw b List.mem_cons_self) ha ?_
          have := hblanks w [] (fun x hx => hw x (List.mem_cons_of_mem b hx)) rfl
          rwa [List.append_nil] at this
  | @cons w t s ts hne hw ht hs ih =>
      obtain ⟨b, w, rfl⟩ := List.exists_cons_of_ne_nil hne
      refine findCrlf_append_blank (hw b List.mem_cons_self) ha
        (hblanks w (t ++ s) (fun x hx => hw x (List.mem_cons_of_mem b hx)) ?_)
      exact ih (hts t List.mem_cons_self) fun t' ht' => hts t' (List.mem_cons_of_mem t ht')

/-- A field is part of the string. -/
lemma Fields.isInfix {ts : List Bytes} {s : Bytes} (h : Fields ts s) : ∀ t ∈ ts, t <:+: s := by
  induction h with
  | nil hw => simp
  | @cons w t s ts hne hw ht hs ih =>
      intro t' hmem
      rcases List.mem_cons.mp hmem with rfl | hmem
      · exact ⟨w, s, by simp⟩
      · obtain ⟨u, v, rfl⟩ := ih t' hmem
        exact ⟨w ++ t ++ u, v, by simp⟩

/-- The verbs whose lines are tokenised. -/
def fieldVerbs : List Bytes := [ascii "SUB", ascii "UNSUB", ascii "PUB", ascii "MSG"]

/-- Strings of the same fields say the same after such a verb. -/
lemma parseHeader_congr {verb s s' : Bytes} {ts : List Bytes} (hverb : verb ∈ fieldVerbs)
    (hs : Fields ts s) (hs' : Fields ts s') :
    parseHeader (verb ++ s) = parseHeader (verb ++ s') := by
  have hblank : verb.any isBlank = false := by
    simp only [fieldVerbs, List.mem_cons, List.not_mem_nil, or_false] at hverb
    rcases hverb with rfl | rfl | rfl | rfl <;> decide
  obtain ⟨rest, hsplit, htokens⟩ := splitVerb_fields verb hblank hs
  obtain ⟨rest', hsplit', htokens'⟩ := splitVerb_fields verb hblank hs'
  simp only [fieldVerbs, List.mem_cons, List.not_mem_nil, or_false] at hverb
  simp only [parseHeader, hsplit, hsplit', htokens, htokens']
  rcases hverb with rfl | rfl | rfl | rfl <;> rfl

/-- Strings of the same fields hold a line end together. -/
lemma findCrlf_congr {verb s s' : Bytes} {ts : List Bytes} (hs : Fields ts s) (hs' : Fields ts s')
    (h : findCrlf (verb ++ s) = none) : findCrlf (verb ++ s') = none := by
  have hpart : ∀ t : Bytes, t <:+: verb ++ s → findCrlf t = none := fun t ht =>
    findCrlf_eq_none.mpr fun hcrlf => findCrlf_eq_none.mp h (hcrlf.trans ht)
  refine hs'.findCrlf_append (hpart verb (List.prefix_append verb s).isInfix) fun t ht => ?_
  exact hpart t ((hs.isInfix t ht).trans (List.suffix_append verb s).isInfix)

/-- **The parser accepts exactly its grammar.** A buffer, as every slice shorter than `2 ^ 64`
bytes, parses to a frame exactly when it starts with a derivation of it whose header line ends at
the first line end of the buffer. So the blanks between the fields never change the frame. -/
theorem parseFrame_eq_frame_iff {buf : Bytes} (hbuf : buf.length < wordMod) :
    (∀ f c, parseFrame buf = .frame f c ↔ c ≤ buf.length ∧ ∃ line body,
      buf.take c = line ++ crlf ++ body ∧ FirstCrlf buf line.length ∧ Derives line body f) ∧
    ∀ verb ∈ fieldVerbs, ∀ ts s s' rest, Fields ts s → Fields ts s' →
      buf = verb ++ s ++ crlf ++ rest → FirstCrlf buf (verb ++ s).length →
      (verb ++ s' ++ crlf ++ rest).length < wordMod →
      ∀ f c, parseFrame buf = .frame f c →
        parseFrame (verb ++ s' ++ crlf ++ rest) = .frame f (c + s'.length - s.length) := by
  constructor
  · intro f c
    constructor
    · intro h
      exact ⟨(parseFrame_progress h).2, derives_of_parseFrame h⟩
    · rintro ⟨hc, line, body, htake, hfirst, hderives⟩
      exact parseFrame_of_derives hbuf hc htake hfirst hderives
  · rintro verb hverb ts s s' rest hs hs' rfl hfirst hbuf' f c h
    obtain ⟨line, body, htake, hfirst', hderives⟩ := derives_of_parseFrame h
    have hc := (parseFrame_progress h).2
    have hlen : (verb ++ s).length = line.length :=
      Option.some.inj (hfirst.findCrlf_eq.symm.trans hfirst'.findCrlf_eq)
    -- the line and the body that were derived are parts of the buffer
    have hparts : verb ++ s ++ (crlf ++ rest) =
        line ++ (crlf ++ (body ++ (verb ++ s ++ crlf ++ rest).drop c)) := by
      rw [← List.append_assoc line, ← List.append_assoc (line ++ crlf), ← htake,
        List.take_append_drop, List.append_assoc (verb ++ s)]
    obtain ⟨rfl, htail⟩ := List.append_inj hparts hlen
    generalize (verb ++ s ++ crlf ++ rest).drop c = extra at htail
    obtain rfl : rest = body ++ extra := List.append_cancel_left htail
    have hnone : findCrlf (verb ++ s) = none := by
      have := findCrlf_take_of_lt hfirst.findCrlf_eq (Nat.lt_add_of_pos_right two_pos)
      rwa [List.append_assoc, List.take_left' rfl] at this
    have hfirst₂ : FirstCrlf (verb ++ s' ++ crlf ++ (body ++ extra)) (verb ++ s').length := by
      rw [List.append_assoc]
      exact firstCrlf_of_findCrlf (findCrlf_append_crlf (findCrlf_congr hs hs' hnone) _)
    have hcount : c = (verb ++ s).length + 2 + body.length := by
      have hlen := congrArg List.length htake
      simp only [List.length_take, List.length_append, length_crlf] at hlen hc ⊢
      omega
    have hcount' : c + s'.length - s.length = (verb ++ s' ++ crlf ++ body).length := by
      simp only [List.length_append, length_crlf] at hcount ⊢
      omega
    have hderives' : Derives (verb ++ s') body f := by
      rw [← means_parseHeader, ← parseHeader_congr hverb hs hs', means_parseHeader]
      exact hderives
    refine parseFrame_of_derives hbuf' ?_ ?_ hfirst₂ hderives'
    · rw [hcount', ← List.append_assoc]
      exact (List.prefix_append _ extra).length_le
    · rw [hcount', ← List.append_assoc, List.take_left' rfl]

/-- A publish with a tab, two spaces, a leading zero in its count and a blank at its end, and the
same with single spaces. -/
theorem parseFrame_eq_frame_iff_pub :
    let f : Frame := .pub (ascii "foo") none (ascii "abc")
    let buf := ascii "PUB" ++ ascii "\tfoo  03 " ++ crlf ++ ascii "abc\r\nPI"
    (∃ line body, buf.take 19 = line ++ crlf ++ body ∧ FirstCrlf buf line.length ∧
      Derives line body f) ∧
    parseFrame (ascii "PUB" ++ ascii " foo 03" ++ crlf ++ ascii "abc\r\nPI") = .frame f 17 := by
  intro f buf
  have hexact := parseFrame_eq_frame_iff (show buf.length < wordMod by decide)
  have hparse : parseFrame buf = .frame f 19 := by decide
  have hs : Fields [ascii "foo", ascii "03"] (ascii "\tfoo  03 ") :=
    fields_of_tokens (b := 9) (r := ascii "foo  03 ") rfl (by decide)
  have hs' : Fields [ascii "foo", ascii "03"] (ascii " foo 03") :=
    fields_of_tokens (b := 32) (r := ascii "foo 03") rfl (by decide)
  refine ⟨((hexact.1 f 19).mp hparse).2, ?_⟩
  exact hexact.2 (ascii "PUB") (by simp [fieldVerbs]) _ _ _ (ascii "abc\r\nPI") hs hs' rfl
    (firstCrlf_of_findCrlf (by decide)) (by decide) f 19 hparse

end Aulon.Proto
