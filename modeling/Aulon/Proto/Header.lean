import Aulon.Proto.Parse

/-!
# What a header line says

`parseFrame` reads the buffer twice: the header line up to the first line end, and, for `PUB` and
`MSG`, the payload after it. This file separates the two.

* `tokens s` — the blank-separated tokens of a string, by splitting. `TokenIter.next` takes
  them one at a time (`next_of_tokens_nil`, `next_of_tokens_cons`).
* `parseHeader line` — the verdict on a header line alone: an error, a complete frame, or a
  frame that still waits for a payload of a given length.
* `Header.outcome` — the verdict on the whole buffer, given the one on its header line.
* `parseFrame_eq` — `parseFrame` is the composition. Everything later about the parser goes
  through this equation.
-/

namespace Aulon.Proto

open Aulon.Lib

/-! ## Tokens of a line -/

/-- The blank-separated tokens of a string. -/
def tokens (s : Bytes) : List Bytes := (s.splitOnP isBlank).filter fun t => !t.isEmpty

/-- There is no token in nothing. -/
@[simp] lemma tokens_nil : tokens [] = [] := rfl

/-- A leading blank makes no difference. -/
lemma tokens_cons_of_blank {b : UInt8} (hb : isBlank b = true) (s : Bytes) :
    tokens (b :: s) = tokens s := by
  simp [tokens, List.splitOnP_cons_eq_if_modifyHead, hb]

/-- A blank-free token at the front, ended by a blank. -/
lemma tokens_append_cons {t : Bytes} (hne : t ≠ []) (ht : ∀ x ∈ t, isBlank x = false)
    {b : UInt8} (hb : isBlank b = true) (s : Bytes) :
    tokens (t ++ b :: s) = t :: tokens s := by
  simp [tokens, List.splitOnP_append_cons_of_forall_mem ht b hb s, hne]

/-- A blank-free string is its only token. -/
lemma tokens_of_no_blank {t : Bytes} (hne : t ≠ []) (ht : ∀ x ∈ t, isBlank x = false) :
    tokens t = [t] := by
  simp [tokens, List.splitOnP_eq_singleton ht, hne]

/-- Trimming the leading blanks makes no difference. -/
lemma tokens_trimLeadingSpaces (s : Bytes) : tokens (trimLeadingSpaces s) = tokens s := by
  induction s with
  | nil => rfl
  | cons b s ih =>
      by_cases hb : isBlank b = true
      · rw [tokens_cons_of_blank hb, ← ih]
        simp [trimLeadingSpaces, hb]
      · simp [trimLeadingSpaces, hb]

/-- After trimming, a string is empty or starts with a byte that is not blank. -/
lemma trimLeadingSpaces_cases (s : Bytes) :
    trimLeadingSpaces s = [] ∨
      ∃ x t, trimLeadingSpaces s = x :: t ∧ isBlank x = false := by
  rcases h : trimLeadingSpaces s with _ | ⟨x, t⟩
  · exact Or.inl rfl
  · refine Or.inr ⟨x, t, rfl, ?_⟩
    have hx := List.head?_dropWhile_not isBlank s
    rw [trimLeadingSpaces] at h
    simpa [h] using hx

/-- What `TokenIter.next` does on a trimmed, non-empty rest: it takes the first token and leaves
the others. -/
lemma next_of_trimmed {s : Bytes} {x : UInt8} {t : Bytes}
    (h : trimLeadingSpaces s = x :: t) (hx : isBlank x = false) :
    ∃ token rest, (TokenIter.mk s).next = (some token, ⟨rest⟩) ∧
      tokens s = token :: tokens rest := by
  rw [← tokens_trimLeadingSpaces, h]
  have hnext : (TokenIter.mk s).next =
      (some ((x :: t).take (((x :: t).findIdx? isBlank).getD (x :: t).length)),
        ⟨(x :: t).drop (((x :: t).findIdx? isBlank).getD (x :: t).length)⟩) := by
    simp [TokenIter.next, h]
  rw [hnext]
  refine ⟨_, _, rfl, ?_⟩
  cases hidx : (x :: t).findIdx? isBlank with
  | none =>
      have hall : ∀ y ∈ x :: t, isBlank y = false := by
        simpa [List.findIdx?_eq_none_iff] using hidx
      rw [Option.getD_none, List.take_length, List.drop_length, tokens_nil]
      exact tokens_of_no_blank (by simp) hall
  | some i =>
      obtain ⟨hi, hblank, hbefore⟩ := List.findIdx?_eq_some_iff_getElem.mp hidx
      have hi0 : i ≠ 0 := by rintro rfl; simp [hx] at hblank
      have hdrop : (x :: t).drop i = (x :: t)[i] :: (x :: t).drop (i + 1) :=
        List.drop_eq_getElem_cons hi
      have htake : ∀ y ∈ (x :: t).take i, isBlank y = false := by
        intro y hy
        obtain ⟨j, hj, rfl⟩ := List.mem_take_iff_getElem.mp hy
        simpa using hbefore j (by omega)
      rw [Option.getD_some, hdrop, tokens_cons_of_blank hblank]
      conv_lhs => rw [← List.take_append_drop i (x :: t), hdrop]
      exact tokens_append_cons (by simp [hi0]) htake hblank _

/-- The iterator ends where there is no token left. -/
lemma next_of_tokens_nil {s : Bytes} (h : tokens s = []) :
    (TokenIter.mk s).next = (none, ⟨[]⟩) := by
  rcases trimLeadingSpaces_cases s with hnil | ⟨x, t, hcons, hx⟩
  · simp [TokenIter.next, hnil]
  · obtain ⟨token, rest, -, htok⟩ := next_of_trimmed hcons hx
    rw [h] at htok
    cases htok

/-- The iterator yields the first token and goes on with the others. -/
lemma next_of_tokens_cons {s t : Bytes} {ts : List Bytes} (h : tokens s = t :: ts) :
    ∃ rest, (TokenIter.mk s).next = (some t, ⟨rest⟩) ∧ tokens rest = ts := by
  rcases trimLeadingSpaces_cases s with hnil | ⟨x, t, hcons, hx⟩
  · rw [← tokens_trimLeadingSpaces, hnil] at h
    cases h
  · obtain ⟨token, rest, hnext, htok⟩ := next_of_trimmed hcons hx
    rw [h] at htok
    cases htok
    exact ⟨rest, hnext, rfl⟩

/-! ## The verdict on a header line -/

/-- What a header line says on its own. -/
inductive Header where
  /-- The line is malformed. -/
  | bad (e : ParseError)
  /-- The line is a complete frame. -/
  | full (f : Frame)
  /-- The line announces a payload of `len` bytes. -/
  | withBody (mk : Bytes → Frame) (len : ℕ)

/-- A header that ends in a byte count. -/
def countHeader (mk : Bytes → Frame) (countToken : Bytes) : Header :=
  match parseUsize countToken with
  | none => .bad .payloadLengthInvalid
  | some len => .withBody mk len

/-- The verdict of the `SUB` parser on the tokens after the verb. -/
def subHeader : List Bytes → Header
  | [subject, sid] => .full (.sub subject none sid)
  | [subject, queueGroup, sid] => .full (.sub subject (some queueGroup) sid)
  | _ => .bad .badHeader

/-- The verdict of the `UNSUB` parser. The count is looked at before the arity. -/
def unsubHeader : List Bytes → Header
  | [] => .bad .badHeader
  | [sid] => .full (.unsub sid none)
  | sid :: token :: extra =>
      match parseU64 token with
      | none => .bad .maxMsgsInvalid
      | some n => if extra = [] then .full (.unsub sid (some n)) else .bad .badHeader

/-- The verdict of the `PUB` parser. -/
def pubHeader : List Bytes → Header
  | [subject, count] => countHeader (.pub subject none) count
  | [subject, replyTo, count] => countHeader (.pub subject (some replyTo)) count
  | _ => .bad .badHeader

/-- The verdict of the `MSG` parser. -/
def msgHeader : List Bytes → Header
  | [subject, sid, count] => countHeader (.msg subject sid none) count
  | [subject, sid, replyTo, count] => countHeader (.msg subject sid (some replyTo)) count
  | _ => .bad .badHeader

/-- The verdict on a header line. -/
def parseHeader (line : Bytes) : Header :=
  let (verb, rest) := splitVerb line
  if verb = ascii "PING" then if rest = [] then .full .ping else .bad .badHeader
  else if verb = ascii "PONG" then if rest = [] then .full .pong else .bad .badHeader
  else if verb = ascii "+OK" then if rest = [] then .full .ok else .bad .badHeader
  else if verb = ascii "-ERR" then .full (.err rest)
  else if verb = ascii "CONNECT" then if rest = [] then .bad .badHeader else .full (.connect rest)
  else if verb = ascii "INFO" then if rest = [] then .bad .badHeader else .full (.info rest)
  else if verb = ascii "SUB" then subHeader (tokens rest)
  else if verb = ascii "UNSUB" then unsubHeader (tokens rest)
  else if verb = ascii "PUB" then pubHeader (tokens rest)
  else if verb = ascii "MSG" then msgHeader (tokens rest)
  else .bad .unknownVerb

/-- The verdict on the buffer, given the one on its header line of `headerTotal` bytes. -/
def Header.outcome (buf : Bytes) (headerTotal : ℕ) : Header → ParseOutcome
  | .bad e => .err e
  | .full f => .frame f headerTotal
  | .withBody mk len =>
      if headerTotal + len + 2 < wordMod then
        if buf.length < headerTotal + len + 2 then .needMore
        else if slice buf (headerTotal + len) (headerTotal + len + 2) = crlf then
          .frame (mk (slice buf headerTotal (headerTotal + len))) (headerTotal + len + 2)
        else .err .missingTrailingCrlf
      else .err .payloadLengthInvalid

/-! ## The parser factors through the header -/

/-- A line end has two bytes. -/
lemma length_crlf : crlf.length = 2 := rfl

/-- The two payload functions of the source together give one verdict. -/
lemma parseBody_eq (mk : Bytes → Frame) (buf countToken : Bytes) (headerTotal : ℕ) :
    parseBody mk buf countToken headerTotal =
      (countHeader mk countToken).outcome buf headerTotal := by
  unfold parseBody countHeader
  cases parseUsize countToken with
  | none => rfl
  | some len =>
      simp only [consumePayload, needMoreOrMissingCrlf, Header.outcome, length_crlf]
      by_cases hsum : headerTotal + len < wordMod
      · rw [checkedAdd_of_lt hsum]
        by_cases htotal : headerTotal + len + 2 < wordMod
        · simp only [checkedAdd_of_lt htotal, Option.bind_eq_bind, Option.bind_some, htotal,
            if_true]
          split_ifs <;> simp_all
        · simp [checkedAdd, htotal]
      · have htotal : ¬ headerTotal + len + 2 < wordMod := by omega
        simp [checkedAdd, hsum, htotal]

section verbs

variable (buf rest : Bytes) (headerTotal : ℕ)

/-- A verb without arguments, as a header. -/
lemma headerOnly_eq (f : Frame) :
    headerOnly f rest headerTotal =
      (if rest = [] then Header.full f else .bad .badHeader).outcome buf headerTotal := by
  cases rest <;> rfl

/-- A verb with a verbatim argument, as a header. -/
lemma parseVerbatim_eq (mk : Bytes → Frame) :
    parseVerbatim mk rest headerTotal =
      (if rest = [] then Header.bad .badHeader else .full (mk rest)).outcome buf headerTotal := by
  cases rest <;> rfl

/-- A SUB line, as a header. -/
lemma parseSub_eq :
    parseSub rest headerTotal = (subHeader (tokens rest)).outcome buf headerTotal := by
  unfold parseSub
  rcases h₁ : tokens rest with _ | ⟨subject, ts⟩
  · simp [next_of_tokens_nil h₁, subHeader, Header.outcome]
  · obtain ⟨r₁, hn₁, ht₁⟩ := next_of_tokens_cons h₁
    rcases ts with _ | ⟨second, ts⟩
    · simp [hn₁, next_of_tokens_nil ht₁, subHeader, Header.outcome]
    · obtain ⟨r₂, hn₂, ht₂⟩ := next_of_tokens_cons ht₁
      rcases ts with _ | ⟨third, ts⟩
      · simp [hn₁, hn₂, next_of_tokens_nil ht₂, next_of_tokens_nil tokens_nil,
          subHeader, Header.outcome]
      · obtain ⟨r₃, hn₃, ht₃⟩ := next_of_tokens_cons ht₂
        rcases ts with _ | ⟨extra, ts⟩
        · simp [hn₁, hn₂, hn₃, next_of_tokens_nil ht₃, subHeader, Header.outcome]
        · obtain ⟨r₄, hn₄, -⟩ := next_of_tokens_cons ht₃
          simp [hn₁, hn₂, hn₃, hn₄, subHeader, Header.outcome]

/-- An UNSUB line, as a header. -/
lemma parseUnsub_eq :
    parseUnsub rest headerTotal = (unsubHeader (tokens rest)).outcome buf headerTotal := by
  unfold parseUnsub
  rcases h₁ : tokens rest with _ | ⟨sid, ts⟩
  · simp [next_of_tokens_nil h₁, unsubHeader, Header.outcome]
  · obtain ⟨r₁, hn₁, ht₁⟩ := next_of_tokens_cons h₁
    rcases ts with _ | ⟨token, ts⟩
    · simp [hn₁, next_of_tokens_nil ht₁, next_of_tokens_nil tokens_nil,
        unsubHeader, Header.outcome]
    · obtain ⟨r₂, hn₂, ht₂⟩ := next_of_tokens_cons ht₁
      simp only [hn₁, hn₂, unsubHeader]
      cases parseU64 token with
      | none => rfl
      | some n =>
          rcases ts with _ | ⟨extra, ts⟩
          · simp [next_of_tokens_nil ht₂, Header.outcome]
          · obtain ⟨r₃, hn₃, -⟩ := next_of_tokens_cons ht₂
            simp [hn₃, Header.outcome]

/-- A PUB line, as a header. -/
lemma parsePub_eq :
    parsePub buf rest headerTotal = (pubHeader (tokens rest)).outcome buf headerTotal := by
  unfold parsePub
  rcases h₁ : tokens rest with _ | ⟨subject, ts⟩
  · simp [next_of_tokens_nil h₁, pubHeader, Header.outcome]
  · obtain ⟨r₁, hn₁, ht₁⟩ := next_of_tokens_cons h₁
    rcases ts with _ | ⟨second, ts⟩
    · simp [hn₁, next_of_tokens_nil ht₁, pubHeader, Header.outcome]
    · obtain ⟨r₂, hn₂, ht₂⟩ := next_of_tokens_cons ht₁
      rcases ts with _ | ⟨third, ts⟩
      · simp [hn₁, hn₂, next_of_tokens_nil ht₂, next_of_tokens_nil tokens_nil,
          pubHeader, parseBody_eq]
      · obtain ⟨r₃, hn₃, ht₃⟩ := next_of_tokens_cons ht₂
        rcases ts with _ | ⟨extra, ts⟩
        · simp [hn₁, hn₂, hn₃, next_of_tokens_nil ht₃, pubHeader, parseBody_eq]
        · obtain ⟨r₄, hn₄, -⟩ := next_of_tokens_cons ht₃
          simp [hn₁, hn₂, hn₃, hn₄, pubHeader, Header.outcome]

/-- A MSG line, as a header. -/
lemma parseMsg_eq :
    parseMsg buf rest headerTotal = (msgHeader (tokens rest)).outcome buf headerTotal := by
  unfold parseMsg
  rcases h₁ : tokens rest with _ | ⟨subject, ts⟩
  · simp [next_of_tokens_nil h₁, msgHeader, Header.outcome]
  · obtain ⟨r₁, hn₁, ht₁⟩ := next_of_tokens_cons h₁
    rcases ts with _ | ⟨sid, ts⟩
    · simp [hn₁, next_of_tokens_nil ht₁, msgHeader, Header.outcome]
    · obtain ⟨r₂, hn₂, ht₂⟩ := next_of_tokens_cons ht₁
      rcases ts with _ | ⟨third, ts⟩
      · simp [hn₁, hn₂, next_of_tokens_nil ht₂, msgHeader, Header.outcome]
      · obtain ⟨r₃, hn₃, ht₃⟩ := next_of_tokens_cons ht₂
        rcases ts with _ | ⟨fourth, ts⟩
        · simp [hn₁, hn₂, hn₃, next_of_tokens_nil ht₃,
            next_of_tokens_nil tokens_nil, msgHeader, parseBody_eq]
        · obtain ⟨r₄, hn₄, ht₄⟩ := next_of_tokens_cons ht₃
          rcases ts with _ | ⟨extra, ts⟩
          · simp [hn₁, hn₂, hn₃, hn₄, next_of_tokens_nil ht₄, msgHeader, parseBody_eq]
          · obtain ⟨r₅, hn₅, -⟩ := next_of_tokens_cons ht₄
            simp [hn₁, hn₂, hn₃, hn₄, hn₅, msgHeader, Header.outcome]

end verbs

/-- **`parseFrame` is the verdict on its header line, carried to the buffer.** -/
theorem parseFrame_eq (buf : Bytes) :
    parseFrame buf =
      match findCrlf buf with
      | none => .needMore
      | some lineEnd => (parseHeader (buf.take lineEnd)).outcome buf (lineEnd + 2) := by
  unfold parseFrame
  cases findCrlf buf with
  | none => rfl
  | some lineEnd =>
      simp only [parseHeader, length_crlf, parseErr, parseConnect, parseInfo, headerOnly_eq buf,
        parseVerbatim_eq buf, parseSub_eq buf, parseUnsub_eq buf, parsePub_eq, parseMsg_eq,
        apply_ite (Header.outcome buf (lineEnd + 2))]
      rfl

end Aulon.Proto
