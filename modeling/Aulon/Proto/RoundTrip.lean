import Aulon.Proto.Emit
import Aulon.Proto.Streaming

/-!
# Decoding undoes encoding

For every well-formed frame and everything that may follow it on the wire, `parseFrame` of the
bytes `emitFrame` wrote is that frame, with exactly those bytes consumed.

A well-formed frame (`Frame.WellFormed`) has non-empty, blank-free subjects, sids, queue groups
and reply subjects, non-empty `CONNECT`/`INFO` options, and no line end inside a header field.
Fields may hold lone carriage returns and line feeds, also next to a separator; payloads are
arbitrary.

The argument follows the parser: the header line holds no line end (`findCrlf_headerLine`), so
the search stops where the encoder put one; the verdict on the line is the frame, or the frame
waiting for its payload (`parseHeader_headerLine`); and the payload is cut out where the encoder
put it.
-/

namespace Aulon.Proto

open Aulon.Lib

/-! ## Well-formed frames -/

/-- A field that travels as one token: not empty, no space or tab, no line end inside. -/
def IsToken (t : Bytes) : Prop := t ≠ [] ∧ (∀ x ∈ t, x ≠ 32 ∧ x ≠ 9) ∧ ¬ crlf <:+: t

/-- The frames whose fields can be told apart on the wire. -/
def Frame.WellFormed : Frame → Prop
  | .ping | .pong | .ok => True
  | .err message => ¬ crlf <:+: message
  | .info options | .connect options => options ≠ [] ∧ ¬ crlf <:+: options
  | .sub subject queueGroup sid => IsToken subject ∧ (∀ q ∈ queueGroup, IsToken q) ∧ IsToken sid
  | .unsub sid _ => IsToken sid
  | .pub subject replyTo _ => IsToken subject ∧ ∀ r ∈ replyTo, IsToken r
  | .msg subject sid replyTo _ => IsToken subject ∧ IsToken sid ∧ ∀ r ∈ replyTo, IsToken r

/-- A token is not empty. -/
lemma IsToken.ne_nil {t : Bytes} (h : IsToken t) : t ≠ [] := h.1

/-- There is no blank in a token. -/
lemma IsToken.no_blank {t : Bytes} (h : IsToken t) : ∀ x ∈ t, isBlank x = false := by
  intro x hx
  simp [isBlank, h.2.1 x hx]

/-! ## No line end in a header line -/

/-- The search for a line end finds one exactly when there is one. -/
lemma findCrlf_eq_none {b : Bytes} : findCrlf b = none ↔ ¬ crlf <:+: b := by
  constructor
  · rintro h ⟨s, t, rfl⟩
    rw [List.append_assoc] at h
    cases hs : findCrlf s with
    | none => rw [findCrlf_append_crlf hs] at h; cases h
    | some i => rw [findCrlf_append hs] at h; cases h
  · intro h
    cases hi : findCrlf b with
    | none => rfl
    | some i =>
        refine absurd ⟨b.take i, b.drop (i + 2), ?_⟩ h
        rw [List.append_assoc]
        exact (eq_append_of_findCrlf hi).symm

/-- A blank is not part of a line end. -/
lemma findCrlf_cons_of_blank {b : UInt8} (hb : isBlank b = true) {s : Bytes}
    (hs : findCrlf s = none) : findCrlf (b :: s) = none := by
  cases s with
  | nil => rfl
  | cons y t =>
      have hcr : (b == cr) = false := by
        rw [beq_eq_false_iff_ne]
        rintro rfl
        cases hb
      rw [findCrlf, hcr, Bool.false_and, if_neg Bool.false_ne_true, hs]
      rfl

/-- Two strings without a line end have none when a blank stands between them, whatever bytes
they end and start with. -/
lemma findCrlf_append_blank {a s : Bytes} {b : UInt8} (hb : isBlank b = true)
    (ha : findCrlf a = none) (hs : findCrlf s = none) : findCrlf (a ++ b :: s) = none := by
  induction a with
  | nil => exact findCrlf_cons_of_blank hb hs
  | cons x a ih =>
      rcases a with _ | ⟨y, a⟩
      · have hlf : (b == lf) = false := by
          rw [beq_eq_false_iff_ne]
          rintro rfl
          cases hb
        simp only [List.cons_append, List.nil_append, findCrlf, hlf, Bool.and_false,
          if_neg Bool.false_ne_true]
        rw [findCrlf_cons_of_blank hb hs]
        rfl
      · rw [findCrlf] at ha
        split_ifs at ha with hxy
        have ih' := ih (Option.map_eq_none_iff.mp ha)
        simp only [List.cons_append] at ih' ⊢
        rw [findCrlf, if_neg hxy, ih']
        rfl

/-- Two parts without a line end have none between them, if a space joins them. -/
lemma findCrlf_append_sp {a b : Bytes} (ha : findCrlf a = none) (hb : findCrlf b = none) :
    findCrlf (a ++ [sp] ++ b) = none := by
  rw [List.append_assoc]
  exact findCrlf_append_blank rfl ha hb

/-- There is no line end in a numeral. -/
lemma findCrlf_decimal (n : ℕ) : findCrlf (decimal n) = none := by
  refine findCrlf_eq_none.mpr fun h => ?_
  have hmem : cr ∈ decimal n := h.subset (by decide)
  have := isAsciiDigit_of_mem_decimal hmem
  simp [isAsciiDigit, cr] at this

/-- A field is a token if it passes three tests. -/
lemma isToken_of_any {t : Bytes} (hne : t ≠ []) (hblank : t.any isBlank = false)
    (hcrlf : findCrlf t = none) : IsToken t := by
  refine ⟨hne, fun x hx => ?_, findCrlf_eq_none.mp hcrlf⟩
  have hb : isBlank x = false := by
    simpa using (List.any_eq_false.mp hblank) x hx
  simpa [isBlank] using hb

/-- There is no line end in a token. -/
lemma IsToken.findCrlf {t : Bytes} (h : IsToken t) : findCrlf t = none :=
  findCrlf_eq_none.mpr h.2.2

/-- There is no line end in an optional field. -/
lemma findCrlf_encodeOptional {o : Option Bytes} (ho : ∀ t ∈ o, IsToken t) {b : Bytes}
    (hb : findCrlf b = none) : findCrlf (encodeOptional o ++ b) = none := by
  cases o with
  | none => exact hb
  | some t => exact findCrlf_append_sp (ho t rfl).findCrlf hb

/-- The header line of a well-formed frame holds no line end. -/
lemma findCrlf_headerLine {f : Frame} (hf : f.WellFormed) : findCrlf (headerLine f) = none := by
  cases f with
  | ping => rfl
  | pong => rfl
  | ok => rfl
  | err message => exact findCrlf_append_sp (by decide) (findCrlf_eq_none.mpr hf)
  | info options => exact findCrlf_append_sp (by decide) (findCrlf_eq_none.mpr hf.2)
  | connect options => exact findCrlf_append_sp (by decide) (findCrlf_eq_none.mpr hf.2)
  | sub subject queueGroup sid =>
      obtain ⟨hsubject, hqueue, hsid⟩ := hf
      exact findCrlf_append_sp (by decide) (findCrlf_append_sp hsubject.findCrlf
        (findCrlf_encodeOptional hqueue hsid.findCrlf))
  | unsub sid maxMsgs =>
      have hsid : IsToken sid := hf
      cases maxMsgs with
      | none => exact findCrlf_append_sp (by decide) hsid.findCrlf
      | some m =>
          exact findCrlf_append_sp (by decide)
            (findCrlf_append_sp hsid.findCrlf (findCrlf_decimal _))
  | pub subject replyTo payload =>
      exact findCrlf_append_sp (by decide) (findCrlf_append_sp hf.1.findCrlf
        (findCrlf_encodeOptional hf.2 (findCrlf_decimal _)))
  | msg subject sid replyTo payload =>
      obtain ⟨hsubject, hsid, hreply⟩ := hf
      exact findCrlf_append_sp (by decide) (findCrlf_append_sp hsubject.findCrlf
        (findCrlf_append_sp hsid.findCrlf
          (findCrlf_encodeOptional hreply (findCrlf_decimal _))))

/-! ## Numerals -/

/-- Reading digits one at a time with overflow checks gives their value, if that fits a word:
the values on the way are smaller. -/
lemma foldlM_digitStep {t : Bytes} {n : ℕ} (ht : ∀ b ∈ t, isAsciiDigit b = true)
    (hlt : valueFrom n t < wordMod) : t.foldlM digitStep n = some (valueFrom n t) := by
  induction t generalizing n with
  | nil => rfl
  | cons b t ih =>
      have hb : isAsciiDigit b = true := ht b List.mem_cons_self
      rw [valueFrom_cons] at hlt ⊢
      have hle := le_valueFrom (n * 10 + digitVal b) t
      have hstep : digitStep n b = some (n * 10 + digitVal b) := by
        rw [digitStep, hb, checkedMul_of_lt (by omega), Option.bind_some,
          checkedAdd_of_lt (by omega)]
        rfl
      rw [List.foldlM_cons, hstep]
      exact ih (fun x hx => ht x (List.mem_cons_of_mem b hx)) hlt

/-- The digits of a number are read back. -/
lemma foldlM_digitStep_decimal {n : ℕ} (hn : n < wordMod) :
    (decimal n).foldlM digitStep 0 = some n := by
  have hvalue : valueFrom 0 (decimal n) = n := value_decimal n
  rw [foldlM_digitStep (fun b hb => isAsciiDigit_of_mem_decimal hb) (by rwa [hvalue]), hvalue]

/-- A `usize` is read back from its numeral. -/
lemma parseUsize_decimal {n : ℕ} (hn : n < wordMod) : parseUsize (decimal n) = some n := by
  rw [parseUsize, if_neg (by simp [decimal_ne_nil]), foldlM_digitStep_decimal hn]

/-- A `u64` is read back from its numeral. -/
lemma parseU64_decimal (m : UInt64) : parseU64 (decimal m.toNat) = some m := by
  rw [parseU64, if_neg (by simp [decimal_ne_nil]), foldlM_digitStep_decimal m.toNat_lt]
  simp

/-! ## The verdict on an encoded header line -/

/-- The verb ends at the first blank. -/
lemma splitVerb_append_sp (verb : Bytes) (hverb : verb.any isBlank = false) (rest : Bytes) :
    splitVerb (verb ++ [sp] ++ rest) = (verb, rest) := by
  have hidx : (verb ++ [sp] ++ rest).findIdx? isBlank = some verb.length := by
    have hsp : isBlank sp = true := rfl
    rw [List.append_assoc, List.findIdx?_append,
      List.findIdx?_eq_none_iff.mpr (by simpa using hverb)]
    simp [List.findIdx?_cons, hsp]
  rw [splitVerb, hidx]
  simp

/-- A token ends at a space. -/
lemma tokens_append_sp {t : Bytes} (ht : IsToken t) (s : Bytes) :
    tokens (t ++ [sp] ++ s) = t :: tokens s := by
  rw [List.append_assoc]
  exact tokens_append_cons ht.ne_nil ht.no_blank rfl s

/-- An optional field is a token, or none. -/
lemma tokens_encodeOptional {o : Option Bytes} (ho : ∀ t ∈ o, IsToken t) (s : Bytes) :
    tokens (encodeOptional o ++ s) = o.toList ++ tokens s := by
  cases o with
  | none => rfl
  | some t => exact tokens_append_sp (ho t rfl) s

/-- A token is one token. -/
lemma IsToken.tokens {t : Bytes} (ht : IsToken t) : tokens t = [t] :=
  tokens_of_no_blank ht.ne_nil ht.no_blank

/-- A numeral is one token. -/
lemma tokens_decimal (n : ℕ) : tokens (decimal n) = [decimal n] := by
  refine tokens_of_no_blank (decimal_ne_nil n) fun x hx => ?_
  have hdigit := isAsciiDigit_of_mem_decimal hx
  have h32 : x ≠ 32 := by rintro rfl; cases hdigit
  have h9 : x ≠ 9 := by rintro rfl; cases hdigit
  simp [isBlank, h32, h9]

/-- What the header line of a frame says: the frame, or the frame short of its payload. -/
def announced : Frame → Header
  | .pub subject replyTo payload => .withBody (.pub subject replyTo) payload.length
  | .msg subject sid replyTo payload => .withBody (.msg subject sid replyTo) payload.length
  | f => .full f

/-- The parser reads off an encoded header line what the encoder put there. -/
lemma parseHeader_headerLine {f : Frame} (hf : f.WellFormed) (hlen : (body f).length < wordMod) :
    parseHeader (headerLine f) = announced f := by
  cases f with
  | ping => rfl
  | pong => rfl
  | ok => rfl
  | err message =>
      simp only [parseHeader, headerLine, splitVerb_append_sp (ascii "-ERR") (by decide)]
      rfl
  | info options =>
      simp only [parseHeader, headerLine, splitVerb_append_sp (ascii "INFO") (by decide),
        if_neg hf.1]
      rfl
  | connect options =>
      simp only [parseHeader, headerLine,
        splitVerb_append_sp (ascii "CONNECT") (by decide), if_neg hf.1]
      rfl
  | sub subject queueGroup sid =>
      obtain ⟨hsubject, hqueue, hsid⟩ := hf
      simp only [parseHeader, headerLine, splitVerb_append_sp (ascii "SUB") (by decide),
        tokens_append_sp hsubject, tokens_encodeOptional hqueue, hsid.tokens]
      cases queueGroup <;> rfl
  | unsub sid maxMsgs =>
      have hsid : IsToken sid := hf
      cases maxMsgs with
      | none =>
          simp only [parseHeader, headerLine,
            splitVerb_append_sp (ascii "UNSUB") (by decide), hsid.tokens]
          rfl
      | some m =>
          have hverdict : unsubHeader [sid, decimal m.toNat] = announced (.unsub sid (some m)) := by
            simp [unsubHeader, parseU64_decimal, announced]
          simp only [parseHeader, headerLine,
            splitVerb_append_sp (ascii "UNSUB") (by decide), tokens_append_sp hsid,
            tokens_decimal]
          exact hverdict
  | pub subject replyTo payload =>
      have hcount := parseUsize_decimal (n := payload.length) (by simp [body] at hlen; omega)
      simp only [parseHeader, headerLine, splitVerb_append_sp (ascii "PUB") (by decide),
        tokens_append_sp hf.1, tokens_encodeOptional hf.2, tokens_decimal]
      have hverdict : pubHeader (subject :: (replyTo.toList ++ [decimal payload.length])) =
          announced (.pub subject replyTo payload) := by
        cases replyTo <;> simp [pubHeader, countHeader, hcount, announced]
      exact hverdict
  | msg subject sid replyTo payload =>
      obtain ⟨hsubject, hsid, hreply⟩ := hf
      have hcount := parseUsize_decimal (n := payload.length) (by simp [body] at hlen; omega)
      simp only [parseHeader, headerLine, splitVerb_append_sp (ascii "MSG") (by decide),
        tokens_append_sp hsubject, tokens_append_sp hsid, tokens_encodeOptional hreply,
        tokens_decimal]
      have hverdict : msgHeader (subject :: sid :: (replyTo.toList ++ [decimal payload.length])) =
          announced (.msg subject sid replyTo payload) := by
        cases replyTo <;> simp [msgHeader, countHeader, hcount, announced]
      exact hverdict

/-! ## The round trip -/

/-- The payload is cut out of the buffer where the encoder put it. -/
lemma outcome_withBody (mk : Bytes → Frame) (line payload rest : Bytes)
    (hlen : (line ++ crlf ++ (payload ++ crlf)).length < wordMod) :
    (Header.withBody mk payload.length).outcome (line ++ crlf ++ (payload ++ crlf) ++ rest)
        (line.length + 2) =
      .frame (mk payload) (line ++ crlf ++ (payload ++ crlf)).length := by
  have htotal : (line ++ crlf ++ (payload ++ crlf)).length =
      line.length + 2 + payload.length + 2 := by
    simp only [List.length_append, length_crlf]
    omega
  have hpayload : slice (line ++ crlf ++ (payload ++ crlf) ++ rest) (line.length + 2)
      (line.length + 2 + payload.length) = payload := by
    have := slice_append_append (line ++ crlf) payload (crlf ++ rest) (i := line.length + 2)
      (j := line.length + 2 + payload.length) (by simp [length_crlf]) (by simp [length_crlf])
    simpa using this
  have hend : slice (line ++ crlf ++ (payload ++ crlf) ++ rest)
      (line.length + 2 + payload.length) (line.length + 2 + payload.length + 2) = crlf := by
    have := slice_append_append (line ++ crlf ++ payload) crlf rest
      (i := line.length + 2 + payload.length) (j := line.length + 2 + payload.length + 2)
      (by simp [length_crlf]; omega) (by simp [length_crlf]; omega)
    simpa using this
  rw [htotal] at hlen
  rw [Header.outcome, if_pos hlen, if_neg (by rw [List.length_append, htotal]; omega), hend,
    if_pos rfl, hpayload, htotal]

/-- The parser reads the reference encoding of a well-formed frame as that frame. -/
lemma parseFrame_encode {f : Frame} (hf : f.WellFormed) (hlen : (encode f).length < wordMod)
    (rest : Bytes) : parseFrame (encode f ++ rest) = .frame f (encode f).length := by
  have hfind : findCrlf (encode f ++ rest) = some (headerLine f).length := by
    rw [encode, List.append_assoc, List.append_assoc]
    exact findCrlf_append_crlf (findCrlf_headerLine hf) _
  have hbody : (body f).length < wordMod := by
    simp only [encode, List.length_append] at hlen
    omega
  have hline : (encode f ++ rest).take (headerLine f).length = headerLine f := by
    rw [encode, List.append_assoc, List.append_assoc, List.take_left']
    rfl
  rw [parseFrame_of_some hfind, hline, parseHeader_headerLine hf hbody]
  cases f with
  | pub subject replyTo payload => exact outcome_withBody _ _ payload rest hlen
  | msg subject sid replyTo payload => exact outcome_withBody _ _ payload rest hlen
  | _ => simp [announced, Header.outcome, encode, body, length_crlf]

/-- **Parsing undoes emitting.** Whatever buffer a well-formed frame was written into and
whatever bytes follow it, the parser reads the frame back and consumes exactly its bytes. -/
theorem parseFrame_emitFrame {f : Frame} {out out' : Bytes} {n : ℕ} (hf : f.WellFormed)
    (hemit : emitFrame f out = (.ok n, out')) (rest : Bytes) :
    parseFrame (out'.take n ++ rest) = .frame f n := by
  have hlt := endsInWord_emitFrame f out n out' hemit
  obtain ⟨rfl, -, rfl⟩ := emitFrame_ok hemit
  rw [take_overwrite_zero]
  exact parseFrame_encode hf hlt rest

/-- A message with a reply subject, a line end in its payload, and a sid that ends in a carriage
return, in a buffer of 40 bytes, with the start of another frame behind it. -/
theorem parseFrame_emitFrame_msg :
    let f : Frame := .msg (ascii "foo") (ascii "7\r") (some (ascii "\nbox")) (ascii "a\r\nb")
    f.WellFormed ∧ ∃ out', emitFrame f (List.replicate 40 0) = (.ok 25, out') ∧
      parseFrame (out'.take 25 ++ ascii "PI") = .frame f 25 := by
  intro f
  have hf : f.WellFormed := by
    refine ⟨isToken_of_any (by decide) (by decide) (by decide),
      isToken_of_any (by decide) (by decide) (by decide), ?_⟩
    rintro r ⟨⟩
    exact isToken_of_any (by decide) (by decide) (by decide)
  have hemit : emitFrame f (List.replicate 40 0) =
      (.ok 25, encode f ++ List.replicate 15 0) := rfl
  exact ⟨hf, _, hemit, parseFrame_emitFrame hf hemit (ascii "PI")⟩

end Aulon.Proto
