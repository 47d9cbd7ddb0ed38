import CoreStack.Hypertext.Building

/-! # Reading back what was written

The parser finds the pieces of a message again if its text fits into the buffer with the NUL
and its body is not taken for headers.
-/
namespace CoreStack.Hypertext
open Utils Cutting

theorem bufferText_append {text : List Char} (h : nul ∉ text) {n : ℕ} (hn : 0 < n) :
    bufferText (text ++ List.replicate n nul) = some text := by
  have hmem : nul ∈ text ++ List.replicate n nul :=
    List.mem_append_right text (List.mem_replicate.mpr ⟨Nat.ne_of_gt hn,rfl⟩)
  have htext : ∀ c ∈ text, (c != nul) = true := fun c hc => bne_iff_ne.mpr fun heq => h (heq ▸ hc)
  obtain ⟨m,rfl⟩ := Nat.exists_eq_add_one_of_ne_zero (Nat.ne_of_gt hn)
  rw [bufferText,if_pos hmem,List.takeWhile_append_of_pos htext,List.replicate_succ,List.takeWhile_cons_of_neg,
    List.append_nil]
  rw [bne_self_eq_false]
  exact Bool.false_ne_true

theorem strpbrk_eq_false_iff {s chars : List Char} : strpbrk s chars = false ↔ ∀ c ∈ chars, c ∉ s := by
  rw [strpbrk,List.any_eq_false]
  simp only [List.contains_iff_mem]
  exact ⟨fun h c hc hs => h c hs hc,fun h c hs hc => h c hc hs⟩

/-- A header that the builder takes has no separator in its field and is one line. -/
theorem legalHeader_apart {field value : List Char} (h : legalHeader field value = true) :
    ¬htHeaderSep <:+: field ∧ ¬htEndLine <:+: field ∧ ¬htEndLine <:+: value := by
  rw [legalHeader,Bool.not_eq_true',Bool.or_eq_false_iff,strpbrk_eq_false_iff,strpbrk_eq_false_iff] at h
  obtain ⟨hfield,hvalue⟩ := h
  refine ⟨fun hin => hfield ':' (by decide) ?_,fun hin => hfield '\n' (by decide) ?_,
    fun hin => hvalue '\n' (by decide) ?_⟩
  · exact hin.subset (by decide)
  · exact hin.subset (by decide)
  · exact hin.subset (by decide)

structure Buildable (msg : ParsedMsgHT) : Prop where
  token1 : ¬htTokenSep <:+: msg.token1
  token2 : ¬htTokenSep <:+: msg.token2
  token3 : ¬htEndLine <:+: msg.token3
  headers : ∀ header ∈ msg.headers, legalHeader header.field header.value = true
  room : msg.headers.length ≤ maxHeaders
  body : (msgAddBody .zero msg.body).2 = true
  terminated : nul ∉ msg.text

theorem nul_not_mem_text {msg : ParsedMsgHT} (htoken1 : nul ∉ msg.token1) (htoken2 : nul ∉ msg.token2)
    (htoken3 : nul ∉ msg.token3) (hheaders : ∀ header ∈ msg.headers, nul ∉ header.field ∧ nul ∉ header.value)
    (hbody : nul ∉ msg.body) : nul ∉ msg.text := by
  have hsep : nul ∉ htTokenSep ∧ nul ∉ htEndLine ∧ nul ∉ htHeaderSep := by decide
  have hline : ∀ header ∈ msg.headers, nul ∉ header.line := by
    intro header hmem
    simp only [HeaderHT.line,List.mem_append,not_or]
    exact ⟨(hheaders header hmem).1,hsep.2.2,(hheaders header hmem).2,hsep.2.1⟩
  simp only [ParsedMsgHT.text,ParsedMsgHT.sections,List.mem_append,List.mem_flatMap,not_or]
  refine ⟨htoken1,hsep.1,htoken2,hsep.1,htoken3,hsep.2.1,?_,hsep.2.1,hbody⟩
  rintro ⟨header,hmem,hnul⟩
  exact hline header hmem hnul

/-- A message that is reported as written is read back. -/
def RoundTrips (msg : ParsedMsgHT) : Prop :=
  ∀ buffer, convertToHypertext msg = .ok (0,buffer) → parseConverted buffer = .ok msg

theorem parseConverted_filled {text : List Char} (hnul : nul ∉ text) (hlen : text.length < maxBuf) :
    parseConverted (filled text) = parseHypertext text := by
  rw [parseConverted,filled_of_lt hlen,bufferText_append hnul (Nat.sub_pos_of_lt hlen)]

theorem Buildable.pieces {msg : ParsedMsgHT} (h : Buildable msg)
    (hbody : msg.headers = [] → htBlankLine <:+: msg.body → htEndLine <+: msg.body) : Pieces msg.text msg [] :=
  pieces_text h.token1 h.token2 h.token3 (fun header hmem => legalHeader_apart (h.headers header hmem)) h.room hbody

theorem Buildable.read_back {msg : ParsedMsgHT} (h : Buildable msg) (hlt : msg.text.length < maxBuf)
    (hbody : msg.headers = [] → htBlankLine <:+: msg.body → htEndLine <+: msg.body) :
    parseConverted (filled msg.text) = .ok msg := by
  rw [parseConverted_filled h.terminated hlt]
  exact parseHypertext_eq_ok_iff.mpr ⟨[],h.pieces hbody⟩

/-- Where the buffer is full the last character is missing, and with it the message. -/
theorem not_roundTrips_of_full {msg : ParsedMsgHT} (hnul : nul ∉ msg.text) (hlen : msg.text.length = maxBuf) :
    ¬RoundTrips msg := by
  intro h
  have hparse := h _ (convert_short (Nat.le_of_eq hlen))
  have hcut : (msg.text.take (maxBuf - 1)).length = maxBuf - 1 := by
    rw [List.length_take,hlen]
    rfl
  have hfilled : filled msg.text = filled (msg.text.take (maxBuf - 1)) := by
    conv_lhs => rw [← List.take_append_drop (maxBuf - 1) msg.text]
    exact filled_append_of_full (Nat.le_of_eq hcut.symm)
  rw [hfilled,parseConverted_filled (fun hmem => hnul (List.mem_of_mem_take hmem)) (by rw [hcut]; decide)] at hparse
  obtain ⟨skipped,hp⟩ := parseHypertext_eq_ok_iff.mp hparse
  have hlength := hp.length
  rw [hcut,hlen] at hlength
  have hpos : 0 < maxBuf := by decide
  omega

theorem roundTrips_iff {msg : ParsedMsgHT} (h : Buildable msg) :
    RoundTrips msg ↔ maxBuf < msg.text.length ∨ (msg.text.length < maxBuf ∧
      ¬(msg.headers = [] ∧ htBlankLine <:+: msg.body ∧ ¬htEndLine <+: msg.body)) := by
  rcases Nat.lt_trichotomy msg.text.length maxBuf with hlt | heq | hgt
  · have hconvert := convert_short (Nat.le_of_lt hlt)
    have hread := parseConverted_filled h.terminated hlt
    constructor
    · intro hround
      refine Or.inr ⟨hlt,?_⟩
      rintro ⟨hnil,hblank,hbegin⟩
      have hparse := hround _ hconvert
      rw [hread] at hparse
      obtain ⟨skipped,hp⟩ := parseHypertext_eq_ok_iff.mp hparse
      -- nothing is passed over, so that no line is counted before the body
      have hskipped : skipped = [] := List.length_eq_zero_iff.mp (by have hlength := hp.length; omega)
      have hcount := linesBeforeBlank_iff.mp hp.counted
      rw [hskipped,hnil] at hcount
      exact hbegin (countHeaders_eq_zero_iff.mp hcount hblank)
    · rintro (hgt | ⟨-,hbody⟩)
      · exact absurd hlt (Nat.lt_asymm hgt)
      · intro buffer hbuffer
        rw [hconvert] at hbuffer
        cases hbuffer
        refine h.read_back hlt fun hnil hblank => ?_
        by_contra hbegin
        exact hbody ⟨hnil,hblank,hbegin⟩
  · refine iff_of_false (not_roundTrips_of_full h.terminated heq) ?_
    rintro (hgt | ⟨hlt,-⟩)
    · omega
    · omega
  · exact iff_of_true (fun buffer hbuffer => absurd hbuffer ((convert_long hgt (length_of_msgAddBody h.body)).2 buffer))
      (Or.inl hgt)

instance (msg : ParsedMsgHT) : Decidable (Buildable msg) :=
  decidable_of_iff
    (¬htTokenSep <:+: msg.token1 ∧ ¬htTokenSep <:+: msg.token2 ∧ ¬htEndLine <:+: msg.token3 ∧
      (∀ header ∈ msg.headers, legalHeader header.field header.value = true) ∧ msg.headers.length ≤ maxHeaders ∧
      (msgAddBody .zero msg.body).2 = true ∧ nul ∉ msg.text)
    ⟨fun ⟨h₁,h₂,h₃,h₄,h₅,h₆,h₇⟩ => ⟨h₁,h₂,h₃,h₄,h₅,h₆,h₇⟩,
      fun ⟨h₁,h₂,h₃,h₄,h₅,h₆,h₇⟩ => ⟨h₁,h₂,h₃,h₄,h₅,h₆,h₇⟩⟩

/-- With a header the body may have blank lines. -/
def playerMessage : ParsedMsgHT := shortMessage [⟨"Player-Id".toList,"7".toList⟩] "a\r\n\r\nb".toList

theorem roundTrips_player : RoundTrips playerMessage ↔
    maxBuf < playerMessage.text.length ∨ (playerMessage.text.length < maxBuf ∧
      ¬(playerMessage.headers = [] ∧ htBlankLine <:+: playerMessage.body ∧ ¬htEndLine <+: playerMessage.body)) :=
  roundTrips_iff (by decide +kernel)

/-- Without headers a body with a blank line is not read back, and neither is a text as long as the buffer. -/
theorem not_read_back :
    Buildable (shortMessage [] "a\r\n\r\nb".toList) ∧ ¬RoundTrips (shortMessage [] "a\r\n\r\nb".toList) ∧
    ¬RoundTrips (shortMessage [] (List.replicate 2028 'a')) := by
  refine ⟨by decide +kernel,fun h => ?_,?_⟩
  · have hshort : (shortMessage [] "a\r\n\r\nb".toList).text.length < maxBuf := by decide +kernel
    have hparse := h _ (convert_short (Nat.le_of_lt hshort))
    rw [parseConverted_filled (by decide +kernel) hshort] at hparse
    have herror : parseHypertext (shortMessage [] "a\r\n\r\nb".toList).text = .error .malformed := by decide +kernel
    rw [herror] at hparse
    cases hparse
  · have htext : (shortMessage [] (List.replicate 2028 'a')).text =
        "MOVE / HTTTP/1.0\r\n\r\n".toList ++ List.replicate 2028 'a' := rfl
    refine not_roundTrips_of_full ?_ ?_
    · rw [htext]
      intro hmem
      rcases List.mem_append.mp hmem with hmem | hmem
      · exact absurd hmem (by decide)
      · exact absurd (List.eq_of_mem_replicate hmem) (by decide)
    · rw [htext,List.length_append,List.length_replicate]
      rfl

end CoreStack.Hypertext
