import CoreStack.Utils.CString

/-! # The hypertext parser (`libhypertext.c`)

`next_token` cuts the text in place. What it cuts off is the token, and the
pointer it returns stands for the text that is left.
-/
namespace CoreStack.Hypertext
open Utils Cutting

def maxHeaders : ℕ := 16

def htEndLine : List Char := "\r\n".toList
def htTokenSep : List Char := " ".toList
def htHeaderSep : List Char := ": ".toList
def htBlankLine : List Char := "\r\n\r\n".toList

structure HeaderHT where
  field : List Char
  value : List Char
  deriving DecidableEq, Repr

structure ParsedMsgHT where
  token1 : List Char
  token2 : List Char
  token3 : List Char
  headers : List HeaderHT
  body : List Char
  deriving DecidableEq, Repr

/-- `malformed` is the result `-1`. An `overrun` leaves the memory it may use: a
text without end, or a header stored behind `headers[MAX_HEADERS - 1]`. -/
inductive ParseError
  | malformed
  | overrun
  deriving DecidableEq, Repr

/-- The token before the delimiter and the text behind it. -/
def nextToken (s delim : List Char) : Except ParseError (List Char × List Char) :=
  match strstr s delim with
  | none => .error .malformed
  | some i => .ok (s.take i,s.drop (i + delim.length))

/-- The loop of `count_headers` at `ptr`. Each round moves `ptr` forward, so that
`fuel = headersEnd` rounds are enough. -/
def countEndLines (headersStart : List Char) (headersEnd : ℕ) : ℕ → ℕ → ℕ
  | 0, _ => 0
  | fuel + 1, ptr =>
    if ptr < headersEnd then
      match strstr (headersStart.drop ptr) htEndLine with
      | none => 0
      | some i => countEndLines headersStart headersEnd fuel (ptr + i + 2) + 1
    else 0

/-- Without a blank line no pointer is below `headers_end`, and nothing is counted. -/
def countHeaders (headersStart : List Char) : ℕ :=
  match strstr headersStart htBlankLine with
  | none => 0
  | some headersEnd => countEndLines headersStart headersEnd headersEnd 0

/-- `n` headers are still to be read behind the ones that were stored. -/
def parseHeaders : ℕ → List HeaderHT → List Char → Except ParseError (List HeaderHT × List Char)
  | 0, headers, ptr => .ok (headers,ptr)
  | n + 1, headers, ptr => do
    let (field,ptr) ← nextToken ptr htHeaderSep
    let (value,ptr) ← nextToken ptr htEndLine
    if headers.length < maxHeaders then parseHeaders n (headers ++ [⟨field,value⟩]) ptr
    else .error .overrun

def parseHypertext (ht : List Char) : Except ParseError ParsedMsgHT := do
  let (token1,ptr) ← nextToken ht htTokenSep
  let (token2,ptr) ← nextToken ptr htTokenSep
  let (token3,ptr) ← nextToken ptr htEndLine
  let (headers,ptr) ← parseHeaders (countHeaders ptr) [] ptr
  let (_,body) ← nextToken ptr htEndLine
  return ⟨token1,token2,token3,headers,body⟩

/-- A buffer off the wire: its text has to end within it. -/
def parseBuffer (buffer : List UInt8) : Except ParseError ParsedMsgHT :=
  match cString buffer with
  | none => .error .overrun
  | some ht => parseHypertext ht

/-! ## What is cut off -/

theorem unbordered_tokenSep : Unbordered htTokenSep := by decide
theorem unbordered_endLine : Unbordered htEndLine := by decide
theorem unbordered_headerSep : Unbordered htHeaderSep := by decide

theorem nextToken_cut {s delim token rest : List Char} (h : Cut delim s token rest) :
    nextToken s delim = .ok (token,rest) := by
  have hdrop : s.drop (token.length + delim.length) = rest := by
    rw [h.split,← List.append_assoc,← List.length_append,List.drop_left]
  have htake : s.take token.length = token := by
    rw [h.split,List.take_left]
  rw [nextToken,strstr_cut h]
  dsimp only
  rw [htake,hdrop]

theorem nextToken_eq_error_iff {s delim : List Char} {e : ParseError} :
    nextToken s delim = .error e ↔ e = .malformed ∧ ¬delim <:+: s := by
  constructor
  · intro h
    by_cases hin : delim <:+: s
    · obtain ⟨token,rest,hcut⟩ := exists_cut hin
      rw [nextToken_cut hcut] at h
      cases h
    · rw [nextToken,strstr_eq_none_iff.mpr hin] at h
      cases h
      exact ⟨rfl,hin⟩
  · rintro ⟨rfl,hno⟩
    rw [nextToken,strstr_eq_none_iff.mpr hno]

theorem nextToken_eq_ok_iff {s delim token rest : List Char} :
    nextToken s delim = .ok (token,rest) ↔ Cut delim s token rest := by
  refine ⟨fun h => ?_,nextToken_cut⟩
  by_cases hin : delim <:+: s
  · obtain ⟨token',rest',hcut⟩ := exists_cut hin
    rw [nextToken_cut hcut] at h
    cases h
    exact hcut
  · rw [nextToken_eq_error_iff.mpr ⟨rfl,hin⟩] at h
    cases h

def HeaderHT.line (header : HeaderHT) : List Char :=
  header.field ++ (htHeaderSep ++ (header.value ++ htEndLine))

/-- The text begins with these headers, each cut at its first separator and then at
the first end of a line. -/
inductive HeaderCuts : List Char → List HeaderHT → List Char → Prop
  | nil (s : List Char) : HeaderCuts s [] s
  | cons {s mid rest tail field value : List Char} {headers : List HeaderHT} (hfield : Cut htHeaderSep s field mid)
      (hvalue : Cut htEndLine mid value rest) (h : HeaderCuts rest headers tail) :
      HeaderCuts s (⟨field,value⟩ :: headers) tail

theorem headerCuts_iff {s tail : List Char} {headers : List HeaderHT} :
    HeaderCuts s headers tail ↔ s = headers.flatMap HeaderHT.line ++ tail ∧
      ∀ header ∈ headers, ¬htHeaderSep <:+: header.field ∧ ¬htEndLine <:+: header.value := by
  constructor
  · intro h
    induction h with
    | nil s => exact ⟨rfl,fun _ hmem => absurd hmem List.not_mem_nil⟩
    | cons hfield hvalue _ ih =>
      obtain ⟨hs,hno⟩ := ih
      have hfree := hfield.not_infix unbordered_headerSep.1
      have hfree' := hvalue.not_infix unbordered_endLine.1
      refine ⟨?_,List.forall_mem_cons.mpr ⟨⟨hfree,hfree'⟩,hno⟩⟩
      rw [hfield.split,hvalue.split,hs,List.flatMap_cons,HeaderHT.line]
      simp only [List.append_assoc]
  · rintro ⟨hs,hno⟩
    induction headers generalizing s with
    | nil =>
      obtain rfl : s = tail := hs
      exact .nil s
    | cons header headers ih =>
      obtain ⟨⟨hfield,hvalue⟩,hno⟩ := List.forall_mem_cons.mp hno
      refine .cons ((cut_iff unbordered_headerSep).mpr ⟨?_,hfield⟩) ((cut_iff unbordered_endLine).mpr ⟨rfl,hvalue⟩)
        (ih rfl hno)
      rw [hs,List.flatMap_cons,HeaderHT.line]
      simp only [List.append_assoc]

theorem parseHeaders_cut {n : ℕ} {stored : List HeaderHT} {ptr mid rest field value : List Char}
    (hfield : Cut htHeaderSep ptr field mid) (hvalue : Cut htEndLine mid value rest) :
    parseHeaders (n + 1) stored ptr =
      if stored.length < maxHeaders then parseHeaders n (stored ++ [⟨field,value⟩]) rest else .error .overrun := by
  rw [parseHeaders,nextToken_cut hfield]
  dsimp only [bind,Except.bind]
  rw [nextToken_cut hvalue]

theorem parseHeaders_uncut {n : ℕ} {stored : List HeaderHT} {ptr : List Char}
    (h : ¬∃ field mid value rest, Cut htHeaderSep ptr field mid ∧ Cut htEndLine mid value rest) :
    parseHeaders (n + 1) stored ptr = .error .malformed := by
  rw [parseHeaders]
  by_cases hsep : htHeaderSep <:+: ptr
  · obtain ⟨field,mid,hfield⟩ := exists_cut hsep
    have hline : ¬htEndLine <:+: mid := by
      intro hin
      obtain ⟨value,rest,hvalue⟩ := exists_cut hin
      exact h ⟨field,mid,value,rest,hfield,hvalue⟩
    rw [nextToken_cut hfield]
    dsimp only [bind,Except.bind]
    rw [nextToken_eq_error_iff.mpr ⟨rfl,hline⟩]
  · rw [nextToken_eq_error_iff.mpr ⟨rfl,hsep⟩]
    rfl

/-- The headers stored by the loop are those cut off, when there is room for them. -/
theorem parseHeaders_eq_ok_iff {n : ℕ} {stored headers : List HeaderHT} {ptr tail : List Char}
    (hstored : stored.length ≤ maxHeaders) :
    parseHeaders n stored ptr = .ok (headers,tail) ↔
    ∃ new, headers = stored ++ new ∧ new.length = n ∧ stored.length + n ≤ maxHeaders ∧ HeaderCuts ptr new tail := by
  induction n generalizing stored ptr with
  | zero =>
    constructor
    · intro h
      cases h
      exact ⟨[],(List.append_nil _).symm,rfl,hstored,.nil _⟩
    · rintro ⟨new,rfl,hlen,-,hcuts⟩
      obtain rfl := List.length_eq_zero_iff.mp hlen
      cases hcuts
      rw [parseHeaders,List.append_nil]
  | succ n ih =>
    have hlonger : ∀ header : HeaderHT, (stored ++ [header]).length = stored.length + 1 := fun header => by
      rw [List.length_append,List.length_singleton]
    by_cases hcut : ∃ field mid value rest, Cut htHeaderSep ptr field mid ∧ Cut htEndLine mid value rest
    · obtain ⟨field,mid,value,rest,hfield,hvalue⟩ := hcut
      rw [parseHeaders_cut hfield hvalue]
      by_cases hroom : stored.length < maxHeaders
      · rw [if_pos hroom,ih (by rw [hlonger]; exact hroom)]
        constructor
        · rintro ⟨new,rfl,hlen,hle,hcuts⟩
          rw [hlonger] at hle
          refine ⟨⟨field,value⟩ :: new,by rw [List.append_assoc]; rfl,by rw [List.length_cons,hlen],by omega,?_⟩
          exact .cons hfield hvalue hcuts
        · rintro ⟨new,rfl,hlen,hle,hcuts⟩
          cases hcuts with
          | nil => cases hlen
          | cons hfield' hvalue' hcuts =>
            obtain ⟨rfl,rfl⟩ := hfield.unique hfield'
            obtain ⟨rfl,rfl⟩ := hvalue.unique hvalue'
            refine ⟨_,by rw [List.append_assoc]; rfl,Nat.succ.inj hlen,?_,hcuts⟩
            rw [hlonger]
            omega
      · rw [if_neg hroom]
        constructor
        · intro h
          cases h
        · rintro ⟨new,-,-,hle,-⟩
          omega
    · rw [parseHeaders_uncut hcut]
      constructor
      · intro h
        cases h
      · rintro ⟨new,-,hlen,-,hcuts⟩
        cases hcuts with
        | nil => cases hlen
        | cons hfield hvalue _ => exact absurd ⟨_,_,_,_,hfield,hvalue⟩ hcut

/-- A header is stored behind the array when there are as many as it holds and one more. -/
theorem parseHeaders_overrun_iff {n : ℕ} {stored : List HeaderHT} {ptr : List Char}
    (hstored : stored.length ≤ maxHeaders) :
    parseHeaders n stored ptr = .error .overrun ↔
    ∃ new tail, stored.length + new.length = maxHeaders + 1 ∧ new.length ≤ n ∧ HeaderCuts ptr new tail := by
  induction n generalizing stored ptr with
  | zero =>
    constructor
    · intro h
      cases h
    · rintro ⟨new,tail,hlen,hle,-⟩
      omega
  | succ n ih =>
    have hlonger : ∀ header : HeaderHT, (stored ++ [header]).length = stored.length + 1 := fun header => by
      rw [List.length_append,List.length_singleton]
    by_cases hcut : ∃ field mid value rest, Cut htHeaderSep ptr field mid ∧ Cut htEndLine mid value rest
    · obtain ⟨field,mid,value,rest,hfield,hvalue⟩ := hcut
      rw [parseHeaders_cut hfield hvalue]
      by_cases hroom : stored.length < maxHeaders
      · rw [if_pos hroom,ih (by rw [hlonger]; exact hroom)]
        constructor
        · rintro ⟨new,tail,hlen,hle,hcuts⟩
          rw [hlonger] at hlen
          refine ⟨⟨field,value⟩ :: new,tail,?_,?_,.cons hfield hvalue hcuts⟩
          · rw [List.length_cons]
            omega
          · rw [List.length_cons]
            omega
        · rintro ⟨new,tail,hlen,hle,hcuts⟩
          cases hcuts with
          | nil =>
            rw [List.length_nil] at hlen
            omega
          | cons hfield' hvalue' hcuts =>
            obtain ⟨rfl,rfl⟩ := hfield.unique hfield'
            obtain ⟨rfl,rfl⟩ := hvalue.unique hvalue'
            rw [List.length_cons] at hlen hle
            exact ⟨_,tail,by rw [hlonger]; omega,by omega,hcuts⟩
      · rw [if_neg hroom]
        refine ⟨fun _ => ?_,fun _ => rfl⟩
        refine ⟨[⟨field,value⟩],rest,?_,by rw [List.length_singleton]; omega,.cons hfield hvalue (.nil _)⟩
        rw [List.length_singleton]
        omega
    · rw [parseHeaders_uncut hcut]
      constructor
      · intro h
        cases h
      · rintro ⟨new,tail,hlen,-,hcuts⟩
        cases hcuts with
        | nil =>
          rw [List.length_nil] at hlen
          omega
        | cons hfield hvalue _ => exact absurd ⟨_,_,_,_,hfield,hvalue⟩ hcut

/-! ## The request line and the body -/

/-- A text begins with a request line: two tokens without a blank and one without the end of a line. -/
structure RequestLine (text token1 token2 token3 rest : List Char) : Prop where
  split : text = token1 ++ (htTokenSep ++ (token2 ++ (htTokenSep ++ (token3 ++ (htEndLine ++ rest)))))
  token1 : ¬htTokenSep <:+: token1
  token2 : ¬htTokenSep <:+: token2
  token3 : ¬htEndLine <:+: token3

theorem requestLine_iff {text token1 token2 token3 rest : List Char} :
    RequestLine text token1 token2 token3 rest ↔
    ∃ s t, Cut htTokenSep text token1 s ∧ Cut htTokenSep s token2 t ∧ Cut htEndLine t token3 rest := by
  constructor
  · rintro ⟨hsplit,h₁,h₂,h₃⟩
    exact ⟨_,_,(cut_iff unbordered_tokenSep).mpr ⟨hsplit,h₁⟩,(cut_iff unbordered_tokenSep).mpr ⟨rfl,h₂⟩,
      (cut_iff unbordered_endLine).mpr ⟨rfl,h₃⟩⟩
  · rintro ⟨s,t,h₁,h₂,h₃⟩
    refine ⟨?_,h₁.not_infix unbordered_tokenSep.1,h₂.not_infix unbordered_tokenSep.1,
      h₃.not_infix unbordered_endLine.1⟩
    rw [h₁.split,h₂.split,h₃.split]

theorem RequestLine.unique {text token1 token2 token3 rest token1' token2' token3' rest' : List Char}
    (h : RequestLine text token1 token2 token3 rest) (h' : RequestLine text token1' token2' token3' rest') :
    token1 = token1' ∧ token2 = token2' ∧ token3 = token3' ∧ rest = rest' := by
  obtain ⟨s,t,h₁,h₂,h₃⟩ := requestLine_iff.mp h
  obtain ⟨s',t',h₁',h₂',h₃'⟩ := requestLine_iff.mp h'
  obtain ⟨rfl,rfl⟩ := h₁.unique h₁'
  obtain ⟨rfl,rfl⟩ := h₂.unique h₂'
  obtain ⟨rfl,rfl⟩ := h₃.unique h₃'
  exact ⟨rfl,rfl,rfl,rfl⟩

/-- The part of the parser behind the request line. -/
def parseSections (token1 token2 token3 ptr : List Char) : Except ParseError ParsedMsgHT := do
  let (headers,ptr) ← parseHeaders (countHeaders ptr) [] ptr
  let (_,body) ← nextToken ptr htEndLine
  return ⟨token1,token2,token3,headers,body⟩

theorem parseHypertext_requestLine {text token1 token2 token3 rest : List Char}
    (h : RequestLine text token1 token2 token3 rest) :
    parseHypertext text = parseSections token1 token2 token3 rest := by
  obtain ⟨s,t,h₁,h₂,h₃⟩ := requestLine_iff.mp h
  rw [parseHypertext,nextToken_cut h₁]
  dsimp only [bind,Except.bind]
  rw [nextToken_cut h₂]
  dsimp only
  rw [nextToken_cut h₃]
  rfl

theorem parseHypertext_no_requestLine {text : List Char}
    (h : ¬∃ token1 token2 token3 rest, RequestLine text token1 token2 token3 rest) :
    parseHypertext text = .error .malformed := by
  rw [parseHypertext]
  by_cases h₁ : htTokenSep <:+: text
  · obtain ⟨token1,s,hcut₁⟩ := exists_cut h₁
    rw [nextToken_cut hcut₁]
    dsimp only [bind,Except.bind]
    by_cases h₂ : htTokenSep <:+: s
    · obtain ⟨token2,t,hcut₂⟩ := exists_cut h₂
      rw [nextToken_cut hcut₂]
      dsimp only
      have h₃ : ¬htEndLine <:+: t := by
        intro hin
        obtain ⟨token3,rest,hcut₃⟩ := exists_cut hin
        exact h ⟨token1,token2,token3,rest,requestLine_iff.mpr ⟨s,t,hcut₁,hcut₂,hcut₃⟩⟩
      rw [nextToken_eq_error_iff.mpr ⟨rfl,h₃⟩]
    · rw [nextToken_eq_error_iff.mpr ⟨rfl,h₂⟩]
  · rw [nextToken_eq_error_iff.mpr ⟨rfl,h₁⟩]
    rfl

/-! ## HTTTP requests (`libhtttp.c`) -/

inductive MethodHTTTP
  | unknown
  | move
  | drop
  | rotate
  | state
  | attack
  | action
  | roster
  deriving DecidableEq, Repr

def htttpMethods : List (List Char × MethodHTTTP) :=
  [("MOVE".toList,.move),("DROP".toList,.drop),("ROTATE".toList,.rotate),("STATE".toList,.state),
    ("ATTACK".toList,.attack),("ACTION".toList,.action),("ROSTER".toList,.roster)]

def stringToMethod (s : List Char) : MethodHTTTP :=
  ((htttpMethods.find? (·.1 == s)).map (·.2)).getD .unknown

structure Request where
  method : MethodHTTTP
  id : ℕ
  body : List Char

/-- The first `Player-Id` header counts; without one the id is 0. -/
def reqExtractInfo (msg : ParsedMsgHT) : Request where
  method := stringToMethod msg.token1
  id := match msg.headers.find? (·.field == "Player-Id".toList) with
    | none => 0
    | some header => strtoul header.value % 4294967296
  body := msg.body

end CoreStack.Hypertext
