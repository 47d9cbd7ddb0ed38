import CoreStack.Hypertext.Grammar

/-! # Building and writing messages (`libhypertext.c`) -/
namespace CoreStack.Hypertext
open Utils Cutting

def maxBuf : ℕ := 2048

def intMax : ℕ := 2147483647

def nul : Char := Char.ofNat 0

/-! ## Adding headers and a body -/

def illegalFieldChars : List Char := "\r\n:".toList
def illegalValueChars : List Char := "\r\n".toList

def strpbrk (s chars : List Char) : Bool := s.any fun c => chars.contains c

def ParsedMsgHT.zero : ParsedMsgHT := ⟨[],[],[],[],[]⟩

def legalHeader (field value : List Char) : Bool :=
  !(strpbrk field illegalFieldChars || strpbrk value illegalValueChars)

/-- `false` is the result `-1`. The number of headers is not looked at. -/
def msgAddHeader (msg : ParsedMsgHT) (field value : List Char) : Except ParseError (ParsedMsgHT × Bool) :=
  if !legalHeader field value then .ok (msg,false)
  else if msg.headers.length < maxHeaders then .ok ({ msg with headers := msg.headers ++ [⟨field,value⟩] },true)
  else .error .overrun

def msgAddBody (msg : ParsedMsgHT) (body : List Char) : ParsedMsgHT × Bool :=
  if maxBuf ≤ body.length then (msg,false) else ({ msg with body := body },true)

/-- Calls of `msg_add_header` whose results nobody looks at. -/
def addHeaders : ParsedMsgHT → List (List Char × List Char) → Except ParseError ParsedMsgHT
  | msg, [] => .ok msg
  | msg, (field,value) :: calls => do
    let (msg,_) ← msgAddHeader msg field value
    addHeaders msg calls

/-! ## The headers stay inside the array -/

theorem msgAddHeader_legal {msg : ParsedMsgHT} {field value : List Char} (h : legalHeader field value = true) :
    msgAddHeader msg field value =
      if msg.headers.length < maxHeaders then .ok ({ msg with headers := msg.headers ++ [⟨field,value⟩] },true)
      else .error .overrun := by
  rw [msgAddHeader,h]
  rfl

theorem msgAddHeader_room {msg : ParsedMsgHT} {field value : List Char} (h : legalHeader field value = true)
    (hroom : msg.headers.length < maxHeaders) :
    msgAddHeader msg field value = .ok ({ msg with headers := msg.headers ++ [⟨field,value⟩] },true) := by
  rw [msgAddHeader_legal h,if_pos hroom]

theorem msgAddHeader_illegal {msg : ParsedMsgHT} {field value : List Char} (h : legalHeader field value = false) :
    msgAddHeader msg field value = .ok (msg,false) := by
  rw [msgAddHeader,h]
  rfl

def legalCalls (calls : List (List Char × List Char)) : List HeaderHT :=
  (calls.filter fun call => legalHeader call.1 call.2).map fun call => ⟨call.1,call.2⟩

theorem legalCalls_cons (field value : List Char) (calls : List (List Char × List Char)) :
    legalCalls ((field,value) :: calls) =
      if legalHeader field value = true then ⟨field,value⟩ :: legalCalls calls else legalCalls calls := by
  rw [legalCalls,List.filter_cons]
  split
  · rfl
  · rfl

theorem addHeaders_eq {msg : ParsedMsgHT} (hroom : msg.headers.length ≤ maxHeaders)
    (calls : List (List Char × List Char)) :
    addHeaders msg calls =
      if msg.headers.length + (legalCalls calls).length ≤ maxHeaders then
        .ok { msg with headers := msg.headers ++ legalCalls calls }
      else .error .overrun := by
  induction calls generalizing msg with
  | nil =>
    have hnil : legalCalls [] = [] := rfl
    rw [hnil,List.length_nil,Nat.add_zero,if_pos hroom,List.append_nil,addHeaders]
  | cons call calls ih =>
    obtain ⟨field,value⟩ := call
    rw [addHeaders,legalCalls_cons]
    cases hlegal : legalHeader field value with
    | false =>
      rw [msgAddHeader_illegal hlegal,if_neg Bool.false_ne_true]
      exact ih hroom
    | true =>
      rw [msgAddHeader_legal hlegal,if_pos rfl,List.length_cons]
      by_cases hlt : msg.headers.length < maxHeaders
      · have hlen : (msg.headers ++ [(⟨field,value⟩ : HeaderHT)]).length = msg.headers.length + 1 := by
          rw [List.length_append,List.length_singleton]
        rw [if_pos hlt]
        dsimp only [bind,Except.bind]
        rw [ih (by rw [hlen]; exact hlt),hlen,List.append_assoc,Nat.add_assoc,Nat.add_comm 1]
        rfl
      · rw [if_neg hlt,if_neg (by omega)]
        rfl

/-- After any of the calls the headers are inside the array, and if it is full the next call
is refused and changes nothing. -/
def AddsInside (calls : List (List Char × List Char)) : Prop :=
  ∀ n, n ≤ calls.length → ∃ msg, addHeaders .zero (calls.take n) = .ok msg ∧ msg.headers.length ≤ maxHeaders ∧
    ∀ field value, calls[n]? = some (field,value) → msg.headers.length = maxHeaders →
      msgAddHeader msg field value = .ok (msg,false)

theorem length_legalCalls_take (calls : List (List Char × List Char)) (n : ℕ) :
    (legalCalls (calls.take n)).length ≤ (legalCalls calls).length := by
  rw [legalCalls,legalCalls,List.length_map,List.length_map]
  exact ((List.take_sublist n calls).filter _).length_le

theorem addsInside_iff (calls : List (List Char × List Char)) :
    AddsInside calls ↔ (calls.countP fun call => legalHeader call.1 call.2) ≤ maxHeaders := by
  have hcount : (calls.countP fun call => legalHeader call.1 call.2) = (legalCalls calls).length := by
    rw [legalCalls,List.length_map,List.countP_eq_length_filter]
  have hzero : ∀ calls, addHeaders .zero calls =
      if (legalCalls calls).length ≤ maxHeaders then .ok { ParsedMsgHT.zero with headers := legalCalls calls }
      else .error .overrun := fun calls => by
    rw [addHeaders_eq (Nat.zero_le _)]
    simp only [ParsedMsgHT.zero,List.length_nil,Nat.zero_add,List.nil_append]
  rw [hcount]
  constructor
  · intro h
    obtain ⟨msg,hmsg,-⟩ := h calls.length (Nat.le_refl _)
    rw [List.take_length,hzero] at hmsg
    by_contra hmany
    rw [if_neg hmany] at hmsg
    cases hmsg
  · intro hle n hn
    have hpart := Nat.le_trans (length_legalCalls_take calls n) hle
    refine ⟨_,by rw [hzero,if_pos hpart],hpart,fun field value hnext hfull => msgAddHeader_illegal ?_⟩
    -- a legal call would be one more than there are
    by_contra hlegal
    rw [Bool.not_eq_false] at hlegal
    have hone : legalCalls [(field,value)] = [⟨field,value⟩] := by
      rw [legalCalls_cons,if_pos hlegal]
      rfl
    have hsucc : legalCalls (calls.take (n + 1)) = legalCalls (calls.take n) ++ legalCalls [(field,value)] := by
      rw [List.take_add_one,hnext,legalCalls,legalCalls,legalCalls,List.filter_append,List.map_append]
      rfl
    have hlen := length_legalCalls_take calls (n + 1)
    rw [hsucc,hone,List.length_append,List.length_singleton] at hlen
    dsimp only at hfull
    omega

/-- The parser leaves the array exactly at the texts with too many headers, and the builder
at the seventeenth header that is added. -/
theorem header_storage_iff (text : List Char) (calls : List (List Char × List Char)) :
    (parseHypertext text ≠ .error .overrun ↔ ¬TooManyHeaders text) ∧
    (AddsInside calls ↔ (calls.countP fun call => legalHeader call.1 call.2) ≤ maxHeaders) :=
  ⟨not_congr parseHypertext_overrun_iff,addsInside_iff calls⟩

theorem seventeen_headers :
    ("MOVE / HTTTP/1.0\r\n".toList ++ (List.replicate 17 ": \r\n".toList).flatten ++ "\r\n".toList).length < maxBuf ∧
    parseHypertext ("MOVE / HTTTP/1.0\r\n".toList ++ (List.replicate 17 ": \r\n".toList).flatten ++ "\r\n".toList) =
      .error .overrun ∧
    ¬AddsInside (List.replicate 17 ("a".toList,"b".toList)) := by
  refine ⟨by decide +kernel,by decide +kernel,fun h => ?_⟩
  obtain ⟨msg,hmsg,-⟩ := h 17 (by decide)
  have herror : addHeaders .zero ((List.replicate 17 ("a".toList,"b".toList)).take 17) = .error .overrun := by
    decide +kernel
  rw [herror] at hmsg
  cases hmsg

/-! ## Writing -/

/-- `outside` is a byte written beyond the buffer, `overflow` a length that no `int` holds. -/
inductive WriteError
  | outside
  | overflow
  deriving DecidableEq, Repr

/-- The buffer and the offset while a message is written. -/
structure Writer where
  buffer : List Char
  offset : ℕ

/-- `offset += snprintf(converted_ht + offset, MAX_BUF - offset, ..)`. The remaining size is an
`int` that becomes an unsigned number of 64 bits. -/
def Writer.print (r : Writer) (text : List Char) : Except WriteError Writer :=
  let size := if r.offset ≤ maxBuf then maxBuf - r.offset else 18446744073709551616 - (r.offset - maxBuf)
  let out := if size = 0 then [] else text.take (size - 1) ++ [nul]
  if intMax < r.offset + text.length then .error .overflow
  else if maxBuf < r.offset + out.length then .error .outside
  else .ok ⟨r.buffer.take r.offset ++ (out ++ r.buffer.drop (r.offset + out.length)),r.offset + text.length⟩

def Writer.printHeaders : Writer → List HeaderHT → Except WriteError Writer
  | r, [] => .ok r
  | r, header :: headers =>
    if r.offset < maxBuf then do
      let r ← r.print header.line
      r.printHeaders headers
    else .ok r

def ParsedMsgHT.requestLine (msg : ParsedMsgHT) : List Char :=
  msg.token1 ++ (htTokenSep ++ (msg.token2 ++ (htTokenSep ++ (msg.token3 ++ htEndLine))))

/-- The result and the buffer. -/
def convertToHypertext (msg : ParsedMsgHT) : Except WriteError (ℤ × List Char) := do
  let r ← Writer.print ⟨List.replicate maxBuf nul,0⟩ msg.requestLine
  let r ← r.printHeaders msg.headers
  let r ← r.print (htEndLine ++ msg.body)
  return (if maxBuf < r.offset then -1 else 0,r.buffer)

/-- The text in a buffer of characters, if it ends there. -/
def bufferText (buffer : List Char) : Option (List Char) :=
  if nul ∈ buffer then some (buffer.takeWhile (· != nul)) else none

def parseConverted (buffer : List Char) : Except ParseError ParsedMsgHT :=
  match bufferText buffer with
  | none => .error .overrun
  | some ht => parseHypertext ht

/-! ## What is in the buffer -/

/-- The buffer for a text: what does not fit is cut off, and the rest is NUL. -/
def filled (text : List Char) : List Char :=
  text.take (maxBuf - 1) ++ List.replicate (maxBuf - min text.length (maxBuf - 1)) nul

theorem length_filled (text : List Char) : (filled text).length = maxBuf := by
  rw [filled,List.length_append,List.length_take,List.length_replicate]
  unfold maxBuf
  omega

/-- A text that reaches the end of the buffer leaves no room for more. -/
theorem filled_append_of_full {text more : List Char} (h : maxBuf - 1 ≤ text.length) :
    filled (text ++ more) = filled text := by
  rw [filled,filled,List.take_append_of_le_length h,List.length_append,Nat.min_eq_right h,
    Nat.min_eq_right (Nat.le_trans h (Nat.le_add_right _ _))]

theorem filled_of_lt {text : List Char} (h : text.length < maxBuf) :
    filled text = text ++ List.replicate (maxBuf - text.length) nul := by
  have hle : text.length ≤ maxBuf - 1 := by omega
  rw [filled,List.take_of_length_le hle,Nat.min_eq_left hle]

theorem print_filled {before text : List Char} (hbefore : before.length ≤ maxBuf)
    (hint : before.length + text.length ≤ intMax) :
    Writer.print ⟨filled before,before.length⟩ text = .ok ⟨filled (before ++ text),(before ++ text).length⟩ := by
  have hlen := length_filled before
  rcases Nat.lt_or_eq_of_le hbefore with hlt | heq
  · generalize hk : maxBuf - before.length - 1 = k
    have hsize : ¬maxBuf - before.length = 0 := by omega
    have hout : (text.take k ++ [nul]).length = min k text.length + 1 := by
      rw [List.length_append,List.length_take,List.length_singleton]
    have hfits : ¬maxBuf < before.length + (text.take k ++ [nul]).length := by
      rw [hout]
      omega
    have hback : (filled before).take before.length = before := by
      rw [filled_of_lt hlt,List.take_left]
    have hrest : (filled before).drop (before.length + (text.take k ++ [nul]).length) =
        List.replicate (maxBuf - before.length - (min k text.length + 1)) nul := by
      rw [filled_of_lt hlt,← List.drop_drop,List.drop_left,hout,List.drop_replicate]
    have hfill : filled (before ++ text) = before ++ (text.take k ++ [nul] ++
        List.replicate (maxBuf - before.length - (min k text.length + 1)) nul) := by
      have hone : [nul] = List.replicate 1 nul := rfl
      have htake : (before ++ text).take (maxBuf - 1) = before ++ text.take k := by
        rw [List.take_append,List.take_of_length_le (by omega)]
        congr 2
        omega
      rw [filled,htake,hone,List.append_assoc,List.append_assoc,List.replicate_append_replicate,List.length_append]
      congr 3
      omega
    rw [Writer.print]
    dsimp only
    rw [if_pos hbefore,if_neg hsize,if_neg (Nat.not_lt.mpr hint),hk,if_neg hfits,hback,hrest,hfill,
      List.length_append]
  · have hsize : maxBuf - before.length = 0 := by omega
    have hfull : maxBuf - 1 ≤ before.length := by omega
    rw [Writer.print]
    dsimp only
    rw [if_pos hbefore,if_pos hsize,if_neg (Nat.not_lt.mpr hint),if_neg (by rw [List.length_nil]; omega),
      filled_append_of_full hfull,List.nil_append,List.length_nil,Nat.add_zero,List.take_append_drop,List.length_append]

/-- Beyond the buffer every call that writes anything writes outside. -/
theorem print_beyond {r : Writer} {text : List Char} (h : maxBuf < r.offset) :
    ∃ e, r.print text = .error e := by
  rw [Writer.print]
  split
  · exact ⟨_,rfl⟩
  · rw [if_pos (Nat.lt_of_lt_of_le h (Nat.le_add_right _ _))]
    exact ⟨_,rfl⟩

theorem printHeaders_full {r : Writer} (h : maxBuf ≤ r.offset) (headers : List HeaderHT) :
    r.printHeaders headers = .ok r := by
  cases headers with
  | nil => rfl
  | cons header headers => rw [Writer.printHeaders,if_neg (Nat.not_lt.mpr h)]

theorem printHeaders_cons {before : List Char} {header : HeaderHT} (hbefore : before.length < maxBuf)
    (hint : before.length + header.line.length ≤ intMax) (headers : List HeaderHT) :
    Writer.printHeaders ⟨filled before,before.length⟩ (header :: headers) =
      Writer.printHeaders ⟨filled (before ++ header.line),(before ++ header.line).length⟩ headers := by
  rw [Writer.printHeaders,if_pos hbefore,print_filled (Nat.le_of_lt hbefore) hint]
  rfl

/-- A text that goes beyond the buffer had reached its end exactly when a header was done. -/
def Meets (before : List Char) (headers : List HeaderHT) : Prop :=
  ∀ k, k ≤ headers.length → maxBuf < (before ++ (headers.take k).flatMap HeaderHT.line).length →
    ∃ j, j < k ∧ (before ++ (headers.take j).flatMap HeaderHT.line).length = maxBuf

theorem take_cons_text (before : List Char) (header : HeaderHT) (headers : List HeaderHT) (k : ℕ) :
    before ++ ((header :: headers).take (k + 1)).flatMap HeaderHT.line =
      before ++ header.line ++ (headers.take k).flatMap HeaderHT.line := by
  rw [List.take_succ_cons,List.flatMap_cons,List.append_assoc]

theorem Meets.le {before : List Char} {headers : List HeaderHT} (h : Meets before headers) :
    before.length ≤ maxBuf := by
  by_contra hlt
  obtain ⟨j,hj,-⟩ := h 0 (Nat.zero_le _) (by simpa using hlt)
  omega

theorem meets_cons_iff {before : List Char} {header : HeaderHT} {headers : List HeaderHT}
    (hbefore : before.length < maxBuf) : Meets before (header :: headers) ↔ Meets (before ++ header.line) headers := by
  constructor
  · intro h k hk hlt
    obtain ⟨j,hj,hlen⟩ := h (k + 1) (Nat.succ_le_succ hk) (by rw [take_cons_text]; exact hlt)
    cases j with
    | zero =>
      rw [List.take_zero,List.flatMap_nil,List.append_nil] at hlen
      omega
    | succ j =>
      rw [take_cons_text] at hlen
      exact ⟨j,Nat.lt_of_succ_lt_succ hj,hlen⟩
  · intro h k hk hlt
    cases k with
    | zero =>
      rw [List.take_zero,List.flatMap_nil,List.append_nil] at hlt
      omega
    | succ k =>
      rw [take_cons_text] at hlt
      obtain ⟨j,hj,hlen⟩ := h k (Nat.le_of_succ_le_succ hk) hlt
      exact ⟨j + 1,Nat.succ_lt_succ hj,by rw [take_cons_text]; exact hlen⟩

/-- The loop ends at the last header, or where the text reaches the end of the buffer. -/
theorem printHeaders_meets {before : List Char} {headers : List HeaderHT} (h : Meets before headers) :
    ∃ k, k ≤ headers.length ∧
      Writer.printHeaders ⟨filled before,before.length⟩ headers =
        .ok ⟨filled (before ++ (headers.take k).flatMap HeaderHT.line),
          (before ++ (headers.take k).flatMap HeaderHT.line).length⟩ ∧
      (before ++ (headers.take k).flatMap HeaderHT.line).length ≤ maxBuf ∧
      (k = headers.length ∨ (before ++ (headers.take k).flatMap HeaderHT.line).length = maxBuf) := by
  have hint : maxBuf ≤ intMax := by decide
  have hzero : ∀ headers : List HeaderHT, before ++ (headers.take 0).flatMap HeaderHT.line = before := fun headers => by
    rw [List.take_zero,List.flatMap_nil,List.append_nil]
  induction headers generalizing before with
  | nil =>
    refine ⟨0,Nat.le_refl _,?_,?_,Or.inl rfl⟩
    · rw [hzero]
      rfl
    · rw [hzero]
      exact h.le
  | cons header headers ih =>
    rcases Nat.lt_or_eq_of_le h.le with hlt | heq
    · have hnext := (meets_cons_iff hlt).mp h
      have hle := hnext.le
      rw [List.length_append] at hle
      obtain ⟨k,hk,hprint,hlen,hend⟩ := ih hnext fun headers => by
        rw [List.take_zero,List.flatMap_nil,List.append_nil]
      refine ⟨k + 1,Nat.succ_le_succ hk,?_,?_,?_⟩
      · rw [printHeaders_cons hlt (by omega),hprint,take_cons_text]
      · rw [take_cons_text]
        exact hlen
      · rw [take_cons_text,List.length_cons]
        exact hend.imp_left (congrArg (· + 1))
    · refine ⟨0,Nat.zero_le _,?_,?_,Or.inr ?_⟩
      · rw [printHeaders_full (Nat.le_of_eq heq.symm),hzero]
      · rw [hzero]
        exact h.le
      · rw [hzero]
        exact heq

/-- A header that goes beyond the buffer leaves the offset there, if an `int` holds it. -/
theorem printHeaders_jumps {before : List Char} {headers : List HeaderHT} (hbefore : before.length ≤ maxBuf)
    (h : ¬Meets before headers) :
    (∃ e, Writer.printHeaders ⟨filled before,before.length⟩ headers = .error e) ∨
    ∃ r, Writer.printHeaders ⟨filled before,before.length⟩ headers = .ok r ∧ maxBuf < r.offset := by
  induction headers generalizing before with
  | nil =>
    refine absurd (fun k _ hlt => ?_) h
    rw [List.take_nil,List.flatMap_nil,List.append_nil] at hlt
    omega
  | cons header headers ih =>
    rcases Nat.lt_or_eq_of_le hbefore with hlt | heq
    · by_cases hint : before.length + header.line.length ≤ intMax
      · rw [printHeaders_cons hlt hint]
        by_cases hle : (before ++ header.line).length ≤ maxBuf
        · exact ih hle (mt (meets_cons_iff hlt).mpr h)
        · have hgt := Nat.lt_of_not_le hle
          exact Or.inr ⟨_,printHeaders_full (Nat.le_of_lt hgt) headers,hgt⟩
      · refine Or.inl ⟨.overflow,?_⟩
        rw [Writer.printHeaders,if_pos hlt,Writer.print]
        dsimp only
        rw [if_pos (Nat.lt_of_not_le hint)]
        rfl
    · refine absurd (fun k _ hlt => ?_) h
      cases k with
      | zero =>
        rw [List.take_zero,List.flatMap_nil,List.append_nil] at hlt
        omega
      | succ k =>
        refine ⟨0,Nat.succ_pos k,?_⟩
        rw [List.take_zero,List.flatMap_nil,List.append_nil]
        exact heq

/-! ## The whole text -/

theorem text_eq (msg : ParsedMsgHT) :
    msg.text = msg.requestLine ++ msg.headers.flatMap HeaderHT.line ++ (htEndLine ++ msg.body) := by
  simp only [ParsedMsgHT.text,ParsedMsgHT.sections,ParsedMsgHT.requestLine,List.append_assoc]

theorem filled_nil : filled [] = List.replicate maxBuf nul := filled_of_lt (by decide)

theorem convert_meets {msg : ParsedMsgHT} (h : Meets msg.requestLine msg.headers) (hbody : msg.body.length < maxBuf) :
    ∃ k, k ≤ msg.headers.length ∧
      convertToHypertext msg = .ok
        (if maxBuf < (msg.requestLine ++ (msg.headers.take k).flatMap HeaderHT.line ++ (htEndLine ++ msg.body)).length
          then -1 else 0,
        filled (msg.requestLine ++ (msg.headers.take k).flatMap HeaderHT.line ++ (htEndLine ++ msg.body))) ∧
      (k = msg.headers.length ∨ (msg.requestLine ++ (msg.headers.take k).flatMap HeaderHT.line).length = maxBuf) := by
  obtain ⟨k,hk,hprint,hle,hend⟩ := printHeaders_meets h
  have hfirst : Writer.print ⟨List.replicate maxBuf nul,0⟩ msg.requestLine =
      .ok ⟨filled msg.requestLine,msg.requestLine.length⟩ := by
    rw [← filled_nil]
    refine print_filled (Nat.zero_le _) ?_
    have hline := h.le
    have hmax : maxBuf ≤ intMax := by decide
    rw [List.length_nil,Nat.zero_add]
    omega
  have hlast : (htEndLine ++ msg.body).length = 2 + msg.body.length := by
    rw [List.length_append]
    rfl
  have hint : maxBuf + (2 + maxBuf) ≤ intMax := by decide
  refine ⟨k,hk,?_,hend⟩
  rw [convertToHypertext,hfirst]
  dsimp only [bind,Except.bind]
  rw [hprint]
  dsimp only
  rw [print_filled hle (by rw [hlast]; omega)]
  rfl

theorem convert_jumps {msg : ParsedMsgHT} (h : ¬Meets msg.requestLine msg.headers) :
    ∃ e, convertToHypertext msg = .error e := by
  rw [convertToHypertext,← filled_nil]
  by_cases hint : intMax < msg.requestLine.length
  · have hfirst : Writer.print ⟨filled [],0⟩ msg.requestLine = .error .overflow := by
      rw [Writer.print]
      dsimp only
      rw [if_pos (by rw [Nat.zero_add]; exact hint)]
    rw [hfirst]
    exact ⟨_,rfl⟩
  · have hfirst : Writer.print ⟨filled [],0⟩ msg.requestLine = .ok ⟨filled msg.requestLine,msg.requestLine.length⟩ :=
      print_filled (Nat.zero_le _) (by rw [List.length_nil,Nat.zero_add]; exact Nat.le_of_not_lt hint)
    have hrest : (∃ e, Writer.printHeaders ⟨filled msg.requestLine,msg.requestLine.length⟩ msg.headers = .error e) ∨
        ∃ r, Writer.printHeaders ⟨filled msg.requestLine,msg.requestLine.length⟩ msg.headers = .ok r ∧
          maxBuf < r.offset := by
      by_cases hle : msg.requestLine.length ≤ maxBuf
      · exact printHeaders_jumps hle h
      · have hgt := Nat.lt_of_not_le hle
        exact Or.inr ⟨_,printHeaders_full (Nat.le_of_lt hgt) _,hgt⟩
    rw [hfirst]
    dsimp only [bind,Except.bind]
    rcases hrest with ⟨e,he⟩ | ⟨r,hr,hgt⟩
    · rw [he]
      exact ⟨e,rfl⟩
    · obtain ⟨e,he⟩ : ∃ e, r.print (htEndLine ++ msg.body) = .error e := print_beyond hgt
      rw [hr]
      dsimp only
      rw [he]
      exact ⟨e,rfl⟩

theorem length_headers_take (headers : List HeaderHT) (k : ℕ) :
    ((headers.take k).flatMap HeaderHT.line).length ≤ (headers.flatMap HeaderHT.line).length := by
  conv_rhs => rw [← List.take_append_drop k headers,List.flatMap_append,List.length_append]
  exact Nat.le_add_right _ _

theorem meets_of_short {msg : ParsedMsgHT} (h : msg.text.length ≤ maxBuf) : Meets msg.requestLine msg.headers := by
  intro k _ hlt
  have hprefix := length_headers_take msg.headers k
  rw [text_eq] at h
  simp only [List.length_append] at h hlt
  omega

/-- A text that fits with or without its NUL is reported as written. -/
theorem convert_short {msg : ParsedMsgHT} (h : msg.text.length ≤ maxBuf) :
    convertToHypertext msg = .ok (0,filled msg.text) := by
  have hlen := congrArg List.length (text_eq msg)
  simp only [List.length_append] at hlen
  have htwo : htEndLine.length = 2 := rfl
  obtain ⟨k,hk,hconvert,hend⟩ := convert_meets (meets_of_short h) (by omega)
  have hall : k = msg.headers.length := by
    refine hend.resolve_right fun hfull => ?_
    have hprefix := length_headers_take msg.headers k
    rw [List.length_append] at hfull
    omega
  rw [hconvert,hall,List.take_length,← text_eq,if_neg (Nat.not_lt.mpr h)]

/-- A longer text is not: the result is `-1`, or there is none. -/
theorem convert_long {msg : ParsedMsgHT} (h : maxBuf < msg.text.length) (hbody : msg.body.length < maxBuf) :
    (Meets msg.requestLine msg.headers → ∃ buffer, convertToHypertext msg = .ok (-1,buffer)) ∧
    ∀ buffer, convertToHypertext msg ≠ .ok (0,buffer) := by
  have hneg : Meets msg.requestLine msg.headers → ∃ buffer, convertToHypertext msg = .ok (-1,buffer) := by
    intro hmeets
    obtain ⟨k,-,hconvert,hend⟩ := convert_meets hmeets hbody
    rw [if_pos] at hconvert
    · exact ⟨_,hconvert⟩
    · rcases hend with rfl | hfull
      · rw [List.take_length,← text_eq]
        exact h
      · rw [List.length_append,hfull,List.length_append]
        exact Nat.lt_add_of_pos_right (Nat.lt_of_lt_of_le Nat.zero_lt_two (Nat.le_add_right _ _))
  refine ⟨hneg,fun buffer heq => ?_⟩
  by_cases hmeets : Meets msg.requestLine msg.headers
  · obtain ⟨buffer',hbuffer⟩ := hneg hmeets
    rw [hbuffer] at heq
    cases heq
  · obtain ⟨e,he⟩ := convert_jumps hmeets
    rw [he] at heq
    cases heq

/-- Every byte is written inside the buffer, the result says whether the text fits with its
NUL, and if it does the buffer holds it. -/
def WrittenExactly (msg : ParsedMsgHT) : Prop :=
  ∃ result buffer, convertToHypertext msg = .ok (result,buffer) ∧ (result = 0 ↔ msg.text.length + 1 ≤ maxBuf) ∧
    (result = 0 → buffer = msg.text ++ List.replicate (maxBuf - msg.text.length) nul)

theorem length_of_msgAddBody {msg : ParsedMsgHT} {body : List Char} (h : (msgAddBody msg body).2 = true) :
    body.length < maxBuf := by
  rw [msgAddBody] at h
  split at h
  · cases h
  · next hle => exact Nat.lt_of_not_le hle

theorem written_exactly_iff {msg : ParsedMsgHT} (hbody : (msgAddBody .zero msg.body).2 = true) :
    WrittenExactly msg ↔ msg.text.length ≠ maxBuf ∧ Meets msg.requestLine msg.headers := by
  have hlt := length_of_msgAddBody hbody
  constructor
  · rintro ⟨result,buffer,hconvert,hresult,-⟩
    refine ⟨fun hlen => ?_,?_⟩
    · rw [convert_short (Nat.le_of_eq hlen)] at hconvert
      cases hconvert
      have := hresult.mp rfl
      omega
    · by_contra hjump
      obtain ⟨e,he⟩ := convert_jumps hjump
      rw [he] at hconvert
      cases hconvert
  · rintro ⟨hne,hmeets⟩
    rcases Nat.lt_or_gt_of_ne hne with hshort | hlong
    · refine ⟨0,filled msg.text,convert_short (Nat.le_of_lt hshort),iff_of_true rfl hshort,fun _ => ?_⟩
      exact filled_of_lt hshort
    · obtain ⟨buffer,hconvert⟩ := (convert_long hlong hlt).1 hmeets
      refine ⟨-1,buffer,hconvert,iff_of_false (by decide) (by omega),fun h => ?_⟩
      cases h

def shortMessage (headers : List HeaderHT) (body : List Char) : ParsedMsgHT :=
  ⟨"MOVE".toList,"/".toList,"HTTTP/1.0".toList,headers,body⟩

theorem written_exactly_short : WrittenExactly (shortMessage [] "up".toList) ↔
    (shortMessage [] "up".toList).text.length ≠ maxBuf ∧
      Meets (shortMessage [] "up".toList).requestLine (shortMessage [] "up".toList).headers :=
  written_exactly_iff (by decide)

/-- A text as long as the buffer loses its last character. A header that jumps over the end of
the buffer has the body written outside. -/
theorem lost_or_outside :
    (shortMessage [] (List.replicate 2028 'a')).text.length = maxBuf ∧
    (msgAddBody .zero (List.replicate 2028 'a')).2 = true ∧
    ¬WrittenExactly (shortMessage [] (List.replicate 2028 'a')) ∧
    ¬WrittenExactly (shortMessage [⟨"X".toList,List.replicate 2048 'a'⟩] "up".toList) := by
  have hlen : (shortMessage [] (List.replicate 2028 'a')).text.length = maxBuf := by
    rw [text_eq]
    simp only [List.length_append,shortMessage,List.length_replicate]
    rfl
  refine ⟨hlen,?_,?_,?_⟩
  · rw [msgAddBody,List.length_replicate]
    rfl
  · rintro ⟨result,buffer,hconvert,hresult,-⟩
    rw [convert_short (Nat.le_of_eq hlen)] at hconvert
    cases hconvert
    have hfits := hresult.mp rfl
    omega
  · rintro ⟨result,buffer,hconvert,-⟩
    have hjump : ¬Meets (shortMessage [⟨"X".toList,List.replicate 2048 'a'⟩] "up".toList).requestLine
        (shortMessage [⟨"X".toList,List.replicate 2048 'a'⟩] "up".toList).headers := by
      intro hmeets
      obtain ⟨j,hj,hfull⟩ := hmeets 1 (Nat.le_refl 1) (by
        simp only [shortMessage,ParsedMsgHT.requestLine,List.take_succ_cons,List.take_zero,List.flatMap_singleton,
          HeaderHT.line,List.length_append,List.length_replicate]
        decide)
      obtain rfl := Nat.lt_one_iff.mp hj
      cases hfull
    obtain ⟨e,he⟩ := convert_jumps hjump
    rw [he] at hconvert
    cases hconvert

end CoreStack.Hypertext
