import CoreStack.Hypertext.Parsing

/-! # The texts of the hypertext protocol

A message is written as its request line, a line for each header, a blank line and
the body. The parser does not go by lines: it looks for the next separator in all of
the remaining text, and counts lines up to the first blank line.
-/
namespace CoreStack.Hypertext
open Utils Cutting

/-! ## Counting lines -/

def IsLine (line : List Char) : Prop := line ≠ [] ∧ ¬htEndLine <:+: line

def joinLines (lines : List (List Char)) : List Char := lines.flatMap (· ++ htEndLine)

theorem cut_line {line : List Char} (h : ¬htEndLine <:+: line) (rest : List Char) :
    Cut htEndLine (line ++ (htEndLine ++ rest)) line rest :=
  (cut_iff unbordered_endLine).mpr ⟨rfl,h⟩

theorem IsLine.not_ended {line : List Char} (h : IsLine line) (rest : List Char) :
    ¬htEndLine <+: line ++ (htEndLine ++ rest) := by
  intro hpre
  exact (cut_line h.2 rest).first 0 (List.length_pos_iff.mpr h.1) hpre

/-- The first blank line is looked for behind a line with its end. -/
theorem cut_blank_line {line more before after : List Char} (h : ¬htEndLine <:+: line)
    (hmore : ¬htEndLine <+: more) (hcut : Cut htBlankLine more before after) :
    Cut htBlankLine (line ++ (htEndLine ++ more)) (line ++ (htEndLine ++ before)) after := by
  refine ⟨by rw [hcut.split]; simp only [List.append_assoc],fun k hk hocc => ?_⟩
  have hblank : htBlankLine = htEndLine ++ htEndLine := rfl
  have hend : htEndLine <+: (line ++ (htEndLine ++ more)).drop k :=
    (hblank ▸ List.prefix_append htEndLine htEndLine).trans hocc
  have hle : line.length ≤ k := Nat.le_of_not_lt fun hlt => (cut_line h more).first k hlt hend
  obtain ⟨j,rfl⟩ := Nat.exists_eq_add_of_le hle
  rw [← List.drop_drop,List.drop_left] at hocc
  match j with
  | 0 =>
    apply hmore
    rw [List.drop_zero,hblank] at hocc
    exact (List.prefix_append_right_inj htEndLine).mp hocc
  | 1 =>
    obtain ⟨u,hu⟩ := hocc
    cases hu
  | j + 2 =>
    have hdrop : (htEndLine ++ more).drop (j + 2) = more.drop j := rfl
    rw [hdrop] at hocc
    refine hcut.first j ?_ hocc
    have hlen : htEndLine.length = 2 := rfl
    rw [List.length_append,List.length_append,hlen] at hk
    omega

theorem cut_blank {lines : List (List Char)} (hne : lines ≠ []) (h : ∀ line ∈ lines, IsLine line)
    (body : List Char) :
    ∃ before, Cut htBlankLine (joinLines lines ++ (htEndLine ++ body)) before body ∧
      before ++ htEndLine = joinLines lines := by
  have hblank : htBlankLine = htEndLine ++ htEndLine := rfl
  induction lines with
  | nil => exact absurd rfl hne
  | cons line lines ih =>
    obtain ⟨hline,hlines⟩ := List.forall_mem_cons.mp h
    have hjoin : joinLines (line :: lines) = line ++ (htEndLine ++ joinLines lines) := by
      rw [joinLines,List.flatMap_cons,List.append_assoc]
      rfl
    cases lines with
    | nil =>
      refine ⟨line,⟨?_,fun k hk hocc => ?_⟩,?_⟩
      · rw [hjoin,hblank,joinLines,List.flatMap_nil,List.append_nil]
        simp only [List.append_assoc]
      · rw [hjoin,List.append_assoc,List.append_assoc] at hocc
        exact (cut_line hline.2 _).first k hk ((hblank ▸ List.prefix_append htEndLine htEndLine).trans hocc)
      · rw [hjoin,joinLines,List.flatMap_nil,List.append_nil]
    | cons next lines =>
      obtain ⟨before,hcut,hbefore⟩ := ih (List.cons_ne_nil _ _) hlines
      refine ⟨line ++ (htEndLine ++ before),?_,?_⟩
      · rw [hjoin,List.append_assoc,List.append_assoc]
        refine cut_blank_line hline.2 ?_ hcut
        rw [joinLines,List.flatMap_cons,List.append_assoc,List.append_assoc]
        exact (hlines next List.mem_cons_self).not_ended _
      · rw [hjoin,← hbefore,List.append_assoc,List.append_assoc]

theorem countEndLines_past {s : List Char} {headersEnd ptr : ℕ} (h : headersEnd ≤ ptr) (fuel : ℕ) :
    countEndLines s headersEnd fuel ptr = 0 := by
  cases fuel with
  | zero => rfl
  | succ fuel => rw [countEndLines,if_neg (Nat.not_lt.mpr h)]

theorem countEndLines_lines {s tail : List Char} {headersEnd fuel ptr : ℕ} {lines : List (List Char)}
    (hne : lines ≠ []) (h : ∀ line ∈ lines, ¬htEndLine <:+: line) (hlast : lines.getLast hne ≠ [])
    (hs : s.drop ptr = joinLines lines ++ tail) (hend : ptr + (joinLines lines).length = headersEnd + 2)
    (hfuel : headersEnd - ptr ≤ fuel) : countEndLines s headersEnd fuel ptr = lines.length := by
  have htwo : htEndLine.length = 2 := rfl
  induction lines generalizing fuel ptr with
  | nil => exact absurd rfl hne
  | cons line lines ih =>
    obtain ⟨hline,hlines⟩ := List.forall_mem_cons.mp h
    rw [joinLines,List.flatMap_cons,← joinLines] at hs hend
    rw [List.append_assoc,List.append_assoc] at hs
    rw [List.length_append,List.length_append,htwo] at hend
    -- an empty line is not the last one
    have hlt : ptr < headersEnd := by
      cases lines with
      | nil =>
        have hpos := List.length_pos_iff.mpr hlast
        rw [List.getLast_singleton] at hpos
        omega
      | cons next lines =>
        rw [joinLines,List.flatMap_cons,List.length_append,List.length_append,htwo] at hend
        omega
    cases fuel with
    | zero => omega
    | succ fuel =>
      have hfind : strstr (s.drop ptr) htEndLine = some line.length := by
        rw [hs]
        exact strstr_cut (cut_line hline _)
      rw [countEndLines,if_pos hlt,hfind,List.length_cons]
      dsimp only
      congr 1
      cases lines with
      | nil =>
        rw [joinLines,List.flatMap_nil,List.length_nil] at hend
        exact countEndLines_past (by omega) fuel
      | cons next lines =>
        have hlast' := hlast
        rw [List.getLast_cons (List.cons_ne_nil _ _)] at hlast'
        refine ih (List.cons_ne_nil _ _) hlines hlast' ?_ (by omega) (by omega)
        rw [Nat.add_assoc,← List.drop_drop,hs,← htwo,← List.length_append,← List.append_assoc,List.drop_left]

/-- So many lines stand before the first blank line. A text that begins with a blank line,
or has none, has no such line. -/
def LinesBeforeBlank (s : List Char) (n : ℕ) : Prop :=
  ∃ lines : List (List Char), lines.length = n ∧ (∀ line ∈ lines, ¬htEndLine <:+: line) ∧
    ((∃ before after, Cut htBlankLine s before after ∧ before ≠ [] ∧ joinLines lines = before ++ htEndLine) ∨
      (lines = [] ∧ ∀ before after, Cut htBlankLine s before after → before = []))

/-- The last line before the first blank line is not empty. -/
theorem last_line_ne_nil {s before after : List Char} {lines : List (List Char)} (hne : lines ≠ [])
    (hcut : Cut htBlankLine s before after) (hbefore : before ≠ []) (hjoin : joinLines lines = before ++ htEndLine) :
    lines.getLast hne ≠ [] := by
  intro hlast
  have hsplit := List.dropLast_append_getLast hne
  rw [hlast] at hsplit
  generalize lines.dropLast = init at hsplit
  have hinit : joinLines init = before := by
    rw [← hsplit,joinLines,List.flatMap_append,← joinLines] at hjoin
    exact List.append_cancel_right hjoin
  rcases List.eq_nil_or_concat' init with rfl | ⟨init,line,rfl⟩
  · exact hbefore hinit.symm
  · -- the line in front of it ends with a blank line
    rw [joinLines,List.flatMap_append,List.flatMap_singleton,← joinLines,← List.append_assoc] at hinit
    have hlen := congrArg List.length hinit
    rw [List.length_append] at hlen
    have htwo : htEndLine.length = 2 := rfl
    apply hcut.first (joinLines init ++ line).length (by omega)
    rw [hcut.split,← hinit,List.append_assoc _ htEndLine,List.drop_left]
    exact List.prefix_append (htEndLine ++ htEndLine) (htEndLine ++ after)

theorem linesBeforeBlank_unique {s : List Char} {n : ℕ} (h : LinesBeforeBlank s n) : countHeaders s = n := by
  obtain ⟨lines,rfl,hfree,⟨before,after,hcut,hbefore,hjoin⟩ | ⟨rfl,hnone⟩⟩ := h
  · have hne : lines ≠ [] := by
      rintro rfl
      exact List.append_ne_nil_of_left_ne_nil hbefore _ hjoin.symm
    have hs : s.drop 0 = joinLines lines ++ (htEndLine ++ after) := by
      rw [List.drop_zero,hcut.split,hjoin,List.append_assoc]
      rfl
    rw [countHeaders,strstr_cut hcut]
    refine countEndLines_lines hne hfree (last_line_ne_nil hne hcut hbefore hjoin) hs ?_ (Nat.sub_le _ _)
    rw [hjoin,List.length_append,Nat.zero_add]
    rfl
  · by_cases hblank : htBlankLine <:+: s
    · obtain ⟨before,after,hcut⟩ := exists_cut hblank
      rw [countHeaders,strstr_cut hcut,hnone before after hcut]
      rfl
    · rw [countHeaders,strstr_eq_none_iff.mpr hblank]
      rfl

theorem linesBeforeBlank_iff {s : List Char} {n : ℕ} : LinesBeforeBlank s n ↔ countHeaders s = n := by
  refine ⟨linesBeforeBlank_unique,fun h => ?_⟩
  have hexists : ∃ n, LinesBeforeBlank s n := by
    by_cases hnone : ∀ before after, Cut htBlankLine s before after → before = []
    · exact ⟨0,[],rfl,fun _ hmem => absurd hmem List.not_mem_nil,Or.inr ⟨rfl,hnone⟩⟩
    · push Not at hnone
      obtain ⟨before,after,hcut,hbefore⟩ := hnone
      obtain ⟨lines,hjoin,hfree⟩ := exists_pieces unbordered_endLine before
      exact ⟨lines.length,lines,rfl,hfree,Or.inl ⟨before,after,hcut,hbefore,hjoin⟩⟩
  obtain ⟨m,hm⟩ := hexists
  rw [← h,linesBeforeBlank_unique hm]
  exact hm

theorem countHeaders_lines {lines : List (List Char)} (hne : lines ≠ []) (h : ∀ line ∈ lines, IsLine line)
    (body : List Char) : LinesBeforeBlank (joinLines lines ++ (htEndLine ++ body)) lines.length := by
  obtain ⟨before,hcut,hjoin⟩ := cut_blank hne h body
  refine ⟨lines,rfl,fun line hmem => (h line hmem).2,Or.inl ⟨before,body,hcut,?_,hjoin.symm⟩⟩
  rintro rfl
  obtain ⟨line,lines,rfl⟩ := List.exists_cons_of_ne_nil hne
  have hpos := List.length_pos_iff.mpr (h line List.mem_cons_self).1
  have hlen := congrArg List.length hjoin
  have htwo : htEndLine.length = 2 := rfl
  rw [joinLines,List.flatMap_cons,List.length_append,List.length_append,List.length_append,List.length_nil] at hlen
  omega

/-- Without a header the first blank line may be one of the body. -/
theorem blank_in_body_iff {body : List Char} :
    htBlankLine <:+: htEndLine ++ body ↔ htEndLine <+: body ∨ htBlankLine <:+: body := by
  have hblank : htBlankLine = htEndLine ++ htEndLine := rfl
  constructor
  · intro h
    rcases List.infix_cons_iff.mp h with hpre | h
    · rw [hblank] at hpre
      exact Or.inl ((List.prefix_append_right_inj htEndLine).mp hpre)
    · rcases List.infix_cons_iff.mp h with hpre | h
      · obtain ⟨u,hu⟩ := hpre
        cases hu
      · exact Or.inr h
  · rintro (h | h)
    · rw [hblank]
      exact ((List.prefix_append_right_inj htEndLine).mpr h).isInfix
    · exact h.trans (List.suffix_append htEndLine body).isInfix

theorem countHeaders_eq_zero_iff {body : List Char} :
    countHeaders (htEndLine ++ body) = 0 ↔ (htBlankLine <:+: body → htEndLine <+: body) := by
  by_cases hblank : htBlankLine <:+: htEndLine ++ body
  · obtain ⟨before,after,hcut⟩ := exists_cut hblank
    rw [countHeaders,strstr_cut hcut]
    dsimp only
    cases hlen : before.length with
    | zero =>
      obtain rfl := List.length_eq_zero_iff.mp hlen
      have hpre : htEndLine <+: body := by
        have hocc := hcut.occurs
        rw [List.length_nil,List.drop_zero] at hocc
        exact (List.prefix_append_right_inj htEndLine).mp hocc
      exact iff_of_true rfl fun _ => hpre
    | succ n =>
      have hfirst : strstr ((htEndLine ++ body).drop 0) htEndLine = some 0 := strstr_cut (cut_nil body)
      rw [countEndLines,if_pos (Nat.succ_pos n),hfirst]
      refine iff_of_false (Nat.succ_ne_zero _) fun himp => ?_
      have hpre : htEndLine <+: body := by
        rcases blank_in_body_iff.mp hblank with hpre | hin
        · exact hpre
        · exact himp hin
      apply hcut.first 0 (by omega)
      exact (List.prefix_append_right_inj htEndLine).mpr hpre
  · rw [countHeaders,strstr_eq_none_iff.mpr hblank]
    exact iff_of_true rfl fun hin => absurd (blank_in_body_iff.mpr (Or.inr hin)) hblank

/-! ## Messages and their texts -/

def HeaderHT.content (header : HeaderHT) : List Char := header.field ++ (htHeaderSep ++ header.value)

def ParsedMsgHT.sections (msg : ParsedMsgHT) : List Char :=
  msg.headers.flatMap HeaderHT.line ++ (htEndLine ++ msg.body)

def ParsedMsgHT.text (msg : ParsedMsgHT) : List Char :=
  msg.token1 ++ (htTokenSep ++ (msg.token2 ++ (htTokenSep ++ (msg.token3 ++ (htEndLine ++ msg.sections)))))

theorem joinLines_headers (headers : List HeaderHT) :
    joinLines (headers.map HeaderHT.content) = headers.flatMap HeaderHT.line := by
  rw [joinLines,List.flatMap_map]
  congr 1
  funext header
  simp only [HeaderHT.content,HeaderHT.line,List.append_assoc]

theorem isLine_header {header : HeaderHT} (hfield : ¬htEndLine <:+: header.field)
    (hvalue : ¬htEndLine <:+: header.value) : IsLine header.content := by
  refine ⟨List.append_ne_nil_of_right_ne_nil _ (List.cons_ne_nil _ _),fun hin => ?_⟩
  rcases List.infix_append_iff_ne_nil.mp hin with hin | hin | ⟨u,v,hu,hv,huv,-,hpre⟩
  · exact hfield hin
  · rcases List.infix_cons_iff.mp hin with ⟨t,ht⟩ | hin
    · cases ht
    · rcases List.infix_cons_iff.mp hin with ⟨t,ht⟩ | hin
      · cases ht
      · exact hvalue hin
  · -- a field that ends with CR is followed by a colon
    obtain ⟨a,u,rfl⟩ := List.exists_cons_of_ne_nil hu
    obtain ⟨b,v,rfl⟩ := List.exists_cons_of_ne_nil hv
    obtain ⟨t,ht⟩ := hpre
    cases u with
    | nil =>
      cases huv
      cases ht
    | cons c u =>
      have hlen := congrArg List.length huv
      simp only [List.length_append,List.length_cons] at hlen
      have htwo : htEndLine.length = 2 := rfl
      omega

/-- `skipped` is what the parser passes over before the body it returns. -/
structure Pieces (text : List Char) (msg : ParsedMsgHT) (skipped : List Char) : Prop where
  line : RequestLine text msg.token1 msg.token2 msg.token3
    (msg.headers.flatMap HeaderHT.line ++ (skipped ++ (htEndLine ++ msg.body)))
  headers : ∀ header ∈ msg.headers, ¬htHeaderSep <:+: header.field ∧ ¬htEndLine <:+: header.value
  counted : LinesBeforeBlank (msg.headers.flatMap HeaderHT.line ++ (skipped ++ (htEndLine ++ msg.body)))
    msg.headers.length
  room : msg.headers.length ≤ maxHeaders
  skipped : ¬htEndLine <:+: skipped

theorem parseHypertext_eq_ok_iff {text : List Char} {msg : ParsedMsgHT} :
    parseHypertext text = .ok msg ↔ ∃ skipped, Pieces text msg skipped := by
  constructor
  · intro h
    by_cases hline : ∃ token1 token2 token3 rest, RequestLine text token1 token2 token3 rest
    · obtain ⟨token1,token2,token3,rest,hline⟩ := hline
      rw [parseHypertext_requestLine hline,parseSections] at h
      cases hp : parseHeaders (countHeaders rest) [] rest with
      | error e =>
        rw [hp] at h
        cases h
      | ok p =>
        obtain ⟨headers,tail⟩ := p
        rw [hp] at h
        dsimp only [bind,Except.bind] at h
        cases hb : nextToken tail htEndLine with
        | error e =>
          rw [hb] at h
          cases h
        | ok q =>
          obtain ⟨skipped,body⟩ := q
          rw [hb] at h
          cases h
          obtain ⟨new,rfl,hcount,hroom,hcuts⟩ := (parseHeaders_eq_ok_iff (Nat.zero_le _)).mp hp
          obtain ⟨rfl,hfree⟩ := headerCuts_iff.mp hcuts
          obtain ⟨rfl,hskip⟩ := (cut_iff unbordered_endLine).mp (nextToken_eq_ok_iff.mp hb)
          rw [List.length_nil,Nat.zero_add,← hcount] at hroom
          exact ⟨skipped,hline,hfree,linesBeforeBlank_iff.mpr hcount.symm,hroom,hskip⟩
    · rw [parseHypertext_no_requestLine hline] at h
      cases h
  · rintro ⟨skipped,hp⟩
    have hcount := linesBeforeBlank_iff.mp hp.counted
    have hcuts : HeaderCuts (msg.headers.flatMap HeaderHT.line ++ (skipped ++ (htEndLine ++ msg.body))) msg.headers
        (skipped ++ (htEndLine ++ msg.body)) := headerCuts_iff.mpr ⟨rfl,hp.headers⟩
    have hroom : ([] : List HeaderHT).length +
        countHeaders (msg.headers.flatMap HeaderHT.line ++ (skipped ++ (htEndLine ++ msg.body))) ≤ maxHeaders := by
      rw [hcount,List.length_nil,Nat.zero_add]
      exact hp.room
    have hheaders := (parseHeaders_eq_ok_iff (Nat.zero_le _)).mpr ⟨msg.headers,rfl,hcount.symm,hroom,hcuts⟩
    rw [parseHypertext_requestLine hp.line,parseSections,hheaders]
    dsimp only [bind,Except.bind]
    rw [nextToken_cut (cut_line hp.skipped _)]
    rfl

/-- More lines stand before the first blank line than the array holds headers, and one header
more than it holds can be cut off. -/
def TooManyHeaders (text : List Char) : Prop :=
  ∃ (token1 token2 token3 : List Char) (headers : List HeaderHT) (tail : List Char) (n : ℕ),
    RequestLine text token1 token2 token3 (headers.flatMap HeaderHT.line ++ tail) ∧
    (∀ header ∈ headers, ¬htHeaderSep <:+: header.field ∧ ¬htEndLine <:+: header.value) ∧
    headers.length = maxHeaders + 1 ∧ LinesBeforeBlank (headers.flatMap HeaderHT.line ++ tail) n ∧ maxHeaders < n

theorem parseHypertext_overrun_iff {text : List Char} :
    parseHypertext text = .error .overrun ↔ TooManyHeaders text := by
  constructor
  · intro h
    by_cases hline : ∃ token1 token2 token3 rest, RequestLine text token1 token2 token3 rest
    · obtain ⟨token1,token2,token3,rest,hline⟩ := hline
      rw [parseHypertext_requestLine hline,parseSections] at h
      cases hp : parseHeaders (countHeaders rest) [] rest with
      | error e =>
        rw [hp] at h
        cases h
        obtain ⟨headers,tail,hlen,hle,hcuts⟩ := (parseHeaders_overrun_iff (Nat.zero_le _)).mp hp
        obtain ⟨rfl,hfree⟩ := headerCuts_iff.mp hcuts
        rw [List.length_nil,Nat.zero_add] at hlen
        exact ⟨token1,token2,token3,headers,tail,_,hline,hfree,hlen,linesBeforeBlank_iff.mpr rfl,by omega⟩
      | ok p =>
        rw [hp] at h
        dsimp only [bind,Except.bind] at h
        cases hb : nextToken p.2 htEndLine with
        | error e =>
          rw [hb] at h
          cases h
          cases (nextToken_eq_error_iff.mp hb).1
        | ok q =>
          rw [hb] at h
          cases h
    · rw [parseHypertext_no_requestLine hline] at h
      cases h
  · rintro ⟨token1,token2,token3,headers,tail,n,hline,hfree,hlen,hcounted,hmany⟩
    rw [← linesBeforeBlank_iff.mp hcounted] at hmany
    have hle : headers.length ≤ countHeaders (headers.flatMap HeaderHT.line ++ tail) := by
      rw [hlen]
      exact hmany
    have hsum : ([] : List HeaderHT).length + headers.length = maxHeaders + 1 := by
      rw [List.length_nil,Nat.zero_add,hlen]
    have hover := (parseHeaders_overrun_iff (Nat.zero_le _)).mpr
      ⟨headers,tail,hsum,hle,headerCuts_iff.mpr ⟨rfl,hfree⟩⟩
    rw [parseHypertext_requestLine hline,parseSections,hover]
    rfl

/-! ## The grammar -/

/-- The text is the message, written in the grammar: no separator occurs in a piece it would end. -/
structure WellFormed (text : List Char) (msg : ParsedMsgHT) : Prop where
  split : text = msg.text
  token1 : ¬htTokenSep <:+: msg.token1 ∧ ¬htEndLine <:+: msg.token1
  token2 : ¬htTokenSep <:+: msg.token2 ∧ ¬htEndLine <:+: msg.token2
  token3 : ¬htEndLine <:+: msg.token3
  headers : ∀ header ∈ msg.headers,
    ¬htHeaderSep <:+: header.field ∧ ¬htEndLine <:+: header.field ∧ ¬htEndLine <:+: header.value
  room : msg.headers.length ≤ maxHeaders

/-- The parser returns the messages the text stands for in the grammar and no others,
without leaving its memory. -/
structure ParsedExactly (text : List Char) : Prop where
  result : ∀ msg, parseHypertext text = .ok msg ↔ WellFormed text msg
  inside : parseHypertext text ≠ .error .overrun

structure LineByLine (msg : ParsedMsgHT) (skipped : List Char) : Prop where
  token1 : ¬htEndLine <:+: msg.token1
  token2 : ¬htEndLine <:+: msg.token2
  fields : ∀ header ∈ msg.headers, ¬htEndLine <:+: header.field
  skipped : skipped = []

/-- A request without headers whose body has a blank line further on. -/
def BlankLineInBody (text : List Char) : Prop :=
  ∃ msg : ParsedMsgHT, WellFormed text msg ∧ msg.headers = [] ∧ htBlankLine <:+: msg.body ∧ ¬htEndLine <+: msg.body

theorem countHeaders_sections {msg : ParsedMsgHT} (hne : msg.headers ≠ [])
    (h : ∀ header ∈ msg.headers, ¬htEndLine <:+: header.field ∧ ¬htEndLine <:+: header.value) :
    LinesBeforeBlank msg.sections msg.headers.length := by
  have hlines : ∀ line ∈ msg.headers.map HeaderHT.content, IsLine line := by
    intro line hline
    obtain ⟨header,hmem,rfl⟩ := List.mem_map.mp hline
    exact isLine_header (h header hmem).1 (h header hmem).2
  have hcount := countHeaders_lines (mt List.map_eq_nil_iff.mp hne) hlines msg.body
  rwa [joinLines_headers,List.length_map] at hcount

/-- The parser cuts the text of a message where its pieces end. -/
theorem pieces_text {msg : ParsedMsgHT} (htoken1 : ¬htTokenSep <:+: msg.token1) (htoken2 : ¬htTokenSep <:+: msg.token2)
    (htoken3 : ¬htEndLine <:+: msg.token3)
    (hheaders : ∀ header ∈ msg.headers,
      ¬htHeaderSep <:+: header.field ∧ ¬htEndLine <:+: header.field ∧ ¬htEndLine <:+: header.value)
    (hroom : msg.headers.length ≤ maxHeaders)
    (hbody : msg.headers = [] → htBlankLine <:+: msg.body → htEndLine <+: msg.body) : Pieces msg.text msg [] where
  line := ⟨rfl,htoken1,htoken2,htoken3⟩
  headers header hmem := ⟨(hheaders header hmem).1,(hheaders header hmem).2.2⟩
  counted := by
    rw [List.nil_append]
    by_cases hnil : msg.headers = []
    · rw [hnil]
      exact linesBeforeBlank_iff.mpr (countHeaders_eq_zero_iff.mpr (hbody hnil))
    · exact countHeaders_sections hnil fun header hmem => (hheaders header hmem).2
  room := hroom
  skipped := fun hin => absurd (List.infix_nil.mp hin) (List.cons_ne_nil _ _)

theorem Pieces.length {text skipped : List Char} {msg : ParsedMsgHT} (h : Pieces text msg skipped) :
    text.length = msg.text.length + skipped.length := by
  rw [h.line.split,ParsedMsgHT.text,ParsedMsgHT.sections]
  simp only [List.length_append]
  omega

theorem Pieces.wellFormed {text skipped : List Char} {msg : ParsedMsgHT} (h : Pieces text msg skipped)
    (hlines : LineByLine msg skipped) : WellFormed text msg where
  split := by
    obtain rfl := hlines.skipped
    exact h.line.split
  token1 := ⟨h.line.token1,hlines.token1⟩
  token2 := ⟨h.line.token2,hlines.token2⟩
  token3 := h.line.token3
  headers header hmem := ⟨(h.headers header hmem).1,hlines.fields header hmem,(h.headers header hmem).2⟩
  room := h.room

theorem Pieces.lineByLine {text skipped : List Char} {msg : ParsedMsgHT} (h : Pieces text msg skipped)
    (hwell : WellFormed text msg) : LineByLine msg skipped where
  token1 := hwell.token1.2
  token2 := hwell.token2.2
  fields header hmem := (hwell.headers header hmem).2.1
  skipped := by
    have hlen := h.length
    rw [hwell.split] at hlen
    exact List.length_eq_zero_iff.mp (by omega)

/-- The texts the parser treats as the grammar says: every separator it finds ends a piece
on the same line, the headers have room, and the body is not taken for headers. -/
theorem parsed_exactly_iff (text : List Char) :
    ParsedExactly text ↔ (∀ msg skipped, Pieces text msg skipped → LineByLine msg skipped) ∧
      ¬TooManyHeaders text ∧ ¬BlankLineInBody text := by
  constructor
  · rintro ⟨hresult,hinside⟩
    refine ⟨fun msg skipped hp => ?_,fun hmany => hinside (parseHypertext_overrun_iff.mpr hmany),?_⟩
    · exact hp.lineByLine ((hresult msg).mp (parseHypertext_eq_ok_iff.mpr ⟨skipped,hp⟩))
    · rintro ⟨msg,hwell,hnil,hblank,hbegin⟩
      obtain ⟨skipped,hp⟩ := parseHypertext_eq_ok_iff.mp ((hresult msg).mpr hwell)
      have hcount := linesBeforeBlank_iff.mp hp.counted
      rw [(hp.lineByLine hwell).skipped,hnil] at hcount
      exact hbegin (countHeaders_eq_zero_iff.mp hcount hblank)
  · rintro ⟨hlines,hmany,hbody⟩
    refine ⟨fun msg => ⟨fun hok => ?_,fun hwell => ?_⟩,fun hover => hmany (parseHypertext_overrun_iff.mp hover)⟩
    · obtain ⟨skipped,hp⟩ := parseHypertext_eq_ok_iff.mp hok
      exact hp.wellFormed (hlines msg skipped hp)
    · have hp : Pieces msg.text msg [] := by
        refine pieces_text hwell.token1.1 hwell.token2.1 hwell.token3 hwell.headers hwell.room ?_
        intro hnil hblank
        by_contra hbegin
        exact hbody ⟨msg,hwell,hnil,hblank,hbegin⟩
      rw [hwell.split]
      exact parseHypertext_eq_ok_iff.mpr ⟨[],hp⟩

/-- The only header line has no separator; the parser finds one in the body. -/
def borrowed : List Char := "MOVE /x HTTTP/1.0\r\nBadHeader\r\n\r\nkey: value\r\n\r\nrest".toList

theorem borrowed_accepted : borrowed.length < 2048 ∧
    parseHypertext borrowed = .ok ⟨"MOVE".toList,"/x".toList,"HTTTP/1.0".toList,
      [⟨"BadHeader\r\n\r\nkey".toList,"value".toList⟩],"rest".toList⟩ ∧ ¬ParsedExactly borrowed := by
  have hok : parseHypertext borrowed = .ok ⟨"MOVE".toList,"/x".toList,"HTTTP/1.0".toList,
      [⟨"BadHeader\r\n\r\nkey".toList,"value".toList⟩],"rest".toList⟩ := by decide +kernel
  refine ⟨by decide +kernel,hok,fun h => ?_⟩
  have hfield := ((h.result _).mp hok).headers _ List.mem_cons_self
  exact hfield.2.1 (by decide +kernel)

end CoreStack.Hypertext
