import CoreStack.Hypertext.Payloads
import CoreStack.Hypertext.RoundTrip
import CoreStack.Tetrisd.Master
import Mathlib.Data.Fin.VecNotation

/-! # Building HTTTP requests (`libhtttp.c`)

Every request has the four headers of the protocol, and the payload as its body.
-/
namespace CoreStack.Hypertext
open Utils Cutting

def currentVer : List Char := "HTTTP/1.0".toList

/-- There is no string for an unknown method. -/
def methodToString (v : MethodHTTTP) : Option (List Char) :=
  if v = .unknown then none else (htttpMethods.find? (·.2 = v)).map (·.1)

/-! ## Dates -/

/-- `struct tm` with the year that `%Y` prints. -/
structure Tm where
  wday : Fin 7
  mday : Fin 32
  mon : Fin 12
  year : Fin 10000
  hour : Fin 24
  min : Fin 60
  sec : Fin 61

def dayNames : Fin 7 → List Char :=
  !["Sun".toList,"Mon".toList,"Tue".toList,"Wed".toList,"Thu".toList,"Fri".toList,"Sat".toList]

def monthNames : Fin 12 → List Char :=
  !["Jan".toList,"Feb".toList,"Mar".toList,"Apr".toList,"May".toList,"Jun".toList,"Jul".toList,"Aug".toList,
    "Sep".toList,"Oct".toList,"Nov".toList,"Dec".toList]

def twoDigits (n : ℕ) : List Char := [Nat.digitChar (n / 10),Nat.digitChar (n % 10)]

/-- `strftime` with `%a, %d %b %Y %H:%M:%S GMT`. -/
def dateStr (tm : Tm) : List Char :=
  dayNames tm.wday ++ (", ".toList ++ (twoDigits tm.mday ++ (" ".toList ++ (monthNames tm.mon ++ (" ".toList ++
    (Nat.toDigits 10 tm.year ++ (" ".toList ++ (twoDigits tm.hour ++ (":".toList ++ (twoDigits tm.min ++ (":".toList ++
    (twoDigits tm.sec ++ " GMT".toList))))))))))))

/-! ## Requests -/

def pathFormat : List Directive := format "/room/%u/player/%u".toList
def numberFormat : List Directive := format "%u".toList

/-- The steps of all builders. A null pointer is printed as `(null)`, and the body is written
into `MAX_BUF` bytes. -/
def reqCreate (method : MethodHTTTP) (contentType : List Char) (id : Word) (tm : Tm) (body : List Char)
    (msg : ParsedMsgHT) : Except ParseError ParsedMsgHT := do
  let msg := { msg with
    token1 := (methodToString method).getD "(null)".toList
    token2 := print pathFormat [0,id]
    token3 := currentVer }
  let (msg,_) ← msgAddHeader msg "Player-Id".toList (print numberFormat [id])
  let (msg,_) ← msgAddHeader msg "Content-Type".toList contentType
  let (msg,_) ← msgAddHeader msg "Date".toList (dateStr tm)
  if maxBuf ≤ body.length then .error .overrun
  else
    let (msg,_) := msgAddBody msg body
    let (msg,_) ← msgAddHeader msg "Content-Length".toList (print numberFormat [BitVec.ofNat 32 body.length])
    return msg

def reqCreateAction (id : Word) (tm : Tm) (method : MethodHTTTP) (payload : InputPayload) :
    ParsedMsgHT → Except ParseError ParsedMsgHT :=
  reqCreate method "application/input-payload".toList id tm (payloadEncodeInput payload)

def reqCreateState (id : Word) (tm : Tm) (payload : StatePayload) : ParsedMsgHT → Except ParseError ParsedMsgHT :=
  reqCreate .state "application/state-payload".toList id tm (payloadEncodeState payload)

/-- The content type of an attack is that of a state. -/
def reqCreateAttack (id : Word) (tm : Tm) (payload : AttackPayload) : ParsedMsgHT → Except ParseError ParsedMsgHT :=
  reqCreate .attack "application/state-payload".toList id tm (payloadEncodeAttack payload)

def reqCreateRoster (id : Word) (tm : Tm) (payload : RosterPayload) : ParsedMsgHT → Except ParseError ParsedMsgHT :=
  reqCreate .roster "application/roster-payload".toList id tm (payloadEncodeRoster payload)

def contentLength (msg : ParsedMsgHT) : Option (List Char) :=
  (msg.headers.find? (·.field == "Content-Length".toList)).map (·.value)

/-- The request is written, parsed and taken apart into these pieces. -/
def Arrives (request : Except ParseError ParsedMsgHT) (method : MethodHTTTP) (id : Word) (body : List Char) : Prop :=
  ∃ msg buffer parsed, request = .ok msg ∧ convertToHypertext msg = .ok (0,buffer) ∧
    parseConverted buffer = .ok parsed ∧ reqExtractInfo parsed = ⟨method,id.toNat,body⟩ ∧
    contentLength parsed = some (Nat.toDigits 10 body.length)

/-! ## Printable texts -/

def Printable (s : List Char) : Prop := ∀ c ∈ s, 32 ≤ c.toNat

instance (s : List Char) : Decidable (Printable s) := List.decidableBAll (fun c : Char => 32 ≤ c.toNat) s

theorem Printable.append {s t : List Char} (hs : Printable s) (ht : Printable t) : Printable (s ++ t) :=
  List.forall_mem_append.mpr ⟨hs,ht⟩

theorem printable_of_isDigit {s : List Char} (h : ∀ c ∈ s, c.isDigit = true) : Printable s := by
  intro c hc
  obtain ⟨hlow,-⟩ := isDigit_bounds (h c hc)
  exact Nat.le_trans (by decide) hlow

theorem printable_print {fmt : List Directive} (h : ∀ c, .text c ∈ fmt → 32 ≤ c.toNat) (args : List Word) :
    Printable (print fmt args) := by
  intro c hc
  rcases mem_print hc with hc | rfl | hc
  · exact h c hc
  · decide
  · exact printable_of_isDigit (s := [c]) (List.forall_mem_singleton.mpr hc) c List.mem_cons_self

theorem Printable.not_mem {s : List Char} (h : Printable s) {c : Char} (hc : c.toNat < 32) : c ∉ s :=
  fun hmem => Nat.not_le.mpr hc (h c hmem)

theorem printable_dateStr (tm : Tm) : Printable (dateStr tm) := by
  have hdays : ∀ i, Printable (dayNames i) := by decide
  have hmonths : ∀ i, Printable (monthNames i) := by decide
  have htwo : ∀ n : Fin 100, Printable (twoDigits n) := by decide
  have hyear : Printable (Nat.toDigits 10 tm.year) := printable_of_isDigit fun _ hc => isDigit_of_mem_toDigits hc
  refine (hdays _).append (.append (by decide) (.append (htwo ⟨tm.mday,by omega⟩) (.append (by decide)
    ((hmonths _).append (.append (by decide) (hyear.append (.append (by decide) (.append (htwo ⟨tm.hour,by omega⟩)
    (.append (by decide) (.append (htwo ⟨tm.min,by omega⟩) (.append (by decide) (.append (htwo ⟨tm.sec,by omega⟩)
    (by decide)))))))))))))

theorem length_dateStr (tm : Tm) : (dateStr tm).length ≤ 29 := by
  have hdays : ∀ i, (dayNames i).length = 3 := by decide
  have hmonths : ∀ i, (monthNames i).length = 3 := by decide
  have hyear : (Nat.toDigits 10 tm.year).length ≤ 4 :=
    (Nat.length_toDigits_le_iff (by decide) (by decide)).mpr tm.year.isLt
  have hcomma : ", ".toList.length = 2 := rfl
  have hblank : " ".toList.length = 1 := rfl
  have hcolon : ":".toList.length = 1 := rfl
  have hzone : " GMT".toList.length = 4 := rfl
  simp only [dateStr,twoDigits,List.length_append,hdays,hmonths,hcomma,hblank,hcolon,hzone,List.length_cons,
    List.length_nil]
  omega

theorem Printable.legal {field value : List Char} (hfield : strpbrk field illegalFieldChars = false)
    (hvalue : Printable value) : legalHeader field value = true := by
  rw [legalHeader,hfield,strpbrk_eq_false_iff.mpr fun c hc => hvalue.not_mem ?_]
  · rfl
  · have hall : (illegalValueChars.all fun c => decide (c.toNat < 32)) = true := by decide
    exact of_decide_eq_true (List.all_eq_true.mp hall c hc)

/-! ## The request that is built -/

def created (method : MethodHTTTP) (contentType : List Char) (id : Word) (tm : Tm) (body : List Char) : ParsedMsgHT where
  token1 := (methodToString method).getD "(null)".toList
  token2 := print pathFormat [0,id]
  token3 := currentVer
  headers := [⟨"Player-Id".toList,print numberFormat [id]⟩,⟨"Content-Type".toList,contentType⟩,
    ⟨"Date".toList,dateStr tm⟩,⟨"Content-Length".toList,print numberFormat [BitVec.ofNat 32 body.length]⟩]
  body := body

theorem printable_number (n : Word) : Printable (print numberFormat [n]) :=
  printable_print (by intro c hc; cases hc with | tail _ h => cases h) _

variable {method : MethodHTTTP} {contentType : List Char} {id : Word} {tm : Tm} {body : List Char}

theorem legal_created (method : MethodHTTTP) (id : Word) (tm : Tm) (body : List Char) (htype : Printable contentType) :
    ∀ header ∈ (created method contentType id tm body).headers, legalHeader header.field header.value = true := by
  have hid := (printable_number id).legal (show strpbrk "Player-Id".toList illegalFieldChars = false by decide)
  have hcontent := htype.legal (show strpbrk "Content-Type".toList illegalFieldChars = false by decide)
  have hdate := (printable_dateStr tm).legal (show strpbrk "Date".toList illegalFieldChars = false by decide)
  have hlength := (printable_number (BitVec.ofNat 32 body.length)).legal
    (show strpbrk "Content-Length".toList illegalFieldChars = false by decide)
  exact List.forall_mem_cons.mpr ⟨hid,List.forall_mem_cons.mpr ⟨hcontent,List.forall_mem_cons.mpr ⟨hdate,
    List.forall_mem_singleton.mpr hlength⟩⟩⟩

theorem reqCreate_zero (htype : Printable contentType) (hbody : body.length < maxBuf) :
    reqCreate method contentType id tm body .zero = .ok (created method contentType id tm body) := by
  have hlegal := legal_created method id tm body htype
  obtain ⟨hid,hlegal⟩ := List.forall_mem_cons.mp hlegal
  obtain ⟨hcontent,hlegal⟩ := List.forall_mem_cons.mp hlegal
  obtain ⟨hdate,hlegal⟩ := List.forall_mem_cons.mp hlegal
  have hlength := List.forall_mem_singleton.mp hlegal
  rw [reqCreate,msgAddHeader_room hid]
  · dsimp only [bind,Except.bind]
    rw [msgAddHeader_room hcontent]
    · dsimp only
      rw [msgAddHeader_room hdate]
      · dsimp only
        rw [if_neg (Nat.not_le.mpr hbody),msgAddBody,if_neg (Nat.not_le.mpr hbody)]
        dsimp only
        rw [msgAddHeader_room hlength]
        · rfl
        · exact Nat.le_of_ble_eq_true rfl
      · exact Nat.le_of_ble_eq_true rfl
    · exact Nat.le_of_ble_eq_true rfl
  · exact Nat.le_of_ble_eq_true rfl

theorem methodToString_known (hmethod : method ≠ .unknown) :
    ¬htTokenSep <:+: (methodToString method).getD "(null)".toList ∧
    nul ∉ (methodToString method).getD "(null)".toList ∧
    ((methodToString method).getD "(null)".toList).length ≤ 6 ∧
    stringToMethod ((methodToString method).getD "(null)".toList) = method := by
  cases method with
  | unknown => exact absurd rfl hmethod
  | _ => decide

theorem buildable_created (hmethod : method ≠ .unknown) (htype : Printable contentType) (hbody : body.length < maxBuf)
    (hnul : nul ∉ body) : Buildable (created method contentType id tm body) where
  token1 := (methodToString_known hmethod).1
  token2 := by
    intro hin
    have hmem : ' ' ∈ print pathFormat [0,id] := hin.subset (by decide)
    exact absurd (mem_print hmem) (by decide)
  token3 := show ¬htEndLine <:+: currentVer by decide
  headers := legal_created method id tm body htype
  room := show 4 ≤ maxHeaders by decide
  body := by
    rw [msgAddBody,if_neg]
    exact Nat.not_le.mpr hbody
  terminated := by
    have hcontrol : nul.toNat < 32 := by decide
    have hpath : nul ∉ print pathFormat [0,id] := fun hmem => absurd (mem_print hmem) (by decide)
    have hver : nul ∉ currentVer := by decide
    have hid := (printable_number id).not_mem hcontrol
    have hlength := (printable_number (BitVec.ofNat 32 body.length)).not_mem hcontrol
    have hfields : nul ∉ "Player-Id".toList ∧ nul ∉ "Content-Type".toList ∧ nul ∉ "Date".toList ∧
        nul ∉ "Content-Length".toList := by decide
    refine nul_not_mem_text (methodToString_known hmethod).2.1 hpath hver ?_ hnul
    exact List.forall_mem_cons.mpr ⟨⟨hfields.1,hid⟩,List.forall_mem_cons.mpr ⟨⟨hfields.2.1,htype.not_mem hcontrol⟩,
      List.forall_mem_cons.mpr ⟨⟨hfields.2.2.1,(printable_dateStr tm).not_mem hcontrol⟩,
      List.forall_mem_singleton.mpr ⟨hfields.2.2.2,hlength⟩⟩⟩⟩

theorem length_created (hmethod : method ≠ .unknown) (htype : contentType.length ≤ 26) (hbody : body.length ≤ 1024) :
    (created method contentType id tm body).text.length < maxBuf := by
  have hname : (created method contentType id tm body).token1.length ≤ 6 := (methodToString_known hmethod).2.2.1
  have hpath : (created method contentType id tm body).token2.length ≤ 36 := length_print pathFormat [0,id]
  have hver : (created method contentType id tm body).token3.length = 9 := rfl
  have hpayload : (created method contentType id tm body).body.length = body.length := rfl
  have hid : (print numberFormat [id]).length ≤ 11 := length_print numberFormat [id]
  have hlength : (print numberFormat [BitVec.ofNat 32 body.length]).length ≤ 11 := length_print numberFormat _
  have hdate := length_dateStr tm
  have hsep : htTokenSep.length = 1 ∧ htEndLine.length = 2 ∧ htHeaderSep.length = 2 := ⟨rfl,rfl,rfl⟩
  have hfields : "Player-Id".toList.length = 9 ∧ "Content-Type".toList.length = 12 ∧ "Date".toList.length = 4 ∧
      "Content-Length".toList.length = 14 := ⟨rfl,rfl,rfl,rfl⟩
  have hheaders : ((created method contentType id tm body).headers.flatMap HeaderHT.line).length ≤ 140 := by
    simp only [created,List.flatMap_cons,List.flatMap_nil,HeaderHT.line,List.length_append,List.length_nil]
    omega
  have hmax : maxBuf = 2048 := rfl
  rw [ParsedMsgHT.text,ParsedMsgHT.sections]
  simp only [List.length_append]
  omega

theorem strtoul_number (n : Word) : strtoul (print numberFormat [n]) = n.toNat := by
  have hscan := scanUnsigned_text n (show StopsNumber [] from fun c hc => by cases hc)
  have htext : print numberFormat [n] = Conversion.u.text n ++ [] := rfl
  rw [strtoul,htext,hscan]
  rfl

theorem reqExtractInfo_created (hmethod : method ≠ .unknown) :
    reqExtractInfo (created method contentType id tm body) = ⟨method,id.toNat,body⟩ := by
  have hid : (created method contentType id tm body).headers.find? (·.field == "Player-Id".toList) =
      some ⟨"Player-Id".toList,print numberFormat [id]⟩ := rfl
  have hname : stringToMethod (created method contentType id tm body).token1 = method :=
    (methodToString_known hmethod).2.2.2
  rw [reqExtractInfo,hname,hid]
  dsimp only
  rw [strtoul_number,Nat.mod_eq_of_lt id.isLt]
  rfl

theorem contentLength_created (hbody : body.length < maxBuf) :
    contentLength (created method contentType id tm body) = some (Nat.toDigits 10 body.length) := by
  have hlt : body.length < 2 ^ 32 := Nat.lt_trans hbody (by decide)
  have hvalue : contentLength (created method contentType id tm body) =
      some (Conversion.u.text (BitVec.ofNat 32 body.length)) := by
    rw [← List.append_nil (Conversion.text _ _)]
    rfl
  rw [hvalue,Conversion.text,Conversion.magnitude,BitVec.toNat_ofNat,Nat.mod_eq_of_lt hlt]
  rfl

theorem arrives_created (hmethod : method ≠ .unknown) (htype : Printable contentType) (hshort : contentType.length ≤ 26)
    (hbody : body.length ≤ 1024) (hnul : nul ∉ body) :
    Arrives (reqCreate method contentType id tm body .zero) method id body := by
  have hlt : body.length < maxBuf := Nat.lt_of_le_of_lt hbody (by decide)
  have htext : (created method contentType id tm body).text.length < maxBuf := length_created hmethod hshort hbody
  have hread := (buildable_created hmethod htype hlt hnul).read_back htext fun hnil => by cases hnil
  exact ⟨_,_,_,reqCreate_zero htype hlt,convert_short (Nat.le_of_lt htext),hread,reqExtractInfo_created hmethod,
    contentLength_created hlt⟩

/-! ## The four builders -/

theorem nul_not_mem_print {fmt : List Directive} (h : .text nul ∉ fmt) (args : List Word) : nul ∉ print fmt args := by
  intro hmem
  rcases mem_print hmem with hmem | hmem
  · exact h hmem
  · exact absurd hmem (by decide)

theorem idsText_bounds (ids : List Word) : (idsText ids).length ≤ 12 * ids.length ∧ nul ∉ idsText ids := by
  induction ids with
  | nil => exact ⟨Nat.le_refl 0,List.not_mem_nil⟩
  | cons id ids ih =>
    have hid : (print idFormat [id]).length ≤ 12 := length_print idFormat [id]
    rw [idsText,List.flatMap_cons,← idsText,List.length_append,List.length_cons,List.mem_append,not_or]
    exact ⟨by omega,nul_not_mem_print (by decide) _,ih.2⟩

theorem payloadEncodeRoster_bounds {payload : RosterPayload} (h : payload.count.toNat ≤ Tetrisd.maxLobbySize) :
    (payloadEncodeRoster payload).length ≤ 1024 ∧ nul ∉ payloadEncodeRoster payload := by
  have hids := idsText_bounds (payload.ids.take payload.count.toNat)
  have hcount : (print rosterFormat [payload.count]).length ≤ 100 :=
    Nat.le_trans (length_print rosterFormat _) (by decide)
  have hlen : (payload.ids.take payload.count.toNat).length ≤ 2 := by
    rw [List.length_take]
    exact Nat.le_trans (Nat.min_le_left _ _) h
  have hend : "]\x7d".toList.length = 2 ∧ nul ∉ "]\x7d".toList := by decide
  rw [payloadEncodeRoster,List.length_append,List.length_append,List.mem_append,List.mem_append,not_or,not_or]
  exact ⟨by omega,nul_not_mem_print (by decide) _,hids.2,hend.2⟩

theorem payloadEncodeState_bounds {payload : StatePayload} (h : CellsLegal payload.board) :
    (payloadEncodeState payload).length ≤ 1024 ∧ nul ∉ payloadEncodeState payload := by
  have hvalues : (print stateFormat payload.values).length ≤ 800 := Nat.le_trans (length_print stateFormat _) (by decide)
  have hboard := length_boardText payload.board
  rw [payloadEncodeState_legal h,List.length_append,List.mem_append,not_or]
  refine ⟨by omega,fun hmem => absurd (mem_boardText h hmem) (by decide),nul_not_mem_print (by decide) _⟩

/-- Every request arrives as it was built, and its body is read into the payload. -/
theorem requests_arrive (id : Word) (tm : Tm) :
    (∀ (method : MethodHTTTP) (payload : InputPayload), method ≠ .unknown →
      Arrives (reqCreateAction id tm method payload .zero) method id (payloadEncodeInput payload) ∧
      payloadDecodeInput (payloadEncodeInput payload) = some payload.action.toNat) ∧
    (∀ payload : AttackPayload,
      Arrives (reqCreateAttack id tm payload .zero) .attack id (payloadEncodeAttack payload) ∧
      ∀ old, payloadDecodeAttack (payloadEncodeAttack payload) old = payload) ∧
    (∀ payload : RosterPayload, payload.count.toNat ≤ Tetrisd.maxLobbySize →
      Arrives (reqCreateRoster id tm payload .zero) .roster id (payloadEncodeRoster payload) ∧
      ∀ old : RosterPayload, payload.count.toNat ≤ old.ids.length →
        ∃ read, payloadDecodeRoster (payloadEncodeRoster payload) old = .ok read ∧ read.count = payload.count ∧
          read.ids = payload.ids.take payload.count.toNat ++ old.ids.drop payload.count.toNat) ∧
    (∀ payload : StatePayload, CellsLegal payload.board →
      Arrives (reqCreateState id tm payload .zero) .state id (payloadEncodeState payload) ∧
      ∀ old, payloadDecodeState (payloadEncodeState payload) old = .ok payload) := by
  refine ⟨fun method payload hmethod => ⟨?_,payloadDecodeInput_encode payload⟩,
    fun payload => ⟨?_,payloadDecodeAttack_encode payload⟩,
    fun payload hcount => ⟨?_,payloadDecodeRoster_encode payload⟩,
    fun payload hcells => ⟨?_,payloadDecodeState_encode hcells⟩⟩
  · refine arrives_created hmethod (by decide) (by decide) ?_ (nul_not_mem_print (by decide) _)
    exact Nat.le_trans (length_print inputFormat _) (by decide)
  · refine arrives_created (by decide) (by decide) (by decide) ?_ (nul_not_mem_print (by decide) _)
    exact Nat.le_trans (length_print attackFormat _) (by decide)
  · obtain ⟨hlen,hnul⟩ := payloadEncodeRoster_bounds hcount
    exact arrives_created (by decide) (by decide) (by decide) hlen hnul
  · obtain ⟨hlen,hnul⟩ := payloadEncodeState_bounds hcells
    exact arrives_created (by decide) (by decide) (by decide) hlen hnul

def epoch : Tm := ⟨4,1,0,1970,0,0,0⟩

example : dateStr epoch = "Thu, 01 Jan 1970 00:00:00 GMT".toList := by decide

/-- A board with garbage in the last row, a T in play and nothing held. -/
def midGame : StatePayload where
  board row col := if row = 19 ∧ col ≠ 4 then 8 else 0
  currentType := 6
  currentRot := 2
  currentX := 3
  currentY := -1
  nextType := 1
  preview := ![1,4,7]
  heldType := 0
  hasHeld := 0
  playerId := 7
  score := 1200
  level := 2
  linesCleared := 11
  combo := -1
  b2b := 1
  tSpins := 1
  tetrises := 2
  pendingGarbage := 4
  targetPlayerId := 8
  targetMode := 1
  gameOver := 0
  winnerId := 0

theorem requests_arrive_epoch :
    (Arrives (reqCreateAction 7 epoch .move ⟨3⟩ .zero) .move 7 (payloadEncodeInput ⟨3⟩) ∧
      payloadDecodeInput (payloadEncodeInput ⟨3⟩) = some 3) ∧
    (Arrives (reqCreateAttack 7 epoch ⟨7,8,4⟩ .zero) .attack 7 (payloadEncodeAttack ⟨7,8,4⟩) ∧
      payloadDecodeAttack (payloadEncodeAttack ⟨7,8,4⟩) ⟨0,0,0⟩ = ⟨7,8,4⟩) ∧
    (Arrives (reqCreateRoster 7 epoch ⟨2,[7,8],by decide⟩ .zero) .roster 7 (payloadEncodeRoster ⟨2,[7,8],by decide⟩) ∧
      ∃ read, payloadDecodeRoster (payloadEncodeRoster ⟨2,[7,8],by decide⟩) ⟨0,[0,0,5],by decide⟩ = .ok read ∧
        read.count = 2 ∧ read.ids = [7,8,5]) ∧
    Arrives (reqCreateState 7 epoch midGame .zero) .state 7 (payloadEncodeState midGame) ∧
      payloadDecodeState (payloadEncodeState midGame) default = .ok midGame := by
  obtain ⟨haction,hattack,hroster,hstate⟩ := requests_arrive 7 epoch
  obtain ⟨harrives,hread⟩ := hroster ⟨2,[7,8],by decide⟩ (by decide)
  obtain ⟨hsent,hshown⟩ := hstate midGame (by unfold CellsLegal; decide)
  exact ⟨haction .move ⟨3⟩ (by decide),⟨(hattack ⟨7,8,4⟩).1,(hattack ⟨7,8,4⟩).2 ⟨0,0,0⟩⟩,
    ⟨harrives,hread ⟨0,[0,0,5],by decide⟩ (by decide)⟩,hsent,hshown default⟩

end CoreStack.Hypertext
