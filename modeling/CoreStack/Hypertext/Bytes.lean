import CoreStack.Hypertext.Requests

/-! # Requests as bytes

A text whose characters are bytes is the same string in memory. Every request is such a text.
-/
namespace CoreStack.Hypertext
open Utils

def Latin (s : List Char) : Prop := ∀ c ∈ s, c.toNat < 256

instance (s : List Char) : Decidable (Latin s) := List.decidableBAll (fun c : Char => c.toNat < 256) s

def bytesOf (text : List Char) : List UInt8 := text.map fun c => UInt8.ofNat c.toNat

theorem byte_toNat {c : Char} (h : c.toNat < 256) : (UInt8.ofNat c.toNat).toNat = c.toNat := by
  rw [UInt8.toNat_ofNat']
  exact Nat.mod_eq_of_lt h

theorem byte_eq_zero {c : Char} (h : c.toNat < 256) : UInt8.ofNat c.toNat = 0 ↔ c = nul := by
  rw [← UInt8.toNat_inj,byte_toNat h]
  constructor
  · intro h0
    exact Char.toNat_inj.mp h0
  · intro hc
    rw [hc]
    rfl

theorem char_byte {c : Char} (h : c.toNat < 256) : Char.ofNat (UInt8.ofNat c.toNat).toNat = c := by
  rw [byte_toNat h,Char.ofNat_toNat]

theorem takeWhile_bytesOf {text : List Char} (h : Latin text) :
    ((bytesOf text).takeWhile (· != 0)).map (fun b => Char.ofNat b.toNat) = text.takeWhile (· != nul) := by
  induction text with
  | nil => rfl
  | cons c text ih =>
    obtain ⟨hc,hrest⟩ := List.forall_mem_cons.mp h
    have htest : (UInt8.ofNat c.toNat != 0) = (c != nul) := by
      rw [Bool.eq_iff_iff,bne_iff_ne,bne_iff_ne]
      exact not_congr (byte_eq_zero hc)
    rw [bytesOf,List.map_cons,List.takeWhile_cons,htest,List.takeWhile_cons]
    split
    · rw [List.map_cons,char_byte hc]
      exact congrArg (c :: ·) (ih hrest)
    · rfl

theorem cString_bytesOf {text : List Char} (h : Latin text) : cString (bytesOf text) = bufferText text := by
  have hmem : (0 : UInt8) ∈ bytesOf text ↔ nul ∈ text := by
    rw [bytesOf,List.mem_map]
    constructor
    · rintro ⟨c,hc,hzero⟩
      exact (byte_eq_zero (h c hc)).mp hzero ▸ hc
    · intro hnul
      exact ⟨nul,hnul,rfl⟩
  unfold cString bufferText
  by_cases hnul : nul ∈ text
  · rw [if_pos hnul,if_pos (hmem.mpr hnul),takeWhile_bytesOf h]
  · rw [if_neg hnul,if_neg (mt hmem.mp hnul)]

theorem parseBuffer_bytesOf {text : List Char} (h : Latin text) : parseBuffer (bytesOf text) = parseConverted text := by
  cases hb : bufferText text with
  | none => simp only [parseBuffer,parseConverted,cString_bytesOf h,hb]
  | some s => simp only [parseBuffer,parseConverted,cString_bytesOf h,hb]

/-! ## Latin texts -/

theorem Latin.append {s t : List Char} (hs : Latin s) (ht : Latin t) : Latin (s ++ t) :=
  List.forall_mem_append.mpr ⟨hs,ht⟩

theorem latin_of_isDigit {s : List Char} (h : ∀ c ∈ s, c.isDigit = true) : Latin s := by
  intro c hc
  obtain ⟨-,hhigh⟩ := isDigit_bounds (h c hc)
  exact Nat.lt_of_le_of_lt hhigh (by decide)

def latinDirective : Directive → Bool
  | .text c => c.toNat < 256
  | .number _ => true

theorem latin_print {fmt : List Directive} (h : fmt.all latinDirective = true) (args : List Word) :
    Latin (print fmt args) := by
  intro c hc
  rcases mem_print hc with hc | rfl | hc
  · exact of_decide_eq_true (List.all_eq_true.mp h _ hc)
  · decide
  · exact latin_of_isDigit (s := [c]) (List.forall_mem_singleton.mpr hc) c List.mem_cons_self

theorem latin_dateStr (tm : Tm) : Latin (dateStr tm) := by
  have hdays : ∀ i, Latin (dayNames i) := by decide
  have hmonths : ∀ i, Latin (monthNames i) := by decide
  have htwo : ∀ n : Fin 100, Latin (twoDigits n) := by decide
  have hyear : Latin (Nat.toDigits 10 tm.year) := latin_of_isDigit fun _ hc => isDigit_of_mem_toDigits hc
  refine (hdays _).append (.append (by decide) (.append (htwo ⟨tm.mday,by omega⟩) (.append (by decide)
    ((hmonths _).append (.append (by decide) (hyear.append (.append (by decide) (.append (htwo ⟨tm.hour,by omega⟩)
    (.append (by decide) (.append (htwo ⟨tm.min,by omega⟩) (.append (by decide) (.append (htwo ⟨tm.sec,by omega⟩)
    (by decide)))))))))))))

theorem latin_line {field value : List Char} (hf : Latin field) (hv : Latin value) :
    Latin (HeaderHT.line ⟨field,value⟩) := hf.append (.append (by decide) (hv.append (by decide)))

variable {method : MethodHTTTP} {contentType : List Char} {id : Word} {tm : Tm} {body : List Char}

theorem latin_created (hmethod : method ≠ .unknown) (htype : Latin contentType) (hbody : Latin body) :
    Latin (created method contentType id tm body).text := by
  have hname : Latin ((methodToString method).getD "(null)".toList) := by
    cases method with
    | unknown => exact absurd rfl hmethod
    | _ => decide
  have hpath : Latin (created method contentType id tm body).token2 := latin_print (by decide) _
  have hver : Latin currentVer := by decide
  have hnumber : ∀ n : Word, Latin (print numberFormat [n]) := fun n => latin_print (by decide) _
  have hheaders : Latin ((created method contentType id tm body).headers.flatMap HeaderHT.line) := by
    simp only [created,List.flatMap_cons,List.flatMap_nil]
    have hfields : Latin "Player-Id".toList ∧ Latin "Content-Type".toList ∧ Latin "Date".toList ∧
        Latin "Content-Length".toList := by decide
    exact (latin_line hfields.1 (hnumber id)).append ((latin_line hfields.2.1 htype).append
      ((latin_line hfields.2.2.1 (latin_dateStr tm)).append
        ((latin_line hfields.2.2.2 (hnumber _)).append fun c hc => absurd hc List.not_mem_nil)))
  exact hname.append (.append (by decide) (hpath.append (.append (by decide) (hver.append (.append (by decide)
    (hheaders.append (.append (by decide) hbody)))))))

theorem latin_filled {text : List Char} (h : Latin text) : Latin (filled text) := by
  intro c hc
  rcases List.mem_append.mp hc with hc | hc
  · exact h c (List.mem_of_mem_take hc)
  · rw [(List.mem_replicate.mp hc).2]
    decide

/-! ## Messages -/

/-- What is sent for a request. -/
def Encodes (request : Except ParseError ParsedMsgHT) (bytes : List UInt8) : Prop :=
  ∃ msg buffer, request = .ok msg ∧ convertToHypertext msg = .ok (0,buffer) ∧ bytes = bytesOf buffer

/-- What the receiver takes from the bytes. -/
def Conveys (bytes : List UInt8) (method : MethodHTTTP) (id : Word) (body : List Char) : Prop :=
  ∃ parsed, parseBuffer bytes = .ok parsed ∧ reqExtractInfo parsed = ⟨method,id.toNat,body⟩

theorem encodes_created (hmethod : method ≠ .unknown) (htype : Printable contentType) (hlatin : Latin contentType)
    (hshort : contentType.length ≤ 26) (hbody : body.length ≤ 1024) (hnul : nul ∉ body) (hlatin' : Latin body) :
    ∃ bytes, (∀ others, Encodes (reqCreate method contentType id tm body .zero) others ↔ others = bytes) ∧
      Conveys bytes method id body := by
  have hlt : body.length < maxBuf := Nat.lt_of_le_of_lt hbody (by decide)
  have htext : (created method contentType id tm body).text.length < maxBuf := length_created hmethod hshort hbody
  have hconvert := convert_short (Nat.le_of_lt htext)
  have hread : parseConverted (filled (created method contentType id tm body).text) =
      .ok (created method contentType id tm body) :=
    (buildable_created hmethod htype hlt hnul).read_back htext fun hnil => by cases hnil
  have hfill : Latin (filled (created method contentType id tm body).text) :=
    latin_filled (latin_created hmethod hlatin hlatin')
  refine ⟨bytesOf (filled (created method contentType id tm body).text),fun others => ⟨?_,?_⟩,
    created method contentType id tm body,?_,reqExtractInfo_created hmethod⟩
  · rintro ⟨msg,buffer,hmsg,hbuffer,rfl⟩
    rw [reqCreate_zero htype hlt] at hmsg
    cases hmsg
    rw [hconvert] at hbuffer
    cases hbuffer
    rfl
  · rintro rfl
    exact ⟨_,_,reqCreate_zero htype hlt,hconvert,rfl⟩
  · rw [parseBuffer_bytesOf hfill]
    exact hread

theorem length_created_le (hmethod : method ≠ .unknown) (hshort : contentType.length ≤ 26) :
    (created method contentType id tm body).text.length ≤ 200 + body.length := by
  have hname : (created method contentType id tm body).token1.length ≤ 6 := (methodToString_known hmethod).2.2.1
  have hpath : (created method contentType id tm body).token2.length ≤ 36 := length_print pathFormat [0,id]
  have hver : (created method contentType id tm body).token3.length = 9 := rfl
  have hpayload : (created method contentType id tm body).body.length = body.length := rfl
  have hnumber : ∀ n : Word, (print numberFormat [n]).length ≤ 11 := fun n => length_print numberFormat [n]
  have hid := hnumber id
  have hlength := hnumber (BitVec.ofNat 32 body.length)
  have hdate := length_dateStr tm
  have hsep : htTokenSep.length = 1 ∧ htEndLine.length = 2 ∧ htHeaderSep.length = 2 := ⟨rfl,rfl,rfl⟩
  have hfields : "Player-Id".toList.length + "Content-Type".toList.length + "Date".toList.length +
      "Content-Length".toList.length = 39 := rfl
  rw [ParsedMsgHT.text,ParsedMsgHT.sections]
  have hheaders : ((created method contentType id tm body).headers.flatMap HeaderHT.line).length ≤ 133 := by
    simp only [created,List.flatMap_cons,List.flatMap_nil,HeaderHT.line,List.length_append,List.length_nil]
    omega
  simp only [List.length_append]
  omega

theorem Encodes.eq_filled (hmethod : method ≠ .unknown) (htype : Printable contentType) (hshort : contentType.length ≤ 26)
    {bytes : List UInt8} (h : Encodes (reqCreate method contentType id tm body .zero) bytes) (hbody : 200 + body.length < maxBuf) :
    bytes = bytesOf (filled (created method contentType id tm body).text) := by
  have htext : (created method contentType id tm body).text.length < maxBuf :=
    lt_of_le_of_lt (length_created_le hmethod hshort) hbody
  obtain ⟨msg,buffer,hmsg,hbuffer,rfl⟩ := h
  rw [reqCreate_zero htype (by omega)] at hmsg
  cases hmsg
  rw [convert_short (Nat.le_of_lt htext)] at hbuffer
  cases hbuffer
  rfl

theorem Encodes.ends (hmethod : method ≠ .unknown) (htype : Printable contentType) (hshort : contentType.length ≤ 26)
    {bytes : List UInt8} (h : Encodes (reqCreate method contentType id tm body .zero) bytes) {n : ℕ}
    (hn : 200 + body.length < n) (hmax : n < maxBuf) : bytes.length = maxBuf ∧ 0 ∈ bytes.take n := by
  have htext : (created method contentType id tm body).text.length < n :=
    lt_of_le_of_lt (length_created_le hmethod hshort) hn
  rw [h.eq_filled hmethod htype hshort (by omega),bytesOf,← List.map_take,List.length_map]
  refine ⟨length_filled _,List.mem_map.mpr ⟨nul,?_,rfl⟩⟩
  have hget : (filled (created method contentType id tm body).text)[(created method contentType id tm body).text.length]? =
      some nul := by
    rw [filled,List.take_of_length_le (by omega),List.getElem?_append_right (le_refl _),Nat.sub_self,
      List.getElem?_replicate_of_lt (by omega)]
  exact List.mem_of_getElem? ((List.getElem?_take_of_lt htext).trans hget)

/-- The request has one encoding, which conveys what went into it. -/
def Arrived (request : Except ParseError ParsedMsgHT) (method : MethodHTTTP) (id : Word) (body : List Char) : Prop :=
  ∃ bytes, (∀ others, Encodes request others ↔ others = bytes) ∧ Conveys bytes method id body

theorem Arrived.conveys {request : Except ParseError ParsedMsgHT} (h : Arrived request method id body)
    {bytes : List UInt8} (hbytes : Encodes request bytes) : Conveys bytes method id body := by
  obtain ⟨one,hone,hconveys⟩ := h
  rw [(hone bytes).mp hbytes]
  exact hconveys

theorem Arrived.exists {request : Except ParseError ParsedMsgHT} (h : Arrived request method id body) :
    ∃ bytes, Encodes request bytes := by
  obtain ⟨one,hone,-⟩ := h
  exact ⟨one,(hone one).mpr rfl⟩

theorem arrived_action (id : Word) (tm : Tm) (payload : InputPayload) :
    Arrived (reqCreateAction id tm .action payload .zero) .action id (payloadEncodeInput payload) :=
  encodes_created (by decide) (by decide) (by decide) (by decide) (Nat.le_trans (length_print inputFormat _) (by decide))
    (nul_not_mem_print (by decide) _) (latin_print (by decide) _)

theorem arrived_attack (id : Word) (tm : Tm) (payload : AttackPayload) :
    Arrived (reqCreateAttack id tm payload .zero) .attack id (payloadEncodeAttack payload) :=
  encodes_created (by decide) (by decide) (by decide) (by decide) (Nat.le_trans (length_print attackFormat _) (by decide))
    (nul_not_mem_print (by decide) _) (latin_print (by decide) _)

theorem latin_idsText (ids : List Word) : Latin (idsText ids) := by
  intro c hc
  obtain ⟨id,-,hmem⟩ := List.mem_flatMap.mp hc
  have hid : Latin (print idFormat [id]) := latin_print (by decide) _
  exact hid c hmem

theorem arrived_roster (id : Word) (tm : Tm) {payload : RosterPayload} (h : payload.count.toNat ≤ Tetrisd.maxLobbySize) :
    Arrived (reqCreateRoster id tm payload .zero) .roster id (payloadEncodeRoster payload) := by
  obtain ⟨hlen,hnul⟩ := payloadEncodeRoster_bounds h
  refine encodes_created (by decide) (by decide) (by decide) (by decide) hlen hnul ?_
  exact (latin_print (by decide) _).append ((latin_idsText _).append (by decide))

theorem arrived_state (id : Word) (tm : Tm) {payload : StatePayload} (h : CellsLegal payload.board) :
    Arrived (reqCreateState id tm payload .zero) .state id (payloadEncodeState payload) := by
  obtain ⟨hlen,hnul⟩ := payloadEncodeState_bounds h
  refine encodes_created (by decide) (by decide) (by decide) (by decide) hlen hnul ?_
  rw [payloadEncodeState_legal h]
  exact Latin.append (latin_of_isDigit fun c hc => mem_boardText h hc) (latin_print (by decide) _)

end CoreStack.Hypertext
