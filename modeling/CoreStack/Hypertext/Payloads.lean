import CoreStack.Hypertext.Building
import CoreStack.Lib.Blocks
import CoreStack.Utils.Format
import Mathlib.Data.List.FinRange
import Mathlib.Data.List.TakeWhile

/-! # The payloads of HTTTP messages (`payload.c`)

A decoder stores the numbers it reads. What it does not read keeps its value from before.
-/
namespace CoreStack.Hypertext
open Utils Cutting

structure AttackPayload where
  sourcePlayer : Word
  targetPlayer : Word
  lines : Word
  deriving DecidableEq, Repr

/-- `ids` is all the memory behind the count. -/
structure RosterPayload where
  count : Word
  ids : List Word
  room : count.toNat ≤ ids.length

structure InputPayload where
  action : Word
  deriving DecidableEq, Repr

structure StatePayload where
  board : Fin 20 → Fin 10 → UInt8
  currentType : Word
  currentRot : Word
  currentX : Word
  currentY : Word
  nextType : Word
  preview : Fin 3 → Word
  heldType : Word
  hasHeld : Word
  playerId : Word
  score : Word
  level : Word
  linesCleared : Word
  combo : Word
  b2b : Word
  tSpins : Word
  tetrises : Word
  pendingGarbage : Word
  targetPlayerId : Word
  targetMode : Word
  gameOver : Word
  winnerId : Word
  deriving Inhabited

/-- An `overrun` leaves the text or the array, a `failedSearch` uses the result of a `strstr`
that found nothing. -/
inductive DecodeError
  | overrun
  | failedSearch
  deriving DecidableEq, Repr

/-! ## Attacks and inputs -/

def attackFormat : List Directive := format "\x7bsource-player: %u, target-player: %u, lines: %u\x7d".toList

def payloadEncodeAttack (payload : AttackPayload) : List Char :=
  print attackFormat [payload.sourcePlayer,payload.targetPlayer,payload.lines]

def payloadDecodeAttack (buffer : List Char) (payload : AttackPayload) : AttackPayload :=
  let values := scan attackFormat buffer
  ⟨values.getD 0 payload.sourcePlayer,values.getD 1 payload.targetPlayer,values.getD 2 payload.lines⟩

theorem payloadDecodeAttack_encode (payload old : AttackPayload) :
    payloadDecodeAttack (payloadEncodeAttack payload) old = payload := by
  have hscan : scan attackFormat (payloadEncodeAttack payload) =
      [payload.sourcePlayer,payload.targetPlayer,payload.lines] := by
    rw [← List.append_nil (payloadEncodeAttack payload)]
    exact scan_print rfl rfl
  rw [payloadDecodeAttack,hscan]
  rfl

def inputFormat : List Directive := format "\x7baction-id: %u\x7d".toList

def payloadEncodeInput (payload : InputPayload) : List Char := print inputFormat [payload.action]

/-- `sscanf` of `{action-id: %u}`. The text behind the number does not matter to what is
stored, and nothing is stored if there is no number. -/
def payloadDecodeInput (buffer : List Char) : Option ℕ :=
  let literal := "\x7baction-id:".toList
  if literal.isPrefixOf buffer then scanU32 (buffer.drop literal.length) else none

theorem payloadDecodeInput_encode (payload : InputPayload) :
    payloadDecodeInput (payloadEncodeInput payload) = some payload.action.toNat := by
  have hsplit : payloadEncodeInput payload =
      "\x7baction-id:".toList ++ (' ' :: (Conversion.u.text payload.action ++ ['\x7d'])) := rfl
  have hpre : "\x7baction-id:".toList.isPrefixOf (payloadEncodeInput payload) = true := by
    rw [List.isPrefixOf_iff_prefix,hsplit]
    exact List.prefix_append _ _
  have hdrop : (payloadEncodeInput payload).drop "\x7baction-id:".toList.length =
      ' ' :: (Conversion.u.text payload.action ++ ['\x7d']) := by
    rw [hsplit,List.drop_left]
  have hspace : scanUnsigned (' ' :: (Conversion.u.text payload.action ++ ['\x7d'])) = some payload.action.toNat :=
    scanUnsigned_text payload.action fun c hc => by cases hc; rfl
  rw [payloadDecodeInput,if_pos hpre,hdrop,scanU32,hspace,Option.map_some,Nat.mod_eq_of_lt payload.action.isLt]

/-! ## Rosters -/

def rosterFormat : List Directive := format "\x7bcount: %u, ids: [".toList
def idFormat : List Directive := format "%u ".toList
def idsMarker : List Char := "ids: [".toList

def idsText (ids : List Word) : List Char := ids.flatMap fun id => print idFormat [id]

def payloadEncodeRoster (payload : RosterPayload) : List Char :=
  print rosterFormat [payload.count] ++ (idsText (payload.ids.take payload.count.toNat) ++ "]\x7d".toList)

/-- `n` ids are still to be read into the array from index `i` on. -/
def decodeIds : ℕ → ℕ → Option (List Char) → List Word → Except DecodeError (List Word)
  | 0, _, _, ids => .ok ids
  | _ + 1, _, none, _ => .error .failedSearch
  | n + 1, i, some ptr, ids =>
    let next := (strstr ptr " ".toList).map fun j => ptr.drop (j + 1)
    match scan idFormat ptr with
    | [] => decodeIds n (i + 1) next ids
    | id :: _ => if i < ids.length then decodeIds n (i + 1) next (ids.set i id) else .error .overrun

def payloadDecodeRoster (buffer : List Char) (payload : RosterPayload) : Except DecodeError RosterPayload :=
  let count := (scan rosterFormat buffer).getD 0 payload.count
  let ptr := (strstr buffer idsMarker).map fun i => buffer.drop (i + idsMarker.length)
  match decodeIds count.toNat 0 ptr payload.ids with
  | .error e => .error e
  | .ok ids => if h : count.toNat ≤ ids.length then .ok ⟨count,ids,h⟩ else .error .overrun

theorem not_infix_of_isDigit {k : Conversion} {w : Word} : ¬htTokenSep <:+: k.text w := by
  intro h
  have hmem : ' ' ∈ k.text w := h.subset (by decide)
  rcases mem_text hmem with h | h
  · exact absurd h (by decide)
  · exact absurd h (by decide)

theorem print_id (id : Word) : print idFormat [id] = Conversion.u.text id ++ htTokenSep := rfl

theorem idsText_head (ids : List Word) : ((idsText ids ++ "]\x7d".toList).head?).all (!isSpace ·) = true := by
  cases ids with
  | nil => rfl
  | cons id ids =>
    obtain ⟨c,s,hs,hc⟩ := text_head .u id (htTokenSep ++ (idsText ids ++ "]\x7d".toList))
    have htext : idsText (id :: ids) ++ "]\x7d".toList = c :: s := by
      rw [← hs,idsText,List.flatMap_cons,← idsText,print_id,List.append_assoc,List.append_assoc]
    rw [htext,List.head?_cons,Option.all_some,hc]
    rfl

theorem decodeIds_idsText (new : List Word) {i : ℕ} {ids : List Word} (hroom : i + new.length ≤ ids.length) :
    decodeIds new.length i (some (idsText new ++ "]\x7d".toList)) ids =
      .ok (ids.take i ++ (new ++ ids.drop (i + new.length))) := by
  induction new generalizing i ids with
  | nil => rw [List.length_nil,decodeIds,List.nil_append,Nat.add_zero,List.take_append_drop]
  | cons id new ih =>
    rw [List.length_cons] at hroom
    have htext : idsText (id :: new) ++ "]\x7d".toList =
        Conversion.u.text id ++ (htTokenSep ++ (idsText new ++ "]\x7d".toList)) := by
      rw [idsText,List.flatMap_cons,← idsText,print_id,List.append_assoc,List.append_assoc]
    have hscan : scan idFormat (idsText (id :: new) ++ "]\x7d".toList) = [id] := by
      rw [idsText,List.flatMap_cons,← idsText,List.append_assoc]
      refine scan_print rfl ?_
      have hsep : separated idFormat (idsText new ++ "]\x7d".toList) =
          (((idsText new ++ "]\x7d".toList).head?).all (!isSpace ·) && true) := rfl
      rw [hsep,idsText_head]
      rfl
    have hcut : Cut htTokenSep (idsText (id :: new) ++ "]\x7d".toList) (Conversion.u.text id)
        (idsText new ++ "]\x7d".toList) :=
      (cut_iff unbordered_tokenSep).mpr ⟨htext,not_infix_of_isDigit⟩
    have hfind : strstr (idsText (id :: new) ++ "]\x7d".toList) " ".toList = some (Conversion.u.text id).length :=
      strstr_cut hcut
    have hnext : (idsText (id :: new) ++ "]\x7d".toList).drop ((Conversion.u.text id).length + 1) =
        idsText new ++ "]\x7d".toList := by
      rw [htext,← List.append_assoc]
      exact List.drop_left' (by rw [List.length_append]; rfl)
    rw [List.length_cons,decodeIds,hscan,hfind,Option.map_some,hnext]
    dsimp only
    rw [if_pos (by omega),ih (by rw [List.length_set]; omega)]
    have htake : (ids.set i id).take (i + 1) = ids.take i ++ [id] := by
      rw [List.take_add_one,List.getElem?_set_self (by omega),List.take_set_of_le (Nat.le_refl i)]
      rfl
    have hdrop : (ids.set i id).drop (i + 1 + new.length) = ids.drop (i + (new.length + 1)) := by
      rw [List.drop_set_of_lt (by omega)]
      congr 1
      omega
    rw [htake,hdrop,List.append_assoc]
    rfl

theorem payloadDecodeRoster_encode (payload old : RosterPayload) (hroom : payload.count.toNat ≤ old.ids.length) :
    ∃ read, payloadDecodeRoster (payloadEncodeRoster payload) old = .ok read ∧ read.count = payload.count ∧
      read.ids = payload.ids.take payload.count.toNat ++ old.ids.drop payload.count.toNat := by
  have hlen : (payload.ids.take payload.count.toNat).length = payload.count.toNat := by
    rw [List.length_take]
    exact Nat.min_eq_left payload.room
  have hcount : scan rosterFormat (payloadEncodeRoster payload) = [payload.count] := scan_print rfl rfl
  have hfind : Cut idsMarker (payloadEncodeRoster payload)
      ("\x7bcount: ".toList ++ (Conversion.u.text payload.count ++ ", ".toList))
      (idsText (payload.ids.take payload.count.toNat) ++ "]\x7d".toList) := by
    refine (cut_iff (by decide)).mpr ⟨?_,fun hin => ?_⟩
    · have hmarker : idsMarker = "ids: [".toList := rfl
      rw [payloadEncodeRoster,hmarker]
      simp only [← List.append_assoc]
      congr 2
      simp only [List.append_assoc]
      rfl
    · have hmem : '[' ∈ "\x7bcount: ".toList ++ (Conversion.u.text payload.count ++ ", ".toList) :=
        hin.subset (by decide)
      rcases List.mem_append.mp hmem with hmem | hmem
      · exact absurd hmem (by decide)
      · rcases List.mem_append.mp hmem with hmem | hmem
        · rcases mem_text hmem with h | h
          · exact absurd h (by decide)
          · exact absurd h (by decide)
        · exact absurd hmem (by decide)
  have hptr : (strstr (payloadEncodeRoster payload) idsMarker).map
      (fun i => (payloadEncodeRoster payload).drop (i + idsMarker.length)) =
      some (idsText (payload.ids.take payload.count.toNat) ++ "]\x7d".toList) := by
    rw [strstr_cut hfind,Option.map_some]
    congr 1
    conv_lhs => rw [hfind.split]
    rw [← List.append_assoc _ idsMarker]
    exact List.drop_left' List.length_append
  have hlong : 0 + (payload.ids.take payload.count.toNat).length ≤ old.ids.length := by
    rw [hlen,Nat.zero_add]
    exact hroom
  have hids := decodeIds_idsText (payload.ids.take payload.count.toNat) hlong
  rw [hlen,Nat.zero_add,List.take_zero,List.nil_append] at hids
  have hfits : payload.count.toNat ≤
      (payload.ids.take payload.count.toNat ++ old.ids.drop payload.count.toNat).length := by
    rw [List.length_append,hlen]
    exact Nat.le_add_right _ _
  refine ⟨⟨payload.count,_,hfits⟩,?_,rfl,rfl⟩
  rw [payloadDecodeRoster,hptr,hcount,List.getD_cons_zero,hids]
  exact dif_pos hfits

/-! ## States -/

def stateFormat : List Directive :=
  format ",%u,%u,%d,%d,%u,%u,%u,%u,%d,%u,%u,%u,%u,%u,%d,%u,%u,%u,%u,%u,%u,%u,%u".toList

def StatePayload.values (p : StatePayload) : List Word :=
  [p.currentType,p.currentRot,p.currentX,p.currentY,p.nextType,
    p.preview 0,p.preview 1,p.preview 2,
    p.heldType,p.hasHeld,
    p.playerId,p.score,p.level,p.linesCleared,p.combo,p.b2b,p.tSpins,p.tetrises,p.pendingGarbage,
    p.targetPlayerId,p.targetMode,p.gameOver,p.winnerId]

/-- `'0' + cell` in a byte. -/
def cellText (cell : UInt8) : Char := Char.ofNat ((48 + cell.toNat) % 256)

def rowText (row : Fin 10 → UInt8) : List Char := (List.finRange 10).map fun col => cellText (row col)

def boardText (board : Fin 20 → Fin 10 → UInt8) : List Char := (List.finRange 20).flatMap fun row => rowText (board row)

/-- The string in the buffer ends at the first NUL, which may be the text of a cell. -/
def payloadEncodeState (payload : StatePayload) : List Char :=
  (boardText payload.board ++ print stateFormat payload.values).takeWhile (· != nul)

def readCell (c : Char) : UInt8 := UInt8.ofNat (c.toNat + 208)

/-- The character at an offset; at the end of the text that is the NUL. -/
def charAt (buffer : List Char) (offset : ℕ) : Except DecodeError Char :=
  if offset ≤ buffer.length then .ok (buffer.getD offset nul) else .error .overrun

def textFrom (buffer : List Char) (offset : ℕ) : Except DecodeError (List Char) :=
  if offset ≤ buffer.length then .ok (buffer.drop offset) else .error .overrun

/-- `n` cells are still to be read. -/
def decodeCells (buffer : List Char) : ℕ → ℕ → Except DecodeError (List UInt8)
  | 0, _ => .ok []
  | n + 1, offset => (charAt buffer offset).bind fun c => (decodeCells buffer n (offset + 1)).map (readCell c :: ·)

/-- The payload with the cells row by row and the values as far as there are any. -/
def StatePayload.store (payload : StatePayload) (cells : List UInt8) (values : List Word) : StatePayload where
  board row col := cells.getD (10 * row + col) 0
  currentType := values.getD 0 payload.currentType
  currentRot := values.getD 1 payload.currentRot
  currentX := values.getD 2 payload.currentX
  currentY := values.getD 3 payload.currentY
  nextType := values.getD 4 payload.nextType
  preview i := values.getD (5 + i) (payload.preview i)
  heldType := values.getD 8 payload.heldType
  hasHeld := values.getD 9 payload.hasHeld
  playerId := values.getD 10 payload.playerId
  score := values.getD 11 payload.score
  level := values.getD 12 payload.level
  linesCleared := values.getD 13 payload.linesCleared
  combo := values.getD 14 payload.combo
  b2b := values.getD 15 payload.b2b
  tSpins := values.getD 16 payload.tSpins
  tetrises := values.getD 17 payload.tetrises
  pendingGarbage := values.getD 18 payload.pendingGarbage
  targetPlayerId := values.getD 19 payload.targetPlayerId
  targetMode := values.getD 20 payload.targetMode
  gameOver := values.getD 21 payload.gameOver
  winnerId := values.getD 22 payload.winnerId

def payloadDecodeState (buffer : List Char) (payload : StatePayload) : Except DecodeError StatePayload :=
  (decodeCells buffer 200 0).bind fun cells =>
    (textFrom buffer 200).map fun text => payload.store cells (scan stateFormat text)

theorem decodeCells_ok (buffer : List Char) (n offset : ℕ) (h : offset + n ≤ buffer.length + 1) :
    decodeCells buffer n offset = .ok ((List.range' offset n).map fun k => readCell (buffer.getD k nul)) := by
  induction n generalizing offset with
  | zero => rfl
  | succ n ih =>
    rw [decodeCells,charAt,if_pos (by omega),ih (offset + 1) (by omega)]
    rfl

/-- Every cell is inside, and `sscanf` reads on from inside. -/
theorem payloadDecodeState_eq {buffer : List Char} (h : 200 ≤ buffer.length) (payload : StatePayload) :
    payloadDecodeState buffer payload = .ok (payload.store
      ((List.range' 0 200).map fun k => readCell (buffer.getD k nul)) (scan stateFormat (buffer.drop 200))) := by
  rw [payloadDecodeState,decodeCells_ok buffer 200 0 (by omega),textFrom,if_pos h]
  rfl

/-- The cells of a board are empty, a piece or garbage. -/
def CellsLegal (board : Fin 20 → Fin 10 → UInt8) : Prop := ∀ row col, board row col ≤ 8

theorem readCell_cellText {cell : UInt8} (h : cell ≤ 8) : readCell (cellText cell) = cell := by
  have hall : ∀ n : Fin 9, readCell (cellText (UInt8.ofNat n)) = UInt8.ofNat n := by decide
  have hlt : cell.toNat < 9 := Nat.lt_succ_of_le h
  have hcell := hall ⟨cell.toNat,hlt⟩
  rwa [UInt8.ofNat_toNat] at hcell

theorem cellText_isDigit {cell : UInt8} (h : cell ≤ 8) : (cellText cell).isDigit = true := by
  have hall : ∀ n : Fin 9, (cellText (UInt8.ofNat n)).isDigit = true := by decide
  have hlt : cell.toNat < 9 := Nat.lt_succ_of_le h
  have hcell := hall ⟨cell.toNat,hlt⟩
  rwa [UInt8.ofNat_toNat] at hcell

theorem boardText_rows (board : Fin 20 → Fin 10 → UInt8) :
    boardText board = ((List.finRange 20).map fun row => rowText (board row)).flatten ∧
    ∀ row ∈ (List.finRange 20).map fun row => rowText (board row), row.length = 10 := by
  refine ⟨List.flatMap_def,fun text hmem => ?_⟩
  obtain ⟨row,-,rfl⟩ := List.mem_map.mp hmem
  rw [rowText,List.length_map,List.length_finRange]

theorem length_boardText (board : Fin 20 → Fin 10 → UInt8) : (boardText board).length = 200 := by
  obtain ⟨hflat,hrows⟩ := boardText_rows board
  rw [hflat,Blocks.flatten_length hrows,List.length_map,List.length_finRange]

theorem boardText_cell (board : Fin 20 → Fin 10 → UInt8) (row : Fin 20) (col : Fin 10) :
    (boardText board)[10 * row.val + col.val]? = some (cellText (board row col)) := by
  obtain ⟨hflat,hrows⟩ := boardText_rows board
  have hrow : row.val < ((List.finRange 20).map fun row => rowText (board row)).length := by
    rw [List.length_map,List.length_finRange]
    exact row.isLt
  have hblock := Blocks.block_flatten hrows hrow
  rw [← hflat,Blocks.block,List.getElem_map,List.getElem_finRange] at hblock
  have hcell := congrArg (·[col.val]?) hblock
  rw [List.getElem?_take_of_lt col.isLt,List.getElem?_drop] at hcell
  rw [hcell,rowText,List.getElem?_map,List.getElem?_eq_getElem (by rw [List.length_finRange]; exact col.isLt),
    List.getElem_finRange]
  rfl

theorem mem_boardText {board : Fin 20 → Fin 10 → UInt8} (h : CellsLegal board) {c : Char} (hc : c ∈ boardText board) :
    c.isDigit = true := by
  obtain ⟨row,-,hmem⟩ := List.mem_flatMap.mp hc
  obtain ⟨col,-,rfl⟩ := List.mem_map.mp hmem
  exact cellText_isDigit (h row col)

theorem payloadEncodeState_legal {payload : StatePayload} (h : CellsLegal payload.board) :
    payloadEncodeState payload = boardText payload.board ++ print stateFormat payload.values := by
  rw [payloadEncodeState]
  refine List.takeWhile_eq_self_iff.mpr fun c hc => bne_iff_ne.mpr ?_
  rintro rfl
  rcases List.mem_append.mp hc with hc | hc
  · exact absurd (mem_boardText h hc) (by decide)
  · exact absurd (mem_print hc) (by decide)

theorem payloadDecodeState_encode {payload : StatePayload} (h : CellsLegal payload.board) (old : StatePayload) :
    payloadDecodeState (payloadEncodeState payload) old = .ok payload := by
  have hlen := length_boardText payload.board
  have hscan : scan stateFormat ((payloadEncodeState payload).drop 200) = payload.values := by
    rw [payloadEncodeState_legal h,← hlen,List.drop_left,← List.append_nil (print _ _)]
    exact scan_print rfl rfl
  have hlong : 200 ≤ (payloadEncodeState payload).length := by
    rw [payloadEncodeState_legal h,List.length_append,hlen]
    exact Nat.le_add_right _ _
  have hboard : (fun (row : Fin 20) (col : Fin 10) => ((List.range' 0 200).map fun k =>
      readCell ((payloadEncodeState payload).getD k nul)).getD (10 * row.val + col.val) 0) = payload.board := by
    funext row col
    have hlt : 10 * row.val + col.val < 200 := by omega
    rw [List.getD_eq_getElem?_getD,List.getElem?_map,List.getElem?_range' hlt,Option.map_some,Option.getD_some,
      Nat.one_mul,Nat.zero_add,payloadEncodeState_legal h,List.getD_eq_getElem?_getD,
      List.getElem?_append_left (by rwa [hlen]),boardText_cell,Option.getD_some,readCell_cellText (h row col)]
  have hpreview : (fun i : Fin 3 => payload.values.getD (5 + i.val) (old.preview i)) = payload.preview := by
    funext i
    match i with
    | 0 => rfl
    | 1 => rfl
    | 2 => rfl
  rw [payloadDecodeState_eq hlong,hscan,StatePayload.store,hboard,hpreview]
  rfl

end CoreStack.Hypertext
