import CoreStack.Tetris.KillFeed
import CoreStack.Tetrisd.Conserve
import CoreStack.Tetrisd.Descent
import CoreStack.Tetrisd.Preview

/-! # The screen (`renderer.c`)

`draw_board` with the index of every array access checked. What it prints depends on what a
snapshot carries, and the ghost shows where a hard drop would land.
-/
namespace CoreStack.Tetrisu
open Tetris Tetrisd Utils Checked Looping Execution

/-! ## Printing -/

/-- `TETROMINOES[type - 1][index] != 0`. -/
def tetromino? (type index : ℕ) : Option Bool :=
  if type = 0 then none else tetrominoes[type - 1]?.bind fun shape => shape[index]?.map (· != 0)

/-- Whether a piece whose box hangs at `(left,top)` covers `(x,y)`; outside the box no array
is read. -/
def covers? (type : ℕ) (rot : Rotation) (left top x y : ℤ) : Option Bool :=
  if x ≥ left ∧ x < left + 4 ∧ y ≥ top ∧ y < top + 4 then
    tetromino? type (getRotationIndex (x - left).toNat (y - top).toNat rot)
  else some false

def cellText (active ghost : Bool) (cell : ℕ) : List Char :=
  if active then "[]".toList
  else if cell = 8 then "><".toList
  else if cell ≠ 0 then "##".toList
  else if ghost then "::".toList
  else " .".toList

/-- One board cell between the walls. -/
def drawCell? (s : GameState) (ghostY : ℤ) (y : Fin boardHeight) (x : Fin boardWidth) : Option (List Char) := do
  let active ← covers? s.current.type s.current.rot s.current.x s.current.y x.val y.val
  let ghost ← covers? s.current.type s.current.rot s.current.x ghostY x.val y.val
  return cellText active ghost (s.board.cells y x)

/-- One row of a piece in a box beside the board. -/
def boxRow? (type row : ℕ) : Option (List Char) :=
  ((List.range 4).mapM fun hx => (tetromino? type (getRotationIndex hx row .rot0)).map fun full =>
    if full then "[]".toList else "  ".toList).map List.flatten

/-- `bag[bag_index]`, and `bag[(bag_index + k) % 14]` for the later ones. -/
def next? (s : GameState) (k : ℕ) : Option ℕ := s.bag[if k = 0 then s.bagIndex else (s.bagIndex + k) % 14]?

/-- What is drawn to the right of row `y`. -/
def sideText? (s : GameState) (y : ℕ) : Option (List Char) :=
  if y = 0 then some "  HOLD BOX".toList
  else if y ≤ 4 then
    (if s.heldType ≠ 0 then boxRow? s.heldType (y - 1) else some "        ".toList).map ("  ".toList ++ ·)
  else if y = 5 then some "  NEXT".toList
  else if 6 ≤ y ∧ y ≤ 9 then ((next? s 0).bind (boxRow? · (y - 6))).map (" ".toList ++ ·)
  else if 11 ≤ y ∧ y ≤ 14 then ((next? s 1).bind (boxRow? · (y - 11))).map ("  ".toList ++ ·)
  else if 16 ≤ y ∧ y ≤ 19 then ((next? s 2).bind (boxRow? · (y - 16))).map ("  ".toList ++ ·)
  else some "      ".toList

/-- The right wall with the garbage meter. -/
def meterText (s : GameState) (y : ℕ) : List Char :=
  "<|> ".toList ++ (if boardHeight - y ≤ s.pendingGarbage then " \x1b[0;31m#\x1b[0m ".toList else []) ++ " <|>".toList

def drawRow? (s : GameState) (ghostY : ℤ) (y : Fin boardHeight) : Option (List Char) := do
  let cells ← (List.finRange boardWidth).mapM (drawCell? s ghostY y)
  let side ← sideText? s y.val
  return "<|>".toList ++ cells.flatten ++ meterText s y.val ++ side ++ "\n".toList

/-- `%-wd` of an `int`. -/
def printInt (w : ℕ) (z : ℤ) : List Char :=
  let text := Conversion.d.text (BitVec.ofInt 32 z)
  text ++ List.replicate (w - text.length) ' '

def modeString : TargetingMode → List Char
  | .manual => "MANUAL".toList
  | .random => "RANDOM".toList
  | .ko => "KILL-OUT".toList

def controls : List Char :=
  ("--------------------------\n Controls:\n   [Left/Right] Move     [Down] Soft Drop\n" ++
    "   [Up / X] Rotate CW    [Z] Rotate CCW\n   [Space] Hard Drop     [H] Hold Piece\n" ++
    "   [T] Cycle Target      [R] Swap Target\n   [Q] Quit Game\n").toList

def statsText (s : GameState) : List Char :=
  "<!>====================<!>\n Lvl: ".toList ++ printInt 2 s.level ++ "   Score: ".toList ++ printInt 5 s.score ++
  "\n Lines: ".toList ++ printInt 3 s.linesCleared ++ "  T-Spins: ".toList ++ printInt 2 s.tSpins ++
  "  Tetrises: ".toList ++ printInt 2 s.tetrises

def statusText (s : GameState) : List Char :=
  "\n Status: ".toList ++ (if s.b2b then "\x1b[1;33m[B2B]\x1b[0m ".toList else "[---] ".toList) ++
  (if s.combo > 0 then "\x1b[1;32m".toList ++ printInt 0 s.combo ++ " COMBO!\x1b[0m\n".toList
    else "0 Combo\n".toList)

/-- `%d` of the target reads its 32 bits as an `int`. -/
def targetText (s : GameState) : List Char :=
  " Target: P".toList ++ printInt 0 s.targetPlayerId ++ " (".toList ++ modeString s.targetMode ++ ")\n".toList

def dashboard (s : GameState) : List Char := statsText s ++ statusText s ++ targetText s ++ controls

def banner : List Char := "\x1b[1;1H===      TETRIS     ===\n                       \n".toList

/-- `fuel` bounds the loop that looks for the ghost. -/
def drawBoard? (fuel : ℕ) (s : GameState) (feed : KillFeed) : Option (List Char) := do
  let ghostY ← ghostY? fuel s
  let rows ← (List.finRange boardHeight).mapM (drawRow? s ghostY)
  let log ← feed.drawKillFeed?
  return banner ++ rows.flatten ++ dashboard s ++ log.2

/-! ## Every access is inside -/

theorem tetromino?_eq {type : ℕ} (ht : type ∈ newBag) (rot : Rotation) {px py : ℕ} (hx : px < 4) (hy : py < 4) :
    tetromino? type (getRotationIndex px py rot) = some (solid type rot px py) := by
  have hall : ∀ t ∈ newBag, ∀ px < 4, ∀ py < 4, tetromino? t (getRotationIndex px py rot) = some (solid t rot px py) := by
    cases rot <;> decide
  exact hall type ht px hx py hy

/-- The test of the box and the look-up ask whether the piece stands on the cell. -/
theorem covers?_eq {type : ℕ} (ht : type ∈ newBag) (rot : Rotation) (left top : ℤ) (y : Fin boardHeight)
    (x : Fin boardWidth) :
    covers? type rot left top x.val y.val = some (decide ((y,x) ∈ (⟨type,rot,left,top⟩ : Piece).footprint)) := by
  rw [covers?]
  split
  · next hbox =>
    have hx : (x.val - left).toNat < 4 := by omega
    have hy : (y.val - top).toNat < 4 := by omega
    rw [tetromino?_eq ht rot hx hy]
    refine congrArg some (Bool.eq_iff_iff.mpr ?_)
    rw [decide_eq_true_iff,mem_footprint]
    constructor
    · intro hsolid
      refine ⟨((x.val - left).toNat,(y.val - top).toNat),mem_solidCells.mpr ⟨mem_localCells.mpr ⟨hx,hy⟩,hsolid⟩,?_,?_⟩
      · dsimp only
        omega
      · dsimp only
        omega
    · rintro ⟨d,hd,hdx,hdy⟩
      dsimp only at hdx hdy
      obtain ⟨-,hsolid⟩ := mem_solidCells.mp hd
      have hpx : (x.val - left).toNat = d.1 := by omega
      have hpy : (y.val - top).toNat = d.2 := by omega
      rw [hpx,hpy]
      exact hsolid
  · next hbox =>
    refine congrArg some (Eq.symm (decide_eq_false fun hmem => hbox ?_))
    obtain ⟨d,hd,hdx,hdy⟩ := mem_footprint.mp hmem
    obtain ⟨hpx,hpy⟩ := mem_localCells.mp (mem_solidCells.mp hd).1
    dsimp only at hdx hdy
    omega

theorem boxRow?_isSome {type : ℕ} (ht : type ∈ newBag) (row : ℕ) (hr : row < 4) : ∃ text, boxRow? type row = some text := by
  rw [boxRow?,mapM_of_some (g := fun hx => if solid type .rot0 hx row then "[]".toList else "  ".toList)]
  · exact ⟨_,rfl⟩
  · intro hx hmem
    rw [tetromino?_eq ht .rot0 (List.mem_range.mp hmem) hr]
    rfl

/-- What `draw_board` relies on. -/
structure Drawable (s : GameState) : Prop where
  typed : s.current.type ∈ newBag
  held : s.heldType = 0 ∨ s.heldType ∈ newBag
  next : ∀ k < 3, ∃ t ∈ newBag, next? s k = some t

theorem Drawable.next_row {s : GameState} (h : Drawable s) {k row : ℕ} (hk : k < 3) (hr : row < 4) (margin : List Char) :
    ∃ text, ((next? s k).bind (boxRow? · row)).map (margin ++ ·) = some text := by
  obtain ⟨t,ht,hnext⟩ := h.next k hk
  obtain ⟨text,htext⟩ := boxRow?_isSome ht row hr
  rw [hnext,Option.bind_some,htext]
  exact ⟨_,rfl⟩

theorem Drawable.side {s : GameState} (h : Drawable s) (y : ℕ) : ∃ text, sideText? s y = some text := by
  unfold sideText?
  split
  · exact ⟨_,rfl⟩
  split
  · split
    · next hheld =>
      obtain ⟨text,htext⟩ := boxRow?_isSome (h.held.resolve_left hheld) (y - 1) (by omega)
      rw [htext]
      exact ⟨_,rfl⟩
    · exact ⟨_,rfl⟩
  split
  · exact ⟨_,rfl⟩
  split
  · exact h.next_row (by decide) (by omega) _
  split
  · exact h.next_row (by decide) (by omega) _
  split
  · exact h.next_row (by decide) (by omega) _
  · exact ⟨_,rfl⟩

theorem Drawable.cell {s : GameState} (h : Drawable s) (ghostY : ℤ) (y : Fin boardHeight) (x : Fin boardWidth) :
    drawCell? s ghostY y x = some (cellText (decide ((y,x) ∈ s.current.footprint))
      (decide ((y,x) ∈ (atRow s ghostY).current.footprint)) (s.board.cells y x)) := by
  rw [drawCell?,covers?_eq h.typed,covers?_eq h.typed]
  rfl

theorem Drawable.row {s : GameState} (h : Drawable s) (ghostY : ℤ) (y : Fin boardHeight) :
    ∃ text, drawRow? s ghostY y = some text := by
  obtain ⟨side,hside⟩ := h.side y.val
  rw [drawRow?,mapM_of_some (List.finRange boardWidth) fun x _ => h.cell ghostY y x,hside]
  exact ⟨_,rfl⟩

/-! ## The ghost -/

/-- The ghost's loop ends whether or not the piece fits where it is. -/
theorem ghost_stops {s : GameState} (ht : s.current.type ∈ newBag) :
    ∃ (n : ℕ) (y : ℤ), n ≤ ((boardHeight : ℤ) - s.current.y).toNat ∧ Exit (ghostFalls s) (· + 1) n s.current.y y := by
  have hexit : ∃ (n : ℕ) (y : ℤ), n ≤ ((boardHeight : ℤ) - s.current.y).toNat ∧
      Exit (ghostFalls s) (· + 1) n s.current.y y ∧ True := by
    refine exists_exit (I := fun _ => True) (fun y => ((boardHeight : ℤ) - y).toNat) ?_ trivial
    intro y _ hv
    have hlt : y + 1 < boardHeight := row_lt_of_legal (s := atRow s (y + 1)) ht hv
    exact ⟨trivial,by omega⟩
  obtain ⟨n,y,hn,he,-⟩ := hexit
  exact ⟨n,y,hn,he⟩

theorem ghostY?_eq {s : GameState} (ht : s.current.type ∈ newBag) {fuel : ℕ}
    (hf : ((boardHeight : ℤ) - s.current.y).toNat < fuel) : ghostY? fuel s = some (hardDrop s).current.y := by
  obtain ⟨n,y,hn,he⟩ := ghost_stops ht
  have hdrop : hardDrop s = atRow s y := hardDropLoop_eq he hn
  rw [hdrop]
  exact he.while?_eq (lt_of_le_of_lt hn hf)

theorem atRow_hardDrop {s : GameState} (ht : s.current.type ∈ newBag) : atRow s (hardDrop s).current.y = hardDrop s := by
  obtain ⟨n,y,hn,he⟩ := ghost_stops ht
  have hdrop : hardDrop s = atRow s y := hardDropLoop_eq he hn
  rw [hdrop]
  rfl

theorem Drawable.draws {s : GameState} (h : Drawable s) {feed : KillFeed} {attacks : List KillFeedEntry}
    (hfeed : feed.Records attacks) {fuel : ℕ} (hf : ((boardHeight : ℤ) - s.current.y).toNat < fuel) :
    ∃ text, drawBoard? fuel s feed = some text := by
  choose row hrow using h.row (hardDrop s).current.y
  rw [drawBoard?,ghostY?_eq h.typed hf,KillFeed.drawKillFeed?,hfeed.readEntries?]
  rw [Option.bind_eq_bind,Option.bind_some,mapM_of_some (List.finRange boardHeight) fun y _ => hrow y]
  exact ⟨_,rfl⟩

/-! ## Two states that look the same -/

/-- The two states agree on everything `draw_board` reads. -/
structure Looks (s t : GameState) : Prop where
  board : t.board = s.board
  current : t.current = s.current
  heldType : t.heldType = s.heldType
  next : ∀ k < 3, next? t k = next? s k
  pendingGarbage : t.pendingGarbage = s.pendingGarbage
  level : t.level = s.level
  score : t.score = s.score
  linesCleared : t.linesCleared = s.linesCleared
  tSpins : t.tSpins = s.tSpins
  tetrises : t.tetrises = s.tetrises
  b2b : t.b2b = s.b2b
  combo : t.combo = s.combo
  targetPlayerId : t.targetPlayerId = s.targetPlayerId
  targetMode : t.targetMode = s.targetMode

theorem Looks.side {s t : GameState} (h : Looks s t) (y : ℕ) : sideText? t y = sideText? s y := by
  rw [sideText?,sideText?,h.heldType,h.next 0 (by decide),h.next 1 (by decide),h.next 2 (by decide)]

theorem Looks.stats {s t : GameState} (h : Looks s t) : dashboard t = dashboard s := by
  have hstats : statsText t = statsText s := by
    unfold statsText
    rw [h.level,h.score,h.linesCleared,h.tSpins,h.tetrises]
  have hstatus : statusText t = statusText s := by
    unfold statusText
    rw [h.b2b,h.combo]
  have htarget : targetText t = targetText s := by
    unfold targetText
    rw [h.targetPlayerId,h.targetMode]
  rw [dashboard,dashboard,hstats,hstatus,htarget]

theorem Looks.row {s t : GameState} (h : Looks s t) (ghostY : ℤ) (y : Fin boardHeight) :
    drawRow? t ghostY y = drawRow? s ghostY y := by
  have hcell : drawCell? t ghostY y = drawCell? s ghostY y := by
    funext x
    rw [drawCell?,drawCell?,h.current,h.board]
  rw [drawRow?,drawRow?,hcell,h.side,meterText,meterText,h.pendingGarbage]

theorem Looks.drawBoard {s t : GameState} (h : Looks s t) (fuel : ℕ) (feed : KillFeed) :
    drawBoard? fuel t feed = drawBoard? fuel s feed := by
  have hghost : ghostFalls t = ghostFalls s := by
    funext y
    rw [ghostFalls,ghostFalls,h.board,h.current]
  have hrow : ∀ ghostY, drawRow? t ghostY = drawRow? s ghostY := fun ghostY => funext (h.row ghostY)
  rw [drawBoard?,drawBoard?,ghostY?,ghostY?,hghost,h.current,h.stats]
  simp only [hrow]

/-! ## The screen of a game -/

theorem next?_upcoming {s : GameState} (hw : s.Window) {k : ℕ} (hk : k < 3) : next? s k = s.upcoming[k]? := by
  have hi := hw.index
  have hindex : (if k = 0 then s.bagIndex else (s.bagIndex + k) % 14) = s.bagIndex + k := by
    split
    · next h0 => rw [h0,Nat.add_zero]
    · exact Nat.mod_eq_of_lt (by omega)
  rw [next?,hindex,GameState.upcoming,List.getElem?_drop]

theorem drawable_of_game {s : GameState} (hg : Grounded s) (hw : s.Window) (hb : ∀ t ∈ s.upcoming, t ∈ newBag) :
    Drawable s := by
  refine ⟨hg.typed,hg.held,fun k hk => ?_⟩
  have hlt : k < s.upcoming.length := by
    have hl := hw.length
    have hi := hw.index
    rw [GameState.upcoming,List.length_drop]
    omega
  exact ⟨s.upcoming[k],hb _ (List.getElem_mem hlt),by rw [next?_upcoming hw hk,List.getElem?_eq_getElem hlt]⟩

theorem looks_of_snapshot {s mirror : GameState} (hm : Mirrors s mirror) (hw : s.Window) (hi : mirror.bagIndex = 0)
    {rest : List ℕ} (hbag : mirror.bag = s.upcoming.take 3 ++ rest) : Looks s mirror := by
  refine ⟨hm.board,hm.current,hm.heldType,fun k hk => ?_,hm.pendingGarbage,hm.level,hm.score,hm.linesCleared,hm.tSpins,
    hm.tetrises,hm.b2b,hm.combo,hm.targetPlayerId,hm.targetMode⟩
  have hthree := upcoming_take_three hw
  have hindex : (if k = 0 then mirror.bagIndex else (mirror.bagIndex + k) % 14) = k := by
    rw [hi]
    split
    · next h0 => rw [h0]
    · omega
  rw [next?_upcoming hw hk,next?,hindex,hbag,List.getElem?_append_left (by omega),List.getElem?_take_of_lt hk]

theorem looks_of_mirror {rand : ℕ → ℕ} {playerId target : ℕ} {moves : List Move} {p : Play}
    (hr : run Play.step (Play.start rand playerId target) moves = some p) (hi : p.state.IntSized) (client : GameState) :
    ∃ mirror, applyStatePayload (buildStatePayload p.state) client = some mirror ∧ Mirrors p.state mirror ∧
      Looks p.state mirror := by
  have hd := Play.run_drawing hr
  obtain ⟨mirror,hm,hs,h0,hb⟩ := applyStatePayload_build hi (mem_newBag _ (Play.run_grounded hr).typed).2 client
  rw [preview_roundtrip hd.window fun t ht => hd.mem t (List.mem_append_right _ ht)] at hb
  exact ⟨mirror,hm,hs,looks_of_snapshot hs hd.window h0 hb⟩

theorem Play.run_drawable {rand : ℕ → ℕ} {playerId target : ℕ} {moves : List Move} {p : Play}
    (hr : run Play.step (Play.start rand playerId target) moves = some p) : Drawable p.state := by
  have hd := Play.run_drawing hr
  exact drawable_of_game (Play.run_grounded hr) hd.window fun t ht => hd.mem t (List.mem_append_right _ ht)

/-- Any state of a game is drawn without an access outside an array, and its loop for the ghost
ends. Each cell shows the piece, what is locked there, or where a hard drop would take the
piece, and a client that was sent the state draws the same. -/
theorem screen_shows_game (rand : ℕ → ℕ) (playerId target : ℕ) (moves : List Move) (p : Play)
    (hr : run Play.step (Play.start rand playerId target) moves = some p) (attacks : List KillFeedEntry) (feed : KillFeed)
    (hfeed : feed.Records attacks) (fuel : ℕ) (hf : ((boardHeight : ℤ) - p.state.current.y).toNat < fuel) :
    (∃ text, drawBoard? fuel p.state feed = some text) ∧
    (∃ ghostY, ghostY? fuel p.state = some ghostY ∧ ∀ y x, drawCell? p.state ghostY y x =
      some (cellText (decide ((y,x) ∈ p.state.current.footprint))
        (decide ((y,x) ∈ (hardDrop p.state).current.footprint)) (p.state.board.cells y x))) ∧
    (p.state.IntSized → ∀ client, ∃ mirror, applyStatePayload (buildStatePayload p.state) client = some mirror ∧
      drawBoard? fuel mirror feed = drawBoard? fuel p.state feed) := by
  have hdrawable := Play.run_drawable hr
  refine ⟨hdrawable.draws hfeed hf,⟨_,ghostY?_eq hdrawable.typed hf,fun y x => ?_⟩,fun hi client => ?_⟩
  · rw [hdrawable.cell,atRow_hardDrop hdrawable.typed]
  · obtain ⟨mirror,hm,-,hlooks⟩ := looks_of_mirror hr hi client
    exact ⟨mirror,hm,hlooks.drawBoard fuel feed⟩

def heldAndStacked : List Move :=
  .action (fun i => i) [] .hold :: List.replicate 3 (.action (fun i => 3 * i + 1) [] .hardDrop)

/-- Three pieces lie on the board, one is held, and the feed tells of one attack. -/
theorem screen_shows_game_start :
    ∃ p feed, run Play.step (Play.start (fun i => 5 * i + 3) 1 2) heldAndStacked = some p ∧
      p.state.heldType ≠ 0 ∧ p.state.board.blocks.card = 12 ∧ KillFeed.start.addKillFeed? 2 1 4 = some feed ∧
      (∃ ghostY, ghostY? 25 p.state = some ghostY ∧ p.state.current.y < ghostY ∧ ∀ y x, drawCell? p.state ghostY y x =
        some (cellText (decide ((y,x) ∈ p.state.current.footprint))
          (decide ((y,x) ∈ (hardDrop p.state).current.footprint)) (p.state.board.cells y x))) ∧
      ∃ text, drawBoard? 25 p.state feed = some text ∧
        ∃ mirror, applyStatePayload (buildStatePayload p.state) (freshState fun _ => 0) = some mirror ∧
          drawBoard? 25 mirror feed = some text := by
  obtain ⟨p,hr,ht⟩ := exists_of_run_any Play.step (Play.start (fun i => 5 * i + 3) 1 2) heldAndStacked
    (fun p : Play => p.state.heldType != 0 && p.state.board.blocks.card == 12 && decide p.state.IntSized &&
      decide (((boardHeight : ℤ) - p.state.current.y).toNat < 25) &&
      (ghostY? 25 p.state).any fun y => decide (p.state.current.y < y)) (by decide +kernel)
  simp only [Bool.and_eq_true,bne_iff_ne,beq_iff_eq,decide_eq_true_eq] at ht
  obtain ⟨⟨⟨⟨hheld,hblocks⟩,hi⟩,hf⟩,hghost⟩ := ht
  obtain ⟨feed,hadd,hfeed⟩ := KillFeed.records_start.add ⟨2,1,4⟩
  obtain ⟨⟨text,htext⟩,⟨ghostY,hy,hcells⟩,hclient⟩ := screen_shows_game _ 1 2 _ p hr _ feed hfeed 25 hf
  obtain ⟨mirror,hm,hsame⟩ := hclient hi (freshState fun _ => 0)
  rw [hy] at hghost
  exact ⟨p,feed,hr,hheld,hblocks,hadd,⟨ghostY,hy,of_decide_eq_true hghost,hcells⟩,text,htext,mirror,hm,hsame.trans htext⟩

end CoreStack.Tetrisu
