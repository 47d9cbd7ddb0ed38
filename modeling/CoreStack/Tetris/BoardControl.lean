import CoreStack.Tetris.State
import Mathlib.Tactic.Common

/-! # Rotation, collision, locking and line clearing (`board_control.c`) -/
namespace CoreStack.Tetris

/-- One row a piece type, a flattened 4x4 grid: I, O, T, S, Z, J, L. -/
def tetrominoes : List (List ℕ) :=
  [[0, 0, 0, 0, 1, 1, 1, 1, 0, 0, 0, 0, 0, 0, 0, 0],
   [0, 0, 0, 0, 0, 1, 1, 0, 0, 1, 1, 0, 0, 0, 0, 0],
   [0, 0, 0, 0, 0, 1, 0, 0, 1, 1, 1, 0, 0, 0, 0, 0],
   [0, 0, 0, 0, 0, 0, 1, 1, 0, 1, 1, 0, 0, 0, 0, 0],
   [0, 0, 0, 0, 1, 1, 0, 0, 0, 1, 1, 0, 0, 0, 0, 0],
   [0, 0, 0, 0, 0, 0, 0, 1, 0, 1, 1, 1, 0, 0, 0, 0],
   [0, 0, 0, 0, 1, 0, 0, 0, 1, 1, 1, 0, 0, 0, 0, 0]]

def getRotationIndex (x y : ℕ) : Rotation → ℕ
  | .rot0 => x + y * 4
  | .rot1 => 12 + y - x * 4
  | .rot2 => 15 - y * 4 - x
  | .rot3 => 3 - y + x * 4

/-- The 4x4 cell `(px,py)` of the rotated shape is solid. -/
def solid (type : ℕ) (rot : Rotation) (px py : ℕ) : Bool :=
  (tetrominoes.getD (type - 1) []).getD (getRotationIndex px py rot) 0 != 0

/-- The local cells in the order of the two nested loops. -/
def localCells : List (ℕ × ℕ) :=
  (List.range 4).flatMap fun px => (List.range 4).map fun py => (px,py)

/-- A solid cell may stand at board position `(x,y)`: rows above the board are free. -/
def cellFits (b : Board) (x y : ℤ) : Bool :=
  !(x < 0 || x ≥ boardWidth || y ≥ boardHeight) && !(y ≥ 0 && b.read y x != 0)

def isValidPos (b : Board) (type : ℕ) (rot : Rotation) (posX posY : ℤ) : Bool :=
  localCells.all fun p => !solid type rot p.1 p.2 || cellFits b (posX + p.1) (posY + p.2)

/-- The current piece would be valid one row further down. -/
def canFall (s : GameState) : Bool :=
  isValidPos s.board s.current.type s.current.rot s.current.x (s.current.y + 1)

def getTransitionIndex : Rotation → Rotation → ℕ
  | .rot0, .rot1 => 0
  | .rot1, .rot0 => 1
  | .rot1, .rot2 => 2
  | .rot2, .rot1 => 3
  | .rot2, .rot3 => 4
  | .rot3, .rot2 => 5
  | .rot3, .rot0 => 6
  | .rot0, .rot3 => 7
  | _, _ => 0

def kicksJLSTZ : List (List (ℤ × ℤ)) :=
  [[(0,0), (-1,0), (-1,-1), (0,2), (-1,2)],
   [(0,0), (1,0), (1,1), (0,-2), (1,-2)],
   [(0,0), (1,0), (1,1), (0,-2), (1,-2)],
   [(0,0), (-1,0), (-1,-1), (0,2), (-1,2)],
   [(0,0), (1,0), (1,-1), (0,2), (1,2)],
   [(0,0), (-1,0), (-1,1), (0,-2), (-1,-2)],
   [(0,0), (-1,0), (-1,1), (0,-2), (-1,-2)],
   [(0,0), (1,0), (1,-1), (0,2), (1,2)]]

def kicksI : List (List (ℤ × ℤ)) :=
  [[(0,0), (-2,0), (1,0), (-2,1), (1,-2)],
   [(0,0), (2,0), (-1,0), (2,-1), (-1,2)],
   [(0,0), (-1,0), (2,0), (-1,-2), (2,1)],
   [(0,0), (1,0), (-2,0), (1,2), (-2,-1)],
   [(0,0), (2,0), (-1,0), (2,-1), (-1,2)],
   [(0,0), (-2,0), (1,0), (-2,1), (1,-2)],
   [(0,0), (1,0), (-2,0), (1,2), (-2,-1)],
   [(0,0), (-1,0), (2,0), (-1,-2), (2,1)]]

/-- The five offsets tried for a piece type and a transition, in order. -/
def kickOffsets (type transIndex : ℕ) : List (ℤ × ℤ) :=
  if type = 1 then kicksI.getD transIndex []
  else if type = 2 then List.replicate 5 (0,0)
  else kicksJLSTZ.getD transIndex []

/-- The first valid kick is taken; none valid leaves the state alone. -/
def testRotate (s : GameState) (nextRot : Rotation) : GameState × Bool :=
  let c := s.current
  let fits := fun o : ℤ × ℤ => isValidPos s.board c.type nextRot (c.x + o.1) (c.y + o.2)
  match (kickOffsets c.type (getTransitionIndex c.rot nextRot)).find? fits with
  | some o => ({ s with
      current := { c with x := c.x + o.1, y := c.y + o.2, rot := nextRot }
      lastActionRotation := true }, true)
  | none => (s, false)

def rotateCurrentPiece (s : GameState) : GameState := (testRotate s s.current.rot.clockwise).1

def rotateCounterClockwise (s : GameState) : GameState :=
  (testRotate s s.current.rot.counterClockwise).1

/-- Some solid block of the piece stands at row `y`, column `x`. -/
def Piece.covers (p : Piece) (y x : ℤ) : Bool :=
  localCells.any fun c => solid p.type p.rot c.1 c.2 && p.x + c.1 == x && p.y + c.2 == y

/-- Every in-range block writes the piece type; blocks outside the board are skipped. -/
def lockPiece (s : GameState) : GameState :=
  { s with board := ⟨fun y x =>
      if s.current.covers (y.val : ℤ) (x.val : ℤ) then s.current.type else s.board.cells y x⟩ }

def rowFull (b : Board) (y : Fin boardHeight) : Bool :=
  (List.finRange boardWidth).all fun x => b.cells y x != 0

/-- Rows above `y` move down by one and the top row is emptied. -/
def removeRow (b : Board) (y : Fin boardHeight) : Board :=
  ⟨fun yy x =>
    if yy.val = 0 then 0
    else if yy.val ≤ y.val then b.cells ⟨yy.val - 1,by omega⟩ x
    else b.cells yy x⟩

/-- The scan from row `y` (counted as `y + 1` rows left) upwards. A cleared row is
checked again, so the fuel bounds rows plus clears. -/
def clearLinesLoop : ℕ → ℕ → Board → ℕ → Board × ℕ
  | 0, _, b, cleared => (b,cleared)
  | _ + 1, 0, b, cleared => (b,cleared)
  | fuel + 1, y + 1, b, cleared =>
    if h : y < boardHeight then
      if rowFull b ⟨y,h⟩ then clearLinesLoop fuel (y + 1) (removeRow b ⟨y,h⟩) (cleared + 1)
      else clearLinesLoop fuel y b cleared
    else (b,cleared)

def clearLines (s : GameState) : GameState × ℕ :=
  let r := clearLinesLoop (2 * boardHeight) boardHeight s.board 0
  let s := { s with board := r.1 }
  if r.2 > 0 then
    ({ s with
        linesCleared := s.linesCleared + r.2
        level := (s.linesCleared + r.2).tdiv 10 + 1
        score := s.score + r.2 * 100 }, r.2)
  else (s,r.2)

theorem clearLinesLoop_count_le (fuel y : ℕ) (b : Board) (cleared : ℕ) :
    (clearLinesLoop fuel y b cleared).2 ≤ cleared + fuel := by
  induction fuel generalizing y b cleared with
  | zero => simp [clearLinesLoop]
  | succ fuel ih =>
    cases y with
    | zero => simp [clearLinesLoop]
    | succ y =>
      simp only [clearLinesLoop]
      split
      · split
        · have h := ih (y + 1) (removeRow b ⟨y,‹_›⟩) (cleared + 1)
          omega
        · have h := ih y b cleared
          omega
      · simp

theorem clearLines_count_le (s : GameState) : (clearLines s).2 ≤ 2 * boardHeight := by
  have h := clearLinesLoop_count_le (2 * boardHeight) boardHeight s.board 0
  unfold clearLines
  dsimp only
  split <;> omega

end CoreStack.Tetris
