import Mathlib.Data.Nat.Notation
import Mathlib.Data.Int.Notation

/-! # Game state of one player

The records of libtetrisbrain (`board.h`, `piece.h`, `state.h`). Signed counters
are integers, unsigned 32-bit fields are naturals reduced where they can wrap.
The unused `next` piece is left out.
-/
namespace CoreStack.Tetris

abbrev boardWidth : ℕ := 10
abbrev boardHeight : ℕ := 20

/-- A cell holds 0 (empty), a piece type 1..7, or 8 (garbage). -/
structure Board where
  cells : Fin boardHeight → Fin boardWidth → ℕ

def Board.empty : Board := ⟨fun _ _ => 0⟩

/-- Read at the signed coordinates the code computes; it guards every access. -/
def Board.read (b : Board) (y x : ℤ) : ℕ :=
  if h : (0 ≤ y ∧ y < boardHeight) ∧ 0 ≤ x ∧ x < boardWidth then
    b.cells ⟨y.toNat,by omega⟩ ⟨x.toNat,by omega⟩
  else 0

inductive Rotation
  | rot0
  | rot1
  | rot2
  | rot3
  deriving DecidableEq, Repr

/-- `(rot + 1) % 4` -/
def Rotation.clockwise : Rotation → Rotation
  | .rot0 => .rot1
  | .rot1 => .rot2
  | .rot2 => .rot3
  | .rot3 => .rot0

/-- `(rot + 3) % 4` -/
def Rotation.counterClockwise : Rotation → Rotation
  | .rot0 => .rot3
  | .rot1 => .rot0
  | .rot2 => .rot1
  | .rot3 => .rot2

structure Piece where
  type : ℕ
  rot : Rotation
  x : ℤ
  y : ℤ
  deriving DecidableEq, Repr

inductive TargetingMode
  | manual
  | random
  | ko
  deriving DecidableEq, Repr

structure GameState where
  board : Board
  current : Piece
  targetMode : TargetingMode
  playerId : ℕ
  targetPlayerId : ℕ
  gravityTimer : ℤ
  lockTimer : ℤ
  heldType : ℕ
  hasHeld : Bool
  bag : List ℕ
  bagIndex : ℕ
  piecesPlaced : ℤ
  tetrises : ℤ
  tSpins : ℤ
  lastActionRotation : Bool
  pendingGarbage : ℕ
  outgoingGarbage : ℕ
  lastAttackerId : ℕ
  score : ℤ
  linesCleared : ℤ
  combo : ℤ
  b2b : Bool
  level : ℤ
  gameOver : Bool
  winnerId : ℕ

/-- Conversion of an `int` to `uint32_t`. -/
def toU32 (z : ℤ) : ℕ := (z % 4294967296).toNat

/-- Conversion of a `uint32_t` to `int`. -/
def toI32 (n : ℕ) : ℤ := if n < 2147483648 then n else (n : ℤ) - 4294967296

theorem toU32_of_nonneg {z : ℤ} (h : 0 ≤ z) (hz : z < 4294967296) : (toU32 z : ℤ) = z := by
  unfold toU32
  omega

theorem toI32_of_lt {n : ℕ} (h : n < 2147483648) : toI32 n = n := if_pos h

end CoreStack.Tetris
