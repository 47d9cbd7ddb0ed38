import CoreStack.Tetris.BoardControl

/-! # The fourteen-slot piece bag (`bag.c`, `state.c`, `hold.c`)

`rand` is unconstrained: every operation that draws takes its own stream of
results, so a statement for all streams is a statement for every outcome.
-/
namespace CoreStack.Tetris

def swapAt (a : List ℕ) (i j : ℕ) : List ℕ := (a.set i (a.getD j 0)).set j (a.getD i 0)

/-- Fisher-Yates from index `i` down to 1, consuming one draw an index. -/
def shuffleLoop (rand : ℕ → ℕ) : ℕ → ℕ → List ℕ → List ℕ
  | _, 0, a => a
  | draw, i + 1, a => shuffleLoop rand (draw + 1) i (swapAt a (i + 1) (rand draw % (i + 2)))

def shuffleArray (rand : ℕ → ℕ) (a : List ℕ) : List ℕ := shuffleLoop rand 0 (a.length - 1) a

def newBag : List ℕ := [1, 2, 3, 4, 5, 6, 7]

def refillBag (rand : ℕ → ℕ) (s : GameState) : GameState :=
  { s with bag := (s.bag.drop 7).take 7 ++ shuffleArray rand newBag, bagIndex := 0 }

def spawnX : ℤ := 3
def spawnY : ℤ := -2

def spawnNewPiece (rand : ℕ → ℕ) (s : GameState) : GameState :=
  let type := s.bag.getD s.bagIndex 0
  let s := { s with bagIndex := s.bagIndex + 1 }
  let s := if s.bagIndex ≥ 7 then refillBag rand s else s
  { s with current := ⟨type,.rot0,spawnX,spawnY⟩, hasHeld := false }

def freshState (rand : ℕ → ℕ) : GameState where
  board := .empty
  current := ⟨0,.rot0,0,0⟩
  targetMode := .manual
  playerId := 0
  targetPlayerId := 0
  gravityTimer := 0
  lockTimer := 0
  heldType := 0
  hasHeld := false
  bag := shuffleArray rand newBag ++ shuffleArray (fun i => rand (i + 6)) newBag
  bagIndex := 0
  piecesPlaced := 0
  tetrises := 0
  tSpins := 0
  lastActionRotation := false
  pendingGarbage := 0
  outgoingGarbage := 0
  lastAttackerId := 0
  score := 0
  linesCleared := 0
  combo := -1
  b2b := false
  level := 1
  gameOver := false
  winnerId := 0

def startGame (rand : ℕ → ℕ) : GameState := spawnNewPiece (fun i => rand (i + 12)) (freshState rand)

/-- One swap per piece; an empty hold slot takes the piece and draws the next one. -/
def holdPiece (rand : ℕ → ℕ) (s : GameState) : GameState :=
  if s.hasHeld then s
  else
    let s :=
      if s.heldType = 0 then spawnNewPiece rand { s with heldType := s.current.type }
      else { s with current := ⟨s.heldType,.rot0,spawnX,spawnY⟩, heldType := s.current.type }
    { s with hasHeld := true }

end CoreStack.Tetris
