import CoreStack.Tetris.Garbage

/-! # Gravity, locking and movement (`engine.c`, `movement.c`) -/
namespace CoreStack.Tetris

def cornerOffsets : List (ℤ × ℤ) := [(-1,-1), (1,-1), (-1,1), (1,1)]

/-- A corner counts when it lies outside the board or on a filled cell. -/
def cornerBlocked (b : Board) (x y : ℤ) : Bool :=
  (x < 0 || x ≥ boardWidth || y ≥ boardHeight || y < 0) || b.read y x != 0

def checkTSpin (s : GameState) : Bool :=
  if s.current.type ≠ 3 || !s.lastActionRotation then false
  else
    let cx := s.current.x + 1
    let cy := s.current.y + 1
    (cornerOffsets.countP fun o => cornerBlocked s.board (cx + o.1) (cy + o.2)) ≥ 3

/-- Damage and incoming garbage cancel; the pair is what is left of both. -/
def cancelGarbage (damage : ℤ) (pending : ℕ) : ℤ × ℕ :=
  if damage > 0 ∧ pending > 0 then
    if damage ≥ toI32 pending then (damage - toI32 pending, 0)
    else (0, toU32 (pending - damage))
  else (damage,pending)

structure LockOutcome where
  state : GameState
  cleared : ℕ
  damage : ℤ

/-- The part of `tick_game` from the T-spin test to the cancellation. -/
def resolveLock (s : GameState) : LockOutcome :=
  let tspin := checkTSpin s
  let s := if tspin then { s with tSpins := s.tSpins + 1 } else s
  let s := lockPiece s
  let s := { s with piecesPlaced := s.piecesPlaced + 1 }
  let r := clearLines s
  let s := if r.2 = 4 then { r.1 with tetrises := r.1.tetrises + 1 } else r.1
  let g := calculateGarbage s r.2 tspin
  let c := cancelGarbage g.2 g.1.pendingGarbage
  ⟨{ g.1 with pendingGarbage := c.2 },r.2,c.1⟩

/-- The damage left is published and uncancelled garbage enters on a plain lock. -/
def settleGarbage (rand : ℕ → ℕ) (o : LockOutcome) : GameState :=
  let s := { o.state with outgoingGarbage := toU32 o.damage }
  if o.cleared = 0 ∧ s.pendingGarbage > 0 then
    { addGarbage rand s (toI32 s.pendingGarbage) with pendingGarbage := 0 }
  else s

/-- Garbage rows draw from the front of the stream, the spawn after them. -/
def tickGame (rand : ℕ → ℕ) (s : GameState) : GameState × ℕ :=
  if canFall s then ({ s with current := { s.current with y := s.current.y + 1 } }, 0)
  else if s.current.y < 0 then ({ s with gameOver := true }, 0)
  else
    let o := resolveLock s
    let s := spawnNewPiece (fun i => rand (i + boardHeight)) (settleGarbage rand o)
    let fits := isValidPos s.board s.current.type s.current.rot s.current.x s.current.y
    (if fits then s else { s with gameOver := true }, o.cleared)

/-- The damage left by the lock `tick_game` performs, if it performs one. -/
def tickLock (s : GameState) : Option ℤ :=
  if canFall s then none
  else if s.current.y < 0 then none
  else some (resolveLock s).damage

def gravityThresholdStart : ℤ := 50
def lockThresholdStart : ℤ := 50

def currentGravity (s : GameState) : ℤ :=
  let g := gravityThresholdStart - (s.level - 1) * 5
  if g < 5 then 5 else g

/-- `update_timers` calls `tick_game` on the state with its timers advanced. -/
def updateTimers (rand : ℕ → ℕ) (s : GameState) : GameState × Bool :=
  if canFall s then
    let s' := { s with lockTimer := 0, gravityTimer := s.gravityTimer + 1 }
    if s'.gravityTimer ≥ currentGravity s then
      ({ (tickGame rand s').1 with gravityTimer := 0 }, true)
    else (s',false)
  else
    let s' := { s with lockTimer := s.lockTimer + 1 }
    if s'.lockTimer ≥ lockThresholdStart then
      ({ (tickGame rand s').1 with lockTimer := 0, gravityTimer := 0 }, true)
    else (s',false)

/-- The lock `update_timers` performs, if any: a resting piece whose delay ran out. -/
def timersLock (s : GameState) : Option ℤ :=
  if !canFall s ∧ s.lockTimer + 1 ≥ lockThresholdStart then
    tickLock { s with lockTimer := s.lockTimer + 1 }
  else none

def moveLeft (s : GameState) : GameState × Bool :=
  if isValidPos s.board s.current.type s.current.rot (s.current.x - 1) s.current.y then
    ({ s with current := { s.current with x := s.current.x - 1 }, lastActionRotation := false }, true)
  else (s,false)

def moveRight (s : GameState) : GameState × Bool :=
  if isValidPos s.board s.current.type s.current.rot (s.current.x + 1) s.current.y then
    ({ s with current := { s.current with x := s.current.x + 1 }, lastActionRotation := false }, true)
  else (s,false)

def softDrop (s : GameState) : GameState × Bool :=
  if canFall s then
    ({ s with current := { s.current with y := s.current.y + 1 }, lastActionRotation := false }, true)
  else (s,false)

def hardDropLoop : ℕ → GameState → GameState
  | 0, s => s
  | fuel + 1, s =>
    if canFall s then hardDropLoop fuel { s with current := { s.current with y := s.current.y + 1 } }
    else s

/-- A valid piece is above the bottom row, so it falls at most this many rows. -/
def hardDrop (s : GameState) : GameState := hardDropLoop (boardHeight - s.current.y).toNat s

end CoreStack.Tetris
