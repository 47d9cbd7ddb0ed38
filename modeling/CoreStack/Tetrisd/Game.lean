import CoreStack.Tetris.Targeting

/-! # The authoritative session of one room (`game.c`)

A session holds `count` slots; `init_session` fills one slot a client. Every
operation that may lock a piece comes with the damage its lock leaves over.
-/
namespace CoreStack.Tetrisd
open Tetris

inductive PlayerAction
  | none
  | moveLeft
  | moveRight
  | rotateCW
  | rotateCCW
  | softDrop
  | hardDrop
  | hold
  | cycleTargetMode
  | cycleTarget
  | quit
  deriving DecidableEq, Repr

structure PlayerSlot where
  state : GameState
  playerId : ℕ
  active : Bool
  dirty : Bool
  elimReported : Bool
  idleTicks : ℕ

structure GameSession where
  players : List PlayerSlot
  roster : Roster

def initSlot (rand : ℕ → ℕ) (ids : List ℕ) (id : ℕ) : PlayerSlot where
  state := { startGame rand with
    playerId := id
    targetPlayerId := (ids.find? (· != id)).getD 0
    lastAttackerId := 0 }
  playerId := id
  active := true
  dirty := true
  elimReported := false
  idleTicks := 0

/-- Slot `i` starts its game on the stream `rand i`. -/
def initSession (rand : ℕ → ℕ → ℕ) (clientIds : List ℕ) : GameSession where
  players := clientIds.mapIdx fun i id => initSlot (rand i) clientIds id
  roster := clientIds.map fun id => ⟨id,false⟩

def PlayerSlot.hasId (p : PlayerSlot) (playerId : ℕ) : Bool := p.active && p.playerId == playerId

/-- The index of the first active slot with this id. -/
def findPlayer (session : GameSession) (playerId : ℕ) : Option ℕ :=
  session.players.findIdx? (·.hasId playerId)

/-- The slot a pointer stands for, with its index. -/
def GameSession.slotAt (session : GameSession) (slot : Option ℕ) : Option (ℕ × PlayerSlot) :=
  slot.bind fun i => session.players[i]?.map (i,·)

def GameSession.setSlot (session : GameSession) (i : ℕ) (p : PlayerSlot) : GameSession :=
  { session with players := session.players.set i p }

def Roster.eliminate (r : Roster) (playerId : ℕ) : Roster :=
  r.map fun e => if e.id = playerId then { e with eliminated := true } else e

/-- The body of `apply_action` on the board of the acting player. -/
def performAction (rand : ℕ → ℕ) (roster : Roster) (s : GameState) : PlayerAction → GameState
  | .none => s
  | .moveLeft => let r := Tetris.moveLeft s; if r.2 then { r.1 with lockTimer := 0 } else r.1
  | .moveRight => let r := Tetris.moveRight s; if r.2 then { r.1 with lockTimer := 0 } else r.1
  | .rotateCW => { rotateCurrentPiece s with lockTimer := 0 }
  | .rotateCCW => { rotateCounterClockwise s with lockTimer := 0 }
  | .softDrop => let r := Tetris.softDrop s; if r.2 then { r.1 with lockTimer := 0 } else r.1
  | .hardDrop => { (tickGame rand (Tetris.hardDrop s)).1 with gravityTimer := 0, lockTimer := 0 }
  | .hold => if s.hasHeld then s else { holdPiece rand s with gravityTimer := 0 }
  | .cycleTargetMode => Tetris.cycleTargetMode s
  | .cycleTarget => cycleManualTarget s roster
  | .quit => { s with gameOver := true }

/-- A dead or unknown player: `apply_action` and `tick_session` pass it by. -/
def PlayerSlot.out (p : PlayerSlot) : Bool := !p.active || p.state.gameOver

def applyToSlot (rand : ℕ → ℕ) (roster : Roster) (action : PlayerAction) (p : PlayerSlot) : PlayerSlot :=
  if p.out then p
  else if action = .none then p
  else { p with
    state := performAction rand roster p.state action
    active := action != .quit
    dirty := true }

def applyAction (rand : ℕ → ℕ) (session : GameSession) (slot : Option ℕ) (action : PlayerAction) :
    GameSession :=
  match session.slotAt slot with
  | none => session
  | some (i,p) =>
    { session.setSlot i (applyToSlot rand session.roster action p) with
      roster := if p.out = false ∧ action = .quit then Roster.eliminate session.roster p.playerId
        else session.roster }

/-- The lock `apply_action` performs on this slot, if any. -/
def actionLock (action : PlayerAction) (p : PlayerSlot) : Option ℤ :=
  if p.out then none
  else if action = .hardDrop then tickLock (Tetris.hardDrop p.state)
  else none

def tickSlot (rand : ℕ → ℕ) (p : PlayerSlot) : PlayerSlot :=
  if p.out then p
  else
    let r := updateTimers rand p.state
    { p with state := r.1, dirty := p.dirty || r.2 || r.1.gameOver }

/-- The lock `tick_session` performs on this slot, if any. -/
def slotLock (p : PlayerSlot) : Option ℤ := if p.out then none else timersLock p.state

/-- Slot `i` ticks on the stream `rand i`; whoever topped out leaves the roster. -/
def tickSession (rand : ℕ → ℕ → ℕ) (session : GameSession) : GameSession where
  players := session.players.mapIdx fun i p => tickSlot (rand i) p
  roster := (session.players.zipIdx.filter fun q =>
    !q.1.out && (tickSlot (rand q.2) q.1).state.gameOver).foldl
      (fun r q => Roster.eliminate r q.1.playerId) session.roster

end CoreStack.Tetrisd
