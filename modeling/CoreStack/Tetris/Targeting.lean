import CoreStack.Tetris.Engine

/-! # Choosing a victim inside one lobby (`targeting.c`) -/
namespace CoreStack.Tetris

structure RosterEntry where
  id : ℕ
  eliminated : Bool
  deriving DecidableEq, Repr

/-- The first `count` entries of the two parallel arrays. -/
abbrev Roster := List RosterEntry

def TargetingMode.next : TargetingMode → TargetingMode
  | .manual => .random
  | .random => .ko
  | .ko => .manual

def cycleTargetMode (s : GameState) : GameState := { s with targetMode := s.targetMode.next }

/-- Someone else who is still in the game. -/
def RosterEntry.opponentOf (e : RosterEntry) (playerId : ℕ) : Bool :=
  e.id != playerId && !e.eliminated

/-- Indices in the order they are tried, starting after the locked target. -/
def cycleOrder (r : Roster) (target : ℕ) : List ℕ :=
  let current : ℤ := match r.findIdx? (·.id == target) with
    | some i => i
    | none => -1
  (List.range r.length).map fun k => ((current + ((k + 1 + r.length : ℕ) : ℤ)) % r.length).toNat

def cycleManualTarget (s : GameState) (r : Roster) : GameState :=
  if r.length ≤ 1 then s
  else
    match ((cycleOrder r s.targetPlayerId).filterMap (r[·]?)).find? (·.opponentOf s.playerId) with
    | some e => { s with targetPlayerId := e.id }
    | none => s

def resolveTargetId (draw : ℕ) (s : GameState) (r : Roster) : ℕ :=
  match s.targetMode with
  | .random =>
    let candidates := (r.filter (·.opponentOf s.playerId)).map (·.id)
    if candidates.length = 0 then s.targetPlayerId
    else candidates.getD (draw % candidates.length) 0
  | .ko =>
    if s.lastAttackerId ≠ 0 ∧ s.lastAttackerId ≠ s.playerId ∧
        r.any (fun e => e.id == s.lastAttackerId && !e.eliminated) then s.lastAttackerId
    else s.targetPlayerId
  | .manual => s.targetPlayerId

end CoreStack.Tetris
