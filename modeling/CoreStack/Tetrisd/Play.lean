import CoreStack.Tetrisd.Game
import CoreStack.Tetris.Carry
import CoreStack.Lib.Execution

/-! # One player's game as a machine

A move is one call that writes a `GameState`: `apply_action`, `update_timers`,
`queue_garbage`, or one of the fields the room writes itself. Beside the state a
play keeps two records no call reads: the types `spawn_new_piece` has put into play so
far, and whether the last change of the current piece since then was a rotation.
-/
namespace CoreStack.Tetrisd
open Tetris

inductive Move
  | action (rand : ℕ → ℕ) (roster : Roster) (action : PlayerAction)
  | timers (rand : ℕ → ℕ)
  | queue (lines : ℤ)
  | attacker (playerId : ℕ)
  | drain
  | finish (winnerId : ℕ)

/-- `apply_action` passes by a player who is out. -/
def act (rand : ℕ → ℕ) (roster : Roster) (action : PlayerAction) (s : GameState) : GameState :=
  if s.gameOver then s else performAction rand roster s action

def Move.apply (s : GameState) : Move → GameState
  | .action rand roster a => act rand roster a s
  | .timers rand => (updateTimers rand s).1
  | .queue lines => queueGarbage s lines
  | .attacker playerId => { s with lastAttackerId := playerId }
  | .drain => { s with outgoingGarbage := 0 }
  | .finish winnerId => { s with gameOver := true, winnerId := winnerId }

/-- The state a move calls `tick_game` on, with the random stream of the call. -/
def Move.tick (s : GameState) : Move → Option ((ℕ → ℕ) × GameState)
  | .action rand _ .hardDrop => if s.gameOver then none else some (rand,hardDrop s)
  | .timers rand =>
    if canFall s then
      if s.gravityTimer + 1 ≥ currentGravity s then
        some (rand,{ s with lockTimer := 0, gravityTimer := s.gravityTimer + 1 })
      else none
    else if s.lockTimer + 1 ≥ lockThresholdStart then some (rand,{ s with lockTimer := s.lockTimer + 1 })
    else none
  | _ => none

/-- The state a move calls `spawn_new_piece` on, with the random stream of the call. -/
def Move.spawn (s : GameState) (m : Move) : Option ((ℕ → ℕ) × GameState) :=
  match m with
  | .action rand _ .hold =>
    if s.gameOver || s.hasHeld || s.heldType != 0 then none else some (rand,{ s with heldType := s.current.type })
  | m =>
    (m.tick s).bind fun t => if locks t.2 then some (afterGarbage t.1,settled t.1 t.2) else none

/-- The type a call of `spawn_new_piece` puts into play. -/
def spawnedType (call : (ℕ → ℕ) × GameState) : ℕ := (spawnNewPiece call.1 call.2).current.type

/-- The type the next `spawn_new_piece` reads from the bag. -/
def nextType (s : GameState) : ℕ := s.bag.getD s.bagIndex 0

/-- A successful shift or fall, or a new piece, ends what a successful rotation began. -/
def Move.turned (s : GameState) (turned : Bool) : Move → Bool
  | .action _ _ a =>
    if s.gameOver then turned
    else match a with
      | .moveLeft => turned && !(moveLeft s).2
      | .moveRight => turned && !(moveRight s).2
      | .softDrop => turned && !(softDrop s).2
      | .rotateCW => turned || (testRotate s s.current.rot.clockwise).2
      | .rotateCCW => turned || (testRotate s s.current.rot.counterClockwise).2
      | .hardDrop => turned && !canFall s && !locks (hardDrop s)
      | .hold => turned && s.hasHeld
      | _ => turned
  | .timers rand => turned && (((Move.timers rand).tick s).all fun t => !canFall t.2 && !locks t.2)
  | _ => turned

structure Play where
  state : GameState
  drawn : List ℕ
  turned : Bool

/-- `init_session` names the player and its first target after `start_game`. -/
def Play.start (rand : ℕ → ℕ) (playerId target : ℕ) : Play where
  state := { startGame rand with playerId := playerId, targetPlayerId := target }
  drawn := [(startGame rand).current.type]
  turned := false

def Play.step (p : Play) (m : Move) : Option Play :=
  some ⟨m.apply p.state,p.drawn ++ (m.spawn p.state).toList.map spawnedType,m.turned p.state p.turned⟩

/-! ## What a move can do -/

theorem Move.tick_carries {s u : GameState} {m : Move} {rand : ℕ → ℕ} (h : m.tick s = some (rand,u)) :
    Carries s u := by
  unfold Move.tick at h
  split at h
  · split at h
    · cases h
    · cases h
      exact hardDrop_carries s
  · split at h
    · split at h
      · cases h
        exact .of_eq rfl rfl rfl rfl rfl rfl
      · cases h
    · split at h
      · cases h
        exact .of_eq rfl rfl rfl rfl rfl rfl
      · cases h
  · cases h

theorem Move.apply_tick {s u : GameState} {m : Move} {rand : ℕ → ℕ} (h : m.tick s = some (rand,u)) :
    ∃ g l, m.apply s = (tickGame rand u).1.setTimers g l := by
  unfold Move.tick at h
  split at h
  · split at h
    · cases h
    · rename_i ho
      cases h
      refine ⟨0,0,?_⟩
      simp only [Move.apply,act,if_neg ho]
      rfl
  · split at h
    · rename_i hc
      split at h
      · rename_i hg
        cases h
        refine ⟨0,(tickGame rand { s with lockTimer := 0, gravityTimer := s.gravityTimer + 1 }).1.lockTimer,?_⟩
        simp only [Move.apply,updateTimers,if_pos hc,if_pos hg]
        rfl
      · cases h
    · rename_i hc
      split at h
      · rename_i hl
        cases h
        refine ⟨0,0,?_⟩
        simp only [Move.apply,updateTimers,if_neg hc,if_pos hl]
        rfl
      · cases h
  · cases h

theorem Move.apply_hold (rand : ℕ → ℕ) (roster : Roster) {s : GameState} (ho : s.gameOver = false)
    (hh : s.hasHeld = false) :
    ∃ l, (Move.action rand roster .hold).apply s = (holdPiece rand s).setTimers 0 l := by
  refine ⟨(holdPiece rand s).lockTimer,?_⟩
  simp only [Move.apply,act,performAction,ho,hh,Bool.false_eq_true,↓reduceIte]
  rfl

/-- A move carries the piece, locks it or puts it into the hold slot. -/
inductive Move.Turn (s : GameState) (m : Move) : Prop
  | carried (hs : m.spawn s = none) (hc : Carries s (m.apply s))
  | locked {rand : ℕ → ℕ} {u : GameState} (ht : m.tick s = some (rand,u)) (hu : Carries s u) (hl : locks u = true)
      (hs : m.spawn s = some (afterGarbage rand,settled rand u))
      (he : ∃ g l, m.apply s = (tickGame rand u).1.setTimers g l)
  | held {rand : ℕ → ℕ} {roster : Roster} (hm : m = .action rand roster .hold) (ho : s.gameOver = false)
      (hh : s.hasHeld = false) (he : ∃ l, m.apply s = (holdPiece rand s).setTimers 0 l)

theorem Move.turn_of_tick {s u : GameState} {m : Move} {rand : ℕ → ℕ} (h : m.tick s = some (rand,u))
    (hs : m.spawn s = (m.tick s).bind fun t => if locks t.2 then some (afterGarbage t.1,settled t.1 t.2) else none) :
    m.Turn s := by
  have hu := Move.tick_carries h
  obtain ⟨g,l,he⟩ := Move.apply_tick h
  rw [h] at hs
  cases hl : locks u with
  | true => exact .locked h hu hl (by simpa [hl] using hs) ⟨g,l,he⟩
  | false =>
    refine .carried (by simpa [hl] using hs) ?_
    rw [he]
    exact hu.trans ((tickGame_carries rand hl).trans (setTimers_carries _ g l))

theorem timers_carries {s : GameState} {rand : ℕ → ℕ} (h : (Move.timers rand).tick s = none) :
    Carries s (updateTimers rand s).1 := by
  simp only [Move.tick] at h
  unfold updateTimers
  dsimp only
  split at h
  · rename_i hc
    split at h
    · cases h
    · rename_i hg
      rw [if_pos hc,if_neg hg]
      exact .of_eq rfl rfl rfl rfl rfl rfl
  · rename_i hc
    split at h
    · cases h
    · rename_i hl
      rw [if_neg hc,if_neg hl]
      exact .of_eq rfl rfl rfl rfl rfl rfl

theorem carries_reset {s : GameState} {r : GameState × Bool} (h : Carries s r.1) :
    Carries s (if r.2 then { r.1 with lockTimer := 0 } else r.1) := by
  split
  · exact h.trans (.of_eq rfl rfl rfl rfl rfl rfl)
  · exact h

theorem performAction_turn {s : GameState} (rand : ℕ → ℕ) (roster : Roster) (a : PlayerAction)
    (ho : s.gameOver = false) : (Move.action rand roster a).Turn s := by
  have happly : (Move.action rand roster a).apply s = performAction rand roster s a := by
    simp [Move.apply,act,ho]
  have hcarried : (Move.action rand roster a).spawn s = none → Carries s (performAction rand roster s a) →
      (Move.action rand roster a).Turn s := fun hs hc => .carried hs (by rw [happly]; exact hc)
  cases a with
  | none => exact hcarried rfl (.refl s)
  | moveLeft => exact hcarried rfl (carries_reset (moveLeft_carries s))
  | moveRight => exact hcarried rfl (carries_reset (moveRight_carries s))
  | softDrop => exact hcarried rfl (carries_reset (softDrop_carries s))
  | rotateCW => exact hcarried rfl ((testRotate_carries s _).trans (.of_eq rfl rfl rfl rfl rfl rfl))
  | rotateCCW => exact hcarried rfl ((testRotate_carries s _).trans (.of_eq rfl rfl rfl rfl rfl rfl))
  | hardDrop =>
    have ht : (Move.action rand roster .hardDrop).tick s = some (rand,Tetris.hardDrop s) := by
      simp [Move.tick,ho]
    exact Move.turn_of_tick ht rfl
  | hold =>
    cases hh : s.hasHeld with
    | true =>
      refine hcarried (by simp [Move.spawn,hh]) ?_
      simp only [performAction,hh,↓reduceIte]
      exact .refl s
    | false => exact .held rfl ho hh (Move.apply_hold rand roster ho hh)
  | cycleTargetMode => exact hcarried rfl (.of_eq rfl rfl rfl rfl rfl rfl)
  | cycleTarget => exact hcarried rfl (cycleManualTarget_carries s roster)
  | quit => exact hcarried rfl ⟨rfl,rfl,.inl rfl,rfl,rfl,rfl,fun _ => rfl⟩

theorem act_turn (s : GameState) (rand : ℕ → ℕ) (roster : Roster) (a : PlayerAction) :
    (Move.action rand roster a).Turn s := by
  cases ho : s.gameOver with
  | false => exact performAction_turn rand roster a ho
  | true =>
    have happly : (Move.action rand roster a).apply s = s := by simp [Move.apply,act,ho]
    refine .carried ?_ (by rw [happly]; exact .refl s)
    cases a <;> simp [Move.spawn,Move.tick,ho]

theorem Move.turn (s : GameState) (m : Move) : m.Turn s := by
  cases m with
  | action rand roster a => exact act_turn s rand roster a
  | timers rand =>
    cases h : (Move.timers rand).tick s with
    | some t => exact Move.turn_of_tick h rfl
    | none => exact .carried (by simp [Move.spawn,h]) (timers_carries h)
  | queue lines => exact .carried rfl (queueGarbage_carries s lines)
  | attacker playerId => exact .carried rfl (.of_eq rfl rfl rfl rfl rfl rfl)
  | drain => exact .carried rfl (.of_eq rfl rfl rfl rfl rfl rfl)
  | finish winnerId => exact .carried rfl ⟨rfl,rfl,.inl rfl,rfl,rfl,rfl,fun _ => rfl⟩

end CoreStack.Tetrisd
