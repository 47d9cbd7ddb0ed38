import CoreStack.Tetris.Meters

/-! # Whose board it is

No call of the game writes the player of a board or the winner; only the target key moves
the target, and only to a player of the roster.
-/
namespace CoreStack.Tetris

/-- The player, the target and the winner a state names. -/
def GameState.names (s : GameState) : ℕ × ℕ × ℕ := (s.playerId,s.targetPlayerId,s.winnerId)

theorem testRotate_names (s : GameState) (r : Rotation) : (testRotate s r).1.names = s.names := by
  unfold testRotate
  dsimp only
  split <;> rfl

theorem moveLeft_names (s : GameState) : (moveLeft s).1.names = s.names := by
  unfold moveLeft
  split <;> rfl

theorem moveRight_names (s : GameState) : (moveRight s).1.names = s.names := by
  unfold moveRight
  split <;> rfl

theorem softDrop_names (s : GameState) : (softDrop s).1.names = s.names := by
  unfold softDrop
  split <;> rfl

theorem hardDropLoop_names (fuel : ℕ) (s : GameState) : (hardDropLoop fuel s).names = s.names := by
  induction fuel generalizing s with
  | zero => rfl
  | succ fuel ih =>
    unfold hardDropLoop
    split
    · exact ih _
    · rfl

theorem spawnNewPiece_names (rand : ℕ → ℕ) (s : GameState) : (spawnNewPiece rand s).names = s.names := by
  unfold spawnNewPiece
  dsimp only
  split <;> rfl

theorem holdPiece_names (rand : ℕ → ℕ) (s : GameState) : (holdPiece rand s).names = s.names := by
  unfold holdPiece
  split
  · rfl
  · dsimp only
    split
    · exact spawnNewPiece_names rand { s with heldType := s.current.type }
    · rfl

theorem clearLines_names (s : GameState) : (clearLines s).1.names = s.names := by
  unfold clearLines
  dsimp only
  split <;> rfl

theorem calculateGarbage_names (s : GameState) (n : ℕ) (t : Bool) : (calculateGarbage s n t).1.names = s.names := by
  unfold calculateGarbage
  split <;> rfl

theorem addGarbage_names (rand : ℕ → ℕ) (s : GameState) (lines : ℤ) : (addGarbage rand s lines).names = s.names := by
  unfold addGarbage
  split <;> rfl

theorem queueGarbage_names (s : GameState) (lines : ℤ) : (queueGarbage s lines).names = s.names := by
  unfold queueGarbage
  split <;> rfl

theorem resolveLock_names (s : GameState) : (resolveLock s).state.names = s.names := by
  unfold resolveLock
  dsimp only
  generalize hs1 : (if checkTSpin s = true then { s with tSpins := s.tSpins + 1 } else s : GameState) = s1
  have h1 : s1.names = s.names := by
    rw [← hs1]
    split <;> rfl
  generalize hs2 : ({ lockPiece s1 with piecesPlaced := (lockPiece s1).piecesPlaced + 1 } : GameState) = s2
  have h2 : s2.names = s.names := by
    rw [← h1,← hs2]
    rfl
  have hc := clearLines_names s2
  generalize clearLines s2 = r at hc
  generalize hs3 : (if r.2 = 4 then { r.1 with tetrises := r.1.tetrises + 1 } else r.1 : GameState) = s3
  have h3 : s3.names = s.names := by
    rw [← h2,← hc,← hs3]
    split <;> rfl
  exact (calculateGarbage_names s3 r.2 (checkTSpin s)).trans h3

theorem settleGarbage_names (rand : ℕ → ℕ) (o : LockOutcome) : (settleGarbage rand o).names = o.state.names := by
  unfold settleGarbage
  dsimp only
  split
  · exact addGarbage_names rand { o.state with outgoingGarbage := toU32 o.damage } _
  · rfl

theorem tickGame_names (rand : ℕ → ℕ) (s : GameState) : (tickGame rand s).1.names = s.names := by
  unfold tickGame
  split
  · rfl
  · split
    · rfl
    · dsimp only
      have h := (spawnNewPiece_names (fun i => rand (i + boardHeight)) (settleGarbage rand (resolveLock s))).trans
        ((settleGarbage_names rand (resolveLock s)).trans (resolveLock_names s))
      generalize spawnNewPiece _ _ = t at h
      split <;> exact h

theorem updateTimers_names (rand : ℕ → ℕ) (s : GameState) : (updateTimers rand s).1.names = s.names := by
  unfold updateTimers
  dsimp only
  split <;> split
  · exact tickGame_names rand { s with lockTimer := 0, gravityTimer := s.gravityTimer + 1 }
  · rfl
  · exact tickGame_names rand { s with lockTimer := s.lockTimer + 1 }
  · rfl

theorem startGame_names (rand : ℕ → ℕ) : (startGame rand).names = (0,0,0) :=
  spawnNewPiece_names _ _

theorem cycleManualTarget_names (s : GameState) (r : Roster) :
    (cycleManualTarget s r).names = s.names ∨
      ∃ id ∈ r.map (·.id), (cycleManualTarget s r).names = (s.playerId,id,s.winnerId) := by
  unfold cycleManualTarget
  split
  · exact Or.inl rfl
  · split
    · next e he =>
      obtain ⟨i,-,hi⟩ := List.mem_filterMap.mp (List.mem_of_find?_eq_some he)
      exact Or.inr ⟨e.id,List.mem_map_of_mem (List.mem_of_getElem? hi),rfl⟩
    · exact Or.inl rfl

end CoreStack.Tetris
