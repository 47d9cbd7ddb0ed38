import CoreStack.Tetrisd.Conserve

/-! # Lock-out

`tick_game` ends the game when the box of a resting piece sticks out above the board.
The box of a rotated shape may begin with empty rows, so the piece itself may still
have all its blocks on the board.
-/
namespace CoreStack.Tetrisd
open Tetris Execution

def LockOut (rand : ℕ → ℕ) (s : GameState) : Prop := (tickGame rand s).1 = { s with gameOver := true }

def SticksOut (p : Piece) : Prop := ∃ c ∈ solidCells p.type p.rot, p.y + (c.2 : ℤ) < 0

/-- The empty rows at the top of the rotated box. -/
def emptyTop (type : ℕ) (rot : Rotation) : ℕ :=
  ((List.range 4).takeWhile fun py => (List.range 4).all fun px => !solid type rot px py).length

theorem emptyTop_spec (rot : Rotation) : ∀ t ∈ newBag,
    (∃ c ∈ solidCells t rot, c.2 = emptyTop t rot) ∧ ∀ c ∈ solidCells t rot, emptyTop t rot ≤ c.2 := by
  cases rot <;> decide

theorem sticksOut_iff {p : Piece} (ht : p.type ∈ newBag) : SticksOut p ↔ p.y + emptyTop p.type p.rot < 0 := by
  obtain ⟨⟨d,hd,htop⟩,hleast⟩ := emptyTop_spec p.rot p.type ht
  constructor
  · rintro ⟨c,hc,hy⟩
    have hle := hleast c hc
    omega
  · intro h
    exact ⟨d,hd,by rw [htop]; exact h⟩

/-- A lock brings the next piece to the spawn row, a lock-out leaves this one where it is. -/
theorem lockOut_iff (rand : ℕ → ℕ) {s : GameState} (hc : canFall s = false) : LockOut rand s ↔ s.current.y < 0 := by
  unfold LockOut
  by_cases hy : s.current.y < 0
  · refine ⟨fun _ => hy,fun _ => ?_⟩
    rw [tickGame_stuck rand hc hy]
  · refine ⟨fun h => ?_,fun h => absurd h hy⟩
    have hl : locks s = true := locks_iff.mpr ⟨hc,not_lt.mp hy⟩
    have hspawn : (tickGame rand s).1.current.y = spawnY := by
      rw [tickGame_locked rand hl,blockOut_current,spawnNewPiece_type]
    have hstay : (tickGame rand s).1.current.y = s.current.y := by rw [h]
    have hneg : spawnY < 0 := by decide
    omega

/-- In a game a piece that rests ends it by lock-out exactly when one of its blocks is
above the board, if and only if its box is on the board or its first row with a block
is above it. -/
theorem Play.lockOut_iff_sticksOut (rand : ℕ → ℕ) (playerId target : ℕ) (moves : List Move) (p : Play)
    (hr : run Play.step (Play.start rand playerId target) moves = some p) (draws : ℕ → ℕ)
    (hc : canFall p.state = false) :
    (LockOut draws p.state ↔ SticksOut p.state.current) ↔
      (0 ≤ p.state.current.y ∨ p.state.current.y + emptyTop p.state.current.type p.state.current.rot < 0) := by
  rw [lockOut_iff draws hc,sticksOut_iff (Play.run_grounded hr).typed]
  omega

theorem Play.lockOut_iff_sticksOut_bottom :
    ∃ p, run Play.step (Play.start (fun i => [6, 5, 4, 3, 2, 1].getD i 0) 1 2)
        (List.replicate 20 (.action (fun _ => 0) [] .softDrop)) = some p ∧ canFall p.state = false ∧
      (LockOut (fun _ => 0) p.state ↔ SticksOut p.state.current) := by
  obtain ⟨p,hr,ht⟩ := exists_of_run_any Play.step (Play.start (fun i => [6, 5, 4, 3, 2, 1].getD i 0) 1 2)
    (List.replicate 20 (.action (fun _ => 0) [] .softDrop))
    (fun p : Play => !canFall p.state && decide (0 ≤ p.state.current.y)) (by decide +kernel)
  obtain ⟨hc,hy⟩ := Bool.and_eq_true_iff.mp ht
  have hc : canFall p.state = false := by simpa using hc
  exact ⟨p,hr,hc,(Play.lockOut_iff_sticksOut _ 1 2 _ p hr _ hc).mpr (.inl (of_decide_eq_true hy))⟩

/-- Eighteen garbage rows come up under the first piece. The square that follows rests
on them with all its blocks on the board, and the game is over. -/
theorem Play.square_on_the_board_locked_out :
    ∃ p, run Play.step (Play.start (fun i => [6, 5, 4, 3, 2, 1].getD i 0) 1 2)
        (.queue 18 :: [PlayerAction.moveLeft, .moveLeft, .moveLeft, .hardDrop, .softDrop].map
          (.action (fun _ => 0) [])) = some p ∧
      p.state.current = ⟨2,.rot0,3,-1⟩ ∧ p.state.gameOver = false ∧ legal p.state = true ∧ canFall p.state = false ∧
      LockOut (fun _ => 0) p.state ∧ ¬SticksOut p.state.current := by
  obtain ⟨p,hr,ht⟩ := exists_of_run_any Play.step (Play.start (fun i => [6, 5, 4, 3, 2, 1].getD i 0) 1 2)
    (.queue 18 :: [PlayerAction.moveLeft, .moveLeft, .moveLeft, .hardDrop, .softDrop].map
      (.action (fun _ => 0) []))
    (fun p : Play => p.state.current == ⟨2,.rot0,3,-1⟩ && !p.state.gameOver && legal p.state && !canFall p.state)
    (by decide +kernel)
  simp only [Bool.and_eq_true,beq_iff_eq,Bool.not_eq_true'] at ht
  obtain ⟨⟨⟨hcur,ho⟩,hl⟩,hc⟩ := ht
  refine ⟨p,hr,hcur,ho,hl,hc,?_,?_⟩
  · rw [lockOut_iff _ hc,hcur]
    decide
  · rw [hcur]
    unfold SticksOut
    decide

end CoreStack.Tetrisd
