import CoreStack.Tetris.Targeting

/-! # Carrying the current piece

Between two spawns the board, the bag and the held piece stay as they are, and the
current piece moves only to places `is_valid_pos` has accepted. `Carries` says so for
every operation that neither locks nor replaces the piece.
-/
namespace CoreStack.Tetris

def legal (s : GameState) : Bool := isValidPos s.board s.current.type s.current.rot s.current.x s.current.y

structure Carries (s t : GameState) : Prop where
  board : t.board = s.board
  type : t.current.type = s.current.type
  placed : t.current = s.current ∨ legal t = true
  bag : t.bag = s.bag
  bagIndex : t.bagIndex = s.bagIndex
  heldType : t.heldType = s.heldType
  ended : s.gameOver = true → t.gameOver = true

theorem Carries.refl (s : GameState) : Carries s s := ⟨rfl,rfl,.inl rfl,rfl,rfl,rfl,id⟩

theorem legal_congr {s t : GameState} (hb : t.board = s.board) (hc : t.current = s.current) : legal t = legal s := by
  unfold legal
  rw [hb,hc]

theorem Carries.trans {s t u : GameState} (h : Carries s t) (h' : Carries t u) : Carries s u where
  board := h'.board.trans h.board
  type := h'.type.trans h.type
  placed := by
    rcases h'.placed with hc | hl
    · rcases h.placed with hc' | hl
      · exact .inl (hc.trans hc')
      · exact .inr (by rw [legal_congr h'.board hc]; exact hl)
    · exact .inr hl
  bag := h'.bag.trans h.bag
  bagIndex := h'.bagIndex.trans h.bagIndex
  heldType := h'.heldType.trans h.heldType
  ended := fun ho => h'.ended (h.ended ho)

theorem Carries.of_eq {s t : GameState} (hb : t.board = s.board) (hc : t.current = s.current)
    (hbag : t.bag = s.bag) (hi : t.bagIndex = s.bagIndex) (hh : t.heldType = s.heldType)
    (ho : t.gameOver = s.gameOver) : Carries s t :=
  ⟨hb,by rw [hc],.inl hc,hbag,hi,hh,fun h => by rw [ho,h]⟩

theorem Carries.legal {s t : GameState} (h : Carries s t) (hs : legal s = true) : Tetris.legal t = true := by
  rcases h.placed with hc | hl
  · rw [legal_congr h.board hc]
    exact hs
  · exact hl

/-! ## Moves, rotations and drops -/

theorem testRotate_carries (s : GameState) (nextRot : Rotation) : Carries s (testRotate s nextRot).1 := by
  unfold testRotate
  dsimp only
  split
  · rename_i o ho
    have hv := List.find?_some ho
    exact ⟨rfl,rfl,.inr hv,rfl,rfl,rfl,id⟩
  · exact .refl s

theorem moveLeft_carries (s : GameState) : Carries s (moveLeft s).1 := by
  unfold moveLeft
  split
  · rename_i hv
    exact ⟨rfl,rfl,.inr hv,rfl,rfl,rfl,id⟩
  · exact .refl s

theorem moveRight_carries (s : GameState) : Carries s (moveRight s).1 := by
  unfold moveRight
  split
  · rename_i hv
    exact ⟨rfl,rfl,.inr hv,rfl,rfl,rfl,id⟩
  · exact .refl s

theorem fall_carries {s : GameState} (h : canFall s = true) (flag : Bool) :
    Carries s { s with current := { s.current with y := s.current.y + 1 }, lastActionRotation := flag } :=
  ⟨rfl,rfl,.inr h,rfl,rfl,rfl,id⟩

theorem softDrop_carries (s : GameState) : Carries s (softDrop s).1 := by
  unfold softDrop
  split
  · exact fall_carries ‹_› false
  · exact .refl s

theorem hardDropLoop_carries (fuel : ℕ) (s : GameState) : Carries s (hardDropLoop fuel s) := by
  induction fuel generalizing s with
  | zero => exact .refl s
  | succ fuel ih =>
    unfold hardDropLoop
    split
    · exact (fall_carries ‹_› s.lastActionRotation).trans (ih _)
    · exact .refl s

theorem hardDrop_carries (s : GameState) : Carries s (hardDrop s) := hardDropLoop_carries _ s

theorem queueGarbage_carries (s : GameState) (lines : ℤ) : Carries s (queueGarbage s lines) := by
  unfold queueGarbage
  split
  · exact .refl s
  · exact .of_eq rfl rfl rfl rfl rfl rfl

theorem cycleManualTarget_carries (s : GameState) (r : Roster) : Carries s (cycleManualTarget s r) := by
  unfold cycleManualTarget
  split
  · exact .refl s
  · split
    · exact .of_eq rfl rfl rfl rfl rfl rfl
    · exact .refl s

/-- The timers as a call leaves them after its tick. -/
def GameState.setTimers (s : GameState) (gravity lock : ℤ) : GameState :=
  { s with gravityTimer := gravity, lockTimer := lock }

@[simp] theorem setTimers_board (s : GameState) (g l : ℤ) : (s.setTimers g l).board = s.board := rfl
@[simp] theorem setTimers_current (s : GameState) (g l : ℤ) : (s.setTimers g l).current = s.current := rfl
@[simp] theorem setTimers_bag (s : GameState) (g l : ℤ) : (s.setTimers g l).bag = s.bag := rfl
@[simp] theorem setTimers_bagIndex (s : GameState) (g l : ℤ) : (s.setTimers g l).bagIndex = s.bagIndex := rfl
@[simp] theorem setTimers_heldType (s : GameState) (g l : ℤ) : (s.setTimers g l).heldType = s.heldType := rfl
@[simp] theorem setTimers_gameOver (s : GameState) (g l : ℤ) : (s.setTimers g l).gameOver = s.gameOver := rfl
@[simp] theorem setTimers_lastActionRotation (s : GameState) (g l : ℤ) :
    (s.setTimers g l).lastActionRotation = s.lastActionRotation := rfl
@[simp] theorem legal_setTimers (s : GameState) (g l : ℤ) : legal (s.setTimers g l) = legal s := rfl

theorem setTimers_carries (s : GameState) (g l : ℤ) : Carries s (s.setTimers g l) :=
  .of_eq rfl rfl rfl rfl rfl rfl

/-! ## One call of `tick_game` -/

/-- `tick_game` locks the piece: it rests, and not above the board. -/
def locks (s : GameState) : Bool := !canFall s && decide (0 ≤ s.current.y)

theorem locks_iff {s : GameState} : locks s = true ↔ canFall s = false ∧ 0 ≤ s.current.y := by
  simp [locks]

theorem tickGame_carries (rand : ℕ → ℕ) {s : GameState} (h : locks s = false) : Carries s (tickGame rand s).1 := by
  unfold tickGame
  split
  · exact fall_carries ‹_› s.lastActionRotation
  · rename_i hc
    have hy : s.current.y < 0 := by simpa [locks,hc] using h
    rw [if_pos hy]
    exact ⟨rfl,rfl,.inl rfl,rfl,rfl,rfl,fun _ => rfl⟩

def settled (rand : ℕ → ℕ) (s : GameState) : GameState := settleGarbage rand (resolveLock s)

/-- The random stream that is left for `spawn_new_piece` after the garbage of a lock. -/
def afterGarbage (rand : ℕ → ℕ) : ℕ → ℕ := fun i => rand (i + boardHeight)

/-- What a lock leaves alone until the next spawn: the piece, the bag, the held
piece and the two flags. -/
def GameState.hand (s : GameState) : Piece × List ℕ × ℕ × ℕ × Bool × Bool :=
  (s.current,s.bag,s.bagIndex,s.heldType,s.lastActionRotation,s.gameOver)

theorem clearLines_hand (s : GameState) : (clearLines s).1.hand = s.hand := by
  unfold clearLines
  dsimp only
  split <;> rfl

theorem calculateGarbage_hand (s : GameState) (n : ℕ) (t : Bool) : (calculateGarbage s n t).1.hand = s.hand := by
  unfold calculateGarbage
  split <;> rfl

theorem addGarbage_hand (rand : ℕ → ℕ) (s : GameState) (lines : ℤ) : (addGarbage rand s lines).hand = s.hand := by
  unfold addGarbage
  split <;> rfl

theorem resolveLock_hand (s : GameState) : (resolveLock s).state.hand = s.hand := by
  unfold resolveLock
  dsimp only
  generalize ht : (if checkTSpin s = true then { s with tSpins := s.tSpins + 1 } else s : GameState) = s0
  have h0 : s0.hand = s.hand := by
    rw [← ht]
    split <;> rfl
  generalize hs1 : ({ lockPiece s0 with piecesPlaced := (lockPiece s0).piecesPlaced + 1 } : GameState) = s1
  have h1 : s1.hand = s.hand := by rw [← h0,← hs1]; rfl
  have hc := clearLines_hand s1
  generalize clearLines s1 = r at hc
  generalize hs2 : (if r.2 = 4 then { r.1 with tetrises := r.1.tetrises + 1 } else r.1 : GameState) = s2
  have h2 : s2.hand = s.hand := by
    rw [← h1,← hc,← hs2]
    split <;> rfl
  exact (calculateGarbage_hand s2 r.2 (checkTSpin s)).trans h2

theorem settleGarbage_hand (rand : ℕ → ℕ) (o : LockOutcome) : (settleGarbage rand o).hand = o.state.hand := by
  unfold settleGarbage
  dsimp only
  split
  · exact addGarbage_hand rand { o.state with outgoingGarbage := toU32 o.damage } _
  · rfl

theorem settled_hand (rand : ℕ → ℕ) (s : GameState) : (settled rand s).hand = s.hand :=
  (settleGarbage_hand rand (resolveLock s)).trans (resolveLock_hand s)

/-- The block-out check after the spawn. -/
def blockOut (s : GameState) : GameState := if legal s then s else { s with gameOver := true }

/-- A resting piece above the board ends the game and stays where it is. -/
theorem tickGame_stuck (rand : ℕ → ℕ) {s : GameState} (hc : canFall s = false) (hy : s.current.y < 0) :
    tickGame rand s = ({ s with gameOver := true },0) := by
  unfold tickGame
  rw [if_neg (by rw [hc]; decide),if_pos hy]

theorem tickGame_lock (rand : ℕ → ℕ) {s : GameState} (h : locks s = true) :
    tickGame rand s = (blockOut (spawnNewPiece (afterGarbage rand) (settled rand s)),(resolveLock s).cleared) := by
  obtain ⟨hc,hy⟩ := locks_iff.mp h
  unfold tickGame settled afterGarbage
  rw [hc,if_neg (by decide),if_neg (not_lt.mpr hy)]
  dsimp only
  generalize spawnNewPiece _ _ = t
  rfl

theorem tickGame_locked (rand : ℕ → ℕ) {s : GameState} (h : locks s = true) :
    (tickGame rand s).1 = blockOut (spawnNewPiece (afterGarbage rand) (settled rand s)) := by
  rw [tickGame_lock rand h]

@[simp] theorem blockOut_board (s : GameState) : (blockOut s).board = s.board := by
  unfold blockOut
  split <;> rfl

@[simp] theorem blockOut_bag (s : GameState) : (blockOut s).bag = s.bag := by
  unfold blockOut
  split <;> rfl

@[simp] theorem blockOut_current (s : GameState) : (blockOut s).current = s.current := by
  unfold blockOut
  split <;> rfl

@[simp] theorem blockOut_heldType (s : GameState) : (blockOut s).heldType = s.heldType := by
  unfold blockOut
  split <;> rfl

@[simp] theorem blockOut_bagIndex (s : GameState) : (blockOut s).bagIndex = s.bagIndex := by
  unfold blockOut
  split <;> rfl

end CoreStack.Tetris
