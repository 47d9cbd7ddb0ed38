import CoreStack.Tetrisd.Draws

/-! # Where the current piece may stand

`tick_game` checks the piece it spawns and every shift is checked before it is made.
`hold_piece` puts the new piece at the spawn position without looking at the board.
-/
namespace CoreStack.Tetrisd
open Tetris Execution

/-- The type `hold_piece` brings into play. -/
def broughtIn (s : GameState) : ℕ := if s.heldType = 0 then nextType s else s.heldType

/-- A hold that takes place brings in a piece that fits at the spawn position. -/
def holdFits (p : Play) : Move → Bool
  | .action _ _ .hold =>
    p.state.gameOver || p.state.hasHeld ||
      isValidPos p.state.board (broughtIn p.state) .rot0 spawnX spawnY
  | _ => true

/-- The piece stands at a valid position unless the game is over. -/
def Sound (s : GameState) : Prop := s.gameOver = false → legal s = true

theorem holdPiece_current (rand : ℕ → ℕ) {s : GameState} (h : s.hasHeld = false) :
    (holdPiece rand s).current = ⟨broughtIn s,.rot0,spawnX,spawnY⟩ := by
  by_cases h0 : s.heldType = 0
  · simp [holdPiece,h,h0,broughtIn,nextType,spawnNewPiece_type]
  · simp [holdPiece,h,h0,broughtIn]

theorem holdPiece_board (rand : ℕ → ℕ) (s : GameState) : (holdPiece rand s).board = s.board := by
  unfold holdPiece
  split
  · rfl
  · dsimp only
    split
    · exact spawnNewPiece_board rand { s with heldType := s.current.type }
    · rfl

theorem holdPiece_gameOver (rand : ℕ → ℕ) (s : GameState) : (holdPiece rand s).gameOver = s.gameOver := by
  unfold holdPiece
  split
  · rfl
  · dsimp only
    split
    · exact spawnNewPiece_gameOver rand { s with heldType := s.current.type }
    · rfl

/-- After a hold the piece is legal exactly when it fits at the spawn position. -/
theorem hold_legal (rand : ℕ → ℕ) {s : GameState} (h : s.hasHeld = false) :
    legal (holdPiece rand s) = isValidPos s.board (broughtIn s) .rot0 spawnX spawnY := by
  unfold legal
  rw [holdPiece_board,holdPiece_current rand h]

theorem blockOut_sound (s : GameState) : Sound (blockOut s) := by
  intro ho
  unfold blockOut at ho ⊢
  split at ho
  · rename_i hl
    rw [if_pos hl]
    exact hl
  · cases ho

theorem Sound.congr {s t : GameState} (h : Sound s) (hb : t.board = s.board) (hc : t.current = s.current)
    (ho : t.gameOver = s.gameOver) : Sound t := by
  intro hn
  rw [legal_congr hb hc]
  exact h (ho ▸ hn)

theorem Carries.sound {s t : GameState} (h : Carries s t) (hs : Sound s) : Sound t := by
  intro hn
  have ho : s.gameOver = false := by
    cases hg : s.gameOver with
    | false => rfl
    | true => exact (h.ended hg).symm.trans hn
  exact h.legal (hs ho)

theorem Play.step_sound {p q : Play} {m : Move} (hs : Sound p.state) (hg : holdFits p m = true)
    (h : p.step m = some q) : Sound q.state := by
  cases h
  cases m.turn p.state with
  | carried _ hc => exact Carries.sound hc hs
  | @locked rand u _ _ hl _ he =>
    obtain ⟨g,l,he⟩ := he
    dsimp only
    rw [he,tickGame_locked rand hl]
    exact (blockOut_sound _).congr (setTimers_board _ g l) (setTimers_current _ g l) (setTimers_gameOver _ g l)
  | @held rand roster hm ho hh he =>
    obtain ⟨l,he⟩ := he
    subst hm
    intro _
    dsimp only
    rw [he,legal_setTimers,hold_legal rand hh]
    simpa [holdFits,ho,hh] using hg

theorem Play.step_unsound {p q : Play} {m : Move} (hg : holdFits p m = false)
    (h : p.step m = some q) : ¬Sound q.state := by
  cases h
  unfold holdFits at hg
  split at hg
  · rename_i rand roster
    simp only [Bool.or_eq_false_iff] at hg
    obtain ⟨⟨ho,hh⟩,hv⟩ := hg
    obtain ⟨l,he⟩ := Move.apply_hold rand roster ho hh
    intro hs
    dsimp only at hs
    rw [he] at hs
    have hl := hs ((holdPiece_gameOver rand p.state).trans ho)
    rw [legal_setTimers,hold_legal rand hh,hv] at hl
    cases hl
  · cases hg

theorem spawn_fits_empty : ∀ t ∈ newBag, isValidPos .empty t .rot0 spawnX spawnY = true := by decide

theorem Play.start_current (rand : ℕ → ℕ) (playerId target : ℕ) :
    (Play.start rand playerId target).state.current = ⟨nextType (freshState rand),.rot0,spawnX,spawnY⟩ := by
  unfold Play.start
  exact startGame_current rand

theorem Play.start_type (rand : ℕ → ℕ) (playerId target : ℕ) : nextType (freshState rand) ∈ newBag := by
  have hm : nextType (freshState rand) ∈ (Play.start rand playerId target).drawn := List.mem_singleton_self _
  exact (Play.start_drawing rand playerId target).mem _ (List.mem_append_left _ hm)

theorem Play.start_sound (rand : ℕ → ℕ) (playerId target : ℕ) : Sound (Play.start rand playerId target).state := by
  intro _
  have hb : (Play.start rand playerId target).state.board = .empty := by
    unfold Play.start
    exact startGame_board rand
  unfold legal
  rw [hb,Play.start_current]
  dsimp only
  exact spawn_fits_empty _ (Play.start_type rand playerId target)

/-- Along a run the piece of every running game stands at a valid position exactly
when every hold of the run brings in a piece that fits. -/
theorem Play.sound_iff_holds_fit (rand : ℕ → ℕ) (playerId target : ℕ) (moves : List Move) :
    (∀ n p, run Play.step (Play.start rand playerId target) (moves.take n) = some p →
      p.state.gameOver = false →
      isValidPos p.state.board p.state.current.type p.state.current.rot p.state.current.x p.state.current.y = true) ↔
    ∀ n p m q, run Play.step (Play.start rand playerId target) (moves.take n) = some p →
      moves[n]? = some m → p.step m = some q → holdFits p m = true :=
  safe_iff_guard (I := fun _ => True) (P := fun p : Play => Sound p.state) (fun _ _ _ _ _ => trivial)
    (fun _ _ _ _ hs hg h => Play.step_sound hs hg h) (fun _ _ _ _ _ hg h => Play.step_unsound hg h)
    trivial (Play.start_sound rand playerId target) moves

/-- Nineteen garbage rows come up under a hard drop and a hold follows: the piece
taken from the bag stands inside the stack and the game goes on. -/
theorem Play.hold_into_the_stack :
    ∃ p, run Play.step (Play.start (fun i => [6, 5, 4, 3, 2, 0].getD i 0) 1 2)
        [.queue 19, .action (fun _ => 0) [] .hardDrop, .action (fun _ => 0) [] .hold] = some p ∧
      p.state.gameOver = false ∧
      isValidPos p.state.board p.state.current.type p.state.current.rot p.state.current.x p.state.current.y = false := by
  obtain ⟨p,hr,ht⟩ := exists_of_run_any Play.step (Play.start (fun i => [6, 5, 4, 3, 2, 0].getD i 0) 1 2)
    [.queue 19, .action (fun _ => 0) [] .hardDrop, .action (fun _ => 0) [] .hold]
    (fun p : Play => !p.state.gameOver && !legal p.state) (by decide +kernel)
  obtain ⟨ho,hl⟩ := Bool.and_eq_true_iff.mp ht
  exact ⟨p,hr,by simpa using ho,by simpa [legal] using hl⟩

end CoreStack.Tetrisd
