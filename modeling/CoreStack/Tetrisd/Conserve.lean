import CoreStack.Tetrisd.Legal
import CoreStack.Tetris.Lines

/-! # Blocks are conserved by a lock

`hold_piece` may put a piece into the stack, but only at the spawn row above the
board. A piece that locks has left that row by a checked step, so it stands at a legal
position and covers four empty cells.
-/
namespace CoreStack.Tetrisd
open Tetris Execution

/-- The current piece is a real one, and it is legal as soon as it has left the spawn row. -/
structure Grounded (s : GameState) : Prop where
  typed : s.current.type ∈ newBag
  held : s.heldType = 0 ∨ s.heldType ∈ newBag
  placed : s.current.y = spawnY ∨ legal s = true

theorem Grounded.carried {s t : GameState} (hs : Grounded s) (h : Carries s t) : Grounded t where
  typed := by rw [h.type]; exact hs.typed
  held := by rw [h.heldType]; exact hs.held
  placed := by
    rcases h.placed with hc | hl
    · rcases hs.placed with hy | hl
      · exact .inl (by rw [hc]; exact hy)
      · exact .inr (by rw [legal_congr h.board hc]; exact hl)
    · exact .inr hl

theorem Grounded.legal_of_locks {s : GameState} (hs : Grounded s) (h : locks s = true) : legal s = true := by
  have hy : 0 ≤ s.current.y := of_decide_eq_true (Bool.and_eq_true_iff.mp h).2
  rcases hs.placed with hp | hl
  · rw [hp] at hy
    exact absurd hy (by decide)
  · exact hl

theorem holdPiece_heldType (rand : ℕ → ℕ) {s : GameState} (h : s.hasHeld = false) :
    (holdPiece rand s).heldType = s.current.type := by
  by_cases h0 : s.heldType = 0
  · simp [holdPiece,h,h0,spawnNewPiece_heldType]
  · simp [holdPiece,h,h0]

theorem Grounded.brought_mem {p : Play} (hd : p.Drawing) (hs : Grounded p.state) : broughtIn p.state ∈ newBag := by
  unfold broughtIn
  split
  · exact hd.nextType_mem
  · exact hs.held.resolve_left ‹_›

theorem grounded_spawned {s : GameState} {t : ℕ} (ht : t ∈ newBag) (hc : s.current = ⟨t,.rot0,spawnX,spawnY⟩)
    (hh : s.heldType = 0 ∨ s.heldType ∈ newBag) : Grounded s :=
  ⟨by rw [hc]; exact ht,hh,.inl (by rw [hc])⟩

theorem Play.step_grounded {p q : Play} {m : Move} (hd : p.Drawing) (hs : Grounded p.state)
    (h : p.step m = some q) : Grounded q.state := by
  cases h
  cases m.turn p.state with
  | carried _ hc => exact hs.carried hc
  | @locked rand u _ hu hl _ he =>
    obtain ⟨g,l,he⟩ := he
    have hh := settled_hand rand u
    simp only [GameState.hand,Prod.mk.injEq] at hh
    have hn : nextType (settled rand u) = nextType p.state := by
      unfold nextType
      rw [hh.2.1,hh.2.2.1,hu.bag,hu.bagIndex]
    dsimp only
    rw [he,tickGame_locked rand hl]
    refine grounded_spawned hd.nextType_mem ?_ ?_
    · rw [setTimers_current,blockOut_current,spawnNewPiece_type,← hn]
      rfl
    · rw [setTimers_heldType,blockOut_heldType,spawnNewPiece_heldType,hh.2.2.2.1,hu.heldType]
      exact hs.held
  | @held rand roster hm ho hh he =>
    obtain ⟨l,he⟩ := he
    dsimp only
    rw [he]
    refine grounded_spawned (Grounded.brought_mem hd hs) ?_ ?_
    · rw [setTimers_current,holdPiece_current rand hh]
    · rw [setTimers_heldType,holdPiece_heldType rand hh]
      exact .inr hs.typed

theorem Play.start_grounded (rand : ℕ → ℕ) (playerId target : ℕ) :
    Grounded (Play.start rand playerId target).state := by
  refine grounded_spawned (Play.start_type rand playerId target) (Play.start_current rand playerId target) (.inl ?_)
  unfold Play.start
  exact startGame_heldType rand

theorem Play.run_grounded {rand : ℕ → ℕ} {playerId target : ℕ} {moves : List Move} {p : Play}
    (hr : run Play.step (Play.start rand playerId target) moves = some p) : Grounded p.state := by
  have h := run_invariant (I := fun p : Play => p.Drawing ∧ Grounded p.state) ?_ hr
    ⟨Play.start_drawing rand playerId target,Play.start_grounded rand playerId target⟩
  · exact h.2
  · intro p m q hp hq
    exact ⟨Play.step_drawing hp.1 hq,Play.step_grounded hp.1 hp.2 hq⟩

/-- Whatever state `tick_game` locks in a run, it goes on from what the lock leaves and returns
its number of lines; the lock fills four empty cells with the piece's type, and the cleared
lines take ten blocks each while every other row keeps its blocks and its order. -/
theorem Play.lock_conserves (rand : ℕ → ℕ) (playerId target : ℕ) (moves : List Move) (p : Play)
    (hr : run Play.step (Play.start rand playerId target) moves = some p)
    (m : Move) (draws : ℕ → ℕ) (u : GameState) (ht : m.tick p.state = some (draws,u)) (hl : locks u = true) :
    u.board = p.state.board ∧
    tickGame draws u = (blockOut (spawnNewPiece (afterGarbage draws) (settled draws u)),(resolveLock u).cleared) ∧
    (∃ filled : Finset (Fin boardHeight × Fin boardWidth), filled.card = 4 ∧
      (∀ c ∈ filled, u.board.cells c.1 c.2 = 0 ∧ (lockPiece u).board.cells c.1 c.2 = u.current.type) ∧
      ∀ c ∉ filled, (lockPiece u).board.cells c.1 c.2 = u.board.cells c.1 c.2) ∧
    u.current.type ≠ 0 ∧
    (resolveLock u).state.board.rows =
      List.replicate (resolveLock u).cleared emptyRow ++ (lockPiece u).board.rows.filter (!Row.full ·) ∧
    (resolveLock u).state.board.blocks.card + 10 * (resolveLock u).cleared = u.board.blocks.card + 4 := by
  have hu := Move.tick_carries ht
  have hg := (Play.run_grounded hr).carried hu
  have hlegal := hg.legal_of_locks hl
  have hy : 0 ≤ u.current.y := (locks_iff.mp hl).2
  obtain ⟨hb,hc⟩ := resolveLock_board u
  refine ⟨hu.board,tickGame_lock draws hl,⟨u.current.footprint,footprint_card hlegal hy hg.typed,?_,?_⟩,?_,?_,?_⟩
  · intro c hm
    exact ⟨footprint_empty hlegal hm,by rw [lockPiece_cells,if_pos hm]⟩
  · intro c hm
    rw [lockPiece_cells,if_neg hm]
  · have hr := mem_newBag _ hg.typed
    omega
  · rw [hb,hc,(clearLines_rows (lockPiece u)).1,(clearLines_rows (lockPiece u)).2]
    rfl
  · rw [hb,hc,clearLines_blocks,lockPiece_blocks hlegal hy hg.typed]

/-- After a hold and a hard drop the second hard drop locks again. -/
theorem Play.lock_conserves_second_drop :
    ∃ p, run Play.step (Play.start (fun i => 5 * i + 3) 1 2)
        [.action (fun i => i) [] .hold, .action (fun i => i) [] .hardDrop] = some p ∧
      locks (hardDrop p.state) = true ∧
      (resolveLock (hardDrop p.state)).state.board.blocks.card +
        10 * (resolveLock (hardDrop p.state)).cleared = (hardDrop p.state).board.blocks.card + 4 := by
  obtain ⟨p,hr,ht⟩ := exists_of_run_any Play.step (Play.start (fun i => 5 * i + 3) 1 2)
    [.action (fun i => i) [] .hold, .action (fun i => i) [] .hardDrop]
    (fun p : Play => !p.state.gameOver && locks (hardDrop p.state)) (by decide +kernel)
  obtain ⟨ho,hl⟩ := Bool.and_eq_true_iff.mp ht
  have hm : (Move.action (fun i => i) [] .hardDrop).tick p.state = some (fun i => i,hardDrop p.state) := by
    have ho : p.state.gameOver = false := by simpa using ho
    simp [Move.tick,ho]
  exact ⟨p,hr,hl,(Play.lock_conserves _ 1 2 _ p hr _ _ _ hm hl).2.2.2.2.2⟩

end CoreStack.Tetrisd
