import CoreStack.Tetris.InPlace
import CoreStack.Tetrisd.Conserve

/-! # What the cells of a game's board hold

Between two locks every row has an empty cell, and no cell holds more than the value
of garbage. A lock may fill rows; the clearing that follows takes them away, and the
garbage that may come after it has a hole in every row.
-/
namespace CoreStack.Tetrisd
open Tetris Execution

structure TidyRow (r : Row) : Prop where
  values : ∀ x, r x ≤ 8
  gap : Row.full r = false

def TidyBoard (b : Board) : Prop := ∀ y, TidyRow (b.cells y)

theorem tidyRow_empty : TidyRow emptyRow := ⟨fun _ => Nat.zero_le 8,emptyRow_not_full⟩

theorem garbageRow_cells {hole : ℕ} (h : hole < boardWidth) :
    garbageRow hole ⟨hole,h⟩ = 0 ∧ ∀ x, x ≠ ⟨hole,h⟩ → garbageRow hole x = 8 := by
  refine ⟨if_pos rfl,?_⟩
  intro x hx
  exact if_neg fun he => hx (Fin.ext he)

theorem tidyRow_garbage {hole : ℕ} (h : hole < boardWidth) : TidyRow (garbageRow hole) where
  values := by
    intro x
    unfold garbageRow
    split <;> omega
  gap := by
    rw [Row.full,List.all_eq_false]
    exact ⟨⟨hole,h⟩,List.mem_finRange _,by simp [(garbageRow_cells h).1]⟩

theorem Board.forall_rows {b : Board} {P : Row → Prop} : (∀ r ∈ b.rows, P r) ↔ ∀ y, P (b.cells y) :=
  List.forall_mem_ofFn_iff

theorem lockPiece_values {s : GameState} (ht : s.current.type ≤ 8) (h : TidyBoard s.board) (y : Fin boardHeight)
    (x : Fin boardWidth) : (lockPiece s).board.cells y x ≤ 8 := by
  rw [lockPiece_cells s (y,x)]
  split
  · exact ht
  · exact (h y).values x

theorem clearLines_tidy {s : GameState} (h : ∀ y x, s.board.cells y x ≤ 8) : TidyBoard (clearLines s).1.board := by
  refine Board.forall_rows.mp ?_
  intro r hr
  rw [(clearLines_rows s).1] at hr
  rcases List.mem_append.mp hr with hr | hr
  · rw [List.eq_of_mem_replicate hr]
    exact tidyRow_empty
  · obtain ⟨hm,hn⟩ := List.mem_filter.mp hr
    have hv := Board.forall_rows (P := fun r => ∀ x, r x ≤ 8) |>.mpr h
    exact ⟨hv r hm,by simpa using hn⟩

theorem addGarbage_tidy (rand : ℕ → ℕ) {s : GameState} (lines : ℤ) (h : TidyBoard s.board) :
    TidyBoard (addGarbage rand s lines).board := by
  by_cases h0 : 0 < lines
  · obtain ⟨k,hk⟩ : ∃ k : ℕ, (k : ℤ) = min lines boardHeight :=
      ⟨(min lines (boardHeight : ℤ)).toNat,Int.toNat_of_nonneg (le_min h0.le (by decide))⟩
    intro y
    rw [addGarbage_rows rand s h0 hk]
    split
    · exact h _
    · exact tidyRow_garbage (Nat.mod_lt _ (by decide))
  · have he : addGarbage rand s lines = s := if_pos (by omega)
    rw [he]
    exact h

theorem settled_tidy (rand : ℕ → ℕ) {s : GameState} (ht : s.current.type ≤ 8) (h : TidyBoard s.board) :
    TidyBoard (settled rand s).board := by
  have hc : TidyBoard (resolveLock s).state.board := by
    rw [(resolveLock_board s).1]
    exact clearLines_tidy (lockPiece_values ht h)
  unfold settled settleGarbage
  generalize resolveLock s = o at hc ⊢
  dsimp only
  split
  · exact addGarbage_tidy rand _ hc
  · exact hc

/-- The spawn and the block-out check leave the board of a lock alone. -/
theorem tickGame_board_locked (rand : ℕ → ℕ) {s : GameState} (h : locks s = true) :
    (tickGame rand s).1.board = (settled rand s).board := by
  rw [tickGame_locked rand h,blockOut_board,spawnNewPiece_board]

theorem Play.step_tidy {p q : Play} {m : Move} (hg : Grounded p.state) (hp : TidyBoard p.state.board)
    (h : p.step m = some q) : TidyBoard q.state.board := by
  cases h
  cases m.turn p.state with
  | carried _ hc =>
    dsimp only
    rw [hc.board]
    exact hp
  | @locked rand u _ hu hl _ he =>
    obtain ⟨g,l,he⟩ := he
    have ht := mem_newBag _ (hg.carried hu).typed
    dsimp only
    rw [he,setTimers_board,tickGame_board_locked rand hl]
    exact settled_tidy rand (by omega) (hu.board ▸ hp)
  | @held rand roster hm ho hh he =>
    obtain ⟨l,he⟩ := he
    dsimp only
    rw [he,setTimers_board,holdPiece_board]
    exact hp

theorem Play.start_board (rand : ℕ → ℕ) (playerId target : ℕ) :
    (Play.start rand playerId target).state.board = .empty := startGame_board rand

theorem Play.run_tidy {rand : ℕ → ℕ} {playerId target : ℕ} {moves : List Move} {p : Play}
    (hr : run Play.step (Play.start rand playerId target) moves = some p) : TidyBoard p.state.board := by
  have h := run_invariant (I := fun p : Play => (p.Drawing ∧ Grounded p.state) ∧ TidyBoard p.state.board) ?_ hr
    ⟨⟨Play.start_drawing rand playerId target,Play.start_grounded rand playerId target⟩,?_⟩
  · exact h.2
  · intro p m q hp hq
    exact ⟨⟨Play.step_drawing hp.1.1 hq,Play.step_grounded hp.1.1 hp.1.2 hq⟩,Play.step_tidy hp.1.2 hp.2 hq⟩
  · rw [Play.start_board]
    exact fun _ => tidyRow_empty

/-- `add_garbage` writes inside the board for every amount: the rows move up by the
clamped number of lines and as many rows with one hole each come in. In a game no cell
ever holds more than their value. -/
theorem Play.garbage_and_cells (draws : ℕ → ℕ) (s : GameState) (lines : ℤ) (rand : ℕ → ℕ) (playerId target : ℕ)
    (moves : List Move) (p : Play) (hr : run Play.step (Play.start rand playerId target) moves = some p) :
    (lines ≤ 0 → addGarbage? draws s lines = some s) ∧
    (0 < lines → ∃ (k : ℕ) (t : GameState), (k : ℤ) = min lines boardHeight ∧ addGarbage? draws s lines = some t ∧
      (∀ (y : Fin boardHeight) (h : y.val + k < boardHeight), t.board.cells y = s.board.cells ⟨y.val + k,h⟩) ∧
      ∀ y : Fin boardHeight, boardHeight ≤ y.val + k →
        ∃ hole, t.board.cells y hole = 0 ∧ ∀ x, x ≠ hole → t.board.cells y x = 8) ∧
    ∀ y x, p.state.board.cells y x ≤ 8 := by
  refine ⟨?_,?_,fun y => (Play.run_tidy hr y).values⟩
  · intro h
    rw [addGarbage?_eq]
    exact congrArg some (if_pos h)
  · intro h
    obtain ⟨k,hk⟩ : ∃ k : ℕ, (k : ℤ) = min lines boardHeight :=
      ⟨(min lines (boardHeight : ℤ)).toNat,Int.toNat_of_nonneg (le_min h.le (by decide))⟩
    refine ⟨k,addGarbage draws s lines,hk,addGarbage?_eq draws s lines,?_,?_⟩
    · intro y hy
      rw [addGarbage_rows draws s h hk,dif_pos hy]
    · intro y hy
      have hlt : draws (y.val + k - boardHeight) % boardWidth < boardWidth := Nat.mod_lt _ (by decide)
      rw [addGarbage_rows draws s h hk,dif_neg (not_lt.mpr hy)]
      exact ⟨_,garbageRow_cells hlt⟩

/-- Three queued rows come up under the first hard drop. -/
theorem Play.garbage_and_cells_three :
    ∃ p, run Play.step (Play.start (fun i => 5 * i + 3) 1 2)
        [.queue 3, .action (fun i => i) [] .hardDrop] = some p ∧
      p.state.board.cells 19 0 = 8 ∧ (∀ y x, p.state.board.cells y x ≤ 8) ∧
      ∃ t, addGarbage? id p.state 3 = some t ∧
        ∃ hole, t.board.cells 17 hole = 0 ∧ ∀ x, x ≠ hole → t.board.cells 17 x = 8 := by
  obtain ⟨p,hr,ht⟩ := exists_of_run_any Play.step (Play.start (fun i => 5 * i + 3) 1 2)
    [.queue 3, .action (fun i => i) [] .hardDrop] (fun p : Play => p.state.board.cells 19 0 == 8) (by decide +kernel)
  obtain ⟨-,hpos,hcells⟩ := Play.garbage_and_cells id p.state 3 _ 1 2 _ p hr
  obtain ⟨k,t,hk,hadd,-,hfill⟩ := hpos (by decide)
  have hk3 : k = 3 := Int.ofNat.inj hk
  exact ⟨p,hr,by simpa using ht,hcells,t,hadd,hfill 17 (by rw [hk3]; decide)⟩

end CoreStack.Tetrisd
