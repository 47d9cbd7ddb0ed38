import CoreStack.Tetris.Carry
import CoreStack.Lib.Blocks
import Mathlib.Data.List.GetD

/-! # The bag as a window on a tape of shuffled bags

A spawn moves the window by one; the refill after the seventh draw shifts it and
appends a freshly shuffled bag. So the types still to be drawn only ever lose their
head and gain whole bags at the end.
-/
namespace CoreStack.Tetris

theorem swapAt_perm {a : List ℕ} {i j : ℕ} (hi : i < a.length) (hj : j < a.length) : (swapAt a i j).Perm a := by
  have h := List.set_set_perm hi hj
  unfold swapAt
  rwa [List.getD_eq_getElem a 0 hi,List.getD_eq_getElem a 0 hj]

theorem shuffleLoop_perm (rand : ℕ → ℕ) (draw i : ℕ) (a : List ℕ) (hi : i < a.length) :
    (shuffleLoop rand draw i a).Perm a := by
  induction i generalizing draw a with
  | zero => exact .refl a
  | succ i ih =>
    have hj : rand draw % (i + 2) < a.length := (Nat.mod_lt _ (by omega)).trans_le (by omega)
    have hp := swapAt_perm hi hj
    have hl : i < (swapAt a (i + 1) (rand draw % (i + 2))).length := by
      rw [hp.length_eq]
      omega
    exact (ih (draw + 1) _ hl).trans hp

theorem shuffleArray_perm (rand : ℕ → ℕ) : (shuffleArray rand newBag).Perm newBag :=
  shuffleLoop_perm rand 0 6 newBag (by decide)

/-- One shuffled bag: each type once. -/
def FullBag (b : List ℕ) : Prop := b.Perm newBag

theorem FullBag.length {b : List ℕ} (h : FullBag b) : b.length = 7 := h.length_eq

theorem mem_newBag : ∀ t ∈ newBag, 1 ≤ t ∧ t ≤ 7 := by decide

/-- The types the window still holds, in the order they will be drawn. -/
def GameState.upcoming (s : GameState) : List ℕ := s.bag.drop s.bagIndex

/-- The window holds two bags and the index stands in the first. -/
structure GameState.Window (s : GameState) : Prop where
  length : s.bag.length = 14
  index : s.bagIndex ≤ 6

theorem GameState.Window.congr {s t : GameState} (h : s.Window) (hb : t.bag = s.bag)
    (hi : t.bagIndex = s.bagIndex) : t.Window :=
  ⟨hb ▸ h.length,hi ▸ h.index⟩

/-- The type `spawn_new_piece` draws is the head of the types to come. -/
theorem GameState.Window.upcoming_eq {s : GameState} (h : s.Window) :
    s.upcoming = s.bag.getD s.bagIndex 0 :: s.bag.drop (s.bagIndex + 1) := by
  have hi : s.bagIndex < s.bag.length := by
    have hl := h.length
    have hx := h.index
    omega
  unfold GameState.upcoming
  rw [List.drop_eq_getElem_cons hi,List.getD_eq_getElem _ _ hi]

/-- A spawn consumes the head; a refill appends one shuffled bag. -/
theorem spawnNewPiece_upcoming (rand : ℕ → ℕ) {s : GameState} (h : s.Window) :
    ∃ extra, (extra = [] ∨ FullBag extra) ∧
      s.upcoming ++ extra = s.bag.getD s.bagIndex 0 :: (spawnNewPiece rand s).upcoming := by
  rw [h.upcoming_eq]
  unfold spawnNewPiece
  dsimp only
  split
  · rename_i hr
    have hi : s.bagIndex = 6 := by
      have hx := h.index
      omega
    refine ⟨shuffleArray rand newBag,.inr (shuffleArray_perm rand),?_⟩
    have ht : (s.bag.drop 7).take 7 = s.bag.drop 7 := List.take_of_length_le (by simp [h.length])
    simp [GameState.upcoming,refillBag,ht,hi]
  · exact ⟨[],.inl rfl,by simp [GameState.upcoming]⟩

theorem spawnNewPiece_window (rand : ℕ → ℕ) {s : GameState} (h : s.Window) : (spawnNewPiece rand s).Window := by
  unfold spawnNewPiece
  dsimp only
  split
  · have hl : (shuffleArray rand newBag).length = 7 := FullBag.length (shuffleArray_perm rand)
    exact ⟨by simp [refillBag,h.length,hl],Nat.zero_le 6⟩
  · exact ⟨h.length,by dsimp only; omega⟩

theorem spawnNewPiece_type (rand : ℕ → ℕ) (s : GameState) :
    (spawnNewPiece rand s).current = ⟨s.bag.getD s.bagIndex 0,.rot0,spawnX,spawnY⟩ := by
  unfold spawnNewPiece
  rfl

theorem spawnNewPiece_board (rand : ℕ → ℕ) (s : GameState) : (spawnNewPiece rand s).board = s.board := by
  unfold spawnNewPiece
  dsimp only
  split <;> rfl

theorem spawnNewPiece_gameOver (rand : ℕ → ℕ) (s : GameState) : (spawnNewPiece rand s).gameOver = s.gameOver := by
  unfold spawnNewPiece
  dsimp only
  split <;> rfl

theorem spawnNewPiece_heldType (rand : ℕ → ℕ) (s : GameState) : (spawnNewPiece rand s).heldType = s.heldType := by
  unfold spawnNewPiece
  dsimp only
  split <;> rfl

theorem freshState_window (rand : ℕ → ℕ) : (freshState rand).Window := by
  have h1 : (shuffleArray rand newBag).length = 7 := FullBag.length (shuffleArray_perm rand)
  have h2 : (shuffleArray (fun i => rand (i + 6)) newBag).length = 7 := FullBag.length (shuffleArray_perm _)
  exact ⟨by simp [freshState,h1,h2],Nat.zero_le 6⟩

theorem startGame_board (rand : ℕ → ℕ) : (startGame rand).board = .empty := by
  unfold startGame
  rw [spawnNewPiece_board]
  rfl

theorem startGame_current (rand : ℕ → ℕ) :
    (startGame rand).current =
      ⟨(freshState rand).bag.getD (freshState rand).bagIndex 0,.rot0,spawnX,spawnY⟩ := by
  unfold startGame
  rw [spawnNewPiece_type]

theorem startGame_heldType (rand : ℕ → ℕ) : (startGame rand).heldType = 0 := by
  unfold startGame
  rw [spawnNewPiece_heldType]
  rfl

end CoreStack.Tetris
