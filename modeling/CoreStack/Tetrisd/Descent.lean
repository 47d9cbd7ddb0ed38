import CoreStack.Tetris.Lines
import CoreStack.Tetrisd.Game
import CoreStack.Lib.Looping

/-! # Three descents

`hard_drop`, `soft_drop` repeated until it fails and the ghost of `draw_board` ask the
same question row by row, so they end in the same row; the lowest block of the piece
bounds how far down that is.
-/
namespace CoreStack.Tetrisd
open Tetris Looping

def atRow (s : GameState) (y : ℤ) : GameState := { s with current := { s.current with y := y } }

/-- The loop of `hard_drop`, with the rows it returns. -/
def hardDrop? (fuel : ℕ) (s : GameState) : Option (GameState × ℤ) :=
  while? (fun r : GameState × ℤ => canFall r.1) (fun r => (atRow r.1 (r.1.current.y + 1),r.2 + 1)) fuel (s,0)

/-- `while (soft_drop(state));` -/
def softDrops? (fuel : ℕ) (s : GameState) : Option GameState :=
  while? (fun s => (softDrop s).2) (fun s => (softDrop s).1) fuel s

/-- The test of the ghost's loop: the piece would fit below row `y`. -/
def ghostFalls (s : GameState) (y : ℤ) : Bool :=
  isValidPos s.board s.current.type s.current.rot s.current.x (y + 1)

/-- The loop of `draw_board` that finds `ghost_y`. -/
def ghostY? (fuel : ℕ) (s : GameState) : Option ℤ := while? (ghostFalls s) (· + 1) fuel s.current.y

theorem row_lt_of_legal {s : GameState} (ht : s.current.type ∈ newBag) (h : legal s = true) :
    s.current.y < boardHeight := by
  have hpos : 0 < (solidCells s.current.type s.current.rot).card := by
    rw [solidCells_card s.current.rot _ ht]
    decide
  obtain ⟨c,hc⟩ := Finset.card_pos.mp hpos
  have hb := (cellFits_bounds (fits_of_legal h hc)).2.2.1
  omega

theorem ghost_exit {s : GameState} (ht : s.current.type ∈ newBag) (h : legal s = true) :
    ∃ (n : ℕ) (y : ℤ), n ≤ ((boardHeight : ℤ) - s.current.y).toNat ∧
      Exit (ghostFalls s) (· + 1) n s.current.y y ∧
      legal (atRow s y) = true := by
  refine exists_exit (I := fun y => legal (atRow s y) = true) (fun y => ((boardHeight : ℤ) - y).toNat) ?_ h
  intro y _ hv
  have hlt : y + 1 < boardHeight := row_lt_of_legal (s := atRow s (y + 1)) ht hv
  exact ⟨hv,by omega⟩

theorem ghost_row {test : ℤ → Bool} {n : ℕ} {y z : ℤ} (h : Exit test (· + 1) n y z) : z = y + n := by
  have hi : ∀ (n : ℕ) (y : ℤ), (fun z : ℤ => z + 1)^[n] y = y + n := by
    intro n
    induction n with
    | zero => simp
    | succ n ih =>
      intro y
      rw [Function.iterate_succ_apply,ih]
      push_cast
      omega
  rw [h.eq,hi]

def DroppedTo (s : GameState) (y : ℤ) (r : GameState × ℤ) : Prop := r = (atRow s y,y - s.current.y)

def SoftenedTo (s : GameState) (y : ℤ) (u : GameState) : Prop :=
  ∃ flag, u = { atRow s y with lastActionRotation := flag }

theorem hardDrop_follows {s : GameState} {n : ℕ} {y : ℤ} (h : Exit (ghostFalls s) (· + 1) n s.current.y y)
    {fuel : ℕ} (hf : n < fuel) : hardDrop? fuel s = some (atRow s y,(n : ℤ)) := by
  have htest : ∀ y r, DroppedTo s y r → ghostFalls s y = canFall r.1 := by
    rintro y r rfl
    rfl
  have hbody : ∀ y r, DroppedTo s y r → ghostFalls s y = true →
      DroppedTo s (y + 1) (atRow r.1 (r.1.current.y + 1),r.2 + 1) := by
    rintro y r rfl -
    refine Prod.ext rfl ?_
    dsimp only
    omega
  obtain ⟨t,he,hr⟩ := h.follow htest hbody (t := (s,0)) (Prod.ext rfl (Int.sub_self _).symm)
  have hy := ghost_row h
  rw [hardDrop?,he.while?_eq hf,hr,hy]
  congr 2
  omega

theorem softDrops_follows {s : GameState} {n : ℕ} {y : ℤ} (h : Exit (ghostFalls s) (· + 1) n s.current.y y)
    {fuel : ℕ} (hf : n < fuel) : ∃ u, softDrops? fuel s = some u ∧ u.current = (atRow s y).current := by
  have htest : ∀ y u, SoftenedTo s y u → ghostFalls s y = (softDrop u).2 := by
    rintro y u ⟨flag,rfl⟩
    unfold softDrop
    split
    · assumption
    · rename_i hc
      exact Bool.eq_false_iff.mpr hc
  have hbody : ∀ y u, SoftenedTo s y u → ghostFalls s y = true → SoftenedTo s (y + 1) (softDrop u).1 := by
    rintro y u ⟨flag,rfl⟩ hv
    refine ⟨false,?_⟩
    have hc : canFall { atRow s y with lastActionRotation := flag } = true := hv
    unfold softDrop
    rw [if_pos hc]
    rfl
  obtain ⟨t,he,flag,hr⟩ := h.follow htest hbody (t := s) ⟨s.lastActionRotation,rfl⟩
  refine ⟨t,he.while?_eq hf,?_⟩
  rw [hr]

/-- The fuel of the plain loop covers every row above the bottom edge. -/
theorem hardDropLoop_eq {s : GameState} {n : ℕ} {y : ℤ} (h : Exit (ghostFalls s) (· + 1) n s.current.y y)
    {fuel : ℕ} (hf : n ≤ fuel) : hardDropLoop fuel s = atRow s y := by
  induction n generalizing s fuel with
  | zero =>
    have hy : y = s.current.y := h.eq
    have hc : canFall s = false := by rw [← h.last,hy]; rfl
    have hs : atRow s y = s := by rw [hy]; rfl
    cases fuel with
    | zero => exact hs.symm
    | succ fuel => rw [hardDropLoop,if_neg (by rw [hc]; decide),hs]
  | succ n ih =>
    obtain ⟨ht,he⟩ := h.tail
    obtain ⟨k,rfl⟩ := Nat.exists_eq_add_of_le' (show 1 ≤ fuel by omega)
    have hc : canFall s = true := ht
    rw [hardDropLoop,if_pos hc]
    exact ih (s := atRow s (s.current.y + 1)) he (by omega)

/-- From a valid position `hard_drop` ends, changes the row alone and lands where
repeated `soft_drop` and the ghost do. There the piece is valid and cannot fall, so the
tick of `apply_action` ends the game with the piece where it is, or locks it there. -/
theorem hardDrop_lands (s : GameState) (ht : s.current.type ∈ newBag) (h : legal s = true) (rand : ℕ → ℕ)
    (roster : Roster) :
    ∃ n : ℕ,
      (∀ fuel, n < fuel → hardDrop? fuel s = some (atRow s (s.current.y + n),(n : ℤ)) ∧
        (∃ u, softDrops? fuel s = some u ∧ u.current = (atRow s (s.current.y + n)).current) ∧
        ghostY? fuel s = some (s.current.y + n)) ∧
      hardDrop s = atRow s (s.current.y + n) ∧
      legal (hardDrop s) = true ∧ canFall (hardDrop s) = false ∧
      ∃ t, performAction rand roster s .hardDrop = t.setTimers 0 0 ∧
        (t = { hardDrop s with gameOver := true } ∨
          t = blockOut (spawnNewPiece (fun i => rand (i + boardHeight)) (settled rand (hardDrop s))) ∧
            (resolveLock (hardDrop s)).state.board = (clearLines (lockPiece (hardDrop s))).1.board) := by
  obtain ⟨n,y,hn,he,hl⟩ := ghost_exit ht h
  have hy := ghost_row he
  subst hy
  have hdrop : hardDrop s = atRow s (s.current.y + n) := hardDropLoop_eq he hn
  have hc : canFall (hardDrop s) = false := by
    rw [hdrop]
    exact he.last
  refine ⟨n,?_,hdrop,by rw [hdrop]; exact hl,hc,(tickGame rand (hardDrop s)).1,rfl,?_⟩
  · intro fuel hf
    exact ⟨hardDrop_follows he hf,softDrops_follows he hf,he.while?_eq hf⟩
  · by_cases hneg : (hardDrop s).current.y < 0
    · left
      rw [tickGame_stuck rand hc hneg]
    · right
      have hlock : locks (hardDrop s) = true := locks_iff.mpr ⟨hc,not_lt.mp hneg⟩
      exact ⟨tickGame_locked rand hlock,(resolveLock_board _).1⟩

theorem hardDrop_lands_first_piece :
    (startGame fun _ => 0).current.type ∈ newBag ∧ legal (startGame fun _ => 0) = true ∧
    legal (hardDrop (startGame fun _ => 0)) = true ∧ canFall (hardDrop (startGame fun _ => 0)) = false := by
  have ht : (startGame fun _ => 0).current.type ∈ newBag := by decide +kernel
  have hl : legal (startGame fun _ => 0) = true := by decide +kernel
  obtain ⟨-,-,-,hlegal,hrest,-⟩ := hardDrop_lands (startGame fun _ => 0) ht hl (fun _ => 0) []
  exact ⟨ht,hl,hlegal,hrest⟩

end CoreStack.Tetrisd
