import CoreStack.Tetris.SevenBag
import CoreStack.Lib.Compaction
import Mathlib.Algebra.BigOperators.Fin

/-! # Rows and blocks of the board

`clear_lines` compacts the list of rows; `lock_piece` at a legal place on the board
fills four empty cells. Both are counted in non-empty cells.
-/
namespace CoreStack.Tetris

abbrev Row := Fin boardWidth → ℕ

/-- The rows from top to bottom. -/
def Board.rows (b : Board) : List Row := List.ofFn b.cells

def emptyRow : Row := fun _ => 0

def Row.full (r : Row) : Bool := (List.finRange boardWidth).all fun x => r x != 0

theorem Board.rows_length (b : Board) : b.rows.length = boardHeight := List.length_ofFn

theorem Board.rows_get (b : Board) {y : ℕ} (h : y < boardHeight) : b.rows[y]? = some (b.cells ⟨y,h⟩) := by
  rw [Board.rows,List.getElem?_ofFn,dif_pos h]

theorem removeRow_rows (b : Board) (y : Fin boardHeight) :
    (removeRow b y).rows = emptyRow :: b.rows.eraseIdx y.val := by
  have hy := y.isLt
  apply List.ext_getElem?
  intro i
  cases i with
  | zero =>
    rw [Board.rows_get _ (by decide)]
    rfl
  | succ i =>
    rw [List.getElem?_cons_succ,List.getElem?_eraseIdx]
    by_cases hi : i + 1 < boardHeight
    · rw [Board.rows_get _ hi]
      split
      · rename_i hlt
        rw [Board.rows_get _ (by omega)]
        congr 1
        funext x
        dsimp only [removeRow]
        rw [if_neg (Nat.succ_ne_zero i),if_pos (Nat.succ_le_of_lt hlt)]
        rfl
      · rename_i hge
        rw [Board.rows_get _ hi]
        congr 1
        funext x
        dsimp only [removeRow]
        rw [if_neg (Nat.succ_ne_zero i),if_neg (by omega)]
    · have h1 : (removeRow b y).rows.length ≤ i + 1 := by
        rw [Board.rows_length]
        omega
      have h2 : b.rows.length ≤ i + 1 := by
        rw [Board.rows_length]
        omega
      rw [List.getElem?_eq_none h1,if_neg (by omega),List.getElem?_eq_none h2]

/-- The scan of `clear_lines` is a compaction of the rows. -/
theorem clearLinesLoop_rows (fuel n : ℕ) (b : Board) (cleared : ℕ) (hn : n ≤ boardHeight) :
    ((clearLinesLoop fuel n b cleared).1.rows,(clearLinesLoop fuel n b cleared).2) =
      Compaction.scan Row.full emptyRow fuel n b.rows cleared := by
  induction fuel generalizing n b cleared with
  | zero => rfl
  | succ fuel ih =>
    cases n with
    | zero => rfl
    | succ n =>
      have hlt : n < boardHeight := hn
      simp only [clearLinesLoop,Compaction.scan,Board.rows_get b hlt,dif_pos hlt]
      have hf : rowFull b ⟨n,hlt⟩ = Row.full (b.cells ⟨n,hlt⟩) := rfl
      rw [hf]
      split
      · rw [ih (n + 1) _ _ hn,removeRow_rows]
      · exact ih n b cleared (by omega)

theorem emptyRow_not_full : Row.full emptyRow = false := by decide

/-- Full rows vanish, the others keep their order and sink to the bottom. -/
theorem clearLines_rows (s : GameState) :
    (clearLines s).1.board.rows = Compaction.compacted Row.full emptyRow s.board.rows ∧
    (clearLines s).2 = s.board.rows.countP Row.full := by
  have h := clearLinesLoop_rows (2 * boardHeight) boardHeight s.board 0 le_rfl
  have hs := @Compaction.scan_whole _ Row.full _ emptyRow_not_full (2 * boardHeight) s.board.rows 0
    (by rw [Board.rows_length])
  rw [Board.rows_length] at hs
  rw [hs] at h
  have h1 := congrArg Prod.fst h
  have h2 := congrArg Prod.snd h
  unfold clearLines
  dsimp only at h1 h2 ⊢
  rw [Nat.zero_add] at h2
  split <;> exact ⟨h1,h2⟩

/-! ## Counting blocks -/

/-- The cells that are not empty. -/
def Board.blocks (b : Board) : Finset (Fin boardHeight × Fin boardWidth) :=
  Finset.univ.filter fun c => b.cells c.1 c.2 ≠ 0

def Row.blocks (r : Row) : ℕ := (Finset.univ.filter fun x => r x ≠ 0).card

theorem Board.blocks_card (b : Board) : b.blocks.card = (b.rows.map Row.blocks).sum := by
  unfold Board.blocks Board.rows Row.blocks
  rw [Finset.card_filter,Fintype.sum_prod_type,List.map_ofFn,List.sum_ofFn]
  simp [Finset.card_filter]

theorem Row.blocks_full {r : Row} (h : Row.full r = true) : r.blocks = boardWidth := by
  have hx : ∀ x, r x ≠ 0 := by simpa [Row.full] using h
  unfold Row.blocks
  rw [Finset.filter_true_of_mem (by simpa using hx)]
  simp

theorem clearLines_blocks (s : GameState) :
    (clearLines s).1.board.blocks.card + 10 * (clearLines s).2 = s.board.blocks.card := by
  obtain ⟨hr,hc⟩ := clearLines_rows s
  rw [Board.blocks_card,Board.blocks_card,hr,hc]
  exact Compaction.sum_compacted Row.blocks (by decide) s.board.rows fun _ _ hf => Row.blocks_full hf

theorem clearLines_congr {s t : GameState} (h : s.board = t.board) :
    (clearLines s).1.board = (clearLines t).1.board ∧ (clearLines s).2 = (clearLines t).2 := by
  unfold clearLines
  rw [h]
  dsimp only
  split <;> exact ⟨rfl,rfl⟩

/-- Before the garbage the board of a lock is the cleared board of `lock_piece`. -/
theorem resolveLock_board (s : GameState) :
    (resolveLock s).state.board = (clearLines (lockPiece s)).1.board ∧
    (resolveLock s).cleared = (clearLines (lockPiece s)).2 := by
  unfold resolveLock
  dsimp only
  generalize ht : (if checkTSpin s = true then { s with tSpins := s.tSpins + 1 } else s : GameState) = s0
  generalize hs1 : ({ lockPiece s0 with piecesPlaced := (lockPiece s0).piecesPlaced + 1 } : GameState) = s1
  have h1 : s1.board = (lockPiece s).board := by
    rw [← hs1,← ht]
    split <;> rfl
  have hc := clearLines_congr h1
  generalize clearLines s1 = r at hc
  refine ⟨?_,hc.2⟩
  rw [← hc.1]
  unfold calculateGarbage
  split <;> split <;> rfl

/-! ## The four blocks of a piece -/

def solidCells (type : ℕ) (rot : Rotation) : Finset (ℕ × ℕ) :=
  (localCells.filter fun c => solid type rot c.1 c.2).toFinset

theorem solidCells_card (rot : Rotation) : ∀ t ∈ newBag, (solidCells t rot).card = 4 := by
  cases rot <;> decide

theorem mem_localCells {c : ℕ × ℕ} : c ∈ localCells ↔ c.1 < 4 ∧ c.2 < 4 := by
  simp [localCells,Prod.ext_iff]

theorem mem_solidCells {type : ℕ} {rot : Rotation} {c : ℕ × ℕ} :
    c ∈ solidCells type rot ↔ c ∈ localCells ∧ solid type rot c.1 c.2 = true := by
  simp [solidCells]

/-- The board cells a piece stands on. -/
def Piece.footprint (p : Piece) : Finset (Fin boardHeight × Fin boardWidth) :=
  Finset.univ.filter fun c => p.covers (c.1.val : ℤ) (c.2.val : ℤ)

theorem mem_footprint {p : Piece} {c : Fin boardHeight × Fin boardWidth} :
    c ∈ p.footprint ↔ ∃ d ∈ solidCells p.type p.rot, p.x + d.1 = c.2.val ∧ p.y + d.2 = c.1.val := by
  simp only [Piece.footprint,Piece.covers,Finset.mem_filter,Finset.mem_univ,true_and,List.any_eq_true,
    Bool.and_eq_true,beq_iff_eq,mem_solidCells,and_assoc]

theorem Board.read_cells (b : Board) (y : Fin boardHeight) (x : Fin boardWidth) :
    b.read (y.val : ℤ) (x.val : ℤ) = b.cells y x := by
  have hy := y.isLt
  have hx := x.isLt
  unfold Board.read
  rw [dif_pos (by omega)]
  rfl

theorem fits_of_legal {s : GameState} (h : legal s = true) {c : ℕ × ℕ}
    (hc : c ∈ solidCells s.current.type s.current.rot) :
    cellFits s.board (s.current.x + c.1) (s.current.y + c.2) = true := by
  obtain ⟨hm,hs⟩ := mem_solidCells.mp hc
  have hv := List.all_eq_true.mp h c hm
  simpa [hs] using hv

theorem cellFits_bounds {b : Board} {x y : ℤ} (h : cellFits b x y = true) :
    0 ≤ x ∧ x < boardWidth ∧ y < boardHeight ∧ (0 ≤ y → b.read y x = 0) := by
  simp only [cellFits,Bool.and_eq_true,Bool.not_eq_true',Bool.or_eq_false_iff,decide_eq_false_iff_not,
    Bool.and_eq_false_iff,bne_eq_false_iff_eq] at h
  obtain ⟨⟨⟨h1,h2⟩,h3⟩,h4⟩ := h
  refine ⟨by omega,by omega,by omega,?_⟩
  intro hy
  rcases h4 with h4 | h4
  · omega
  · exact h4

theorem footprint_card {s : GameState} (h : legal s = true) (hy : 0 ≤ s.current.y)
    (ht : s.current.type ∈ newBag) : s.current.footprint.card = 4 := by
  rw [← solidCells_card s.current.rot _ ht]
  symm
  have hb : ∀ c ∈ solidCells s.current.type s.current.rot,
      (s.current.y + c.2).toNat < boardHeight ∧ (s.current.x + c.1).toNat < boardWidth := by
    intro c hc
    have hf := cellFits_bounds (fits_of_legal h hc)
    omega
  refine Finset.card_bij (fun c hc => (⟨(s.current.y + c.2).toNat,(hb c hc).1⟩,⟨(s.current.x + c.1).toNat,(hb c hc).2⟩))
    ?_ ?_ ?_
  · intro c hc
    have hf := cellFits_bounds (fits_of_legal h hc)
    exact mem_footprint.mpr ⟨c,hc,by dsimp only; omega,by dsimp only; omega⟩
  · intro c hc d hd he
    have hf := cellFits_bounds (fits_of_legal h hc)
    have hf' := cellFits_bounds (fits_of_legal h hd)
    simp only [Prod.mk.injEq,Fin.mk.injEq] at he
    exact Prod.ext (by omega) (by omega)
  · intro c hc
    obtain ⟨d,hd,hx,hy⟩ := mem_footprint.mp hc
    refine ⟨d,hd,?_⟩
    exact Prod.ext (Fin.ext (by dsimp only; omega)) (Fin.ext (by dsimp only; omega))

theorem footprint_empty {s : GameState} (h : legal s = true) {c : Fin boardHeight × Fin boardWidth}
    (hc : c ∈ s.current.footprint) : s.board.cells c.1 c.2 = 0 := by
  obtain ⟨d,hd,hx,hy⟩ := mem_footprint.mp hc
  have hf := cellFits_bounds (fits_of_legal h hd)
  rw [hx,hy,Board.read_cells] at hf
  exact hf.2.2.2 (by omega)

theorem lockPiece_cells (s : GameState) (c : Fin boardHeight × Fin boardWidth) :
    (lockPiece s).board.cells c.1 c.2 =
      if c ∈ s.current.footprint then s.current.type else s.board.cells c.1 c.2 := by
  simp [lockPiece,Piece.footprint]

theorem lockPiece_blocks {s : GameState} (h : legal s = true) (hy : 0 ≤ s.current.y)
    (ht : s.current.type ∈ newBag) : (lockPiece s).board.blocks.card = s.board.blocks.card + 4 := by
  have h0 : s.current.type ≠ 0 := by
    have hr := mem_newBag _ ht
    omega
  have hu : (lockPiece s).board.blocks = s.board.blocks ∪ s.current.footprint := by
    ext c
    simp only [Board.blocks,Finset.mem_filter,Finset.mem_univ,true_and,Finset.mem_union,lockPiece_cells]
    split
    · rename_i hf
      simp [h0,hf]
    · rename_i hf
      simp [hf]
  have hd : Disjoint s.board.blocks s.current.footprint := by
    rw [Finset.disjoint_left]
    intro c hc hf
    exact (Finset.mem_filter.mp hc).2 (footprint_empty h hf)
  rw [hu,Finset.card_union_of_disjoint hd,footprint_card h hy ht]

end CoreStack.Tetris
