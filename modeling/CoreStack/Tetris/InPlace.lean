import CoreStack.Tetris.Lines
import CoreStack.Lib.Checked

/-! # The row loops, one write after the other

`clear_lines` and `add_garbage` shift rows inside the array they read. Here each read
and each write of a cell is a step of its own, one outside the board stops the loop,
and so does a scan that runs out of fuel.
-/
namespace CoreStack.Tetris

/-! ## The loops -/

def Board.get? (b : Board) (y x : ℕ) : Option ℕ :=
  if h : y < boardHeight ∧ x < boardWidth then some (b.cells ⟨y,h.1⟩ ⟨x,h.2⟩) else none

def Board.set? (b : Board) (y x v : ℕ) : Option Board :=
  if y < boardHeight ∧ x < boardWidth then
    some ⟨fun yy xx => if yy.val = y ∧ xx.val = x then v else b.cells yy xx⟩
  else none

/-- `for (int x = 0; x < BOARD_WIDTH; x++)` around one assignment to `cells[y][x]`. -/
def writeRow? (y : ℕ) (value : Board → ℕ → Option ℕ) (b : Board) : Option Board :=
  (List.range boardWidth).foldlM (fun b x => (value b x).bind (b.set? y x)) b

def copyRow? (dst src : ℕ) : Board → Option Board := writeRow? dst fun b x => b.get? src x

/-- Rows `yy` down to 1 take what stands above them. -/
def shiftDown? : ℕ → Board → Option Board
  | 0, b => some b
  | yy + 1, b => (copyRow? (yy + 1) yy b).bind (shiftDown? yy)

def clearTop? : Board → Option Board := writeRow? 0 fun _ _ => some 0

/-- The scan of a row breaks at its first empty cell. -/
def isFull? (b : Board) (y : ℕ) : Option Bool :=
  ((List.range boardWidth).anyM fun x => (b.get? y x).map (· == 0)).map (!·)

/-- `y` rows are left to scan; the loop ends by its own test or not at all. -/
def clearLinesLoop? : ℕ → ℕ → Board → ℕ → Option (Board × ℕ)
  | 0, _, _, _ => none
  | _ + 1, 0, b, cleared => some (b,cleared)
  | fuel + 1, y + 1, b, cleared =>
    (isFull? b y).bind fun full =>
      if full then
        (shiftDown? y b).bind fun b => (clearTop? b).bind fun b => clearLinesLoop? fuel (y + 1) b (cleared + 1)
      else clearLinesLoop? fuel y b cleared

def clearLines? (s : GameState) : Option (GameState × ℕ) :=
  (clearLinesLoop? (2 * boardHeight + 1) boardHeight s.board 0).map fun r =>
    let s := { s with board := r.1 }
    if r.2 > 0 then
      ({ s with
          linesCleared := s.linesCleared + r.2
          level := (s.linesCleared + r.2).tdiv 10 + 1
          score := s.score + r.2 * 100 }, r.2)
    else (s,r.2)

/-- Row `y` takes row `y + lines`, for the first `n` rows. -/
def shiftUp? (lines n : ℕ) (b : Board) : Option Board :=
  (List.range n).foldlM (fun b y => copyRow? y (y + lines) b) b

/-- The bottom rows, each with the hole drawn for it. -/
def garbageRows? (rand : ℕ → ℕ) (lines : ℕ) (b : Board) : Option Board :=
  (List.range lines).foldlM (fun b i =>
    let hole := rand i % boardWidth
    writeRow? (boardHeight - lines + i) (fun _ x => some (if x = hole then 0 else 8)) b) b

def addGarbage? (rand : ℕ → ℕ) (s : GameState) (lines : ℤ) : Option GameState :=
  if lines ≤ 0 then some s
  else
    let lines := if lines > boardHeight then boardHeight else lines.toNat
    (shiftUp? lines (boardHeight - lines) s.board).bind fun b =>
      (garbageRows? rand lines b).map fun b => { s with board := b }

/-! ## One row -/

theorem Board.eq_of_cells {b b' : Board} (h : ∀ y, b.cells y = b'.cells y) : b = b' := by
  cases b
  congr 1
  exact funext h

def Board.setRow (b : Board) (y : ℕ) (r : Row) : Board := ⟨fun yy => if yy.val = y then r else b.cells yy⟩

theorem Board.get?_eq (b : Board) {y x : ℕ} (hy : y < boardHeight) (hx : x < boardWidth) :
    b.get? y x = some (b.cells ⟨y,hy⟩ ⟨x,hx⟩) := dif_pos ⟨hy,hx⟩

/-- Row `y` after the first `n` writes of the values `r`. -/
def Board.rowUpTo (b : Board) (y n : ℕ) (r : Row) : Board :=
  ⟨fun yy xx => if yy.val = y ∧ xx.val < n then r xx else b.cells yy xx⟩

theorem Board.rowUpTo_set? (b : Board) {y n : ℕ} (r : Row) (hy : y < boardHeight) (hn : n < boardWidth) :
    (b.rowUpTo y n r).set? y n (r ⟨n,hn⟩) = some (b.rowUpTo y (n + 1) r) := by
  unfold Board.set? Board.rowUpTo
  rw [if_pos ⟨hy,hn⟩]
  congr 2
  funext yy xx
  by_cases hyy : yy.val = y
  · by_cases hxx : xx.val = n
    · have hx : xx = ⟨n,hn⟩ := Fin.ext hxx
      subst hx
      simp [hyy]
    · have hlt : xx.val < n + 1 ↔ xx.val < n := by omega
      simp [hyy,hxx,hlt]
  · simp [hyy]

/-- The loop writes the row whatever part of it already stands. -/
theorem writeRow?_eq {y : ℕ} {value : Board → ℕ → Option ℕ} {b : Board} (r : Row) (hy : y < boardHeight)
    (hv : ∀ n (h : n < boardWidth), value (b.rowUpTo y n r) n = some (r ⟨n,h⟩)) :
    writeRow? y value b = some (b.setRow y r) := by
  have hstep : ∀ n ≤ boardWidth, (List.range n).foldlM (fun b x => (value b x).bind (b.set? y x)) b =
      some (b.rowUpTo y n r) := by
    intro n hn
    induction n with
    | zero => simp [Board.rowUpTo]
    | succ n ih =>
      have hlt : n < boardWidth := hn
      rw [List.range_succ,List.foldlM_append,ih (by omega)]
      simp only [Option.bind_eq_bind,Option.bind_some,List.foldlM_cons,List.foldlM_nil,hv n hlt,
        Board.rowUpTo_set? b r hy hlt]
      rfl
  have hw : b.rowUpTo y boardWidth r = b.setRow y r := by
    unfold Board.rowUpTo Board.setRow
    congr 1
    funext yy xx
    have hx := xx.isLt
    by_cases hyy : yy.val = y
    · simp only [hyy,hx,and_self,↓reduceIte]
    · simp only [hyy,false_and,↓reduceIte]
  rw [← hw]
  exact hstep boardWidth le_rfl

/-- The copied row is another one, so the writes do not meet the reads. -/
theorem copyRow?_eq (b : Board) {dst src : ℕ} (hd : dst < boardHeight) (hs : src < boardHeight) (hne : src ≠ dst) :
    copyRow? dst src b = some (b.setRow dst (b.cells ⟨src,hs⟩)) := by
  refine writeRow?_eq _ hd ?_
  intro n hn
  rw [Board.get?_eq _ hs hn]
  simp [Board.rowUpTo,hne]

theorem fillRow?_eq (b : Board) {y : ℕ} (v : ℕ → ℕ) (hy : y < boardHeight) :
    writeRow? y (fun _ x => some (v x)) b = some (b.setRow y fun x => v x.val) :=
  writeRow?_eq _ hy fun _ _ => rfl

/-! ## Clearing -/

theorem shiftDown?_eq (n : ℕ) (b : Board) (hn : n < boardHeight) :
    shiftDown? n b = some ⟨fun y =>
      if h : 0 < y.val ∧ y.val ≤ n then b.cells ⟨y.val - 1,by omega⟩ else b.cells y⟩ := by
  induction n generalizing b with
  | zero =>
    have h0 : ∀ y : Fin boardHeight, ¬(0 < y.val ∧ y.val ≤ 0) := fun y h => by omega
    simp only [shiftDown?,h0,↓reduceDIte]
  | succ n ih =>
    rw [shiftDown?,copyRow?_eq b hn (by omega) (by omega),Option.bind_some,ih _ (by omega)]
    refine congrArg some (Board.eq_of_cells fun y => ?_)
    dsimp only [Board.setRow]
    by_cases hy : y.val = n + 1
    · have h1 : ¬(0 < y.val ∧ y.val ≤ n) := by omega
      have h2 : 0 < y.val ∧ y.val ≤ n + 1 := by omega
      rw [dif_neg h1,dif_pos h2,if_pos hy]
      congr 1
      exact Fin.ext (by dsimp only; omega)
    · by_cases hle : 0 < y.val ∧ y.val ≤ n
      · have h2 : 0 < y.val ∧ y.val ≤ n + 1 := by omega
        -- the row above has not been overwritten: the loop runs upwards
        have h3 : ¬y.val - 1 = n + 1 := by omega
        rw [dif_pos hle,dif_pos h2,if_neg h3]
      · have h2 : ¬(0 < y.val ∧ y.val ≤ n + 1) := by omega
        rw [dif_neg hle,dif_neg h2,if_neg hy]

theorem shiftDown?_clearTop? (b : Board) {y : ℕ} (hy : y < boardHeight) :
    (shiftDown? y b).bind clearTop? = some (removeRow b ⟨y,hy⟩) := by
  rw [shiftDown?_eq y b hy,Option.bind_some,clearTop?,fillRow?_eq _ (fun _ => 0) (by decide)]
  unfold Board.setRow removeRow
  congr 2
  funext yy xx
  dsimp only
  by_cases h0 : yy.val = 0
  · simp only [h0,↓reduceIte]
  · by_cases hle : yy.val ≤ y
    · have h1 : 0 < yy.val ∧ yy.val ≤ y := ⟨by omega,hle⟩
      rw [if_neg h0,if_neg h0,if_pos hle,dif_pos h1]
    · have h1 : ¬(0 < yy.val ∧ yy.val ≤ y) := by omega
      rw [if_neg h0,if_neg h0,if_neg hle,dif_neg h1]

theorem isFull?_eq (b : Board) {y : ℕ} (hy : y < boardHeight) : isFull? b y = some (rowFull b ⟨y,hy⟩) := by
  unfold isFull?
  have hx : ∀ x ∈ List.range boardWidth, (b.get? y x).map (· == 0) = some (b.read y x == 0) := by
    intro x hm
    have hlt := List.mem_range.mp hm
    rw [b.get?_eq hy hlt,← Board.read_cells]
    rfl
  rw [Checked.anyM_of_some _ hx,Option.map_some,rowFull,List.not_any_eq_all_not]
  congr 1
  rw [← List.map_coe_finRange_eq_range,List.all_map]
  refine List.all_congr rfl ?_
  intro x
  rw [Function.comp_apply,← Board.read_cells]
  rfl

/-- With fuel for the rows, the removals and the last test the loop never stops early. -/
theorem clearLinesLoop?_eq (fuel n : ℕ) (b : Board) (cleared : ℕ) (hn : n ≤ boardHeight)
    (hf : n + (b.rows.take n).countP Row.full ≤ fuel) :
    clearLinesLoop? (fuel + 1) n b cleared = some (clearLinesLoop fuel n b cleared) := by
  induction fuel generalizing n b cleared with
  | zero =>
    have h0 : n = 0 := by omega
    subst h0
    rfl
  | succ fuel ih =>
    cases n with
    | zero => rfl
    | succ n =>
      have hlt : n < boardHeight := hn
      have hlen : n < b.rows.length := by rw [Board.rows_length]; exact hlt
      have hrow : rowFull b ⟨n,hlt⟩ = Row.full (b.cells ⟨n,hlt⟩) := rfl
      have ht := Compaction.take_succ_eq (Board.rows_get b hlt)
      rw [clearLinesLoop?,isFull?_eq b hlt,Option.bind_some,clearLinesLoop,dif_pos hlt]
      split
      · rename_i hfull
        rw [hrow] at hfull
        have hc : ((removeRow b ⟨n,hlt⟩).rows.take (n + 1)).countP Row.full = (b.rows.take n).countP Row.full := by
          rw [removeRow_rows,Compaction.take_removed hlen,List.countP_cons,emptyRow_not_full]
          rfl
        have hb : (b.rows.take (n + 1)).countP Row.full = (b.rows.take n).countP Row.full + 1 := by
          rw [ht,List.countP_append,List.countP_singleton,if_pos hfull]
        rw [← Option.bind_assoc,shiftDown?_clearTop? b hlt,Option.bind_some]
        exact ih (n + 1) _ (cleared + 1) hn (by omega)
      · rename_i hfull
        have hb : (b.rows.take n).countP Row.full ≤ (b.rows.take (n + 1)).countP Row.full := by
          rw [ht,List.countP_append]
          omega
        exact ih n b cleared (by omega) (by omega)

theorem clearLines?_eq (s : GameState) : clearLines? s = some (clearLines s) := by
  have hc : (s.board.rows.take boardHeight).countP Row.full ≤ boardHeight := by
    refine List.countP_le_length.trans ?_
    rw [List.length_take]
    exact Nat.min_le_left _ _
  unfold clearLines?
  rw [clearLinesLoop?_eq _ _ _ _ le_rfl (by omega)]
  rfl

/-- `clear_lines` ends on every board: the rows that are not full keep their order at
the bottom, and every full row is worth an empty one above them. -/
theorem clearLines_removes_full_rows (s : GameState) :
    ∃ t, clearLines? s = some (t,s.board.rows.countP Row.full) ∧
      t.board.rows = List.replicate (s.board.rows.countP Row.full) emptyRow ++ s.board.rows.filter (!Row.full ·) ∧
      (∀ r ∈ t.board.rows, Row.full r = false) ∧
      t.linesCleared = s.linesCleared + s.board.rows.countP Row.full ∧
      t.score = s.score + 100 * s.board.rows.countP Row.full := by
  obtain ⟨hrows,hcount⟩ := clearLines_rows s
  refine ⟨(clearLines s).1,?_,hrows,?_,?_,?_⟩
  · rw [clearLines?_eq,← hcount]
  · intro r hr
    rw [hrows] at hr
    rcases List.mem_append.mp hr with hr | hr
    · rw [List.eq_of_mem_replicate hr]
      exact emptyRow_not_full
    · simpa using (List.mem_filter.mp hr).2
  · rw [← hcount]
    unfold clearLines
    dsimp only
    split
    · rfl
    · dsimp only
      omega
  · rw [← hcount]
    unfold clearLines
    dsimp only
    split
    · dsimp only
      omega
    · dsimp only
      omega

/-! ## Garbage -/

theorem shiftUp?_eq (b : Board) {k n : ℕ} (hk : 0 < k) (hn : n + k ≤ boardHeight) :
    shiftUp? k n b = some ⟨fun y =>
      if h : y.val < n then b.cells ⟨y.val + k,by omega⟩ else b.cells y⟩ := by
  unfold shiftUp?
  induction n with
  | zero =>
    have h0 : ∀ y : Fin boardHeight, ¬y.val < 0 := fun y => Nat.not_lt_zero _
    simp only [List.range_zero,List.foldlM_nil,h0,↓reduceDIte]
    rfl
  | succ n ih =>
    rw [List.range_succ,List.foldlM_append,ih (by omega)]
    simp only [Option.bind_eq_bind,Option.bind_some,List.foldlM_cons,List.foldlM_nil]
    rw [copyRow?_eq _ (by omega) (by omega) (by omega)]
    refine congrArg some (Board.eq_of_cells fun y => ?_)
    dsimp only [Board.setRow]
    -- the row that is read lies below all rows written so far
    have hread : ¬n + k < n := by omega
    by_cases hy : y.val = n
    · have h2 : y.val < n + 1 := by omega
      rw [if_pos hy,dif_neg hread,dif_pos h2]
      congr 1
      exact Fin.ext (by dsimp only; omega)
    · by_cases hlt : y.val < n
      · have h2 : y.val < n + 1 := by omega
        rw [if_neg hy,dif_pos hlt,dif_pos h2]
      · have h2 : ¬y.val < n + 1 := by omega
        rw [if_neg hy,dif_neg hlt,dif_neg h2]

def garbageRow (hole : ℕ) : Row := fun x => if x.val = hole then 0 else 8

theorem garbageRows?_eq (rand : ℕ → ℕ) (b : Board) {k : ℕ} (hk : k ≤ boardHeight) :
    garbageRows? rand k b = some ⟨fun y =>
      if boardHeight ≤ y.val + k then garbageRow (rand (y.val + k - boardHeight) % boardWidth) else b.cells y⟩ := by
  have hstep : ∀ n ≤ k, (List.range n).foldlM (fun b i =>
      let hole := rand i % boardWidth
      writeRow? (boardHeight - k + i) (fun _ x => some (if x = hole then 0 else 8)) b) b =
      some ⟨fun y => if boardHeight ≤ y.val + k ∧ y.val + k < boardHeight + n then
        garbageRow (rand (y.val + k - boardHeight) % boardWidth) else b.cells y⟩ := by
    intro n hn
    induction n with
    | zero =>
      have h0 : ∀ y : Fin boardHeight, ¬(boardHeight ≤ y.val + k ∧ y.val + k < boardHeight + 0) :=
        fun y h => by omega
      simp only [List.range_zero,List.foldlM_nil,h0,↓reduceIte]
      rfl
    | succ n ih =>
      have hfill := fun b' => fillRow?_eq b' (y := boardHeight - k + n)
        (fun x => if x = rand n % boardWidth then 0 else 8) (by omega)
      rw [List.range_succ,List.foldlM_append,ih (by omega)]
      simp only [Option.bind_eq_bind,Option.bind_some,List.foldlM_cons,List.foldlM_nil,hfill]
      refine congrArg some (Board.eq_of_cells fun y => ?_)
      dsimp only [Board.setRow]
      by_cases hy : y.val = boardHeight - k + n
      · have h2 : boardHeight ≤ y.val + k ∧ y.val + k < boardHeight + (n + 1) := by omega
        have hi : y.val + k - boardHeight = n := by omega
        rw [if_pos hy,if_pos h2,hi]
        rfl
      · by_cases hlt : boardHeight ≤ y.val + k ∧ y.val + k < boardHeight + n
        · have h2 : boardHeight ≤ y.val + k ∧ y.val + k < boardHeight + (n + 1) := by omega
          rw [if_neg hy,if_pos hlt,if_pos h2]
        · have h2 : ¬(boardHeight ≤ y.val + k ∧ y.val + k < boardHeight + (n + 1)) := by omega
          rw [if_neg hy,if_neg hlt,if_neg h2]
  rw [garbageRows?,hstep k le_rfl]
  refine congrArg some (Board.eq_of_cells fun y => ?_)
  have hlt : y.val + k < boardHeight + k := Nat.add_lt_add_right y.isLt k
  simp only [hlt,and_true]

theorem addGarbage?_eq (rand : ℕ → ℕ) (s : GameState) (lines : ℤ) :
    addGarbage? rand s lines = some (addGarbage rand s lines) := by
  unfold addGarbage? addGarbage
  by_cases h0 : lines ≤ 0
  · rw [if_pos h0,if_pos h0]
  · rw [if_neg h0,if_neg h0]
    have hk : (if lines > boardHeight then boardHeight else lines.toNat) = (min lines boardHeight).toNat := by
      split
      · rw [min_eq_right (by omega),Int.toNat_natCast]
      · rw [min_eq_left (by omega)]
    rw [hk]
    have hmin : 0 < min lines (boardHeight : ℤ) := lt_min (by omega) (by decide)
    have hmax : min lines (boardHeight : ℤ) ≤ boardHeight := min_le_right _ _
    generalize min lines (boardHeight : ℤ) = m at hmin hmax
    generalize hm : m.toNat = k
    have hpos : 0 < k := by omega
    have hle : k ≤ boardHeight := by omega
    dsimp only
    rw [shiftUp?_eq s.board hpos (by omega),Option.bind_some,garbageRows?_eq rand _ hle,Option.map_some]
    congr 3
    funext y x
    dsimp only
    by_cases hy : y.val + k < boardHeight
    · have h1 : ¬boardHeight ≤ y.val + k := by omega
      have h2 : y.val < boardHeight - k := by omega
      rw [if_neg h1,dif_pos h2,dif_pos hy]
    · have h1 : boardHeight ≤ y.val + k := by omega
      rw [if_pos h1,dif_neg hy]
      rfl

theorem addGarbage_rows (rand : ℕ → ℕ) (s : GameState) {lines : ℤ} (h : 0 < lines) {k : ℕ}
    (hk : (k : ℤ) = min lines boardHeight) (y : Fin boardHeight) :
    (addGarbage rand s lines).board.cells y =
      if hy : y.val + k < boardHeight then s.board.cells ⟨y.val + k,hy⟩
      else garbageRow (rand (y.val + k - boardHeight) % boardWidth) := by
  have hm : (min lines (boardHeight : ℤ)).toNat = k := by omega
  unfold addGarbage
  rw [if_neg (by omega),hm]
  funext x
  dsimp only
  split <;> rfl

end CoreStack.Tetris
