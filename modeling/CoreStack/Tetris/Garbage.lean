import CoreStack.Tetris.Bag
import Mathlib.Tactic.IntervalCases
import Mathlib.Algebra.Order.Ring.Int

/-! # Garbage lines (`garbage.c`) -/
namespace CoreStack.Tetris

/-- Row `y` moves up by the clamped amount and the bottom fills with one hole a row. -/
def addGarbage (rand : ℕ → ℕ) (s : GameState) (lines : ℤ) : GameState :=
  if lines ≤ 0 then s
  else
    let k := (min lines boardHeight).toNat
    { s with board := ⟨fun y x =>
        if h : y.val + k < boardHeight then s.board.cells ⟨y.val + k,h⟩ x
        else if x.val = rand (y.val + k - boardHeight) % boardWidth then 0 else 8⟩ }

def queueGarbage (s : GameState) (lines : ℤ) : GameState :=
  if lines ≤ 0 then s
  else
    let pending := (s.pendingGarbage + toU32 lines) % 4294967296
    { s with pendingGarbage := if pending > boardHeight then boardHeight else pending }

def comboTable : List ℤ := [0, 0, 1, 1, 2, 2, 3, 3, 4, 4, 4, 5]

def baseGarbage (linesCleared : ℕ) (isTSpin : Bool) : ℤ :=
  if isTSpin then linesCleared * 2
  else if linesCleared = 2 then 1
  else if linesCleared = 3 then 3
  else if linesCleared = 4 then 4
  else 0

def comboBonus (combo : ℤ) : ℤ :=
  if combo > 0 then
    if combo < 12 then comboTable.getD combo.toNat 0 else 5
  else 0

def calculateGarbage (s : GameState) (linesCleared : ℕ) (isTSpin : Bool) : GameState × ℤ :=
  if linesCleared = 0 then ({ s with combo := -1 }, 0)
  else
    let combo := s.combo + 1
    let difficult := isTSpin || linesCleared == 4
    let base := baseGarbage linesCleared isTSpin
    let base := if difficult && s.b2b then base + 1 else base
    ({ s with combo := combo, b2b := difficult }, base + comboBonus combo)

theorem comboBonus_bounds (combo : ℤ) : 0 ≤ comboBonus combo ∧ comboBonus combo ≤ 5 := by
  unfold comboBonus
  split
  · split
    · have hc : combo.toNat < 12 := by omega
      generalize combo.toNat = n at hc
      interval_cases n <;> exact ⟨by decide,by decide⟩
    · exact ⟨by decide,le_rfl⟩
  · exact ⟨le_rfl,by decide⟩

theorem baseGarbage_bounds (n : ℕ) (t : Bool) : 0 ≤ baseGarbage n t ∧ baseGarbage n t ≤ 2 * n := by
  unfold baseGarbage
  split_ifs <;> omega

theorem calculateGarbage_bounds (s : GameState) (n : ℕ) (t : Bool) :
    0 ≤ (calculateGarbage s n t).2 ∧ (calculateGarbage s n t).2 ≤ 2 * n + 6 := by
  have hb := baseGarbage_bounds n t
  have hc := comboBonus_bounds (s.combo + 1)
  unfold calculateGarbage
  dsimp only
  split_ifs <;> dsimp only <;> omega

theorem queueGarbage_pending (s : GameState) {lines : ℤ} (h : 0 < lines) (hl : lines < 2147483648)
    (hp : s.pendingGarbage ≤ boardHeight) :
    (queueGarbage s lines).pendingGarbage = min boardHeight (s.pendingGarbage + lines.toNat) := by
  have hu : toU32 lines = lines.toNat := by unfold toU32; omega
  unfold queueGarbage
  rw [if_neg (by omega),hu]
  dsimp only [boardHeight] at hp ⊢
  have hm : (s.pendingGarbage + lines.toNat) % 4294967296 = s.pendingGarbage + lines.toNat :=
    Nat.mod_eq_of_lt (by omega)
  rw [hm]
  split <;> omega

theorem queueGarbage_pending_le (s : GameState) (lines : ℤ) (hp : s.pendingGarbage ≤ boardHeight) :
    (queueGarbage s lines).pendingGarbage ≤ boardHeight := by
  unfold queueGarbage
  split
  · exact hp
  · dsimp only
    split <;> omega

end CoreStack.Tetris
