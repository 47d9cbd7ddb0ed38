import CoreStack.Hypertext.Payloads
import CoreStack.Tetris.Protocol

/-! # Snapshots as 32-bit words (`protocol.c` over `payload.h`)

The game counts in naturals and integers, the payload is printed as words. A snapshot that
fits the words is read back from them.
-/
namespace CoreStack.Tetris
open Utils

namespace StatePayload

/-- `next` is what `next_type` holds, which nothing sets. -/
def words (next : Word) (p : StatePayload) : Hypertext.StatePayload where
  board := fun row col => UInt8.ofNat (p.board.cells row col)
  currentType := BitVec.ofNat 32 p.currentType
  currentRot := BitVec.ofNat 32 p.currentRot
  currentX := BitVec.ofInt 32 p.currentX
  currentY := BitVec.ofInt 32 p.currentY
  nextType := next
  preview := fun i => BitVec.ofNat 32 (p.preview.getD i 0)
  heldType := BitVec.ofInt 32 p.heldType
  hasHeld := BitVec.ofNat 32 p.hasHeld
  playerId := BitVec.ofNat 32 p.playerId
  score := BitVec.ofNat 32 p.score
  level := BitVec.ofNat 32 p.level
  linesCleared := BitVec.ofNat 32 p.linesCleared
  combo := BitVec.ofInt 32 p.combo
  b2b := BitVec.ofNat 32 p.b2b
  tSpins := BitVec.ofNat 32 p.tSpins
  tetrises := BitVec.ofNat 32 p.tetrises
  pendingGarbage := BitVec.ofNat 32 p.pendingGarbage
  targetPlayerId := BitVec.ofNat 32 p.targetPlayerId
  targetMode := BitVec.ofNat 32 p.targetMode
  gameOver := BitVec.ofNat 32 p.gameOver
  winnerId := BitVec.ofNat 32 p.winnerId

def ofWords (p : Hypertext.StatePayload) : StatePayload where
  board := ⟨fun row col => (p.board row col).toNat⟩
  currentType := p.currentType.toNat
  currentRot := p.currentRot.toNat
  currentX := p.currentX.toInt
  currentY := p.currentY.toInt
  preview := [(p.preview ⟨0,by decide⟩).toNat,(p.preview ⟨1,by decide⟩).toNat,(p.preview ⟨2,by decide⟩).toNat]
  heldType := p.heldType.toInt
  hasHeld := p.hasHeld.toNat
  playerId := p.playerId.toNat
  score := p.score.toNat
  level := p.level.toNat
  linesCleared := p.linesCleared.toNat
  combo := p.combo.toInt
  b2b := p.b2b.toNat
  tSpins := p.tSpins.toNat
  tetrises := p.tetrises.toNat
  pendingGarbage := p.pendingGarbage.toNat
  targetPlayerId := p.targetPlayerId.toNat
  targetMode := p.targetMode.toNat
  gameOver := p.gameOver.toNat
  winnerId := p.winnerId.toNat

end StatePayload

/-- The fields of a state that a snapshot takes as they are have the values of their C types. -/
structure GameState.Sized (s : GameState) : Prop where
  cells : ∀ row col, s.board.cells row col ≤ 8
  x : IsInt s.current.x
  y : IsInt s.current.y
  heldType : s.heldType ≤ 7
  playerId : s.playerId < 4294967296
  combo : IsInt s.combo
  pendingGarbage : s.pendingGarbage < 4294967296
  targetPlayerId : s.targetPlayerId < 4294967296
  winnerId : s.winnerId < 4294967296

theorem toU32_lt (z : ℤ) : toU32 z < 4294967296 := by
  unfold toU32
  omega

theorem toNat_ofNat_word {n : ℕ} (h : n < 4294967296) : (BitVec.ofNat 32 n).toNat = n := by
  rw [BitVec.toNat_ofNat]
  exact Nat.mod_eq_of_lt h

theorem toInt_ofInt_word {z : ℤ} (h : IsInt z) : (BitVec.ofInt 32 z).toInt = z :=
  BitVec.toInt_ofInt_eq_self (by decide) h.1 h.2

theorem bool_toNat_lt (b : Bool) : b.toNat < 4294967296 := Nat.lt_of_le_of_lt b.toNat_le (by decide)

theorem toNat_ofNat_cell {n : ℕ} (h : n ≤ 8) : (UInt8.ofNat n).toNat = n := by
  rw [UInt8.toNat_ofNat']
  exact Nat.mod_eq_of_lt (Nat.lt_of_le_of_lt h (by decide))

theorem ofWords_words {s : GameState} (h : s.Sized) (next : Word) :
    StatePayload.ofWords ((buildStatePayload s).words next) = buildStatePayload s := by
  have hrot : s.current.rot.code < 4294967296 := by cases s.current.rot <;> decide
  have hmode : s.targetMode.code < 4294967296 := by cases s.targetMode <;> decide
  have hcell : ∀ row col, (UInt8.ofNat (s.board.cells row col)).toNat = s.board.cells row col :=
    fun row col => toNat_ofNat_cell (h.cells row col)
  have hheld : IsInt (s.heldType : ℤ) := by
    have hle := h.heldType
    unfold IsInt
    omega
  unfold StatePayload.ofWords StatePayload.words buildStatePayload
  simp only [hcell,toNat_ofNat_word (toU32_lt _),toNat_ofNat_word hrot,toNat_ofNat_word hmode,
    toNat_ofNat_word (bool_toNat_lt _),toNat_ofNat_word h.playerId,toNat_ofNat_word h.pendingGarbage,
    toNat_ofNat_word h.targetPlayerId,toNat_ofNat_word h.winnerId,toInt_ofInt_word h.x,toInt_ofInt_word h.y,
    toInt_ofInt_word h.combo,toInt_ofInt_word hheld]
  congr 1
  have hword : ∀ i, (BitVec.ofNat 32 (toU32 (s.bag.getD ((s.bagIndex + i) % 14) 0 : ℕ))).toNat =
      toU32 (s.bag.getD ((s.bagIndex + i) % 14) 0 : ℕ) := fun i => toNat_ofNat_word (toU32_lt _)
  change [BitVec.toNat _,BitVec.toNat _,BitVec.toNat _] = [_,_,_]
  exact congrArg₂ _ (hword 0) (congrArg₂ _ (hword 1) (congrArg (· :: []) (hword 2)))

theorem words_cellsLegal {s : GameState} (h : s.Sized) (next : Word) :
    Hypertext.CellsLegal ((buildStatePayload s).words next).board := by
  intro row col
  have hle := h.cells row col
  change UInt8.ofNat (s.board.cells row col) ≤ 8
  rw [UInt8.le_iff_toNat_le,toNat_ofNat_cell hle]
  exact hle

end CoreStack.Tetris
