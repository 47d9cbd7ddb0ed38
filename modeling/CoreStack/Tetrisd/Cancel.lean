import CoreStack.Tetrisd.Cells
import CoreStack.Tetrisd.Slots
import Mathlib.Data.Int.Interval

/-! # Damage against pending garbage

What a lock deals and what is queued against the player meet in `tick_game`: the same
amount goes from both. A board between two locks has no full row, so a lock fills at
most the four rows its piece reaches and deals at most fourteen.
-/
namespace CoreStack.Tetrisd
open Tetris Execution

/-! ## One lock -/

theorem addGarbage_rows_of_le (rand : ℕ → ℕ) (s : GameState) {k : ℕ} (hk : k ≤ boardHeight) (y : Fin boardHeight) :
    (addGarbage rand s k).board.cells y =
      if hy : y.val + k < boardHeight then s.board.cells ⟨y.val + k,hy⟩
      else garbageRow (rand (y.val + k - boardHeight) % boardWidth) := by
  rcases Nat.eq_zero_or_pos k with h0 | hpos
  · subst h0
    have he : addGarbage rand s (0 : ℕ) = s := if_pos le_rfl
    have hy : y.val + 0 < boardHeight := y.isLt
    rw [he,dif_pos hy]
    rfl
  · exact addGarbage_rows rand s (by omega) (min_eq_left (by omega)).symm y

theorem addGarbage_board_congr (rand : ℕ → ℕ) {s t : GameState} (h : s.board = t.board) (lines : ℤ) :
    (addGarbage rand s lines).board = (addGarbage rand t lines).board := by
  unfold addGarbage
  split
  · exact h
  · rw [h]

theorem settleGarbage_cleared (rand : ℕ → ℕ) {o : LockOutcome} (hc : 0 < o.cleared) :
    settleGarbage rand o = { o.state with outgoingGarbage := toU32 o.damage } :=
  if_neg fun h => by omega

theorem settleGarbage_plain (rand : ℕ → ℕ) {o : LockOutcome} (hc : o.cleared = 0)
    (hp : o.state.pendingGarbage ≤ boardHeight) :
    (settleGarbage rand o).pendingGarbage = 0 ∧
    (settleGarbage rand o).board = (addGarbage rand o.state o.state.pendingGarbage).board := by
  have hi : toI32 o.state.pendingGarbage = o.state.pendingGarbage := toI32_of_lt (hp.trans_lt (by decide))
  unfold settleGarbage
  dsimp only
  by_cases h0 : o.state.pendingGarbage = 0
  · have hn : ¬(o.cleared = 0 ∧ o.state.pendingGarbage > 0) := by omega
    have he : addGarbage rand o.state (0 : ℕ) = o.state := if_pos le_rfl
    rw [if_neg hn,h0,he]
    exact ⟨rfl,rfl⟩
  · rw [if_pos ⟨hc,Nat.pos_of_ne_zero h0⟩,hi]
    refine ⟨rfl,addGarbage_board_congr rand ?_ _⟩
    rfl

theorem clearLines_none {s : GameState} (h : (clearLines s).2 = 0) : (clearLines s).1.board = s.board := by
  obtain ⟨hr,hc⟩ := clearLines_rows s
  have h0 : s.board.rows.countP Row.full = 0 := hc ▸ h
  have hrows : (clearLines s).1.board.rows = s.board.rows := by
    rw [hr,Compaction.compacted,h0]
    refine List.filter_eq_self.mpr fun r hm => ?_
    simpa using List.countP_eq_zero.mp h0 r hm
  exact Board.eq_of_cells fun y => congrFun (List.ofFn_injective hrows) y

theorem attack_of_plain {s : GameState} (h : (resolveLock s).cleared = 0) : attack s = 0 := by
  have ha : ∃ t tspin, attack s = (calculateGarbage t (resolveLock s).cleared tspin).2 := ⟨_,_,rfl⟩
  obtain ⟨t,tspin,ha⟩ := ha
  rw [ha,h]
  rfl

/-- What `tick_game` leaves of damage and pending garbage when it locks the piece. -/
theorem tickGame_cancels (rand : ℕ → ℕ) {s : GameState} (hp : s.pendingGarbage ≤ boardHeight) (hl : locks s = true) :
    (tickGame rand s).2 = (clearLines (lockPiece s)).2 ∧
    (0 < (tickGame rand s).2 →
      ((tickGame rand s).1.outgoingGarbage : ℤ) = attack s - min (attack s) s.pendingGarbage ∧
      ((tickGame rand s).1.pendingGarbage : ℤ) = s.pendingGarbage - min (attack s) s.pendingGarbage ∧
      (tickGame rand s).1.board = (clearLines (lockPiece s)).1.board) ∧
    ((tickGame rand s).2 = 0 →
      (tickGame rand s).1.outgoingGarbage = 0 ∧ (tickGame rand s).1.pendingGarbage = 0 ∧
      ∀ y : Fin boardHeight, (tickGame rand s).1.board.cells y =
        if hy : y.val + s.pendingGarbage < boardHeight then
          (lockPiece s).board.cells ⟨y.val + s.pendingGarbage,hy⟩
        else garbageRow (rand (y.val + s.pendingGarbage - boardHeight) % boardWidth)) := by
  obtain ⟨hc,hy⟩ := locks_iff.mp hl
  have hc : ¬canFall s = true := Bool.eq_false_iff.mp hc
  have hy : ¬s.current.y < 0 := not_lt.mpr hy
  obtain ⟨hboard,hcleared⟩ := resolveLock_board s
  obtain ⟨hd,hpend⟩ := resolveLock_cancels s
  have hplain := @attack_of_plain s
  have hcancel := cancelGarbage_eq (attack_bounds s).1 (attack_le s) hp
  have hbounds := attack_bounds s
  have hle := attack_le s
  have hret : (tickGame rand s).2 = (resolveLock s).cleared := by
    unfold tickGame
    rw [if_neg hc,if_neg hy]
  have hm := tickGame_meters_lock rand hc hy
  have hb : (tickGame rand s).1.board = (settleGarbage rand (resolveLock s)).board := tickGame_board_locked rand hl
  have hout : (tickGame rand s).1.outgoingGarbage = toU32 (resolveLock s).damage :=
    (congrArg Prod.snd hm).trans (settleGarbage_meters rand (resolveLock s)).1
  have hpen : (tickGame rand s).1.pendingGarbage = (settleGarbage rand (resolveLock s)).pendingGarbage :=
    congrArg Prod.fst hm
  rw [hret,hout,hpen,hb]
  generalize resolveLock s = o at *
  refine ⟨hcleared,?_,?_⟩
  · intro h
    rw [settleGarbage_cleared rand h]
    have hu := @toU32_of_nonneg o.damage (by omega) (by dsimp only [maxDamage] at hle; omega)
    dsimp only
    rw [hu,hd,hpend]
    exact ⟨hcancel.1,hcancel.2,hboard⟩
  · intro h
    have h0 := hplain h
    have hdam : o.damage = 0 := by rw [hd,h0]; rfl
    have hstay : o.state.pendingGarbage = s.pendingGarbage := by rw [hpend,h0]; rfl
    obtain ⟨hz,hrows⟩ := settleGarbage_plain rand h (hstay ▸ hp)
    refine ⟨by rw [hdam]; rfl,hz,?_⟩
    intro y
    rw [hrows,addGarbage_rows_of_le rand o.state (hstay ▸ hp),hstay,hboard,clearLines_none (hcleared.symm.trans h)]

/-! ## A whole game -/

theorem lockPiece_full_rows {s : GameState} (h : TidyBoard s.board) {y : Fin boardHeight}
    (hf : Row.full ((lockPiece s).board.cells y) = true) : s.current.y ≤ y.val ∧ (y.val : ℤ) ≤ s.current.y + 3 := by
  by_contra hn
  have hout : ∀ x, (lockPiece s).board.cells y x = s.board.cells y x := by
    intro x
    rw [lockPiece_cells s (y,x),if_neg]
    intro hm
    obtain ⟨d,hd,-,hy⟩ := mem_footprint.mp hm
    have hd4 : d.2 < 4 := (mem_localCells.mp (mem_solidCells.mp hd).1).2
    dsimp only at hy
    omega
  rw [funext hout,(h y).gap] at hf
  cases hf

theorem locks_cleared_le {s : GameState} (h : TidyBoard s.board) : (resolveLock s).cleared ≤ 4 := by
  rw [(resolveLock_board s).2,(clearLines_rows (lockPiece s)).2,Board.rows,List.ofFn_eq_map,List.countP_map,
    List.countP_eq_length_filter,← List.toFinset_card_of_nodup ((List.nodup_finRange _).filter _)]
  have hcard : (Finset.Icc s.current.y (s.current.y + 3)).card = 4 := by
    rw [Int.card_Icc]
    omega
  rw [← hcard]
  refine Finset.card_le_card_of_injOn (fun y : Fin boardHeight => (y.val : ℤ)) ?_ ?_
  · intro y hy
    have hf := (List.mem_filter.mp (List.mem_toFinset.mp hy)).2
    exact Finset.mem_coe.mpr (Finset.mem_Icc.mpr (lockPiece_full_rows h hf))
  · intro y _ z _ he
    exact Fin.ext (Int.ofNat.inj he)

theorem attack_le_of_tidy {s : GameState} (h : TidyBoard s.board) : attack s ≤ 14 := by
  have hb := (attack_bounds s).2
  have hc := locks_cleared_le h
  omega

theorem Move.apply_metered {s : GameState} (h : s.Metered) (m : Move) : (m.apply s).Metered := by
  cases m with
  | action rand roster a =>
    dsimp only [Move.apply,act]
    split
    · exact h
    · exact performAction_metered rand roster h a
  | timers rand => exact updateTimers_metered rand h
  | queue lines => exact queueGarbage_metered h lines
  | attacker playerId => exact h.congr rfl
  | drain => exact ⟨h.pending,Nat.zero_le _⟩
  | finish winnerId => exact h.congr rfl

theorem Move.tick_meters {s u : GameState} {m : Move} {rand : ℕ → ℕ} (h : m.tick s = some (rand,u)) :
    u.meters = s.meters := by
  unfold Move.tick at h
  split at h
  · split at h
    · cases h
    · cases h
      exact hardDrop_meters s
  · split at h
    · split at h
      · cases h
        rfl
      · cases h
    · split at h
      · cases h
        rfl
      · cases h
  · cases h

theorem Play.start_metered (rand : ℕ → ℕ) (playerId target : ℕ) :
    (Play.start rand playerId target).state.Metered := (startGame_metered rand).congr rfl

theorem Play.run_metered {rand : ℕ → ℕ} {playerId target : ℕ} {moves : List Move} {p : Play}
    (hr : run Play.step (Play.start rand playerId target) moves = some p) : p.state.Metered := by
  refine run_invariant (I := fun p : Play => p.state.Metered) ?_ hr (Play.start_metered rand playerId target)
  intro p m q hp hq
  cases hq
  exact Move.apply_metered hp m

/-- A lock takes the smaller of its damage and the pending garbage from both: after a
clear the rest of each stays and no row comes in, after a plain lock everything pending
comes in. Along every game what is pending fits the board, the damage is at most
fourteen, and the unsigned sums are exact. -/
theorem Play.garbage_cancellation (draws : ℕ → ℕ) (s : GameState) (hp : s.pendingGarbage ≤ boardHeight)
    (hl : locks s = true) (rand : ℕ → ℕ) (playerId target : ℕ) (moves : List Move) (p : Play)
    (hr : run Play.step (Play.start rand playerId target) moves = some p) :
    ((tickGame draws s).2 = (clearLines (lockPiece s)).2 ∧
      (0 < (tickGame draws s).2 →
        ((tickGame draws s).1.outgoingGarbage : ℤ) = attack s - min (attack s) s.pendingGarbage ∧
        ((tickGame draws s).1.pendingGarbage : ℤ) = s.pendingGarbage - min (attack s) s.pendingGarbage ∧
        (tickGame draws s).1.board = (clearLines (lockPiece s)).1.board) ∧
      ((tickGame draws s).2 = 0 →
        (tickGame draws s).1.outgoingGarbage = 0 ∧ (tickGame draws s).1.pendingGarbage = 0 ∧
        ∀ y : Fin boardHeight, (tickGame draws s).1.board.cells y =
          if hy : y.val + s.pendingGarbage < boardHeight then
            (lockPiece s).board.cells ⟨y.val + s.pendingGarbage,hy⟩
          else garbageRow (draws (y.val + s.pendingGarbage - boardHeight) % boardWidth))) ∧
    p.state.pendingGarbage ≤ boardHeight ∧
    (∀ lines : ℤ, 0 < lines → lines < 2147483648 → p.state.pendingGarbage + lines < 4294967296 ∧
      ((queueGarbage p.state lines).pendingGarbage : ℤ) = min (boardHeight : ℤ) (p.state.pendingGarbage + lines)) ∧
    ∀ u, (u = p.state ∨ ∃ (m : Move) (rand : ℕ → ℕ), m.tick p.state = some (rand,u)) →
      u.pendingGarbage ≤ boardHeight ∧ 0 ≤ attack u ∧ attack u ≤ 14 := by
  have hm := Play.run_metered hr
  have ht := Play.run_tidy hr
  refine ⟨tickGame_cancels draws hp hl,hm.pending,?_,?_⟩
  · intro lines h0 hlt
    have hpend : p.state.pendingGarbage ≤ 20 := hm.pending
    have hq := queueGarbage_pending p.state h0 hlt hm.pending
    rw [hq]
    omega
  · rintro u (rfl | ⟨m,rand,hu⟩)
    · exact ⟨hm.pending,(attack_bounds _).1,attack_le_of_tidy ht⟩
    · have hb := (Move.tick_carries hu).board
      exact ⟨(hm.congr (Move.tick_meters hu)).pending,(attack_bounds _).1,attack_le_of_tidy (hb ▸ ht)⟩

/-- Three rows are pending when the first piece is dropped: it clears nothing and they
all come in. -/
theorem Play.garbage_cancellation_first_drop :
    ∃ p, run Play.step (Play.start (fun i => 5 * i + 3) 1 2) [.queue 3] = some p ∧
      p.state.pendingGarbage = 3 ∧ (tickGame id (hardDrop p.state)).2 = 0 ∧
      (tickGame id (hardDrop p.state)).1.pendingGarbage = 0 ∧
      (tickGame id (hardDrop p.state)).1.outgoingGarbage = 0 ∧ attack p.state ≤ 14 := by
  obtain ⟨p,hr,ht⟩ := exists_of_run_any Play.step (Play.start (fun i => 5 * i + 3) 1 2) [.queue 3]
    (fun p : Play => locks (hardDrop p.state) && p.state.pendingGarbage == 3 &&
      (tickGame id (hardDrop p.state)).2 == 0) (by decide +kernel)
  simp only [Bool.and_eq_true,beq_iff_eq] at ht
  obtain ⟨⟨hl,h3⟩,h0⟩ := ht
  have hp : (hardDrop p.state).pendingGarbage ≤ boardHeight := by
    have hm : (hardDrop p.state).pendingGarbage = p.state.pendingGarbage := congrArg Prod.fst (hardDrop_meters p.state)
    rw [hm,h3]
    decide
  obtain ⟨⟨-,-,hplain⟩,-,-,hall⟩ := Play.garbage_cancellation id (hardDrop p.state) hp hl _ 1 2 _ p hr
  obtain ⟨hout,hpend,-⟩ := hplain h0
  exact ⟨p,hr,h3,h0,hpend,hout,(hall p.state (.inl rfl)).2.2⟩

end CoreStack.Tetrisd
