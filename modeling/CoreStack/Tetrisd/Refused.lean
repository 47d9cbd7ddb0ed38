import CoreStack.Tetrisd.Game

/-! # Refused moves

`apply_action` restarts the lock delay for a shift only when the shift succeeds, but
for a rotation always: a rotation whose kicks all fail still clears the timer.
-/
namespace CoreStack.Tetrisd
open Tetris

/-- The actions that try to move the current piece. -/
def PlayerAction.shifts : PlayerAction → Bool
  | .moveLeft | .moveRight | .rotateCW | .rotateCCW | .softDrop => true
  | _ => false

/-- The rotation an action asks for. -/
def PlayerAction.turn (r : Rotation) : PlayerAction → Option Rotation
  | .rotateCW => some r.clockwise
  | .rotateCCW => some r.counterClockwise
  | _ => Option.none

def Stayed (s t : GameState) : Prop :=
  t.current.x = s.current.x ∧ t.current.y = s.current.y ∧ t.current.rot = s.current.rot

/-- One of the five kicks into `next` finds a valid position. -/
def kickFits (s : GameState) (next : Rotation) : Prop :=
  ∃ o ∈ kickOffsets s.current.type (getTransitionIndex s.current.rot next),
    isValidPos s.board s.current.type next (s.current.x + o.1) (s.current.y + o.2) = true

theorem clockwise_ne (r : Rotation) : r.clockwise ≠ r := by cases r <;> decide
theorem counterClockwise_ne (r : Rotation) : r.counterClockwise ≠ r := by cases r <;> decide

theorem turn_ne {a : PlayerAction} {r next : Rotation} (h : a.turn r = some next) : next ≠ r := by
  cases a <;> simp only [PlayerAction.turn,Option.some.injEq,reduceCtorEq] at h
  · exact h ▸ clockwise_ne r
  · exact h ▸ counterClockwise_ne r

theorem shift_stayed {rand : ℕ → ℕ} {roster : Roster} {s : GameState} {a : PlayerAction} (ha : a.shifts = true)
    (ht : a.turn s.current.rot = none) (h : Stayed s (performAction rand roster s a)) :
    performAction rand roster s a = s := by
  obtain ⟨hx,hy,-⟩ := h
  cases a with
  | moveLeft =>
    dsimp only [performAction] at hx ⊢
    unfold Tetris.moveLeft at hx ⊢
    split at hx
    · simp at hx
    · rename_i hv
      simp [hv]
  | moveRight =>
    dsimp only [performAction] at hx ⊢
    unfold Tetris.moveRight at hx ⊢
    split at hx
    · simp at hx
    · rename_i hv
      simp [hv]
  | softDrop =>
    dsimp only [performAction] at hy ⊢
    unfold Tetris.softDrop at hy ⊢
    split at hy
    · simp at hy
    · rename_i hv
      simp [hv]
  | rotateCW => cases ht
  | rotateCCW => cases ht
  | none | hardDrop | hold | cycleTargetMode | cycleTarget | quit => cases ha

theorem performAction_turn_eq (rand : ℕ → ℕ) (roster : Roster) {s : GameState} {a : PlayerAction} {next : Rotation}
    (h : a.turn s.current.rot = some next) :
    performAction rand roster s a = { (testRotate s next).1 with lockTimer := 0 } := by
  cases a <;> simp only [PlayerAction.turn,Option.some.injEq,reduceCtorEq] at h
  · subst h
    rfl
  · subst h
    rfl

theorem testRotate_refused {s : GameState} {next : Rotation} (h : ¬kickFits s next) : testRotate s next = (s,false) := by
  unfold testRotate
  dsimp only
  split
  · rename_i o ho
    have hv := List.find?_some ho
    exact absurd ⟨o,List.mem_of_find?_eq_some ho,hv⟩ h
  · rfl

theorem testRotate_turned {s : GameState} {next : Rotation} (h : kickFits s next) :
    (testRotate s next).1.current.rot = next := by
  obtain ⟨o,hm,hv⟩ := h
  unfold testRotate
  dsimp only
  split
  · rfl
  · rename_i hn
    exact absurd hv (List.find?_eq_none.mp hn o hm)

/-- A move that leaves the piece where it was changes the lock timer or nothing, and the
timer exactly when it is running and the move is a rotation that finds no place. -/
theorem performAction_stayed_iff (rand : ℕ → ℕ) (roster : Roster) (s : GameState) {a : PlayerAction}
    (ha : a.shifts = true) :
    (Stayed s (performAction rand roster s a) → performAction rand roster s a = s) ↔
      ((∀ next, a.turn s.current.rot = some next → kickFits s next) ∨ s.lockTimer = 0) := by
  cases ht : a.turn s.current.rot with
  | none => exact ⟨fun _ => .inl fun _ hn => (by cases hn),fun _ h => shift_stayed ha ht h⟩
  | some next =>
    rw [performAction_turn_eq rand roster ht]
    by_cases hk : kickFits s next
    · refine ⟨fun _ => .inl fun n hn => Option.some.inj hn ▸ hk,fun _ h => ?_⟩
      exact absurd ((testRotate_turned hk).symm.trans h.2.2) (turn_ne ht)
    · rw [testRotate_refused hk]
      constructor
      · intro h
        have he := congrArg GameState.lockTimer (h ⟨rfl,rfl,rfl⟩)
        exact .inr he.symm
      · rintro (h | h) -
        · exact absurd (h next rfl) hk
        · dsimp only
          rw [← h]

/-- A refused move leaves the whole `GameState` of the slot as it was if and only if the
slot is out, the move is no rotation, one of its kicks fits, or the lock timer stands
at zero. -/
theorem applyAction_refused_iff (rand : ℕ → ℕ) (session : GameSession) (slot : Option ℕ) {a : PlayerAction}
    (ha : a.shifts = true) {i : ℕ} {p : PlayerSlot} (hp : session.slotAt slot = some (i,p)) :
    (∀ q, (applyAction rand session slot a).players[i]? = some q → Stayed p.state q.state → q.state = p.state) ↔
      (p.out = true ∨ (∀ next, a.turn p.state.current.rot = some next → kickFits p.state next) ∨
        p.state.lockTimer = 0) := by
  have hi : i < session.players.length := by
    cases slot with
    | none => cases hp
    | some j =>
      obtain ⟨q,hq,he⟩ := Option.map_eq_some_iff.mp hp
      cases he
      exact (List.getElem?_eq_some_iff.mp hq).1
  have hat : (applyAction rand session slot a).players[i]? = some (applyToSlot rand session.roster a p) := by
    unfold applyAction
    rw [hp]
    exact List.getElem?_set_self hi
  have hq : (∀ q, (applyAction rand session slot a).players[i]? = some q → Stayed p.state q.state →
      q.state = p.state) ↔ (Stayed p.state (applyToSlot rand session.roster a p).state →
      (applyToSlot rand session.roster a p).state = p.state) := by
    rw [hat]
    exact ⟨fun h => h _ rfl,fun h q hq => Option.some.inj hq ▸ h⟩
  rw [hq]
  have hn : a ≠ .none := by
    rintro rfl
    cases ha
  unfold applyToSlot
  cases ho : p.out with
  | true => simp
  | false =>
    simp only [Bool.false_eq_true,↓reduceIte,if_neg hn,false_or]
    exact performAction_stayed_iff rand session.roster p.state ha

/-- An upright I piece at the bottom of a well one column wide, its lock delay running. -/
def wellSlot : PlayerSlot where
  state := { startGame (fun _ => 0) with
    board := ⟨fun y x => if 4 ≤ y.val ∧ 0 < x.val then 8 else 0⟩
    current := ⟨1,.rot1,-2,16⟩
    lockTimer := 30 }
  playerId := 1
  active := true
  dirty := false
  elimReported := false
  idleTicks := 0

def wellSession : GameSession := ⟨[wellSlot],[⟨1,false⟩]⟩

theorem well_refuses : ¬kickFits wellSlot.state .rot2 := by
  unfold kickFits
  decide +kernel

/-- The refused rotation leaves the piece where it is and starts its lock delay over. -/
theorem well_rotation_clears_timer :
    wellSession.slotAt (some 0) = some (0,wellSlot) ∧
    ∃ q, (applyAction (fun _ => 0) wellSession (some 0) .rotateCW).players[0]? = some q ∧
      Stayed wellSlot.state q.state ∧ wellSlot.state.lockTimer = 30 ∧ q.state.lockTimer = 0 := by
  refine ⟨rfl,_,rfl,?_,rfl,rfl⟩
  have he : rotateCurrentPiece wellSlot.state = wellSlot.state :=
    congrArg Prod.fst (testRotate_refused well_refuses)
  have hs : Stayed wellSlot.state { rotateCurrentPiece wellSlot.state with lockTimer := 0 } := by
    rw [he]
    exact ⟨rfl,rfl,rfl⟩
  exact hs

theorem applyAction_refused_shift :
    ∃ q, (applyAction (fun _ => 0) wellSession (some 0) .moveLeft).players[0]? = some q ∧ q.state = wellSlot.state := by
  have hs : Stayed wellSlot.state (performAction (fun _ => 0) wellSession.roster wellSlot.state .moveLeft) := by
    unfold Stayed
    decide +kernel
  refine ⟨_,rfl,?_⟩
  exact (applyAction_refused_iff (fun _ => 0) wellSession (some 0) rfl rfl).mpr (.inr (.inl fun _ h => (by cases h))) _ rfl hs

end CoreStack.Tetrisd
