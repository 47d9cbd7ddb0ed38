import CoreStack.Tetrisd.Legal

/-! # Which rotations count for a T-spin

`last_action_rotation` is cleared by a shift and a soft drop only. A gravity step, a
hard drop, a spawn and a hold leave it set, so it can outlive the rotation it stands for.
-/
namespace CoreStack.Tetrisd
open Tetris Execution

/-- While the flag is set a T does not fall by gravity or by a hard drop, and no T
comes into play. -/
def keepsTurn (p : Play) (m : Move) : Bool :=
  !p.state.lastActionRotation ||
  match m with
  | .action _ _ .hold => p.state.gameOver || p.state.hasHeld || broughtIn p.state != 3
  | m => (m.tick p.state).all fun t =>
    (p.state.current.type != 3 || !canFall p.state) && (!locks t.2 || nextType p.state != 3)

/-- For a T the flag says that the last change of the current piece was a rotation. -/
def Flagged (s : GameState) (turned : Bool) : Prop :=
  s.current.type = 3 → s.lastActionRotation = true → turned = true

theorem hardDropLoop_flag (fuel : ℕ) (s : GameState) :
    (hardDropLoop fuel s).lastActionRotation = s.lastActionRotation := by
  induction fuel generalizing s with
  | zero => rfl
  | succ fuel ih =>
    unfold hardDropLoop
    split
    · rw [ih]
    · rfl

/-- Up to the call of `tick_game` a move leaves the flag alone. -/
theorem Move.tick_flag {s u : GameState} {m : Move} {rand : ℕ → ℕ} (h : m.tick s = some (rand,u)) :
    u.lastActionRotation = s.lastActionRotation := by
  unfold Move.tick at h
  split at h
  · split at h
    · cases h
    · cases h
      exact hardDropLoop_flag _ s
  · split at h
    · split at h
      · cases h
        rfl
      · cases h
    · split at h
      · cases h
        rfl
      · cases h
  · cases h

theorem spawnNewPiece_flag (rand : ℕ → ℕ) (s : GameState) :
    (spawnNewPiece rand s).lastActionRotation = s.lastActionRotation := by
  unfold spawnNewPiece
  dsimp only
  split <;> rfl

theorem holdPiece_flag (rand : ℕ → ℕ) (s : GameState) :
    (holdPiece rand s).lastActionRotation = s.lastActionRotation := by
  unfold holdPiece
  split
  · rfl
  · dsimp only
    split
    · exact spawnNewPiece_flag rand { s with heldType := s.current.type }
    · rfl

theorem blockOut_flag (s : GameState) : (blockOut s).lastActionRotation = s.lastActionRotation := by
  unfold blockOut
  split <;> rfl

theorem tickGame_flag (rand : ℕ → ℕ) (s : GameState) :
    (tickGame rand s).1.lastActionRotation = s.lastActionRotation := by
  cases hl : locks s with
  | true =>
    have hh := settled_hand rand s
    simp only [GameState.hand,Prod.mk.injEq] at hh
    rw [tickGame_locked rand hl,blockOut_flag,spawnNewPiece_flag,hh.2.2.2.2.1]
  | false =>
    unfold tickGame
    split
    · rfl
    · rename_i hc
      have hy : s.current.y < 0 := by simpa [locks,hc] using hl
      rw [if_pos hy]

/-- A piece at rest that `tick_game` does not lock keeps its record. -/
theorem Move.turned_tick {s u : GameState} {m : Move} {rand : ℕ → ℕ} {turned : Bool}
    (h : m.tick s = some (rand,u)) (ht : turned = true) (hc : canFall s = false) (hl : locks u = false) :
    m.turned s turned = true := by
  subst ht
  cases m with
  | action rand' roster a =>
    cases a <;> simp only [Move.tick,reduceCtorEq] at h
    split at h
    · cases h
    · rename_i ho
      cases h
      simp [Move.turned,ho,hc,hl]
  | timers rand' =>
    have hu : canFall u = false := by
      simp only [Move.tick,hc,Bool.false_eq_true,↓reduceIte] at h
      split at h
      · cases h
        exact hc
      · cases h
    simp [Move.turned,h,hu,hl]
  | queue lines => cases h
  | attacker playerId => cases h
  | drain => cases h
  | finish winnerId => cases h

theorem timers_flag {s : GameState} {rand : ℕ → ℕ} (h : (Move.timers rand).tick s = none) :
    (updateTimers rand s).1.lastActionRotation = s.lastActionRotation := by
  simp only [Move.tick] at h
  unfold updateTimers
  dsimp only
  split at h
  · rename_i hc
    split at h
    · cases h
    · rename_i hg
      rw [if_pos hc,if_neg hg]
  · rename_i hc
    split at h
    · cases h
    · rename_i hl
      rw [if_neg hc,if_neg hl]

theorem Play.start_flag (rand : ℕ → ℕ) (playerId target : ℕ) :
    (Play.start rand playerId target).state.lastActionRotation = false := by
  unfold Play.start startGame
  exact spawnNewPiece_flag (fun i => rand (i + 12)) (freshState rand)

theorem keepsTurn_tick {p : Play} {m : Move} {rand : ℕ → ℕ} {u : GameState} (ht : m.tick p.state = some (rand,u))
    (hflag : p.state.lastActionRotation = true) (hg : keepsTurn p m = true) :
    (p.state.current.type = 3 → canFall p.state = false) ∧ (locks u = true → nextType p.state ≠ 3) := by
  unfold keepsTurn at hg
  rw [hflag] at hg
  split at hg
  · simp [Move.tick] at ht
  · rw [ht] at hg
    simp only [Bool.not_true,Bool.false_or,Option.all_some,Bool.and_eq_true,Bool.or_eq_true,bne_iff_ne,
      Bool.not_eq_true'] at hg
    refine ⟨fun h => ?_,fun h => ?_⟩
    · exact hg.1.resolve_left fun hn => hn h
    · exact hg.2.resolve_left (by rw [h]; decide)

theorem Play.tick_flagged {p : Play} {m : Move} {rand : ℕ → ℕ} {u : GameState} (hp : Flagged p.state p.turned)
    (ht : m.tick p.state = some (rand,u)) (hg : keepsTurn p m = true) :
    Flagged (m.apply p.state) (m.turned p.state p.turned) := by
  obtain ⟨g,l,he⟩ := Move.apply_tick ht
  have hu := Move.tick_carries ht
  have hf : (m.apply p.state).lastActionRotation = p.state.lastActionRotation := by
    rw [he,setTimers_lastActionRotation,tickGame_flag,Move.tick_flag ht]
  intro h3 hflag
  rw [hf] at hflag
  obtain ⟨hrest,hnext⟩ := keepsTurn_tick ht hflag hg
  cases hl : locks u with
  | true =>
    have hh := settled_hand rand u
    simp only [GameState.hand,Prod.mk.injEq] at hh
    rw [he,setTimers_current,tickGame_locked rand hl,blockOut_current,spawnNewPiece_type,hh.2.1,hh.2.2.1,hu.bag,
      hu.bagIndex] at h3
    exact absurd h3 (hnext hl)
  | false =>
    have ht3 : p.state.current.type = 3 := by
      rw [he,setTimers_current,(tickGame_carries rand hl).type,hu.type] at h3
      exact h3
    exact Move.turned_tick ht (hp ht3 hflag) (hrest ht3) hl

theorem flagged_shift {s : GameState} {turned : Bool} {r : GameState × Bool} (hp : Flagged s turned)
    (h : r.2 = true ∧ r.1.lastActionRotation = false ∨ r = (s,false)) :
    Flagged (if r.2 then { r.1 with lockTimer := 0 } else r.1) (turned && !r.2) := by
  rcases h with ⟨hr,hf⟩ | rfl
  · rw [if_pos hr]
    intro _ h
    exact absurd (hf.symm.trans h) (by decide)
  · simpa using hp

theorem moveLeft_cases (s : GameState) :
    (moveLeft s).2 = true ∧ (moveLeft s).1.lastActionRotation = false ∨ moveLeft s = (s,false) := by
  unfold moveLeft
  split
  · exact .inl ⟨rfl,rfl⟩
  · exact .inr rfl

theorem moveRight_cases (s : GameState) :
    (moveRight s).2 = true ∧ (moveRight s).1.lastActionRotation = false ∨ moveRight s = (s,false) := by
  unfold moveRight
  split
  · exact .inl ⟨rfl,rfl⟩
  · exact .inr rfl

theorem softDrop_cases (s : GameState) :
    (softDrop s).2 = true ∧ (softDrop s).1.lastActionRotation = false ∨ softDrop s = (s,false) := by
  unfold softDrop
  split
  · exact .inl ⟨rfl,rfl⟩
  · exact .inr rfl

theorem flagged_rotation {s : GameState} {turned : Bool} (hp : Flagged s turned) (r : Rotation) (lock : ℤ) :
    Flagged { (testRotate s r).1 with lockTimer := lock } (turned || (testRotate s r).2) := by
  intro h3 hf
  unfold testRotate at h3 hf ⊢
  dsimp only at h3 hf ⊢
  split at h3
  · simp
  · rename_i hn
    rw [hn] at hf
    rw [hp h3 hf,Bool.true_or]

theorem Play.hold_flagged {p : Play} (rand : ℕ → ℕ) (roster : Roster) (hp : Flagged p.state p.turned)
    (hg : keepsTurn p (.action rand roster .hold) = true) (ho : p.state.gameOver = false) :
    Flagged ((Move.action rand roster .hold).apply p.state)
      ((Move.action rand roster .hold).turned p.state p.turned) := by
  cases hh : p.state.hasHeld with
  | true => simpa [Move.apply,act,performAction,Move.turned,ho,hh] using hp
  | false =>
    obtain ⟨l,he⟩ := Move.apply_hold rand roster ho hh
    intro h3 hf
    have hflag : p.state.lastActionRotation = true := by
      rw [he,setTimers_lastActionRotation,holdPiece_flag] at hf
      exact hf
    rw [he,setTimers_current,holdPiece_current rand hh] at h3
    simp [keepsTurn,hflag,ho,hh] at hg
    exact absurd h3 hg

theorem Play.act_flagged {p : Play} (rand : ℕ → ℕ) (roster : Roster) (a : PlayerAction)
    (hp : Flagged p.state p.turned) (hg : keepsTurn p (.action rand roster a) = true)
    (ho : p.state.gameOver = false) :
    Flagged ((Move.action rand roster a).apply p.state) ((Move.action rand roster a).turned p.state p.turned) := by
  have happly : (Move.action rand roster a).apply p.state = performAction rand roster p.state a := by
    simp [Move.apply,act,ho]
  cases a with
  | hold => exact Play.hold_flagged rand roster hp hg ho
  | hardDrop =>
    have ht : (Move.action rand roster .hardDrop).tick p.state = some (rand,hardDrop p.state) := by
      simp [Move.tick,ho]
    exact Play.tick_flagged hp ht hg
  | moveLeft =>
    rw [happly]
    simp only [Move.turned,ho,Bool.false_eq_true,↓reduceIte]
    exact flagged_shift hp (moveLeft_cases p.state)
  | moveRight =>
    rw [happly]
    simp only [Move.turned,ho,Bool.false_eq_true,↓reduceIte]
    exact flagged_shift hp (moveRight_cases p.state)
  | softDrop =>
    rw [happly]
    simp only [Move.turned,ho,Bool.false_eq_true,↓reduceIte]
    exact flagged_shift hp (softDrop_cases p.state)
  | rotateCW =>
    rw [happly]
    simp only [Move.turned,ho,Bool.false_eq_true,↓reduceIte]
    exact flagged_rotation hp _ 0
  | rotateCCW =>
    rw [happly]
    simp only [Move.turned,ho,Bool.false_eq_true,↓reduceIte]
    exact flagged_rotation hp _ 0
  | cycleTarget =>
    rw [happly]
    simp only [Move.turned,ho,Bool.false_eq_true,↓reduceIte,performAction]
    unfold cycleManualTarget
    split
    · exact hp
    · split <;> exact hp
  | none => simpa [happly,performAction,Move.turned,ho] using hp
  | cycleTargetMode =>
    rw [happly]
    simp only [Move.turned,ho,Bool.false_eq_true,↓reduceIte]
    exact hp
  | quit =>
    rw [happly]
    simp only [Move.turned,ho,Bool.false_eq_true,↓reduceIte]
    exact hp

theorem Play.step_flagged {p q : Play} {m : Move} (hp : Flagged p.state p.turned) (hg : keepsTurn p m = true)
    (h : p.step m = some q) : Flagged q.state q.turned := by
  cases h
  cases m with
  | action rand roster a =>
    cases ho : p.state.gameOver with
    | false => exact Play.act_flagged rand roster a hp hg ho
    | true => simpa [Move.apply,act,Move.turned,ho] using hp
  | timers rand =>
    cases ht : (Move.timers rand).tick p.state with
    | some t => exact Play.tick_flagged hp ht hg
    | none =>
      have hf : (updateTimers rand p.state).1.lastActionRotation = p.state.lastActionRotation := timers_flag ht
      intro h3 hflag
      have h3 : p.state.current.type = 3 := (timers_carries ht).type.symm.trans h3
      have hturned := hp h3 (hf.symm.trans hflag)
      simp [Move.turned,ht,hturned]
  | queue lines =>
    simp only [Move.apply,Move.turned]
    unfold queueGarbage
    split <;> exact hp
  | attacker playerId => exact hp
  | drain => exact hp
  | finish winnerId => exact hp

/-- In a run that meets the condition at every step, a counted T-spin is a rotation of
the very T that locks, with no fall in between. -/
theorem Play.spin_is_last_rotation (rand : ℕ → ℕ) (playerId target : ℕ) (moves : List Move) (p : Play)
    (hr : run (guarded keepsTurn Play.step) (Play.start rand playerId target) moves = some p)
    (m : Move) (hg : keepsTurn p m = true) (draws : ℕ → ℕ) (u : GameState)
    (ht : m.tick p.state = some (draws,u)) (hs : checkTSpin u = true) :
    u.current.type = 3 ∧ p.turned = true ∧ canFall p.state = false := by
  have hp : Flagged p.state p.turned := by
    refine run_invariant (I := fun p : Play => Flagged p.state p.turned) ?_ hr ?_
    · intro p m q hp h
      obtain ⟨hg,h⟩ := guarded_eq_some.mp h
      exact Play.step_flagged hp hg h
    · intro _ hf
      exact absurd hf (by rw [Play.start_flag]; decide)
  have hu := Move.tick_carries ht
  have hflag : p.state.lastActionRotation = true ∧ u.current.type = 3 := by
    rw [← Move.tick_flag ht]
    unfold checkTSpin at hs
    split at hs
    · cases hs
    · rename_i hc
      simpa [and_comm] using hc
  have h3 : p.state.current.type = 3 := hu.type.symm.trans hflag.2
  exact ⟨hflag.2,hp h3 hflag.1,(keepsTurn_tick ht hflag.1 hg).1 h3⟩

/-- A T kicked into the corner at rest: the T-spin of the next hard drop is earned. -/
theorem Play.spin_in_the_corner :
    ∃ p, run (guarded keepsTurn Play.step) (Play.start (fun i => [6, 5, 0, 3, 1, 1].getD i 0) 1 2)
        ([PlayerAction.rotateCW, .moveLeft, .moveLeft, .moveLeft, .moveLeft, .hardDrop, .rotateCW,
          .moveLeft, .moveLeft, .moveLeft, .moveLeft].map (.action (fun _ => 0) []) ++
          List.replicate 17 (.action (fun _ => 0) [] .softDrop) ++
          [.action (fun _ => 0) [] .rotateCW, .action (fun _ => 0) [] .rotateCCW]) = some p ∧
      checkTSpin (hardDrop p.state) = true ∧ p.turned = true ∧ canFall p.state = false := by
  obtain ⟨p,hr,ht⟩ := exists_of_run_any (guarded keepsTurn Play.step)
    (Play.start (fun i => [6, 5, 0, 3, 1, 1].getD i 0) 1 2)
    ([PlayerAction.rotateCW, .moveLeft, .moveLeft, .moveLeft, .moveLeft, .hardDrop, .rotateCW,
      .moveLeft, .moveLeft, .moveLeft, .moveLeft].map (.action (fun _ => 0) []) ++
      List.replicate 17 (.action (fun _ => 0) [] .softDrop) ++
      [.action (fun _ => 0) [] .rotateCW, .action (fun _ => 0) [] .rotateCCW])
    (fun p : Play => !p.state.gameOver && checkTSpin (hardDrop p.state) &&
      keepsTurn p (.action (fun _ => 0) [] .hardDrop)) (by decide +kernel)
  simp only [Bool.and_eq_true,Bool.not_eq_true'] at ht
  obtain ⟨⟨ho,hs⟩,hg⟩ := ht
  have hm : (Move.action (fun _ => 0) [] .hardDrop).tick p.state = some (fun _ => 0,hardDrop p.state) := by
    simp [Move.tick,ho]
  have h := Play.spin_is_last_rotation _ 1 2 _ p hr _ hg _ _ hm hs
  exact ⟨p,hr,hs,h.2⟩

/-- A T turned at the top of the board falls nineteen rows in a hard drop and is still
credited with a T-spin. -/
theorem Play.spin_before_a_hard_drop :
    ∃ p, run Play.step (Play.start (fun i => [6, 5, 4, 3, 2, 1].getD i 0) 1 2)
        ([PlayerAction.moveLeft, .moveLeft, .hardDrop, .hardDrop, .rotateCW, .moveLeft, .moveLeft, .moveLeft,
          .moveLeft, .rotateCW, .rotateCCW].map (.action (fun _ => 0) [])) = some p ∧
      (Move.action (fun _ => 0) [] .hardDrop).tick p.state = some (fun _ => 0,hardDrop p.state) ∧
      locks (hardDrop p.state) = true ∧ checkTSpin (hardDrop p.state) = true ∧ canFall p.state = true := by
  obtain ⟨p,hr,ht⟩ := exists_of_run_any Play.step (Play.start (fun i => [6, 5, 4, 3, 2, 1].getD i 0) 1 2)
    ([PlayerAction.moveLeft, .moveLeft, .hardDrop, .hardDrop, .rotateCW, .moveLeft, .moveLeft, .moveLeft,
      .moveLeft, .rotateCW, .rotateCCW].map (.action (fun _ => 0) []))
    (fun p : Play => !p.state.gameOver && locks (hardDrop p.state) && checkTSpin (hardDrop p.state) &&
      canFall p.state) (by decide +kernel)
  simp only [Bool.and_eq_true,Bool.not_eq_true'] at ht
  obtain ⟨⟨⟨ho,hl⟩,hs⟩,hc⟩ := ht
  exact ⟨p,hr,by simp [Move.tick,ho],hl,hs,hc⟩

end CoreStack.Tetrisd
