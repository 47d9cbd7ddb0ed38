import CoreStack.Tetris.Wire
import CoreStack.Tetrisd.Cancel
import CoreStack.Tetrisd.Cells

/-! # How far a piece can get

A piece that fits stands over the board. A kick does not lift a piece that is above the
board already: of two kicks to one column the level one is tried first. So a snapshot of
a game fits the words of the wire.
-/
namespace CoreStack.Tetrisd
open Tetris Execution

/-- The window the current piece stays in. -/
structure Near (s : GameState) : Prop where
  left : -3 ≤ s.current.x
  right : s.current.x ≤ 9
  top : -5 ≤ s.current.y
  bottom : s.current.y ≤ 19

/-- A piece is where it came into play or where it was checked. -/
def Checked (s : GameState) : Prop := s.current.x = spawnX ∧ s.current.y = spawnY ∨ legal s = true

theorem exists_solid : ∀ t ∈ newBag, ∀ r, ∃ c ∈ localCells, solid t r c.1 c.2 = true := by
  intro t ht r
  revert t
  cases r <;> decide

theorem localCells_lt : ∀ c ∈ localCells, c.1 < 4 ∧ c.2 < 4 := by decide

theorem isValidPos_near {b : Board} {t : ℕ} {r : Rotation} {x y : ℤ} (ht : t ∈ newBag) (h : isValidPos b t r x y = true) :
    -3 ≤ x ∧ x ≤ 9 ∧ y ≤ 19 := by
  obtain ⟨c,hc,hsolid⟩ := exists_solid t ht r
  obtain ⟨hpx,hpy⟩ := localCells_lt c hc
  have hfits := List.all_eq_true.mp h c hc
  rw [hsolid,Bool.not_true,Bool.false_or,cellFits,Bool.and_eq_true] at hfits
  have hin := hfits.1
  simp only [Bool.not_eq_true',Bool.or_eq_false_iff,decide_eq_false_iff_not,boardWidth,boardHeight] at hin
  omega

theorem Checked.near {s : GameState} (h : Checked s) (ht : s.current.type ∈ newBag) (htop : -5 ≤ s.current.y) : Near s := by
  rcases h with ⟨hx,hy⟩ | hlegal
  · exact ⟨by rw [hx]; decide,by rw [hx]; decide,htop,by rw [hy]; decide⟩
  · obtain ⟨hleft,hright,hbottom⟩ := isValidPos_near ht hlegal
    exact ⟨hleft,hright,htop,hbottom⟩

theorem Checked.carried {s t : GameState} (hs : Checked s) (h : Carries s t) : Checked t := by
  rcases h.placed with hc | hlegal
  · rcases hs with hspawn | hlegal
    · exact Or.inl (by rw [hc]; exact hspawn)
    · exact Or.inr (by rw [legal_congr h.board hc]; exact hlegal)
  · exact Or.inr hlegal

theorem checked_spawned {s : GameState} {t : ℕ} (h : s.current = ⟨t,.rot0,spawnX,spawnY⟩) : Checked s :=
  Or.inl (by rw [h]; exact ⟨rfl,rfl⟩)

/-! ## Kicks -/

/-- A kick upwards comes after the level one to the same column. -/
theorem level_first : ∀ t ∈ newBag, ∀ k < 8, ∀ i < (kickOffsets t k).length,
    -2 ≤ ((kickOffsets t k).getD i (0,0)).2 ∧ (((kickOffsets t k).getD i (0,0)).2 < 0 →
      (((kickOffsets t k).getD i (0,0)).1,0) ∈ (kickOffsets t k).take i) := by decide

theorem getTransitionIndex_lt (r r' : Rotation) : getTransitionIndex r r' < 8 := by
  cases r <;> cases r' <;> decide

theorem isValidPos_above {b : Board} {t : ℕ} {r : Rotation} {x y y' : ℤ} (hy : y ≤ -4) (hy' : y' ≤ -4) :
    isValidPos b t r x y = isValidPos b t r x y' := by
  have hcell : ∀ c ∈ localCells, cellFits b (x + c.1) (y + c.2) = cellFits b (x + c.1) (y' + c.2) := by
    intro c hc
    obtain ⟨-,hpy⟩ := localCells_lt c hc
    have hout : ∀ z : ℤ, z ≤ -4 → decide (z + c.2 ≥ boardHeight) = false ∧ decide (z + c.2 ≥ 0) = false := by
      intro z hz
      simp only [decide_eq_false_iff_not,boardHeight]
      omega
    rw [cellFits,cellFits,(hout y hy).1,(hout y hy).2,(hout y' hy').1,(hout y' hy').2,Bool.false_and,Bool.false_and]
  refine Bool.eq_iff_iff.mpr ?_
  unfold isValidPos
  rw [List.all_eq_true,List.all_eq_true]
  exact forall₂_congr fun c hc => by rw [hcell c hc]

theorem testRotate_top {s : GameState} (ht : s.current.type ∈ newBag) (h : -5 ≤ s.current.y) (r : Rotation) :
    -5 ≤ (testRotate s r).1.current.y := by
  unfold testRotate
  dsimp only
  split
  · next o ho =>
    obtain ⟨hvalid,before,after,hsplit,hnot⟩ := List.find?_eq_some_iff_append.mp ho
    have hlen : before.length < (kickOffsets s.current.type (getTransitionIndex s.current.rot r)).length := by
      rw [hsplit,List.length_append,List.length_cons]
      omega
    obtain ⟨hlow,hlevel⟩ := level_first _ ht _ (getTransitionIndex_lt s.current.rot r) _ hlen
    rw [hsplit,List.getD_append_right _ _ _ _ (Nat.le_refl _),Nat.sub_self,List.getD_cons_zero] at hlow hlevel
    rw [List.take_left] at hlevel
    dsimp only
    by_contra hup
    -- the level kick to the same column was tried before and fitted as well
    have hbefore := hnot _ (hlevel (by omega))
    have hsame := isValidPos_above (b := s.board) (t := s.current.type) (r := r) (x := s.current.x + o.1)
      (show s.current.y + o.2 ≤ -4 by omega) (show s.current.y + 0 ≤ -4 by omega)
    rw [hsame] at hvalid
    rw [hvalid] at hbefore
    cases hbefore
  · exact h

/-! ## Moves -/

theorem hardDropLoop_top (fuel : ℕ) {s : GameState} (h : -5 ≤ s.current.y) : -5 ≤ (hardDropLoop fuel s).current.y := by
  induction fuel generalizing s with
  | zero => exact h
  | succ fuel ih =>
    unfold hardDropLoop
    split
    · exact ih (by dsimp only; omega)
    · exact h

theorem tickGame_top (rand : ℕ → ℕ) {s : GameState} (h : -5 ≤ s.current.y) : -5 ≤ (tickGame rand s).1.current.y := by
  cases hl : locks s with
  | true =>
    rw [tickGame_locked rand hl,blockOut_current,spawnNewPiece_type]
    show -5 ≤ spawnY
    decide
  | false =>
    unfold tickGame
    split
    · dsimp only
      omega
    · next hc =>
      have hy : s.current.y < 0 := by simpa [locks,hc] using hl
      rw [if_pos hy]
      exact h

theorem updateTimers_top (rand : ℕ → ℕ) {s : GameState} (h : -5 ≤ s.current.y) :
    -5 ≤ (updateTimers rand s).1.current.y := by
  have htick : ∀ l g, -5 ≤ (tickGame rand { s with lockTimer := l, gravityTimer := g }).1.current.y :=
    fun l g => tickGame_top rand h
  unfold updateTimers
  dsimp only
  split
  · split
    · exact htick _ _
    · exact h
  · split
    · exact htick _ _
    · exact h

theorem performAction_top (rand : ℕ → ℕ) (roster : Roster) {s : GameState} (ht : s.current.type ∈ newBag)
    (h : -5 ≤ s.current.y) (a : PlayerAction) : -5 ≤ (performAction rand roster s a).current.y := by
  have hreset : ∀ r : GameState × Bool, -5 ≤ r.1.current.y →
      -5 ≤ (if r.2 then { r.1 with lockTimer := 0 } else r.1).current.y := by
    intro r hr
    split <;> exact hr
  cases a with
  | none => exact h
  | moveLeft =>
    refine hreset (moveLeft s) ?_
    unfold moveLeft
    split <;> exact h
  | moveRight =>
    refine hreset (moveRight s) ?_
    unfold moveRight
    split <;> exact h
  | softDrop =>
    refine hreset (softDrop s) ?_
    unfold softDrop
    split
    · dsimp only
      omega
    · exact h
  | rotateCW => exact testRotate_top ht h _
  | rotateCCW => exact testRotate_top ht h _
  | hardDrop => exact tickGame_top rand (hardDropLoop_top _ h)
  | hold =>
    cases hh : s.hasHeld with
    | true =>
      have hsame : performAction rand roster s .hold = s := if_pos hh
      rw [hsame]
      exact h
    | false =>
      have hheld : performAction rand roster s .hold = { holdPiece rand s with gravityTimer := 0 } :=
        if_neg (by rw [hh]; exact Bool.false_ne_true)
      rw [hheld]
      dsimp only
      rw [holdPiece_current rand hh]
      show -5 ≤ spawnY
      decide
  | cycleTargetMode => exact h
  | cycleTarget =>
    change -5 ≤ (cycleManualTarget s roster).current.y
    unfold cycleManualTarget
    split
    · exact h
    · split <;> exact h
  | quit => exact h

theorem Move.apply_top {s : GameState} (ht : s.current.type ∈ newBag) (h : -5 ≤ s.current.y) (m : Move) :
    -5 ≤ (m.apply s).current.y := by
  cases m with
  | action rand roster a =>
    change -5 ≤ (act rand roster a s).current.y
    unfold act
    split
    · exact h
    · exact performAction_top rand roster ht h a
  | timers rand => exact updateTimers_top rand h
  | queue lines =>
    change -5 ≤ (queueGarbage s lines).current.y
    unfold queueGarbage
    split <;> exact h
  | attacker playerId => exact h
  | drain => exact h
  | finish winnerId => exact h

theorem Play.step_checked {p q : Play} {m : Move} (hs : Checked p.state) (h : p.step m = some q) : Checked q.state := by
  cases h
  cases m.turn p.state with
  | carried _ hc => exact hs.carried hc
  | @locked rand u _ hu hl _ he =>
    obtain ⟨g,l,he⟩ := he
    dsimp only
    rw [he,tickGame_locked rand hl]
    refine checked_spawned (t := nextType (settled rand u)) ?_
    rw [setTimers_current,blockOut_current,spawnNewPiece_type]
    rfl
  | @held rand roster hm ho hh he =>
    obtain ⟨l,he⟩ := he
    dsimp only
    rw [he]
    refine checked_spawned (t := broughtIn p.state) ?_
    rw [setTimers_current,holdPiece_current rand hh]

/-- Whatever the player and the others do, the piece stays in a window of 13 columns and 25
rows around the board. -/
theorem Play.run_near {rand : ℕ → ℕ} {playerId target : ℕ} {moves : List Move} {p : Play}
    (hr : run Play.step (Play.start rand playerId target) moves = some p) : Near p.state := by
  have hstart := Play.start_current rand playerId target
  have h := run_invariant (I := fun p : Play => (p.Drawing ∧ Grounded p.state) ∧ Checked p.state ∧ -5 ≤ p.state.current.y)
    ?_ hr ⟨⟨Play.start_drawing rand playerId target,Play.start_grounded rand playerId target⟩,?_,?_⟩
  · exact h.2.1.near h.1.2.typed h.2.2
  · intro p m q hp hq
    refine ⟨⟨Play.step_drawing hp.1.1 hq,Play.step_grounded hp.1.1 hp.1.2 hq⟩,Play.step_checked hp.2.1 hq,?_⟩
    cases hq
    exact Move.apply_top hp.1.2.typed hp.2.2 m
  · exact checked_spawned hstart
  · rw [hstart]
    show -5 ≤ spawnY
    decide

/-! ## Snapshots of a game -/

/-- The counters that only the length of a game bounds, and the names it was given. -/
structure Named (s : GameState) : Prop where
  combo : IsInt s.combo
  playerId : s.playerId < 4294967296
  targetPlayerId : s.targetPlayerId < 4294967296
  winnerId : s.winnerId < 4294967296

theorem Play.run_sized {rand : ℕ → ℕ} {playerId target : ℕ} {moves : List Move} {p : Play}
    (hr : run Play.step (Play.start rand playerId target) moves = some p) (hn : Named p.state) : p.state.Sized := by
  have hnear := Play.run_near hr
  have hg := Play.run_grounded hr
  have hpending := (Play.run_metered hr).pending
  refine ⟨fun y => (Play.run_tidy hr y).values,⟨?_,?_⟩,⟨?_,?_⟩,?_,hn.playerId,hn.combo,?_,hn.targetPlayerId,hn.winnerId⟩
  · exact le_trans (by decide) hnear.left
  · exact lt_of_le_of_lt hnear.right (by decide)
  · exact le_trans (by decide) hnear.top
  · exact lt_of_le_of_lt hnear.bottom (by decide)
  · rcases hg.held with hheld | hheld
    · omega
    · exact (mem_newBag _ hheld).2
  · exact lt_of_le_of_lt hpending (by decide)

/-- The snapshot of any state of a game is printed, read back and cast to what it was built as,
whatever the unused field and the payload it is read into hold. -/
theorem Play.snapshot_survives_wire (rand : ℕ → ℕ) (playerId target : ℕ) (moves : List Move) (p : Play)
    (hr : run Play.step (Play.start rand playerId target) moves = some p) (hn : Named p.state) (next : Utils.Word)
    (old : Hypertext.StatePayload) :
    ∃ read, Hypertext.payloadDecodeState (Hypertext.payloadEncodeState ((buildStatePayload p.state).words next)) old =
        .ok read ∧ StatePayload.ofWords read = buildStatePayload p.state ∧ Near p.state := by
  have hsized := Play.run_sized hr hn
  exact ⟨_,Hypertext.payloadDecodeState_encode (words_cellsLegal hsized next) old,ofWords_words hsized next,
    Play.run_near hr⟩

/-- Pushed against the left wall eight times. -/
theorem Play.snapshot_survives_wire_wall :
    ∃ p, run Play.step (Play.start (fun i => 5 * i + 3) 1 2)
        (List.replicate 8 (.action (fun i => i) [] .moveLeft)) = some p ∧ p.state.current.x < spawnX - 1 ∧
      ∃ read, Hypertext.payloadDecodeState (Hypertext.payloadEncodeState ((buildStatePayload p.state).words 0)) default =
        .ok read ∧ StatePayload.ofWords read = buildStatePayload p.state ∧ Near p.state := by
  obtain ⟨p,hr,ht⟩ := exists_of_run_any Play.step (Play.start (fun i => 5 * i + 3) 1 2)
    (List.replicate 8 (.action (fun i => i) [] .moveLeft))
    (fun p : Play => decide (p.state.current.x < spawnX - 1) &&
      (decide (p.state.combo = -1) && decide (p.state.playerId = 1 ∧ p.state.targetPlayerId = 2 ∧ p.state.winnerId = 0)))
    (by decide +kernel)
  obtain ⟨hx,ht⟩ := Bool.and_eq_true_iff.mp ht
  obtain ⟨hcombo,hids⟩ := Bool.and_eq_true_iff.mp ht
  obtain ⟨hplayer,htarget,hwinner⟩ := of_decide_eq_true hids
  refine ⟨p,hr,of_decide_eq_true hx,Play.snapshot_survives_wire _ 1 2 _ p hr ⟨?_,?_,?_,?_⟩ 0 default⟩
  · rw [of_decide_eq_true hcombo]
    exact ⟨by decide,by decide⟩
  · rw [hplayer]
    decide
  · rw [htarget]
    decide
  · rw [hwinner]
    decide

end CoreStack.Tetrisd
