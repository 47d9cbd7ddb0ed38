import CoreStack.Tetrisd.Play
import CoreStack.Tetris.SevenBag

/-! # The draws of a whole game

What `spawn_new_piece` has put into play, followed by what the bag still holds, is a tape of
shuffled bags. A move extends it at the end only, so its blocks of seven stay where they are.
-/
namespace CoreStack.Tetrisd
open Tetris Execution

/-- The types drawn so far and those the bag holds. -/
def Play.tape (p : Play) : List ℕ := p.drawn ++ p.state.upcoming

theorem spawnedType_eq (rand : ℕ → ℕ) (s : GameState) : spawnedType (rand,s) = nextType s := by
  rw [spawnedType,spawnNewPiece_type]
  rfl

/-- The bag changes only by a spawn, and the piece of a spawn is the one in play afterwards. -/
inductive Move.Draw (s : GameState) (m : Move) : Prop
  | idle (hs : m.spawn s = none) (hb : (m.apply s).bag = s.bag) (hi : (m.apply s).bagIndex = s.bagIndex)
  | spawn {rand : ℕ → ℕ} {u : GameState} (hs : m.spawn s = some (rand,u)) (hub : u.bag = s.bag)
      (hui : u.bagIndex = s.bagIndex) (hb : (m.apply s).bag = (spawnNewPiece rand u).bag)
      (hi : (m.apply s).bagIndex = (spawnNewPiece rand u).bagIndex)
      (hc : (m.apply s).current = (spawnNewPiece rand u).current)

theorem Move.draw (s : GameState) (m : Move) : m.Draw s := by
  cases m.turn s with
  | carried hs hc => exact .idle hs hc.bag hc.bagIndex
  | @locked rand u ht hu hl hs he =>
    obtain ⟨g,l,he⟩ := he
    have hh := settled_hand rand u
    simp only [GameState.hand,Prod.mk.injEq] at hh
    rw [tickGame_locked rand hl] at he
    refine .spawn hs (hh.2.1.trans hu.bag) (hh.2.2.1.trans hu.bagIndex) ?_ ?_ ?_
    · rw [he,setTimers_bag,blockOut_bag]
    · rw [he,setTimers_bagIndex,blockOut_bagIndex]
    · rw [he,setTimers_current,blockOut_current]
  | @held rand roster hm ho hh he =>
    subst hm
    obtain ⟨l,he⟩ := he
    by_cases h0 : s.heldType = 0
    · have hs : Move.spawn s (.action rand roster .hold) = some (rand,{ s with heldType := s.current.type }) := by
        simp [Move.spawn,ho,hh,h0]
      refine .spawn hs rfl rfl ?_ ?_ ?_
      all_goals
        rw [he]
        simp [holdPiece,hh,h0]
    · refine .idle ?_ ?_ ?_
      · simp [Move.spawn,h0]
      · rw [he]
        simp [holdPiece,hh,h0]
      · rw [he]
        simp [holdPiece,hh,h0]

/-- The tape is made of shuffled bags. -/
structure Play.Drawing (p : Play) : Prop where
  window : p.state.Window
  tiled : Blocks.Tiled 7 FullBag p.tape

theorem Play.Drawing.mem {p : Play} (h : p.Drawing) : ∀ t ∈ p.tape, t ∈ newBag :=
  h.tiled.forall_mem fun _ hb _ ht => hb.mem_iff.mp ht

theorem Play.Drawing.nextType_mem {p : Play} (h : p.Drawing) : nextType p.state ∈ newBag := by
  apply h.mem
  unfold Play.tape nextType
  rw [h.window.upcoming_eq]
  simp

theorem Play.start_tape (rand : ℕ → ℕ) (playerId target : ℕ) :
    ∃ extra, (extra = [] ∨ FullBag extra) ∧
      (Play.start rand playerId target).tape = (freshState rand).upcoming ++ extra := by
  obtain ⟨extra,he,h⟩ := spawnNewPiece_upcoming (fun i => rand (i + 12)) (freshState_window rand)
  refine ⟨extra,he,?_⟩
  rw [h]
  have hdrawn : (Play.start rand playerId target).drawn = [nextType (freshState rand)] :=
    congrArg (fun piece : Piece => [piece.type]) (spawnNewPiece_type _ _)
  unfold Play.tape
  rw [hdrawn]
  unfold Play.start startGame GameState.upcoming
  rfl

theorem tiled_extend {xs extra : List ℕ} (h : Blocks.Tiled 7 FullBag xs) (he : extra = [] ∨ FullBag extra) :
    Blocks.Tiled 7 FullBag (xs ++ extra) := by
  rcases he with rfl | he
  · simpa using h
  · exact h.append (.single he.length he)

theorem Play.start_window (rand : ℕ → ℕ) (playerId target : ℕ) : (Play.start rand playerId target).state.Window := by
  have h := spawnNewPiece_window (fun i => rand (i + 12)) (freshState_window rand)
  unfold Play.start startGame
  generalize spawnNewPiece _ _ = s at h
  exact h.congr rfl rfl

theorem Play.start_drawing (rand : ℕ → ℕ) (playerId target : ℕ) : (Play.start rand playerId target).Drawing := by
  refine ⟨Play.start_window rand playerId target,?_⟩
  obtain ⟨extra,he,h⟩ := Play.start_tape rand playerId target
  rw [h]
  have h1 : FullBag (shuffleArray rand newBag) := shuffleArray_perm rand
  have h2 : FullBag (shuffleArray (fun i => rand (i + 6)) newBag) := shuffleArray_perm _
  have hf : Blocks.Tiled 7 FullBag (freshState rand).upcoming :=
    (Blocks.Tiled.single h1.length h1).append (.single h2.length h2)
  exact tiled_extend hf he

/-- One move keeps the window and extends the tape by whole bags. -/
theorem Play.step_tape {p q : Play} {m : Move} (hw : p.state.Window) (h : p.step m = some q) :
    q.state.Window ∧ p.drawn <+: q.drawn ∧
      ∃ extra, (extra = [] ∨ FullBag extra) ∧ q.tape = p.tape ++ extra := by
  cases h
  cases m.draw p.state with
  | idle hs hb hi =>
    refine ⟨hw.congr hb hi,by simp,[],.inl rfl,?_⟩
    simp [Play.tape,GameState.upcoming,hs,hb,hi]
  | @spawn rand u hs hub hui hb hi hc =>
    have hu : u.Window := hw.congr hub hui
    obtain ⟨extra,he,hx⟩ := spawnNewPiece_upcoming rand hu
    have hup : u.upcoming = p.state.upcoming := by
      unfold GameState.upcoming
      rw [hub,hui]
    have hap : (m.apply p.state).upcoming = (spawnNewPiece rand u).upcoming := by
      unfold GameState.upcoming
      rw [hb,hi]
    refine ⟨(spawnNewPiece_window rand hu).congr hb hi,by simp,extra,he,?_⟩
    rw [hup] at hx
    simp only [Play.tape,hs,hap,spawnedType_eq,nextType,Option.toList_some,List.map_cons,List.map_nil,List.append_assoc,
      List.cons_append,List.nil_append,hx]

theorem Play.step_drawing {p q : Play} {m : Move} (hp : p.Drawing) (h : p.step m = some q) : q.Drawing := by
  obtain ⟨hw,-,extra,he,ht⟩ := Play.step_tape hp.window h
  exact ⟨hw,ht ▸ tiled_extend hp.tiled he⟩

theorem Play.run_drawing {rand : ℕ → ℕ} {playerId target : ℕ} {moves : List Move} {p : Play}
    (hr : run Play.step (Play.start rand playerId target) moves = some p) : p.Drawing :=
  run_invariant (fun _ _ _ hp h => Play.step_drawing hp h) hr (Play.start_drawing rand playerId target)

/-- Everything a continuation draws stands on the tape already, or comes after it. -/
theorem Play.run_tape {p q : Play} {moves : List Move} (hw : p.state.Window)
    (hr : run Play.step p moves = some q) :
    q.state.Window ∧ p.drawn <+: q.drawn ∧ p.tape <+: q.tape := by
  refine run_invariant (I := fun q : Play => q.state.Window ∧ p.drawn <+: q.drawn ∧ p.tape <+: q.tape) ?_ hr
    ⟨hw,List.prefix_rfl,List.prefix_rfl⟩
  intro q m r hq h
  obtain ⟨hw,hd,extra,-,ht⟩ := Play.step_tape hq.1 h
  exact ⟨hw,hq.2.1.trans hd,ht ▸ hq.2.2.trans (List.prefix_append _ _)⟩

/-- What a move draws is the type in play after it. -/
theorem Play.step_drawn {p q : Play} {m : Move} (h : p.step m = some q) :
    q.drawn = p.drawn ∨ q.drawn = p.drawn ++ [q.state.current.type] := by
  cases h
  cases m.draw p.state with
  | idle hs hb hi => exact .inl (by simp [hs])
  | @spawn rand u hs hub hui hb hi hc =>
    refine .inr ?_
    dsimp only
    rw [hs,hc]
    rfl

/-- The types that `spawn_new_piece` puts into play come in complete bags of seven from the
first one on, each is the type in play after the move that draws it, and nothing outside
1..7 is ever in the bag. -/
theorem Play.seven_bag (rand : ℕ → ℕ) (playerId target : ℕ) (moves : List Move) (p : Play)
    (hr : run Play.step (Play.start rand playerId target) moves = some p) :
    (∀ j, 7 * (j + 1) ≤ p.drawn.length → (Blocks.block 7 j p.drawn).Perm [1, 2, 3, 4, 5, 6, 7]) ∧
    p.state.bagIndex ≤ 6 ∧ p.state.bag.length = 14 ∧
    (∀ t ∈ p.drawn, 1 ≤ t ∧ t ≤ 7) ∧ (∀ t ∈ p.state.upcoming, 1 ≤ t ∧ t ≤ 7) ∧
    ∀ m q, p.step m = some q → q.drawn = p.drawn ∨ q.drawn = p.drawn ++ [q.state.current.type] := by
  have hd := Play.run_drawing hr
  have hpre : p.drawn <+: p.tape := List.prefix_append _ _
  refine ⟨?_,hd.window.index,hd.window.length,?_,?_,fun _ _ h => Play.step_drawn h⟩
  · intro j hj
    rw [Blocks.block_of_prefix hpre hj]
    exact hd.tiled.block (by decide) (hj.trans hpre.length_le)
  · intro t ht
    exact mem_newBag t (hd.mem t (List.mem_append_left _ ht))
  · intro t ht
    exact mem_newBag t (hd.mem t (List.mem_append_right _ ht))

/-- A hold into the empty slot and five hard drops draw the first bag. -/
theorem Play.seven_bag_hold_and_drops :
    ∃ p, run Play.step (Play.start (fun i => 5 * i + 3) 1 2)
        (.action (fun i => i) [] .hold :: List.replicate 5 (.action (fun i => 3 * i + 1) [] .hardDrop)) = some p ∧
      p.drawn.length = 7 ∧ (Blocks.block 7 0 p.drawn).Perm [1, 2, 3, 4, 5, 6, 7] := by
  obtain ⟨p,hr,ht⟩ := exists_of_run_any Play.step (Play.start (fun i => 5 * i + 3) 1 2)
    (.action (fun i => i) [] .hold :: List.replicate 5 (.action (fun i => 3 * i + 1) [] .hardDrop))
    (fun p : Play => p.drawn.length == 7) (by decide +kernel)
  have hl : p.drawn.length = 7 := by simpa using ht
  exact ⟨p,hr,hl,(Play.seven_bag _ 1 2 _ p hr).1 0 (by omega)⟩

end CoreStack.Tetrisd
