import CoreStack.Tetrisd.Conserve
import CoreStack.Tetris.Protocol

/-! # The client's mirror

A snapshot carries the first three types of the window. They stand on the tape of
draws already, so no later shuffle can change them.
-/
namespace CoreStack.Tetrisd
open Tetris Execution

theorem upcoming_take_three {s : GameState} (hw : s.Window) : (s.upcoming.take 3).length = 3 := by
  have hl := hw.length
  have hi := hw.index
  simp only [GameState.upcoming,List.length_take,List.length_drop]
  omega

theorem Play.run_draws {p q : Play} {later : List Move} {new : List ℕ} (hw : p.state.Window)
    (hr : run Play.step p later = some q) (hn : q.drawn = p.drawn ++ new) :
    new.take 3 = (p.state.upcoming.take 3).take new.length := by
  obtain ⟨-,-,extra,ht⟩ := Play.run_tape hw hr
  have he : p.state.upcoming ++ extra = new ++ q.state.upcoming := by
    unfold Play.tape at ht
    rw [hn,List.append_assoc,List.append_assoc] at ht
    exact List.append_cancel_left ht
  have hl : 3 ≤ p.state.upcoming.length := by
    have h := upcoming_take_three hw
    rw [List.length_take] at h
    omega
  calc new.take 3 = ((new ++ q.state.upcoming).take new.length).take 3 := by rw [List.take_left]
    _ = ((p.state.upcoming ++ extra).take 3).take new.length := by rw [he,List.take_take,List.take_take,min_comm]
    _ = (p.state.upcoming.take 3).take new.length := by rw [List.take_append_of_le_length hl]

/-- The types that the next three calls of `spawn_new_piece` put into play. -/
def nextThree (rand rand' rand'' : ℕ → ℕ) (s : GameState) : List ℕ :=
  let first := spawnNewPiece rand s
  let second := spawnNewPiece rand' first
  let third := spawnNewPiece rand'' second
  [first.current.type,second.current.type,third.current.type]

/-- Three spawns in a row draw the first three types, refilled in between or not. -/
theorem spawn_thrice {s : GameState} (hw : s.Window) (rand rand' rand'' : ℕ → ℕ) :
    s.upcoming.take 3 = nextThree rand rand' rand'' s := by
  have hw1 := spawnNewPiece_window rand hw
  have hw2 := spawnNewPiece_window rand' hw1
  obtain ⟨e1,-,h1⟩ := spawnNewPiece_upcoming rand hw
  obtain ⟨e2,-,h2⟩ := spawnNewPiece_upcoming rand' hw1
  have hl : 3 ≤ s.upcoming.length := by
    have h := upcoming_take_three hw
    rw [List.length_take] at h
    omega
  have h3 := hw2.upcoming_eq
  simp only [nextThree,spawnNewPiece_type]
  calc s.upcoming.take 3 = (s.upcoming ++ e1 ++ e2).take 3 := by
        rw [List.append_assoc,List.take_append_of_le_length hl]
    _ = (nextType s :: ((spawnNewPiece rand s).upcoming ++ e2)).take 3 := by rw [h1]; rfl
    _ = (nextType s :: nextType (spawnNewPiece rand s) ::
          (spawnNewPiece rand' (spawnNewPiece rand s)).upcoming).take 3 := by rw [h2]; rfl
    _ = _ := by rw [h3]; rfl

/-- A snapshot of any state of a game makes any client agree with the server, and the
three types its renderer shows are the next three that come into play in every
continuation. -/
theorem Play.mirror_shows_truth (rand : ℕ → ℕ) (playerId target : ℕ) (moves : List Move) (p : Play)
    (hr : run Play.step (Play.start rand playerId target) moves = some p) (hi : p.state.IntSized)
    (client : GameState) :
    ∃ mirror, applyStatePayload (buildStatePayload p.state) client = some mirror ∧ Mirrors p.state mirror ∧
      (∀ later q new, run Play.step p later = some q → q.drawn = p.drawn ++ new →
        new.take 3 = (drawBoardNext mirror).take new.length) ∧
      ∀ r r' r'', drawBoardNext mirror = nextThree r r' r'' p.state := by
  have hd := Play.run_drawing hr
  have hg := Play.run_grounded hr
  obtain ⟨mirror,hm,hs,h0,hb⟩ := applyStatePayload_build hi (mem_newBag _ hg.typed).2 client
  rw [preview_roundtrip hd.window fun t ht => hd.mem t (List.mem_append_right _ ht)] at hb
  have hn := drawBoardNext_rebased (upcoming_take_three hd.window) h0 hb
  refine ⟨mirror,hm,hs,?_,?_⟩
  · intro later q new hq hnew
    rw [hn]
    exact Play.run_draws hd.window hq hnew
  · intro r r' r''
    rw [hn]
    exact spawn_thrice hd.window r r' r''

/-- Two pieces before the refill the third type shown comes from the second bag. -/
theorem Play.mirror_across_the_refill :
    ∃ p, run Play.step (Play.start (fun i => 5 * i + 3) 1 2)
        (.action (fun i => i) [] .hold :: List.replicate 3 (.action (fun i => 3 * i + 1) [] .hardDrop)) = some p ∧
      p.state.bagIndex = 5 ∧
      ∃ mirror, applyStatePayload (buildStatePayload p.state) (freshState fun _ => 0) = some mirror ∧
        ∀ r r' r'', drawBoardNext mirror = nextThree r r' r'' p.state := by
  obtain ⟨p,hr,ht⟩ := exists_of_run_any Play.step (Play.start (fun i => 5 * i + 3) 1 2)
    (.action (fun i => i) [] .hold :: List.replicate 3 (.action (fun i => 3 * i + 1) [] .hardDrop))
    (fun p : Play => p.state.bagIndex == 5 && decide p.state.IntSized) (by decide +kernel)
  obtain ⟨hb,hi⟩ := Bool.and_eq_true_iff.mp ht
  have hi := of_decide_eq_true hi
  obtain ⟨mirror,hm,-,-,hn⟩ := Play.mirror_shows_truth _ 1 2 _ p hr hi (freshState fun _ => 0)
  exact ⟨p,hr,beq_iff_eq.mp hb,mirror,hm,hn⟩

end CoreStack.Tetrisd
