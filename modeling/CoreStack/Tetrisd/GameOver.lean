import CoreStack.Tetrisd.Locality
import CoreStack.Tetrisd.Trace

/-! # After the end of the match

A worker in its tick loop leaves on `HUB_GAMEOVER` without another tick. The lobby
loop drops the message, and a worker that was still there plays on.
-/
namespace CoreStack.Tetrisd

/-- Nothing is played after `HUB_GAMEOVER`. -/
def RoomObs.heeds (o o' : RoomObs) : Bool :=
  !(o == .gotGameOver && (o' == .started || o' == .ticked))

/-- On the way out: the loop is left as soon as the hub is drained. -/
def Worker.Leaving (wk : Worker) : Prop :=
  wk.pc = .exited ∨ wk.pc = .conclude ∨ wk.pc = .drainHub ∧ wk.matchOver = true

theorem Worker.Leaving.step {serial : ℕ} {hub : HubRecv} {wk : Worker} {input : Input} {e : Effect}
    (h : wk.Leaving) (hs : Worker.Step serial hub wk input e) : e.worker.Leaving := by
  unfold Worker.Leaving at h
  cases hs with
  | hubRecv hpc =>
    have hm : wk.matchOver = true := by
      rcases h with h | h | h
      · cases hpc.symm.trans h
      · cases hpc.symm.trans h
      · exact h.2
    unfold hubStep
    split
    case h_4 => exact .inr (.inr ⟨hpc,rfl⟩)
    case h_6 =>
      rw [if_pos hm]
      exact .inr (.inl rfl)
    case h_7 => exact .inr (.inl rfl)
    all_goals exact .inr (.inr ⟨hpc,hm⟩)
  | conclude hpc => exact .inl rfl
  | boot bound hpc => simp [hpc] at h
  | poll hpc he => simp [hpc] at h
  | lobbyRecv hpc => simp [hpc] at h
  | check graceOver rand hpc => simp [hpc] at h
  | client n m rand hpc he => simp [hpc] at h
  | clientsDone n hpc => simp [hpc] at h
  | tick rand hpc => simp [hpc] at h
  | report i hpc => simp [hpc] at h
  | route i draw hpc => simp [hpc] at h
  | push hpc => simp [hpc] at h

/-- The message the lobby loop of a worker is about to take. -/
def System.lobbyHears (s : System) : Label → Option (ℕ × HubMsg)
  | .worker w reset .recv =>
    if (s.workers w).pc = .lobbyDrain then
      match s.recv w reset with
      | .msg m => some (w,m)
      | _ => none
    else none
  | _ => none

theorem System.lobbyHears_eq {s : System} {w : ℕ} {reset : Bool} {m : HubMsg}
    (hpc : (s.workers w).pc = .lobbyDrain) (hr : s.recv w reset = .msg m) :
    s.lobbyHears (.worker w reset .recv) = some (w,m) := by
  simp [System.lobbyHears,hpc,hr]

/-- No lobby loop takes a `HUB_GAMEOVER`. -/
def System.endHeard (s : System) (l : Label) : Bool :=
  match s.lobbyHears l with
  | some (_,.gameOver _) => false
  | _ => true

/-- What one worker's log and state keep of the end of the match. -/
structure Heeds (wk : Worker) (obs : List RoomObs) : Prop where
  leaving : RoomObs.gotGameOver ∈ obs → wk.Leaving
  quiet : obs.Pairwise fun o o' => o.heeds o' = true

theorem heeds_of_ne {o o' : RoomObs} (h : o = .gotGameOver → o' ≠ .started ∧ o' ≠ .ticked) :
    o.heeds o' = true := by
  unfold RoomObs.heeds
  by_cases ho : o = .gotGameOver
  · simp [h ho]
  · simp [ho]

theorem Worker.Step.heeds {s : System} {w : ℕ} {reset : Bool} {hub : HubRecv} {input : Input} {e : Effect}
    (hr : s.recv w reset = hub) (hs : Worker.Step s.serial hub (s.workers w) input e)
    (hg : s.endHeard (.worker w reset input) = true) {obs : List RoomObs} (h : Heeds (s.workers w) obs) :
    Heeds e.worker (obs ++ e.obs) := by
  have hnew : RoomObs.gotGameOver ∈ e.obs → (s.workers w).pc = .drainHub ∧ e.worker.Leaving := by
    intro ho
    obtain ⟨⟨x,hx⟩,hpc | ⟨hpc,hm,hpc'⟩⟩ := hs.source ho
    · exfalso
      cases hs with
      | lobbyRecv hl =>
        rw [hx] at hr
        simp [System.endHeard,System.lobbyHears_eq hpc hr] at hg
      | _ => simp_all
    · exact ⟨hpc,.inr (.inr ⟨hpc',hm⟩)⟩
  refine ⟨fun hmem => ?_,List.pairwise_append.mpr ⟨h.quiet,?_,?_⟩⟩
  · rcases List.mem_append.mp hmem with hmem | hmem
    · exact (h.leaving hmem).step hs
    · exact (hnew hmem).2
  · refine List.pairwise_of_forall_mem_list fun o ho o' ho' => heeds_of_ne fun he => ?_
    subst he
    have hpc := (hnew ho).1
    refine ⟨fun he' => ?_,fun he' => ?_⟩ <;> subst he'
    · cases hpc.symm.trans (hs.source ho').1
    · cases hpc.symm.trans (hs.source ho')
  · intro o ho o' ho'
    refine heeds_of_ne fun he => ?_
    subst he
    have hleave := h.leaving ho
    unfold Worker.Leaving at hleave
    refine ⟨fun he' => ?_,fun he' => ?_⟩ <;> subst he'
    · have hpc : (s.workers w).pc = .lobbyCheck := (hs.source ho').1
      simp [hpc] at hleave
    · have hpc : (s.workers w).pc = .tick := hs.source ho'
      simp [hpc] at hleave

def System.Heeded (s : System) : Prop :=
  ∀ w, w < s.master.roomSeq → Heeds (s.workers w) (roomLog w s.log)

theorem System.step_heeded (s : System) (l : Label) (t : System) (hs : s.Sound) (h : s.Heeded)
    (hg : s.endHeard l = true) (ht : s.step l = some t) : t.Heeded := by
  refine System.local_step ht hs (fun _ wk obs => Heeds wk obs)
    (fun _ => ⟨fun h => (by cases h),List.Pairwise.nil⟩) ?_ h
  intro w wk obs hw hi hm
  cases hm with
  | connect ha =>
    rw [List.append_nil]
    exact ⟨hi.leaving,hi.quiet⟩
  | @handshake ok r hf =>
    have hobs : ∀ o ∈ r.2, o ≠ .gotGameOver ∧ o ≠ .started ∧ o ≠ .ticked := by
      unfold Server.finish at hf
      obtain ⟨id,-,hr⟩ := Option.map_eq_some_iff.mp hf
      cases ok <;> simp at hr <;> subst hr <;> simp
    refine ⟨fun hmem => ?_,List.pairwise_append.mpr ⟨hi.quiet,?_,?_⟩⟩
    · rcases List.mem_append.mp hmem with hmem | hmem
      · exact hi.leaving hmem
      · exact absurd rfl (hobs _ hmem).1
    · exact List.pairwise_of_forall_mem_list fun o ho o' ho' => heeds_of_ne fun _ => (hobs o' ho').2
    · exact fun o _ o' ho' => heeds_of_ne fun _ => (hobs o' ho').2
  | worker hr hst => exact hst.heeds hr hg hi
  | crash =>
    rw [List.append_nil]
    exact ⟨fun _ => .inl rfl,hi.quiet⟩

/-- A worker that got `HUB_GAMEOVER` neither starts the match nor ticks again. -/
theorem gameOver_final (roomSize : ℕ) (ls : List Label) (s : System)
    (hr : Execution.run (Execution.guarded System.endHeard System.step) (.init roomSize) ls = some s) (w : ℕ) :
    (roomLog w s.log).Pairwise fun o o' => o.heeds o' = true := by
  have hsound := Execution.guarded_base System.step_sound hr (System.init_sound roomSize)
  have hheeded := Execution.guarded_invariant System.step_sound System.step_heeded hr
    (System.init_sound roomSize) (fun w hw => (by cases hw))
  by_cases hw : w < s.master.roomSeq
  · exact (hheeded w hw).quiet
  · rw [hsound.logged w hw]
    exact List.Pairwise.nil

/-- Both players of the first room give up: the master declares the third the winner. -/
def walkover : List Label :=
  [plays 0 1 .quit,plays 0 2 .quit] ++ ticks 0 0 ++ [.worker 0 false .report,.worker 0 false .report] ++
  reads firstSlot 2

theorem gameOver_final_walkover :
    ∃ s, Execution.run (Execution.guarded System.endHeard System.step) (.init 2)
        (opening ++ kickoff ++ hears 1 3 ++ [.worker 1 false (.check true noRand)] ++ walkover ++
          [.worker 1 false .clientsDone] ++ hears 1 4) = some s ∧
      RoomObs.gotGameOver ∈ roomLog 1 s.log ∧
      (roomLog 1 s.log).Pairwise fun o o' => o.heeds o' = true := by
  obtain ⟨s,hs,ht⟩ := Execution.exists_of_run_any (Execution.guarded System.endHeard System.step) (.init 2)
    (opening ++ kickoff ++ hears 1 3 ++ [.worker 1 false (.check true noRand)] ++ walkover ++
      [.worker 1 false .clientsDone] ++ hears 1 4)
    (fun s => decide (RoomObs.gotGameOver ∈ roomLog 1 s.log)) (by decide +kernel)
  exact ⟨s,hs,of_decide_eq_true ht,gameOver_final 2 _ s hs 1⟩

/-- The second room, still waiting for its straggler, drops the message and plays on. -/
theorem gameOver_dropped :
    ¬ ∀ (roomSize : ℕ) (ls : List Label) (s : System), Execution.run System.step (.init roomSize) ls = some s →
      ∀ w, (roomLog w s.log).Pairwise fun o o' => o.heeds o' = true := by
  intro h
  obtain ⟨s,hs,ht⟩ := Execution.exists_of_run_any System.step (.init 2)
    (opening ++ kickoff ++ walkover ++ hears 1 6 ++ [.worker 1 false (.check true noRand)] ++ ticks 1 0)
    (fun s : System => !decide ((roomLog 1 s.log).Pairwise fun o o' : RoomObs => o.heeds o' = true))
    (by decide +kernel)
  simp only [Bool.not_eq_true',decide_eq_false_iff_not] at ht
  exact ht (h 2 _ s hs 1)

end CoreStack.Tetrisd
