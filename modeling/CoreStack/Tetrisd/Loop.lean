import CoreStack.Tetrisd.Slots
import CoreStack.Tetris.Protocol
import CoreStack.Lib.Execution

/-! # The tick loop and what it sends

A loop run keeps the messages for the master and, for every slot, the snapshot that was
last sent to the clients. A slot without its dirty flag still shows that snapshot.
-/
namespace CoreStack.Tetrisd
open Tetris Execution

/-- The push pass has nothing to send for this slot yet. -/
def PlayerSlot.skipped (p : PlayerSlot) : Bool := !p.dirty && p.idleTicks < keepaliveTicks

/-- The snapshots after the pass that stands at this program point. -/
def Worker.pushes (w : Worker) (pushed : ℕ → Option StatePayload) (i : ℕ) : Option StatePayload :=
  match w.pc, w.session.players[i]? with
  | .push, some p => if p.skipped then pushed i else some (buildStatePayload p.state)
  | .conclude, some p => if p.active then some (buildStatePayload (finishSlot w.winnerId p).state) else pushed i
  | _, _ => pushed i

structure LoopRun where
  worker : Worker
  sent : List HubMsg
  pushed : ℕ → Option StatePayload

/-- The environment supplies every hub result and every client message. -/
def LoopRun.step (r : LoopRun) (l : HubRecv × Input) : Option LoopRun :=
  (r.worker.step 0 l.1 l.2).map fun e => ⟨e.worker,r.sent ++ e.sent,r.worker.pushes r.pushed⟩

/-- At the head of the tick loop, with a session just built and nothing sent. -/
def LoopRun.start (w : Worker) (rand : ℕ → ℕ → ℕ) (clientIds : List ℕ) : LoopRun :=
  ⟨{ w with pc := .drainClients 0, session := initSession rand clientIds },[],fun _ => none⟩

theorem LoopRun.step_inv {r r' : LoopRun} {l : HubRecv × Input} (h : r.step l = some r') :
    ∃ e, Worker.Step 0 l.1 r.worker l.2 e ∧ r' = ⟨e.worker,r.sent ++ e.sent,r.worker.pushes r.pushed⟩ := by
  obtain ⟨e,he,rfl⟩ := Option.map_eq_some_iff.mp h
  exact ⟨e,Worker.step_inv he,rfl⟩

/-! ## Nothing changes behind a clear dirty flag -/

/-- A slot that is clean after a step was clean before and shows the same snapshot. -/
def Shown (p q : PlayerSlot) : Prop :=
  q.dirty = false → p.dirty = false ∧ buildStatePayload q.state = buildStatePayload p.state

theorem Shown.refl (p : PlayerSlot) : Shown p p := fun h => ⟨h,rfl⟩

theorem Shown.trans {p q r : PlayerSlot} (h : Shown p q) (h' : Shown q r) : Shown p r := by
  intro hr
  obtain ⟨hq,hb⟩ := h' hr
  exact ⟨(h hq).1,hb.trans (h hq).2⟩

theorem shown_of_dirty {p q : PlayerSlot} (h : q.dirty = true) : Shown p q := by
  intro hq
  exact absurd (h.symm.trans hq) (by decide)

theorem applyToSlot_shown (rand : ℕ → ℕ) (roster : Roster) (a : PlayerAction) (p : PlayerSlot) :
    Shown p (applyToSlot rand roster a p) := by
  unfold applyToSlot
  split
  · exact .refl p
  · split
    · exact .refl p
    · exact shown_of_dirty rfl

theorem updateTimers_shown (rand : ℕ → ℕ) {s : GameState} (h : (updateTimers rand s).2 = false) :
    buildStatePayload (updateTimers rand s).1 = buildStatePayload s := by
  unfold updateTimers at h ⊢
  dsimp only at h ⊢
  split at h
  · rename_i hc
    rw [if_pos hc]
    split at h
    · cases h
    · rename_i hg
      rw [if_neg hg]
      rfl
  · rename_i hc
    rw [if_neg hc]
    split at h
    · cases h
    · rename_i hg
      rw [if_neg hg]
      rfl

theorem tickSlot_shown (rand : ℕ → ℕ) (p : PlayerSlot) : Shown p (tickSlot rand p) := by
  unfold tickSlot
  split
  · exact .refl p
  · intro hd
    dsimp only at hd ⊢
    simp only [Bool.or_eq_false_iff] at hd
    exact ⟨hd.1.1,updateTimers_shown rand hd.1.2⟩

theorem drained_shown (p : PlayerSlot) : Shown p p.drained := fun h => ⟨h,rfl⟩

def GameSession.Shown (s t : GameSession) : Prop := Slotwise (fun _ p q => Tetrisd.Shown p q) s t

/-- Between two push passes every visible change sets the dirty flag. -/
theorem Worker.Step.shown {serial : ℕ} {hub : HubRecv} {w : Worker} {input : Input} {e : Effect}
    (h : Worker.Step serial hub w input e) (hm : w.pc.inMatch = true) (hp : w.pc ≠ .push)
    (hc : w.pc ≠ .conclude) : w.session.Shown e.worker.session := by
  refine h.slotwise hm ?_
  constructor
  · exact .refl
  · exact fun _ _ _ => .trans
  · exact applyToSlot_shown
  · exact tickSlot_shown
  · exact fun p attackerId lines _ => shown_of_dirty rfl
  · exact drained_shown
  · exact fun _ _ _ hd => ⟨hd,rfl⟩
  · exact fun hpush => absurd hpush hp
  · exact fun hconclude => absurd hconclude hc

/-! ## The push pass -/

theorem Worker.Step.at_push {serial : ℕ} {hub : HubRecv} {w : Worker} {input : Input} {e : Effect}
    (h : Worker.Step serial hub w input e) (hpc : w.pc = .push) : e = pushStep w := by
  cases h <;> simp_all

theorem Worker.Step.at_conclude {serial : ℕ} {hub : HubRecv} {w : Worker} {input : Input} {e : Effect}
    (h : Worker.Step serial hub w input e) (hpc : w.pc = .conclude) : e = concludeStep w := by
  cases h <;> simp_all

theorem Worker.Step.not_exited {serial : ℕ} {hub : HubRecv} {w : Worker} {input : Input} {e : Effect}
    (h : Worker.Step serial hub w input e) : w.pc ≠ .exited := by
  intro hpc
  cases h <;> simp_all

/-- While the loop runs, a clean slot shows what was last pushed for it. -/
structure LoopRun.Synced (r : LoopRun) : Prop where
  inMatch : r.worker.pc.inMatch = true
  clean : r.worker.pc ≠ .exited → ∀ (i : ℕ) (p : PlayerSlot), r.worker.session.players[i]? = some p →
    p.dirty = false → r.pushed i = some (buildStatePayload p.state)

theorem clean_of_skipped {p : PlayerSlot} (h : p.skipped = true) : p.dirty = false := by
  unfold PlayerSlot.skipped at h
  simpa using (Bool.and_eq_true_iff.mp h).1

theorem pushSlot_state (p : PlayerSlot) : (pushSlot p).state = p.state := by
  unfold pushSlot
  split <;> rfl

theorem LoopRun.Synced.push {r : LoopRun} (h : r.Synced) (hpc : r.worker.pc = .push) {i : ℕ} {q : PlayerSlot}
    (hq : (pushStep r.worker).worker.session.players[i]? = some q) :
    r.worker.pushes r.pushed i = some (buildStatePayload q.state) := by
  have hq : (r.worker.session.players.map pushSlot)[i]? = some q := hq
  rw [List.getElem?_map] at hq
  obtain ⟨p,hp,rfl⟩ := Option.map_eq_some_iff.mp hq
  rw [pushSlot_state]
  unfold Worker.pushes
  rw [hpc,hp]
  dsimp only
  split
  · rename_i hs
    exact h.clean (by rw [hpc]; decide) i p hp (clean_of_skipped hs)
  · rfl

theorem pushes_of_loop {w : Worker} (pushed : ℕ → Option StatePayload) (hp : w.pc ≠ .push) (hc : w.pc ≠ .conclude) :
    w.pushes pushed = pushed := by
  funext i
  unfold Worker.pushes
  split
  · exact absurd ‹_› hp
  · exact absurd ‹_› hc
  · rfl

theorem LoopRun.step_synced {r r' : LoopRun} {l : HubRecv × Input} (h : r.Synced) (hs : r.step l = some r') :
    r'.Synced := by
  obtain ⟨e,he,rfl⟩ := LoopRun.step_inv hs
  refine ⟨he.inMatch h.inMatch,?_⟩
  intro hx i q hq hd
  by_cases hp : r.worker.pc = .push
  · rw [he.at_push hp] at hq
    exact h.push hp hq
  · by_cases hc : r.worker.pc = .conclude
    · rw [he.at_conclude hc] at hx
      exact absurd rfl hx
    · obtain ⟨p,hpi,hsh⟩ := Slotwise.get (he.shown h.inMatch hp hc) hq
      obtain ⟨hd',hb⟩ := hsh hd
      dsimp only
      rw [pushes_of_loop r.pushed hp hc,hb]
      exact h.clean he.not_exited i p hpi hd'

theorem LoopRun.start_synced (w : Worker) (rand : ℕ → ℕ → ℕ) (clientIds : List ℕ) :
    (LoopRun.start w rand clientIds).Synced := by
  refine ⟨rfl,?_⟩
  intro _ i p hp hd
  obtain ⟨k,hk,rfl⟩ := List.mem_mapIdx.mp (List.mem_of_getElem? hp)
  cases hd

theorem LoopRun.run_synced {w : Worker} {rand : ℕ → ℕ → ℕ} {clientIds : List ℕ} {labels : List (HubRecv × Input)}
    {r : LoopRun} (hr : run LoopRun.step (LoopRun.start w rand clientIds) labels = some r) : r.Synced :=
  run_invariant (fun _ _ _ h hs => LoopRun.step_synced h hs) hr (LoopRun.start_synced w rand clientIds)

/-- After every push pass of a loop run the snapshot last pushed for a slot is the
snapshot of its state, and a slot that was skipped had nothing new to show. -/
theorem LoopRun.pushed_is_current (w : Worker) (rand : ℕ → ℕ → ℕ) (clientIds : List ℕ)
    (labels : List (HubRecv × Input)) (r r' : LoopRun) (hub : HubRecv)
    (hr : run LoopRun.step (LoopRun.start w rand clientIds) labels = some r) (hs : r.step (hub,.push) = some r') :
    (∀ (i : ℕ) (p : PlayerSlot), r'.worker.session.players[i]? = some p →
      r'.pushed i = some (buildStatePayload p.state)) ∧
    ∀ (i : ℕ) (p : PlayerSlot), r.worker.session.players[i]? = some p → p.skipped = true →
      r.pushed i = some (buildStatePayload p.state) := by
  have h := LoopRun.run_synced hr
  obtain ⟨e,he,rfl⟩ := LoopRun.step_inv hs
  have hpc : r.worker.pc = .push := by
    cases he
    assumption
  refine ⟨?_,?_⟩
  · intro i p hp
    dsimp only at hp
    rw [he.at_push hpc] at hp
    exact h.push hpc hp
  · intro i p hp hk
    exact h.clean he.not_exited i p hp (clean_of_skipped hk)

theorem LoopRun.second_pass_skips :
    ∃ r r', run LoopRun.step (LoopRun.start (Worker.init 1) (fun _ i => i) [1])
        [(.empty,.clientsDone), (.empty,.recv), (.empty,.tick fun _ i => i), (.empty,.report), (.empty,.report),
          (.empty,.route 0), (.empty,.route 0), (.empty,.push), (.empty,.clientsDone), (.empty,.recv),
          (.empty,.tick fun _ i => i), (.empty,.report), (.empty,.report), (.empty,.route 0), (.empty,.route 0)] = some r ∧
      r.step (.empty,.push) = some r' ∧ (r.worker.session.players.all PlayerSlot.skipped) = true ∧
      ∀ (i : ℕ) (p : PlayerSlot), r'.worker.session.players[i]? = some p →
        r'.pushed i = some (buildStatePayload p.state) := by
  obtain ⟨r,hr,ht⟩ := exists_of_run_any LoopRun.step (LoopRun.start (Worker.init 1) (fun _ i => i) [1])
    [(.empty,.clientsDone), (.empty,.recv), (.empty,.tick fun _ i => i), (.empty,.report), (.empty,.report),
      (.empty,.route 0), (.empty,.route 0), (.empty,.push), (.empty,.clientsDone), (.empty,.recv),
      (.empty,.tick fun _ i => i), (.empty,.report), (.empty,.report), (.empty,.route 0), (.empty,.route 0)]
    (fun r : LoopRun => r.worker.pc == .push && r.worker.session.players.all PlayerSlot.skipped) (by decide +kernel)
  obtain ⟨hpc,hk⟩ := Bool.and_eq_true_iff.mp ht
  have hpc : r.worker.pc = .push := beq_iff_eq.mp hpc
  obtain ⟨r',hs⟩ : ∃ r', r.step (.empty,.push) = some r' := by
    simp [LoopRun.step,Worker.step,hpc]
  exact ⟨r,r',hr,hs,hk,(LoopRun.pushed_is_current _ _ _ _ r r' .empty hr hs).1⟩

end CoreStack.Tetrisd
