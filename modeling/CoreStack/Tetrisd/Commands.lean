import CoreStack.Tetrisd.Dispatch
import CoreStack.Tetrisd.Seats

/-! # Who plays a board

The actions among the moves of a board are those its player asked for, all of them and in
their order. What the room does by itself adds no action, and who is out of the game asks
in vain.
-/
namespace CoreStack.Tetrisd
open Tetris Execution

/-- What the messages ask for in the name of this player. -/
def asksOf (id : ℕ) (asked : List (ℕ × PlayerAction)) : List PlayerAction :=
  asked.filterMap fun q => if q.1 = id then some q.2 else none

/-- Who has left the match has no game either. -/
def PlayerSlot.Settled (p : PlayerSlot) : Prop := p.active = false → p.state.gameOver = true

/-- The board goes on with these actions of its player. -/
structure PlayerSlot.Performs (acts : List PlayerAction) (p q : PlayerSlot) : Prop where
  game : Leads acts p.state q.state
  playerId : q.playerId = p.playerId
  settled : p.Settled → q.Settled

theorem PlayerSlot.Performs.refl (p : PlayerSlot) : p.Performs [] p := ⟨.refl _,rfl,id⟩

theorem PlayerSlot.Performs.trans {acts acts' : List PlayerAction} {p q r : PlayerSlot} (h : p.Performs acts q)
    (h' : q.Performs acts' r) : p.Performs (acts ++ acts') r :=
  ⟨h.game.trans h'.game,h'.playerId.trans h.playerId,fun hs => h'.settled (h.settled hs)⟩

theorem tickSlot_performs (rand : ℕ → ℕ) (p : PlayerSlot) : p.Performs [] (tickSlot rand p) := by
  unfold tickSlot
  split
  · exact .refl p
  · next hout =>
    refine ⟨leads_move p.state (.timers rand),rfl,fun _ hactive => ?_⟩
    have hout : p.out = true := by
      unfold PlayerSlot.out
      rw [show p.active = false from hactive]
      rfl
    contradiction

theorem hit_performs (p : PlayerSlot) (attackerId lines : ℕ) (h : p.out = false) :
    p.Performs [] (p.hit attackerId lines) := by
  have hactive : p.active = true := by
    unfold PlayerSlot.out at h
    simpa using (Bool.or_eq_false_iff.mp h).1
  refine ⟨(leads_move p.state (.queue (toI32 lines))).trans (leads_move _ (.attacker attackerId)),rfl,fun _ hno => ?_⟩
  rw [show p.active = false from hno] at hactive
  cases hactive

theorem pushSlot_performs (p : PlayerSlot) : p.Performs [] (pushSlot p) := by
  unfold pushSlot
  split <;> exact ⟨.refl _,rfl,id⟩

theorem finishSlot_performs (winnerId : ℕ) (p : PlayerSlot) : p.Performs [] (finishSlot winnerId p) := by
  unfold finishSlot
  split
  · exact ⟨leads_move p.state (.finish winnerId),rfl,fun _ _ => rfl⟩
  · exact .refl p

theorem Worker.upkeep_performs (w : Worker) : w.Upkeep (PlayerSlot.Performs []) where
  refl := .refl
  trans := fun _ _ _ h h' => h.trans h'
  tick := tickSlot_performs
  hit := hit_performs
  drained := fun p => ⟨leads_move p.state .drain,rfl,fun h => h⟩
  report := fun _ _ _ => ⟨.refl _,rfl,id⟩
  push := fun _ => pushSlot_performs
  finish := fun _ => finishSlot_performs w.winnerId

/-! ## One action -/

/-- Whether it counts or not, an action is a move of the board. -/
theorem applyToSlot_performs (rand : ℕ → ℕ) (roster : Roster) (a : PlayerAction) {p : PlayerSlot} (hs : p.Settled) :
    p.Performs [a] (applyToSlot rand roster a p) := by
  have hmove := leads_move p.state (.action rand roster a)
  have hact : (Move.action rand roster a).apply p.state =
      if p.state.gameOver then p.state else performAction rand roster p.state a := rfl
  rw [hact] at hmove
  cases hout : p.out with
  | true =>
    have hover : p.state.gameOver = true := by
      unfold PlayerSlot.out at hout
      rcases Bool.or_eq_true_iff.mp hout with hno | hover
      · exact hs (by simpa using hno)
      · exact hover
    rw [if_pos hover] at hmove
    rw [applyToSlot,if_pos hout]
    exact ⟨hmove,rfl,id⟩
  | false =>
    rw [if_neg (by rw [p.gameOver_of_out hout]; exact Bool.false_ne_true)] at hmove
    rw [applyToSlot,if_neg (by rw [hout]; exact Bool.false_ne_true)]
    split
    · next hnone =>
      rw [hnone] at hmove ⊢
      exact ⟨hmove,rfl,id⟩
    · refine ⟨hmove,rfl,fun _ hno => ?_⟩
      have hquit : a = .quit := by simpa using hno
      rw [hquit]
      rfl

theorem performs_out (a : PlayerAction) {p : PlayerSlot} (hs : p.Settled) (hactive : p.active = false) :
    p.Performs [a] p := by
  have hmove := leads_move p.state (.action (fun _ => 0) [] a)
  have hact : (Move.action (fun _ => 0) [] a).apply p.state = p.state := if_pos (hs hactive)
  rw [hact] at hmove
  exact ⟨hmove,rfl,id⟩

theorem applyAction_performs {rand : ℕ → ℕ → ℕ} {ids : List ℕ} {r : LoopRun} (h : r.Seated rand ids) (hn : ids.Nodup)
    (hsettled : ∀ p ∈ r.worker.session.players, p.Settled) (draws : ℕ → ℕ) (senderId : ℕ) (a : PlayerAction) :
    Slotwise (fun _ p q => p.Performs (asksOf p.playerId [(senderId,a)]) q) r.worker.session
      (applyAction draws r.worker.session (findPlayer r.worker.session senderId) a) := by
  have hasked : ∀ p : PlayerSlot, p.playerId = senderId → asksOf p.playerId [(senderId,a)] = [a] :=
    fun p hid => List.filterMap_cons_some (if_pos hid.symm)
  have hother : ∀ p : PlayerSlot, p.playerId ≠ senderId → asksOf p.playerId [(senderId,a)] = [] :=
    fun p hid => List.filterMap_cons_none (if_neg (Ne.symm hid))
  cases hfind : findPlayer r.worker.session senderId with
  | none =>
    refine ⟨rfl,fun j p q hp hq => ?_⟩
    cases hp.symm.trans hq
    by_cases hid : p.playerId = senderId
    · rw [hasked p hid]
      refine performs_out a (hsettled p (List.mem_of_getElem? hp)) (Bool.eq_false_iff.mpr fun hactive => ?_)
      have hlookup : lookup r.worker.session senderId = none := by
        rw [lookup,hfind]
        rfl
      exact lookup_none hlookup hp hactive hid
    · rw [hother p hid]
      exact .refl p
  | some i =>
    obtain ⟨p,hp,hid⟩ := findPlayer_some hfind
    have hplayers := applyAction_players hp draws a
    refine ⟨by rw [hplayers]; exact List.length_set,fun j q q' hq hq' => ?_⟩
    rw [hplayers] at hq'
    by_cases hj : j = i
    · subst hj
      cases hp.symm.trans hq
      rw [List.getElem?_set_self (List.getElem?_eq_some_iff.mp hp).1] at hq'
      cases hq'
      rw [hasked p hid]
      exact applyToSlot_performs draws _ a (hsettled p (List.mem_of_getElem? hp))
    · rw [List.getElem?_set_ne (Ne.symm hj)] at hq'
      cases hq.symm.trans hq'
      have hne : q.playerId ≠ senderId := by
        intro hsame
        exact hj (h.unique hn (hid ▸ (h.seats i p hp).seated) hq hsame)
      rw [hother q hne]
      exact .refl q

/-! ## Runs -/

/-- A room whose boards are made of what was asked so far. -/
structure LoopRun.Obeys (rand : ℕ → ℕ → ℕ) (ids : List ℕ) (asked : List (ℕ × PlayerAction)) (r : LoopRun) : Prop where
  seated : r.Seated rand ids
  settled : ∀ p ∈ r.worker.session.players, p.Settled
  games : ∀ i p, r.worker.session.players[i]? = some p → ∃ target moves q,
    run Play.step (Play.start (rand i) p.playerId target) moves = some q ∧ q.state = p.state ∧
      moves.filterMap Move.act? = asksOf p.playerId asked

theorem asksOf_append (id : ℕ) (asked more : List (ℕ × PlayerAction)) :
    asksOf id (asked ++ more) = asksOf id asked ++ asksOf id more := List.filterMap_append

theorem LoopRun.step_obeys {rand : ℕ → ℕ → ℕ} {ids : List ℕ} (hn : ids.Nodup) {asked : List (ℕ × PlayerAction)}
    {r r' : LoopRun} {l : HubRecv × Input} (h : r.Obeys rand ids asked) (hs : r.step l = some r') :
    r'.Obeys rand ids (asked ++ l.2.asked.toList) := by
  obtain ⟨e,he,hr⟩ := LoopRun.step_inv hs
  have hseated := LoopRun.step_seated h.seated hs
  have hslots : Slotwise (fun _ p q => p.Performs (asksOf p.playerId l.2.asked.toList) q) r.worker.session
      r'.worker.session := by
    rw [hr]
    rcases he.upkeep h.seated.inMatch r.worker.upkeep_performs with ⟨hnone,hslots⟩ | ⟨senderId,a,draws,hsome,hsession⟩
    · rw [hnone]
      exact hslots
    · rw [hsome]
      dsimp only
      rw [hsession]
      exact applyAction_performs h.seated hn h.settled draws senderId a
  refine ⟨hseated,?_,?_⟩
  · intro q hq
    obtain ⟨i,hi⟩ := List.getElem?_of_mem hq
    obtain ⟨p,hp,hperforms⟩ := hslots.get hi
    exact hperforms.settled (h.settled p (List.mem_of_getElem? hp))
  · intro i q hq
    obtain ⟨p,hp,hperforms⟩ := hslots.get hq
    obtain ⟨target,moves,u,hrun,hu,hacts⟩ := h.games i p hp
    obtain ⟨later,hlater,hleads⟩ := hperforms.game
    obtain ⟨v,hv,hvs⟩ := hleads u hu
    rw [hperforms.playerId]
    refine ⟨target,moves ++ later,v,run_append.mpr ⟨u,hrun,hv⟩,hvs,?_⟩
    rw [List.filterMap_append,hacts,hlater,asksOf_append]

theorem LoopRun.start_obeys (w : Worker) (rand : ℕ → ℕ → ℕ) (ids : List ℕ) :
    (LoopRun.start w rand ids).Obeys rand ids [] := by
  refine ⟨LoopRun.start_seated w rand ids,?_,?_⟩
  · intro p hp hno
    obtain ⟨i,hi,rfl⟩ := List.mem_mapIdx.mp hp
    cases hno
  · intro i p hp
    change (ids.mapIdx fun i id => initSlot (rand i) ids id)[i]? = some p at hp
    rw [List.getElem?_mapIdx] at hp
    obtain ⟨id,-,rfl⟩ := Option.map_eq_some_iff.mp hp
    exact ⟨(ids.find? (· != id)).getD 0,[.attacker 0],_,run_cons.mpr ⟨_,rfl,rfl⟩,rfl,rfl⟩

theorem LoopRun.run_obeys {rand : ℕ → ℕ → ℕ} {ids : List ℕ} (hn : ids.Nodup) {asked : List (ℕ × PlayerAction)}
    {r r' : LoopRun} {labels : List (HubRecv × Input)} (h : r.Obeys rand ids asked)
    (hr : run LoopRun.step r labels = some r') :
    r'.Obeys rand ids (asked ++ labels.filterMap fun l => l.2.asked) := by
  induction labels generalizing r asked with
  | nil =>
    cases hr
    rw [List.filterMap_nil,List.append_nil]
    exact h
  | cons l labels ih =>
    obtain ⟨u,hu,hrest⟩ := run_cons.mp hr
    have hnext := ih (LoopRun.step_obeys hn h hu) hrest
    rw [List.append_assoc] at hnext
    have hlog : l.2.asked.toList ++ labels.filterMap (fun l => l.2.asked) = (l :: labels).filterMap fun l => l.2.asked := by
      cases hl : l.2.asked with
      | none => exact (List.filterMap_cons_none (f := fun l : HubRecv × Input => l.2.asked) hl).symm
      | some q => exact (List.filterMap_cons_some (f := fun l : HubRecv × Input => l.2.asked) hl).symm
    rw [hlog] at hnext
    exact hnext

end CoreStack.Tetrisd
