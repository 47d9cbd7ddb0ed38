import CoreStack.Tetris.Names
import CoreStack.Tetrisd.Loop
import CoreStack.Tetrisd.Reach
import CoreStack.Tetrisd.TargetRoster

/-! # The boards of a room are games

Whatever a room does to a slot is a list of moves of one game, so what holds of a play
holds of every board of every room. A board keeps the name of its player, and its target
is a player of the room.
-/
namespace CoreStack.Tetrisd
open Tetris Execution

/-- The action of a move, if a player asked for it. -/
def Move.act? : Move → Option PlayerAction
  | .action _ _ a => some a
  | _ => none

/-- Some moves lead from one state to the other, with these actions among them. -/
def Leads (acts : List PlayerAction) (s t : GameState) : Prop :=
  ∃ moves : List Move, moves.filterMap Move.act? = acts ∧
    ∀ p : Play, p.state = s → ∃ q, run Play.step p moves = some q ∧ q.state = t

theorem Leads.refl (s : GameState) : Leads [] s s := ⟨[],rfl,fun p hp => ⟨p,rfl,hp⟩⟩

theorem Leads.trans {acts acts' : List PlayerAction} {s t u : GameState} (h : Leads acts s t) (h' : Leads acts' t u) :
    Leads (acts ++ acts') s u := by
  obtain ⟨moves,hacts,h⟩ := h
  obtain ⟨moves',hacts',h'⟩ := h'
  refine ⟨moves ++ moves',by rw [List.filterMap_append,hacts,hacts'],fun p hp => ?_⟩
  obtain ⟨q,hq,hqs⟩ := h p hp
  obtain ⟨r,hr,hrs⟩ := h' q hqs
  exact ⟨r,run_append.mpr ⟨q,hq,hr⟩,hrs⟩

theorem leads_move (s : GameState) (m : Move) : Leads m.act?.toList s (m.apply s) := by
  refine ⟨[m],?_,fun p hp => ⟨_,run_cons.mpr ⟨_,rfl,rfl⟩,?_⟩⟩
  · cases m <;> rfl
  · rw [← hp]

def Continues (s t : GameState) : Prop := ∃ acts, Leads acts s t

theorem Continues.refl (s : GameState) : Continues s s := ⟨[],.refl s⟩

theorem Continues.trans {s t u : GameState} (h : Continues s t) (h' : Continues t u) : Continues s u := by
  obtain ⟨acts,h⟩ := h
  obtain ⟨acts',h'⟩ := h'
  exact ⟨acts ++ acts',h.trans h'⟩

theorem continues_move (s : GameState) (m : Move) : Continues s (m.apply s) := ⟨_,leads_move s m⟩

/-- One slot of a room after more of its game, with the names it had. -/
structure PlayerSlot.Plays (p q : PlayerSlot) : Prop where
  game : Continues p.state q.state
  slotId : q.playerId = p.playerId
  playerId : q.state.playerId = p.state.playerId

theorem PlayerSlot.Plays.refl (p : PlayerSlot) : p.Plays p := ⟨.refl _,rfl,rfl⟩

theorem PlayerSlot.Plays.trans {p q r : PlayerSlot} (h : p.Plays q) (h' : q.Plays r) : p.Plays r :=
  ⟨h.game.trans h'.game,h'.slotId.trans h.slotId,h'.playerId.trans h.playerId⟩

theorem performAction_names (rand : ℕ → ℕ) (roster : Roster) (s : GameState) (a : PlayerAction) :
    (performAction rand roster s a).names = s.names ∨
      ∃ id ∈ roster.map (·.id), (performAction rand roster s a).names = (s.playerId,id,s.winnerId) := by
  have hreset : ∀ r : GameState × Bool, r.1.names = s.names →
      (if r.2 then { r.1 with lockTimer := 0 } else r.1 : GameState).names = s.names := by
    intro r hr
    split
    · exact hr
    · exact hr
  cases a with
  | none => exact Or.inl rfl
  | moveLeft => exact Or.inl (hreset _ (moveLeft_names s))
  | moveRight => exact Or.inl (hreset _ (moveRight_names s))
  | softDrop => exact Or.inl (hreset _ (softDrop_names s))
  | rotateCW => exact Or.inl (testRotate_names s _)
  | rotateCCW => exact Or.inl (testRotate_names s _)
  | hardDrop => exact Or.inl ((tickGame_names rand (hardDrop s)).trans (hardDropLoop_names _ s))
  | hold =>
    dsimp only [performAction]
    split
    · exact Or.inl rfl
    · exact Or.inl (holdPiece_names rand s)
  | cycleTargetMode => exact Or.inl rfl
  | cycleTarget => exact cycleManualTarget_names s roster
  | quit => exact Or.inl rfl

theorem names_playerId {s t : GameState} (h : t.names = s.names) : t.playerId = s.playerId := congrArg Prod.fst h

theorem names_target {s t : GameState} (h : t.names = s.names) : t.targetPlayerId = s.targetPlayerId :=
  congrArg (fun n : ℕ × ℕ × ℕ => n.2.1) h

theorem names_winnerId {s t : GameState} (h : t.names = s.names) : t.winnerId = s.winnerId :=
  congrArg (fun n : ℕ × ℕ × ℕ => n.2.2) h

theorem performAction_playerId (rand : ℕ → ℕ) (roster : Roster) (s : GameState) (a : PlayerAction) :
    (performAction rand roster s a).playerId = s.playerId := by
  rcases performAction_names rand roster s a with h | ⟨id,-,h⟩
  · exact names_playerId h
  · exact congrArg Prod.fst h

theorem performAction_winnerId (rand : ℕ → ℕ) (roster : Roster) (s : GameState) (a : PlayerAction) :
    (performAction rand roster s a).winnerId = s.winnerId := by
  rcases performAction_names rand roster s a with h | ⟨id,-,h⟩
  · exact names_winnerId h
  · exact congrArg (fun n : ℕ × ℕ × ℕ => n.2.2) h

theorem PlayerSlot.gameOver_of_out {p : PlayerSlot} (h : p.out = false) : p.state.gameOver = false := by
  unfold PlayerSlot.out at h
  exact (Bool.or_eq_false_iff.mp h).2

theorem applyToSlot_plays (rand : ℕ → ℕ) (roster : Roster) (a : PlayerAction) (p : PlayerSlot) :
    p.Plays (applyToSlot rand roster a p) := by
  unfold applyToSlot
  split
  · exact .refl p
  · next hout =>
    split
    · exact .refl p
    · have hover := p.gameOver_of_out (Bool.eq_false_iff.mpr hout)
      have hact : (Move.action rand roster a).apply p.state = performAction rand roster p.state a :=
        if_neg (by rw [hover]; exact Bool.false_ne_true)
      have hgame := continues_move p.state (.action rand roster a)
      rw [hact] at hgame
      exact ⟨hgame,rfl,performAction_playerId rand roster p.state a⟩

theorem tickSlot_plays (rand : ℕ → ℕ) (p : PlayerSlot) : p.Plays (tickSlot rand p) := by
  unfold tickSlot
  split
  · exact .refl p
  · exact ⟨continues_move p.state (.timers rand),rfl,names_playerId (updateTimers_names rand p.state)⟩

theorem hit_plays (p : PlayerSlot) (attackerId lines : ℕ) : p.Plays (p.hit attackerId lines) :=
  ⟨(continues_move p.state (.queue (toI32 lines))).trans (continues_move _ (.attacker attackerId)),rfl,
    names_playerId (queueGarbage_names p.state (toI32 lines))⟩

theorem pushSlot_plays (p : PlayerSlot) : p.Plays (pushSlot p) := by
  unfold pushSlot
  split
  · exact ⟨.refl _,rfl,rfl⟩
  · exact ⟨.refl _,rfl,rfl⟩

theorem finishSlot_plays (winnerId : ℕ) (p : PlayerSlot) : p.Plays (finishSlot winnerId p) := by
  unfold finishSlot
  split
  · exact ⟨continues_move p.state (.finish winnerId),rfl,rfl⟩
  · exact .refl p

theorem Worker.Step.plays {serial : ℕ} {hub : HubRecv} {w : Worker} {input : Input} {e : Effect}
    (h : Worker.Step serial hub w input e) (hm : w.pc.inMatch = true) :
    Slotwise (fun _ p q => p.Plays q) w.session e.worker.session := by
  refine h.slotwise hm ?_
  constructor
  · exact .refl
  · exact fun _ _ _ => .trans
  · exact applyToSlot_plays
  · exact tickSlot_plays
  · exact fun p attackerId lines _ => hit_plays p attackerId lines
  · exact fun p => ⟨continues_move p.state .drain,rfl,rfl⟩
  · exact fun _ p _ => ⟨.refl _,rfl,rfl⟩
  · exact fun _ => pushSlot_plays
  · exact fun _ => finishSlot_plays w.winnerId

/-! ## Steps that perform no action -/

/-- Every change of a slot but by an action of its player is one by `R`. -/
structure Worker.Upkeep (w : Worker) (R : PlayerSlot → PlayerSlot → Prop) : Prop where
  refl : ∀ p, R p p
  trans : ∀ p q r, R p q → R q r → R p r
  tick : ∀ rand p, R p (tickSlot rand p)
  hit : ∀ p attackerId lines, p.out = false → R p (p.hit attackerId lines)
  drained : ∀ p, R p p.drained
  report : ∀ i p, w.pc = .report i → R p { p with elimReported := true }
  push : w.pc = .push → ∀ p, R p (pushSlot p)
  finish : w.pc = .conclude → ∀ p, R p (finishSlot w.winnerId p)

/-- The action a message asks for, and the player it names. -/
def Input.asked : Input → Option (ℕ × PlayerAction)
  | .client (.action senderId action) _ => some (senderId,action)
  | _ => none

theorem Worker.Step.upkeep {R : PlayerSlot → PlayerSlot → Prop} {serial : ℕ} {hub : HubRecv} {w : Worker}
    {input : Input} {e : Effect} (h : Worker.Step serial hub w input e) (hm : w.pc.inMatch = true) (hR : w.Upkeep R) :
    (input.asked = none ∧ Slotwise (fun _ => R) w.session e.worker.session) ∨
    ∃ senderId action rand, input.asked = some (senderId,action) ∧
      e.worker.session = applyAction rand w.session (findPlayer w.session senderId) action := by
  have hsame : Slotwise (fun _ => R) w.session w.session := slotwise_refl (fun _ => hR.refl) _
  cases h with
  | boot bound h => simp [h,Pc.inMatch] at hm
  | poll h he => simp [h,Pc.inMatch] at hm
  | lobbyRecv h => simp [h,Pc.inMatch] at hm
  | check graceOver rand h => simp [h,Pc.inMatch] at hm
  | client n m rand h he =>
    unfold clientStep at he
    split at he
    · cases m with
      | ignored => cases he; exact Or.inl ⟨rfl,hsame⟩
      | action senderId action => cases he; exact Or.inr ⟨senderId,action,rand,rfl,rfl⟩
    · cases he
  | clientsDone n h => exact Or.inl ⟨rfl,hsame⟩
  | hubRecv h =>
    refine Or.inl ⟨rfl,?_⟩
    unfold hubStep
    split
    case h_1 a => exact applyRemoteGarbage_slotwise hR.refl hR.hit w.session a
    all_goals exact hsame
  | tick rand h => exact Or.inl ⟨rfl,slotwise_mapIdx (fun i p => tickSlot (rand i) p) _ fun i p => hR.tick (rand i) p⟩
  | report i h =>
    refine Or.inl ⟨rfl,?_⟩
    rcases reportStep_cases w i with ⟨-,he⟩ | ⟨p,hp,⟨-,he⟩ | ⟨-,he⟩⟩ <;> rw [he]
    · exact hsame
    · exact slotwise_setSlot hp (hR.report i p h) fun _ r _ => hR.refl r
    · exact hsame
  | route i draw h =>
    refine Or.inl ⟨rfl,?_⟩
    unfold routeStep
    split
    · exact hsame
    · exact routeSlot_slotwise hR.refl hR.trans hR.hit hR.drained serial draw w.globalRoster ‹_›
  | push h => exact Or.inl ⟨rfl,slotwise_map pushSlot _ fun _ p => hR.push h p⟩
  | conclude h => exact Or.inl ⟨rfl,slotwise_map (finishSlot w.winnerId) _ fun _ p => hR.finish h p⟩

theorem Worker.Step.roster_ids {serial : ℕ} {hub : HubRecv} {w : Worker} {input : Input} {e : Effect}
    (h : Worker.Step serial hub w input e) (hm : w.pc.inMatch = true) :
    e.worker.session.roster.map (·.id) = w.session.roster.map (·.id) := by
  cases h with
  | boot bound h => simp [h,Pc.inMatch] at hm
  | poll h he => simp [h,Pc.inMatch] at hm
  | lobbyRecv h => simp [h,Pc.inMatch] at hm
  | check graceOver rand h => simp [h,Pc.inMatch] at hm
  | client n m rand h he =>
    unfold clientStep at he
    split at he
    · cases m with
      | ignored => cases he; rfl
      | action senderId action =>
        cases he
        dsimp only
        unfold applyAction
        split
        · rfl
        · dsimp only
          split
          · exact eliminate_ids _ _
          · rfl
    · cases he
  | clientsDone n h => rfl
  | hubRecv h =>
    unfold hubStep
    split
    case h_1 a =>
      dsimp only
      unfold applyRemoteGarbage
      split
      · split <;> rfl
      · rfl
    all_goals rfl
  | tick rand h => exact foldl_eliminate_ids _ _
  | report i h => rcases reportStep_cases w i with ⟨-,he⟩ | ⟨p,-,⟨-,he⟩ | ⟨-,he⟩⟩ <;> rw [he] <;> rfl
  | route i draw h =>
    unfold routeStep
    split
    · rfl
    · unfold routeSlot
      split
      · rfl
      · dsimp only
        split <;> split <;> rfl
  | push h => rfl
  | conclude h => rfl

/-! ## Targets and winners -/

/-- The slot aims at nobody or at a player of the room, and knows no winner. -/
structure PlayerSlot.Aims (ids : List ℕ) (p : PlayerSlot) : Prop where
  target : p.state.targetPlayerId ∈ 0 :: ids
  winnerId : p.state.winnerId = 0

theorem PlayerSlot.Aims.of_names {ids : List ℕ} {p q : PlayerSlot} (h : p.Aims ids)
    (hn : q.state.names = p.state.names) : q.Aims ids :=
  ⟨by rw [names_target hn]; exact h.target,by rw [names_winnerId hn]; exact h.winnerId⟩

structure GameSession.Aims (ids : List ℕ) (s : GameSession) : Prop where
  roster : s.roster.map (·.id) = ids
  slots : ∀ p ∈ s.players, p.Aims ids

theorem GameSession.Aims.slot {ids : List ℕ} {s : GameSession} (h : s.Aims ids) {i : ℕ} {p : PlayerSlot}
    (hp : s.players[i]? = some p) : p.Aims ids := h.slots p (List.mem_of_getElem? hp)

theorem applyToSlot_aims (rand : ℕ → ℕ) {roster : Roster} (a : PlayerAction) {p : PlayerSlot}
    (h : p.Aims (roster.map (·.id))) : (applyToSlot rand roster a p).Aims (roster.map (·.id)) := by
  unfold applyToSlot
  split
  · exact h
  · split
    · exact h
    · rcases performAction_names rand roster p.state a with hn | ⟨id,hid,hn⟩
      · exact h.of_names hn
      · have ht : (performAction rand roster p.state a).targetPlayerId = id :=
          congrArg (fun n : ℕ × ℕ × ℕ => n.2.1) hn
        exact ⟨by rw [ht]; exact List.mem_cons_of_mem _ hid,by rw [performAction_winnerId]; exact h.winnerId⟩

theorem tickSlot_names (rand : ℕ → ℕ) (p : PlayerSlot) : (tickSlot rand p).state.names = p.state.names := by
  unfold tickSlot
  split
  · rfl
  · exact updateTimers_names rand p.state

/-- Until the match is over only an action moves a target. -/
theorem Worker.upkeep_names {w : Worker} (hc : w.pc ≠ .conclude) : w.Upkeep fun p q => q.state.names = p.state.names where
  refl := fun _ => rfl
  trans := fun _ _ _ h h' => h'.trans h
  tick := tickSlot_names
  hit := fun p _ lines _ => queueGarbage_names p.state (toI32 lines)
  drained := fun _ => rfl
  report := fun _ _ _ => rfl
  push := fun _ p => congrArg GameState.names (pushSlot_state p)
  finish := fun h => absurd h hc

theorem Worker.Step.aims {serial : ℕ} {hub : HubRecv} {w : Worker} {input : Input} {e : Effect}
    (h : Worker.Step serial hub w input e) (hm : w.pc.inMatch = true) (hc : w.pc ≠ .conclude) {ids : List ℕ}
    (ha : w.session.Aims ids) : e.worker.session.Aims ids := by
  refine ⟨(h.roster_ids hm).trans ha.roster,?_⟩
  rcases h.upkeep hm (Worker.upkeep_names hc) with ⟨-,hslots⟩ | ⟨senderId,action,rand,-,he⟩
  · intro q hq
    obtain ⟨i,hi⟩ := List.getElem?_of_mem hq
    obtain ⟨p,hp,hn⟩ := hslots.get hi
    exact (ha.slot hp).of_names hn
  · rw [he]
    unfold applyAction
    split
    · exact ha.slots
    · next i p hp =>
      intro q hq
      rcases List.mem_or_eq_of_mem_set hq with hq | rfl
      · exact ha.slots q hq
      · have hslot := ha.slot (slotAt_get hp)
        rw [← ha.roster] at hslot ⊢
        exact applyToSlot_aims rand action hslot

/-! ## Runs of the loop -/

/-- Slot `i` belongs to the `i`-th client, and its board is a game that player began. -/
structure Seat (rand : ℕ → ℕ → ℕ) (ids : List ℕ) (i : ℕ) (p : PlayerSlot) : Prop where
  seated : ids[i]? = some p.playerId
  playerId : p.state.playerId = p.playerId
  game : ∃ target moves q, run Play.step (Play.start (rand i) p.playerId target) moves = some q ∧ q.state = p.state

theorem Seat.plays {rand : ℕ → ℕ → ℕ} {ids : List ℕ} {i : ℕ} {p q : PlayerSlot} (h : Seat rand ids i p)
    (hq : p.Plays q) : Seat rand ids i q := by
  obtain ⟨target,moves,r,hr,hs⟩ := h.game
  obtain ⟨acts,later,-,hl⟩ := hq.game
  obtain ⟨r',hr',hs'⟩ := hl r hs
  refine ⟨by rw [hq.slotId]; exact h.seated,by rw [hq.playerId,hq.slotId]; exact h.playerId,target,moves ++ later,r',?_,hs'⟩
  rw [hq.slotId]
  exact run_append.mpr ⟨r,hr,hr'⟩

/-- A room in its match, or after it. -/
structure LoopRun.Seated (rand : ℕ → ℕ → ℕ) (ids : List ℕ) (r : LoopRun) : Prop where
  inMatch : r.worker.pc.inMatch = true
  length : r.worker.session.players.length = ids.length
  seats : ∀ i p, r.worker.session.players[i]? = some p → Seat rand ids i p
  aims : r.worker.pc ≠ .exited → r.worker.session.Aims ids

theorem Worker.Step.exited_of_conclude {serial : ℕ} {hub : HubRecv} {w : Worker} {input : Input} {e : Effect}
    (h : Worker.Step serial hub w input e) (hc : w.pc = .conclude) : e.worker.pc = .exited := by
  rw [h.at_conclude hc]
  rfl

theorem LoopRun.step_seated {rand : ℕ → ℕ → ℕ} {ids : List ℕ} {r r' : LoopRun} {l : HubRecv × Input}
    (h : r.Seated rand ids) (hs : r.step l = some r') : r'.Seated rand ids := by
  obtain ⟨e,he,rfl⟩ := LoopRun.step_inv hs
  have hplays := he.plays h.inMatch
  refine ⟨he.inMatch h.inMatch,hplays.1.trans h.length,?_,?_⟩
  · intro i q hq
    obtain ⟨p,hp,hpq⟩ := hplays.get hq
    exact (h.seats i p hp).plays hpq
  · intro hx
    by_cases hc : r.worker.pc = .conclude
    · exact absurd (he.exited_of_conclude hc) hx
    · exact he.aims h.inMatch hc (h.aims he.not_exited)

theorem initSlot_seat (rand : ℕ → ℕ → ℕ) (ids : List ℕ) {i id : ℕ} (h : ids[i]? = some id) :
    Seat rand ids i (initSlot (rand i) ids id) :=
  ⟨h,rfl,(ids.find? (· != id)).getD 0,[.attacker 0],_,run_cons.mpr ⟨_,rfl,rfl⟩,rfl⟩

theorem LoopRun.start_seated (w : Worker) (rand : ℕ → ℕ → ℕ) (ids : List ℕ) :
    (LoopRun.start w rand ids).Seated rand ids := by
  refine ⟨rfl,List.length_mapIdx,?_,fun _ => ⟨?_,?_⟩⟩
  · intro i p hp
    change (ids.mapIdx fun i id => initSlot (rand i) ids id)[i]? = some p at hp
    rw [List.getElem?_mapIdx] at hp
    obtain ⟨id,hid,rfl⟩ := Option.map_eq_some_iff.mp hp
    exact initSlot_seat rand ids hid
  · change (ids.map fun id => (⟨id,false⟩ : RosterEntry)).map (·.id) = ids
    rw [List.map_map]
    exact List.map_id ids
  · intro p hp
    obtain ⟨i,hi,rfl⟩ := List.mem_mapIdx.mp hp
    refine ⟨?_,congrArg (fun n : ℕ × ℕ × ℕ => n.2.2) (startGame_names (rand i))⟩
    change (ids.find? (· != ids[i])).getD 0 ∈ 0 :: ids
    cases hf : ids.find? (· != ids[i]) with
    | none => exact List.mem_cons_self
    | some id => exact List.mem_cons_of_mem _ (List.mem_of_find?_eq_some hf)

theorem LoopRun.run_seated {w : Worker} {rand : ℕ → ℕ → ℕ} {ids : List ℕ} {labels : List (HubRecv × Input)} {r : LoopRun}
    (hr : run LoopRun.step (LoopRun.start w rand ids) labels = some r) : r.Seated rand ids :=
  run_invariant (fun _ _ _ h hs => LoopRun.step_seated h hs) hr (LoopRun.start_seated w rand ids)

theorem LoopRun.Seated.slot {rand : ℕ → ℕ → ℕ} {ids : List ℕ} {r : LoopRun} (h : r.Seated rand ids) {i id : ℕ}
    (hi : ids[i]? = some id) : ∃ p, r.worker.session.players[i]? = some p ∧ p.playerId = id := by
  obtain ⟨hlt,-⟩ := List.getElem?_eq_some_iff.mp hi
  have hp := List.getElem?_eq_getElem (h.length.symm ▸ hlt)
  exact ⟨_,hp,Option.some.inj ((h.seats i _ hp).seated.symm.trans hi)⟩

theorem LoopRun.Seated.unique {rand : ℕ → ℕ → ℕ} {ids : List ℕ} {r : LoopRun} (h : r.Seated rand ids) (hn : ids.Nodup)
    {i j : ℕ} {id : ℕ} (hi : ids[i]? = some id) {q : PlayerSlot} (hq : r.worker.session.players[j]? = some q)
    (hid : q.playerId = id) : j = i := by
  obtain ⟨hlt,-⟩ := List.getElem?_eq_some_iff.mp (h.seats j q hq).seated
  exact (List.getElem?_inj hlt hn).mp ((h.seats j q hq).seated.trans (hid ▸ hi.symm))

end CoreStack.Tetrisd
