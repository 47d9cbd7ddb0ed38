import CoreStack.Tetrisd.Room
import CoreStack.Tetris.Meters

/-! # What one worker step does to the slots of its session

A session operation keeps the number of slots and changes each slot by a
relation that may depend on its index. The relation `Evolves` collects what no
step of a running match can undo.
-/
namespace CoreStack.Tetrisd
open Tetris

/-- Every slot of `t` is related to the slot of `s` at the same index. -/
def Slotwise (R : ℕ → PlayerSlot → PlayerSlot → Prop) (s t : GameSession) : Prop :=
  t.players.length = s.players.length ∧
  ∀ i p q, s.players[i]? = some p → t.players[i]? = some q → R i p q

theorem Slotwise.get {R : ℕ → PlayerSlot → PlayerSlot → Prop} {s t : GameSession} (h : Slotwise R s t)
    {i : ℕ} {q : PlayerSlot} (hq : t.players[i]? = some q) : ∃ p, s.players[i]? = some p ∧ R i p q := by
  obtain ⟨hi,-⟩ := List.getElem?_eq_some_iff.mp hq
  obtain ⟨p,hp⟩ : ∃ p, s.players[i]? = some p := ⟨_,List.getElem?_eq_getElem (h.1 ▸ hi)⟩
  exact ⟨p,hp,h.2 i p q hp hq⟩

theorem slotwise_refl {R : ℕ → PlayerSlot → PlayerSlot → Prop} (hR : ∀ i p, R i p p) (s : GameSession) :
    Slotwise R s s := by
  refine ⟨rfl,?_⟩
  intro i p q hp hq
  cases hp.symm.trans hq
  exact hR i p

theorem slotwise_setSlot {R : ℕ → PlayerSlot → PlayerSlot → Prop} {s : GameSession} {i : ℕ}
    {p q : PlayerSlot} (hp : s.players[i]? = some p) (hR : R i p q) (hne : ∀ j r, j ≠ i → R j r r) :
    Slotwise R s (s.setSlot i q) := by
  refine ⟨List.length_set ..,?_⟩
  intro j a b ha hb
  change (s.players.set i q)[j]? = some b at hb
  by_cases hj : j = i
  · subst hj
    cases hp.symm.trans ha
    rw [List.getElem?_set_self (List.getElem?_eq_some_iff.mp ha).1] at hb
    cases hb
    exact hR
  · rw [List.getElem?_set_ne (Ne.symm hj)] at hb
    cases ha.symm.trans hb
    exact hne j a hj

theorem slotwise_mapIdx {R : ℕ → PlayerSlot → PlayerSlot → Prop} {s : GameSession}
    (f : ℕ → PlayerSlot → PlayerSlot) (r : Roster) (hR : ∀ i p, R i p (f i p)) :
    Slotwise R s ⟨s.players.mapIdx f,r⟩ := by
  refine ⟨List.length_mapIdx,?_⟩
  intro i p q hp hq
  simp only [List.getElem?_mapIdx,hp,Option.map_some,Option.some.injEq] at hq
  exact hq ▸ hR i p

theorem slotwise_map {R : ℕ → PlayerSlot → PlayerSlot → Prop} {s : GameSession}
    (f : PlayerSlot → PlayerSlot) (r : Roster) (hR : ∀ i p, R i p (f p)) :
    Slotwise R s ⟨s.players.map f,r⟩ := by
  refine ⟨List.length_map _,?_⟩
  intro i p q hp hq
  simp only [List.getElem?_map,hp,Option.map_some,Option.some.injEq] at hq
  exact hq ▸ hR i p

theorem Slotwise.trans {R S T : ℕ → PlayerSlot → PlayerSlot → Prop} {s t u : GameSession}
    (h : Slotwise R s t) (h' : Slotwise S t u) (hT : ∀ i p q r, R i p q → S i q r → T i p r) :
    Slotwise T s u := by
  refine ⟨h'.1.trans h.1,?_⟩
  intro i p r hp hr
  obtain ⟨q,hq,hS⟩ := h'.get hr
  exact hT i p q r (h.2 i p q hp hq) hS

theorem lookup_some {session : GameSession} {playerId j : ℕ} {v : PlayerSlot}
    (h : lookup session playerId = some (j,v)) :
    session.players[j]? = some v ∧ v.active = true ∧ v.playerId = playerId := by
  obtain ⟨i,hi,h⟩ := Option.bind_eq_some_iff.mp h
  obtain ⟨v',hv,h⟩ := Option.map_eq_some_iff.mp h
  cases h
  obtain ⟨hlt,hid,-⟩ := List.findIdx?_eq_some_iff_getElem.mp hi
  rw [List.getElem?_eq_getElem hlt] at hv
  cases hv
  simp only [PlayerSlot.hasId,Bool.and_eq_true,beq_iff_eq] at hid
  exact ⟨List.getElem?_eq_getElem hlt,hid⟩

theorem lookup_none {session : GameSession} {playerId j : ℕ} {v : PlayerSlot}
    (h : lookup session playerId = none) (hv : session.players[j]? = some v) (ha : v.active = true) :
    v.playerId ≠ playerId := by
  intro hid
  have hmem := List.mem_of_getElem? hv
  have hf : findPlayer session playerId = none := by
    cases hf : findPlayer session playerId with
    | none => rfl
    | some i =>
      obtain ⟨hlt,-⟩ := List.findIdx?_eq_some_iff_getElem.mp hf
      simp [lookup,GameSession.slotAt,hf,List.getElem?_eq_getElem hlt] at h
  have := List.findIdx?_eq_none_iff.mp hf v hmem
  simp [PlayerSlot.hasId,ha,hid] at this

/-- A slot keeps its player, never becomes active again, keeps its report mark
and stays within the meter bounds. -/
structure PlayerSlot.Evolves (p q : PlayerSlot) : Prop where
  playerId : q.playerId = p.playerId
  active : q.active = true → p.active = true
  reported : p.elimReported = true → q.elimReported = true
  metered : p.state.Metered → q.state.Metered

theorem PlayerSlot.Evolves.refl (p : PlayerSlot) : p.Evolves p := ⟨rfl,id,id,id⟩

theorem PlayerSlot.Evolves.trans {p q r : PlayerSlot} (h : p.Evolves q) (h' : q.Evolves r) : p.Evolves r :=
  ⟨h'.playerId.trans h.playerId,fun ha => h.active (h'.active ha),fun hr => h'.reported (h.reported hr),
    fun hm => h'.metered (h.metered hm)⟩

def GameSession.Evolves (s t : GameSession) : Prop := Slotwise (fun _ p q => p.Evolves q) s t

theorem performAction_metered (rand : ℕ → ℕ) (roster : Roster) {s : GameState} (h : s.Metered)
    (action : PlayerAction) : (performAction rand roster s action).Metered := by
  cases action with
  | none => exact h
  | moveLeft =>
    dsimp only [performAction]
    split <;> exact h.congr (moveLeft_meters s)
  | moveRight =>
    dsimp only [performAction]
    split <;> exact h.congr (moveRight_meters s)
  | rotateCW => exact h.congr (rotateCurrentPiece_meters s)
  | rotateCCW => exact h.congr (rotateCounterClockwise_meters s)
  | softDrop =>
    dsimp only [performAction]
    split <;> exact h.congr (softDrop_meters s)
  | hardDrop => exact (tickGame_metered rand (h.congr (hardDrop_meters s))).congr rfl
  | hold =>
    dsimp only [performAction]
    split
    · exact h
    · exact h.congr (holdPiece_meters rand s)
  | cycleTargetMode => exact h.congr rfl
  | cycleTarget => exact h.congr (cycleManualTarget_meters s roster)
  | quit => exact h.congr rfl

theorem applyToSlot_evolves (rand : ℕ → ℕ) (roster : Roster) (action : PlayerAction) (p : PlayerSlot) :
    p.Evolves (applyToSlot rand roster action p) := by
  unfold applyToSlot
  split
  · exact .refl p
  · rename_i hout
    split
    · exact .refl p
    · have ha : p.active = true := by
        unfold PlayerSlot.out at hout
        simp only [Bool.or_eq_true,Bool.not_eq_true',not_or,Bool.not_eq_false] at hout
        exact hout.1
      exact ⟨rfl,fun _ => ha,id,fun hm => performAction_metered rand roster hm action⟩

theorem tickSlot_evolves (rand : ℕ → ℕ) (p : PlayerSlot) : p.Evolves (tickSlot rand p) := by
  unfold tickSlot
  split
  · exact .refl p
  · exact ⟨rfl,id,id,fun hm => updateTimers_metered rand hm⟩

theorem tickSession_evolves (rand : ℕ → ℕ → ℕ) (session : GameSession) :
    session.Evolves (tickSession rand session) :=
  slotwise_mapIdx (fun i p => tickSlot (rand i) p) _ fun i p => tickSlot_evolves (rand i) p

theorem PlayerSlot.hit_evolves (v : PlayerSlot) (attackerId lines : ℕ) : v.Evolves (v.hit attackerId lines) :=
  ⟨rfl,id,id,fun hm => (queueGarbage_metered hm _).congr rfl⟩

/-- The attacker's slot once its outgoing meter has been read. -/
def PlayerSlot.drained (p : PlayerSlot) : PlayerSlot :=
  { p with state := { p.state with outgoingGarbage := 0 } }

theorem PlayerSlot.drained_evolves (p : PlayerSlot) : p.Evolves p.drained :=
  ⟨rfl,id,id,fun hm => ⟨hm.pending,Nat.zero_le _⟩⟩

theorem pushSlot_evolves (p : PlayerSlot) : p.Evolves (pushSlot p) := by
  unfold pushSlot
  split <;> exact ⟨rfl,id,id,id⟩

theorem finishSlot_evolves (winnerId : ℕ) (p : PlayerSlot) : p.Evolves (finishSlot winnerId p) := by
  unfold finishSlot
  split
  · exact ⟨rfl,id,id,fun hm => hm.congr rfl⟩
  · exact .refl p

/-! ## What a step reports -/

def PlayerSlot.due (p : PlayerSlot) : Bool := p.out && !p.elimReported

theorem Worker.Step.at_report {serial : ℕ} {hub : HubRecv} {w : Worker} {input : Input} {e : Effect}
    (h : Worker.Step serial hub w input e) {i : ℕ} (hpc : w.pc = .report i) : e = reportStep w i := by
  cases h <;> simp_all

theorem reportStep_cases (w : Worker) (i : ℕ) :
    (w.session.players[i]? = none ∧ reportStep w i = { w with pc := .route 0 }.quiet) ∨
    ∃ p, w.session.players[i]? = some p ∧
      ((p.due = true ∧ reportStep w i = ⟨{ w with
          pc := .report (i + 1), session := w.session.setSlot i { p with elimReported := true } },
          [.eliminated p.playerId],[.elimSent p.playerId]⟩) ∨
        p.due = false ∧ reportStep w i = { w with pc := .report (i + 1) }.quiet) := by
  unfold reportStep
  cases hp : w.session.players[i]? with
  | none => exact .inl ⟨rfl,rfl⟩
  | some p =>
    refine .inr ⟨p,rfl,?_⟩
    have hdue : p.due = ((p.state.gameOver || !p.active) && !p.elimReported) := by
      unfold PlayerSlot.due PlayerSlot.out
      rw [Bool.or_comm]
    cases hd : p.due with
    | true => exact .inl ⟨rfl,by simp only [hdue.symm.trans hd,↓reduceIte]⟩
    | false => exact .inr ⟨rfl,by simp only [hdue.symm.trans hd,Bool.false_eq_true,↓reduceIte]⟩

theorem Worker.Step.sent_cases {serial : ℕ} {hub : HubRecv} {w : Worker} {input : Input} {e : Effect}
    (h : Worker.Step serial hub w input e) {m : HubMsg} (hm : m ∈ e.sent) :
    (w.pc = .boot ∧ m = .ready) ∨
    (w.pc = .lobbyPoll ∧ ∃ q ∈ w.server.clients, m = .joined q) ∨
    (∃ i p, w.pc = .report i ∧ m = .eliminated p) ∨
    ∃ i a, w.pc = .route i ∧ (m = .feed a ∨ m = .attack a) := by
  cases h with
  | boot bound hpc =>
    unfold bootStep at hm
    split at hm
    · exact .inl ⟨hpc,List.mem_singleton.mp hm⟩
    · cases hm
  | poll hpc he =>
    unfold pollStep at he
    split at he
    · cases he
      obtain ⟨q,hq,rfl⟩ := List.mem_map.mp hm
      exact .inr (.inl ⟨hpc,q,List.mem_of_mem_drop hq,rfl⟩)
    · cases he
  | lobbyRecv hpc =>
    unfold Tetrisd.lobbyRecv at hm
    split at hm <;> cases hm
  | check graceOver rand hpc =>
    unfold checkStep at hm
    split at hm
    · split at hm <;> cases hm
    · cases hm
  | client n m rand hpc he =>
    unfold clientStep at he
    split at he
    · cases m <;> cases he <;> cases hm
    · cases he
  | clientsDone n hpc => cases hm
  | hubRecv hpc =>
    unfold hubStep at hm
    split at hm <;> cases hm
  | tick rand hpc => cases hm
  | report i hpc =>
    rcases reportStep_cases w i with ⟨-,he⟩ | ⟨p,-,⟨-,he⟩ | ⟨-,he⟩⟩ <;> rw [he] at hm
    · cases hm
    · exact .inr (.inr (.inl ⟨i,p.playerId,hpc,List.mem_singleton.mp hm⟩))
    · cases hm
  | route i draw hpc =>
    unfold routeStep at hm
    split at hm
    · cases hm
    · unfold routeSlot at hm
      split at hm
      · cases hm
      · dsimp only at hm
        split at hm <;> split at hm
        · exact .inr (.inr (.inr ⟨i,_,hpc,.inl (List.mem_singleton.mp hm)⟩))
        · cases hm
        · rcases List.mem_cons.mp hm with rfl | hm
          · exact .inr (.inr (.inr ⟨i,_,hpc,.inr rfl⟩))
          · exact .inr (.inr (.inr ⟨i,_,hpc,.inl (List.mem_singleton.mp hm)⟩))
        · cases hm
  | push hpc => cases hm
  | conclude hpc => cases hm

/-! ## The operations of a match -/

section Operations
variable {R : PlayerSlot → PlayerSlot → Prop} (hrefl : ∀ p, R p p)
include hrefl

theorem applyAction_slotwise {rand : ℕ → ℕ} (hact : ∀ roster action p, R p (applyToSlot rand roster action p))
    (session : GameSession) (slot : Option ℕ) (action : PlayerAction) :
    Slotwise (fun _ => R) session (applyAction rand session slot action) := by
  unfold applyAction
  split
  · exact slotwise_refl (fun _ => hrefl) _
  · rename_i i p h
    obtain ⟨j,-,h⟩ := Option.bind_eq_some_iff.mp h
    obtain ⟨p',hp,h⟩ := Option.map_eq_some_iff.mp h
    cases h
    exact slotwise_setSlot hp (hact session.roster action p) fun _ r _ => hrefl r

/-- Garbage reaches a slot that `find_player` found and that is not game over. -/
theorem landAttack_slotwise (hhit : ∀ p attackerId lines, p.out = false → R p (p.hit attackerId lines))
    (remote : Bool) {session : GameSession} {playerId j : ℕ} {v : PlayerSlot} (a : HubAttack)
    (h : lookup session playerId = some (j,v)) (hg : v.state.gameOver = false) :
    Slotwise (fun _ => R) session (landAttack remote session j v a).1 := by
  obtain ⟨hv,ha,-⟩ := lookup_some h
  exact slotwise_setSlot hv (hhit v _ _ (by simp [PlayerSlot.out,ha,hg])) fun _ r _ => hrefl r

theorem applyRemoteGarbage_slotwise (hhit : ∀ p attackerId lines, p.out = false → R p (p.hit attackerId lines))
    (session : GameSession) (a : HubAttack) : Slotwise (fun _ => R) session (applyRemoteGarbage session a).1 := by
  unfold applyRemoteGarbage
  split
  · rename_i j v h
    split
    · exact slotwise_refl (fun _ => hrefl) _
    · exact landAttack_slotwise hrefl hhit true a h (by simpa using ‹¬v.state.gameOver = true›)
  · exact slotwise_refl (fun _ => hrefl) _

theorem routeSlot_slotwise (htrans : ∀ p q r, R p q → R q r → R p r)
    (hhit : ∀ p attackerId lines, p.out = false → R p (p.hit attackerId lines)) (hdrained : ∀ p, R p p.drained)
    (serial draw : ℕ) {session : GameSession} (global : HubRoster) {i : ℕ} {p : PlayerSlot}
    (hp : session.players[i]? = some p) :
    Slotwise (fun _ => R) session (routeSlot serial draw session global i p).session := by
  have hd : Slotwise (fun _ => R) session (session.setSlot i p.drained) :=
    slotwise_setSlot hp (hdrained p) fun _ r _ => hrefl r
  unfold routeSlot
  split
  · exact slotwise_refl (fun _ => hrefl) _
  · dsimp only
    split
    · rename_i j v h
      split
      · rename_i hc
        exact hd.trans (landAttack_slotwise hrefl hhit false _ h hc.2) fun _ => htrans
      · exact hd
    · split <;> exact hd

end Operations

theorem applyAction_evolves (rand : ℕ → ℕ) (session : GameSession) (slot : Option ℕ) (action : PlayerAction) :
    session.Evolves (applyAction rand session slot action) :=
  applyAction_slotwise .refl (applyToSlot_evolves rand) session slot action

/-- The program points of the tick loop and after it. -/
def Pc.inMatch : Pc → Bool
  | .boot | .lobbyPoll | .lobbyDrain | .lobbyCheck => false
  | _ => true

/-- Every change of a slot that is possible at the worker's program point is one by `R`. -/
structure Worker.Moves (w : Worker) (R : PlayerSlot → PlayerSlot → Prop) : Prop where
  refl : ∀ p, R p p
  trans : ∀ p q r, R p q → R q r → R p r
  action : ∀ rand roster action p, R p (applyToSlot rand roster action p)
  tick : ∀ rand p, R p (tickSlot rand p)
  hit : ∀ p attackerId lines, p.out = false → R p (p.hit attackerId lines)
  drained : ∀ p, R p p.drained
  report : ∀ i p, w.pc = .report i → R p { p with elimReported := true }
  push : w.pc = .push → ∀ p, R p (pushSlot p)
  finish : w.pc = .conclude → ∀ p, R p (finishSlot w.winnerId p)

/-- Outside the start of the match a step changes the slots one by one. -/
theorem Worker.Step.slotwise {R : PlayerSlot → PlayerSlot → Prop} {serial : ℕ} {hub : HubRecv} {w : Worker}
    {input : Input} {e : Effect} (h : Worker.Step serial hub w input e) (hpc : w.pc.inMatch = true)
    (hR : w.Moves R) : Slotwise (fun _ => R) w.session e.worker.session := by
  have hsame : Slotwise (fun _ => R) w.session w.session := slotwise_refl (fun _ => hR.refl) _
  cases h with
  | boot bound h => simp [h,Pc.inMatch] at hpc
  | poll h he => simp [h,Pc.inMatch] at hpc
  | lobbyRecv h => simp [h,Pc.inMatch] at hpc
  | check graceOver rand h => simp [h,Pc.inMatch] at hpc
  | client n m rand h he =>
    unfold clientStep at he
    split at he
    · cases m with
      | ignored => cases he; exact hsame
      | action senderId action => cases he; exact applyAction_slotwise hR.refl (hR.action rand) w.session _ action
    · cases he
  | clientsDone n h => exact hsame
  | hubRecv h =>
    unfold hubStep
    split
    case h_1 a => exact applyRemoteGarbage_slotwise hR.refl hR.hit w.session a
    all_goals exact hsame
  | tick rand h => exact slotwise_mapIdx (fun i p => tickSlot (rand i) p) _ fun i p => hR.tick (rand i) p
  | report i h =>
    rcases reportStep_cases w i with ⟨-,he⟩ | ⟨p,hp,⟨-,he⟩ | ⟨-,he⟩⟩ <;> rw [he]
    · exact hsame
    · exact slotwise_setSlot hp (hR.report i p h) fun _ r _ => hR.refl r
    · exact hsame
  | route i draw h =>
    unfold routeStep
    split
    · exact hsame
    · exact routeSlot_slotwise hR.refl hR.trans hR.hit hR.drained serial draw w.globalRoster ‹_›
  | push h => exact slotwise_map pushSlot _ fun _ p => hR.push h p
  | conclude h => exact slotwise_map (finishSlot w.winnerId) _ fun _ p => hR.finish h p

theorem Worker.Step.evolves {serial : ℕ} {hub : HubRecv} {w : Worker} {input : Input} {e : Effect}
    (h : Worker.Step serial hub w input e) (hpc : w.pc.inMatch = true) : w.session.Evolves e.worker.session := by
  refine h.slotwise hpc ?_
  constructor
  · exact .refl
  · exact fun _ _ _ => .trans
  · exact applyToSlot_evolves
  · exact tickSlot_evolves
  · exact fun p attackerId lines _ => p.hit_evolves attackerId lines
  · exact PlayerSlot.drained_evolves
  · exact fun _ _ _ => ⟨rfl,id,fun _ => rfl,id⟩
  · exact fun _ => pushSlot_evolves
  · exact fun _ => finishSlot_evolves w.winnerId

theorem Worker.Step.inMatch {serial : ℕ} {hub : HubRecv} {w : Worker} {input : Input} {e : Effect}
    (h : Worker.Step serial hub w input e) (hpc : w.pc.inMatch = true) : e.worker.pc.inMatch = true := by
  cases h with
  | boot bound h => simp [h,Pc.inMatch] at hpc
  | poll h he => simp [h,Pc.inMatch] at hpc
  | lobbyRecv h => simp [h,Pc.inMatch] at hpc
  | check graceOver rand h => simp [h,Pc.inMatch] at hpc
  | client n m rand h he =>
    unfold clientStep at he
    split at he
    · cases m <;> cases he <;> rfl
    · cases he
  | clientsDone n h => rfl
  | hubRecv h =>
    unfold hubStep
    split
    case h_6 =>
      dsimp only [Worker.quiet]
      split <;> rfl
    case h_7 => rfl
    all_goals exact hpc
  | tick rand h => rfl
  | report i h =>
    unfold reportStep
    split
    · rfl
    · dsimp only
      split <;> rfl
  | route i draw h =>
    unfold routeStep
    split <;> rfl
  | push h => rfl
  | conclude h => rfl

def GameSession.Metered (s : GameSession) : Prop := ∀ p ∈ s.players, p.state.Metered

theorem GameSession.Metered.evolves {s t : GameSession} (hm : s.Metered) (h : s.Evolves t) : t.Metered := by
  intro q hq
  obtain ⟨i,hi⟩ := List.getElem?_of_mem hq
  obtain ⟨p,hp,he⟩ := Slotwise.get h hi
  exact he.metered (hm p (List.mem_of_getElem? hp))

theorem initSession_metered (rand : ℕ → ℕ → ℕ) (clientIds : List ℕ) :
    (initSession rand clientIds).Metered := by
  intro p hp
  obtain ⟨i,hi,rfl⟩ := List.mem_mapIdx.mp hp
  exact (startGame_metered (rand i)).congr rfl

/-- Before the match the session stays as it is or is built fresh. -/
theorem Worker.Step.lobby_session {serial : ℕ} {hub : HubRecv} {w : Worker} {input : Input} {e : Effect}
    (h : Worker.Step serial hub w input e) (hpc : w.pc.inMatch = false) :
    e.worker.session = w.session ∨ ∃ rand, e.worker.session = initSession rand w.clientIds := by
  cases h with
  | boot bound h =>
    unfold bootStep
    split <;> exact .inl rfl
  | poll h he =>
    unfold pollStep at he
    split at he
    · cases he; exact .inl rfl
    · cases he
  | lobbyRecv h =>
    unfold Tetrisd.lobbyRecv
    split <;> exact .inl rfl
  | check graceOver rand h =>
    unfold checkStep
    split
    · split
      · exact .inl rfl
      · exact .inr ⟨rand,rfl⟩
    · exact .inl rfl
  | client n m rand h he => simp [h,Pc.inMatch] at hpc
  | clientsDone n h => simp [h,Pc.inMatch] at hpc
  | hubRecv h => simp [h,Pc.inMatch] at hpc
  | tick rand h => simp [h,Pc.inMatch] at hpc
  | report i h => simp [h,Pc.inMatch] at hpc
  | route i draw h => simp [h,Pc.inMatch] at hpc
  | push h => simp [h,Pc.inMatch] at hpc
  | conclude h => simp [h,Pc.inMatch] at hpc

theorem Worker.Step.metered {serial : ℕ} {hub : HubRecv} {w : Worker} {input : Input} {e : Effect}
    (h : Worker.Step serial hub w input e) (hm : w.session.Metered) : e.worker.session.Metered := by
  cases hpc : w.pc.inMatch with
  | true => exact hm.evolves (h.evolves hpc)
  | false =>
    obtain hs | ⟨rand,hs⟩ := h.lobby_session hpc
    · exact hs ▸ hm
    · exact hs ▸ initSession_metered rand w.clientIds

end CoreStack.Tetrisd
