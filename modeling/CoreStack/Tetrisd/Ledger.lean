import CoreStack.Tetrisd.Slots
import CoreStack.Lib.Execution

/-! # The attack ledger of a running room

Every lock publishes the damage left after cancellation in `outgoing_garbage` by
plain assignment; only the routing pass reads it. The books therefore balance up
to the amounts a later lock overwrote.
-/
namespace CoreStack.Tetrisd
open Tetris

structure RoomRun where
  worker : Worker
  log : List RoomObs

/-- The room loop on its own: the environment supplies every hub result. -/
def roomStep (r : RoomRun) (l : HubRecv × Input) : Option RoomRun :=
  (r.worker.step 0 l.1 l.2).map fun e => ⟨e.worker,r.log ++ e.obs⟩

/-- A worker at the head of its tick loop with a session just built. -/
def Worker.playing (w : Worker) (rand : ℕ → ℕ → ℕ) (clientIds : List ℕ) : Worker :=
  { w with pc := .drainClients 0, session := initSession rand clientIds }

def tally (f : RoomObs → ℤ) (log : List RoomObs) : ℤ := (log.map f).sum

@[simp] theorem tally_nil (f : RoomObs → ℤ) : tally f [] = 0 := rfl

@[simp] theorem tally_cons (f : RoomObs → ℤ) (o : RoomObs) (log : List RoomObs) :
    tally f (o :: log) = f o + tally f log := by
  simp [tally]

@[simp] theorem tally_append (f : RoomObs → ℤ) (log log' : List RoomObs) :
    tally f (log ++ log') = tally f log + tally f log' := by
  simp [tally]

/-- Lines the routing pass read from slot `i`. -/
def routedOf (i : ℕ) : RoomObs → ℤ
  | .consumed _ j _ _ lines _ => if j = i then lines else 0
  | _ => 0

/-- Damage left over by a lock of slot `i`. -/
def lockedOf (i : ℕ) : RoomObs → ℤ
  | .locked j d _ => if j = i then d else 0
  | _ => 0

/-- What slot `i` still had to send when it locked again. -/
def overwrittenOf (i : ℕ) : RoomObs → ℤ
  | .locked j _ b => if j = i then b else 0
  | _ => 0

/-- The books of slot `i` over one stretch of observations. -/
def Booked (obs : List RoomObs) (i : ℕ) (p q : PlayerSlot) : Prop :=
  tally (routedOf i) obs + q.state.outgoingGarbage + tally (overwrittenOf i) obs =
    tally (lockedOf i) obs + p.state.outgoingGarbage

theorem booked_quiet {p q : PlayerSlot} (h : q.state.outgoingGarbage = p.state.outgoingGarbage) (i : ℕ) :
    Booked [] i p q := by
  simp [Booked,h]

theorem booked_of_silent {obs : List RoomObs} {i : ℕ} {p q : PlayerSlot}
    (hs : ∀ o ∈ obs, routedOf i o = 0 ∧ lockedOf i o = 0 ∧ overwrittenOf i o = 0)
    (h : q.state.outgoingGarbage = p.state.outgoingGarbage) : Booked obs i p q := by
  have ht : tally (routedOf i) obs = 0 ∧ tally (lockedOf i) obs = 0 ∧ tally (overwrittenOf i) obs = 0 := by
    induction obs with
    | nil => exact ⟨rfl,rfl,rfl⟩
    | cons o obs ih =>
      have ho := hs o List.mem_cons_self
      have hi := ih fun o ho => hs o (List.mem_cons_of_mem _ ho)
      simp only [tally_cons]
      omega
  unfold Booked
  omega

/-- A slot whose meter changes exactly as its lock says is booked by that lock. -/
theorem booked_lock {i : ℕ} {p q : PlayerSlot} {lock : Option ℤ}
    (hb : ∀ d, lock = some d → 0 ≤ d ∧ d ≤ maxDamage)
    (h : q.state.outgoingGarbage = published p.state.outgoingGarbage lock) :
    Booked (lockedObs i p lock) i p q := by
  cases lock with
  | none => exact booked_quiet h i
  | some d =>
    obtain ⟨h0,hm⟩ := hb d rfl
    have hu := toU32_of_nonneg h0 (by dsimp only [maxDamage] at hm; omega)
    simp only [Booked,lockedObs,tally_cons,tally_nil,routedOf,lockedOf,overwrittenOf,↓reduceIte,h,published]
    omega

theorem lockedObs_silent {i j : ℕ} (hij : j ≠ i) (p : PlayerSlot) (lock : Option ℤ) :
    ∀ o ∈ lockedObs j p lock, routedOf i o = 0 ∧ lockedOf i o = 0 ∧ overwrittenOf i o = 0 := by
  cases lock with
  | none => simp [lockedObs]
  | some d => simp [lockedObs,routedOf,lockedOf,overwrittenOf,hij]

theorem performAction_outgoing (rand : ℕ → ℕ) (roster : Roster) (s : GameState) {action : PlayerAction}
    (h : action ≠ .hardDrop) : (performAction rand roster s action).outgoingGarbage = s.outgoingGarbage := by
  have key : ∀ t : GameState, t.meters = s.meters → t.outgoingGarbage = s.outgoingGarbage :=
    fun t ht => congrArg Prod.snd ht
  cases action with
  | none => rfl
  | moveLeft =>
    dsimp only [performAction]
    split <;> exact key _ (moveLeft_meters s)
  | moveRight =>
    dsimp only [performAction]
    split <;> exact key _ (moveRight_meters s)
  | rotateCW => exact key _ (rotateCurrentPiece_meters s)
  | rotateCCW => exact key _ (rotateCounterClockwise_meters s)
  | softDrop =>
    dsimp only [performAction]
    split <;> exact key _ (softDrop_meters s)
  | hardDrop => exact absurd rfl h
  | hold =>
    dsimp only [performAction]
    split
    · rfl
    · exact key _ (holdPiece_meters rand s)
  | cycleTargetMode => rfl
  | cycleTarget => exact key _ (cycleManualTarget_meters s roster)
  | quit => rfl

theorem applyToSlot_outgoing (rand : ℕ → ℕ) (roster : Roster) (action : PlayerAction) (p : PlayerSlot) :
    (applyToSlot rand roster action p).state.outgoingGarbage =
      published p.state.outgoingGarbage (actionLock action p) := by
  unfold applyToSlot actionLock
  split
  · rfl
  · by_cases hn : action = .none
    · subst hn
      rfl
    · rw [if_neg hn]
      by_cases hh : action = .hardDrop
      · subst hh
        have ht := tickGame_outgoing rand (Tetris.hardDrop p.state)
        have hd : (Tetris.hardDrop p.state).outgoingGarbage = p.state.outgoingGarbage :=
          congrArg Prod.snd (hardDrop_meters p.state)
        rw [hd] at ht
        exact ht
      · rw [if_neg hh]
        exact performAction_outgoing rand roster p.state hh

theorem actionLock_bounds {action : PlayerAction} {p : PlayerSlot} (hm : p.state.Metered) {d : ℤ}
    (h : actionLock action p = some d) : 0 ≤ d ∧ d ≤ maxDamage := by
  unfold actionLock at h
  split at h
  · cases h
  · split at h
    · exact tickLock_bounds (hm.congr (hardDrop_meters p.state)).pending h
    · cases h

theorem tickSlot_outgoing (rand : ℕ → ℕ) (p : PlayerSlot) :
    (tickSlot rand p).state.outgoingGarbage = published p.state.outgoingGarbage (slotLock p) := by
  unfold tickSlot slotLock
  split
  · rfl
  · exact updateTimers_outgoing rand p.state

theorem slotLock_bounds {p : PlayerSlot} (hm : p.state.Metered) {d : ℤ} (h : slotLock p = some d) :
    0 ≤ d ∧ d ≤ maxDamage := by
  unfold slotLock timersLock at h
  split at h
  · cases h
  · split at h
    · exact tickLock_bounds (s := { p.state with lockTimer := p.state.lockTimer + 1 }) hm.pending h
    · cases h

theorem Booked.append {obs obs' : List RoomObs} {i : ℕ} {p q r : PlayerSlot} (h : Booked obs i p q)
    (h' : Booked obs' i q r) : Booked (obs ++ obs') i p r := by
  unfold Booked at *
  simp only [tally_append]
  omega

theorem booked_client {w : Worker} {n : ℕ} {m : AppMsg} {rand : ℕ → ℕ} {e : Effect}
    (he : clientStep w n m rand = some e) (hm : w.session.Metered) :
    Slotwise (Booked e.obs) w.session e.worker.session := by
  unfold clientStep at he
  split at he
  · cases m with
    | ignored =>
      cases he
      exact slotwise_refl (fun i p => booked_quiet rfl i) _
    | action senderId action =>
      cases he
      dsimp only [applyAction,lookup]
      cases hs : w.session.slotAt (findPlayer w.session senderId) with
      | none => exact slotwise_refl (fun i p => booked_quiet rfl i) _
      | some q =>
        obtain ⟨i,p⟩ := q
        have hp := (lookup_some hs).1
        refine slotwise_setSlot hp ?_ ?_
        · exact booked_lock (fun d hd => actionLock_bounds (hm p (List.mem_of_getElem? hp)) hd)
            (applyToSlot_outgoing rand w.session.roster action p)
        · intro j r hj
          exact booked_of_silent (lockedObs_silent (Ne.symm hj) p _) rfl
  · cases he

theorem tickLocks_silent {i k : ℕ} (players : List PlayerSlot) (hi : i < k ∨ k + players.length ≤ i) :
    ∀ o ∈ (players.zipIdx k).flatMap (fun q => lockedObs q.2 q.1 (slotLock q.1)),
      routedOf i o = 0 ∧ lockedOf i o = 0 ∧ overwrittenOf i o = 0 := by
  intro o ho
  obtain ⟨⟨q,j⟩,hq,ho⟩ := List.mem_flatMap.mp ho
  have hj := List.mem_zipIdx hq
  exact lockedObs_silent (by omega) q _ o ho

theorem booked_tick {w : Worker} {rand : ℕ → ℕ → ℕ} (hm : w.session.Metered) :
    Slotwise (Booked (tickStep w rand).obs) w.session (tickStep w rand).worker.session := by
  refine ⟨List.length_mapIdx,?_⟩
  intro i p q hp hq
  change (w.session.players.mapIdx fun i p => tickSlot (rand i) p)[i]? = some q at hq
  simp only [List.getElem?_mapIdx,hp,Option.map_some,Option.some.injEq] at hq
  subst hq
  obtain ⟨hi,hget⟩ := List.getElem?_eq_some_iff.mp hp
  have hsplit : w.session.players = w.session.players.take i ++ p :: w.session.players.drop (i + 1) := by
    rw [← hget,List.getElem_cons_drop,List.take_append_drop]
  have hlen : (w.session.players.take i).length = i := by
    rw [List.length_take]; omega
  have hticked : Booked [.ticked] i p p :=
    booked_of_silent (by simp [routedOf,lockedOf,overwrittenOf]) rfl
  have hbefore := booked_of_silent (p := p) (q := p)
    (tickLocks_silent (i := i) (k := 0) (w.session.players.take i) (by omega)) rfl
  have hlock : Booked (lockedObs i p (slotLock p)) i p (tickSlot (rand i) p) :=
    booked_lock (fun d hd => slotLock_bounds (hm p (List.mem_of_getElem? hp)) hd) (tickSlot_outgoing (rand i) p)
  have hafter := booked_of_silent (p := tickSlot (rand i) p) (q := tickSlot (rand i) p)
    (tickLocks_silent (i := i) (k := i + 1) (w.session.players.drop (i + 1)) (by omega)) rfl
  have h := hticked.append (hbefore.append (hlock.append hafter))
  have hobs : (tickStep w rand).obs = [.ticked] ++
      (((w.session.players.take i).zipIdx 0).flatMap (fun q => lockedObs q.2 q.1 (slotLock q.1)) ++
      (lockedObs i p (slotLock p) ++
      ((w.session.players.drop (i + 1)).zipIdx (i + 1)).flatMap
        (fun q => lockedObs q.2 q.1 (slotLock q.1)))) := by
    unfold tickStep
    conv_lhs => rw [hsplit]
    simp only [List.zipIdx_append,List.flatMap_append,List.zipIdx_cons,List.flatMap_cons,hlen,zero_add,
      List.singleton_append]
  rwa [hobs]

theorem landAttack_outgoing (remote : Bool) {session : GameSession} {j : ℕ} {v : PlayerSlot}
    (hv : session.players[j]? = some v) (a : HubAttack) :
    Slotwise (Booked (landAttack remote session j v a).2) session (landAttack remote session j v a).1 := by
  have hs : ∀ i, ∀ o ∈ (landAttack remote session j v a).2,
      routedOf i o = 0 ∧ lockedOf i o = 0 ∧ overwrittenOf i o = 0 := by
    simp [landAttack,routedOf,lockedOf,overwrittenOf]
  refine slotwise_setSlot hv (booked_of_silent (hs j) ?_) fun i p _ => booked_of_silent (hs i) rfl
  exact queueGarbage_outgoing v.state _

theorem booked_hub (w : Worker) (hub : HubRecv) :
    Slotwise (Booked (hubStep w hub).obs) w.session (hubStep w hub).worker.session := by
  have hrefl : ∀ obs, (∀ i, ∀ o ∈ obs, routedOf i o = 0 ∧ lockedOf i o = 0 ∧ overwrittenOf i o = 0) →
      Slotwise (Booked obs) w.session w.session :=
    fun obs hs => slotwise_refl (fun i p => booked_of_silent (hs i) rfl) _
  unfold hubStep
  split
  case h_1 a =>
    have hgot : Slotwise (Booked [.gotGarbage a true (w.session.live a.victimId)]) w.session w.session :=
      hrefl _ (by simp [routedOf,lockedOf,overwrittenOf])
    have hland : Slotwise (Booked (applyRemoteGarbage w.session a).2) w.session
        (applyRemoteGarbage w.session a).1 := by
      unfold applyRemoteGarbage
      split
      · rename_i j v h
        split
        · exact hrefl [] (by simp)
        · exact landAttack_outgoing true (lookup_some h).1 a
      · exact hrefl [] (by simp)
    exact hgot.trans hland fun i p q r hp hq => hp.append hq
  all_goals exact hrefl _ (by simp [Worker.quiet,routedOf,lockedOf,overwrittenOf])

theorem booked_route (serial : ℕ) (w : Worker) (i draw : ℕ) :
    Slotwise (Booked (routeStep serial w i draw).obs) w.session (routeStep serial w i draw).worker.session := by
  unfold routeStep
  split
  · exact slotwise_refl (fun i p => booked_quiet rfl i) _
  rename_i p hp
  dsimp only
  unfold routeSlot
  split
  · exact slotwise_refl (fun i p => booked_quiet rfl i) _
  dsimp only
  have hread : ∀ k att vic fate, Slotwise (Booked [.consumed k i att vic p.state.outgoingGarbage fate])
      w.session (w.session.setSlot i p.drained) := by
    intro k att vic fate
    refine slotwise_setSlot hp ?_ ?_
    · simp [Booked,routedOf,lockedOf,overwrittenOf,PlayerSlot.drained]
    · intro j r hj
      exact booked_of_silent (by simp [routedOf,lockedOf,overwrittenOf,Ne.symm hj]) rfl
  split
  · rename_i j v h
    split
    · exact (hread _ _ _ _).trans (landAttack_outgoing false (lookup_some h).1 _) fun i p q r hp hq => hp.append hq
    · exact hread _ _ _ _
  · split
    · refine (hread _ _ _ _).trans (S := Booked [.feed serial]) (slotwise_refl ?_ _)
        fun i p q r hp hq => hp.append hq
      exact fun j r => booked_of_silent (by simp [routedOf,lockedOf,overwrittenOf]) rfl
    · exact hread _ _ _ _

theorem Worker.Step.booked {serial : ℕ} {hub : HubRecv} {w : Worker} {input : Input} {e : Effect}
    (h : Worker.Step serial hub w input e) (hpc : w.pc.inMatch = true) (hm : w.session.Metered) :
    Slotwise (Booked e.obs) w.session e.worker.session := by
  cases h with
  | boot bound h => simp [h,Pc.inMatch] at hpc
  | poll h he => simp [h,Pc.inMatch] at hpc
  | lobbyRecv h => simp [h,Pc.inMatch] at hpc
  | check graceOver rand h => simp [h,Pc.inMatch] at hpc
  | client n m rand h he => exact booked_client he hm
  | clientsDone n h => exact slotwise_refl (fun i p => booked_quiet rfl i) _
  | hubRecv h => exact booked_hub w hub
  | tick rand h => exact booked_tick hm
  | report i h =>
    unfold reportStep
    split
    · exact slotwise_refl (fun i p => booked_quiet rfl i) _
    · rename_i p hp
      dsimp only
      split
      · refine slotwise_setSlot hp ?_ ?_
        · exact booked_of_silent (by simp [routedOf,lockedOf,overwrittenOf]) rfl
        · exact fun j r _ => booked_of_silent (by simp [routedOf,lockedOf,overwrittenOf]) rfl
      · exact slotwise_refl (fun i p => booked_quiet rfl i) _
  | route i draw h => exact booked_route serial w i draw
  | push h =>
    refine slotwise_map pushSlot _ fun i p => booked_quiet ?_ i
    unfold pushSlot
    split <;> rfl
  | conclude h =>
    refine slotwise_map (finishSlot w.winnerId) _ fun i p => booked_quiet ?_ i
    unfold finishSlot
    split <;> rfl

/-- The books of the whole match, with what later locks overwrote on the debit side. -/
structure RoomRun.Ledger (r : RoomRun) : Prop where
  inMatch : r.worker.pc.inMatch = true
  metered : r.worker.session.Metered
  booked : ∀ i p, r.worker.session.players[i]? = some p →
    tally (routedOf i) r.log + p.state.outgoingGarbage + tally (overwrittenOf i) r.log =
      tally (lockedOf i) r.log

theorem playing_ledger (w : Worker) (rand : ℕ → ℕ → ℕ) (clientIds : List ℕ) :
    RoomRun.Ledger ⟨w.playing rand clientIds,[]⟩ := by
  refine ⟨rfl,initSession_metered rand clientIds,?_⟩
  intro i p hp
  obtain ⟨j,-,rfl⟩ := List.mem_mapIdx.mp (List.mem_of_getElem? hp)
  have h : (startGame (rand j)).outgoingGarbage = 0 := congrArg Prod.snd (startGame_meters (rand j))
  simp [initSlot,h]

theorem roomStep_ledger (r : RoomRun) (l : HubRecv × Input) (t : RoomRun) (h : r.Ledger)
    (hs : roomStep r l = some t) : t.Ledger := by
  obtain ⟨e,he,rfl⟩ := Option.map_eq_some_iff.mp hs
  have hst := Worker.step_inv he
  refine ⟨hst.inMatch h.inMatch,hst.metered h.metered,?_⟩
  intro i q hq
  obtain ⟨p,hp,hb⟩ := (hst.booked h.inMatch h.metered).get hq
  have hold := h.booked i p hp
  unfold Booked at hb
  simp only [tally_append]
  omega

theorem tally_overwritten_nonneg (i : ℕ) (log : List RoomObs) : 0 ≤ tally (overwrittenOf i) log := by
  induction log with
  | nil => rfl
  | cons o log ih =>
    have ho : 0 ≤ overwrittenOf i o := by
      unfold overwrittenOf
      split
      · split <;> omega
      · rfl
    rw [tally_cons]
    omega

theorem tally_overwritten_eq_zero {i : ℕ} {log : List RoomObs} :
    tally (overwrittenOf i) log = 0 ↔ ∀ d b, RoomObs.locked i d b ∈ log → b = 0 := by
  induction log with
  | nil => simp
  | cons o log ih =>
    have h0 := tally_overwritten_nonneg i log
    have h1 : 0 ≤ overwrittenOf i o ∧
        (overwrittenOf i o = 0 ↔ ∀ d b, RoomObs.locked i d b = o → b = 0) := by
      cases o with
      | locked j d b =>
        by_cases hj : j = i
        · simp [overwrittenOf,hj]
        · simp [overwrittenOf,hj,Ne.symm hj]
      | _ => simp [overwrittenOf]
    have hsum : tally (overwrittenOf i) (o :: log) = 0 ↔
        overwrittenOf i o = 0 ∧ tally (overwrittenOf i) log = 0 := by
      rw [tally_cons]
      omega
    rw [hsum,ih,h1.2]
    simp only [List.mem_cons]
    constructor
    · rintro ⟨ho,hl⟩ d b (h | h)
      · exact ho d b h
      · exact hl d b h
    · exact fun h => ⟨fun d b hb => h d b (.inl hb),fun d b hb => h d b (.inr hb)⟩

/-- What routing read from slot `i` and what it may still read is what the locks left over. -/
def RoomRun.Balanced (r : RoomRun) (i : ℕ) (p : PlayerSlot) : Prop :=
  tally (routedOf i) r.log + p.state.outgoingGarbage = tally (lockedOf i) r.log

instance (r : RoomRun) (i : ℕ) (p : PlayerSlot) : Decidable (r.Balanced i p) :=
  inferInstanceAs (Decidable (_ = _))

/-- Nothing is lost exactly when no piece locks over unsent damage. -/
theorem roomRun_balanced_iff (w : Worker) (rand : ℕ → ℕ → ℕ) (clientIds : List ℕ)
    (ls : List (HubRecv × Input)) (r : RoomRun)
    (hr : Execution.run roomStep ⟨w.playing rand clientIds,[]⟩ ls = some r) (i : ℕ) (p : PlayerSlot)
    (hp : r.worker.session.players[i]? = some p) :
    r.Balanced i p ↔ ∀ d b, RoomObs.locked i d b ∈ r.log → b = 0 := by
  have h := (Execution.run_invariant roomStep_ledger hr (playing_ledger w rand clientIds)).booked i p hp
  rw [← tally_overwritten_eq_zero]
  unfold RoomRun.Balanced
  omega

def press (playerId : ℕ) (action : PlayerAction) : HubRecv × Input :=
  (.empty,.client (.action playerId action) fun _ => 0)

/-- Seven pieces without a tick in between: the sixth clears two lines, the seventh none. -/
def burst : List (HubRecv × Input) :=
  let left := press 1 .moveLeft
  let right := press 1 .moveRight
  let drop := press 1 .hardDrop
  [left,left,left,drop, left,left,left,left,drop, right,drop, right,right,right,drop, left,left,drop,
    press 1 .rotateCW,right,right,right,right,drop, drop]

def burstRand (i k : ℕ) : ℕ := if i = 0 then [6,3,3,3,2,1].getD k 0 else 0

def burstStart : RoomRun := ⟨(Worker.init 1).playing burstRand [1,2],[]⟩

/-- Before the seventh piece one line waits to be sent; the seventh lock loses it. -/
theorem burst_overwrites :
    ∃ r, Execution.run roomStep burstStart (burst.take 24) = some r ∧
      (r.worker.session.players[0]?).any (fun p => p.state.outgoingGarbage == 1) = true ∧
      (roomStep r (press 1 .hardDrop)).any (fun u => (u.worker.session.players[0]?).any fun p =>
        !decide (u.Balanced 0 p)) = true := by
  obtain ⟨r,hr,ht⟩ := Execution.exists_of_run_any roomStep burstStart (burst.take 24)
    (fun r : RoomRun => (r.worker.session.players[0]?).any (fun p : PlayerSlot => p.state.outgoingGarbage == 1) &&
      (roomStep r (press 1 .hardDrop)).any fun u : RoomRun => (u.worker.session.players[0]?).any
        fun p : PlayerSlot => !decide (u.Balanced 0 p)) (by decide +kernel)
  exact ⟨r,hr,Bool.and_eq_true_iff.mp ht⟩

theorem roomRun_balanced_iff_burst :
    ∃ r p, Execution.run roomStep burstStart (burst.take 24) = some r ∧
      r.worker.session.players[0]? = some p ∧ p.state.outgoingGarbage = 1 ∧
      (r.Balanced 0 p ↔ ∀ d b, RoomObs.locked 0 d b ∈ r.log → b = 0) := by
  obtain ⟨r,hr,ht,-⟩ := burst_overwrites
  cases hp : r.worker.session.players[0]? with
  | none => simp [hp] at ht
  | some p =>
    have hout : p.state.outgoingGarbage = 1 := by simpa [hp] using ht
    exact ⟨r,p,hr,hp,hout,roomRun_balanced_iff (Worker.init 1) burstRand [1,2] _ r hr 0 p hp⟩

theorem burst_unbalanced :
    ¬ ∀ (w : Worker) (rand : ℕ → ℕ → ℕ) (clientIds : List ℕ) (ls : List (HubRecv × Input)) (r : RoomRun),
      Execution.run roomStep ⟨w.playing rand clientIds,[]⟩ ls = some r →
      ∀ i p, r.worker.session.players[i]? = some p → r.Balanced i p := by
  intro h
  obtain ⟨r,hr,-,hstep⟩ := burst_overwrites
  cases hu : roomStep r (press 1 .hardDrop) with
  | none => simp [hu] at hstep
  | some u =>
    have hrun : Execution.run roomStep burstStart (burst.take 24 ++ [press 1 .hardDrop]) = some u :=
      Execution.run_append.mpr ⟨r,hr,Execution.run_cons.mpr ⟨u,hu,rfl⟩⟩
    cases hp : u.worker.session.players[0]? with
    | none => simp [hu,hp] at hstep
    | some p =>
      have hb := h (Worker.init 1) burstRand [1,2] _ u hrun 0 p hp
      simp [hu,hp,hb] at hstep

end CoreStack.Tetrisd
