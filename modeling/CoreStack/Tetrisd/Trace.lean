import CoreStack.Tetrisd.Slots

/-! # Where each observation of a worker comes from

An observation tells the program point of the step it was made in and, when it
is about a hub message, that message.
-/
namespace CoreStack.Tetrisd
open Tetris

/-- What the step of `w` into `e` must be for the observation to be in it. -/
def RoomObs.Source (serial : ℕ) (hub : HubRecv) (w : Worker) (e : Effect) : RoomObs → Prop
  | .added _ => False
  | .started => w.pc = .lobbyCheck ∧ e.worker.pc.inMatch = true
  | .ticked => w.pc = .tick
  | .locked .. => w.pc.inMatch = true
  | .elimSent playerId => (∃ i, w.pc = .report i) ∧ ∃ p ∈ w.session.players, p.playerId = playerId
  | .consumed k .. => k = serial ∧ ∃ i, w.pc = .route i
  | .queued c => (∃ i, w.pc = .route i ∧ c.serial = serial) ∨
      (w.pc = .drainHub ∧ ∃ a, hub = .msg (.garbage a) ∧ c.serial = a.serial)
  | .feed k => (∃ i, w.pc = .route i ∧ k = serial) ∨ (w.pc = .drainHub ∧
      ∃ a, (hub = .msg (.garbage a) ∨ hub = .msg (.feed a)) ∧ k = a.serial)
  | .gotGarbage a _ _ => hub = .msg (.garbage a) ∧ (w.pc = .lobbyDrain ∨ w.pc = .drainHub)
  | .gotFeed k => w.pc = .drainHub ∧ ∃ a, hub = .msg (.feed a) ∧ k = a.serial
  | .gotGameOver => (∃ x, hub = .msg (.gameOver x)) ∧
      (w.pc = .lobbyDrain ∨ w.pc = .drainHub ∧ e.worker.matchOver = true ∧ e.worker.pc = .drainHub)

theorem lockedObs_source {serial : ℕ} {hub : HubRecv} {w : Worker} {e : Effect} {i : ℕ} {p : PlayerSlot}
    {lock : Option ℤ} (hpc : w.pc.inMatch = true) {o : RoomObs} (h : o ∈ lockedObs i p lock) :
    o.Source serial hub w e := by
  cases lock with
  | none => cases h
  | some d =>
    rw [List.mem_singleton.mp h]
    exact hpc

theorem routeSlot_source {serial draw : ℕ} {session : GameSession} {global : HubRoster} {i : ℕ}
    {p : PlayerSlot} {hub : HubRecv} {w : Worker} {e : Effect} (hpc : w.pc = .route i) {o : RoomObs}
    (h : o ∈ (routeSlot serial draw session global i p).obs) : o.Source serial hub w e := by
  unfold routeSlot at h
  split at h
  · cases h
  · dsimp only at h
    split at h
    · split at h
      · simp only [landAttack,List.mem_cons,List.not_mem_nil,or_false] at h
        rcases h with rfl | rfl | rfl
        · exact ⟨rfl,i,hpc⟩
        · exact .inl ⟨i,hpc,rfl⟩
        · exact .inl ⟨i,hpc,rfl⟩
      · rw [List.mem_singleton.mp h]
        exact ⟨rfl,i,hpc⟩
    · split at h
      · simp only [List.mem_cons,List.not_mem_nil,or_false] at h
        rcases h with rfl | rfl
        · exact ⟨rfl,i,hpc⟩
        · exact .inl ⟨i,hpc,rfl⟩
      · rw [List.mem_singleton.mp h]
        exact ⟨rfl,i,hpc⟩

theorem applyRemoteGarbage_source {serial : ℕ} {session : GameSession} {a : HubAttack} {w : Worker} {e : Effect}
    (hpc : w.pc = .drainHub) {o : RoomObs} (h : o ∈ (applyRemoteGarbage session a).2) :
    o.Source serial (.msg (.garbage a)) w e := by
  unfold applyRemoteGarbage at h
  split at h
  · split at h
    · cases h
    · simp only [landAttack,List.mem_cons,List.not_mem_nil,or_false] at h
      rcases h with rfl | rfl
      · exact .inr ⟨hpc,a,rfl,rfl⟩
      · exact .inr ⟨hpc,a,.inl rfl,rfl⟩
  · cases h

theorem Worker.Step.source {serial : ℕ} {hub : HubRecv} {w : Worker} {input : Input} {e : Effect}
    (h : Worker.Step serial hub w input e) {o : RoomObs} (ho : o ∈ e.obs) : o.Source serial hub w e := by
  cases h with
  | boot bound hpc =>
    unfold bootStep at ho
    split at ho <;> cases ho
  | poll hpc he =>
    unfold pollStep at he
    split at he
    · cases he; cases ho
    · cases he
  | lobbyRecv hpc =>
    unfold Tetrisd.lobbyRecv at ho
    split at ho
    case h_3 =>
      rw [List.mem_singleton.mp ho]
      exact ⟨rfl,.inl hpc⟩
    case h_4 =>
      rw [List.mem_singleton.mp ho]
      exact ⟨⟨_,rfl⟩,.inl hpc⟩
    all_goals cases ho
  | check graceOver rand hpc =>
    unfold checkStep at ho ⊢
    split at ho
    · rename_i hc
      split at ho
      · cases ho
      · rename_i hlen
        rw [List.mem_singleton.mp ho,if_pos hc,if_neg hlen]
        exact ⟨hpc,rfl⟩
    · cases ho
  | client n m rand hpc he =>
    unfold clientStep at he
    split at he
    · cases m with
      | ignored => cases he; cases ho
      | action senderId action =>
        cases he
        dsimp only at ho
        split at ho
        · exact lockedObs_source (by rw [hpc]; rfl) ho
        · cases ho
    · cases he
  | clientsDone n hpc => cases ho
  | hubRecv hpc =>
    unfold hubStep at ho ⊢
    split at ho
    case h_1 a =>
      rcases List.mem_cons.mp ho with rfl | ho
      · exact ⟨rfl,.inr hpc⟩
      · exact applyRemoteGarbage_source hpc ho
    case h_2 a =>
      simp only [List.mem_cons,List.not_mem_nil,or_false] at ho
      rcases ho with rfl | rfl
      · exact ⟨hpc,a,rfl,rfl⟩
      · exact .inr ⟨hpc,a,.inr rfl,rfl⟩
    case h_4 x =>
      rw [List.mem_singleton.mp ho]
      exact ⟨⟨x,rfl⟩,.inr ⟨hpc,rfl,hpc⟩⟩
    all_goals cases ho
  | tick rand hpc =>
    rcases List.mem_cons.mp ho with rfl | ho
    · exact hpc
    · obtain ⟨q,-,ho⟩ := List.mem_flatMap.mp ho
      exact lockedObs_source (by rw [hpc]; rfl) ho
  | report i hpc =>
    unfold reportStep at ho
    split at ho
    · cases ho
    · rename_i p hp
      dsimp only at ho
      split at ho
      · rw [List.mem_singleton.mp ho]
        exact ⟨⟨i,hpc⟩,p,List.mem_of_getElem? hp,rfl⟩
      · cases ho
  | route i draw hpc =>
    unfold routeStep at ho ⊢
    split at ho
    · cases ho
    · exact routeSlot_source hpc ho
  | push hpc => cases ho
  | conclude hpc => cases ho

theorem Worker.Step.server {serial : ℕ} {hub : HubRecv} {w : Worker} {input : Input} {e : Effect}
    (h : Worker.Step serial hub w input e) :
    e.worker.server.nextId = w.server.nextId ∧ e.worker.server.accepted = w.server.accepted ∧
    e.worker.server.pending = w.server.pending ∧ e.worker.server.clients = w.server.clients := by
  cases h with
  | boot bound hpc =>
    unfold bootStep
    split <;> exact ⟨rfl,rfl,rfl,rfl⟩
  | poll hpc he =>
    unfold pollStep at he
    split at he
    · cases he; exact ⟨rfl,rfl,rfl,rfl⟩
    · cases he
  | lobbyRecv hpc =>
    unfold Tetrisd.lobbyRecv
    split <;> exact ⟨rfl,rfl,rfl,rfl⟩
  | check graceOver rand hpc =>
    unfold checkStep
    split
    · split <;> exact ⟨rfl,rfl,rfl,rfl⟩
    · exact ⟨rfl,rfl,rfl,rfl⟩
  | client n m rand hpc he =>
    unfold clientStep at he
    split at he
    · cases m <;> cases he <;> exact ⟨rfl,rfl,rfl,rfl⟩
    · cases he
  | clientsDone n hpc => exact ⟨rfl,rfl,rfl,rfl⟩
  | hubRecv hpc =>
    unfold hubStep
    split <;> exact ⟨rfl,rfl,rfl,rfl⟩
  | tick rand hpc => exact ⟨rfl,rfl,rfl,rfl⟩
  | report i hpc =>
    unfold reportStep
    split
    · exact ⟨rfl,rfl,rfl,rfl⟩
    · dsimp only
      split <;> exact ⟨rfl,rfl,rfl,rfl⟩
  | route i draw hpc =>
    unfold routeStep
    split <;> exact ⟨rfl,rfl,rfl,rfl⟩
  | push hpc => exact ⟨rfl,rfl,rfl,rfl⟩
  | conclude hpc => exact ⟨rfl,rfl,rfl,rfl⟩

/-! ## Attack traffic of one step -/

/-- A `queue_garbage` call does what this attack asks for. -/
structure QueueCall.Fits (c : QueueCall) (a : HubAttack) : Prop where
  serial : c.serial = a.serial
  lines : c.lines = a.lines
  playerId : c.playerId = a.victimId
  active : c.active = true
  gameOver : c.gameOver = false
  after : c.after = min boardHeight (c.before + a.lines)

/-- Amounts the routing pass can read. -/
def HubAttack.Sized (a : HubAttack) : Prop := 0 < a.lines ∧ a.lines ≤ maxDamage

/-- What an observation says about an attack. -/
inductive Cargo
  | read (fate : Fate)
  | call (remote : Bool)
  | shown
  | arrival (playing live : Bool)
  | relayed
  deriving DecidableEq, Repr

/-- The serial of the attack an observation is about. -/
def RoomObs.cargo : RoomObs → Option (ℕ × Cargo)
  | .consumed k _ _ _ _ fate => some (k,.read fate)
  | .queued c => some (c.serial,.call c.remote)
  | .feed k => some (k,.shown)
  | .gotGarbage a playing live => some (a.serial,.arrival playing live)
  | .gotFeed k => some (k,.relayed)
  | _ => none

inductive Freight
  | attack
  | garbage
  | feed
  deriving DecidableEq, Repr

def HubMsg.cargo : HubMsg → Option (ℕ × Freight)
  | .attack a => some (a.serial,.attack)
  | .garbage a => some (a.serial,.garbage)
  | .feed a => some (a.serial,.feed)
  | _ => none

/-- A step of a worker, seen from the attacks of the match. -/
inductive Worker.Traffic (serial : ℕ) (hub : HubRecv) (w : Worker) (input : Input) (e : Effect) : Prop
  | quiet (ho : ∀ o ∈ e.obs, o.cargo = none) (hs : ∀ m ∈ e.sent, m.cargo = none)
      (hg : input = .recv → ∀ a, hub ≠ .msg (.garbage a))
  | here (i : ℕ) (p : PlayerSlot) (a : HubAttack) (c : QueueCall) (hi : input ≠ .recv) (hpc : w.pc = .route i)
      (hp : w.session.players[i]? = some p) (ha : a.attackerId = p.playerId) (hk : a.serial = serial)
      (hz : a.Sized) (hc : c.Fits a) (hr : c.remote = false) (hne : c.slot ≠ i)
      (hv : ∃ v : PlayerSlot, w.session.players[c.slot]? = some v ∧ v.playerId = c.playerId)
      (ho : e.obs = [.consumed serial i a.attackerId a.victimId a.lines .here, .queued c, .feed serial])
      (hs : e.sent = [.feed a])
  | away (i : ℕ) (p : PlayerSlot) (a : HubAttack) (hi : input ≠ .recv) (hpc : w.pc = .route i)
      (hp : w.session.players[i]? = some p) (ha : a.attackerId = p.playerId) (hk : a.serial = serial)
      (hz : a.Sized) (hne : a.victimId ≠ a.attackerId)
      (habs : ∀ v ∈ w.session.players, v.active = true → v.playerId ≠ a.victimId)
      (ho : e.obs = [.consumed serial i a.attackerId a.victimId a.lines .away, .feed serial])
      (hs : e.sent = [.attack a, .feed a])
  | dropped (i : ℕ) (p : PlayerSlot) (victimId lines : ℕ) (hi : input ≠ .recv) (hpc : w.pc = .route i)
      (hp : w.session.players[i]? = some p)
      (ho : e.obs = [.consumed serial i p.playerId victimId lines .dropped]) (hs : e.sent = [])
  | lobby (a : HubAttack) (hi : input = .recv) (hh : hub = .msg (.garbage a)) (hpc : w.pc = .lobbyDrain)
      (ho : e.obs = [.gotGarbage a false (w.clientIds.contains a.victimId)]) (hs : e.sent = [])
  | hit (a : HubAttack) (v : PlayerSlot) (c : QueueCall) (hi : input = .recv) (hh : hub = .msg (.garbage a))
      (hpc : w.pc = .drainHub) (hv : w.session.players[c.slot]? = some v) (hva : v.active = true)
      (hid : v.playerId = a.victimId) (hc : a.Sized → c.Fits a) (hk : c.serial = a.serial) (hr : c.remote = true)
      (hcv : c.playerId = v.playerId)
      (ho : e.obs = [.gotGarbage a true true, .queued c, .feed a.serial]) (hs : e.sent = [])
  | miss (a : HubAttack) (hi : input = .recv) (hh : hub = .msg (.garbage a)) (hpc : w.pc = .drainHub)
      (ho : e.obs = [.gotGarbage a true false]) (hs : e.sent = [])
  | feed (a : HubAttack) (hi : input = .recv) (hh : hub = .msg (.feed a)) (hpc : w.pc = .drainHub)
      (ho : e.obs = [.gotFeed a.serial, .feed a.serial]) (hs : e.sent = [])

/-- The call that `landAttack` makes. -/
def landing (remote : Bool) (j : ℕ) (v : PlayerSlot) (a : HubAttack) : QueueCall :=
  ⟨a.serial,remote,j,toI32 a.lines,v.playerId,v.active,v.state.gameOver,v.state.pendingGarbage,
    (v.hit a.attackerId a.lines).state.pendingGarbage⟩

theorem landing_fits (remote : Bool) (j : ℕ) {v : PlayerSlot} {a : HubAttack} (hm : v.state.Metered)
    (hz : a.Sized) (ha : v.active = true) (hid : v.playerId = a.victimId) (hg : v.state.gameOver = false) :
    (landing remote j v a).Fits a := by
  obtain ⟨h0,hle⟩ := hz
  have hl : toI32 a.lines = a.lines := toI32_of_lt (by dsimp only [maxDamage] at hle; omega)
  refine ⟨rfl,hl,hid,ha,hg,?_⟩
  have hq := @queueGarbage_pending v.state (toI32 a.lines) (by omega)
    (by dsimp only [maxDamage] at hle; omega) hm.pending
  rw [hl,Int.toNat_natCast] at hq
  simp only [landing,PlayerSlot.hit,hl]
  exact hq

theorem lookup_setSlot_drained {session : GameSession} {i : ℕ} {p : PlayerSlot} {victimId j : ℕ} {v : PlayerSlot}
    (h : lookup (session.setSlot i p.drained) victimId = some (j,v)) (hj : j ≠ i) :
    session.players[j]? = some v := by
  have hv := (lookup_some h).1
  change (session.players.set i p.drained)[j]? = some v at hv
  rwa [List.getElem?_set_ne (Ne.symm hj)] at hv

theorem lookup_drained_none {session : GameSession} {i : ℕ} {p : PlayerSlot}
    (hp : session.players[i]? = some p) {victimId : ℕ}
    (h : lookup (session.setSlot i p.drained) victimId = none) :
    ∀ v ∈ session.players, v.active = true → v.playerId ≠ victimId := by
  intro v hv ha
  obtain ⟨j,hj⟩ := List.getElem?_of_mem hv
  by_cases he : j = i
  · subst he
    cases hp.symm.trans hj
    have hd : (session.setSlot j p.drained).players[j]? = some p.drained :=
      List.getElem?_set_self (List.getElem?_eq_some_iff.mp hp).1
    exact lookup_none (v := p.drained) h hd ha
  · refine lookup_none (j := j) h ?_ ha
    exact (List.getElem?_set_ne (Ne.symm he)).trans hj

theorem routeStep_traffic {serial draw i : ℕ} {hub : HubRecv} {w : Worker} {input : Input} (hi : input ≠ .recv)
    (hpc : w.pc = .route i) (hm : w.session.Metered) :
    Worker.Traffic serial hub w input (routeStep serial w i draw) := by
  have hquiet : ∀ w' : Worker, Worker.Traffic serial hub w input ⟨w',[],[]⟩ :=
    fun _ => .quiet (fun _ h => (by cases h)) (fun _ h => (by cases h)) fun h => absurd h hi
  unfold routeStep
  split
  · exact hquiet _
  · rename_i p hp
    have hout := (hm p (List.mem_of_getElem? hp)).outgoing
    unfold routeSlot
    split
    · exact hquiet _
    · rename_i hne
      dsimp only
      have hz : ∀ vic, HubAttack.Sized ⟨p.playerId,vic,p.state.outgoingGarbage,serial⟩ :=
        fun vic => ⟨Nat.pos_of_ne_zero hne,hout⟩
      split
      · rename_i j v hl
        split
        · rename_i hc
          have hv := lookup_some hl
          have hj := lookup_setSlot_drained hl hc.1
          have hvm := hm v (List.mem_of_getElem? hj)
          exact .here i p _ (landing false j v _) hi hpc hp rfl rfl (hz _)
            (landing_fits false j hvm (hz _) hv.2.1 hv.2.2 hc.2) rfl hc.1 ⟨v,hj,rfl⟩ rfl rfl
        · exact .dropped i p _ _ hi hpc hp rfl rfl
      · rename_i hl
        split
        · rename_i hc
          exact .away i p _ hi hpc hp rfl rfl (hz _) hc.2 (lookup_drained_none hp hl) rfl rfl
        · exact .dropped i p _ _ hi hpc hp rfl rfl

theorem lockedObs_cargo {i : ℕ} {p : PlayerSlot} {lock : Option ℤ} {o : RoomObs} (h : o ∈ lockedObs i p lock) :
    o.cargo = none := by
  cases lock with
  | none => cases h
  | some d =>
    rw [List.mem_singleton.mp h]
    rfl

theorem garbage_traffic {serial : ℕ} {w : Worker} (hpc : w.pc = .drainHub) (hm : w.session.Metered)
    (a : HubAttack) :
    Worker.Traffic serial (.msg (.garbage a)) w .recv (hubStep w (.msg (.garbage a))) := by
  simp only [hubStep,applyRemoteGarbage]
  cases hl : lookup w.session a.victimId with
  | none => exact .miss a rfl rfl hpc (by simp [GameSession.live,hl]) rfl
  | some q =>
    obtain ⟨j,v⟩ := q
    obtain ⟨hv,hva,hid⟩ := lookup_some hl
    dsimp only
    cases hg : v.state.gameOver with
    | true => exact .miss a rfl rfl hpc (by simp [GameSession.live,hl,hg]) rfl
    | false =>
      refine .hit a v (landing true j v a) rfl rfl hpc hv hva hid (fun hz => ?_) rfl rfl rfl ?_ rfl
      · exact landing_fits true j (hm v (List.mem_of_getElem? hv)) hz hva hid hg
      · simp [GameSession.live,hl,hg,landAttack,landing]

theorem Worker.Step.traffic {serial : ℕ} {hub : HubRecv} {w : Worker} {input : Input} {e : Effect}
    (h : Worker.Step serial hub w input e) (hm : w.session.Metered) : Worker.Traffic serial hub w input e := by
  have hno : ∀ m ∈ ([] : List HubMsg), m.cargo = none := fun _ h => (by cases h)
  have hno' : ∀ o ∈ ([] : List RoomObs), o.cargo = none := fun _ h => (by cases h)
  cases h with
  | boot bound hpc =>
    unfold bootStep
    split
    · exact .quiet hno' (by simp [HubMsg.cargo]) (by simp)
    · exact .quiet hno' hno (by simp)
  | poll hpc he =>
    unfold pollStep at he
    split at he
    · cases he
      refine .quiet hno' ?_ (by simp)
      intro m hm'
      obtain ⟨id,-,rfl⟩ := List.mem_map.mp hm'
      rfl
    · cases he
  | lobbyRecv hpc =>
    unfold Tetrisd.lobbyRecv
    split
    case h_3 a => exact .lobby a rfl rfl hpc rfl rfl
    case h_4 => exact .quiet (by simp [RoomObs.cargo]) hno (by simp)
    case h_5 m h1 h2 h3 h4 => exact .quiet hno' hno (by simpa using h3)
    all_goals exact .quiet hno' hno (by simp)
  | check graceOver rand hpc =>
    unfold checkStep
    split
    · split
      · exact .quiet hno' hno (by simp)
      · exact .quiet (by simp [RoomObs.cargo]) hno (by simp)
    · exact .quiet hno' hno (by simp)
  | client n m rand hpc he =>
    unfold clientStep at he
    split at he
    · cases m with
      | ignored =>
        cases he
        exact .quiet hno' hno (by simp)
      | action senderId action =>
        cases he
        refine .quiet (fun o ho => ?_) hno (by simp)
        dsimp only at ho
        split at ho
        · exact lockedObs_cargo ho
        · cases ho
    · cases he
  | clientsDone n hpc => exact .quiet hno' hno (by simp)
  | hubRecv hpc =>
    cases hub with
    | msg m =>
      cases m with
      | garbage a => exact garbage_traffic hpc hm a
      | feed a => exact .feed a rfl rfl hpc rfl rfl
      | gameOver x => exact .quiet (by simp [hubStep,RoomObs.cargo]) hno (by simp)
      | _ => exact .quiet hno' hno (by simp)
    | empty => exact .quiet hno' hno (by simp)
    | closed => exact .quiet hno' hno (by simp)
  | tick rand hpc =>
    refine .quiet (fun o ho => ?_) hno (by simp)
    rcases List.mem_cons.mp ho with rfl | ho
    · rfl
    · obtain ⟨q,-,ho⟩ := List.mem_flatMap.mp ho
      exact lockedObs_cargo ho
  | report i hpc =>
    unfold reportStep
    split
    · exact .quiet hno' hno (by simp)
    · dsimp only
      split
      · exact .quiet (by simp [RoomObs.cargo]) (by simp [HubMsg.cargo]) (by simp)
      · exact .quiet hno' hno (by simp)
  | route i draw hpc => exact routeStep_traffic (by simp) hpc hm
  | push hpc => exact .quiet hno' hno (by simp)
  | conclude hpc => exact .quiet hno' hno (by simp)

end CoreStack.Tetrisd
