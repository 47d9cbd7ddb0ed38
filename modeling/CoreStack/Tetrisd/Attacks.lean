import CoreStack.Tetrisd.Locality
import CoreStack.Tetrisd.Trace

/-! # The way of an attack through the daemon

Every read of a nonzero meter gets its own serial. An attack exists once: in the
hub of the attacker's room, in the hub of the victim's room, or as one arrival.
The counts below say so for every serial.
-/
namespace CoreStack.Tetrisd
open Star Tetris

/-! ## Counting observations -/

/-- Observations of a kind in all rooms. -/
def countAll (p : RoomObs → Bool) (log : List Obs) : ℕ :=
  log.countP fun
    | .room _ o => p o
    | .master _ => false

@[simp] theorem countAll_nil (p : RoomObs → Bool) : countAll p [] = 0 := rfl

@[simp] theorem countAll_append (p : RoomObs → Bool) (log log' : List Obs) :
    countAll p (log ++ log') = countAll p log + countAll p log' := List.countP_append

@[simp] theorem countAll_master (p : RoomObs → Bool) (outs : List MasterOut) :
    countAll p (outs.map .master) = 0 := by
  simp [countAll,List.countP_map,Function.comp_def]

@[simp] theorem countAll_room (p : RoomObs → Bool) (w : ℕ) (obs : List RoomObs) :
    countAll p (obs.map (.room w)) = obs.countP p := by
  simp [countAll,List.countP_map,Function.comp_def]

theorem countAll_pos {p : RoomObs → Bool} {log : List Obs} {w : ℕ} {o : RoomObs} (h : Obs.room w o ∈ log)
    (hp : p o = true) : 0 < countAll p log :=
  List.countP_pos_iff.mpr ⟨_,h,hp⟩

theorem exists_of_countAll_pos {p : RoomObs → Bool} {log : List Obs} (h : 0 < countAll p log) :
    ∃ w o, Obs.room w o ∈ log ∧ p o = true := by
  obtain ⟨x,hx,hp⟩ := List.countP_pos_iff.mp h
  cases x with
  | master x => cases hp
  | room w o => exact ⟨w,o,hx,hp⟩

theorem countP_roomLog_le (p : RoomObs → Bool) (w : ℕ) (log : List Obs) :
    (roomLog w log).countP p ≤ countAll p log := by
  induction log with
  | nil => exact le_rfl
  | cons o log ih =>
    rw [← List.singleton_append,roomLog_append,countAll_append,List.countP_append]
    have ho : (roomLog w [o]).countP p ≤ countAll p [o] := by
      cases o with
      | master o => exact Nat.zero_le _
      | room w' o =>
        have h := roomLog_room w w' [o]
        have h' := countAll_room p w' [o]
        simp only [List.map_cons,List.map_nil] at h h'
        rw [h,h']
        split
        · exact le_rfl
        · exact Nat.zero_le _
    omega

/-- Two observations of a kind that was seen at most once are the same one. -/
theorem eq_of_countAll_le_one {p : RoomObs → Bool} {log : List Obs} (h : countAll p log ≤ 1) {w w' : ℕ}
    {o o' : RoomObs} (ho : Obs.room w o ∈ log) (ho' : Obs.room w' o' ∈ log) (hp : p o = true) (hp' : p o' = true) :
    w = w' ∧ o = o' := by
  induction log with
  | nil => cases ho
  | cons x log ih =>
    have hx : countAll p (x :: log) = countAll p [x] + countAll p log := by
      rw [← List.singleton_append,countAll_append]
    have hhead : ∀ v q, x = Obs.room v q → p q = true → countAll p [x] = 1 := by
      intro v q hx hq
      subst hx
      simpa [hq] using countAll_room p v [q]
    rcases List.mem_cons.mp ho with he | ho <;> rcases List.mem_cons.mp ho' with he' | ho'
    · cases he.trans he'.symm
      exact ⟨rfl,rfl⟩
    · have := hhead w o he.symm hp
      have := countAll_pos ho' hp'
      omega
    · have := hhead w' o' he'.symm hp'
      have := countAll_pos ho hp
      omega
    · exact ih (by omega) ho ho'

/-! ## Observations and messages of one serial -/

/-- The observation is of this kind and about attack `k`. -/
def RoomObs.bears (k : ℕ) (p : Cargo → Bool) (o : RoomObs) : Bool :=
  o.cargo.any fun q => q.1 == k && p q.2

def HubMsg.bears (k : ℕ) (f : Freight) (m : HubMsg) : Bool :=
  m.cargo.any fun q => q.1 == k && q.2 == f

def Cargo.isRead : Cargo → Bool
  | .read _ => true
  | _ => false

/-- A read whose attack was sent to somebody. -/
def Cargo.isSent : Cargo → Bool
  | .read fate => fate != .dropped
  | _ => false

def Cargo.isArrival : Cargo → Bool
  | .arrival _ _ => true
  | _ => false

section bears
variable (k : ℕ) (p : Cargo → Bool) (f : Freight)

@[simp] theorem bears_consumed (k' i att vic lines : ℕ) (fate : Fate) :
    (RoomObs.consumed k' i att vic lines fate).bears k p = (k' == k && p (.read fate)) := rfl

@[simp] theorem bears_queued (c : QueueCall) :
    (RoomObs.queued c).bears k p = (c.serial == k && p (.call c.remote)) := rfl

@[simp] theorem bears_feed (k' : ℕ) : (RoomObs.feed k').bears k p = (k' == k && p .shown) := rfl

@[simp] theorem bears_gotGarbage (a : HubAttack) (playing live : Bool) :
    (RoomObs.gotGarbage a playing live).bears k p = (a.serial == k && p (.arrival playing live)) := rfl

@[simp] theorem bears_gotFeed (k' : ℕ) : (RoomObs.gotFeed k').bears k p = (k' == k && p .relayed) := rfl

@[simp] theorem msg_bears_attack (a : HubAttack) :
    (HubMsg.attack a).bears k f = (a.serial == k && Freight.attack == f) := rfl

@[simp] theorem msg_bears_garbage (a : HubAttack) :
    (HubMsg.garbage a).bears k f = (a.serial == k && Freight.garbage == f) := rfl

@[simp] theorem msg_bears_feed (a : HubAttack) :
    (HubMsg.feed a).bears k f = (a.serial == k && Freight.feed == f) := rfl

end bears

theorem countP_bears_quiet {obs : List RoomObs} (h : ∀ o ∈ obs, o.cargo = none) (k : ℕ) (p : Cargo → Bool) :
    obs.countP (·.bears k p) = 0 := by
  refine List.countP_eq_zero.mpr ?_
  intro o ho hb
  simp [RoomObs.bears,h o ho] at hb

theorem countP_msg_bears_quiet {ms : List HubMsg} (h : ∀ m ∈ ms, m.cargo = none) (k : ℕ) (f : Freight) :
    ms.countP (·.bears k f) = 0 := by
  refine List.countP_eq_zero.mpr ?_
  intro m hm hb
  simp [HubMsg.bears,h m hm] at hb

/-- The tallies of one step over serial `k`: reads, hits, arrivals and feed entries. -/
structure StepTally (k serial : ℕ) (obs : List RoomObs) (sent : List HubMsg) : Prop where
  read : obs.countP (·.bears k Cargo.isRead) ≤ 1
  fresh : k ≠ serial → obs.countP (·.bears k Cargo.isRead) = 0
  sent_read : obs.countP (·.bears k Cargo.isSent) ≤ obs.countP (·.bears k Cargo.isRead)
  remote : obs.countP (·.bears k (· == .call true)) = obs.countP (·.bears k (· == .arrival true true))
  shown : obs.countP (·.bears k (· == .shown)) = obs.countP (·.bears k Cargo.isSent) +
    obs.countP (·.bears k (· == .call true)) + obs.countP (·.bears k (· == .relayed))
  away : sent.countP (·.bears k .attack) + obs.countP (·.bears k (· == .call false)) ≤
    obs.countP (·.bears k Cargo.isSent)
  feed : sent.countP (·.bears k .feed) ≤ obs.countP (·.bears k Cargo.isSent)

theorem Worker.Traffic.tally {serial : ℕ} {hub : HubRecv} {w : Worker} {input : Input} {e : Effect}
    (h : Worker.Traffic serial hub w input e) (k : ℕ) : StepTally k serial e.obs e.sent := by
  cases h with
  | quiet ho hs hg =>
    have h0 := countP_bears_quiet ho k
    have h1 := countP_msg_bears_quiet hs k
    constructor <;> simp [h0,h1]
  | here i p a c hi hpc hp ha hk hz hc hr hne hv ho hs =>
    have hcs : c.serial = serial := hc.serial.trans hk
    rw [ho,hs]
    by_cases he : serial = k
    · constructor <;> simp [Cargo.isRead,Cargo.isSent,hr,hcs,hk,he]
    · constructor <;> simp [hcs,hk,he]
  | away i p a hi hpc hp ha hk hz hne habs ho hs =>
    rw [ho,hs]
    by_cases he : serial = k
    · constructor <;> simp [Cargo.isRead,Cargo.isSent,hk,he]
    · constructor <;> simp [hk,he]
  | dropped i p victimId lines hi hpc hp ho hs =>
    rw [ho,hs]
    by_cases he : serial = k
    · constructor <;> simp [Cargo.isRead,Cargo.isSent,he]
    · constructor <;> simp [he]
  | lobby a hi hh hpc ho hs =>
    rw [ho,hs]
    constructor <;> simp [Cargo.isRead,Cargo.isSent]
  | hit a v c hi hh hpc hv hva hid hc hk hr hcv ho hs =>
    rw [ho,hs]
    by_cases he : a.serial = k
    · constructor <;> simp [Cargo.isRead,Cargo.isSent,hr,hk,he]
    · constructor <;> simp [hk,he]
  | miss a hi hh hpc ho hs =>
    rw [ho,hs]
    constructor <;> simp [Cargo.isRead,Cargo.isSent]
  | feed a hi hh hpc ho hs =>
    rw [ho,hs]
    by_cases he : a.serial = k
    · constructor <;> simp [Cargo.isRead,Cargo.isSent,he]
    · constructor <;> simp [he]

/-! ## What one room remembers -/

def RoomObs.inMatch : RoomObs → Bool
  | .added _ | .gotGarbage .. | .gotGameOver => false
  | _ => true

/-- The slots of a running match bear out the room's own log. -/
structure Worker.Record (wk : Worker) (obs : List RoomObs) : Prop where
  stage : wk.pc.inMatch = false → ∀ o ∈ obs, o.inMatch = false
  metered : wk.session.Metered
  attackers : ∀ k i att vic lines fate, RoomObs.consumed k i att vic lines fate ∈ obs →
    ∃ p : PlayerSlot, wk.session.players[i]? = some p ∧ p.playerId = att
  absent : ∀ k i att vic lines, RoomObs.consumed k i att vic lines .away ∈ obs →
    ∀ v ∈ wk.session.players, v.active = true → v.playerId ≠ vic
  victims : ∀ c, RoomObs.queued c ∈ obs →
    ∃ v : PlayerSlot, wk.session.players[c.slot]? = some v ∧ v.playerId = c.playerId
  landed : ∀ c, RoomObs.queued c ∈ obs →
    (c.remote = false ∧ ∃ (a : HubAttack) (i : ℕ), c.Fits a ∧ c.slot ≠ i ∧
      RoomObs.consumed a.serial i a.attackerId a.victimId a.lines .here ∈ obs) ∨
    (c.remote = true ∧ ∃ a : HubAttack, c.serial = a.serial ∧ (a.Sized → c.Fits a) ∧
      RoomObs.gotGarbage a true true ∈ obs)

theorem Worker.init_record (idBase : ℕ) : (Worker.init idBase).Record [] := by
  refine ⟨fun _ _ h => ?_,fun _ h => ?_,fun _ _ _ _ _ _ h => ?_,fun _ _ _ _ _ h => ?_,fun _ h => ?_,
    fun _ h => ?_⟩ <;> cases h

theorem GameSession.Evolves.slot {s t : GameSession} (h : s.Evolves t) {i : ℕ} {p : PlayerSlot}
    (hp : s.players[i]? = some p) : ∃ q, t.players[i]? = some q ∧ p.Evolves q := by
  have hi : i < t.players.length := h.1 ▸ (List.getElem?_eq_some_iff.mp hp).1
  have hq := List.getElem?_eq_getElem hi
  exact ⟨_,hq,h.2 i p _ hp hq⟩

theorem GameSession.Evolves.mem {s t : GameSession} (h : s.Evolves t) {q : PlayerSlot} (hq : q ∈ t.players) :
    ∃ p ∈ s.players, p.Evolves q := by
  obtain ⟨i,hi⟩ := List.getElem?_of_mem hq
  obtain ⟨p,hp,he⟩ := Slotwise.get h hi
  exact ⟨p,List.mem_of_getElem? hp,he⟩

/-- The old part of the log stays true while slots evolve, and there is none before the match. -/
theorem Worker.Record.step {serial : ℕ} {hub : HubRecv} {wk : Worker} {input : Input} {e : Effect}
    {obs : List RoomObs} (h : wk.Record obs) (hs : Worker.Step serial hub wk input e) : e.worker.Record obs := by
  cases hpc : wk.pc.inMatch with
  | false =>
    have hnone := h.stage hpc
    have hno : ∀ o : RoomObs, o.inMatch = true → o ∉ obs := by
      intro o ho hm
      cases ho.symm.trans (hnone o hm)
    exact ⟨fun _ => hnone,hs.metered h.metered,fun _ _ _ _ _ _ hm => absurd hm (hno _ rfl),
      fun _ _ _ _ _ hm => absurd hm (hno _ rfl),fun _ hm => absurd hm (hno _ rfl),
      fun _ hm => absurd hm (hno _ rfl)⟩
  | true =>
    have hev := hs.evolves hpc
    have hkeep : ∀ i id : ℕ, (∃ p : PlayerSlot, wk.session.players[i]? = some p ∧ p.playerId = id) →
        ∃ p : PlayerSlot, e.worker.session.players[i]? = some p ∧ p.playerId = id := by
      rintro i id ⟨p,hp,rfl⟩
      obtain ⟨q,hq,he⟩ := hev.slot hp
      exact ⟨q,hq,he.playerId⟩
    refine ⟨fun hn => ?_,hs.metered h.metered,fun k i att vic lines fate hm => ?_,fun k i att vic lines hm => ?_,
      fun c hm => ?_,h.landed⟩
    · cases hn.symm.trans (hs.inMatch hpc)
    · exact hkeep i att (h.attackers k i att vic lines fate hm)
    · intro v hv hva
      obtain ⟨p,hp,he⟩ := hev.mem hv
      rw [he.playerId]
      exact h.absent k i att vic lines hm p hp (he.active hva)
    · exact hkeep c.slot c.playerId (h.victims c hm)

theorem Worker.Step.stage {serial : ℕ} {hub : HubRecv} {wk : Worker} {input : Input} {e : Effect}
    (hs : Worker.Step serial hub wk input e) {o : RoomObs} (ho : o ∈ e.obs) (hm : o.inMatch = true) :
    e.worker.pc.inMatch = true := by
  have hsrc := hs.source ho
  have hkeep := hs.inMatch
  cases o with
  | added id => cases hm
  | gotGarbage a playing live => cases hm
  | gotGameOver => cases hm
  | started => exact hsrc.2
  | ticked =>
    have hpc : wk.pc = .tick := hsrc
    exact hkeep (by rw [hpc]; rfl)
  | locked i d b => exact hkeep hsrc
  | elimSent playerId =>
    obtain ⟨⟨i,hpc⟩,-⟩ := hsrc
    exact hkeep (by rw [hpc]; rfl)
  | consumed k i att vic lines fate =>
    obtain ⟨-,j,hpc⟩ := hsrc
    exact hkeep (by rw [hpc]; rfl)
  | queued c =>
    obtain ⟨i,hpc,-⟩ | ⟨hpc,-⟩ := hsrc <;> exact hkeep (by rw [hpc]; rfl)
  | feed k =>
    obtain ⟨i,hpc,-⟩ | ⟨hpc,-⟩ := hsrc <;> exact hkeep (by rw [hpc]; rfl)
  | gotFeed k => exact hkeep (by rw [hsrc.1]; rfl)

/-- What the new observations of a step say about the slots it started from. -/
structure NewRecord (wk : Worker) (obs : List RoomObs) : Prop where
  attackers : ∀ k i att vic lines fate, RoomObs.consumed k i att vic lines fate ∈ obs →
    ∃ p : PlayerSlot, wk.session.players[i]? = some p ∧ p.playerId = att
  absent : ∀ k i att vic lines, RoomObs.consumed k i att vic lines .away ∈ obs →
    ∀ v ∈ wk.session.players, v.active = true → v.playerId ≠ vic
  victims : ∀ c, RoomObs.queued c ∈ obs →
    ∃ v : PlayerSlot, wk.session.players[c.slot]? = some v ∧ v.playerId = c.playerId
  landed : ∀ c, RoomObs.queued c ∈ obs →
    (c.remote = false ∧ ∃ (a : HubAttack) (i : ℕ), c.Fits a ∧ c.slot ≠ i ∧
      RoomObs.consumed a.serial i a.attackerId a.victimId a.lines .here ∈ obs) ∨
    (c.remote = true ∧ ∃ a : HubAttack, c.serial = a.serial ∧ (a.Sized → c.Fits a) ∧
      RoomObs.gotGarbage a true true ∈ obs)

theorem Worker.Traffic.newRecord {serial : ℕ} {hub : HubRecv} {wk : Worker} {input : Input} {e : Effect}
    (h : Worker.Traffic serial hub wk input e) : NewRecord wk e.obs := by
  cases h with
  | quiet ho hs hg =>
    refine ⟨fun _ _ _ _ _ _ hm => ?_,fun _ _ _ _ _ hm => ?_,fun _ hm => ?_,fun _ hm => ?_⟩ <;>
      cases ho _ hm
  | here i p a c hi hpc hp ha hk hz hc hr hne hv ho hs =>
    rw [ho]
    refine ⟨?_,?_,?_,?_⟩ <;> simp only [List.mem_cons,List.not_mem_nil,or_false,reduceCtorEq,false_or]
    · intro k j att vic lines fate hm
      simp only [RoomObs.consumed.injEq] at hm
      obtain ⟨rfl,rfl,rfl,-⟩ := hm
      exact ⟨p,hp,ha.symm⟩
    · intro k j att vic lines hm
      simp at hm
    · intro c' hm
      cases hm
      exact hv
    · intro c' hm
      cases hm
      exact .inl ⟨hr,a,i,hc,hne,by rw [hk]⟩
  | away i p a hi hpc hp ha hk hz hne habs ho hs =>
    rw [ho]
    refine ⟨?_,?_,?_,?_⟩ <;> simp only [List.mem_cons,List.not_mem_nil,or_false,reduceCtorEq]
    · intro k j att vic lines fate hm
      simp only [RoomObs.consumed.injEq] at hm
      obtain ⟨rfl,rfl,rfl,-⟩ := hm
      exact ⟨p,hp,ha.symm⟩
    · intro k j att vic lines hm
      simp only [RoomObs.consumed.injEq] at hm
      obtain ⟨-,-,-,rfl,-⟩ := hm
      exact habs
    · exact fun _ hm => hm.elim
    · exact fun _ hm => hm.elim
  | dropped i p victimId lines hi hpc hp ho hs =>
    rw [ho]
    refine ⟨?_,?_,?_,?_⟩ <;> simp only [List.mem_cons,List.not_mem_nil,or_false,reduceCtorEq]
    · intro k j att vic lines' fate hm
      simp only [RoomObs.consumed.injEq] at hm
      obtain ⟨rfl,rfl,rfl,-⟩ := hm
      exact ⟨p,hp,rfl⟩
    · intro k j att vic lines' hm
      simp at hm
    · exact fun _ hm => hm.elim
    · exact fun _ hm => hm.elim
  | hit a v c hi hh hpc hv hva hid hc hk hr hcv ho hs =>
    rw [ho]
    refine ⟨?_,?_,?_,?_⟩ <;> simp only [List.mem_cons,List.not_mem_nil,or_false,reduceCtorEq,false_or]
    · exact fun _ _ _ _ _ _ hm => hm.elim
    · exact fun _ _ _ _ _ hm => hm.elim
    · intro c' hm
      cases hm
      exact ⟨v,hv,hcv.symm⟩
    · intro c' hm
      cases hm
      exact .inr ⟨hr,a,hk,hc,rfl⟩
  | lobby a hi hh hpc ho hs => rw [ho]; constructor <;> simp
  | miss a hi hh hpc ho hs => rw [ho]; constructor <;> simp
  | feed a hi hh hpc ho hs => rw [ho]; constructor <;> simp

theorem Worker.Record.work {serial : ℕ} {hub : HubRecv} {wk : Worker} {input : Input} {e : Effect}
    {obs : List RoomObs} (h : wk.Record obs) (hs : Worker.Step serial hub wk input e) :
    e.worker.Record (obs ++ e.obs) := by
  have hold := h.step hs
  have hnew := (hs.traffic h.metered).newRecord
  have hin : ∀ o ∈ e.obs, o.cargo ≠ none → wk.pc.inMatch = true ∨ o.inMatch = false := by
    intro o ho hc
    have hsrc := hs.source ho
    cases o with
    | consumed k i att vic lines fate =>
      obtain ⟨-,j,hpc⟩ := hsrc
      exact .inl (by rw [hpc]; rfl)
    | queued c => obtain ⟨i,hpc,-⟩ | ⟨hpc,-⟩ := hsrc <;> exact .inl (by rw [hpc]; rfl)
    | feed k => obtain ⟨i,hpc,-⟩ | ⟨hpc,-⟩ := hsrc <;> exact .inl (by rw [hpc]; rfl)
    | gotFeed k => exact .inl (by rw [hsrc.1]; rfl)
    | gotGarbage a playing live => exact .inr rfl
    | _ => exact absurd rfl hc
  have hkeep : ∀ o ∈ e.obs, o.cargo ≠ none → o.inMatch = true → ∀ i id : ℕ,
      (∃ p : PlayerSlot, wk.session.players[i]? = some p ∧ p.playerId = id) →
      ∃ p : PlayerSlot, e.worker.session.players[i]? = some p ∧ p.playerId = id := by
    rintro o ho hc hm i id ⟨p,hp,rfl⟩
    have hpc := (hin o ho hc).resolve_right (by rw [hm]; exact Bool.noConfusion)
    obtain ⟨q,hq,he⟩ := (hs.evolves hpc).slot hp
    exact ⟨q,hq,he.playerId⟩
  refine ⟨fun hn o hm => ?_,hold.metered,fun k i att vic lines fate hm => ?_,fun k i att vic lines hm => ?_,
    fun c hm => ?_,fun c hm => ?_⟩ <;> rcases List.mem_append.mp hm with hm | hm
  · exact hold.stage hn o hm
  · cases ho : o.inMatch with
    | false => rfl
    | true => cases hn.symm.trans (hs.stage hm ho)
  · exact hold.attackers k i att vic lines fate hm
  · exact hkeep _ hm (by simp [RoomObs.cargo]) rfl i att (hnew.attackers k i att vic lines fate hm)
  · exact hold.absent k i att vic lines hm
  · intro v hv hva
    have hpc := (hin _ hm (by simp [RoomObs.cargo])).resolve_right (by simp [RoomObs.inMatch])
    obtain ⟨p,hp,he⟩ := (hs.evolves hpc).mem hv
    rw [he.playerId]
    exact hnew.absent k i att vic lines hm p hp (he.active hva)
  · exact hold.victims c hm
  · exact hkeep _ hm (by simp [RoomObs.cargo]) rfl c.slot c.playerId (hnew.victims c hm)
  · rcases h.landed c hm with ⟨hr,a,i,hf,hne,hc⟩ | ⟨hr,a,hk,hf,hg⟩
    · exact .inl ⟨hr,a,i,hf,hne,List.mem_append_left _ hc⟩
    · exact .inr ⟨hr,a,hk,hf,List.mem_append_left _ hg⟩
  · rcases hnew.landed c hm with ⟨hr,a,i,hf,hne,hc⟩ | ⟨hr,a,hk,hf,hg⟩
    · exact .inl ⟨hr,a,i,hf,hne,List.mem_append_right _ hc⟩
    · exact .inr ⟨hr,a,hk,hf,List.mem_append_right _ hg⟩

def System.Recorded (s : System) : Prop :=
  ∀ w, w < s.master.roomSeq → (s.workers w).Record (roomLog w s.log)

theorem Server.finish_obs {srv : Server} {ok : Bool} {r : Server × List RoomObs} (h : srv.finish ok = some r) :
    ∀ o ∈ r.2, ∃ id, o = .added id := by
  unfold Server.finish at h
  obtain ⟨id,-,h⟩ := Option.map_eq_some_iff.mp h
  cases ok <;> simp at h <;> subst h <;> simp

theorem Worker.Record.congr {wk wk' : Worker} {obs : List RoomObs} (h : wk.Record obs)
    (hpc : wk'.pc.inMatch = false → wk.pc.inMatch = false) (hs : wk'.session = wk.session) : wk'.Record obs := by
  refine ⟨fun hn => h.stage (hpc hn),?_,?_,?_,?_,h.landed⟩ <;> rw [hs]
  exacts [h.metered,h.attackers,h.absent,h.victims]

theorem Worker.Record.append_added {wk : Worker} {obs obs' : List RoomObs} (h : wk.Record obs)
    (hn : ∀ o ∈ obs', ∃ id, o = .added id) : wk.Record (obs ++ obs') := by
  have hold : ∀ o ∈ obs ++ obs', (∀ id, o ≠ .added id) → o ∈ obs := by
    intro o ho hne
    rcases List.mem_append.mp ho with ho | ho
    · exact ho
    · obtain ⟨id,he⟩ := hn o ho
      exact absurd he (hne id)
  refine ⟨fun hpc o ho => ?_,h.metered,fun k i att vic lines fate hm => ?_,fun k i att vic lines hm => ?_,
    fun c hm => ?_,fun c hm => ?_⟩
  · rcases List.mem_append.mp ho with ho | ho
    · exact h.stage hpc o ho
    · obtain ⟨id,rfl⟩ := hn o ho
      rfl
  · exact h.attackers k i att vic lines fate (hold _ hm (by simp))
  · exact h.absent k i att vic lines (hold _ hm (by simp))
  · exact h.victims c (hold _ hm (by simp))
  · rcases h.landed c (hold _ hm (by simp)) with ⟨hr,a,i,hf,hne,hc⟩ | ⟨hr,a,hk,hf,hg⟩
    · exact .inl ⟨hr,a,i,hf,hne,List.mem_append_left _ hc⟩
    · exact .inr ⟨hr,a,hk,hf,List.mem_append_left _ hg⟩

theorem System.step_recorded {s t : System} {l : Label} (hs : s.Sound) (h : s.Recorded)
    (ht : s.step l = some t) : t.Recorded := by
  refine System.local_step ht hs (fun _ wk obs => wk.Record obs) (fun w => Worker.init_record _) ?_ h
  intro w wk obs hw hi hm
  cases hm with
  | connect ha =>
    rw [List.append_nil]
    exact hi.congr id rfl
  | handshake hf => exact (hi.append_added (Server.finish_obs hf)).congr id rfl
  | worker hr hst => exact hi.work hst
  | crash =>
    rw [List.append_nil]
    exact hi.congr (fun hn => (by cases hn)) rfl

/-! ## What the master does with attacks -/

/-- No output carries an attack. -/
def Light (outs : List MasterOut) : Prop := ∀ fd msg, MasterOut.send fd msg ∈ outs → msg.cargo = none

theorem Light.append {outs outs' : List MasterOut} (h : Light outs) (h' : Light outs') : Light (outs ++ outs') := by
  intro fd msg hm
  exact (List.mem_append.mp hm).elim (h fd msg) (h' fd msg)

theorem Clerical.light {outs : List MasterOut} (h : Clerical outs) : Light outs :=
  fun fd msg hm => (by cases h _ hm)

theorem light_starting {outs : List MasterOut} (h : ∀ o ∈ outs, o.starting = true) : Light outs := by
  intro fd msg hm
  have hs := h _ hm
  cases msg <;> first | rfl | cases hs

theorem sendTo_light (m : Master) (p : Fin maxRooms → Bool) {msg : HubMsg} (h : msg.cargo = none) :
    Light (m.sendTo p msg) := by
  intro fd msg' hm
  obtain ⟨i,-,he⟩ := Master.mem_sendTo.mp hm
  cases he
  exact h

theorem broadcastRoster_light (m : Master) : Light (broadcastRoster m) := sendTo_light m _ rfl

theorem checkGlobalEnd_light (m : Master) : Light (checkGlobalEnd m).2 := by
  unfold checkGlobalEnd
  split
  · exact Clerical.nil.light
  · split
    · refine (sendTo_light m _ rfl).append ?_
      intro fd msg hm
      cases List.mem_singleton.mp hm
    · exact Clerical.nil.light

theorem closeRoom_light (m : Master) (slot : Fin maxRooms) : Light (closeRoom m slot).2 := by
  have hc := (clerical_closeOuts (m.rooms slot).hubFd (m.rooms slot).pendingFds).light
  unfold closeRoom
  dsimp only
  split
  · exact hc
  · split
    · exact (hc.append (broadcastRoster_light _)).append (checkGlobalEnd_light _)
    · exact hc

/-- Only an attack is forwarded, to one room in use, and only a feed entry is spread. -/
inductive Master.Freighting (m : Master) (slot : Fin maxRooms) (msg : HubMsg) (outs : List MasterOut) : Prop
  | attack (a : HubAttack) (hm : msg = .attack a) (ho : outs = [] ∨ ∃ fd, outs = [.send fd (.garbage a)])
  | feed (a : HubAttack) (hm : msg = .feed a)
      (ho : outs = m.sendTo (fun i => decide (i ≠ slot) && (m.rooms i).running) (.feed a))
  | light (hn : ∀ a, msg ≠ .attack a ∧ msg ≠ .feed a) (ho : Light outs)

theorem handleHubMsg_freighting (m : Master) (slot : Fin maxRooms) (msg : HubMsg) :
    m.Freighting slot msg (handleHubMsg m slot msg).2 := by
  have hnil : Light [] := Clerical.nil.light
  cases msg with
  | ready => exact .light (by simp) (ready_clerical m slot).light
  | joined playerId =>
    refine .light (by simp) ?_
    simp only [handleHubMsg]
    split
    · exact (broadcastRoster_light _).append (light_starting fun _ => startAllRooms_outs)
    · exact broadcastRoster_light _
  | eliminated playerId =>
    exact .light (by simp) ((broadcastRoster_light _).append (checkGlobalEnd_light _))
  | attack a =>
    refine .attack a rfl ?_
    dsimp only [handleHubMsg,routeAttack]
    split
    · split
      · exact .inr ⟨_,rfl⟩
      · exact .inl rfl
    · exact .inl rfl
  | feed a => exact .feed a rfl rfl
  | start n => exact .light (by simp) hnil
  | garbage a => exact .light (by simp) hnil
  | roster r => exact .light (by simp) hnil
  | gameOver w => exact .light (by simp) hnil

theorem Master.Step.light {m : Master} {ev : MasterEvent} {q : MasterReply} (h : Master.Step m ev q)
    (hev : ∀ slot msg, ev ≠ .recv slot msg) : Light q.2 := by
  cases h with
  | accept client forkOk => exact (acceptClient_clerical m client forkOk).2.2.light
  | enter => exact light_starting fun _ => startAllRooms_outs
  | recv slot msg hu => exact absurd rfl (hev slot msg)
  | close slot hu => exact closeRoom_light m slot
  | endPass stopRequested => exact Clerical.nil.light

theorem countP_sends_light {outs : List MasterOut} (h : Light outs) (k : ℕ) (f : Freight) :
    (sends outs).countP (fun o => o.2.bears k f) = 0 := by
  refine List.countP_eq_zero.mpr ?_
  rintro ⟨fd,msg⟩ ho hb
  have hc := h fd msg (mem_sends.mp ho)
  simp [HubMsg.bears,hc] at hb

end CoreStack.Tetrisd
