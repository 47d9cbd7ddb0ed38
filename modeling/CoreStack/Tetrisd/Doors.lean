import CoreStack.Tetrisd.Wiring
import CoreStack.Lib.Execution
import Mathlib.Algebra.BigOperators.Group.Finset.Basic
import Mathlib.Algebra.BigOperators.Fin

/-! # Where the accepted sockets are (`main.c`)

A socket is parked in a room until its worker is ready. Sockets are numbered in the
order of `accept`.
-/
namespace CoreStack.Tetrisd

/-- How often the socket stands in the waiting list of a room in use. -/
def Room.parked (r : Room) (client : ℕ) : ℕ := if r.used then r.pendingFds.count client else 0

@[irreducible] def Master.parked (m : Master) (client : ℕ) : ℕ := ∑ i, (m.rooms i).parked client

/-- A redirected socket is closed as soon as the port is sent. -/
def MasterOut.closes (client : ℕ) : MasterOut → Bool
  | .redirect c _ => c == client
  | .closeClient c => c == client
  | _ => false

def closings (outs : List MasterOut) (client : ℕ) : ℕ := outs.countP (MasterOut.closes client)

/-- The counters of a room in use. -/
structure Room.Dealt (roomSize : ℕ) (r : Room) : Prop where
  parked : r.pendingFds.length ≤ r.redirected
  room : r.redirected ≤ roomSize
  flushed : r.ready = true → r.pendingFds.length = 0

def Master.Dealt (m : Master) : Prop := ∀ i, (m.rooms i).used = true → (m.rooms i).Dealt m.roomSize

/-- What one step does to the sockets, of which the ones in `arrived` are new. -/
structure Master.Deals (m : Master) (r : MasterReply) (arrived : List ℕ) : Prop where
  roomSize : r.1.roomSize = m.roomSize
  dealt : m.Dealt → r.1.Dealt
  conserved : ∀ client, r.1.parked client + closings r.2 client = m.parked client + arrived.count client

theorem closings_append (outs outs' : List MasterOut) (client : ℕ) :
    closings (outs ++ outs') client = closings outs client + closings outs' client := List.countP_append

theorem Master.Deals.trans {m m' m'' : Master} {outs outs' : List MasterOut} {arrived arrived' : List ℕ}
    (h : m.Deals (m',outs) arrived) (h' : m'.Deals (m'',outs') arrived') :
    m.Deals (m'',outs ++ outs') (arrived ++ arrived') := by
  constructor
  · exact h'.roomSize.trans h.roomSize
  · exact fun hm => h'.dealt (h.dealt hm)
  · intro client
    have hfirst := h.conserved client
    have hsecond := h'.conserved client
    dsimp only at hfirst hsecond ⊢
    rw [closings_append,List.count_append]
    omega

theorem Master.Deals.refl (m : Master) : m.Deals (m,[]) [] := ⟨rfl,id,fun _ => rfl⟩

def Quiet (outs : List MasterOut) : Prop := ∀ o ∈ outs, ∀ client, o.closes client = false

theorem Quiet.closings {outs : List MasterOut} (h : Quiet outs) (client : ℕ) : closings outs client = 0 := by
  rw [Tetrisd.closings,List.countP_eq_zero]
  intro o ho
  rw [h o ho client]
  exact Bool.false_ne_true

theorem Quiet.append {outs outs' : List MasterOut} (h : Quiet outs) (h' : Quiet outs') : Quiet (outs ++ outs') :=
  fun o ho => (List.mem_append.mp ho).elim (h o) (h' o)

theorem quiet_nil : Quiet [] := fun _ h => absurd h List.not_mem_nil

theorem sendTo_quiet (m : Master) (p : Fin maxRooms → Bool) (msg : HubMsg) : Quiet (m.sendTo p msg) := by
  intro o ho client
  obtain ⟨i,-,rfl⟩ := Master.mem_sendTo.mp ho
  rfl

theorem starting_quiet {outs : List MasterOut} (h : ∀ o ∈ outs, o.starting = true) : Quiet outs := by
  intro o ho client
  have hstart := h o ho
  cases o with
  | redirect c port => cases hstart
  | closeClient c => cases hstart
  | _ => rfl

/-- The parts of a room that decide where sockets are. -/
structure Room.SameDoor (r r' : Room) : Prop where
  used : r'.used = r.used
  ready : r'.ready = r.ready
  redirected : r'.redirected = r.redirected
  pendingFds : r'.pendingFds = r.pendingFds

theorem Room.SameDoor.parked {r r' : Room} (h : r.SameDoor r') (client : ℕ) : r'.parked client = r.parked client := by
  rw [Room.parked,Room.parked,h.used,h.pendingFds]

theorem Room.SameDoor.dealt {r r' : Room} {roomSize : ℕ} (h : r.SameDoor r') (hd : r.Dealt roomSize) :
    r'.Dealt roomSize := by
  obtain ⟨hparked,hroom,hflushed⟩ := hd
  constructor
  · rwa [h.pendingFds,h.redirected]
  · rwa [h.redirected]
  · rwa [h.ready,h.pendingFds]

/-- A step that leaves all doors alone and closes no socket. -/
theorem deals_of_sameDoors {m m' : Master} {outs : List MasterOut} (hsize : m'.roomSize = m.roomSize)
    (h : ∀ i, (m.rooms i).SameDoor (m'.rooms i)) (hq : Quiet outs) : m.Deals (m',outs) [] := by
  constructor
  · exact hsize
  · intro hd i hused
    rw [hsize]
    exact (h i).dealt (hd i ((h i).used ▸ hused))
  · intro client
    have hsum : m'.parked client = m.parked client := by
      unfold Master.parked
      exact Finset.sum_congr rfl fun i _ => (h i).parked client
    dsimp only
    rw [hsum,hq.closings,List.count_nil]

theorem setRoom_parked (m : Master) (slot : Fin maxRooms) (r : Room) (client : ℕ) :
    (m.setRoom slot r).parked client + (m.rooms slot).parked client = m.parked client + r.parked client := by
  unfold Master.parked
  rw [← Finset.add_sum_erase _ _ (Finset.mem_univ slot),← Finset.add_sum_erase _ (fun i => (m.rooms i).parked client)
    (Finset.mem_univ slot),Master.setRoom_rooms_self]
  have hrest : ∑ i ∈ Finset.univ.erase slot, ((m.setRoom slot r).rooms i).parked client =
      ∑ i ∈ Finset.univ.erase slot, (m.rooms i).parked client :=
    Finset.sum_congr rfl fun i hi => by rw [Master.setRoom_rooms_of_ne m (Finset.ne_of_mem_erase hi)]
  rw [hrest]
  omega

theorem setRoom_dealt {m : Master} {slot : Fin maxRooms} {r : Room} (hd : m.Dealt)
    (hr : r.used = true → r.Dealt m.roomSize) : (m.setRoom slot r).Dealt := by
  intro i hused
  by_cases hi : i = slot
  · subst hi
    rw [Master.setRoom_rooms_self] at hused ⊢
    exact hr hused
  · rw [Master.setRoom_rooms_of_ne m hi] at hused ⊢
    exact hd i hused

theorem setRoom_deals {m : Master} {slot : Fin maxRooms} {r : Room} {outs : List MasterOut} {arrived : List ℕ}
    (hr : m.Dealt → r.used = true → r.Dealt m.roomSize)
    (hc : ∀ client, r.parked client + closings outs client = (m.rooms slot).parked client + arrived.count client) :
    m.Deals (m.setRoom slot r,outs) arrived := by
  constructor
  · rfl
  · exact fun hd => setRoom_dealt hd (hr hd)
  · intro client
    have hset := setRoom_parked m slot r client
    have hroom := hc client
    dsimp only
    omega

/-! ## Accepting -/

theorem spawnRoom_none {m : Master} {forkOk : Bool} {r : MasterReply} (h : spawnRoom m forkOk = (r,none)) :
    r = (m,[]) := by
  unfold spawnRoom at h
  split at h
  · exact (Prod.mk.inj h).1.symm
  · split at h
    · exact absurd (Prod.mk.inj h).2 (Option.some_ne_none _)
    · exact (Prod.mk.inj h).1.symm

/-- A new room is empty: what its slot held before was of a room no longer used. -/
theorem spawnRoom_some {m : Master} {forkOk : Bool} {r : MasterReply} {slot : Fin maxRooms}
    (h : spawnRoom m forkOk = (r,some slot)) :
    m.Deals r [] ∧ (r.1.rooms slot).used = true ∧ (r.1.rooms slot).redirected = 0 := by
  unfold spawnRoom at h
  split at h
  · exact absurd (Prod.mk.inj h).2.symm (Option.some_ne_none _)
  · next free hfree =>
    have hunused : (m.rooms free).used = false := by simpa using List.find?_some hfree
    split at h
    · obtain ⟨rfl,hslot⟩ := Prod.mk.inj h
      cases hslot
      have hempty : ∀ client, (m.rooms slot).parked client = 0 := fun client => by
        rw [Room.parked,hunused]
        rfl
      have hset : m.Deals (m.setRoom slot { Room.unused with
          used := true, hubFd := m.roomSeq, port := (roomPortBase + slot) % 65536 },
          [.fork m.roomSeq ((roomPortBase + slot) % 65536) ((1 + m.roomSeq * maxLobbySize) % 4294967296) slot]) [] := by
        apply setRoom_deals
        · exact fun _ _ => ⟨Nat.le_refl 0,Nat.zero_le _,fun _ => rfl⟩
        · intro client
          rw [hempty]
          rfl
      refine ⟨?_,by simp,by simp [Room.unused]⟩
      exact hset.trans (deals_of_sameDoors rfl (fun _ => ⟨rfl,rfl,rfl,rfl⟩) quiet_nil)
    · exact absurd (Prod.mk.inj h).2.symm (Option.some_ne_none _)

theorem fillingRoom_none {m : Master} {forkOk : Bool} {r : MasterReply} (h : fillingRoom m forkOk = (r,none)) :
    r = (m,[]) := by
  unfold fillingRoom at h
  split at h
  · exact absurd (Prod.mk.inj h).2 (Option.some_ne_none _)
  · exact spawnRoom_none h

theorem fillingRoom_some {m : Master} (hsize : 1 ≤ m.roomSize) {forkOk : Bool} {r : MasterReply} {slot : Fin maxRooms}
    (h : fillingRoom m forkOk = (r,some slot)) :
    m.Deals r [] ∧ (r.1.rooms slot).used = true ∧ (r.1.rooms slot).redirected < r.1.roomSize := by
  unfold fillingRoom at h
  split at h
  · next found hfound =>
    obtain ⟨rfl,hslot⟩ := Prod.mk.inj h
    cases hslot
    have hopen := List.find?_some hfound
    simp only [Bool.and_eq_true,decide_eq_true_eq] at hopen
    exact ⟨.refl m,hopen.1.1,hopen.2⟩
  · obtain ⟨hdeals,hused,hnone⟩ := spawnRoom_some h
    refine ⟨hdeals,hused,?_⟩
    rw [hnone,hdeals.roomSize]
    exact hsize

theorem closings_single (o : MasterOut) (client : ℕ) : closings [o] client = if o.closes client then 1 else 0 := by
  simp [closings,List.countP_cons]

theorem closeClient_deals (m : Master) (client : ℕ) : m.Deals (m,[.closeClient client]) [client] := by
  refine ⟨rfl,id,fun c => ?_⟩
  dsimp only
  rw [closings_single,List.count_singleton]
  rfl

theorem redirect_deals {m : Master} {slot : Fin maxRooms} (hplace : (m.rooms slot).redirected < m.roomSize)
    (hused : (m.rooms slot).used = true) (client : ℕ) :
    m.Deals (m.setRoom slot { m.rooms slot with redirected := (m.rooms slot).redirected + 1 },
      [.redirect client (m.rooms slot).port]) [client] := by
  apply setRoom_deals
  · intro hd _
    obtain ⟨hparked,-,hflushed⟩ := hd slot hused
    exact ⟨Nat.le_succ_of_le hparked,hplace,hflushed⟩
  · intro c
    rw [closings_single,List.count_singleton]
    rfl

theorem park_deals {m : Master} {slot : Fin maxRooms} (hplace : (m.rooms slot).redirected < m.roomSize)
    (hused : (m.rooms slot).used = true) (hready : ¬(m.rooms slot).ready = true) (client : ℕ) :
    m.Deals (m.setRoom slot { m.rooms slot with
      redirected := (m.rooms slot).redirected + 1
      pendingFds := (m.rooms slot).pendingFds ++ [client] },[]) [client] := by
  apply setRoom_deals
  · intro hd _
    obtain ⟨hparked,-,-⟩ := hd slot hused
    refine ⟨?_,hplace,fun h => absurd h hready⟩
    rw [List.length_append]
    exact Nat.succ_le_succ hparked
  · intro c
    simp only [Room.parked,hused,if_true,List.count_append]
    rfl

theorem acceptClient_deals {m : Master} (hsize : 1 ≤ m.roomSize) (client : ℕ) (forkOk : Bool) :
    m.Deals (acceptClient m client forkOk) [client] := by
  unfold acceptClient
  rcases hfill : fillingRoom m forkOk with ⟨⟨m',outs⟩,_ | slot⟩
  · obtain ⟨rfl,rfl⟩ := Prod.mk.inj (fillingRoom_none hfill)
    exact closeClient_deals m' client
  · obtain ⟨hdeals,hused,hplace⟩ := fillingRoom_some hsize hfill
    dsimp only at hused hplace ⊢
    split
    · exact hdeals.trans (redirect_deals hplace hused client)
    · next hready =>
      split
      · have hall := hdeals.trans (park_deals hplace hused hready client)
        rwa [List.append_nil] at hall
      · exact hdeals.trans (closeClient_deals m' client)

/-! ## The other steps -/

theorem begun_sameDoor (r : Room) : r.SameDoor r.begun := ⟨rfl,rfl,rfl,rfl⟩

theorem startAllRooms_deals (m : Master) : m.Deals (startAllRooms m) [] := by
  apply deals_of_sameDoors (startAllRooms_sameMatch m).roomSize
  · intro i
    rw [startAllRooms_rooms]
    exact begun_sameDoor _
  · exact starting_quiet fun _ => startAllRooms_outs

theorem broadcastRoster_quiet (m : Master) : Quiet (broadcastRoster m) := sendTo_quiet m _ _

theorem checkGlobalEnd_deals (m : Master) : m.Deals (checkGlobalEnd m) [] := by
  unfold checkGlobalEnd
  split
  · exact .refl m
  · split
    · refine deals_of_sameDoors rfl (fun _ => ⟨rfl,rfl,rfl,rfl⟩) ((sendTo_quiet m _ _).append ?_)
      intro o ho client
      rw [List.mem_singleton.mp ho]
      rfl
    · exact .refl m

theorem kill_deals (m : Master) (p : PlayerRec → Bool) {outs : List MasterOut} (hq : Quiet outs) :
    m.Deals (m.kill p,outs) [] := deals_of_sameDoors rfl (fun _ => ⟨rfl,rfl,rfl,rfl⟩) hq

theorem freeRoom_deals {m : Master} {slot : Fin maxRooms} (hused : (m.rooms slot).used = true) :
    m.Deals (m.freeRoom slot,.closeHub (m.rooms slot).hubFd :: (m.rooms slot).pendingFds.map .closeClient) [] := by
  apply setRoom_deals
  · intro _ h
    cases h
  · intro c
    rw [Room.parked,Room.parked,if_neg Bool.false_ne_true,if_pos hused,closings,List.countP_cons,List.countP_map]
    rw [Nat.zero_add]
    rfl

theorem closeRoom_deals {m : Master} {slot : Fin maxRooms} (hused : (m.rooms slot).used = true) :
    m.Deals (closeRoom m slot) [] := by
  have hfree := freeRoom_deals hused
  unfold closeRoom
  dsimp only
  split
  · exact hfree
  · split
    · have hkill := kill_deals (m.freeRoom slot) (fun q => decide (q.room = slot) && q.alive)
        (broadcastRoster_quiet ((m.freeRoom slot).kill fun q => decide (q.room = slot) && q.alive))
      exact (hfree.trans hkill).trans (checkGlobalEnd_deals _)
    · have hkill := kill_deals (m.freeRoom slot) (fun q => decide (q.room = slot) && q.alive) quiet_nil
      have hall := hfree.trans hkill
      rwa [List.append_nil] at hall

theorem ready_deals {m : Master} {slot : Fin maxRooms} (hused : (m.rooms slot).used = true) :
    m.Deals (handleHubMsg m slot .ready) [] := by
  unfold handleHubMsg
  apply setRoom_deals
  · intro hd _
    obtain ⟨-,hroom,-⟩ := hd slot hused
    exact ⟨Nat.zero_le _,hroom,fun _ => rfl⟩
  · intro c
    simp only [Room.parked,hused,if_true,List.count_nil,closings,List.countP_map,Nat.zero_add,Nat.add_zero]
    rfl

theorem joinPlayer_deals (m : Master) (slot : Fin maxRooms) (playerId : ℕ) {outs : List MasterOut} (hq : Quiet outs) :
    m.Deals (joinPlayer m slot playerId,outs) [] := by
  refine deals_of_sameDoors rfl (fun i => ?_) hq
  unfold joinPlayer
  dsimp only
  by_cases hi : i = slot
  · subst hi
    rw [Master.setRoom_rooms_self]
    exact ⟨rfl,rfl,rfl,rfl⟩
  · rw [Master.setRoom_rooms_of_ne m hi]
    exact ⟨rfl,rfl,rfl,rfl⟩

theorem routeAttack_quiet (m : Master) (a : HubAttack) : Quiet (routeAttack m a) := by
  intro o ho client
  unfold routeAttack at ho
  split at ho
  · dsimp only at ho
    split at ho
    · rw [List.mem_singleton.mp ho]
      rfl
    · cases ho
  · cases ho

theorem handleHubMsg_deals {m : Master} {slot : Fin maxRooms} (hused : (m.rooms slot).used = true) (msg : HubMsg) :
    m.Deals (handleHubMsg m slot msg) [] := by
  cases msg with
  | ready => exact ready_deals hused
  | joined playerId =>
    have hjoin := joinPlayer_deals m slot playerId (broadcastRoster_quiet (joinPlayer m slot playerId))
    unfold handleHubMsg
    dsimp only
    split
    · exact hjoin.trans (startAllRooms_deals _)
    · exact hjoin
  | eliminated playerId =>
    have hkill := kill_deals m (fun q => q.id == playerId)
      (broadcastRoster_quiet (m.kill fun q => q.id == playerId))
    exact hkill.trans (checkGlobalEnd_deals _)
  | attack a => exact deals_of_sameDoors rfl (fun _ => ⟨rfl,rfl,rfl,rfl⟩) (routeAttack_quiet m a)
  | feed a => exact deals_of_sameDoors rfl (fun _ => ⟨rfl,rfl,rfl,rfl⟩) (sendTo_quiet m _ _)
  | _ => exact .refl m

/-! ## Runs -/

/-- The master with the number of accepted sockets and all it has put out. -/
structure Desk where
  master : Master
  accepted : ℕ
  log : List MasterOut

def Desk.init (roomSize : ℕ) : Desk := ⟨.init roomSize,0,[]⟩

def Desk.step (d : Desk) : MasterEvent → Option Desk
  | .accept _ forkOk =>
    (d.master.step (.accept d.accepted forkOk)).map fun r => ⟨r.1,d.accepted + 1,d.log ++ r.2⟩
  | ev => (d.master.step ev).map fun r => ⟨r.1,d.accepted,d.log ++ r.2⟩

theorem Desk.step_deals {d e : Desk} {ev : MasterEvent} (hsize : 1 ≤ d.master.roomSize) (h : d.step ev = some e) :
    ∃ outs arrived, d.master.Deals (e.master,outs) arrived ∧ e.log = d.log ++ outs ∧
      (arrived = [] ∧ e.accepted = d.accepted ∨ arrived = [d.accepted] ∧ e.accepted = d.accepted + 1) := by
  cases ev with
  | accept client forkOk =>
    obtain ⟨r,hr,rfl⟩ := Option.map_eq_some_iff.mp h
    cases Master.step_inv hr
    exact ⟨_,_,acceptClient_deals hsize d.accepted forkOk,rfl,Or.inr ⟨rfl,rfl⟩⟩
  | enter =>
    obtain ⟨r,hr,rfl⟩ := Option.map_eq_some_iff.mp h
    cases Master.step_inv hr
    exact ⟨_,_,startAllRooms_deals d.master,rfl,Or.inl ⟨rfl,rfl⟩⟩
  | recv slot msg =>
    obtain ⟨r,hr,rfl⟩ := Option.map_eq_some_iff.mp h
    cases Master.step_inv hr with
    | recv _ _ hused => exact ⟨_,_,handleHubMsg_deals hused msg,rfl,Or.inl ⟨rfl,rfl⟩⟩
  | close slot =>
    obtain ⟨r,hr,rfl⟩ := Option.map_eq_some_iff.mp h
    cases Master.step_inv hr with
    | close _ hused => exact ⟨_,_,closeRoom_deals hused,rfl,Or.inl ⟨rfl,rfl⟩⟩
  | endPass stopRequested =>
    cases h
    exact ⟨_,_,deals_of_sameDoors rfl (fun _ => ⟨rfl,rfl,rfl,rfl⟩) quiet_nil,rfl,Or.inl ⟨rfl,rfl⟩⟩

/-- Every socket accepted so far is parked once or has been closed once. -/
structure Desk.Kept (roomSize : ℕ) (d : Desk) : Prop where
  roomSize : d.master.roomSize = roomSize
  dealt : d.master.Dealt
  sockets : ∀ client, d.master.parked client + closings d.log client = if client < d.accepted then 1 else 0

theorem Desk.init_kept (roomSize : ℕ) : (Desk.init roomSize).Kept roomSize := by
  constructor
  · rfl
  · intro i h
    cases h
  · intro client
    have hparked : (Desk.init roomSize).master.parked client = 0 := by
      unfold Master.parked
      exact Finset.sum_eq_zero fun i _ => rfl
    rw [hparked]
    rfl

theorem Desk.step_kept {roomSize : ℕ} (hsize : 1 ≤ roomSize) {d e : Desk} {ev : MasterEvent} (h : d.Kept roomSize)
    (hstep : d.step ev = some e) : e.Kept roomSize := by
  obtain ⟨outs,arrived,hdeals,hlog,harrived⟩ := Desk.step_deals (h.roomSize ▸ hsize) hstep
  constructor
  · exact hdeals.roomSize.trans h.roomSize
  · exact hdeals.dealt h.dealt
  · intro client
    have hbefore := h.sockets client
    have hmoved := hdeals.conserved client
    dsimp only at hmoved
    rw [hlog,closings_append]
    rcases harrived with ⟨rfl,haccepted⟩ | ⟨rfl,haccepted⟩
    · rw [haccepted]
      rw [List.count_nil] at hmoved
      omega
    · rw [haccepted]
      rw [List.count_singleton] at hmoved
      by_cases heq : d.accepted = client
      · subst heq
        rw [if_neg (lt_irrefl _)] at hbefore
        rw [beq_self_eq_true,if_pos rfl] at hmoved
        rw [if_pos (Nat.lt_succ_self _)]
        omega
      · rw [beq_false_of_ne heq,if_neg Bool.false_ne_true] at hmoved
        have hlt : client < d.accepted + 1 ↔ client < d.accepted := by omega
        simp only [hlt]
        omega

/-- In every reachable state: the counters of each room in use agree, the waiting list of
the room that takes the next player has a place, and each accepted socket is either parked
in one room or has been closed once. -/
theorem dealt_into_one_room {roomSize : ℕ} (hpos : 1 ≤ roomSize) (hmax : roomSize ≤ maxLobbySize)
    {events : List MasterEvent} {d : Desk} (hrun : Execution.run Desk.step (Desk.init roomSize) events = some d) :
    (∀ i, (d.master.rooms i).used = true → (d.master.rooms i).Dealt roomSize) ∧
    (∀ forkOk m outs slot, fillingRoom d.master forkOk = ((m,outs),some slot) →
      (m.rooms slot).ready = false → (m.rooms slot).pendingFds.length < maxLobbySize) ∧
    ∀ client < d.accepted,
      (d.master.parked client = 1 ∧ closings d.log client = 0) ∨
      (d.master.parked client = 0 ∧ closings d.log client = 1) := by
  have hkept : d.Kept roomSize := Execution.run_invariant
    (fun _ _ _ h hstep => Desk.step_kept hpos h hstep) hrun (Desk.init_kept roomSize)
  refine ⟨?_,?_,?_⟩
  · intro i hused
    have hd := hkept.dealt i hused
    rwa [hkept.roomSize] at hd
  · intro forkOk m outs slot hfill _
    obtain ⟨hdeals,hused,hplace⟩ := fillingRoom_some (hkept.roomSize.symm ▸ hpos) hfill
    have hparked := (hdeals.dealt hkept.dealt slot hused).parked
    have hsame := hdeals.roomSize.trans hkept.roomSize
    dsimp only at hparked hplace hsame
    omega
  · intro client hclient
    have hsockets := hkept.sockets client
    rw [if_pos hclient] at hsockets
    omega

/-- Three players in rooms of two; the first room's worker becomes ready, the second one's dies. -/
theorem dealt_into_one_room_three : ∃ d, Execution.run Desk.step (Desk.init 2)
      [.accept 0 true,.accept 0 true,.accept 0 true,.recv firstSlot .ready,.close secondSlot] = some d ∧
    ∀ client < d.accepted,
      (d.master.parked client = 1 ∧ closings d.log client = 0) ∨
      (d.master.parked client = 0 ∧ closings d.log client = 1) := by
  obtain ⟨d,hd,-⟩ := Execution.exists_of_run_any Desk.step (Desk.init 2)
    [.accept 0 true,.accept 0 true,.accept 0 true,.recv firstSlot .ready,.close secondSlot] (fun _ => true)
    (by decide +kernel)
  exact ⟨d,hd,(dealt_into_one_room (by decide) (by decide) hd).2.2⟩

end CoreStack.Tetrisd
