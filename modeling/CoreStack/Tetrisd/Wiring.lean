import CoreStack.Tetrisd.Master

/-! # The room table over a run of the master

Each function of the master gets one statement about the rooms it writes and the
workers it creates. Together they say which slot speaks to which worker.
-/
namespace CoreStack.Tetrisd

/-! ## What each function leaves alone -/

@[simp] theorem Master.setRoom_rooms_self (m : Master) (slot : Fin maxRooms) (r : Room) :
    (m.setRoom slot r).rooms slot = r := Function.update_self ..

theorem Master.setRoom_rooms_of_ne (m : Master) {slot i : Fin maxRooms} (h : i ≠ slot) (r : Room) :
    (m.setRoom slot r).rooms i = m.rooms i := Function.update_of_ne h ..

theorem Master.mem_sendTo {m : Master} {p : Fin maxRooms → Bool} {msg : HubMsg} {o : MasterOut} :
    o ∈ m.sendTo p msg ↔ ∃ i, p i = true ∧ o = .send (m.rooms i).hubFd msg := by
  simp only [Master.sendTo,List.mem_map,List.mem_filter,List.mem_finRange,true_and]
  exact exists_congr fun i => and_congr_right fun _ => eq_comm

/-- The rooms `start_room` does not skip. -/
def Room.waiting (r : Room) : Bool := r.used && !r.started && decide (1 ≤ r.joined)

def Room.begun (r : Room) : Room := { r with started := r.started || r.waiting }

theorem Room.waiting_iff (r : Room) : r.waiting = true ↔ r.used = true ∧ r.started = false ∧ 1 ≤ r.joined := by
  simp [Room.waiting,and_assoc]

theorem Room.begun_of_not_waiting {r : Room} (h : r.waiting = false) : r.begun = r := by
  simp [Room.begun,h]

theorem Room.begun_waiting (r : Room) : r.begun.waiting = false := by
  cases hs : r.started <;> cases hw : r.waiting <;> simp_all [Room.begun,Room.waiting]

@[simp] theorem Room.begun_begun (r : Room) : r.begun.begun = r.begun :=
  Room.begun_of_not_waiting r.begun_waiting

theorem startRoom_eq (m : Master) (slot : Fin maxRooms) :
    startRoom m slot = if (m.rooms slot).waiting then
      let m' := { m.setRoom slot { m.rooms slot with started := true } with anyRoomStarted := true }
      (m',.send (m.rooms slot).hubFd (.start (m.rooms slot).redirected) :: broadcastRoster m')
    else (m,[]) := by
  have hc : (!(m.rooms slot).used || (m.rooms slot).started || decide ((m.rooms slot).joined < 1)) =
      !(m.rooms slot).waiting := by
    rw [Bool.eq_iff_iff]
    cases hw : (m.rooms slot).waiting with
    | true =>
      obtain ⟨hu,hs,hj⟩ := (Room.waiting_iff _).mp hw
      simp [hu,hs]
      omega
    | false =>
      have hn := mt (Room.waiting_iff _).mpr (Bool.eq_false_iff.mp hw)
      simp only [Bool.or_eq_true,Bool.not_eq_true',decide_eq_true_eq,Bool.not_false,iff_true]
      by_contra hcon
      simp only [not_or,Bool.not_eq_false,Bool.not_eq_true] at hcon
      exact hn ⟨hcon.1.1,hcon.1.2,by omega⟩
  unfold startRoom
  simp only [hc]
  cases (m.rooms slot).waiting <;> rfl

/-- Nothing but the room table and `any_room_started` differs. -/
structure Master.SameMatch (m m' : Master) : Prop where
  players : m'.players = m.players
  matchEnded : m'.matchEnded = m.matchEnded
  roomSeq : m'.roomSeq = m.roomSeq
  roomSize : m'.roomSize = m.roomSize

theorem Master.SameMatch.refl (m : Master) : m.SameMatch m := ⟨rfl,rfl,rfl,rfl⟩

theorem Master.SameMatch.trans {m m' m'' : Master} (h : m.SameMatch m') (h' : m'.SameMatch m'') :
    m.SameMatch m'' :=
  ⟨h'.players.trans h.players,h'.matchEnded.trans h.matchEnded,h'.roomSeq.trans h.roomSeq,
    h'.roomSize.trans h.roomSize⟩

theorem startRoom_sameMatch (m : Master) (slot : Fin maxRooms) : m.SameMatch (startRoom m slot).1 := by
  rw [startRoom_eq]
  split <;> exact ⟨rfl,rfl,rfl,rfl⟩

theorem startRoom_rooms (m : Master) (slot : Fin maxRooms) :
    (startRoom m slot).1.rooms = Function.update m.rooms slot (m.rooms slot).begun := by
  rw [startRoom_eq]
  split
  · rename_i hw
    simp [Master.setRoom,Room.begun,hw]
  · rename_i hw
    rw [Room.begun_of_not_waiting (Bool.not_eq_true _ ▸ hw)]
    exact (Function.update_eq_self slot m.rooms).symm

/-- What starting rooms may send: a start order or the roster. -/
def MasterOut.starting : MasterOut → Bool
  | .send _ (.start _) | .send _ (.roster _) => true
  | _ => false

theorem broadcastRoster_roster {m : Master} {o : MasterOut} (h : o ∈ broadcastRoster m) :
    ∃ fd, o = .send fd (.roster m.roster) := by
  obtain ⟨i,-,ho⟩ := Master.mem_sendTo.mp h
  exact ⟨_,ho⟩

theorem broadcastRoster_starting {m : Master} {o : MasterOut} (h : o ∈ broadcastRoster m) :
    o.starting = true := by
  obtain ⟨fd,rfl⟩ := broadcastRoster_roster h
  rfl

theorem startRoom_outs {m : Master} {slot : Fin maxRooms} {o : MasterOut} (h : o ∈ (startRoom m slot).2) :
    o.starting = true := by
  rw [startRoom_eq] at h
  split at h
  · rcases List.mem_cons.mp h with rfl | h
    · rfl
    · exact broadcastRoster_starting h
  · cases h

theorem startRoom_start {m : Master} {slot : Fin maxRooms} {fd n : ℕ} :
    MasterOut.send fd (.start n) ∈ (startRoom m slot).2 ↔
      (m.rooms slot).waiting = true ∧ fd = (m.rooms slot).hubFd ∧ n = (m.rooms slot).redirected := by
  rw [startRoom_eq]
  split
  · rename_i hw
    simp only [List.mem_cons,MasterOut.send.injEq,HubMsg.start.injEq,hw,true_and,or_iff_left_iff_imp]
    intro h
    obtain ⟨fd',h⟩ := broadcastRoster_roster h
    cases h
  · rename_i hw
    simp [hw]

def startRooms (slots : List (Fin maxRooms)) (r : MasterReply) : MasterReply :=
  slots.foldl (fun r slot => let s := startRoom r.1 slot; (s.1,r.2 ++ s.2)) r

theorem startRooms_cons (slot : Fin maxRooms) (slots : List (Fin maxRooms)) (r : MasterReply) :
    startRooms (slot :: slots) r =
      startRooms slots ((startRoom r.1 slot).1,r.2 ++ (startRoom r.1 slot).2) := rfl

theorem startRooms_sameMatch (slots : List (Fin maxRooms)) (r : MasterReply) :
    r.1.SameMatch (startRooms slots r).1 := by
  induction slots generalizing r with
  | nil => exact .refl r.1
  | cons slot slots ih =>
    have hrest := ih ((startRoom r.1 slot).1,r.2 ++ (startRoom r.1 slot).2)
    rw [startRooms_cons]
    exact (startRoom_sameMatch r.1 slot).trans hrest

theorem startRooms_rooms (slots : List (Fin maxRooms)) (r : MasterReply) (i : Fin maxRooms) :
    (startRooms slots r).1.rooms i = if i ∈ slots then (r.1.rooms i).begun else r.1.rooms i := by
  induction slots generalizing r with
  | nil => simp [startRooms]
  | cons slot slots ih =>
    rw [startRooms_cons,ih]
    by_cases hi : i = slot
    · subst hi
      simp [startRoom_rooms]
    · simp [startRoom_rooms,hi]

theorem startRooms_outs (slots : List (Fin maxRooms)) (r : MasterReply) {o : MasterOut}
    (h : o ∈ (startRooms slots r).2) : o ∈ r.2 ∨ o.starting = true := by
  induction slots generalizing r with
  | nil => exact .inl h
  | cons slot slots ih =>
    rw [startRooms_cons] at h
    rcases ih _ h with h | h
    · rcases List.mem_append.mp h with h | h
      · exact .inl h
      · exact .inr (startRoom_outs h)
    · exact .inr h

theorem startRooms_start (slots : List (Fin maxRooms)) (r : MasterReply) (fd : ℕ) :
    (∃ n, MasterOut.send fd (.start n) ∈ (startRooms slots r).2) ↔
      (∃ n, MasterOut.send fd (.start n) ∈ r.2) ∨
      ∃ i ∈ slots, (r.1.rooms i).waiting = true ∧ fd = (r.1.rooms i).hubFd := by
  induction slots generalizing r with
  | nil => simp [startRooms]
  | cons slot slots ih =>
    have hrest : ∀ i, ((startRoom r.1 slot).1.rooms i).waiting = true ∧
        fd = ((startRoom r.1 slot).1.rooms i).hubFd ↔
        i ≠ slot ∧ (r.1.rooms i).waiting = true ∧ fd = (r.1.rooms i).hubFd := by
      intro i
      by_cases hi : i = slot
      · subst hi
        simp [startRoom_rooms,Room.begun_waiting]
      · simp [startRoom_rooms,hi]
    rw [startRooms_cons,ih]
    simp only [List.mem_append,startRoom_start,hrest,List.mem_cons]
    constructor
    · rintro (⟨n,h | h⟩ | ⟨i,hi,-,h⟩)
      · exact .inl ⟨n,h⟩
      · exact .inr ⟨slot,.inl rfl,h.1,h.2.1⟩
      · exact .inr ⟨i,.inr hi,h⟩
    · rintro (⟨n,h⟩ | ⟨i,hi,h⟩)
      · exact .inl ⟨n,.inl h⟩
      · by_cases hs : i = slot
        · subst hs
          exact .inl ⟨_,.inr ⟨h.1,h.2,rfl⟩⟩
        · exact .inr ⟨i,hi.resolve_left hs,hs,h⟩

theorem startAllRooms_eq (m : Master) : startAllRooms m = startRooms (List.finRange maxRooms) (m,[]) := by
  unfold startAllRooms
  rfl

theorem startAllRooms_sameMatch (m : Master) : m.SameMatch (startAllRooms m).1 := by
  rw [startAllRooms_eq]
  exact startRooms_sameMatch (List.finRange maxRooms) (m,[])

theorem startAllRooms_rooms (m : Master) (i : Fin maxRooms) :
    (startAllRooms m).1.rooms i = (m.rooms i).begun := by
  rw [startAllRooms_eq,startRooms_rooms,if_pos (List.mem_finRange i)]

theorem startAllRooms_outs {m : Master} {o : MasterOut} (h : o ∈ (startAllRooms m).2) : o.starting = true := by
  rw [startAllRooms_eq] at h
  rcases startRooms_outs _ _ h with h | h
  · cases h
  · exact h

theorem startAllRooms_start {m : Master} {fd : ℕ} :
    (∃ n, MasterOut.send fd (.start n) ∈ (startAllRooms m).2) ↔
      ∃ i, (m.rooms i).waiting = true ∧ fd = (m.rooms i).hubFd := by
  rw [startAllRooms_eq,startRooms_start]
  simp only [List.not_mem_nil,exists_false,false_or,List.mem_finRange,true_and]

/-! ## Where the master writes -/

/-- Every hub message goes to a room in use. -/
def Master.Addresses (m : Master) (outs : List MasterOut) : Prop :=
  ∀ fd msg, MasterOut.send fd msg ∈ outs → ∃ i, (m.rooms i).used = true ∧ fd = (m.rooms i).hubFd

theorem Master.Addresses.append {m : Master} {outs outs' : List MasterOut} (h : m.Addresses outs)
    (h' : m.Addresses outs') : m.Addresses (outs ++ outs') := by
  intro fd msg hm
  exact (List.mem_append.mp hm).elim (h fd msg) (h' fd msg)

/-- Rooms in use later, with their hubs unchanged, were in use before. -/
theorem Master.Addresses.mono {m m' : Master} {outs : List MasterOut} (h : m'.Addresses outs)
    (hr : ∀ i, (m'.rooms i).used = true → (m.rooms i).used = true ∧ (m'.rooms i).hubFd = (m.rooms i).hubFd) :
    m.Addresses outs := by
  intro fd msg hm
  obtain ⟨i,hu,rfl⟩ := h fd msg hm
  exact ⟨i,(hr i hu).1,(hr i hu).2⟩

theorem sendTo_addresses {m : Master} {p : Fin maxRooms → Bool} (hp : ∀ i, p i = true → (m.rooms i).used = true)
    (msg : HubMsg) : m.Addresses (m.sendTo p msg) := by
  intro fd msg' hm
  obtain ⟨i,hi,he⟩ := Master.mem_sendTo.mp hm
  cases he
  exact ⟨i,hp i hi,rfl⟩

theorem broadcastRoster_addresses (m : Master) : m.Addresses (broadcastRoster m) :=
  sendTo_addresses (fun _ h => (Bool.and_eq_true_iff.mp h).1) _

theorem startRoom_wires (m : Master) (slot i : Fin maxRooms) :
    ((startRoom m slot).1.rooms i).used = (m.rooms i).used ∧
    ((startRoom m slot).1.rooms i).hubFd = (m.rooms i).hubFd := by
  rw [startRoom_rooms]
  by_cases h : i = slot
  · subst h
    rw [Function.update_self]
    exact ⟨rfl,rfl⟩
  · rw [Function.update_of_ne h]
    exact ⟨rfl,rfl⟩

theorem startRoom_addresses (m : Master) (slot : Fin maxRooms) : m.Addresses (startRoom m slot).2 := by
  intro fd msg hm
  have hw := startRoom_wires m slot
  rw [startRoom_eq] at hm hw
  split at hm
  · rename_i hwait
    simp only [if_pos hwait] at hw
    rcases List.mem_cons.mp hm with he | hm
    · cases he
      exact ⟨slot,((Room.waiting_iff _).mp hwait).1,rfl⟩
    · obtain ⟨i,hu,rfl⟩ := broadcastRoster_addresses _ fd msg hm
      exact ⟨i,(hw i).1 ▸ hu,(hw i).2⟩
  · cases hm

theorem startRooms_addresses (slots : List (Fin maxRooms)) (r : MasterReply) (h : r.1.Addresses r.2) :
    r.1.Addresses (startRooms slots r).2 := by
  induction slots generalizing r with
  | nil => exact h
  | cons slot slots ih =>
    rw [startRooms_cons]
    have hw := startRoom_wires r.1 slot
    have hstep : (startRoom r.1 slot).1.Addresses (r.2 ++ (startRoom r.1 slot).2) := by
      refine (h.append (startRoom_addresses r.1 slot)).mono fun i hu => ?_
      exact ⟨(hw i).1.trans hu,(hw i).2.symm⟩
    refine (ih (_,_) hstep).mono fun i hu => ?_
    exact ⟨(hw i).1 ▸ hu,(hw i).2⟩

theorem startAllRooms_addresses (m : Master) : m.Addresses (startAllRooms m).2 := by
  rw [startAllRooms_eq]
  exact startRooms_addresses _ (m,[]) fun fd msg h => (by cases h)

theorem checkGlobalEnd_addresses (m : Master) : m.Addresses (checkGlobalEnd m).2 := by
  unfold checkGlobalEnd
  split
  · exact fun fd msg h => (by cases h)
  · split
    · refine (sendTo_addresses (fun _ h => h) _).append ?_
      intro fd msg h
      cases List.mem_singleton.mp h
    · exact fun fd msg h => (by cases h)

/-! ## Outputs outside the hubs -/

/-- Outputs that neither write to a hub nor end the match. -/
def MasterOut.clerical : MasterOut → Bool
  | .fork .. | .redirect .. | .closeClient _ | .closeHub _ => true
  | _ => false

def Clerical (outs : List MasterOut) : Prop := ∀ o ∈ outs, o.clerical = true

theorem Clerical.nil : Clerical [] := fun _ h => (by cases h)

theorem Clerical.append {outs outs' : List MasterOut} (h : Clerical outs) (h' : Clerical outs') :
    Clerical (outs ++ outs') := by
  intro o ho
  exact (List.mem_append.mp ho).elim (h o) (h' o)

theorem clerical_singleton {o : MasterOut} (h : o.clerical = true) : Clerical [o] := by
  intro o' ho
  rw [List.mem_singleton.mp ho]
  exact h

theorem clerical_closeOuts (fd : ℕ) (clients : List ℕ) :
    Clerical (MasterOut.closeHub fd :: clients.map .closeClient) := by
  intro o ho
  rcases List.mem_cons.mp ho with rfl | ho
  · rfl
  · obtain ⟨c,-,rfl⟩ := List.mem_map.mp ho
    rfl

theorem Clerical.addresses {outs : List MasterOut} (h : Clerical outs) (m : Master) : m.Addresses outs :=
  fun fd msg hm => (by cases h _ hm)

theorem spawnRoom_clerical (m : Master) (forkOk : Bool) :
    (spawnRoom m forkOk).1.1.players = m.players ∧ (spawnRoom m forkOk).1.1.matchEnded = m.matchEnded ∧
    Clerical (spawnRoom m forkOk).1.2 := by
  unfold spawnRoom
  split
  · exact ⟨rfl,rfl,.nil⟩
  · split
    · exact ⟨rfl,rfl,clerical_singleton rfl⟩
    · exact ⟨rfl,rfl,.nil⟩

theorem fillingRoom_clerical (m : Master) (forkOk : Bool) :
    (fillingRoom m forkOk).1.1.players = m.players ∧ (fillingRoom m forkOk).1.1.matchEnded = m.matchEnded ∧
    Clerical (fillingRoom m forkOk).1.2 := by
  unfold fillingRoom
  split
  · exact ⟨rfl,rfl,.nil⟩
  · exact spawnRoom_clerical m forkOk

theorem acceptClient_clerical (m : Master) (client : ℕ) (forkOk : Bool) :
    (acceptClient m client forkOk).1.players = m.players ∧
    (acceptClient m client forkOk).1.matchEnded = m.matchEnded ∧
    Clerical (acceptClient m client forkOk).2 := by
  have h := fillingRoom_clerical m forkOk
  unfold acceptClient
  split
  · rename_i m' outs he
    rw [he] at h
    exact ⟨h.1,h.2.1,h.2.2.append (clerical_singleton rfl)⟩
  · rename_i m' outs slot he
    rw [he] at h
    dsimp only
    split
    · exact ⟨h.1,h.2.1,h.2.2.append (clerical_singleton rfl)⟩
    · split
      · exact h
      · exact ⟨h.1,h.2.1,h.2.2.append (clerical_singleton rfl)⟩

theorem ready_clerical (m : Master) (slot : Fin maxRooms) : Clerical (handleHubMsg m slot .ready).2 := by
  intro o ho
  obtain ⟨c,-,rfl⟩ := List.mem_map.mp ho
  rfl

/-! ## Wiring: which slot speaks to which worker -/

/-- The workers an output list creates, with their first player id. -/
def forks (outs : List MasterOut) : List (ℕ × ℕ) :=
  outs.filterMap fun
    | .fork fd _ idBase _ => some (fd,idBase)
    | _ => none

@[simp] theorem forks_append (outs outs' : List MasterOut) : forks (outs ++ outs') = forks outs ++ forks outs' :=
  List.filterMap_append

/-- A table entry keeps its use and hub; it is running only if it was or has just
been ordered to start. -/
structure Room.Continues (r r' : Room) (outs : List MasterOut) : Prop where
  used : r'.used = r.used
  hubFd : r'.hubFd = r.hubFd
  joined : r.joined ≤ r'.joined
  started : r'.started = true → r.started = true ∨ ∃ n, MasterOut.send r.hubFd (.start n) ∈ outs

theorem Room.Continues.refl (r : Room) (outs : List MasterOut) : r.Continues r outs :=
  ⟨rfl,rfl,le_rfl,.inl⟩

theorem Master.setRoom_continues (m : Master) (slot : Fin maxRooms) {r : Room} (outs : List MasterOut)
    (hu : r.used = (m.rooms slot).used) (hf : r.hubFd = (m.rooms slot).hubFd)
    (hj : (m.rooms slot).joined ≤ r.joined) (hs : r.started = (m.rooms slot).started) (i : Fin maxRooms) :
    (m.rooms i).Continues ((m.setRoom slot r).rooms i) outs := by
  by_cases h : i = slot
  · subst h
    rw [Master.setRoom_rooms_self]
    exact ⟨hu,hf,hj,fun h => .inl (hs ▸ h)⟩
  · rw [m.setRoom_rooms_of_ne h]
    exact .refl _ _

theorem Room.Continues.trans {r r' r'' : Room} {outs outs' : List MasterOut} (h : r.Continues r' outs)
    (h' : r'.Continues r'' outs') : r.Continues r'' (outs ++ outs') := by
  refine ⟨h'.used.trans h.used,h'.hubFd.trans h.hubFd,h.joined.trans h'.joined,fun hs => ?_⟩
  rcases h'.started hs with hs | ⟨n,hn⟩
  · rcases h.started hs with hs | ⟨n,hn⟩
    · exact .inl hs
    · exact .inr ⟨n,List.mem_append_left _ hn⟩
  · exact .inr ⟨n,List.mem_append_right _ (h.hubFd ▸ hn)⟩

/-- An event keeps the wiring, adds one room under a new name or closes one room. -/
inductive Master.Rewired (m m' : Master) (outs : List MasterOut) : Prop
  | kept (hq : m'.roomSeq = m.roomSeq) (hf : forks outs = [])
      (h : ∀ i, (m.rooms i).Continues (m'.rooms i) outs)
  | spawned (slot : Fin maxRooms) (hq : m'.roomSeq = m.roomSeq + 1)
      (hf : forks outs = [(m.roomSeq,(1 + m.roomSeq * maxLobbySize) % 4294967296)])
      (hu : (m.rooms slot).used = false) (hfd : (m'.rooms slot).hubFd = m.roomSeq)
      (hs : (m'.rooms slot).started = false)
      (h : ∀ i, i ≠ slot → (m.rooms i).Continues (m'.rooms i) outs)
  | closed (slot : Fin maxRooms) (hq : m'.roomSeq = m.roomSeq) (hf : forks outs = [])
      (hu : (m'.rooms slot).used = false)
      (hk : m'.matchEnded = false → ∀ p ∈ m'.players, p.alive = true → p.room ≠ slot)
      (h : ∀ i, i ≠ slot → (m.rooms i).Continues (m'.rooms i) outs)

theorem Master.Rewired.of_rooms {m m' : Master} {outs : List MasterOut} (hq : m'.roomSeq = m.roomSeq)
    (hf : forks outs = []) (h : m'.rooms = m.rooms) : m.Rewired m' outs :=
  .kept hq hf fun _ => h ▸ .refl _ _

theorem spawnRoom_rewired (m : Master) (forkOk : Bool) :
    m.Rewired (spawnRoom m forkOk).1.1 (spawnRoom m forkOk).1.2 := by
  unfold spawnRoom
  split
  · exact .of_rooms rfl rfl rfl
  · rename_i slot hslot
    have hu : (m.rooms slot).used = false := by simpa using List.find?_some hslot
    split
    · refine .spawned slot rfl rfl hu ?_ ?_ ?_
      · simp
      · simp [Room.unused]
      · intro i hi
        change (m.rooms i).Continues ((m.setRoom slot _).rooms i) _
        rw [m.setRoom_rooms_of_ne hi]
        exact .refl _ _
    · exact .of_rooms rfl rfl rfl

theorem fillingRoom_rewired (m : Master) (forkOk : Bool) :
    m.Rewired (fillingRoom m forkOk).1.1 (fillingRoom m forkOk).1.2 := by
  unfold fillingRoom
  split
  · exact .of_rooms rfl rfl rfl
  · exact spawnRoom_rewired m forkOk

theorem Master.Rewired.deal {m m' m'' : Master} {outs : List MasterOut} (outs' : List MasterOut)
    (h : m.Rewired m' outs) (hq : m''.roomSeq = m'.roomSeq) (hf : forks outs' = [])
    (hc : ∀ i, (m'.rooms i).Continues (m''.rooms i) outs')
    (hs : ∀ i, (m''.rooms i).started = (m'.rooms i).started) (hp : m''.players = m'.players)
    (he : m''.matchEnded = m'.matchEnded) : m.Rewired m'' (outs ++ outs') := by
  cases h with
  | kept hq' hf' h =>
    exact .kept (hq.trans hq') (by rw [forks_append,hf',hf]; rfl) fun i => (h i).trans (hc i)
  | spawned slot hq' hf' hu hfd hst h =>
    refine .spawned slot (hq.trans hq') (by rw [forks_append,hf',hf]; rfl) hu ((hc slot).hubFd.trans hfd)
      ((hs slot).trans hst) ?_
    exact fun i hi => (h i hi).trans (hc i)
  | closed slot hq' hf' hu hk h =>
    refine .closed slot (hq.trans hq') (by rw [forks_append,hf',hf]; rfl) ((hc slot).used.trans hu) ?_ ?_
    · rw [hp,he]
      exact hk
    · exact fun i hi => (h i hi).trans (hc i)

theorem Master.setRoom_started (m : Master) (slot : Fin maxRooms) {r : Room}
    (hs : r.started = (m.rooms slot).started) (i : Fin maxRooms) :
    ((m.setRoom slot r).rooms i).started = (m.rooms i).started := by
  by_cases h : i = slot
  · subst h
    rw [Master.setRoom_rooms_self,hs]
  · rw [m.setRoom_rooms_of_ne h]

theorem acceptClient_rewired (m : Master) (client : ℕ) (forkOk : Bool) :
    m.Rewired (acceptClient m client forkOk).1 (acceptClient m client forkOk).2 := by
  have h := fillingRoom_rewired m forkOk
  unfold acceptClient
  split
  · rename_i m' outs he
    rw [he] at h
    exact h.deal _ rfl rfl (fun _ => .refl _ _) (fun _ => rfl) rfl rfl
  · rename_i m' outs slot he
    rw [he] at h
    dsimp only
    split
    · exact h.deal _ rfl rfl (m'.setRoom_continues slot _ rfl rfl le_rfl rfl) (m'.setRoom_started slot rfl) rfl rfl
    · split
      · change m.Rewired (m'.setRoom slot _) outs
        rw [← List.append_nil outs]
        exact h.deal [] rfl rfl (m'.setRoom_continues slot _ rfl rfl le_rfl rfl) (m'.setRoom_started slot rfl)
          rfl rfl
      · exact h.deal _ rfl rfl (fun _ => .refl _ _) (fun _ => rfl) rfl rfl

theorem forks_starting {outs : List MasterOut} (h : ∀ o ∈ outs, o.starting = true) : forks outs = [] := by
  refine List.filterMap_eq_nil_iff.mpr ?_
  intro o ho
  have hs := h o ho
  cases o with
  | fork fd port idBase slot => cases hs
  | _ => rfl

theorem startAllRooms_continues (m : Master) (i : Fin maxRooms) :
    (m.rooms i).Continues ((startAllRooms m).1.rooms i) (startAllRooms m).2 := by
  rw [startAllRooms_rooms]
  refine ⟨rfl,rfl,le_rfl,?_⟩
  intro hst
  simp only [Room.begun,Bool.or_eq_true] at hst
  rcases hst with hst | hst
  · exact .inl hst
  · exact .inr (startAllRooms_start.mpr ⟨i,hst,rfl⟩)

theorem forks_broadcastRoster (m : Master) : forks (broadcastRoster m) = [] :=
  forks_starting fun _ => broadcastRoster_starting

theorem forks_sendTo (m : Master) (p : Fin maxRooms → Bool) (msg : HubMsg) : forks (m.sendTo p msg) = [] := by
  refine List.filterMap_eq_nil_iff.mpr ?_
  intro o ho
  obtain ⟨i,-,rfl⟩ := Master.mem_sendTo.mp ho
  rfl

theorem checkGlobalEnd_rooms (m : Master) :
    (checkGlobalEnd m).1.rooms = m.rooms ∧ (checkGlobalEnd m).1.roomSeq = m.roomSeq ∧
    forks (checkGlobalEnd m).2 = [] := by
  unfold checkGlobalEnd
  split
  · exact ⟨rfl,rfl,rfl⟩
  · split
    · refine ⟨rfl,rfl,?_⟩
      rw [forks_append,forks_sendTo]
      rfl
    · exact ⟨rfl,rfl,rfl⟩

theorem forks_closeOuts (fd : ℕ) (clients : List ℕ) :
    forks (MasterOut.closeHub fd :: clients.map .closeClient) = [] := by
  simp [forks]

theorem closeRoom_rooms (m : Master) (slot : Fin maxRooms) :
    (closeRoom m slot).1.rooms = (m.freeRoom slot).rooms ∧ (closeRoom m slot).1.roomSeq = m.roomSeq ∧
    forks (closeRoom m slot).2 = [] := by
  unfold closeRoom
  dsimp only
  split
  · exact ⟨rfl,rfl,forks_closeOuts _ _⟩
  · split
    · have hc := checkGlobalEnd_rooms ((m.freeRoom slot).kill fun q => decide (q.room = slot) && q.alive)
      refine ⟨hc.1,hc.2.1,?_⟩
      rw [forks_append,forks_append,forks_closeOuts,forks_broadcastRoster,hc.2.2]
      rfl
    · exact ⟨rfl,rfl,forks_closeOuts _ _⟩

theorem checkGlobalEnd_players (m : Master) : (checkGlobalEnd m).1.players = m.players := by
  unfold checkGlobalEnd
  split
  · rfl
  · split <;> rfl

/-- Nobody who played in a closed room stands, unless the match had ended. -/
theorem closeRoom_killed (m : Master) (slot : Fin maxRooms) (he : (closeRoom m slot).1.matchEnded = false) :
    ∀ p ∈ (closeRoom m slot).1.players, p.alive = true → p.room ≠ slot := by
  have hk : ∀ p ∈ ((m.freeRoom slot).kill fun q => decide (q.room = slot) && q.alive).players,
      p.alive = true → p.room ≠ slot := by
    intro p hp ha hroom
    obtain ⟨q,-,rfl⟩ := List.mem_map.mp hp
    split at ha
    · cases ha
    · rename_i hn
      rw [if_neg hn] at hroom
      simp [hroom,ha] at hn
  unfold closeRoom at he ⊢
  dsimp only at he ⊢
  split at he
  · rename_i hend
    cases hend.symm.trans he
  · rename_i hend
    rw [if_neg hend]
    split
    · rw [checkGlobalEnd_players]
      exact hk
    · exact hk

theorem closeRoom_rewired (m : Master) (slot : Fin maxRooms) :
    m.Rewired (closeRoom m slot).1 (closeRoom m slot).2 := by
  obtain ⟨hr,hq,hf⟩ := closeRoom_rooms m slot
  refine .closed slot hq hf ?_ (closeRoom_killed m slot) ?_
  · rw [hr]
    simp [Master.freeRoom]
  · intro i hi
    rw [hr,Master.freeRoom,m.setRoom_rooms_of_ne hi]
    exact .refl _ _

theorem joinPlayer_continues (m : Master) (slot : Fin maxRooms) (playerId : ℕ) (outs : List MasterOut)
    (i : Fin maxRooms) : (m.rooms i).Continues ((joinPlayer m slot playerId).rooms i) outs :=
  m.setRoom_continues slot outs (r := { m.rooms slot with joined := (m.rooms slot).joined + 1 }) rfl rfl
    (Nat.le_succ _) rfl i

theorem joined_rewired (m : Master) (slot : Fin maxRooms) (playerId : ℕ) :
    m.Rewired (handleHubMsg m slot (.joined playerId)).1 (handleHubMsg m slot (.joined playerId)).2 := by
  simp only [handleHubMsg]
  split
  · refine .kept (startAllRooms_sameMatch _).roomSeq ?_ fun i => ?_
    · rw [forks_append,forks_broadcastRoster,forks_starting fun _ => startAllRooms_outs]
      rfl
    · exact (joinPlayer_continues m slot playerId _ i).trans (startAllRooms_continues _ i)
  · exact .kept rfl (forks_broadcastRoster _) fun i => joinPlayer_continues m slot playerId _ i

theorem handleHubMsg_rewired (m : Master) (slot : Fin maxRooms) (msg : HubMsg) :
    m.Rewired (handleHubMsg m slot msg).1 (handleHubMsg m slot msg).2 := by
  cases msg with
  | ready =>
    refine .kept rfl ?_ (m.setRoom_continues slot _ rfl rfl le_rfl rfl)
    refine List.filterMap_eq_nil_iff.mpr ?_
    intro o ho
    obtain ⟨c,-,rfl⟩ := List.mem_map.mp ho
    rfl
  | joined playerId => exact joined_rewired m slot playerId
  | eliminated playerId =>
    have hc := checkGlobalEnd_rooms (m.kill fun q => q.id == playerId)
    refine .of_rooms hc.2.1 ?_ hc.1
    dsimp only [handleHubMsg]
    rw [forks_append,forks_broadcastRoster,hc.2.2]
    rfl
  | attack a =>
    refine .of_rooms rfl ?_ rfl
    dsimp only [handleHubMsg,routeAttack]
    split
    · split <;> rfl
    · rfl
  | feed a => exact .of_rooms rfl (forks_sendTo _ _ _) rfl
  | _ => exact .of_rooms rfl rfl rfl

theorem Master.Step.rewired {m : Master} {ev : MasterEvent} {r : MasterReply} (h : Master.Step m ev r) :
    m.Rewired r.1 r.2 := by
  cases h with
  | accept client forkOk => exact acceptClient_rewired m client forkOk
  | enter =>
    refine .kept (startAllRooms_sameMatch m).roomSeq ?_ (startAllRooms_continues m)
    exact forks_starting fun _ => startAllRooms_outs
  | recv slot msg hu => exact handleHubMsg_rewired m slot msg
  | close slot hu => exact closeRoom_rewired m slot
  | endPass stopRequested => exact .of_rooms rfl rfl rfl

theorem closeRoom_addresses (m : Master) (slot : Fin maxRooms) : m.Addresses (closeRoom m slot).2 := by
  have hc := (clerical_closeOuts (m.rooms slot).hubFd (m.rooms slot).pendingFds).addresses m
  have hfree : ∀ i, ((m.freeRoom slot).rooms i).used = true → (m.rooms i).used = true ∧
      ((m.freeRoom slot).rooms i).hubFd = (m.rooms i).hubFd := by
    intro i hu
    unfold Master.freeRoom at hu ⊢
    by_cases hi : i = slot
    · subst hi
      rw [Master.setRoom_rooms_self] at hu
      cases hu
    · rw [m.setRoom_rooms_of_ne hi] at hu ⊢
      exact ⟨hu,rfl⟩
  unfold closeRoom
  dsimp only
  split
  · exact hc
  · split
    · refine (hc.append ?_).append ?_
      · exact (broadcastRoster_addresses ((m.freeRoom slot).kill _)).mono hfree
      · exact (checkGlobalEnd_addresses ((m.freeRoom slot).kill _)).mono hfree
    · exact hc

theorem handleHubMsg_addresses (m : Master) (slot : Fin maxRooms) (msg : HubMsg) :
    m.Addresses (handleHubMsg m slot msg).2 := by
  have hnil : m.Addresses [] := fun fd msg h => (by cases h)
  cases msg with
  | ready => exact (ready_clerical m slot).addresses m
  | joined playerId =>
    have hj : ∀ i, ((joinPlayer m slot playerId).rooms i).used = true → (m.rooms i).used = true ∧
        ((joinPlayer m slot playerId).rooms i).hubFd = (m.rooms i).hubFd := by
      intro i hu
      have hc := joinPlayer_continues m slot playerId [] i
      exact ⟨hc.used ▸ hu,hc.hubFd⟩
    have hb := (broadcastRoster_addresses (joinPlayer m slot playerId)).mono hj
    simp only [handleHubMsg]
    split
    · exact hb.append ((startAllRooms_addresses _).mono hj)
    · exact hb
  | eliminated playerId =>
    exact (broadcastRoster_addresses (m.kill fun q => q.id == playerId)).append
      (checkGlobalEnd_addresses (m.kill fun q => q.id == playerId))
  | attack a =>
    change m.Addresses (routeAttack m a)
    unfold routeAttack
    split
    · rename_i p hp
      dsimp only
      split
      · rename_i hrun
        intro fd msg hm
        cases List.mem_singleton.mp hm
        exact ⟨p.room,(Bool.and_eq_true_iff.mp hrun).1,rfl⟩
      · exact hnil
    · exact hnil
  | feed a =>
    refine sendTo_addresses (fun i hi => ?_) _
    simp only [Room.running,Bool.and_eq_true] at hi
    exact hi.2.1
  | _ => exact hnil

theorem Master.Step.addresses {m : Master} {ev : MasterEvent} {q : MasterReply} (h : Master.Step m ev q) :
    m.Addresses q.2 := by
  cases h with
  | accept client forkOk => exact (acceptClient_clerical m client forkOk).2.2.addresses m
  | enter => exact startAllRooms_addresses m
  | recv slot msg hu => exact handleHubMsg_addresses m slot msg
  | close slot hu => exact closeRoom_addresses m slot
  | endPass stopRequested => exact fun fd msg h => (by cases h)

/-- Two rooms in use never share a hub, and no hub has a name not yet given. -/
structure Master.Wired (m : Master) : Prop where
  lt : ∀ i, (m.rooms i).used = true → (m.rooms i).hubFd < m.roomSeq
  inj : ∀ i j, (m.rooms i).used = true → (m.rooms j).used = true → (m.rooms i).hubFd = (m.rooms j).hubFd → i = j

theorem Master.init_wired (roomSize : ℕ) : (Master.init roomSize).Wired :=
  ⟨fun i h => (by cases h),fun i j h => (by cases h)⟩

theorem Master.Wired.extend {m m' : Master} (h : m.Wired) (fresh : Fin maxRooms → Prop)
    (hq : m.roomSeq ≤ m'.roomSeq)
    (hold : ∀ i, (m'.rooms i).used = true → ¬fresh i → (m.rooms i).used = true ∧ (m'.rooms i).hubFd = (m.rooms i).hubFd)
    (hnew : ∀ i, fresh i → (m'.rooms i).hubFd = m.roomSeq ∧ m.roomSeq < m'.roomSeq)
    (hone : ∀ i j, fresh i → fresh j → i = j) : m'.Wired := by
  have hlt : ∀ i, (m'.rooms i).used = true → ¬fresh i → (m'.rooms i).hubFd < m.roomSeq := by
    intro i hi hf
    obtain ⟨hu,he⟩ := hold i hi hf
    rw [he]
    exact h.lt i hu
  refine ⟨fun i hi => ?_,fun i j hi hj he => ?_⟩
  · by_cases hf : fresh i
    · obtain ⟨he,hs⟩ := hnew i hf
      omega
    · have := hlt i hi hf
      omega
  · by_cases hfi : fresh i <;> by_cases hfj : fresh j
    · exact hone i j hfi hfj
    · have := hlt j hj hfj
      have := (hnew i hfi).1
      omega
    · have := hlt i hi hfi
      have := (hnew j hfj).1
      omega
    · obtain ⟨hui,hei⟩ := hold i hi hfi
      obtain ⟨huj,hej⟩ := hold j hj hfj
      exact h.inj i j hui huj (hei.symm.trans (he.trans hej))

theorem Master.Wired.rewired {m m' : Master} {outs : List MasterOut} (h : m.Wired) (hr : m.Rewired m' outs) :
    m'.Wired := by
  cases hr with
  | kept hq hf hc =>
    refine h.extend (fun _ => False) hq.ge (fun i hi _ => ?_) (fun i hf => hf.elim) fun i j hf => hf.elim
    exact ⟨(hc i).used ▸ hi,(hc i).hubFd⟩
  | spawned slot hq hf hu hfd hs hc =>
    refine h.extend (· = slot) (by omega) (fun i hi hne => ?_) (fun i hf => ?_) fun i j hi hj => hi.trans hj.symm
    · exact ⟨(hc i hne).used ▸ hi,(hc i hne).hubFd⟩
    · subst hf
      exact ⟨hfd,by omega⟩
  | closed slot hq hf hu hk hc =>
    refine h.extend (fun _ => False) hq.ge (fun i hi _ => ?_) (fun i hf => hf.elim) fun i j hf => hf.elim
    have hne : i ≠ slot := fun he => by
      rw [he,hu] at hi
      cases hi
    exact ⟨(hc i hne).used ▸ hi,(hc i hne).hubFd⟩

theorem countP_le_one_of_nodup {α : Type*} {l : List α} (hn : l.Nodup) {q : α → Bool}
    (h : ∀ x ∈ l, ∀ y ∈ l, q x = true → q y = true → x = y) : l.countP q ≤ 1 := by
  induction l with
  | nil => simp
  | cons a l ih =>
    obtain ⟨ha,hl⟩ := List.nodup_cons.mp hn
    have hrest := ih hl fun x hx y hy => h x (List.mem_cons_of_mem _ hx) y (List.mem_cons_of_mem _ hy)
    by_cases hq : q a = true
    · have hz : l.countP q = 0 := by
        refine List.countP_eq_zero.mpr ?_
        intro x hx hqx
        exact ha (h a List.mem_cons_self x (List.mem_cons_of_mem _ hx) hq hqx ▸ hx)
      simp [hq,hz]
    · simpa [hq] using hrest

/-- Rooms in use have distinct hubs, so one loop over the table writes to each hub at most once. -/
theorem countP_sendTo_le {m : Master} (h : m.Wired) {p : Fin maxRooms → Bool}
    (hp : ∀ i, p i = true → (m.rooms i).used = true) (msg : HubMsg) (q : MasterOut → Bool) (fd : ℕ)
    (hq : ∀ fd', q (.send fd' msg) = true → fd' = fd) : (m.sendTo p msg).countP q ≤ 1 := by
  unfold Master.sendTo
  rw [List.countP_map]
  refine countP_le_one_of_nodup ((List.nodup_finRange maxRooms).filter _) ?_
  intro i hi j hj hqi hqj
  refine h.inj i j (hp i (List.mem_filter.mp hi).2) (hp j (List.mem_filter.mp hj).2) ?_
  exact (hq _ hqi).trans (hq _ hqj).symm

end CoreStack.Tetrisd
