import Mathlib.Data.List.FinRange
import Mathlib.Tactic.Common

/-! # The match master and its hub (`main.c`, `hub.h`)

The master is a machine over its two tables. An event is one connection, one
ENTER, one hub message or one closed hub; the outputs list what the master sends
and does, in order.
-/
namespace CoreStack.Tetrisd

/-! ## Hub messages between the master and its room workers -/

abbrev maxLobbySize : ℕ := 2
def maxRooms : ℕ := 32
def hubMaxPlayers : ℕ := maxRooms * maxLobbySize

/-- One garbage attack. `serial` is a history variable: it names the routing
decision the attack came from, is copied with the attack and never read. -/
structure HubAttack where
  attackerId : ℕ
  victimId : ℕ
  lines : ℕ
  serial : ℕ
  deriving DecidableEq, Repr

structure HubRosterEntry where
  id : ℕ
  alive : Bool
  deriving DecidableEq, Repr

/-- The first `count` entries of the master's view. -/
abbrev HubRoster := List HubRosterEntry

inductive HubMsg
  | ready
  | joined (playerId : ℕ)
  | attack (a : HubAttack)
  | eliminated (playerId : ℕ)
  | feed (a : HubAttack)
  | start (expectedPlayers : ℕ)
  | garbage (a : HubAttack)
  | roster (r : HubRoster)
  | gameOver (winnerId : ℕ)
  deriving DecidableEq, Repr

/-- What the non-blocking `hub_recv` can report. -/
inductive HubRecv
  | msg (m : HubMsg)
  | empty
  | closed
  deriving DecidableEq, Repr

/-! ## The master -/

abbrev roomPortBase : ℕ := 6710

structure Room where
  used : Bool
  ready : Bool
  started : Bool
  hubFd : ℕ
  port : ℕ
  redirected : ℕ
  joined : ℕ
  pendingFds : List ℕ

def Room.unused : Room := ⟨false,false,false,0,0,0,0,[]⟩

def Room.running (r : Room) : Bool := r.used && r.started

/-- `fd` is a history variable: the hub of the worker that reported the player. -/
structure PlayerRec where
  id : ℕ
  room : Fin maxRooms
  alive : Bool
  fd : ℕ

/-- The hub of the `n`-th room ever spawned has the name `n`, so `roomSeq` is the
next name. `stopped` says that the main loop has been left. -/
structure Master where
  rooms : Fin maxRooms → Room
  players : List PlayerRec
  roomSeq : ℕ
  roomSize : ℕ
  anyRoomStarted : Bool
  matchEnded : Bool
  stopped : Bool

def Master.init (roomSize : ℕ) : Master := ⟨fun _ => .unused,[],0,roomSize,false,false,false⟩

inductive MasterOut
  | fork (fd port idBase : ℕ) (slot : Fin maxRooms)
  | redirect (client port : ℕ)
  | closeClient (client : ℕ)
  | send (fd : ℕ) (m : HubMsg)
  | closeHub (fd : ℕ)
  | matchOver (winnerId : ℕ)
  deriving DecidableEq, Repr

abbrev MasterReply := Master × List MasterOut

def Master.setRoom (m : Master) (slot : Fin maxRooms) (r : Room) : Master :=
  { m with rooms := Function.update m.rooms slot r }

/-- One loop over the room table that sends `msg` to the rooms `p` selects. -/
def Master.sendTo (m : Master) (p : Fin maxRooms → Bool) (msg : HubMsg) : List MasterOut :=
  ((List.finRange maxRooms).filter p).map fun i => .send (m.rooms i).hubFd msg

/-! ## Rooms -/

/-- `forkOk` says whether the socket pair and the fork succeed. -/
def spawnRoom (m : Master) (forkOk : Bool) : MasterReply × Option (Fin maxRooms) :=
  match (List.finRange maxRooms).find? fun i => !(m.rooms i).used with
  | none => ((m,[]),none)
  | some slot =>
    if forkOk then
      let port := (roomPortBase + slot) % 65536
      let room := { Room.unused with used := true, hubFd := m.roomSeq, port := port }
      (({ m.setRoom slot room with roomSeq := m.roomSeq + 1 },
        [.fork m.roomSeq port ((1 + m.roomSeq * maxLobbySize) % 4294967296) slot]),some slot)
    else ((m,[]),none)

def fillingRoom (m : Master) (forkOk : Bool) : MasterReply × Option (Fin maxRooms) :=
  match (List.finRange maxRooms).find? fun i =>
      (m.rooms i).used && !(m.rooms i).started && (m.rooms i).redirected < m.roomSize with
  | some slot => ((m,[]),some slot)
  | none => spawnRoom m forkOk

def acceptClient (m : Master) (client : ℕ) (forkOk : Bool) : MasterReply :=
  match fillingRoom m forkOk with
  | ((m,outs),none) => (m,outs ++ [.closeClient client])
  | ((m,outs),some slot) =>
    let room := m.rooms slot
    if room.ready then
      (m.setRoom slot { room with redirected := room.redirected + 1 },
        outs ++ [.redirect client room.port])
    else if room.pendingFds.length < maxLobbySize then
      (m.setRoom slot { room with
        redirected := room.redirected + 1
        pendingFds := room.pendingFds ++ [client] },outs)
    else (m,outs ++ [.closeClient client])

/-! ## Global match tracking -/

def Master.roster (m : Master) : HubRoster := m.players.map fun p => ⟨p.id,p.alive⟩

def broadcastRoster (m : Master) : List MasterOut :=
  m.sendTo (fun i => (m.rooms i).running) (.roster m.roster)

def startRoom (m : Master) (slot : Fin maxRooms) : MasterReply :=
  let room := m.rooms slot
  if !room.used || room.started || room.joined < 1 then (m,[])
  else
    let m' := { m.setRoom slot { room with started := true } with anyRoomStarted := true }
    (m',.send room.hubFd (.start room.redirected) :: broadcastRoster m')

@[irreducible] def startAllRooms (m : Master) : MasterReply :=
  (List.finRange maxRooms).foldl (fun r slot =>
    let s := startRoom r.1 slot; (s.1,r.2 ++ s.2)) (m,[])

def Master.alive (m : Master) : List PlayerRec := m.players.filter (·.alive)

/-- Solo runs until top out, a shared match until one player stands. -/
def Master.isOver (m : Master) : Bool :=
  if 2 ≤ m.players.length then m.alive.length ≤ 1 else m.alive.length = 0

def Master.winnerId (m : Master) : ℕ :=
  if m.alive.length = 1 then (m.alive.getLast?.map (·.id)).getD 0 else 0

def checkGlobalEnd (m : Master) : MasterReply :=
  if m.matchEnded || m.players.length = 0 then (m,[])
  else if m.isOver then
    ({ m with matchEnded := true },
      m.sendTo (fun i => (m.rooms i).used) (.gameOver m.winnerId) ++ [.matchOver m.winnerId])
  else (m,[])

def Master.kill (m : Master) (p : PlayerRec → Bool) : Master :=
  { m with players := m.players.map fun q => if p q then { q with alive := false } else q }

def Master.freeRoom (m : Master) (slot : Fin maxRooms) : Master :=
  m.setRoom slot { m.rooms slot with used := false }

def closeRoom (m : Master) (slot : Fin maxRooms) : MasterReply :=
  let room := m.rooms slot
  let outs := .closeHub room.hubFd :: room.pendingFds.map .closeClient
  let m := m.freeRoom slot
  if m.matchEnded then (m,outs)
  else
    let hit := fun q : PlayerRec => decide (q.room = slot) && q.alive
    let m' := m.kill hit
    if m.players.any hit then
      let r := checkGlobalEnd m'
      (r.1,outs ++ broadcastRoster m' ++ r.2)
    else (m',outs)

/-! ## Hub traffic -/

/-- A record is added while the table has room; the room's own count always grows. -/
def joinPlayer (m : Master) (slot : Fin maxRooms) (playerId : ℕ) : Master :=
  let room := m.rooms slot
  { m.setRoom slot { room with joined := room.joined + 1 } with
    players := if m.players.length < hubMaxPlayers
      then m.players ++ [⟨playerId,slot,true,room.hubFd⟩] else m.players }

/-- The first living record of the victim decides; the loop stops there. -/
def routeAttack (m : Master) (a : HubAttack) : List MasterOut :=
  match m.players.find? fun p => p.id == a.victimId && p.alive with
  | some p =>
    let target := m.rooms p.room
    if target.used && target.started then [.send target.hubFd (.garbage a)] else []
  | none => []

def handleHubMsg (m : Master) (slot : Fin maxRooms) : HubMsg → MasterReply
  | .ready =>
    let room := m.rooms slot
    (m.setRoom slot { room with ready := true, pendingFds := [] },
      room.pendingFds.map fun client => .redirect client room.port)
  | .joined playerId =>
    let m := joinPlayer m slot playerId
    if m.players.length ≥ m.roomSize * maxRooms then
      let r := startAllRooms m
      (r.1,broadcastRoster m ++ r.2)
    else (m,broadcastRoster m)
  | .eliminated playerId =>
    let m := m.kill fun q => q.id == playerId
    let r := checkGlobalEnd m
    (r.1,broadcastRoster m ++ r.2)
  | .attack a => (m,routeAttack m a)
  | .feed a => (m,m.sendTo (fun i => decide (i ≠ slot) && (m.rooms i).running) (.feed a))
  | _ => (m,[])

/-! ## Main loop -/

inductive MasterEvent
  | accept (client : ℕ) (forkOk : Bool)
  | enter
  | recv (slot : Fin maxRooms) (msg : HubMsg)
  | close (slot : Fin maxRooms)
  | endPass (stopRequested : Bool)

/-- The daemon is done once a match ran and every room wound down. -/
def Master.finished (m : Master) : Bool :=
  m.anyRoomStarted && (List.finRange maxRooms).all fun i => !(m.rooms i).used

def firstSlot : Fin maxRooms := ⟨0,by decide⟩

def secondSlot : Fin maxRooms := ⟨1,by decide⟩

/-- Only rooms in use are polled and closed; after the loop every room left is closed. -/
def Master.step (m : Master) : MasterEvent → Option MasterReply
  | .accept client forkOk => if m.stopped then none else some (acceptClient m client forkOk)
  | .enter => if m.stopped then none else some (startAllRooms m)
  | .recv slot msg =>
    if !m.stopped && (m.rooms slot).used then some (handleHubMsg m slot msg) else none
  | .close slot => if (m.rooms slot).used then some (closeRoom m slot) else none
  | .endPass stopRequested => some ({ m with stopped := m.stopped || stopRequested || m.finished },[])

/-- The events by kind, with what each needs. -/
inductive Master.Step (m : Master) : MasterEvent → MasterReply → Prop
  | accept (client : ℕ) (forkOk : Bool) : Step m (.accept client forkOk) (acceptClient m client forkOk)
  | enter : Step m .enter (startAllRooms m)
  | recv (slot : Fin maxRooms) (msg : HubMsg) (hu : (m.rooms slot).used = true) :
      Step m (.recv slot msg) (handleHubMsg m slot msg)
  | close (slot : Fin maxRooms) (hu : (m.rooms slot).used = true) : Step m (.close slot) (closeRoom m slot)
  | endPass (stopRequested : Bool) :
      Step m (.endPass stopRequested) ({ m with stopped := m.stopped || stopRequested || m.finished },[])

theorem Master.step_inv {m : Master} {ev : MasterEvent} {r : MasterReply} (h : m.step ev = some r) :
    Master.Step m ev r := by
  cases ev with
  | accept client forkOk =>
    simp only [Master.step] at h
    split at h
    · cases h
    · obtain rfl := Option.some.inj h
      exact .accept client forkOk
  | enter =>
    simp only [Master.step] at h
    split at h
    · cases h
    · obtain rfl := Option.some.inj h
      exact .enter
  | recv slot msg =>
    simp only [Master.step] at h
    split at h
    · rename_i hc
      obtain rfl := Option.some.inj h
      exact .recv slot msg (Bool.and_eq_true_iff.mp hc).2
    · cases h
  | close slot =>
    simp only [Master.step] at h
    split at h
    · obtain rfl := Option.some.inj h
      exact .close slot ‹_›
    · cases h
  | endPass stopRequested =>
    obtain rfl := Option.some.inj h
    exact .endPass stopRequested

end CoreStack.Tetrisd
