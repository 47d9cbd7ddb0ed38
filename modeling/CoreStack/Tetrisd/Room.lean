import CoreStack.Tetrisd.Game
import CoreStack.Tetrisd.Master

/-! # One room worker (`room.c`, lobby part of libbattleroyale's `server.c`)

The worker is a program counter over its two loops. A step handles one message,
one slot of a pass or one loop head; it returns what was sent to the master and
a record of the calls later statements count.
-/
namespace CoreStack.Tetrisd
open Tetris

/-- A `queue_garbage` call with the slot as it was before the call. `remote` tells
the call in `apply_remote_garbage` from the one in the routing pass. -/
structure QueueCall where
  serial : ℕ
  remote : Bool
  slot : ℕ
  lines : ℤ
  playerId : ℕ
  active : Bool
  gameOver : Bool
  before : ℕ
  after : ℕ
  deriving DecidableEq, Repr

/-- What the routing pass does with the damage it reads. -/
inductive Fate
  | here
  | away
  | dropped
  deriving DecidableEq, Repr

inductive RoomObs
  | added (id : ℕ)
  | started
  | ticked
  | locked (slot : ℕ) (damage : ℤ) (before : ℕ)
  | elimSent (playerId : ℕ)
  | consumed (serial slot attackerId victimId lines : ℕ) (fate : Fate)
  | queued (call : QueueCall)
  | feed (serial : ℕ)
  | gotGarbage (a : HubAttack) (playing live : Bool)
  | gotFeed (serial : ℕ)
  | gotGameOver
  deriving DecidableEq, Repr

/-! ## The lobby of libbattleroyale -/

/-- The accept loop handles one connection at a time: the id is taken at the
accept, the client joins the list when its handshake ends well. `accepted`
counts the connections so far and is never read. -/
structure Server where
  nextId : ℕ
  accepted : ℕ
  pending : Option ℕ
  clients : List ℕ
  lobby : Bool

def Server.init (idBase : ℕ) : Server := ⟨idBase,0,none,[],false⟩

def Server.accept (s : Server) : Option Server :=
  if s.lobby && s.pending.isNone then
    some { s with
      nextId := (s.nextId + 1) % 4294967296
      accepted := s.accepted + 1
      pending := some s.nextId }
  else none

/-- A failed handshake goes to `cleanup` and only forgets the connection. -/
def Server.finish (s : Server) (ok : Bool) : Option (Server × List RoomObs) :=
  s.pending.map fun id =>
    if ok then ({ s with pending := none, clients := s.clients ++ [id] }, [.added id])
    else ({ s with pending := none }, [])

/-! ## Garbage routing -/

def lookup (session : GameSession) (playerId : ℕ) : Option (ℕ × PlayerSlot) :=
  session.slotAt (findPlayer session playerId)

/-- Random draws over the whole match, KO retaliates across rooms, the rest is local. -/
def resolveVictim (draw : ℕ) (session : GameSession) (attacker : PlayerSlot) (global : HubRoster) : ℕ :=
  let s := attacker.state
  let candidates := (global.filter fun e => e.id != attacker.playerId && e.alive).map (·.id)
  if s.targetMode = .random ∧ 0 < candidates.length then candidates.getD (draw % candidates.length) 0
  else if s.targetMode = .ko ∧ s.lastAttackerId ≠ 0 ∧ s.lastAttackerId ≠ attacker.playerId ∧
      global.any (fun e => e.id == s.lastAttackerId && e.alive) then s.lastAttackerId
  else resolveTargetId draw s session.roster

def PlayerSlot.hit (v : PlayerSlot) (attackerId lines : ℕ) : PlayerSlot :=
  { v with
    state := { queueGarbage v.state (toI32 lines) with lastAttackerId := attackerId }
    dirty := true }

/-- The attack reaches slot `j` of this room and shows in its kill feed. -/
def landAttack (remote : Bool) (session : GameSession) (j : ℕ) (v : PlayerSlot) (a : HubAttack) :
    GameSession × List RoomObs :=
  let v' := v.hit a.attackerId a.lines
  (session.setSlot j v',
    [.queued ⟨a.serial,remote,j,toI32 a.lines,v.playerId,v.active,v.state.gameOver,
      v.state.pendingGarbage,v'.state.pendingGarbage⟩, .feed a.serial])

structure Routed where
  session : GameSession
  sent : List HubMsg
  obs : List RoomObs

/-- One iteration of the routing pass, for the slot `i` it stands at. -/
def routeSlot (serial draw : ℕ) (session : GameSession) (global : HubRoster) (i : ℕ)
    (p : PlayerSlot) : Routed :=
  if p.state.outgoingGarbage = 0 then ⟨session,[],[]⟩
  else
    let attacker := { p with state := { p.state with outgoingGarbage := 0 } }
    let session := session.setSlot i attacker
    let victimId := resolveVictim draw session attacker global
    let a : HubAttack := ⟨attacker.playerId,victimId,p.state.outgoingGarbage,serial⟩
    let consumed := RoomObs.consumed serial i a.attackerId a.victimId a.lines
    match lookup session victimId with
    | some (j,v) =>
      if j ≠ i ∧ v.state.gameOver = false then
        let r := landAttack false session j v a
        ⟨r.1,[.feed a],consumed .here :: r.2⟩
      else ⟨session,[],[consumed .dropped]⟩
    | none =>
      if victimId ≠ 0 ∧ victimId ≠ attacker.playerId then
        ⟨session,[.attack a, .feed a],[consumed .away, .feed serial]⟩
      else ⟨session,[],[consumed .dropped]⟩

/-- Garbage forwarded by the master; a victim that died meanwhile is ignored. -/
def applyRemoteGarbage (session : GameSession) (a : HubAttack) : GameSession × List RoomObs :=
  match lookup session a.victimId with
  | some (j,v) => if v.state.gameOver then (session,[]) else landAttack true session j v a
  | none => (session,[])

/-! ## The worker -/

inductive Pc
  | boot
  | lobbyPoll
  | lobbyDrain
  | lobbyCheck
  | drainClients (drained : ℕ)
  | drainHub
  | tick
  | report (slot : ℕ)
  | route (slot : ℕ)
  | push
  | conclude
  | exited
  deriving DecidableEq, Repr

structure Worker where
  pc : Pc
  server : Server
  clientIds : List ℕ
  reported : ℕ
  startOrdered : Bool
  expected : ℕ
  globalRoster : HubRoster
  session : GameSession
  matchOver : Bool
  winnerId : ℕ

def Worker.init (idBase : ℕ) : Worker where
  pc := .boot
  server := .init idBase
  clientIds := []
  reported := 0
  startOrdered := false
  expected := 0
  globalRoster := []
  session := ⟨[],[]⟩
  matchOver := false
  winnerId := 0

abbrev maxMsgsPerTick : ℕ := 64
abbrev keepaliveTicks : ℕ := 50

/-- An application message after parsing; only a well-formed action is performed. -/
inductive AppMsg
  | ignored
  | action (senderId : ℕ) (action : PlayerAction)

/-- The choices outside the worker: randomness, clock, client traffic. -/
inductive Input
  | boot (bound : Bool)
  | poll
  | recv
  | check (graceOver : Bool) (rand : ℕ → ℕ → ℕ)
  | client (m : AppMsg) (rand : ℕ → ℕ)
  | clientsDone
  | tick (rand : ℕ → ℕ → ℕ)
  | report
  | route (draw : ℕ)
  | push
  | conclude

structure Effect where
  worker : Worker
  sent : List HubMsg
  obs : List RoomObs

def Worker.quiet (w : Worker) : Effect := ⟨w,[],[]⟩

/-- `exit` in the middle of the program. -/
def Worker.exit (w : Worker) : Effect := { w with pc := .exited }.quiet

def bootStep (w : Worker) (bound : Bool) : Effect :=
  if bound then
    ⟨{ w with pc := .lobbyPoll, server := { w.server with lobby := true } },[.ready],[]⟩
  else w.exit

/-- `brserver_client_info` copies the whole list into an array of
`maxLobbySize` ids; a longer list would overrun it, so it has no step. -/
def pollStep (w : Worker) : Option Effect :=
  if w.server.clients.length ≤ maxLobbySize then
    some ⟨{ w with
        pc := .lobbyDrain
        clientIds := w.server.clients
        reported := max w.reported w.server.clients.length },
      (w.server.clients.drop w.reported).map .joined,[]⟩
  else none

/-- The lobby loop keeps two kinds of messages and drops the others. -/
def lobbyRecv (w : Worker) : HubRecv → Effect
  | .msg (.start n) => { w with startOrdered := true, expected := n }.quiet
  | .msg (.roster r) => { w with globalRoster := r }.quiet
  | .msg (.garbage a) => ⟨w,[],[.gotGarbage a false (w.clientIds.contains a.victimId)]⟩
  | .msg (.gameOver _) => ⟨w,[],[.gotGameOver]⟩
  | .msg _ => w.quiet
  | .empty => { w with pc := .lobbyCheck }.quiet
  | .closed => w.exit

def checkStep (w : Worker) (graceOver : Bool) (rand : ℕ → ℕ → ℕ) : Effect :=
  if w.startOrdered ∧ (w.clientIds.length ≥ w.expected ∨ graceOver) then
    if w.clientIds.length = 0 then w.exit
    else
      ⟨{ w with
          pc := .drainClients 0
          server := { w.server with lobby := false }
          session := initSession rand w.clientIds },[],[.started]⟩
  else { w with pc := .lobbyPoll }.quiet

def lockedObs (i : ℕ) (p : PlayerSlot) (lock : Option ℤ) : List RoomObs :=
  match lock with
  | some d => [.locked i d p.state.outgoingGarbage]
  | none => []

def clientStep (w : Worker) (drained : ℕ) (m : AppMsg) (rand : ℕ → ℕ) : Option Effect :=
  if drained < maxMsgsPerTick then
    let w := { w with pc := .drainClients (drained + 1) }
    match m with
    | .ignored => some w.quiet
    | .action senderId action =>
      some ⟨{ w with session := applyAction rand w.session (findPlayer w.session senderId) action },[],
        match lookup w.session senderId with
        | some (i,p) => lockedObs i p (actionLock action p)
        | none => []⟩
  else none

/-- Whether the victim of a garbage message plays here and is still in the game. -/
def GameSession.live (session : GameSession) (playerId : ℕ) : Bool :=
  (lookup session playerId).any fun q => !q.2.state.gameOver

def hubStep (w : Worker) : HubRecv → Effect
  | .msg (.garbage a) =>
    let r := applyRemoteGarbage w.session a
    ⟨{ w with session := r.1 },[],.gotGarbage a true (w.session.live a.victimId) :: r.2⟩
  | .msg (.feed a) => ⟨w,[],[.gotFeed a.serial, .feed a.serial]⟩
  | .msg (.roster r) => { w with globalRoster := r }.quiet
  | .msg (.gameOver winnerId) => ⟨{ w with winnerId := winnerId, matchOver := true },[],[.gotGameOver]⟩
  | .msg _ => w.quiet
  | .empty => { w with pc := if w.matchOver then .conclude else .tick }.quiet
  | .closed => { w with pc := .conclude, matchOver := true }.quiet

def tickStep (w : Worker) (rand : ℕ → ℕ → ℕ) : Effect :=
  ⟨{ w with pc := .report 0, session := tickSession rand w.session },[],
    .ticked :: w.session.players.zipIdx.flatMap fun q => lockedObs q.2 q.1 (slotLock q.1)⟩

/-- An elimination is reported once a player, in slot order. -/
def reportStep (w : Worker) (i : ℕ) : Effect :=
  match w.session.players[i]? with
  | none => { w with pc := .route 0 }.quiet
  | some p =>
    let w := { w with pc := .report (i + 1) }
    if (p.state.gameOver || !p.active) && !p.elimReported then
      ⟨{ w with session := w.session.setSlot i { p with elimReported := true } },
        [.eliminated p.playerId],[.elimSent p.playerId]⟩
    else w.quiet

def routeStep (serial : ℕ) (w : Worker) (i draw : ℕ) : Effect :=
  match w.session.players[i]? with
  | none => { w with pc := .push }.quiet
  | some p =>
    let r := routeSlot serial draw w.session w.globalRoster i p
    ⟨{ w with pc := .route (i + 1), session := r.session },r.sent,r.obs⟩

def pushSlot (p : PlayerSlot) : PlayerSlot :=
  if !p.dirty && p.idleTicks < keepaliveTicks then { p with idleTicks := p.idleTicks + 1 }
  else { p with dirty := false, idleTicks := 0 }

def pushStep (w : Worker) : Effect :=
  { w with
    pc := .drainClients 0
    session := { w.session with players := w.session.players.map pushSlot } }.quiet

def finishSlot (winnerId : ℕ) (p : PlayerSlot) : PlayerSlot :=
  if p.active then { p with state := { p.state with gameOver := true, winnerId := winnerId } } else p

def concludeStep (w : Worker) : Effect :=
  { w with
    session := { w.session with players := w.session.players.map (finishSlot w.winnerId) } }.exit

/-- Which inputs each program point accepts. `serial` names this step. -/
def Worker.step (serial : ℕ) (hub : HubRecv) (w : Worker) (input : Input) : Option Effect :=
  match w.pc, input with
  | .boot, .boot bound => some (bootStep w bound)
  | .lobbyPoll, .poll => pollStep w
  | .lobbyDrain, .recv => some (lobbyRecv w hub)
  | .lobbyCheck, .check graceOver rand => some (checkStep w graceOver rand)
  | .drainClients n, .client m rand => clientStep w n m rand
  | .drainClients _, .clientsDone => some { w with pc := .drainHub }.quiet
  | .drainHub, .recv => some (hubStep w hub)
  | .tick, .tick rand => some (tickStep w rand)
  | .report i, .report => some (reportStep w i)
  | .route i, .route draw => some (routeStep serial w i draw)
  | .push, .push => some (pushStep w)
  | .conclude, .conclude => some (concludeStep w)
  | _, _ => none

/-- The steps by program point: every statement about a worker step is a case
analysis over these constructors. -/
inductive Worker.Step (serial : ℕ) (hub : HubRecv) (w : Worker) : Input → Effect → Prop
  | boot (bound : Bool) (hpc : w.pc = .boot) : Step serial hub w (.boot bound) (bootStep w bound)
  | poll {e : Effect} (hpc : w.pc = .lobbyPoll) (he : pollStep w = some e) : Step serial hub w .poll e
  | lobbyRecv (hpc : w.pc = .lobbyDrain) : Step serial hub w .recv (lobbyRecv w hub)
  | check (graceOver : Bool) (rand : ℕ → ℕ → ℕ) (hpc : w.pc = .lobbyCheck) :
      Step serial hub w (.check graceOver rand) (checkStep w graceOver rand)
  | client {e : Effect} (n : ℕ) (m : AppMsg) (rand : ℕ → ℕ) (hpc : w.pc = .drainClients n)
      (he : clientStep w n m rand = some e) : Step serial hub w (.client m rand) e
  | clientsDone (n : ℕ) (hpc : w.pc = .drainClients n) :
      Step serial hub w .clientsDone { w with pc := .drainHub }.quiet
  | hubRecv (hpc : w.pc = .drainHub) : Step serial hub w .recv (hubStep w hub)
  | tick (rand : ℕ → ℕ → ℕ) (hpc : w.pc = .tick) : Step serial hub w (.tick rand) (tickStep w rand)
  | report (i : ℕ) (hpc : w.pc = .report i) : Step serial hub w .report (reportStep w i)
  | route (i draw : ℕ) (hpc : w.pc = .route i) : Step serial hub w (.route draw) (routeStep serial w i draw)
  | push (hpc : w.pc = .push) : Step serial hub w .push (pushStep w)
  | conclude (hpc : w.pc = .conclude) : Step serial hub w .conclude (concludeStep w)

theorem Worker.step_inv {serial : ℕ} {hub : HubRecv} {w : Worker} {input : Input} {e : Effect}
    (h : w.step serial hub input = some e) : Worker.Step serial hub w input e := by
  unfold Worker.step at h
  split at h
  · cases h; exact .boot _ ‹_›
  · exact .poll ‹_› h
  · cases h; exact .lobbyRecv ‹_›
  · cases h; exact .check _ _ ‹_›
  · exact .client _ _ _ ‹_› h
  · cases h; exact .clientsDone _ ‹_›
  · cases h; exact .hubRecv ‹_›
  · cases h; exact .tick _ ‹_›
  · cases h; exact .report _ ‹_›
  · cases h; exact .route _ _ ‹_›
  · cases h; exact .push ‹_›
  · cases h; exact .conclude ‹_›
  · cases h

end CoreStack.Tetrisd
