import CoreStack.BattleRoyale.Broadcast
import CoreStack.Bomberman.Session
import CoreStack.Lib.Execution
import CoreStack.Tetris.State
import CoreStack.Tetrisd.Master

/-! # From the lobby to the match (`server.c`, tetrisd's `room.c`, bombd's `main.c`)

Three kinds of threads take turns: the listener of libbattleroyale, which accepts
clients and tells them to start, the main thread of the daemon, which polls the
client list, starts the game and sends to it, and the listener of every client.
The server's `state` is all that the first two agree by.
-/
namespace CoreStack.Daemons
open BattleRoyale

inductive Daemon
  | tetrisd
  | bombd
  deriving DecidableEq, Repr

/-- The length of the array that `brserver_client_info` writes to. -/
def Daemon.capacity : Daemon → ℕ
  | .tetrisd => Tetrisd.maxLobbySize
  | .bombd => Bomberman.bombdMaxPlayers

/-- `dispatch` stands between two of the state functions, `polling` and `receiving` in the
body of the loops of `server_lobby_state` and `server_game_state`. -/
inductive ListenerPc
  | dispatch
  | lobby
  | polling
  | handshake (id : ℕ)
  | game
  | receiving
  | ended
  deriving DecidableEq, Repr

inductive MainPc
  | poll
  | decide
  | recheck
  | start
  | roster
  | setup
  | play
  | ended
  | exited
  deriving DecidableEq, Repr

/-- In front of the return of `brserver_start`. -/
def MainPc.waiting : MainPc → Bool
  | .poll | .decide | .recheck | .start => true
  | _ => false

/-- The program sends no more. -/
def MainPc.over : MainPc → Bool
  | .ended | .exited => true
  | _ => false

theorem MainPc.not_over {pc : MainPc} (h : pc.waiting = true) : pc.over = false := by
  cases pc <;> first | rfl | cases h

/-- What `init_session` was called with and the two counts it stores; bombd keeps its
roster's count outside the session. -/
structure Session where
  ids : List ℕ
  count : ℤ
  rosterCount : ℤ
  deriving DecidableEq

def initSession : Daemon → List ℕ → Session
  | .tetrisd, clientIds => ⟨clientIds,Tetris.toI32 clientIds.length,Tetris.toI32 clientIds.length⟩
  | .bombd, clientIds => ⟨clientIds,min clientIds.length Bomberman.bombdMaxPlayers,clientIds.length⟩

/-- `lobby_size` is the length of `clientIds`. `starting` is the listener's broadcast and
`sending` the main thread's. Of the histories, `joined` lists the ids reported with
HUB_JOINED and `written` how many ids each `brserver_client_info` wrote. -/
structure Hall where
  state : EndpointState
  nextId : ℕ
  clients : List Peer
  listener : ListenerPc
  starting : Option Cast
  main : MainPc
  sending : Option Cast
  clientIds : List ℕ
  reported : ℕ
  startOrdered : Bool
  expected : ℕ
  joined : List ℕ
  written : List ℕ
  session : Option Session

def Hall.init (idBase : ℕ) : Hall where
  state := .lobby
  nextId := idBase
  clients := []
  listener := .dispatch
  starting := none
  main := .poll
  sending := none
  clientIds := []
  reported := 0
  startOrdered := false
  expected := 0
  joined := []
  written := []
  session := none

/-- `look` reads the server's state, `quiet` is a pass that concerns nothing modelled here,
`handshake` ends with the client's session key or fails. -/
inductive ListenerAct
  | look
  | accept
  | quiet
  | handshake (sesskey : Option Bytes)
  | udpFailed
  | send

/-- `order` is HUB_START, `enter` the ENTER key of bombd. The flag of `check` is the end of
the grace time in tetrisd and `stop_requested` in bombd. -/
inductive MainAct
  | enter
  | clientInfo
  | order (expected : ℕ)
  | closed
  | check (flag : Bool)
  | start
  | sendAll (content : Bytes) (sized : content.length = msgContentLength)
  | initSession
  | finish
  | exit
  | send

inductive ClientAct
  | receive
  | get

inductive Act
  | listener (a : ListenerAct)
  | main (a : MainAct)
  | client (i : ℕ) (a : ClientAct)

namespace Hall

def ids (s : Hall) : List ℕ := s.clients.map (·.endpoint.id)

/-! ## The listener -/

/-- The head of a loop, and the choice of the next state function. -/
def look (s : Hall) : Option Hall :=
  match s.listener with
  | .dispatch =>
    match s.state with
    | .idle => some s
    | .lobby => some { s with listener := .lobby }
    | .game =>
      if s.clients = [] then some { s with state := .lobby }
      else some { s with listener := .game, starting := Cast.start s.clients startMessage }
    | .end => some { s with listener := .ended, starting := Cast.start s.clients endMessage }
  | .lobby => some { s with listener := if s.state = .lobby then .polling else .dispatch }
  | .game => some { s with listener := if s.state = .game then .receiving else .dispatch }
  | _ => none

/-- `add_to_list` fails once the count is `UINT32_MAX`. -/
def addToList (s : Hall) (client : Endpoint) : Hall :=
  if s.clients.length = 4294967295 then s else { s with clients := s.clients ++ [.joined client] }

def listenerStep (s : Hall) (a : ListenerAct) : Option Hall :=
  if s.main = .exited then none
  else
    match s.starting with
    | some c =>
      match a with
      | .send => some { s with clients := (c.step s.clients).1, starting := (c.step s.clients).2 }
      | _ => none
    | none =>
      match s.listener, a with
      | _, .look => s.look
      | .polling, .quiet => some { s with listener := .lobby }
      | .polling, .accept => some { s with nextId := (s.nextId + 1) % 4294967296, listener := .handshake s.nextId }
      | .handshake _, .handshake none => some { s with listener := .lobby }
      | .handshake id, .handshake (some sesskey) => some { s.addToList ⟨id,sesskey⟩ with listener := .lobby }
      | .receiving, .quiet => some { s with listener := .game }
      | .receiving, .udpFailed => some { s with listener := .dispatch }
      | _, _ => none

/-! ## The main thread -/

/-- `brserver_client_info`, and what the lobby loop does with its result. -/
def clientInfo (daemon : Daemon) (s : Hall) : Hall :=
  let s := { s with clientIds := s.ids, written := s.written ++ [s.ids.length] }
  match daemon with
  | .tetrisd => { s with joined := s.joined ++ s.ids.drop s.reported, reported := max s.reported s.ids.length }
  | .bombd => { s with startOrdered := s.startOrdered || decide (Bomberman.bombdMaxPlayers ≤ s.ids.length) }

def check (daemon : Daemon) (s : Hall) (flag : Bool) : MainPc :=
  match daemon with
  | .tetrisd =>
    if s.startOrdered ∧ (s.expected ≤ s.clientIds.length ∨ flag) then
      if s.clientIds.length = 0 then .exited else .start
    else .poll
  | .bombd => if flag then .exited else if s.startOrdered then .recheck else .poll

def mainStep (daemon : Daemon) (s : Hall) (a : MainAct) : Option Hall :=
  match s.sending with
  | some c =>
    match a with
    | .send => some { s with clients := (c.step s.clients).1, sending := (c.step s.clients).2 }
    | _ => none
  | none =>
    match s.main, a with
    | .poll, .enter => if daemon = .bombd then some { s with startOrdered := true } else none
    | .poll, .clientInfo => some { s.clientInfo daemon with main := .decide }
    | .decide, .order n => if daemon = .tetrisd then some { s with startOrdered := true, expected := n } else none
    | .decide, .closed => if daemon = .tetrisd then some { s with main := .exited } else none
    | .decide, .check flag => some { s with main := s.check daemon flag }
    | .recheck, .clientInfo =>
      some { s.clientInfo daemon with main := if s.clients = [] then .exited else .start }
    | .start, .start =>
      if s.state = .lobby then
        some { s with state := .game, main := match daemon with
          | .tetrisd => .roster
          | .bombd => .setup }
      else some { s with main := .exited }
    | .roster, .sendAll content sized =>
      some { s with sending := Cast.start s.clients (appMessage content sized), main := .setup }
    | .setup, .initSession => some { s with session := some (initSession daemon s.clientIds), main := .play }
    | .play, .sendAll content sized =>
      some { s with sending := Cast.start s.clients (appMessage content sized) }
    | .play, .finish => some { s with state := if s.state = .game then .end else s.state, main := .ended }
    | .play, .exit => if daemon = .bombd then some { s with main := .exited } else none
    | .ended, .exit => some { s with main := .exited }
    | _, _ => none

/-! ## The whole -/

def clientStep (ssl : OpenSSL) (s : Hall) (i : ℕ) (a : ClientAct) : Option Hall :=
  s.clients[i]?.bind fun p =>
    match a with
    | .receive => (p.receive ssl).map fun q => { s with clients := s.clients.set i q }
    | .get => some { s with clients := s.clients.set i p.get }

def step (daemon : Daemon) (ssl : OpenSSL) (s : Hall) : Act → Option Hall
  | .listener a => s.listenerStep a
  | .main a => s.mainStep daemon a
  | .client i a => s.clientStep ssl i a

/-! ## What a step can do -/

inductive ListenerMove (s : Hall) : ListenerAct → Hall → Prop
  | send {c : Cast} (h : s.starting = some c) :
    ListenerMove s .send { s with clients := (c.step s.clients).1, starting := (c.step s.clients).2 }
  | stay {a : ListenerAct} (n : ℕ) (pc : ListenerPc) (h : s.starting = none)
    (hfull : ∀ sesskey, a = .handshake (some sesskey) → s.clients.length = 4294967295) :
    ListenerMove s a { s with nextId := n, listener := pc }
  | reopen (h : s.starting = none) (hstate : s.state = .game) (hclients : s.clients = []) :
    ListenerMove s .look { s with state := .lobby }
  | begin (h : s.starting = none) (hstate : s.state = .game) :
    ListenerMove s .look { s with listener := .game, starting := Cast.start s.clients startMessage }
  | close (h : s.starting = none) (hstate : s.state = .end) :
    ListenerMove s .look { s with listener := .ended, starting := Cast.start s.clients endMessage }
  | add (id : ℕ) (sesskey : Bytes) (h : s.starting = none) (hroom : s.clients.length ≠ 4294967295) :
    ListenerMove s (.handshake (some sesskey))
      { s with clients := s.clients ++ [.joined ⟨id,sesskey⟩], listener := .lobby }

theorem look_move {s t : Hall} (hs : s.starting = none) (h : s.look = some t) : s.ListenerMove .look t := by
  have hno : ∀ sesskey, ListenerAct.look = .handshake (some sesskey) → s.clients.length = 4294967295 := by
    intro sesskey hact
    cases hact
  unfold look at h
  split at h
  · next hpc =>
    split at h
    · cases h
      exact .stay s.nextId s.listener hs hno
    · cases h
      exact .stay s.nextId .lobby hs hno
    · next hstate =>
      split at h
      · next hclients =>
        cases h
        exact .reopen hs hstate hclients
      · cases h
        exact .begin hs hstate
    · next hstate =>
      cases h
      exact .close hs hstate
  · cases h
    exact .stay s.nextId _ hs hno
  · cases h
    exact .stay s.nextId _ hs hno
  · cases h

theorem listenerStep_move {s t : Hall} {a : ListenerAct} (h : s.listenerStep a = some t) :
    s.main ≠ .exited ∧ s.ListenerMove a t := by
  unfold listenerStep at h
  split at h
  · cases h
  · next hmain =>
    refine ⟨hmain,?_⟩
    split at h
    · next c hc =>
      split at h
      · cases h
        exact .send hc
      · cases h
    · next hs =>
      split at h
      · exact look_move hs h
      · cases h
        exact .stay s.nextId _ hs (by simp)
      · cases h
        exact .stay _ _ hs (by simp)
      · cases h
        exact .stay s.nextId _ hs (by simp)
      · next id sesskey hpc =>
        cases h
        unfold addToList
        split
        · next hfull => exact .stay s.nextId _ hs fun _ _ => hfull
        · next hroom => exact .add id sesskey hs hroom
      · cases h
        exact .stay s.nextId _ hs (by simp)
      · cases h
        exact .stay s.nextId _ hs (by simp)
      · cases h

inductive MainMove (daemon : Daemon) (s : Hall) : MainAct → Hall → Prop
  | send {c : Cast} (h : s.sending = some c) :
    MainMove daemon s .send { s with clients := (c.step s.clients).1, sending := (c.step s.clients).2 }
  | info (pc : MainPc) (h : s.sending = none) (hmain : s.main.waiting = true) (hpc : pc.waiting = true ∨ pc = .exited) :
    MainMove daemon s .clientInfo { s.clientInfo daemon with main := pc }
  | stay {a : MainAct} (pc : MainPc) (order : Bool) (expected : ℕ) (h : s.sending = none) (ha : a ≠ .clientInfo)
    (hpc : s.main.waiting = true ∧ pc.waiting = true ∨ pc = .exited) :
    MainMove daemon s a { s with main := pc, startOrdered := order, expected := expected }
  | start (pc : MainPc) (h : s.sending = none) (hmain : s.main = .start) (hstate : s.state = .lobby)
    (hpc : pc = .roster ∨ pc = .setup) : MainMove daemon s .start { s with state := .game, main := pc }
  | sendAll (content : Bytes) (sized : content.length = msgContentLength) (pc : MainPc) (h : s.sending = none)
    (hpc : s.main = .roster ∧ pc = .setup ∨ s.main = .play ∧ pc = .play) :
    MainMove daemon s (.sendAll content sized)
      { s with sending := Cast.start s.clients (appMessage content sized), main := pc }
  | initSession (h : s.sending = none) (hmain : s.main = .setup) :
    MainMove daemon s .initSession { s with session := some (Daemons.initSession daemon s.clientIds), main := .play }
  | finish (h : s.sending = none) (hmain : s.main = .play) :
    MainMove daemon s .finish { s with state := if s.state = .game then .end else s.state, main := .ended }

theorem check_waiting (daemon : Daemon) (s : Hall) (flag : Bool) :
    (s.check daemon flag).waiting = true ∨ s.check daemon flag = .exited := by
  unfold check
  cases daemon <;> dsimp only
  · split
    · split
      · exact Or.inr rfl
      · exact Or.inl rfl
    · exact Or.inl rfl
  · split
    · exact Or.inr rfl
    · split <;> exact Or.inl rfl

theorem mainStep_move {daemon : Daemon} {s t : Hall} {a : MainAct} (h : s.mainStep daemon a = some t) :
    s.MainMove daemon a t := by
  unfold mainStep at h
  split at h
  · next c hc =>
    split at h
    · cases h
      exact .send hc
    · cases h
  · next hs =>
    split at h
    · next hmain =>
      split at h
      · cases h
        exact .stay s.main true s.expected hs MainAct.noConfusion (Or.inl ⟨by rw [hmain]; rfl,by rw [hmain]; rfl⟩)
      · cases h
    · next hmain =>
      cases h
      exact .info .decide hs (by rw [hmain]; rfl) (Or.inl rfl)
    · next hmain =>
      split at h
      · cases h
        exact .stay s.main true _ hs MainAct.noConfusion (Or.inl ⟨by rw [hmain]; rfl,by rw [hmain]; rfl⟩)
      · cases h
    · split at h
      · cases h
        exact .stay .exited s.startOrdered s.expected hs MainAct.noConfusion (Or.inr rfl)
      · cases h
    · next flag hmain =>
      cases h
      refine .stay _ s.startOrdered s.expected hs MainAct.noConfusion ?_
      rcases check_waiting daemon s flag with hpc | hpc
      · exact Or.inl ⟨by rw [hmain]; rfl,hpc⟩
      · exact Or.inr hpc
    · next hmain =>
      cases h
      refine .info _ hs (by rw [hmain]; rfl) ?_
      split
      · exact Or.inr rfl
      · exact Or.inl rfl
    · next hmain =>
      split at h
      · next hstate =>
        cases h
        refine .start _ hs hmain hstate ?_
        cases daemon
        · exact Or.inl rfl
        · exact Or.inr rfl
      · cases h
        exact .stay .exited s.startOrdered s.expected hs MainAct.noConfusion (Or.inr rfl)
    · next content sized hmain =>
      cases h
      exact .sendAll content sized .setup hs (Or.inl ⟨hmain,rfl⟩)
    · next hmain =>
      cases h
      exact .initSession hs hmain
    · next content sized hmain =>
      cases h
      have hmove : s.MainMove daemon _ _ := .sendAll content sized .play hs (Or.inr ⟨hmain,rfl⟩)
      rw [← hmain] at hmove
      exact hmove
    · next hmain =>
      cases h
      exact .finish hs hmain
    · split at h
      · cases h
        exact .stay .exited s.startOrdered s.expected hs MainAct.noConfusion (Or.inr rfl)
      · cases h
    · cases h
      exact .stay .exited s.startOrdered s.expected hs MainAct.noConfusion (Or.inr rfl)
    · cases h

theorem clientStep_cases {ssl : OpenSSL} {s t : Hall} {i : ℕ} {a : ClientAct} (h : s.clientStep ssl i a = some t) :
    ∃ p q, s.clients[i]? = some p ∧ t = { s with clients := s.clients.set i q } ∧
      (a = .receive ∧ p.receive ssl = some q ∨ a = .get ∧ q = p.get) := by
  obtain ⟨p,hp,h⟩ := Option.bind_eq_some_iff.mp h
  cases a with
  | receive =>
    obtain ⟨q,hq,rfl⟩ := Option.map_eq_some_iff.mp h
    exact ⟨p,q,hp,rfl,Or.inl ⟨rfl,hq⟩⟩
  | get =>
    cases h
    exact ⟨p,p.get,hp,rfl,Or.inr ⟨rfl,rfl⟩⟩

end Hall
end CoreStack.Daemons
