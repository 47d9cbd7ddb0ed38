import CoreStack.BattleRoyale.Inbox

/-! # Broadcasts over TCP (`send_broadcast_tcp`) and the client's listener (`client.c`)

A broadcast serves one client after the other with four `send_bytes` calls each.
The main thread and the listener of a server broadcast without a common lock. A
client in LOBBY waits for the start message and drops everything else it reads.
-/
namespace CoreStack.BattleRoyale
open Utils

inductive EndpointState
  | idle
  | lobby
  | game
  | «end»
  deriving DecidableEq, Repr

def Frame.isApp (frame : Frame) : Bool := frame.msgType == MessageType.app.code
def Frame.isStart (frame : Frame) : Bool := frame.msgType == MessageType.start.code
def Frame.isEnd (frame : Frame) : Bool := frame.msgType == MessageType.end.code

/-- Where the client's listener goes on reading a message. -/
def EndpointState.next (state : EndpointState) (frame : Frame) : EndpointState :=
  match state with
  | .lobby => if frame.isStart then .game else .lobby
  | .game => if frame.isEnd then .end else .game
  | state => state

/-- A connected client: `stream` is on its way to it, `queue` its `client_messages`. The
last three fields are histories: whether the start message was sent, the application
messages sent, and those that were enqueued. -/
structure Peer where
  endpoint : Endpoint
  stream : Bytes
  state : EndpointState
  queue : MessageQueue
  started : Bool
  sent : List Frame
  enqueued : List Frame

namespace Peer

def joined (endpoint : Endpoint) : Peer := ⟨endpoint,[],.lobby,.init,false,[],[]⟩

def push (p : Peer) (bytes : Bytes) : Peer := { p with stream := p.stream ++ bytes }

def complete (p : Peer) (frame : Frame) : Peer :=
  { p with
    started := p.started || frame.isStart
    sent := if frame.isApp then p.sent ++ [frame] else p.sent }

/-- What `client_game_state` does with a message for the application. -/
def enqueue (ssl : OpenSSL) (p : Peer) (frame : Frame) : Peer :=
  match frame.message.bind (clientAccept ssl p.endpoint.sesskey) with
  | none => p
  | some msg =>
    let r := p.queue.enqueue msg
    { p with queue := r.1, enqueued := if r.2 && frame.isApp then p.enqueued ++ [frame] else p.enqueued }

def handle (ssl : OpenSSL) (p : Peer) (frame : Frame) : Peer :=
  let q := if p.state = .game then p.enqueue ssl frame else p
  { q with state := p.state.next frame }

/-- The next message, once all of it has come. What the buffer held before is overwritten. -/
def incoming (p : Peer) : Option Frame :=
  if frameLength ≤ p.stream.length then some (receiveMessageTcp p.stream (uniform 0 .cert)).msg else none

def receive (ssl : OpenSSL) (p : Peer) : Option Peer :=
  if p.state = .lobby ∨ p.state = .game then
    p.incoming.map fun frame => { p with stream := p.stream.drop frameLength }.handle ssl frame
  else none

def get (p : Peer) : Peer := { p with queue := p.queue.dequeue.1 }

end Peer

/-! ## A broadcast in progress -/

def endMessage : Frame := { startMessage with msgType := MessageType.end.code }

/-- What `brserver_send_to_all` sends for a text of the program. -/
def appMessage (content : Bytes) (sized : content.length = msgContentLength) : Frame :=
  ⟨0,0,MessageType.app.code,content,sized⟩

/-- `done` of the four buffers have gone out to client number `client`. -/
structure Cast where
  frame : Frame
  client : ℕ
  done : ℕ

namespace Cast

def start (peers : List Peer) (frame : Frame) : Option Cast := if peers.isEmpty then none else some ⟨frame,0,0⟩

/-- One `send_bytes`, or the step to the next client in the list as it is now. -/
def step (peers : List Peer) (c : Cast) : List Peer × Option Cast :=
  match (sendMessageTcp c.frame)[c.done]? with
  | some buffer =>
    (peers.modify c.client fun p => if c.done = 3 then (p.push buffer).complete c.frame else p.push buffer,
      some { c with done := c.done + 1 })
  | none => (peers,if c.client + 1 < peers.length then some ⟨c.frame,c.client + 1,0⟩ else none)

/-- Some but not all of the message is on the way to client `i`. -/
def midway (c : Cast) (i : ℕ) : Bool := c.client == i && decide (0 < c.done) && decide (c.done < 4)

/-- The part of a message that client `i` has got so far. -/
def part (c : Cast) (i : ℕ) : Bytes :=
  if c.midway i then ((sendMessageTcp c.frame).take c.done).flatten else []

theorem start_eq_some {peers : List Peer} {frame : Frame} {c : Cast} (h : start peers frame = some c) :
    peers ≠ [] ∧ c = ⟨frame,0,0⟩ := by
  unfold start at h
  split at h
  · cases h
  · next hne =>
    cases h
    exact ⟨by simpa using hne,rfl⟩

theorem step_cases (peers : List Peer) (c : Cast) :
    (∃ buffer, (sendMessageTcp c.frame)[c.done]? = some buffer ∧ c.done < 4 ∧
      c.step peers = (peers.modify c.client fun p => if c.done = 3 then (p.push buffer).complete c.frame else p.push buffer,
        some { c with done := c.done + 1 })) ∨
    4 ≤ c.done ∧ c.step peers = (peers,if c.client + 1 < peers.length then some ⟨c.frame,c.client + 1,0⟩ else none) := by
  unfold step
  cases hbuffer : (sendMessageTcp c.frame)[c.done]? with
  | some buffer => exact Or.inl ⟨buffer,rfl,(List.getElem?_eq_some_iff.mp hbuffer).1,rfl⟩
  | none => exact Or.inr ⟨List.getElem?_eq_none_iff.mp hbuffer,rfl⟩

theorem step_ids (peers : List Peer) (c : Cast) :
    (c.step peers).1.map (·.endpoint.id) = peers.map (·.endpoint.id) := by
  rcases c.step_cases peers with ⟨buffer,-,-,heq⟩ | ⟨-,heq⟩
  · rw [heq]
    apply List.ext_getElem?
    intro i
    rw [List.getElem?_map,List.getElem?_modify,List.getElem?_map]
    cases peers[i]? with
    | none => rfl
    | some p =>
      show some (Endpoint.id (Peer.endpoint (if c.client = i then _ else _))) = some p.endpoint.id
      split
      · split <;> rfl
      · rfl
  · rw [heq]

end Cast

/-! ## What a client enqueues as it reads on -/

def after (state : EndpointState) (wire : List Frame) : EndpointState := wire.foldl EndpointState.next state

/-- Those of the messages that are for the application and find the client in GAME. -/
def reaching : EndpointState → List Frame → List Frame
  | _, [] => []
  | state, frame :: wire => (if state = .game ∧ frame.isApp then [frame] else []) ++ reaching (state.next frame) wire

theorem after_append (state : EndpointState) (wire : List Frame) (frame : Frame) :
    after state (wire ++ [frame]) = (after state wire).next frame := by
  simp [after]

theorem reaching_append (state : EndpointState) (wire : List Frame) (frame : Frame) :
    reaching state (wire ++ [frame]) =
      reaching state wire ++ if after state wire = .game ∧ frame.isApp then [frame] else [] := by
  induction wire generalizing state with
  | nil => exact List.append_nil _
  | cons f wire ih =>
    have hafter : after state (f :: wire) = after (state.next f) wire := rfl
    rw [List.cons_append,reaching,reaching,ih,hafter,List.append_assoc]

theorem length_reaching_le (state : EndpointState) (wire : List Frame) :
    (reaching state wire).length ≤ (wire.filter Frame.isApp).length := by
  induction wire generalizing state with
  | nil => exact Nat.le_refl _
  | cons f wire ih =>
    have htail := ih (state.next f)
    rw [reaching,List.filter_cons,List.length_append]
    cases happ : f.isApp with
    | true =>
      simp only [if_true,List.length_cons]
      split <;> simp only [List.length_cons,List.length_nil] <;> omega
    | false => simpa using htail

theorem next_lobby (frame : Frame) : EndpointState.lobby.next frame = if frame.isStart then .game else .lobby := rfl

theorem next_game (frame : Frame) : EndpointState.game.next frame = if frame.isEnd then .end else .game := rfl

theorem next_ne_idle {state : EndpointState} (h : state ≠ .idle) (frame : Frame) : state.next frame ≠ .idle := by
  cases state with
  | idle => exact absurd rfl h
  | lobby => rw [next_lobby]; split <;> decide
  | game => rw [next_game]; split <;> decide
  | «end» => exact h

theorem next_ne_lobby {state : EndpointState} (hidle : state ≠ .idle) {frame : Frame}
    (h : state ≠ .lobby ∨ frame.isStart = true) : state.next frame ≠ .lobby := by
  cases state with
  | idle => exact absurd rfl hidle
  | lobby =>
    rcases h with h | h
    · exact absurd rfl h
    · rw [next_lobby,if_pos h]
      decide
  | game => rw [next_game]; split <;> decide
  | «end» => exact EndpointState.noConfusion

theorem after_ne_idle {state : EndpointState} (h : state ≠ .idle) (wire : List Frame) : after state wire ≠ .idle := by
  induction wire generalizing state with
  | nil => exact h
  | cons f wire ih => exact ih (next_ne_idle h f)

namespace Peer

/-- `wire` has been sent to the client and not read yet, `part` is the beginning of one more
message. Nothing is lost, and nothing on the wire will be. -/
structure Wire (p : Peer) (ended : Prop) (part : Bytes) (wire : List Frame) : Prop where
  stream : p.stream = wire.flatMap Frame.encode ++ part
  sent : p.sent = p.enqueued ++ wire.filter Frame.isApp
  reaches : reaching p.state wire = wire.filter Frame.isApp
  awake : p.state ≠ .idle
  playing : p.started = true → after p.state wire ≠ .lobby
  ending : after p.state wire = .end → ended

/-- Every application message sent to the client is enqueued or still on its way. -/
def Delivered (p : Peer) : Prop :=
  ∃ (wire : List Frame) (part : Bytes), p.stream = wire.flatMap Frame.encode ++ part ∧ part.length < frameLength ∧
    p.sent = p.enqueued ++ wire.filter Frame.isApp

variable {ssl : OpenSSL} {ended : Prop} {part : Bytes} {wire : List Frame} {p : Peer}

theorem wire_joined (endpoint : Endpoint) : (joined endpoint).Wire ended [] [] where
  stream := rfl
  sent := rfl
  reaches := rfl
  awake := EndpointState.noConfusion
  playing := by
    intro h
    cases h
  ending := by
    intro h
    cases h

theorem Wire.mono {ended' : Prop} (h : p.Wire ended part wire) (hended : ended → ended') : p.Wire ended' part wire :=
  { h with ending := fun hend => hended (h.ending hend) }

theorem Wire.push (h : p.Wire ended part wire) (bytes : Bytes) : (p.push bytes).Wire ended (part ++ bytes) wire :=
  { h with
    stream := by
      show p.stream ++ bytes = _
      rw [h.stream,List.append_assoc] }

/-- The end of a message puts it on the wire. An application message needs a client
that has been started. -/
theorem Wire.complete {frame : Frame} (h : p.Wire ended frame.encode wire)
    (happ : frame.isApp = true → p.started = true ∧ ¬ended) (hend : frame.isEnd = true → ended) :
    (p.complete frame).Wire ended [] (wire ++ [frame]) := by
  have hidle := after_ne_idle h.awake wire
  have hgame : frame.isApp = true → after p.state wire = .game := by
    intro hf
    obtain ⟨hstarted,hopen⟩ := happ hf
    have hlobby := h.playing hstarted
    cases hafter : after p.state wire with
    | idle => exact absurd hafter hidle
    | lobby => exact absurd hafter hlobby
    | game => rfl
    | «end» => exact absurd (h.ending hafter) hopen
  refine ⟨?_,?_,?_,h.awake,?_,?_⟩
  · show p.stream = _
    rw [h.stream]
    simp
  · show (if frame.isApp then p.sent ++ [frame] else p.sent) = p.enqueued ++ _
    rw [h.sent,List.filter_append]
    cases hf : frame.isApp <;> simp [hf]
  · show reaching p.state (wire ++ [frame]) = _
    rw [reaching_append,h.reaches,List.filter_append]
    cases hf : frame.isApp with
    | true => simp [hf,hgame hf]
    | false => simp [hf]
  · intro hstarted
    show after p.state (wire ++ [frame]) ≠ .lobby
    rw [after_append]
    exact next_ne_lobby hidle ((Bool.or_eq_true_iff.mp hstarted).imp_left h.playing)
  · intro hafter
    change after p.state (wire ++ [frame]) = .end at hafter
    rw [after_append] at hafter
    cases hbefore : after p.state wire with
    | idle => exact absurd hbefore hidle
    | lobby =>
      rw [hbefore,EndpointState.next] at hafter
      split at hafter <;> cases hafter
    | game =>
      rw [hbefore,EndpointState.next] at hafter
      split at hafter
      · next hf => exact hend hf
      · cases hafter
    | «end» => exact h.ending hbefore

theorem Wire.incoming (h : p.Wire ended part wire) (hpart : part.length < frameLength) {frame : Frame}
    (hin : p.incoming = some frame) :
    ∃ rest, wire = frame :: rest ∧ p.stream.drop frameLength = rest.flatMap Frame.encode ++ part := by
  unfold Peer.incoming at hin
  split at hin
  · next hlen =>
    cases wire with
    | nil =>
      rw [h.stream,List.flatMap_nil,List.nil_append] at hlen
      omega
    | cons f rest =>
      have hstream : p.stream = f.encode ++ (rest.flatMap Frame.encode ++ part) := by
        rw [h.stream,List.flatMap_cons,List.append_assoc]
      rw [hstream,receive_encode] at hin
      cases hin
      exact ⟨rest,rfl,by rw [hstream,List.drop_left' (length_encode f)]⟩
  · cases hin

theorem enqueue_app {frame : Frame} (happ : frame.isApp = true) (hroom : p.queue.full = false) :
    (p.enqueue ssl frame).enqueued = p.enqueued ++ [frame] := by
  have htype : frame.msgType = MessageType.app.code := beq_iff_eq.mp happ
  have hmsg : frame.message.bind (clientAccept ssl p.endpoint.sesskey) =
      some ⟨frame.sourceId.toNat,frame.msgLen.toNat,.app,frame.msgContent,frame.sized⟩ := by
    unfold Frame.message
    rw [htype,MessageType.ofCode_code]
    rfl
  have hlt : p.queue.items.length < 500 := by
    by_contra hno
    rw [(Queue.full_iff p.queue).mpr hno] at hroom
    cases hroom
  unfold enqueue
  rw [hmsg]
  simp only [Queue.enqueue,dif_pos hlt,happ,Bool.and_true,if_true]

theorem enqueue_other {frame : Frame} (happ : frame.isApp = false) :
    (p.enqueue ssl frame).enqueued = p.enqueued := by
  unfold enqueue
  cases frame.message.bind (clientAccept ssl p.endpoint.sesskey) with
  | none => rfl
  | some msg => simp [happ]

@[simp] theorem enqueue_stream (frame : Frame) : (p.enqueue ssl frame).stream = p.stream := by
  unfold enqueue
  split <;> rfl

@[simp] theorem enqueue_sent (frame : Frame) : (p.enqueue ssl frame).sent = p.sent := by
  unfold enqueue
  split <;> rfl

@[simp] theorem enqueue_started (frame : Frame) : (p.enqueue ssl frame).started = p.started := by
  unfold enqueue
  split <;> rfl

@[simp] theorem enqueue_endpoint (frame : Frame) : (p.enqueue ssl frame).endpoint = p.endpoint := by
  unfold enqueue
  split <;> rfl

theorem handle_stream (frame : Frame) : (p.handle ssl frame).stream = p.stream := by
  unfold handle
  split <;> simp

theorem handle_sent (frame : Frame) : (p.handle ssl frame).sent = p.sent := by
  unfold handle
  split <;> simp

theorem handle_started (frame : Frame) : (p.handle ssl frame).started = p.started := by
  unfold handle
  split <;> simp

theorem handle_endpoint (frame : Frame) : (p.handle ssl frame).endpoint = p.endpoint := by
  unfold handle
  split <;> simp

theorem receive_endpoint {q : Peer} (h : p.receive ssl = some q) : q.endpoint = p.endpoint := by
  unfold Peer.receive at h
  split at h
  · obtain ⟨frame,-,rfl⟩ := Option.map_eq_some_iff.mp h
    exact handle_endpoint frame
  · cases h

theorem receive_started {q : Peer} (h : p.receive ssl = some q) : q.started = p.started := by
  unfold Peer.receive at h
  split at h
  · obtain ⟨frame,-,rfl⟩ := Option.map_eq_some_iff.mp h
    exact handle_started frame
  · cases h

/-- In LOBBY the next message is not one for the application; in GAME it finds room. -/
theorem Wire.handle {frame : Frame} (h : p.Wire ended part (frame :: wire)) {stream : Bytes}
    (hstream : stream = wire.flatMap Frame.encode ++ part)
    (hroom : p.state = .game → frame.isApp = true → p.queue.full = false) :
    ({ p with stream := stream }.handle ssl frame).Wire ended part wire := by
  have hreach := h.reaches
  rw [reaching,List.filter_cons] at hreach
  have hgame : frame.isApp = true → p.state = .game := by
    intro happ
    by_contra hstate
    have hlen := congrArg List.length hreach
    have hle := length_reaching_le (p.state.next frame) wire
    simp only [hstate,false_and,if_false,List.nil_append,happ,if_true,List.length_cons] at hlen
    omega
  have hstate : ({ p with stream := stream }.handle ssl frame).state = p.state.next frame := rfl
  refine ⟨?_,?_,?_,?_,?_,?_⟩
  · rw [handle_stream]
    exact hstream
  · rw [handle_sent]
    show p.sent = _
    have hsent := h.sent
    rw [List.filter_cons] at hsent
    cases happ : frame.isApp with
    | true =>
      have hqueue : ({ p with stream := stream }.handle ssl frame).enqueued = p.enqueued ++ [frame] := by
        have hin := hgame happ
        unfold Peer.handle
        rw [if_pos hin]
        exact enqueue_app (p := { p with stream := stream }) happ (hroom hin happ)
      rw [hqueue,hsent,if_pos happ,List.append_assoc,List.singleton_append]
    | false =>
      have hqueue : ({ p with stream := stream }.handle ssl frame).enqueued = p.enqueued := by
        unfold Peer.handle
        split
        · exact enqueue_other (p := { p with stream := stream }) happ
        · rfl
      rw [hqueue,hsent,happ,if_neg Bool.false_ne_true]
  · rw [hstate]
    cases happ : frame.isApp with
    | true =>
      simp only [hgame happ,happ,and_self,if_true,List.singleton_append,List.cons.injEq,true_and] at hreach
      rw [hgame happ]
      exact hreach
    | false => simpa [happ] using hreach
  · rw [hstate]
    exact next_ne_idle h.awake frame
  · rw [hstate,handle_started]
    exact h.playing
  · rw [hstate]
    exact h.ending

theorem Wire.receive {q : Peer} (h : p.Wire ended part wire) (hpart : part.length < frameLength)
    (hroom : ∀ frame, p.incoming = some frame → p.state = .game → frame.isApp = true → p.queue.full = false)
    (hq : p.receive ssl = some q) : ∃ rest, q.Wire ended part rest := by
  unfold Peer.receive at hq
  split at hq
  · obtain ⟨frame,hin,rfl⟩ := Option.map_eq_some_iff.mp hq
    obtain ⟨rest,rfl,hdrop⟩ := h.incoming hpart hin
    exact ⟨rest,h.handle hdrop (hroom frame hin)⟩
  · cases hq

theorem Wire.get (h : p.Wire ended part wire) : p.get.Wire ended part wire := { h with }

theorem Wire.delivered (h : p.Wire ended part wire) (hpart : part.length < frameLength) : p.Delivered :=
  ⟨wire,part,h.stream,hpart,h.sent⟩

end Peer
end CoreStack.BattleRoyale
