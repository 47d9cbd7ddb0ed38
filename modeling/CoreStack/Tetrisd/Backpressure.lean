import CoreStack.Tetrisd.System
import CoreStack.Tetrisd.Slots

/-! # The daemon over hubs that can be full (`hub.c`)

Each direction of a hub holds at most `capacity` messages. What an event of the
master or a step of a worker sends waits in an outbox, and every `hub_send` is a step
of its own: it goes through, it fails because the other side is gone, or it falls
asleep until one of the two comes true. A process with something in its outbox does
nothing else.
-/
namespace CoreStack.Tetrisd
open Star

/-! ## Events without their sends -/

/-- The master's answer to an event, with the network its message was taken from. -/
def System.reply (s : System) : Label → Option (Net HubMsg × MasterReply)
  | .accept client forkOk => (s.master.step (.accept client forkOk)).map (s.net,·)
  | .enter => (s.master.step .enter).map (s.net,·)
  | .endPass stopRequested => (s.master.step (.endPass stopRequested)).map (s.net,·)
  | .hub slot =>
    let w := (s.master.rooms slot).hubFd
    match (s.net w).up with
    | m :: _ => (s.master.step (.recv slot m)).map (s.net.dropUp w,·)
    | [] => none
  | .hangUp slot =>
    if s.hubFails (s.master.rooms slot).hubFd || s.master.stopped then
      (s.master.step (.close slot)).map (s.net,·)
    else none
  | _ => none

/-- The effect of one step of worker `w`, with the network its message was taken from. -/
def System.effect (s : System) (w : ℕ) (reset : Bool) (input : Input) : Option (Net HubMsg × Effect) :=
  if s.running w then
    ((s.workers w).step s.serial (s.recv w reset) input).map (s.afterRecv w (s.recv w reset) input,·)
  else none

def Label.ofMaster : Label → Bool
  | .accept _ _ | .enter | .hub _ | .hangUp _ | .endPass _ => true
  | _ => false

theorem System.step_reply (s : System) {l : Label} (h : l.ofMaster = true) :
    s.step l = (s.reply l).map fun r => s.answer r.1 r.2 := by
  cases l with
  | accept client forkOk => simp [System.step,System.reply,Function.comp_def]
  | enter => simp [System.step,System.reply,Function.comp_def]
  | endPass stopRequested => simp [System.step,System.reply,Function.comp_def]
  | hub slot =>
    cases hup : (s.net (s.master.rooms slot).hubFd).up with
    | nil => simp [System.step,System.reply,hup]
    | cons m rest => simp [System.step,System.reply,hup,Function.comp_def]
  | hangUp slot =>
    simp only [System.step,System.reply]
    split <;> simp [Function.comp_def]
  | connect w => cases h
  | handshake w ok => cases h
  | worker w reset input => cases h
  | crash w => cases h

theorem System.step_effect (s : System) (w : ℕ) (reset : Bool) (input : Input) :
    s.step (.worker w reset input) = (s.effect w reset input).map fun r => s.work r.1 w r.2 := by
  simp only [System.step,System.effect]
  split <;> simp [Function.comp_def]

/-! ## Outboxes -/

structure Daemon where
  sys : System
  outbox : List (ℕ × HubMsg)
  asleep : Bool
  outboxes : ℕ → List HubMsg
  sleepers : ℕ → Bool

def Daemon.init (roomSize : ℕ) : Daemon := ⟨.init roomSize,[],false,fun _ => [],fun _ => false⟩

def Daemon.answer (s : Daemon) (net : Net HubMsg) (q : MasterReply) : Daemon :=
  { s with
    sys := { s.sys.answer net q with net := net }
    outbox := sends q.2 }

def Daemon.work (s : Daemon) (net : Net HubMsg) (w : ℕ) (e : Effect) : Daemon :=
  { s with
    sys := { s.sys.work net w e with net := net }
    outboxes := Function.update s.outboxes w e.sent }

/-- The first send of the master is done; `net` is the network after it. -/
def Daemon.sent (s : Daemon) (net : Net HubMsg) : Daemon :=
  { s with sys := { s.sys with net := net }, outbox := s.outbox.tail, asleep := false }

def Daemon.workerSent (s : Daemon) (net : Net HubMsg) (w : ℕ) : Daemon :=
  { s with
    sys := { s.sys with net := net }
    outboxes := Function.update s.outboxes w (s.outboxes w).tail
    sleepers := Function.update s.sleepers w false }

inductive HubLabel
  | act (l : Label)
  | masterSend
  | workerSend (w : ℕ)

variable (capacity : ℕ)

/-- `hub_send` of the master to the room its first message is for. -/
def Daemon.masterSend (s : Daemon) : Option Daemon :=
  match s.outbox with
  | [] => none
  | (w,m) :: _ =>
    if !s.sys.running w then some (s.sent s.sys.net)
    else if (s.sys.net w).down.length < capacity then some (s.sent (s.sys.net.deliver [(w,m)]))
    else if s.asleep then none
    else some { s with asleep := true }

def Daemon.workerSend (s : Daemon) (w : ℕ) : Option Daemon :=
  match s.outboxes w with
  | [] => none
  | m :: _ =>
    if !s.sys.running w then none
    else if !s.sys.hubOpen w then some (s.workerSent s.sys.net w)
    else if (s.sys.net w).up.length < capacity then some (s.workerSent (s.sys.net.push w [m]) w)
    else if s.sleepers w then none
    else some { s with sleepers := Function.update s.sleepers w true }

/-- The accept threads and the deaths of workers do not wait for any outbox. -/
def Daemon.step (s : Daemon) : HubLabel → Option Daemon
  | .act (.worker w reset input) =>
    if (s.outboxes w).isEmpty then (s.sys.effect w reset input).map fun r => s.work r.1 w r.2 else none
  | .act (.connect w) => (s.sys.step (.connect w)).map fun t => { s with sys := t }
  | .act (.handshake w ok) => (s.sys.step (.handshake w ok)).map fun t => { s with sys := t }
  | .act (.crash w) => (s.sys.step (.crash w)).map fun t => { s with sys := t }
  | .act l => if s.outbox.isEmpty then (s.sys.reply l).map fun r => s.answer r.1 r.2 else none
  | .masterSend => s.masterSend capacity
  | .workerSend w => s.workerSend capacity w

/-- The master sleeps in `hub_send` to the live worker `w` and cannot go on. -/
def Daemon.MasterBlocked (s : Daemon) (w : ℕ) : Prop :=
  s.asleep = true ∧ (s.outbox.head?.map (·.1)) = some w ∧ s.sys.running w = true ∧
    capacity ≤ (s.sys.net w).down.length

/-- Worker `w` sleeps in `hub_send` to the master and cannot go on. -/
def Daemon.WorkerBlocked (s : Daemon) (w : ℕ) : Prop :=
  s.sleepers w = true ∧ s.outboxes w ≠ [] ∧ s.sys.running w = true ∧ s.sys.hubOpen w = true ∧
    capacity ≤ (s.sys.net w).up.length

instance (s : Daemon) (w : ℕ) : Decidable (s.MasterBlocked capacity w) :=
  inferInstanceAs (Decidable (_ ∧ _ ∧ _ ∧ _))

instance (s : Daemon) (w : ℕ) : Decidable (s.WorkerBlocked capacity w) :=
  inferInstanceAs (Decidable (_ ∧ _ ∧ _ ∧ _ ∧ _))

end CoreStack.Tetrisd
