import CoreStack.Tetrisd.Room
import CoreStack.Tetrisd.Wiring
import CoreStack.Lib.StarNetwork
import CoreStack.Lib.Execution

/-! # The daemon: one master, its room workers and the hubs between them

A step is one event of the master, one connection of a room's accept loop, one
step of a worker or the death of a worker. Each hub is a pair of reliable queues.
The log records, in order, what the master and the workers did.
-/
namespace CoreStack.Tetrisd
open Star

inductive Obs
  | room (w : ℕ) (o : RoomObs)
  | master (o : MasterOut)
  deriving DecidableEq, Repr

structure System where
  master : Master
  workers : ℕ → Worker
  net : Net HubMsg
  serial : ℕ
  log : List Obs

def System.init (roomSize : ℕ) : System := ⟨.init roomSize,fun _ => .init 0,.empty,0,[]⟩

def sends (outs : List MasterOut) : List (ℕ × HubMsg) :=
  outs.filterMap fun
    | .send fd m => some (fd,m)
    | _ => none

def born (outs : List MasterOut) (workers : ℕ → Worker) : ℕ → Worker :=
  (forks outs).foldl (fun ws f => Function.update ws f.1 (.init f.2)) workers

/-- The master has handled an event; `net` is the network it took its message from. -/
def System.answer (s : System) (net : Net HubMsg) (q : MasterReply) : System :=
  { s with
    master := q.1
    workers := born q.2 s.workers
    net := net.deliver (sends q.2)
    log := s.log ++ q.2.map .master }

/-- Worker `w` has taken a step. Every worker step gets its own serial. -/
def System.work (s : System) (net : Net HubMsg) (w : ℕ) (e : Effect) : System :=
  { s with
    workers := Function.update s.workers w e.worker
    net := net.push w e.sent
    serial := s.serial + 1
    log := s.log ++ e.obs.map (.room w) }

/-- The accept thread of worker `w` has moved. -/
def System.serve (s : System) (w : ℕ) (server : Server) (obs : List RoomObs) : System :=
  { s with
    workers := Function.update s.workers w { s.workers w with server := server }
    log := s.log ++ obs.map (.room w) }

def System.kill (s : System) (w : ℕ) : System :=
  { s with workers := Function.update s.workers w { s.workers w with pc := .exited } }

/-- The master still holds its end of the hub of worker `w`. -/
def System.hubOpen (s : System) (w : ℕ) : Bool :=
  (List.finRange maxRooms).any fun i => (s.master.rooms i).used && (s.master.rooms i).hubFd == w

/-- What `hub_recv` reports to worker `w`; a closed hub may fail before it is drained. -/
def System.recv (s : System) (w : ℕ) (reset : Bool) : HubRecv :=
  if !s.hubOpen w && reset then .closed
  else match (s.net w).down with
    | m :: _ => .msg m
    | [] => if s.hubOpen w then .empty else .closed

def System.afterRecv (s : System) (w : ℕ) (hub : HubRecv) (input : Input) : Net HubMsg :=
  match input, hub with
  | .recv, .msg _ => s.net.dropDown w
  | _, _ => s.net

inductive Label
  | accept (client : ℕ) (forkOk : Bool)
  | enter
  | hub (slot : Fin maxRooms)
  | hangUp (slot : Fin maxRooms)
  | endPass (stopRequested : Bool)
  | connect (w : ℕ)
  | handshake (w : ℕ) (ok : Bool)
  | worker (w : ℕ) (reset : Bool) (input : Input)
  | crash (w : ℕ)

/-- A live worker process: spawned and not yet gone. -/
def System.running (s : System) (w : ℕ) : Bool :=
  decide (w < s.master.roomSeq) && (s.workers w).pc != .exited

/-- Whether `hub_recv` of the master fails on the hub of worker `w`, which is gone: nothing waits,
or the worker has left messages unread and the error for that comes first. -/
def System.hubFails (s : System) (w : ℕ) : Bool :=
  (s.workers w).pc == .exited && ((s.net w).up.isEmpty || !(s.net w).down.isEmpty)

/-- The shutdown closes every hub. -/
def System.step (s : System) : Label → Option System
  | .accept client forkOk => (s.master.step (.accept client forkOk)).map (s.answer s.net)
  | .enter => (s.master.step .enter).map (s.answer s.net)
  | .endPass stopRequested => (s.master.step (.endPass stopRequested)).map (s.answer s.net)
  | .hub slot =>
    let w := (s.master.rooms slot).hubFd
    match (s.net w).up with
    | m :: _ => (s.master.step (.recv slot m)).map (s.answer (s.net.dropUp w))
    | [] => none
  | .hangUp slot =>
    if s.hubFails (s.master.rooms slot).hubFd || s.master.stopped then
      (s.master.step (.close slot)).map (s.answer s.net)
    else none
  | .connect w =>
    if s.running w then (s.workers w).server.accept.map fun srv => s.serve w srv [] else none
  | .handshake w ok =>
    if s.running w then ((s.workers w).server.finish ok).map fun r => s.serve w r.1 r.2 else none
  | .worker w reset input =>
    if s.running w then
      ((s.workers w).step s.serial (s.recv w reset) input).map
        fun e => s.work (s.afterRecv w (s.recv w reset) input) w e
    else none
  | .crash w => if s.running w then some (s.kill w) else none

/-- How a worker's input and what it found in its hub move the network. -/
inductive System.Took (s : System) (w : ℕ) : HubRecv → Input → Net HubMsg → Prop
  | msg {m : HubMsg} {rest : List HubMsg} (hd : (s.net w).down = m :: rest) :
      Took s w (.msg m) .recv (s.net.dropDown w)
  | none {hub : HubRecv} {input : Input} (h : input = .recv → ∀ m, hub ≠ .msg m) : Took s w hub input s.net

/-- The steps of the daemon by the party that moves. -/
inductive System.Step (s : System) : Label → System → Prop
  | act {l : Label} {ev : MasterEvent} {q : MasterReply} (hm : Master.Step s.master ev q)
      (hl : l = .enter ∨ (∃ c f, l = .accept c f) ∨ (∃ b, l = .endPass b) ∨ ∃ slot, l = .hangUp slot)
      (hev : ∀ slot m, ev ≠ .recv slot m) (hc : ∀ slot, l = .hangUp slot ↔ ev = .close slot) :
      Step s l (s.answer s.net q)
  | hub {slot : Fin maxRooms} {w : ℕ} {m : HubMsg} {rest : List HubMsg} {q : MasterReply}
      (hw : (s.master.rooms slot).hubFd = w) (hu : (s.master.rooms slot).used = true)
      (hup : (s.net w).up = m :: rest) (hm : q = handleHubMsg s.master slot m) :
      Step s (.hub slot) (s.answer (s.net.dropUp w) q)
  | connect {w : ℕ} {srv : Server} (hw : w < s.master.roomSeq) (ha : (s.workers w).server.accept = some srv) :
      Step s (.connect w) (s.serve w srv [])
  | handshake {w : ℕ} {ok : Bool} {r : Server × List RoomObs} (hw : w < s.master.roomSeq)
      (hf : (s.workers w).server.finish ok = some r) : Step s (.handshake w ok) (s.serve w r.1 r.2)
  | worker {w : ℕ} {reset : Bool} {input : Input} {e : Effect} {net : Net HubMsg} {hub : HubRecv}
      (hw : w < s.master.roomSeq) (hr : s.recv w reset = hub) (ht : s.Took w hub input net)
      (hs : Worker.Step s.serial hub (s.workers w) input e) :
      Step s (.worker w reset input) (s.work net w e)
  | crash {w : ℕ} (hw : w < s.master.roomSeq) : Step s (.crash w) (s.kill w)

theorem System.took_afterRecv (s : System) (w : ℕ) (reset : Bool) (input : Input) :
    s.Took w (s.recv w reset) input (s.afterRecv w (s.recv w reset) input) := by
  unfold System.afterRecv
  split
  · rename_i m hr
    rw [hr]
    unfold System.recv at hr
    split at hr
    · cases hr
    · split at hr
      · rename_i m' rest hd
        cases hr
        exact .msg hd
      · split at hr <;> cases hr
  · rename_i h
    exact .none fun hi m hm => h m hi hm

theorem System.step_inv {s t : System} {l : Label} (h : s.step l = some t) : System.Step s l t := by
  cases l with
  | accept client forkOk =>
    obtain ⟨q,hq,rfl⟩ := Option.map_eq_some_iff.mp h
    exact .act (Master.step_inv hq) (.inr (.inl ⟨_,_,rfl⟩)) (by simp) (by simp)
  | enter =>
    obtain ⟨q,hq,rfl⟩ := Option.map_eq_some_iff.mp h
    exact .act (Master.step_inv hq) (.inl rfl) (by simp) (by simp)
  | endPass stopRequested =>
    simp only [System.step] at h
    obtain ⟨q,hq,rfl⟩ := Option.map_eq_some_iff.mp h
    exact .act (Master.step_inv hq) (.inr (.inr (.inl ⟨_,rfl⟩))) (by simp) (by simp)
  | hub slot =>
    simp only [System.step] at h
    split at h
    · rename_i m rest hup
      obtain ⟨q,hq,rfl⟩ := Option.map_eq_some_iff.mp h
      cases Master.step_inv hq with
      | recv _ _ hu => exact .hub rfl hu hup rfl
    · cases h
  | hangUp slot =>
    simp only [System.step] at h
    split at h
    · obtain ⟨q,hq,rfl⟩ := Option.map_eq_some_iff.mp h
      exact .act (Master.step_inv hq) (.inr (.inr (.inr ⟨_,rfl⟩))) (by simp) (by simp)
    · cases h
  | connect w =>
    simp only [System.step] at h
    split at h
    · rename_i hr
      obtain ⟨srv,ha,rfl⟩ := Option.map_eq_some_iff.mp h
      exact .connect (of_decide_eq_true (Bool.and_eq_true_iff.mp hr).1) ha
    · cases h
  | handshake w ok =>
    simp only [System.step] at h
    split at h
    · rename_i hr
      obtain ⟨r,hf,rfl⟩ := Option.map_eq_some_iff.mp h
      exact .handshake (of_decide_eq_true (Bool.and_eq_true_iff.mp hr).1) hf
    · cases h
  | worker w reset input =>
    simp only [System.step] at h
    split at h
    · rename_i hr
      obtain ⟨e,he,rfl⟩ := Option.map_eq_some_iff.mp h
      exact .worker (of_decide_eq_true (Bool.and_eq_true_iff.mp hr).1) rfl (s.took_afterRecv w reset input)
        (Worker.step_inv he)
    · cases h
  | crash w =>
    simp only [System.step] at h
    split at h
    · rename_i hr
      cases h
      exact .crash (of_decide_eq_true (Bool.and_eq_true_iff.mp hr).1)
    · cases h

end CoreStack.Tetrisd
