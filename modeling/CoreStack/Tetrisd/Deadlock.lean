import CoreStack.Lib.Slotwise
import CoreStack.Tetrisd.Backpressure

/-! # When the master and a worker may wait for each other

A worker reads its hub between two passes, and sends only within a pass. While the
master sleeps on a full hub the worker's own direction is not drained, so the two
stay clear of each other as long as what the worker still sends before it reads again
fits.
-/
namespace CoreStack.Tetrisd
open Execution Lib Star Tetris

/-! ## What a worker still sends before it reads its hub -/

def PlayerSlot.elimDue (p : PlayerSlot) : Bool := (p.state.gameOver || !p.active) && !p.elimReported

def PlayerSlot.attacks (p : PlayerSlot) : Bool := p.state.outgoingGarbage != 0

/-- The ready message and the joins of the lobby; in a pass one message for each
elimination that is due and two for each attack. A tick may bring any of these about. -/
def Worker.owes (w : Worker) : ℕ :=
  match w.pc with
  | .boot => 1 + (maxLobbySize - w.reported)
  | .lobbyPoll | .lobbyCheck => maxLobbySize - w.reported
  | .tick => 3 * w.session.players.length
  | .report i => (w.session.players.drop i).countP (·.elimDue) + 2 * w.session.players.countP (·.attacks)
  | .route i => 2 * (w.session.players.drop i).countP (·.attacks)
  | _ => 0

theorem tickStep_owes {w : Worker} (hpc : w.pc = .tick) (rand : ℕ → ℕ → ℕ) :
    (tickStep w rand).sent.length + (tickStep w rand).worker.owes ≤ w.owes := by
  have hlen : (tickSession rand w.session).players.length = w.session.players.length :=
    (tickSession_evolves rand w.session).1
  have helim := List.countP_le_length (p := (·.elimDue)) (l := (tickSession rand w.session).players)
  have hattack := List.countP_le_length (p := (·.attacks)) (l := (tickSession rand w.session).players)
  simp only [tickStep,Worker.owes,hpc,List.drop_zero,List.length_nil]
  omega

theorem reportStep_owes {w : Worker} {i : ℕ} (hpc : w.pc = .report i) :
    (reportStep w i).sent.length + (reportStep w i).worker.owes ≤ w.owes := by
  unfold reportStep
  split
  · simp [Worker.owes,Worker.quiet,hpc]
  · rename_i p hp
    have hdrop := countP_drop_eq hp (·.elimDue)
    dsimp only
    split
    · rename_i hdue
      have hset : (w.session.setSlot i { p with elimReported := true }).players.countP (·.attacks) =
          w.session.players.countP (·.attacks) := countP_set_of_eq hp rfl
      have hrest : ((w.session.setSlot i { p with elimReported := true }).players.drop (i + 1)) =
          w.session.players.drop (i + 1) := List.drop_set_of_lt (Nat.lt_succ_self i)
      have hp' : p.elimDue = true := hdue
      simp only [Worker.owes,hpc,hset,hrest,List.length_singleton]
      rw [hdrop,hp',if_pos rfl]
      omega
    · simp only [Worker.owes,Worker.quiet,hpc,List.length_nil]
      omega

theorem routeSlot_sent (serial draw : ℕ) (session : GameSession) (global : HubRoster) (i : ℕ) (p : PlayerSlot) :
    (routeSlot serial draw session global i p).sent.length ≤ if p.attacks then 2 else 0 := by
  unfold routeSlot
  split
  · exact Nat.zero_le _
  · rename_i h
    have ha : p.attacks = true := by simpa [PlayerSlot.attacks] using h
    rw [if_pos ha]
    dsimp only
    split
    · split <;> simp
    · split <;> simp

theorem routeSlot_attacks (serial draw : ℕ) (session : GameSession) (global : HubRoster) (i : ℕ)
    (p : PlayerSlot) :
    ((routeSlot serial draw session global i p).session.players.drop (i + 1)).countP (·.attacks) =
      (session.players.drop (i + 1)).countP (·.attacks) := by
  have hdrain : (session.setSlot i p.drained).players.drop (i + 1) = session.players.drop (i + 1) :=
    List.drop_set_of_lt (Nat.lt_succ_self i)
  unfold routeSlot
  split
  · rfl
  · dsimp only
    split
    · rename_i j v hv
      split
      · refine (countP_drop_set_of_eq (lookup_some hv).1 ?_ _).trans (congrArg _ hdrain)
        simp only [PlayerSlot.attacks,PlayerSlot.hit]
        exact congrArg (· != 0) (queueGarbage_outgoing _ _)
      · exact congrArg _ hdrain
    · split <;> exact congrArg _ hdrain

theorem routeStep_owes {serial : ℕ} {w : Worker} {i draw : ℕ} (hpc : w.pc = .route i) :
    (routeStep serial w i draw).sent.length + (routeStep serial w i draw).worker.owes ≤ w.owes := by
  unfold routeStep
  split
  · simp [Worker.owes,Worker.quiet,hpc]
  · rename_i p hp
    have hsent := routeSlot_sent serial draw w.session w.globalRoster i p
    have hrest := routeSlot_attacks serial draw w.session w.globalRoster i p
    simp only [Worker.owes,hpc,hrest,countP_drop_eq hp (·.attacks)]
    cases ha : p.attacks with
    | true =>
      rw [ha,if_pos rfl] at hsent
      simp only [if_true]
      omega
    | false =>
      rw [ha,if_neg (by simp)] at hsent
      simp only [Bool.false_eq_true,if_false]
      omega

theorem pollStep_owes {w : Worker} {e : Effect} (hpc : w.pc = .lobbyPoll) (he : pollStep w = some e) :
    e.sent.length + e.worker.owes ≤ w.owes := by
  unfold pollStep at he
  split at he
  · cases he
    simp only [Worker.owes,hpc,List.length_map,List.length_drop]
    omega
  · cases he

/-- Short of reading its hub, a worker sends within what it owes. -/
theorem Worker.Step.owes {serial : ℕ} {hub : HubRecv} {w : Worker} {input : Input} {e : Effect}
    (h : Worker.Step serial hub w input e) (hread : input ≠ .recv) : e.sent.length + e.worker.owes ≤ w.owes := by
  cases h with
  | boot bound hpc =>
    unfold bootStep
    split
    · simp [Worker.owes,hpc]
    · simp [Worker.exit,Worker.quiet,Worker.owes]
  | poll hpc he => exact pollStep_owes hpc he
  | lobbyRecv hpc => exact absurd rfl hread
  | check graceOver rand hpc =>
    unfold checkStep
    split
    · split <;> simp [Worker.exit,Worker.quiet,Worker.owes]
    · simp [Worker.quiet,Worker.owes,hpc]
  | client n m rand hpc he =>
    unfold clientStep at he
    split at he
    · cases m <;> cases he <;> simp [Worker.quiet,Worker.owes]
    · cases he
  | clientsDone n hpc => simp [Worker.quiet,Worker.owes]
  | hubRecv hpc => exact absurd rfl hread
  | tick rand hpc => exact tickStep_owes hpc rand
  | report i hpc => exact reportStep_owes hpc
  | route i draw hpc => exact routeStep_owes hpc
  | push hpc => simp [pushStep,Worker.quiet,Worker.owes]
  | conclude hpc => simp [concludeStep,Worker.exit,Worker.quiet,Worker.owes]

theorem Worker.Step.owes_closed {serial : ℕ} {w : Worker} {e : Effect}
    (h : Worker.Step serial .closed w .recv e) : e.sent = [] ∧ e.worker.owes = 0 := by
  cases h with
  | lobbyRecv hpc => exact ⟨rfl,rfl⟩
  | hubRecv hpc => exact ⟨rfl,rfl⟩

/-! ## The step condition -/

variable (capacity : ℕ)

/-- What waits on the way to the master, or will before worker `w` reads its hub. -/
def Daemon.load (s : Daemon) (w : ℕ) : ℕ :=
  (s.sys.net w).up.length + (s.outboxes w).length + (s.sys.workers w).owes

/-- When `hub_send` of the master finds the hub of a live worker full, the other direction
has room for everything the worker sends before it reads. -/
def Daemon.roomFor (s : Daemon) : HubLabel → Bool
  | .masterSend =>
    match s.outbox with
    | [] => true
    | (w,_) :: _ =>
      !s.sys.running w || decide ((s.sys.net w).down.length < capacity) || decide (s.load w ≤ capacity)
  | _ => true

/-- Hubs hold what they can, a master with nothing to send is awake, and one that
sleeps does so next to a worker whose messages all fit. -/
structure Daemon.Clear (s : Daemon) : Prop where
  bounded : ∀ w, (s.sys.net w).down.length ≤ capacity
  awake : s.outbox = [] → s.asleep = false
  roomy : ∀ w, s.MasterBlocked capacity w → s.load w ≤ capacity

variable {capacity}

theorem Daemon.Clear.not_deadlocked {s : Daemon} (h : s.Clear capacity) (w : ℕ) :
    ¬(s.MasterBlocked capacity w ∧ s.WorkerBlocked capacity w) := by
  rintro ⟨hm,-,hpending,-,-,hfull⟩
  have hload := h.roomy w hm
  have hpos : 0 < (s.outboxes w).length := List.length_pos_iff.mpr hpending
  unfold Daemon.load at hload
  omega

theorem Daemon.init_clear (roomSize : ℕ) : (Daemon.init roomSize).Clear capacity where
  bounded _ := Nat.zero_le _
  awake _ := rfl
  roomy := by
    rintro w ⟨hasleep,-⟩
    cases hasleep

/-- The master is not concerned: where it sleeps it slept before, and no worker there
has more to say. -/
theorem Daemon.Clear.aside {s t : Daemon} (h : s.Clear capacity) (hout : t.outbox = s.outbox)
    (hasleep : t.asleep = s.asleep)
    (hdown : ∀ w, (t.sys.net w).down.length ≤ (s.sys.net w).down.length)
    (hload : ∀ w, s.MasterBlocked capacity w → t.MasterBlocked capacity w → t.load w ≤ s.load w)
    (hrun : ∀ w, t.sys.running w = true → s.sys.running w = true) : t.Clear capacity where
  bounded w := (hdown w).trans (h.bounded w)
  awake he := by
    rw [hasleep]
    exact h.awake (by rw [← hout]; exact he)
  roomy := by
    rintro w hw
    obtain ⟨hsleep,hhead,hrunning,hfull⟩ := hw
    have hs : s.MasterBlocked capacity w := by
      refine ⟨by rw [← hasleep]; exact hsleep,by rw [← hout]; exact hhead,hrun w hrunning,?_⟩
      exact hfull.trans (hdown w)
    exact (hload w hs ⟨hsleep,hhead,hrunning,hfull⟩).trans (h.roomy w hs)

/-! ## Steps of the master -/

theorem System.reply_down {s : System} {l : Label} {r : Net HubMsg × MasterReply} (h : s.reply l = some r)
    (w : ℕ) : (r.1 w).down = (s.net w).down := by
  cases l with
  | hub slot =>
    simp only [System.reply] at h
    split at h
    · obtain ⟨q,-,rfl⟩ := Option.map_eq_some_iff.mp h
      exact Net.dropUp_down ..
    · cases h
  | hangUp slot =>
    simp only [System.reply] at h
    split at h
    · obtain ⟨q,-,rfl⟩ := Option.map_eq_some_iff.mp h
      rfl
    · cases h
  | accept client forkOk =>
    obtain ⟨q,-,rfl⟩ := Option.map_eq_some_iff.mp h
    rfl
  | enter =>
    obtain ⟨q,-,rfl⟩ := Option.map_eq_some_iff.mp h
    rfl
  | endPass stopRequested =>
    simp only [System.reply] at h
    obtain ⟨q,-,rfl⟩ := Option.map_eq_some_iff.mp h
    rfl
  | connect w => cases h
  | handshake w ok => cases h
  | worker w reset input => cases h
  | crash w => cases h

theorem Daemon.Clear.answer {s : Daemon} (h : s.Clear capacity) (hempty : s.outbox = []) {net : Net HubMsg}
    {q : MasterReply} (hnet : ∀ w, (net w).down = (s.sys.net w).down) : (s.answer net q).Clear capacity where
  bounded w := by
    change (net w).down.length ≤ capacity
    rw [hnet]
    exact h.bounded w
  awake _ := h.awake hempty
  roomy := by
    rintro w ⟨hasleep,-⟩
    rw [show (s.answer net q).asleep = s.asleep from rfl,h.awake hempty] at hasleep
    cases hasleep

theorem Daemon.Clear.act {s t : Daemon} {l : Label} (h : s.Clear capacity)
    (ht : (if s.outbox.isEmpty then (s.sys.reply l).map fun r => s.answer r.1 r.2 else none) = some t) :
    t.Clear capacity := by
  split at ht
  · rename_i hempty
    obtain ⟨r,hr,rfl⟩ := Option.map_eq_some_iff.mp ht
    exact h.answer (List.isEmpty_iff.mp hempty) (System.reply_down hr)
  · cases ht

theorem Daemon.Clear.sent {s : Daemon} {net : Net HubMsg} (hnet : ∀ w, (net w).down.length ≤ capacity) :
    (s.sent net).Clear capacity where
  bounded := hnet
  awake _ := rfl
  roomy := by
    rintro w ⟨hasleep,-⟩
    cases hasleep

theorem Daemon.Clear.masterSend {s t : Daemon} (h : s.Clear capacity) (hg : s.roomFor capacity .masterSend = true)
    (ht : s.masterSend capacity = some t) : t.Clear capacity := by
  unfold Daemon.masterSend at ht
  unfold Daemon.roomFor at hg
  split at ht
  · cases ht
  · rename_i w m rest hout
    rw [hout] at hg
    split_ifs at ht with hgone hroom hasleep
    · cases ht
      exact Daemon.Clear.sent h.bounded
    · cases ht
      refine Daemon.Clear.sent fun w' => ?_
      rw [Net.deliver_down,addressed_cons,List.length_append]
      split
      · rename_i heq
        cases heq
        simpa using Nat.succ_le_of_lt hroom
      · simpa using h.bounded w'
    · cases ht
      refine ⟨h.bounded,fun he => absurd he (by rw [hout]; simp),?_⟩
      rintro w' ⟨-,hhead,hrunning,hfull⟩
      rw [hout] at hhead
      cases hhead
      simp only [Bool.or_eq_true,decide_eq_true_eq] at hg
      rcases hg with (hdead | hlt) | hfits
      · exact absurd hdead hgone
      · exact absurd hlt hroom
      · exact hfits

/-! ## Steps of the workers -/

theorem System.recv_empty {s : System} {w : ℕ} {reset : Bool} (h : s.recv w reset = .empty) :
    (s.net w).down = [] := by
  unfold System.recv at h
  split at h
  · cases h
  · split at h
    · cases h
    · assumption

theorem System.effect_owes {s : System} {w : ℕ} {reset : Bool} {input : Input} {r : Net HubMsg × Effect}
    (h : s.effect w reset input = some r) (hk : 1 ≤ capacity) (hb : (s.net w).down.length ≤ capacity)
    (hfull : capacity ≤ (r.1 w).down.length) :
    (r.1 w).up = (s.net w).up ∧ r.2.sent.length + r.2.worker.owes ≤ (s.workers w).owes := by
  unfold System.effect at h
  split at h
  · obtain ⟨e,he,rfl⟩ := Option.map_eq_some_iff.mp h
    have hstep := Worker.step_inv he
    have htook := s.took_afterRecv w reset input
    dsimp only at hfull ⊢
    generalize hrecv : s.recv w reset = hub at hstep htook hfull ⊢
    generalize s.afterRecv w hub input = net at htook hfull ⊢
    cases htook with
    | msg hd =>
      -- the message it took left a free place
      rw [Net.dropDown_down,if_pos rfl,hd,List.tail_cons] at hfull
      rw [hd,List.length_cons] at hb
      omega
    | none hnone =>
      refine ⟨rfl,?_⟩
      by_cases hin : input = .recv
      · subst hin
        cases hub with
        | msg m => exact absurd rfl (hnone rfl m)
        | empty =>
          rw [System.recv_empty hrecv,List.length_nil] at hfull
          omega
        | closed =>
          obtain ⟨hsent,howes⟩ := hstep.owes_closed
          rw [hsent,howes]
          exact Nat.zero_le _
      · exact hstep.owes hin
  · cases h

theorem System.effect_running {s : System} {w : ℕ} {reset : Bool} {input : Input} {r : Net HubMsg × Effect}
    (h : s.effect w reset input = some r) : s.running w = true := by
  unfold System.effect at h
  split at h
  · assumption
  · cases h

/-- A step of worker `w` reads at most one message of its own hub. -/
theorem System.effect_net {s : System} {w : ℕ} {reset : Bool} {input : Input} {r : Net HubMsg × Effect}
    (h : s.effect w reset input = some r) (w' : ℕ) :
    (r.1 w').up = (s.net w').up ∧ (r.1 w').down.length ≤ (s.net w').down.length := by
  unfold System.effect at h
  split at h
  · obtain ⟨e,-,rfl⟩ := Option.map_eq_some_iff.mp h
    have htook := s.took_afterRecv w reset input
    dsimp only
    generalize s.recv w reset = hub at htook ⊢
    generalize s.afterRecv w hub input = net at htook ⊢
    cases htook with
    | msg hd => exact ⟨Net.dropDown_up ..,(Net.dropDown_suffix ..).length_le⟩
    | none _ => exact ⟨rfl,Nat.le_refl _⟩
  · cases h

theorem System.running_update {s t : System} (hseq : t.master.roomSeq = s.master.roomSeq) {w : ℕ} {x : Worker}
    (hworkers : t.workers = Function.update s.workers w x) (hw : s.running w = true) (w' : ℕ)
    (h : t.running w' = true) : s.running w' = true := by
  by_cases heq : w' = w
  · rw [heq]
    exact hw
  · simpa only [System.running,hseq,hworkers,Function.update_of_ne heq] using h

theorem Daemon.Clear.work {s : Daemon} (h : s.Clear capacity) (hk : 1 ≤ capacity) {w : ℕ} {reset : Bool}
    {input : Input} {r : Net HubMsg × Effect} (hr : s.sys.effect w reset input = some r)
    (hempty : s.outboxes w = []) : (s.work r.1 w r.2).Clear capacity := by
  refine h.aside rfl rfl (fun w' => (System.effect_net hr w').2) ?_ ?_
  · rintro w' - ⟨-,-,-,hfull⟩
    change capacity ≤ (r.1 w').down.length at hfull
    simp only [Daemon.load,Daemon.work,System.work]
    by_cases heq : w' = w
    · subst heq
      obtain ⟨hup,howes⟩ := System.effect_owes hr hk (h.bounded w') hfull
      rw [Function.update_self,Function.update_self,hup,hempty,List.length_nil]
      omega
    · rw [Function.update_of_ne heq,Function.update_of_ne heq,(System.effect_net hr w').1]
  · exact System.running_update rfl rfl (System.effect_running hr)

theorem Daemon.Clear.workerSent {s : Daemon} (h : s.Clear capacity) {net : Net HubMsg} {w : ℕ}
    (hdown : ∀ w', (net w').down = (s.sys.net w').down) (hother : ∀ w', w' ≠ w → (net w').up = (s.sys.net w').up)
    (hup : (net w).up.length + (s.outboxes w).tail.length ≤ (s.sys.net w).up.length + (s.outboxes w).length) :
    (s.workerSent net w).Clear capacity := by
  refine h.aside rfl rfl (fun w' => (congrArg List.length (hdown w')).le) ?_ (fun _ hrun => hrun)
  rintro w' - -
  simp only [Daemon.load,Daemon.workerSent]
  by_cases heq : w' = w
  · subst heq
    rw [Function.update_self]
    omega
  · rw [Function.update_of_ne heq,hother w' heq]

theorem Daemon.Clear.workerSend {s t : Daemon} (h : s.Clear capacity) {w : ℕ}
    (ht : s.workerSend capacity w = some t) : t.Clear capacity := by
  unfold Daemon.workerSend at ht
  split at ht
  · cases ht
  · rename_i m rest hout
    split_ifs at ht
    · cases ht
      refine h.workerSent (fun _ => rfl) (fun _ _ => rfl) ?_
      rw [hout,List.tail_cons,List.length_cons]
      omega
    · cases ht
      refine h.workerSent (fun w' => Net.push_down ..) (fun w' hne => ?_) ?_
      · rw [Net.push_up,if_neg hne]
      · rw [Net.push_up,if_pos rfl,hout,List.tail_cons,List.length_append]
        simp only [List.length_cons,List.length_nil]
        omega
    · cases ht
      exact h.aside rfl rfl (fun _ => Nat.le_refl _) (fun _ _ _ => Nat.le_refl _) (fun _ hrun => hrun)

theorem Daemon.Clear.update {s : Daemon} (h : s.Clear capacity) {w : ℕ} (hw : s.sys.running w = true) {x : Worker}
    {t : System} (hseq : t.master.roomSeq = s.sys.master.roomSeq) (hnet : t.net = s.sys.net)
    (hworkers : t.workers = Function.update s.sys.workers w x) (hx : x.owes ≤ (s.sys.workers w).owes) :
    ({ s with sys := t } : Daemon).Clear capacity := by
  refine h.aside rfl rfl (fun w' => by rw [hnet]) ?_ (System.running_update hseq hworkers hw)
  rintro w' - -
  simp only [Daemon.load,hnet,hworkers]
  by_cases heq : w' = w
  · subst heq
    rw [Function.update_self]
    omega
  · rw [Function.update_of_ne heq]

/-! ## Runs -/

theorem Daemon.Clear.step {s t : Daemon} {l : HubLabel} (hk : 1 ≤ capacity) (h : s.Clear capacity)
    (hg : s.roomFor capacity l = true) (ht : s.step capacity l = some t) : t.Clear capacity := by
  cases l with
  | masterSend => exact h.masterSend hg ht
  | workerSend w => exact h.workerSend ht
  | act l =>
    cases l with
    | worker w reset input =>
      simp only [Daemon.step] at ht
      split at ht
      · rename_i hempty
        obtain ⟨r,hr,rfl⟩ := Option.map_eq_some_iff.mp ht
        exact h.work hk hr (List.isEmpty_iff.mp hempty)
      · cases ht
    | connect w =>
      obtain ⟨u,hu,rfl⟩ := Option.map_eq_some_iff.mp ht
      simp only [System.step] at hu
      split at hu
      · obtain ⟨srv,-,rfl⟩ := Option.map_eq_some_iff.mp hu
        exact h.update ‹_› rfl rfl rfl (Nat.le_refl _)
      · cases hu
    | handshake w ok =>
      obtain ⟨u,hu,rfl⟩ := Option.map_eq_some_iff.mp ht
      simp only [System.step] at hu
      split at hu
      · obtain ⟨r,-,rfl⟩ := Option.map_eq_some_iff.mp hu
        exact h.update ‹_› rfl rfl rfl (Nat.le_refl _)
      · cases hu
    | crash w =>
      obtain ⟨u,hu,rfl⟩ := Option.map_eq_some_iff.mp ht
      simp only [System.step] at hu
      split at hu
      · cases hu
        exact h.update ‹_› rfl rfl rfl (Nat.zero_le _)
      · cases hu
    | accept client forkOk => exact h.act ht
    | enter => exact h.act ht
    | hub slot => exact h.act ht
    | hangUp slot => exact h.act ht
    | endPass stopRequested => exact h.act ht

/-- In every run in which the master only ever waits for a worker whose messages fit, the two
never wait for each other. -/
theorem Daemon.hub_clear_of_room {roomSize : ℕ} (hk : 1 ≤ capacity) {ls : List HubLabel} {u : Daemon}
    (hr : run (guarded (Daemon.roomFor capacity) (Daemon.step capacity)) (.init roomSize) ls = some u) (w : ℕ) :
    ¬(u.MasterBlocked capacity w ∧ u.WorkerBlocked capacity w) := by
  have hclear : u.Clear capacity := by
    refine run_invariant (I := Daemon.Clear capacity) ?_ hr (Daemon.init_clear roomSize)
    intro s l t hs ht
    obtain ⟨hg,ht⟩ := guarded_eq_some.mp ht
    exact hs.step hk hg ht
  exact hclear.not_deadlocked w

/-! ## Two rooms of two -/

/-- Room `w` opens its lobby and reports two clients, each as soon as the hub is free. -/
def fillRoom (w : ℕ) (slot : Fin maxRooms) : List HubLabel :=
  [.act (.worker w false (.boot true)),.workerSend w,.act (.hub slot),
    .act (.connect w),.act (.handshake w true),.act (.connect w),.act (.handshake w true),
    .act (.worker w false .poll),.workerSend w,.act (.hub slot),.workerSend w,.act (.hub slot),
    .act (.worker w false .recv),.act (.worker w false (.check false fun _ _ => 0))]

/-- Four clients in two rooms, then ENTER: the master orders the first room to start. -/
def startOrder : List HubLabel :=
  [.act (.accept 1 true),.act (.accept 2 true)] ++ fillRoom 0 firstSlot ++
  [.act (.accept 3 true),.act (.accept 4 true)] ++ fillRoom 1 secondSlot ++ [.act .enter,.masterSend]

/-- The master waits to send the roster to the first room, which still has the order to
start in its hub and nothing to send. -/
theorem hub_clear_at_start :
    ∃ u, run (guarded (Daemon.roomFor 1) (Daemon.step 1)) (.init 2) (startOrder ++ [.masterSend]) = some u ∧
      u.MasterBlocked 1 0 ∧ ¬(u.MasterBlocked 1 0 ∧ u.WorkerBlocked 1 0) := by
  obtain ⟨u,hu,hblocked⟩ := exists_of_run_any (guarded (Daemon.roomFor 1) (Daemon.step 1)) (.init 2)
    (startOrder ++ [.masterSend]) (fun u : Daemon => decide (u.MasterBlocked 1 0)) (by decide +kernel)
  exact ⟨u,hu,of_decide_eq_true hblocked,Daemon.hub_clear_of_room (Nat.le_refl 1) hu 0⟩

/-- Both players of a running room quit, and the room ticks. -/
def quitBoth (w id : ℕ) : List HubLabel :=
  [.act (.worker w false (.client (.action id .quit) fun _ => 0)),
    .act (.worker w false (.client (.action (id + 1) .quit) fun _ => 0)),
    .act (.worker w false .clientsDone),.act (.worker w false .recv),
    .act (.worker w false (.tick fun _ _ => 0))]

/-- Both rooms start; all players quit. The second room reports its two eliminations, the
first one is about to while the master tells it of the second room's. -/
def standoff : List HubLabel :=
  startOrder ++
  [.act (.worker 0 false .poll),.act (.worker 0 false .recv),.masterSend,.act (.worker 0 false .recv),
    .masterSend,.masterSend,
    .act (.worker 1 false .poll),.act (.worker 1 false .recv),.masterSend,
    .act (.worker 0 false .recv),.act (.worker 0 false .recv),
    .act (.worker 0 false (.check false fun _ _ => 0)),
    .act (.worker 1 false .recv),.act (.worker 1 false .recv),
    .act (.worker 1 false (.check false fun _ _ => 0))] ++
  quitBoth 0 1 ++ quitBoth 1 3 ++
  [.act (.worker 1 false .report),.workerSend 1,.act (.hub secondSlot),.masterSend,.masterSend,
    .act (.worker 1 false .report),.workerSend 1,.act (.hub secondSlot),
    .act (.worker 0 false .report),.workerSend 0,.act (.worker 0 false .report),.workerSend 0,.masterSend]

/-- With hubs that hold one message the master and the first room end up asleep, each in a
`hub_send` to the other. -/
theorem master_and_room_deadlock :
    ∃ u, run (Daemon.step 1) (.init 2) standoff = some u ∧ u.MasterBlocked 1 0 ∧ u.WorkerBlocked 1 0 := by
  obtain ⟨u,hu,hboth⟩ := exists_of_run_any (Daemon.step 1) (.init 2) standoff
    (fun u : Daemon => decide (u.MasterBlocked 1 0 ∧ u.WorkerBlocked 1 0)) (by decide +kernel)
  exact ⟨u,hu,of_decide_eq_true hboth⟩

end CoreStack.Tetrisd
