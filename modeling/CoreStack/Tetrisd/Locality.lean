import CoreStack.Tetrisd.System

/-! # What a step of the daemon can touch

A worker is changed only by its own moves, a hub only by its two ends, and the
log only grows. Invariants of single workers follow from their moves alone.
-/
namespace CoreStack.Tetrisd
open Star

def roomLog (w : ℕ) (log : List Obs) : List RoomObs :=
  log.filterMap fun
    | .room w' o => if w' = w then some o else none
    | .master _ => none

@[simp] theorem roomLog_nil (w : ℕ) : roomLog w [] = [] := rfl

@[simp] theorem roomLog_append (w : ℕ) (log log' : List Obs) :
    roomLog w (log ++ log') = roomLog w log ++ roomLog w log' := List.filterMap_append

@[simp] theorem roomLog_master (w : ℕ) (outs : List MasterOut) : roomLog w (outs.map .master) = [] := by
  simp [roomLog,List.filterMap_map]

theorem roomLog_room (w w' : ℕ) (obs : List RoomObs) :
    roomLog w (obs.map (.room w')) = if w' = w then obs else [] := by
  unfold roomLog
  rw [List.filterMap_map]
  split
  · rename_i h
    simp [h]
  · rename_i h
    simp [h]

theorem mem_roomLog {w : ℕ} {o : RoomObs} {log : List Obs} : o ∈ roomLog w log ↔ Obs.room w o ∈ log := by
  unfold roomLog
  rw [List.mem_filterMap]
  constructor
  · rintro ⟨x,hx,h⟩
    split at h
    · split at h
      · cases h
        rename_i h
        exact h ▸ hx
      · cases h
    · cases h
  · intro h
    exact ⟨_,h,by simp⟩

theorem mem_append_room {v w : ℕ} {o : RoomObs} {log : List Obs} {obs : List RoomObs} :
    Obs.room v o ∈ log ++ obs.map (.room w) ↔ Obs.room v o ∈ log ∨ v = w ∧ o ∈ obs := by
  rw [List.mem_append,List.mem_map]
  refine or_congr_right ⟨?_,fun ⟨hv,ho⟩ => ⟨o,ho,by rw [hv]⟩⟩
  rintro ⟨o',ho,he⟩
  cases he
  exact ⟨rfl,ho⟩

theorem mem_append_master {v : ℕ} {o : RoomObs} {log : List Obs} {outs : List MasterOut} :
    Obs.room v o ∈ log ++ outs.map .master ↔ Obs.room v o ∈ log := by
  simp

theorem born_eq_of_rewired {m m' : Master} {outs : List MasterOut} (h : m.Rewired m' outs)
    (workers : ℕ → Worker) {w : ℕ} (hw : w < m.roomSeq) : born outs workers w = workers w := by
  unfold born
  cases h with
  | kept hq hf hc => rw [hf]; rfl
  | closed slot hq hf hu hk hc => rw [hf]; rfl
  | spawned slot hq hf hu hfd hs hc =>
    rw [hf]
    exact Function.update_of_ne (by omega) ..

theorem Master.Rewired.roomSeq_le {m m' : Master} {outs : List MasterOut} (h : m.Rewired m' outs) :
    m.roomSeq ≤ m'.roomSeq := by
  cases h <;> omega

/-- A worker that was not there before is the fork of this very event. -/
theorem born_new {m m' : Master} {outs : List MasterOut} (h : m.Rewired m' outs) (workers : ℕ → Worker) {w : ℕ}
    (hw : w < m'.roomSeq) (hn : ¬w < m.roomSeq) :
    w = m.roomSeq ∧ born outs workers w = Worker.init ((1 + w * maxLobbySize) % 4294967296) := by
  cases h with
  | kept hq hf hc => omega
  | closed slot hq hf hu hk hc => omega
  | spawned slot hq hf hu hfd hs hc =>
    have he : w = m.roomSeq := by omega
    refine ⟨he,?_⟩
    unfold born
    rw [hf,he]
    exact Function.update_self ..

/-- The moves of one worker, with what they add to its log. -/
inductive System.Moves (s : System) (w : ℕ) : Label → Worker → List RoomObs → Prop
  | connect {srv : Server} (ha : (s.workers w).server.accept = some srv) :
      Moves s w (.connect w) { s.workers w with server := srv } []
  | handshake {ok : Bool} {r : Server × List RoomObs} (hf : (s.workers w).server.finish ok = some r) :
      Moves s w (.handshake w ok) { s.workers w with server := r.1 } r.2
  | worker {reset : Bool} {input : Input} {e : Effect} {hub : HubRecv} (hr : s.recv w reset = hub)
      (hs : Worker.Step s.serial hub (s.workers w) input e) :
      Moves s w (.worker w reset input) e.worker e.obs
  | crash : Moves s w (.crash w) { s.workers w with pc := .exited } []

theorem System.Step.local_cases {s t : System} {l : Label} (h : System.Step s l t) {w : ℕ}
    (hw : w < s.master.roomSeq) :
    (t.workers w = s.workers w ∧ roomLog w t.log = roomLog w s.log) ∨
    ∃ obs, s.Moves w l (t.workers w) obs ∧ roomLog w t.log = roomLog w s.log ++ obs := by
  cases h with
  | act hm hl hev hc =>
    left
    refine ⟨born_eq_of_rewired hm.rewired s.workers hw,?_⟩
    simp [System.answer]
  | hub hw' hu hup hm =>
    left
    subst hm
    refine ⟨born_eq_of_rewired (handleHubMsg_rewired s.master _ _) s.workers hw,?_⟩
    simp [System.answer]
  | @connect w' srv hw' ha =>
    by_cases he : w' = w
    · subst he
      refine .inr ⟨[],?_,by simp [System.serve]⟩
      simp only [System.serve,Function.update_self]
      exact .connect ha
    · left
      exact ⟨Function.update_of_ne (Ne.symm he) ..,by simp [System.serve]⟩
  | @handshake w' ok r hw' hf =>
    by_cases he : w' = w
    · subst he
      refine .inr ⟨r.2,?_,by simp [System.serve,roomLog_room]⟩
      simp only [System.serve,Function.update_self]
      exact .handshake hf
    · left
      exact ⟨Function.update_of_ne (Ne.symm he) ..,by simp [System.serve,roomLog_room,he]⟩
  | @worker w' reset input e net hub hw' hr ht hs =>
    by_cases he : w' = w
    · subst he
      refine .inr ⟨e.obs,?_,by simp [System.work,roomLog_room]⟩
      simp only [System.work,Function.update_self]
      exact .worker hr hs
    · left
      exact ⟨Function.update_of_ne (Ne.symm he) ..,by simp [System.work,roomLog_room,he]⟩
  | @crash w' hw' =>
    by_cases he : w' = w
    · subst he
      refine .inr ⟨[],?_,by simp [System.kill]⟩
      simp only [System.kill,Function.update_self]
      exact .crash
    · left
      exact ⟨Function.update_of_ne (Ne.symm he) ..,rfl⟩

theorem System.Step.rewired {s t : System} {l : Label} (h : System.Step s l t) :
    t.master = s.master ∨ ∃ outs, s.master.Rewired t.master outs ∧ t.log = s.log ++ outs.map .master ∧
      t.workers = born outs s.workers := by
  cases h with
  | act hm hl hev hc => exact .inr ⟨_,hm.rewired,rfl,rfl⟩
  | hub hw hu hup hm =>
    subst hm
    exact .inr ⟨_,handleHubMsg_rewired s.master _ _,rfl,rfl⟩
  | connect hw ha => exact .inl rfl
  | handshake hw hf => exact .inl rfl
  | worker hw hr ht hs => exact .inl rfl
  | crash hw => exact .inl rfl

/-! ## Soundness of the wiring -/

/-- Nothing has happened yet on hubs and in rooms that do not exist. -/
structure System.Sound (s : System) : Prop where
  wired : s.master.Wired
  links : ∀ w, ¬w < s.master.roomSeq → (s.net w).up = [] ∧ (s.net w).down = []
  logged : ∀ w, ¬w < s.master.roomSeq → roomLog w s.log = []

theorem System.init_sound (roomSize : ℕ) : (System.init roomSize).Sound :=
  ⟨Master.init_wired roomSize,fun _ _ => ⟨rfl,rfl⟩,fun _ _ => rfl⟩

theorem System.Sound.born {s : System} (h : s.Sound) {w : ℕ} {o : RoomObs} (ho : Obs.room w o ∈ s.log) :
    w < s.master.roomSeq := by
  by_contra hn
  have hm := mem_roomLog.mpr ho
  rw [h.logged w hn] at hm
  cases hm

theorem System.Sound.links_dropUp {s : System} (h : s.Sound) (w v : ℕ) (hv : ¬v < s.master.roomSeq) :
    (s.net.dropUp w v).up = [] ∧ (s.net.dropUp w v).down = [] := by
  obtain ⟨hup,hdown⟩ := h.links v hv
  have hsuffix := s.net.dropUp_suffix w v
  rw [hup] at hsuffix
  exact ⟨List.suffix_nil.mp hsuffix,by rw [Net.dropUp_down,hdown]⟩

theorem mem_sends {outs : List MasterOut} {fd : ℕ} {m : HubMsg} : (fd,m) ∈ sends outs ↔ .send fd m ∈ outs := by
  unfold sends
  rw [List.mem_filterMap]
  constructor
  · rintro ⟨o,ho,h⟩
    split at h
    · cases h
      exact ho
    · cases h
  · intro h
    exact ⟨_,h,rfl⟩

theorem addressed_eq_nil {m : Master} (hw : m.Wired) {outs : List MasterOut} (ha : m.Addresses outs) {w : ℕ}
    (h : ¬w < m.roomSeq) : addressed (sends outs) w = [] := by
  refine List.eq_nil_iff_forall_not_mem.mpr ?_
  intro msg hm
  obtain ⟨i,hu,rfl⟩ := ha w msg (mem_sends.mp (mem_addressed.mp hm))
  exact h (hw.lt i hu)

theorem System.Sound.answer {s : System} (h : s.Sound) {net : Net HubMsg} {q : MasterReply}
    (hr : s.master.Rewired q.1 q.2) (ha : s.master.Addresses q.2)
    (hn : ∀ w, ¬w < s.master.roomSeq → (net w).up = [] ∧ (net w).down = []) : (s.answer net q).Sound := by
  have hle := hr.roomSeq_le
  refine ⟨h.wired.rewired hr,fun w hw => ?_,fun w hw => ?_⟩
  · have hold : ¬w < s.master.roomSeq := fun h => hw (h.trans_le hle)
    simp only [System.answer,Net.deliver_up,Net.deliver_down,addressed_eq_nil h.wired ha hold,List.append_nil]
    exact hn w hold
  · have hold : ¬w < s.master.roomSeq := fun h => hw (h.trans_le hle)
    simp [System.answer,h.logged w hold]

theorem System.step_sound (s : System) (l : Label) (t : System) (h : s.Sound) (ht : s.step l = some t) :
    t.Sound := by
  cases System.step_inv ht with
  | act hm hl hev hc => exact h.answer hm.rewired hm.addresses h.links
  | @hub slot w m rest q hw hu hup hm =>
    subst hm
    exact h.answer (handleHubMsg_rewired s.master slot m) (handleHubMsg_addresses s.master slot m) (h.links_dropUp w)
  | @connect w srv hw ha =>
    refine ⟨h.wired,h.links,fun w' hw' => ?_⟩
    simp [System.serve,h.logged w' hw']
  | @handshake w ok r hw hf =>
    refine ⟨h.wired,h.links,fun w' hw' => ?_⟩
    have hne : w ≠ w' := fun he => hw' (he ▸ hw)
    simp [System.serve,h.logged w' hw',roomLog_room,hne]
  | @worker w reset input e net hub hw hr hk hs =>
    refine ⟨h.wired,fun w' hw' => ?_,fun w' hw' => ?_⟩
    · have hne : w' ≠ w := fun he => hw' (he ▸ hw)
      have hold := h.links w' hw'
      cases hk with
      | msg hd => simpa [System.work,Net.push_up,Net.dropDown_down,hne] using hold
      | none hn => simpa [System.work,Net.push_up,hne] using hold
    · have hne : w ≠ w' := fun he => hw' (he ▸ hw)
      simp [System.work,h.logged w' hw',roomLog_room,hne]
  | crash hw => exact ⟨h.wired,h.links,h.logged⟩

/-- An invariant of single workers: it holds at the fork and every move keeps it. -/
theorem System.local_step {s t : System} {l : Label} (ht : s.step l = some t) (hs : s.Sound)
    (I : ℕ → Worker → List RoomObs → Prop)
    (hfork : ∀ w, I w (Worker.init ((1 + w * maxLobbySize) % 4294967296)) [])
    (hmove : ∀ w wk obs, w < s.master.roomSeq → I w (s.workers w) (roomLog w s.log) → s.Moves w l wk obs →
      I w wk (roomLog w s.log ++ obs))
    (h : ∀ w, w < s.master.roomSeq → I w (s.workers w) (roomLog w s.log)) :
    ∀ w, w < t.master.roomSeq → I w (t.workers w) (roomLog w t.log) := by
  have hstep := System.step_inv ht
  intro w hw
  by_cases hold : w < s.master.roomSeq
  · rcases hstep.local_cases hold with ⟨hwk,hlog⟩ | ⟨obs,hm,hlog⟩
    · rw [hwk,hlog]
      exact h w hold
    · rw [hlog]
      exact hmove w _ obs hold (h w hold) hm
  · rcases hstep.rewired with hm | ⟨outs,hr,hlog,hwk⟩
    · rw [hm] at hw
      exact absurd hw hold
    · obtain ⟨-,hb⟩ := born_new hr s.workers hw hold
      rw [hwk,hb,hlog,roomLog_append,roomLog_master,hs.logged w hold]
      exact hfork w

/-! ## What a worker takes out of its hub -/

/-- The message a worker takes out of its hub with this input, if any. -/
def taken (hub : HubRecv) (input : Input) : List HubMsg :=
  match input, hub with
  | .recv, .msg m => [m]
  | _, _ => []

theorem System.Took.downCount {s : System} {w : ℕ} {hub : HubRecv} {input : Input} {net : Net HubMsg}
    (ht : s.Took w hub input net) {n : ℕ} (hw : w < n) (p : HubMsg → Bool) :
    net.downCount n p + (taken hub input).countP p = s.net.downCount n p := by
  cases ht with
  | @msg m rest hd =>
    have h := s.net.downCount_dropDown hw hd p
    simpa [taken,List.countP_cons] using h
  | none h =>
    have hno : taken hub input = [] := by
      unfold taken
      split
      · exact absurd rfl (h rfl _)
      · rfl
    rw [hno]
    rfl

theorem System.Took.up {s : System} {w : ℕ} {hub : HubRecv} {input : Input} {net : Net HubMsg}
    (ht : s.Took w hub input net) (v : ℕ) : (net v).up = (s.net v).up := by
  cases ht with
  | msg hd => exact Net.dropDown_up ..
  | none h => rfl

theorem System.Took.upCount {s : System} {w : ℕ} {hub : HubRecv} {input : Input} {net : Net HubMsg}
    (ht : s.Took w hub input net) (n : ℕ) (p : HubMsg → Bool) : net.upCount n p = s.net.upCount n p := by
  simp only [Net.upCount,ht.up]

theorem System.Took.mem_up {s : System} {w : ℕ} {hub : HubRecv} {input : Input} {net : Net HubMsg} {e : Effect}
    (ht : s.Took w hub input net) {v : ℕ} {m : HubMsg} (hm : m ∈ ((s.work net w e).net v).up) :
    m ∈ (s.net v).up ∨ v = w ∧ m ∈ e.sent := by
  simp only [System.work,Net.push_up,ht.up] at hm
  split at hm
  · rename_i hv
    exact (List.mem_append.mp hm).imp_right fun hm => ⟨hv,hm⟩
  · exact .inl hm

theorem System.Took.down_subset {s : System} {w : ℕ} {hub : HubRecv} {input : Input} {net : Net HubMsg}
    (ht : s.Took w hub input net) {v : ℕ} {m : HubMsg} (hm : m ∈ (net v).down) : m ∈ (s.net v).down := by
  cases ht with
  | msg hd => exact (Net.dropDown_suffix ..).subset hm
  | none h => exact hm

theorem System.Took.mem {s : System} {w : ℕ} {hub : HubRecv} {input : Input} {net : Net HubMsg}
    (ht : s.Took w hub input net) (hi : input = .recv) {m : HubMsg} (hh : hub = .msg m) :
    m ∈ (s.net w).down := by
  cases ht with
  | msg hd =>
    cases hh
    rw [hd]
    exact List.mem_cons_self
  | none h => exact absurd hh (h hi m)

theorem System.Took.down_eq {s : System} {w : ℕ} {hub : HubRecv} {input : Input} {net : Net HubMsg}
    (ht : s.Took w hub input net) : (s.net w).down = taken hub input ++ (net w).down := by
  cases ht with
  | msg hd => simp [taken,Net.dropDown_down,hd]
  | none h =>
    unfold taken
    split
    · exact absurd rfl (h rfl _)
    · rfl

theorem System.Took.down_ne {s : System} {w v : ℕ} {hub : HubRecv} {input : Input} {net : Net HubMsg}
    (ht : s.Took w hub input net) (hv : v ≠ w) : (net v).down = (s.net v).down := by
  cases ht with
  | msg hd => rw [Net.dropDown_down,if_neg hv]
  | none h => rfl

/-! ## Pieces of short runs -/

def joins (w : ℕ) (ok : Bool) : List Label := [.connect w,.handshake w ok]

/-- Worker `w` takes `n` results from its hub. -/
def hears (w n : ℕ) : List Label := List.replicate n (.worker w false .recv)

/-- The master takes `n` messages of one room. -/
def reads (slot : Fin maxRooms) (n : ℕ) : List Label := List.replicate n (.hub slot)

def noRand (_ _ : ℕ) : ℕ := 0

/-- Two rooms of two seats; the second has one player and waits for another when
the operator presses ENTER. -/
def opening : List Label :=
  [.accept 10 true,.accept 11 true,.accept 12 true,.accept 13 true,.worker 0 false (.boot true),
    .worker 1 false (.boot true)] ++
  joins 0 true ++ joins 0 true ++ joins 1 true ++ [.worker 0 false .poll,.worker 1 false .poll] ++
  reads firstSlot 3 ++ reads secondSlot 2 ++ [.enter]

/-- Worker `w` handles an action of one of its clients. -/
def plays (w playerId : ℕ) (action : PlayerAction) : Label :=
  .worker w false (.client (.action playerId action) fun _ => 0)

/-- Worker `w` goes from its clients over its hub, with `n` messages waiting, to its boards. -/
def ticks (w n : ℕ) : List Label :=
  [.worker w false .clientsDone] ++ hears w (n + 1) ++ [.worker w false (.tick noRand)]

/-- The first room, complete, starts its match. -/
def kickoff : List Label := hears 0 4 ++ [.worker 0 false (.check false noRand)]

end CoreStack.Tetrisd
