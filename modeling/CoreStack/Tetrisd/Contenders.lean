import CoreStack.Tetrisd.Decision

/-! # Who decides the match: players of started rooms and players in a lobby

`check_global_end` looks at every record. Its answer is right for the players of
started rooms as long as nobody alive waits in a lobby, or the waiting players
cannot tip the count.
-/
namespace CoreStack.Tetrisd

/-- The room behind this hub has been ordered to start. -/
def startedHub (log : List MasterOut) (fd : ℕ) : Bool :=
  log.any fun
    | .send fd' (.start _) => fd' == fd
    | _ => false

theorem startedHub_iff {log : List MasterOut} {fd : ℕ} :
    startedHub log fd = true ↔ ∃ n, MasterOut.send fd (.start n) ∈ log := by
  unfold startedHub
  rw [List.any_eq_true]
  constructor
  · rintro ⟨o,ho,h⟩
    split at h
    · rw [beq_iff_eq] at h
      exact ⟨_,h ▸ ho⟩
    · cases h
  · rintro ⟨n,hn⟩
    exact ⟨_,hn,beq_self_eq_true fd⟩

def NoStart (outs : List MasterOut) : Prop := ∀ fd n, MasterOut.send fd (.start n) ∉ outs

theorem startedHub_append_noStart (log : List MasterOut) {outs : List MasterOut} (h : NoStart outs) :
    startedHub (log ++ outs) = startedHub log := by
  funext fd
  rw [Bool.eq_iff_iff,startedHub_iff,startedHub_iff]
  refine exists_congr fun n => ?_
  rw [List.mem_append,or_iff_left (h fd n)]

theorem startedHub_append_left {log : List MasterOut} {fd : ℕ} (h : startedHub log fd = true)
    (outs : List MasterOut) : startedHub (log ++ outs) fd = true := by
  obtain ⟨n,hn⟩ := startedHub_iff.mp h
  exact startedHub_iff.mpr ⟨n,List.mem_append_left _ hn⟩

theorem Clerical.noStart {outs : List MasterOut} (h : Clerical outs) : NoStart outs :=
  fun fd n hm => (by cases h _ hm)

theorem NoStart.append {outs outs' : List MasterOut} (h : NoStart outs) (h' : NoStart outs') :
    NoStart (outs ++ outs') := by
  intro fd n hm
  exact (List.mem_append.mp hm).elim (h fd n) (h' fd n)

theorem sendTo_noStart (m : Master) (p : Fin maxRooms → Bool) {msg : HubMsg} (h : ∀ n, msg ≠ .start n) :
    NoStart (m.sendTo p msg) := by
  intro fd n hm
  obtain ⟨i,-,he⟩ := Master.mem_sendTo.mp hm
  cases he
  exact h n rfl

theorem broadcastRoster_noStart (m : Master) : NoStart (broadcastRoster m) :=
  sendTo_noStart m _ fun n h => (by cases h)

theorem checkGlobalEnd_noStart (m : Master) : NoStart (checkGlobalEnd m).2 := by
  unfold checkGlobalEnd
  split
  · exact Clerical.nil.noStart
  · split
    · refine (sendTo_noStart m _ fun n h => (by cases h)).append ?_
      intro fd n hm
      cases List.mem_singleton.mp hm
    · exact Clerical.nil.noStart

/-- Alive players of started rooms. -/
def standing (log : List MasterOut) (players : List PlayerRec) : ℕ :=
  players.countP fun p => p.alive && startedHub log p.fd

/-- Alive players still waiting in a lobby. -/
def lingering (log : List MasterOut) (players : List PlayerRec) : ℕ :=
  players.countP fun p => p.alive && !startedHub log p.fd

/-- Players of started rooms that are out. -/
def fallen (log : List MasterOut) (players : List PlayerRec) : ℕ :=
  players.countP fun p => !p.alive && startedHub log p.fd

def contenders (log : List MasterOut) (players : List PlayerRec) : ℕ :=
  players.countP fun p => startedHub log p.fd

theorem standing_add_fallen (log : List MasterOut) (players : List PlayerRec) :
    standing log players + fallen log players = contenders log players := by
  unfold standing fallen contenders
  induction players with
  | nil => rfl
  | cons p players ih =>
    simp only [List.countP_cons]
    cases p.alive <;> cases startedHub log p.fd <;> simp <;> omega

theorem standing_add_lingering (log : List MasterOut) (m : Master) :
    standing log m.players + lingering log m.players = m.alive.length := by
  unfold standing lingering Master.alive
  rw [← List.countP_eq_length_filter]
  induction m.players with
  | nil => rfl
  | cons p players ih =>
    simp only [List.countP_cons]
    cases p.alive <;> cases startedHub log p.fd <;> simp <;> omega

/-- The records `check_global_end` is called on in this event, if it is called. -/
def Master.checked (m : Master) : MasterEvent → Option Master
  | .recv _ (.eliminated playerId) => some (m.kill fun q => q.id == playerId)
  | .close slot =>
    let hit := fun q : PlayerRec => decide (q.room = slot) && q.alive
    if !m.matchEnded && m.players.any hit then some ((m.freeRoom slot).kill hit) else none
  | _ => none

/-- What one event is for the contest. -/
inductive Master.Turn (m : Master) (ev : MasterEvent) (q : MasterReply) : Prop
  | quiet (hp : q.1.players = m.players) (he : q.1.matchEnded = m.matchEnded) (hs : NoStart q.2)
      (hf : q.2.filter (·.final) = [])
  | joined (slot : Fin maxRooms) (playerId : ℕ) (hev : ev = .recv slot (.joined playerId))
      (hu : (m.rooms slot).used = true)
      (hq : q = (joinPlayer m slot playerId,broadcastRoster (joinPlayer m slot playerId)) ∨
        q = ((startAllRooms (joinPlayer m slot playerId)).1,
          broadcastRoster (joinPlayer m slot playerId) ++ (startAllRooms (joinPlayer m slot playerId)).2))
  | start (hq : q = startAllRooms m)
  | check (m' : Master) (outs : List MasterOut) (hc : m.checked ev = some m')
      (hp : ∃ kill, m'.players = (m.kill kill).players) (he : m'.matchEnded = m.matchEnded)
      (hs : NoStart outs) (hf : outs.filter (·.final) = [])
      (hq : q = ((checkGlobalEnd m').1,outs ++ (checkGlobalEnd m').2))

theorem closeRoom_turn (m : Master) (slot : Fin maxRooms) : m.Turn (.close slot) (closeRoom m slot) := by
  have hc := clerical_closeOuts (m.rooms slot).hubFd (m.rooms slot).pendingFds
  unfold closeRoom
  dsimp only
  split
  · exact .quiet rfl rfl hc.noStart (filter_final_clerical hc)
  · rename_i hend
    have hend : m.matchEnded = false := Bool.not_eq_true _ ▸ hend
    split
    · rename_i hany
      have hany : (m.players.any fun q => decide (q.room = slot) && q.alive) = true := hany
      refine .check ((m.freeRoom slot).kill fun q => decide (q.room = slot) && q.alive) _ ?_
        ⟨fun q => decide (q.room = slot) && q.alive,rfl⟩ rfl (hc.noStart.append (broadcastRoster_noStart _)) ?_ rfl
      · simp only [Master.checked,hend,hany,Bool.not_false,Bool.true_and,↓reduceIte]
      · rw [List.filter_append,filter_final_clerical hc,broadcastRoster_final]
        rfl
    · rename_i hany
      refine .quiet ?_ rfl hc.noStart (filter_final_clerical hc)
      have hnone : ∀ q ∈ m.players, (decide (q.room = slot) && q.alive) = false := by
        have hany : ¬(m.players.any fun q => decide (q.room = slot) && q.alive) = true := hany
        simpa using hany
      change m.players.map _ = m.players
      refine (List.map_congr_left fun q hq => ?_).trans (List.map_id _)
      simp only [hnone q hq,Bool.false_eq_true,↓reduceIte,id]

theorem Master.Step.turn {m : Master} {ev : MasterEvent} {q : MasterReply} (h : Master.Step m ev q) :
    m.Turn ev q := by
  cases h with
  | accept client forkOk =>
    have h := acceptClient_clerical m client forkOk
    exact .quiet h.1 h.2.1 h.2.2.noStart (filter_final_clerical h.2.2)
  | enter => exact .start rfl
  | recv slot msg hu =>
    cases msg with
    | ready => exact .quiet rfl rfl (ready_clerical m slot).noStart (filter_final_clerical (ready_clerical m slot))
    | joined playerId =>
      refine .joined slot playerId rfl hu ?_
      simp only [handleHubMsg]
      split
      · exact .inr rfl
      · exact .inl rfl
    | eliminated playerId =>
      exact .check _ _ rfl ⟨_,rfl⟩ rfl (broadcastRoster_noStart _) (broadcastRoster_final _) rfl
    | attack a =>
      have ho : NoStart (routeAttack m a) ∧ (routeAttack m a).filter (·.final) = [] := by
        unfold routeAttack
        split
        · dsimp only
          split
          · exact ⟨fun fd n h => (by simp at h),rfl⟩
          · exact ⟨Clerical.nil.noStart,rfl⟩
        · exact ⟨Clerical.nil.noStart,rfl⟩
      exact .quiet rfl rfl ho.1 ho.2
    | feed a => exact .quiet rfl rfl (sendTo_noStart m _ fun n h => (by cases h)) (sendTo_final m _ fun _ => rfl)
    | _ => exact .quiet rfl rfl Clerical.nil.noStart rfl
  | close slot hu => exact closeRoom_turn m slot
  | endPass stopRequested => exact .quiet rfl rfl Clerical.nil.noStart rfl

/-! ## What every run keeps -/

/-- Before the end whoever is alive sits in a room in use; running rooms have been
ordered to start; and a match that goes on has lost nobody or has two players left. -/
structure MasterRun.Seated (r : MasterRun) : Prop where
  seat : r.master.matchEnded = false → ∀ p ∈ r.master.players, p.alive = true →
    (r.master.rooms p.room).used = true ∧ (r.master.rooms p.room).hubFd = p.fd ∧
    1 ≤ (r.master.rooms p.room).joined
  ordered : ∀ i, (r.master.rooms i).used = true → (r.master.rooms i).started = true →
    startedHub r.log (r.master.rooms i).hubFd = true
  crowd : r.master.matchEnded = true ∨ (∀ p ∈ r.master.players, p.alive = true) ∨ 2 ≤ r.master.alive.length

theorem MasterRun.init_seated (roomSize : ℕ) : (MasterRun.init roomSize).Seated :=
  ⟨fun _ p hp => (by cases hp),fun i h => (by cases h),.inr (.inl fun p hp => (by cases hp))⟩

theorem ordered_rewired {m m' : Master} {log outs : List MasterOut} (hr : m.Rewired m' outs)
    (h : ∀ i, (m.rooms i).used = true → (m.rooms i).started = true → startedHub log (m.rooms i).hubFd = true)
    (i : Fin maxRooms) (hu : (m'.rooms i).used = true) (hs : (m'.rooms i).started = true) :
    startedHub (log ++ outs) (m'.rooms i).hubFd = true := by
  have key : (m.rooms i).Continues (m'.rooms i) outs → startedHub (log ++ outs) (m'.rooms i).hubFd = true := by
    intro hc
    rw [hc.hubFd]
    rcases hc.started hs with h0 | ⟨n,hn⟩
    · exact startedHub_append_left (h i (hc.used ▸ hu) h0) outs
    · exact startedHub_iff.mpr ⟨n,List.mem_append_right _ hn⟩
  cases hr with
  | kept hq hf hc => exact key (hc i)
  | spawned slot hq hf hu' hfd hs' hc =>
    by_cases hi : i = slot
    · subst hi
      cases hs'.symm.trans hs
    · exact key (hc i hi)
  | closed slot hq hf hu' hk hc =>
    by_cases hi : i = slot
    · subst hi
      cases hu'.symm.trans hu
    · exact key (hc i hi)

theorem seat_rewired {m m' : Master} {outs : List MasterOut} (hr : m.Rewired m' outs) {p q : PlayerRec}
    (he : m'.matchEnded = false) (hq : q ∈ m'.players) (hqa : q.alive = true) (hroom : p.room = q.room)
    (hfd : p.fd = q.fd) (h : (m.rooms p.room).used = true ∧ (m.rooms p.room).hubFd = p.fd ∧
      1 ≤ (m.rooms p.room).joined) :
    (m'.rooms q.room).used = true ∧ (m'.rooms q.room).hubFd = q.fd ∧ 1 ≤ (m'.rooms q.room).joined := by
  rw [hroom,hfd] at h
  have key : (m.rooms q.room).Continues (m'.rooms q.room) outs → (m'.rooms q.room).used = true ∧
      (m'.rooms q.room).hubFd = q.fd ∧ 1 ≤ (m'.rooms q.room).joined :=
    fun hc => ⟨hc.used.trans h.1,hc.hubFd.trans h.2.1,h.2.2.trans hc.joined⟩
  cases hr with
  | kept hq' hf hc => exact key (hc q.room)
  | spawned slot hq' hf hu hfd' hs hc =>
    refine key (hc q.room fun hs => ?_)
    rw [hs,hu] at h
    cases h.1
  | closed slot hq' hf hu hk hc => exact key (hc q.room (hk he q hq hqa))

theorem checkGlobalEnd_crowd (m : Master) :
    (checkGlobalEnd m).1.matchEnded = true ∨ (∀ p ∈ m.players, p.alive = true) ∨ 2 ≤ m.alive.length := by
  unfold checkGlobalEnd
  split
  · rename_i hc
    simp only [Bool.or_eq_true,decide_eq_true_eq] at hc
    rcases hc with hc | hc
    · exact .inl hc
    · refine .inr (.inl fun p hp => ?_)
      rw [List.length_eq_zero_iff.mp hc] at hp
      cases hp
  · split
    · exact .inl rfl
    · rename_i ho
      refine .inr ?_
      unfold Master.isOver at ho
      split at ho
      · simp only [decide_eq_true_eq,not_le] at ho
        exact .inr (by omega)
      · rename_i hlen
        left
        intro p hp
        have h1 : m.players = [p] := by
          obtain ⟨a,ha⟩ := List.length_eq_one_iff.mp (show m.players.length = 1 by
            have := List.length_pos_of_mem hp
            omega)
          rw [ha] at hp ⊢
          rw [List.mem_singleton.mp hp]
        simp only [decide_eq_true_eq,Master.alive,h1] at ho
        by_contra hpa
        simp [hpa] at ho

theorem mem_kill {m : Master} {kill : PlayerRec → Bool} {q : PlayerRec} (hq : q ∈ (m.kill kill).players) :
    ∃ p ∈ m.players, p.id = q.id ∧ p.room = q.room ∧ p.fd = q.fd ∧ (q.alive = true → p.alive = true) := by
  obtain ⟨p,hp,rfl⟩ := List.mem_map.mp hq
  refine ⟨p,hp,?_⟩
  split
  · exact ⟨rfl,rfl,rfl,fun h => (by cases h)⟩
  · exact ⟨rfl,rfl,rfl,id⟩

theorem joinPlayer_players (m : Master) (slot : Fin maxRooms) (playerId : ℕ) :
    (joinPlayer m slot playerId).players = m.players ∨
    (joinPlayer m slot playerId).players = m.players ++ [⟨playerId,slot,true,(m.rooms slot).hubFd⟩] := by
  dsimp only [joinPlayer]
  split
  · exact .inr rfl
  · exact .inl rfl

theorem join_seated {m : Master} {log : List MasterOut} (h : MasterRun.Seated ⟨m,log⟩) {slot : Fin maxRooms}
    (hu : (m.rooms slot).used = true) (playerId : ℕ) (outs : List MasterOut) (hf : forks outs = []) :
    MasterRun.Seated ⟨joinPlayer m slot playerId,log ++ outs⟩ := by
  have hr : m.Rewired (joinPlayer m slot playerId) outs :=
    .kept rfl hf (joinPlayer_continues m slot playerId outs)
  have hold : ∀ he : m.matchEnded = false, ∀ p ∈ m.players, p.alive = true →
      p ∈ (joinPlayer m slot playerId).players →
      ((joinPlayer m slot playerId).rooms p.room).used = true ∧
      ((joinPlayer m slot playerId).rooms p.room).hubFd = p.fd ∧
      1 ≤ ((joinPlayer m slot playerId).rooms p.room).joined := by
    intro he p hp hpa hp'
    exact seat_rewired hr (p := p) he hp' hpa rfl rfl (h.seat he p hp hpa)
  refine ⟨?_,ordered_rewired hr h.ordered,?_⟩
  · intro he p hp hpa
    have hp' := hp
    rcases joinPlayer_players m slot playerId with hj | hj <;> rw [hj] at hp
    · exact hold he p hp hpa hp'
    · rcases List.mem_append.mp hp with hp | hp
      · exact hold he p hp hpa hp'
      · rw [List.mem_singleton.mp hp]
        refine ⟨?_,?_,?_⟩ <;> simp [joinPlayer,hu]
  · rcases h.crowd with h | h | h
    · exact .inl h
    · refine .inr (.inl fun p hp => ?_)
      rcases joinPlayer_players m slot playerId with hj | hj <;> rw [hj] at hp
      · exact h p hp
      · rcases List.mem_append.mp hp with hp | hp
        · exact h p hp
        · rw [List.mem_singleton.mp hp]
    · refine .inr (.inr (h.trans ?_))
      unfold Master.alive
      rcases joinPlayer_players m slot playerId with hj | hj <;> rw [hj]
      simp

theorem startAll_seated {m : Master} {log : List MasterOut} (h : MasterRun.Seated ⟨m,log⟩) :
    MasterRun.Seated ⟨(startAllRooms m).1,log ++ (startAllRooms m).2⟩ := by
  have hs := startAllRooms_sameMatch m
  have hr : m.Rewired (startAllRooms m).1 (startAllRooms m).2 :=
    .kept hs.roomSeq (forks_starting fun _ => startAllRooms_outs) (startAllRooms_continues m)
  refine ⟨?_,ordered_rewired hr h.ordered,?_⟩
  · intro he p hp hpa
    dsimp only at he hp
    refine seat_rewired hr (p := p) he hp hpa rfl rfl ?_
    exact h.seat (hs.matchEnded ▸ he) p (hs.players ▸ hp) hpa
  · have hc := h.crowd
    unfold Master.alive at hc ⊢
    dsimp only at hc ⊢
    rw [hs.matchEnded,hs.players]
    exact hc

theorem masterStep_seated (r : MasterRun) (ev : MasterEvent) (t : MasterRun) (h : r.Seated)
    (ht : masterStep r ev = some t) : t.Seated := by
  obtain ⟨q,-,hst,rfl⟩ := masterStep_inv ht
  have hr := hst.rewired
  cases hst.turn with
  | quiet hp he hs hf =>
    refine ⟨?_,ordered_rewired hr h.ordered,?_⟩
    · intro hn p hmem hpa
      refine seat_rewired hr (p := p) hn hmem hpa rfl rfl (h.seat (he ▸ hn) p (hp ▸ hmem) hpa)
    · have hc := h.crowd
      unfold Master.alive at hc ⊢
      dsimp only
      rw [he,hp]
      exact hc
  | joined slot playerId hev hu hq =>
    rcases hq with rfl | rfl
    · exact join_seated h hu playerId _ (forks_broadcastRoster _)
    · have hj := join_seated h hu playerId _ (forks_broadcastRoster (joinPlayer r.master slot playerId))
      have hs := startAll_seated hj
      rw [List.append_assoc] at hs
      exact hs
  | start hq =>
    subst hq
    exact startAll_seated h
  | check m' outs hc hp he hs hf hq =>
    subst hq
    obtain ⟨kill,hp⟩ := hp
    refine ⟨?_,ordered_rewired hr h.ordered,?_⟩
    · intro hn q hmem hqa
      have hmem' : q ∈ (r.master.kill kill).players := by
        rw [← hp,← checkGlobalEnd_players m']
        exact hmem
      obtain ⟨p,hpm,-,hroom,hfd,hal⟩ := mem_kill hmem'
      have hn' : r.master.matchEnded = false := by
        cases (checkGlobalEnd_verdict m') with
        | silent _ h' => exact he ▸ h' ▸ hn
        | given hn' _ _ _ _ => exact he ▸ hn'
      exact seat_rewired hr hn hmem hqa hroom hfd (h.seat hn' p hpm (hal hqa))
    · have hc := checkGlobalEnd_crowd m'
      unfold Master.alive at hc ⊢
      dsimp only
      rw [checkGlobalEnd_players]
      exact hc

/-! ## The contest -/

/-- Waiting players cannot tip this check: none is alive, or two contenders
stand, or no contender is out and the check does not fire. -/
def MasterRun.clearCut (r : MasterRun) (ev : MasterEvent) : Bool :=
  match r.master.checked ev with
  | none => true
  | some m => m.matchEnded || lingering r.log m.players == 0 || decide (2 ≤ standing r.log m.players) ||
      (fallen r.log m.players == 0 && !m.isOver)

/-- Only players of started rooms decide the match. -/
structure MasterRun.Fair (r : MasterRun) : Prop where
  ends : 2 ≤ contenders r.log r.master.players → standing r.log r.master.players ≤ 1 →
    r.master.matchEnded = true
  solo : 1 ≤ contenders r.log r.master.players → standing r.log r.master.players = 0 →
    r.master.matchEnded = true
  winner : ∀ fd w, MasterOut.send fd (.gameOver w) ∈ r.log → w ≠ 0 →
    ∃ p ∈ r.master.players, p.id = w ∧ startedHub r.log p.fd = true

/-- The invariant behind `Fair`: a match that goes on has two contenders or has lost none. -/
structure MasterRun.Contest (r : MasterRun) : Prop where
  open_ : r.master.matchEnded = true ∨ 2 ≤ standing r.log r.master.players ∨
    fallen r.log r.master.players = 0
  winner : ∀ fd w, MasterOut.send fd (.gameOver w) ∈ r.log → w ≠ 0 →
    ∃ p ∈ r.master.players, p.id = w ∧ startedHub r.log p.fd = true

theorem MasterRun.Contest.fair {r : MasterRun} (h : r.Contest) : r.Fair := by
  have hsum := standing_add_fallen r.log r.master.players
  refine ⟨fun hc hs => ?_,fun hc hs => ?_,h.winner⟩ <;>
  · rcases h.open_ with h | h | h
    · exact h
    · omega
    · omega

theorem MasterRun.init_contest (roomSize : ℕ) : (MasterRun.init roomSize).Contest :=
  ⟨.inr (.inr rfl),fun fd w h => (by cases h)⟩

/-- Known winners stay recorded and started; silent outputs add none. -/
theorem winner_keeps {r : MasterRun} {q : MasterReply} (h : r.Contest) (ho : Outlives r.master.players q.1.players)
    {fd w : ℕ} (hm : MasterOut.send fd (.gameOver w) ∈ r.log) (hw : w ≠ 0) :
    ∃ p ∈ q.1.players, p.id = w ∧ startedHub (r.log ++ q.2) p.fd = true := by
  obtain ⟨p,hp,hid,hs⟩ := h.winner fd w hm hw
  obtain ⟨i,hi⟩ := List.getElem?_of_mem hp
  obtain ⟨p',hp',hid',-,hfd,-⟩ := ho i p hi
  exact ⟨p',List.mem_of_getElem? hp',hid'.trans hid,hfd ▸ startedHub_append_left hs q.2⟩

theorem gameOver_not_mem {outs : List MasterOut} (hf : outs.filter (·.final) = []) (fd w : ℕ) :
    MasterOut.send fd (.gameOver w) ∉ outs := by
  intro hm
  have := List.filter_eq_nil_iff.mp hf _ hm
  simp [MasterOut.final] at this

theorem winner_silent {r : MasterRun} {q : MasterReply} (h : r.Contest) (ho : Outlives r.master.players q.1.players)
    (hf : q.2.filter (·.final) = []) (fd w : ℕ) (hm : MasterOut.send fd (.gameOver w) ∈ r.log ++ q.2)
    (hw : w ≠ 0) : ∃ p ∈ q.1.players, p.id = w ∧ startedHub (r.log ++ q.2) p.fd = true := by
  rcases List.mem_append.mp hm with hm | hm
  · exact winner_keeps h ho hm hw
  · exact absurd hm (gameOver_not_mem hf fd w)

theorem startAll_open {m : Master} {log : List MasterOut} (h : MasterRun.Seated ⟨m,log⟩) :
    m.matchEnded = true ∨ 2 ≤ standing (log ++ (startAllRooms m).2) m.players ∨
    fallen (log ++ (startAllRooms m).2) m.players = 0 := by
  cases he : m.matchEnded with
  | true => exact .inl rfl
  | false =>
    have hstarted : ∀ p ∈ m.players, p.alive = true → startedHub (log ++ (startAllRooms m).2) p.fd = true := by
      intro p hp hpa
      obtain ⟨hu,hfd,hj⟩ := h.seat he p hp hpa
      cases hs : (m.rooms p.room).started with
      | true =>
        have ho := h.ordered p.room hu hs
        dsimp only at ho
        rw [hfd] at ho
        exact startedHub_append_left ho _
      | false =>
        obtain ⟨n,hn⟩ := startAllRooms_start.mpr ⟨p.room,(Room.waiting_iff _).mpr ⟨hu,hs,hj⟩,hfd.symm⟩
        exact startedHub_iff.mpr ⟨n,List.mem_append_right _ hn⟩
    have hling : lingering (log ++ (startAllRooms m).2) m.players = 0 := by
      refine List.countP_eq_zero.mpr ?_
      intro p hp hl
      simp only [Bool.and_eq_true,Bool.not_eq_true'] at hl
      cases (hstarted p hp hl.1).symm.trans hl.2
    have hsum := standing_add_lingering (log ++ (startAllRooms m).2) m
    rcases h.crowd with hc | hc | hc
    · cases he.symm.trans hc
    · refine .inr (.inr (List.countP_eq_zero.mpr ?_))
      intro p hp
      simp [hc p hp]
    · refine .inr (.inl ?_)
      have hc : 2 ≤ m.alive.length := hc
      omega

/-- A check that is clear cut leaves the contest open or ends it for a contender. -/
theorem check_open {m : Master} {log : List MasterOut}
    (hg : (m.matchEnded || lingering log m.players == 0 || decide (2 ≤ standing log m.players) ||
      (fallen log m.players == 0 && !m.isOver)) = true) :
    ((checkGlobalEnd m).1.matchEnded = true ∨ 2 ≤ standing log m.players ∨ fallen log m.players = 0) ∧
    (m.matchEnded = false → m.isOver = true → lingering log m.players = 0) := by
  have hsum := standing_add_lingering log m
  simp only [Bool.or_eq_true,Bool.and_eq_true,beq_iff_eq,decide_eq_true_eq,Bool.not_eq_true'] at hg
  refine ⟨?_,fun hn ho => ?_⟩
  · rcases hg with ((hg | hg) | hg) | hg
    · left
      simp [checkGlobalEnd,hg]
    · rcases checkGlobalEnd_crowd m with hc | hc | hc
      · exact .inl hc
      · refine .inr (.inr (List.countP_eq_zero.mpr ?_))
        intro p hp
        simp [hc p hp]
      · exact .inr (.inl (by omega))
    · exact .inr (.inl hg)
    · exact .inr (.inr hg.1)
  · have hle := (Master.isOver_winner ho).1
    rcases hg with ((hg | hg) | hg) | hg
    · cases hn.symm.trans hg
    · exact hg
    · omega
    · cases ho.symm.trans hg.2

theorem check_contest {r : MasterRun} {m' : Master} {outs : List MasterOut} (h : r.Contest)
    (ho : Outlives r.master.players m'.players) (hs : NoStart outs) (hf : outs.filter (·.final) = [])
    (hg : (m'.matchEnded || lingering r.log m'.players == 0 || decide (2 ≤ standing r.log m'.players) ||
      (fallen r.log m'.players == 0 && !m'.isOver)) = true) :
    MasterRun.Contest ⟨(checkGlobalEnd m').1,r.log ++ (outs ++ (checkGlobalEnd m').2)⟩ := by
  obtain ⟨hopen,hling⟩ := check_open hg
  have hsame := startedHub_append_noStart r.log (hs.append (checkGlobalEnd_noStart m'))
  have ho' : Outlives r.master.players (checkGlobalEnd m').1.players := by
    rw [checkGlobalEnd_players]
    exact ho
  refine ⟨?_,?_⟩
  · unfold standing fallen at hopen ⊢
    dsimp only
    rw [hsame,checkGlobalEnd_players]
    exact hopen
  · intro fd w hm hw
    rcases List.mem_append.mp hm with hm | hm
    · exact winner_keeps (q := ((checkGlobalEnd m').1,outs ++ (checkGlobalEnd m').2)) h ho' hm hw
    rcases List.mem_append.mp hm with hm | hm
    · exact absurd hm (gameOver_not_mem hf fd w)
    cases checkGlobalEnd_verdict m' with
    | silent hf' _ => exact absurd hm (gameOver_not_mem hf' fd w)
    | given hn he hf' hover hne =>
      have hfinal := List.mem_filter.mpr ⟨hm,(rfl : (MasterOut.send fd (.gameOver w)).final = true)⟩
      rw [hf'] at hfinal
      have hwin := gameOver_mem_announcement hfinal
      have hover' : m'.isOver = true := by
        unfold Master.isOver Master.alive at hover ⊢
        rwa [checkGlobalEnd_players] at hover
      obtain ⟨-,-,⟨-,hz⟩ | ⟨p,hp,hid⟩⟩ := Master.isOver_winner hover
      · exact absurd (hwin.trans hz) hw
      · have hmem : p ∈ (checkGlobalEnd m').1.alive := by simp [hp]
        obtain ⟨hmem,hpa⟩ := List.mem_filter.mp hmem
        refine ⟨p,hmem,(hwin.trans hid).symm,?_⟩
        rw [hsame]
        rw [checkGlobalEnd_players] at hmem
        have hz := List.countP_eq_zero.mp (hling hn hover') p hmem
        simp only [hpa,Bool.true_and,Bool.not_eq_true',Bool.not_eq_false] at hz
        exact hz

theorem join_open {r : MasterRun} (h : r.Contest) (slot : Fin maxRooms) (playerId : ℕ) :
    r.master.matchEnded = true ∨ 2 ≤ standing r.log (joinPlayer r.master slot playerId).players ∨
    fallen r.log (joinPlayer r.master slot playerId).players = 0 := by
  rcases joinPlayer_players r.master slot playerId with hj | hj <;> rw [hj]
  · exact h.open_
  · have hstand : standing r.log r.master.players ≤
        standing r.log (r.master.players ++ [⟨playerId,slot,true,(r.master.rooms slot).hubFd⟩]) := by
      unfold standing
      rw [List.countP_append]
      exact Nat.le_add_right _ _
    have hfall : fallen r.log (r.master.players ++ [⟨playerId,slot,true,(r.master.rooms slot).hubFd⟩]) =
        fallen r.log r.master.players := by
      unfold fallen
      rw [List.countP_append]
      simp
    rcases h.open_ with h | h | h
    · exact .inl h
    · exact .inr (.inl (h.trans hstand))
    · exact .inr (.inr (hfall.trans h))

theorem masterStep_contest (r : MasterRun) (ev : MasterEvent) (t : MasterRun) (hi : r.Seated) (h : r.Contest)
    (hg : r.clearCut ev = true) (ht : masterStep r ev = some t) : t.Contest := by
  obtain ⟨q,-,hst,rfl⟩ := masterStep_inv ht
  have ho := hst.verdict.1
  cases hst.turn with
  | quiet hp he hs hf =>
    refine ⟨?_,winner_silent h ho hf⟩
    have hopen := h.open_
    unfold standing fallen at hopen ⊢
    dsimp only
    rw [startedHub_append_noStart r.log hs,he,hp]
    exact hopen
  | joined slot playerId hev hu hq =>
    have hj := join_open h slot playerId
    have hb := broadcastRoster_noStart (joinPlayer r.master slot playerId)
    rcases hq with rfl | rfl
    · refine ⟨?_,winner_silent h ho (broadcastRoster_final _)⟩
      unfold standing fallen at hj ⊢
      dsimp only
      rw [startedHub_append_noStart r.log hb]
      exact hj
    · have hseat := join_seated hi hu playerId _ (forks_broadcastRoster (joinPlayer r.master slot playerId))
      have hsame := startAllRooms_sameMatch (joinPlayer r.master slot playerId)
      have hf : (broadcastRoster (joinPlayer r.master slot playerId) ++
          (startAllRooms (joinPlayer r.master slot playerId)).2).filter (·.final) = [] := by
        rw [List.filter_append,broadcastRoster_final,filter_final_starting fun _ => startAllRooms_outs]
        rfl
      refine ⟨?_,winner_silent h ho hf⟩
      have hopen := startAll_open hseat
      rw [List.append_assoc] at hopen
      dsimp only
      rw [hsame.matchEnded,hsame.players]
      exact hopen
  | start hq =>
    subst hq
    have hsame := startAllRooms_sameMatch r.master
    refine ⟨?_,winner_silent h ho (filter_final_starting fun _ => startAllRooms_outs)⟩
    dsimp only
    rw [hsame.matchEnded,hsame.players]
    exact startAll_open hi
  | check m' outs hc hp he hs hf hq =>
    subst hq
    obtain ⟨kill,hp⟩ := hp
    simp only [MasterRun.clearCut,hc] at hg
    refine check_contest h ?_ hs hf hg
    rw [hp]
    exact kill_outlives r.master kill

/-- In every run whose checks are all clear cut, only players of started rooms decide the match. -/
theorem master_fair_of_clearCut (roomSize : ℕ) (evs : List MasterEvent) (r : MasterRun)
    (hr : Execution.run (Execution.guarded MasterRun.clearCut masterStep) (.init roomSize) evs = some r) :
    r.Fair :=
  (Execution.guarded_invariant masterStep_seated masterStep_contest hr (MasterRun.init_seated roomSize)
    (MasterRun.init_contest roomSize)).fair

theorem master_fair_of_clearCut_duel :
    ∃ r, Execution.run (Execution.guarded MasterRun.clearCut masterStep) (.init 2) duel = some r ∧
      contenders r.log r.master.players = 2 ∧ standing r.log r.master.players = 1 ∧ r.Fair := by
  obtain ⟨r,hr,ht⟩ := Execution.exists_of_run_any (Execution.guarded MasterRun.clearCut masterStep) (.init 2) duel
    (fun r => contenders r.log r.master.players == 2 && standing r.log r.master.players == 1) (by decide +kernel)
  simp only [Bool.and_eq_true,beq_iff_eq] at ht
  exact ⟨r,hr,ht.1,ht.2,master_fair_of_clearCut 2 duel r hr⟩

/-- A third player waits in a second lobby while the duel is on. -/
def lateArrival : List MasterEvent :=
  duel.take 6 ++ [.accept 12 true,.recv secondSlot .ready,.recv secondSlot (.joined 3),
    .recv firstSlot (.eliminated 1)]

theorem lateArrival_unfair :
    ¬ ∀ (roomSize : ℕ) (evs : List MasterEvent) (r : MasterRun),
      Execution.run masterStep (.init roomSize) evs = some r →
      2 ≤ contenders r.log r.master.players → standing r.log r.master.players ≤ 1 →
      r.master.matchEnded = true := by
  intro h
  obtain ⟨r,hr,ht⟩ := Execution.exists_of_run_any masterStep (.init 2) lateArrival
    (fun r => decide (2 ≤ contenders r.log r.master.players) && decide (standing r.log r.master.players ≤ 1) &&
      !r.master.matchEnded) (by decide +kernel)
  simp only [Bool.and_eq_true,decide_eq_true_eq,Bool.not_eq_true'] at ht
  cases ht.2.symm.trans (h 2 lateArrival r hr ht.1.1 ht.1.2)

end CoreStack.Tetrisd
