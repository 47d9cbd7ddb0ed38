import CoreStack.Tetrisd.Wiring
import CoreStack.Lib.Execution

/-! # How the master decides the match

Over every sequence of events the records only lose their alive flags, and the
broadcast of the end happens once, on the records as they then are.
-/
namespace CoreStack.Tetrisd

def MasterOut.final : MasterOut → Bool
  | .send _ (.gameOver _) | .matchOver _ => true
  | _ => false

/-- The winners announced among the outputs, one for each `check_global_end` that fired. -/
def verdicts (outs : List MasterOut) : List ℕ :=
  outs.filterMap fun
    | .matchOver winnerId => some winnerId
    | _ => none

def MasterOut.gameOverTo (fd : ℕ) : MasterOut → Bool
  | .send fd' (.gameOver _) => fd' == fd
  | _ => false

def Master.announcement (m : Master) : List MasterOut :=
  m.sendTo (fun i => (m.rooms i).used) (.gameOver m.winnerId) ++ [.matchOver m.winnerId]

/-- Every record stays where it is, keeps its identity and never revives. -/
def Outlives (ps qs : List PlayerRec) : Prop :=
  ∀ (i : ℕ) (p : PlayerRec), ps[i]? = some p → ∃ q : PlayerRec, qs[i]? = some q ∧ q.id = p.id ∧
    q.room = p.room ∧ q.fd = p.fd ∧ (q.alive = true → p.alive = true)

theorem Outlives.refl (ps : List PlayerRec) : Outlives ps ps := fun _ p hp => ⟨p,hp,rfl,rfl,rfl,id⟩

theorem Outlives.trans {ps qs rs : List PlayerRec} (h : Outlives ps qs) (h' : Outlives qs rs) :
    Outlives ps rs := by
  intro i p hp
  obtain ⟨q,hq,hid,hroom,hfd,hal⟩ := h i p hp
  obtain ⟨r,hr,hid',hroom',hfd',hal'⟩ := h' i q hq
  exact ⟨r,hr,hid'.trans hid,hroom'.trans hroom,hfd'.trans hfd,fun ha => hal (hal' ha)⟩

theorem kill_outlives (m : Master) (p : PlayerRec → Bool) : Outlives m.players (m.kill p).players := by
  intro i q hq
  refine ⟨if p q then { q with alive := false } else q,by simp [Master.kill,hq],?_⟩
  split
  · exact ⟨rfl,rfl,rfl,by simp⟩
  · exact ⟨rfl,rfl,rfl,id⟩

theorem joinPlayer_outlives (m : Master) (slot : Fin maxRooms) (playerId : ℕ) :
    Outlives m.players (joinPlayer m slot playerId).players := by
  intro i p hp
  refine ⟨p,?_,rfl,rfl,rfl,id⟩
  dsimp only [joinPlayer]
  split
  · rw [List.getElem?_append_left (List.getElem?_eq_some_iff.mp hp).1]
    exact hp
  · exact hp

/-- What one event does to the verdict: nothing, or it is given on the new records. -/
inductive Master.Verdict (m m' : Master) (outs : List MasterOut) : Prop
  | silent (hf : outs.filter (·.final) = []) (he : m'.matchEnded = m.matchEnded)
  | given (hn : m.matchEnded = false) (he : m'.matchEnded = true)
      (hf : outs.filter (·.final) = m'.announcement) (ho : m'.isOver = true) (hp : m'.players ≠ [])

theorem filter_final_starting {outs : List MasterOut} (h : ∀ o ∈ outs, o.starting = true) :
    outs.filter (·.final) = [] := by
  refine List.filter_eq_nil_iff.mpr ?_
  intro o ho hf
  have hs := h o ho
  cases o with
  | send fd msg => cases msg <;> simp_all [MasterOut.starting,MasterOut.final]
  | _ => simp_all [MasterOut.starting]

theorem filter_final_clerical {outs : List MasterOut} (h : Clerical outs) : outs.filter (·.final) = [] := by
  refine List.filter_eq_nil_iff.mpr ?_
  intro o ho hf
  have hc := h o ho
  cases o <;> simp_all [MasterOut.clerical,MasterOut.final]

theorem broadcastRoster_final (m : Master) : (broadcastRoster m).filter (·.final) = [] :=
  filter_final_starting fun _ => broadcastRoster_starting

theorem sendTo_final (m : Master) (p : Fin maxRooms → Bool) {msg : HubMsg}
    (h : ∀ fd, (MasterOut.send fd msg).final = false) : (m.sendTo p msg).filter (·.final) = [] := by
  refine List.filter_eq_nil_iff.mpr ?_
  intro o ho
  obtain ⟨i,-,rfl⟩ := Master.mem_sendTo.mp ho
  simp [h]

theorem announcement_final (m : Master) : m.announcement.filter (·.final) = m.announcement := by
  refine List.filter_eq_self.mpr ?_
  intro o ho
  rcases List.mem_append.mp ho with ho | ho
  · obtain ⟨i,-,rfl⟩ := Master.mem_sendTo.mp ho
    rfl
  · rw [List.mem_singleton.mp ho]
    rfl

theorem checkGlobalEnd_verdict (m : Master) : m.Verdict (checkGlobalEnd m).1 (checkGlobalEnd m).2 := by
  unfold checkGlobalEnd
  split
  · exact .silent rfl rfl
  · rename_i hc
    simp only [Bool.or_eq_true,decide_eq_true_eq,not_or,Bool.not_eq_true] at hc
    split
    · rename_i ho
      exact .given hc.1 rfl (announcement_final m) ho (List.ne_nil_of_length_pos (Nat.pos_of_ne_zero hc.2))
    · exact .silent rfl rfl

theorem Master.Verdict.prepend {m m' m'' : Master} {outs outs' : List MasterOut}
    (h : m'.Verdict m'' outs') (hm : m'.matchEnded = m.matchEnded) (hf : outs.filter (·.final) = []) :
    m.Verdict m'' (outs ++ outs') := by
  cases h with
  | silent hs he => exact .silent (by rw [List.filter_append,hf,hs,List.append_nil]) (he.trans hm)
  | given hn he hs ho hp =>
    exact .given (hm ▸ hn) he (by rw [List.filter_append,hf,hs,List.nil_append]) ho hp

theorem closeRoom_verdict (m : Master) (slot : Fin maxRooms) :
    Outlives m.players (closeRoom m slot).1.players ∧ m.Verdict (closeRoom m slot).1 (closeRoom m slot).2 := by
  have hk := kill_outlives (m.freeRoom slot) fun q => decide (q.room = slot) && q.alive
  unfold closeRoom
  dsimp only
  split
  · exact ⟨.refl _,.silent (filter_final_clerical (clerical_closeOuts _ _)) rfl⟩
  · split
    · refine ⟨by rw [checkGlobalEnd_players]; exact hk,(checkGlobalEnd_verdict _).prepend rfl ?_⟩
      rw [List.filter_append,filter_final_clerical (clerical_closeOuts _ _),broadcastRoster_final,List.append_nil]
    · exact ⟨hk,.silent (filter_final_clerical (clerical_closeOuts _ _)) rfl⟩

theorem joined_verdict (m : Master) (slot : Fin maxRooms) (playerId : ℕ) :
    Outlives m.players (handleHubMsg m slot (.joined playerId)).1.players ∧
    m.Verdict (handleHubMsg m slot (.joined playerId)).1 (handleHubMsg m slot (.joined playerId)).2 := by
  have hj := joinPlayer_outlives m slot playerId
  simp only [handleHubMsg]
  split
  · have hs := startAllRooms_sameMatch (joinPlayer m slot playerId)
    refine ⟨by rw [hs.players]; exact hj,.silent ?_ hs.matchEnded⟩
    rw [List.filter_append,broadcastRoster_final,filter_final_starting fun _ => startAllRooms_outs]
    rfl
  · exact ⟨hj,.silent (broadcastRoster_final _) rfl⟩

theorem handleHubMsg_verdict (m : Master) (slot : Fin maxRooms) (msg : HubMsg) :
    Outlives m.players (handleHubMsg m slot msg).1.players ∧
    m.Verdict (handleHubMsg m slot msg).1 (handleHubMsg m slot msg).2 := by
  cases msg with
  | ready => exact ⟨.refl _,.silent (filter_final_clerical (ready_clerical m slot)) rfl⟩
  | joined playerId => exact joined_verdict m slot playerId
  | eliminated playerId =>
    have hk := kill_outlives m fun q => q.id == playerId
    dsimp only [handleHubMsg]
    refine ⟨by rw [checkGlobalEnd_players]; exact hk,?_⟩
    exact (checkGlobalEnd_verdict _).prepend rfl (broadcastRoster_final _)
  | attack a =>
    refine ⟨.refl _,.silent ?_ rfl⟩
    dsimp only [handleHubMsg,routeAttack]
    split
    · split <;> rfl
    · rfl
  | feed a => exact ⟨.refl _,.silent (sendTo_final _ _ fun _ => rfl) rfl⟩
  | _ => exact ⟨.refl _,.silent rfl rfl⟩

theorem Master.Step.verdict {m : Master} {ev : MasterEvent} {r : MasterReply} (h : Master.Step m ev r) :
    Outlives m.players r.1.players ∧ m.Verdict r.1 r.2 := by
  cases h with
  | accept client forkOk =>
    have h := acceptClient_clerical m client forkOk
    exact ⟨by rw [h.1]; exact .refl _,.silent (filter_final_clerical h.2.2) h.2.1⟩
  | enter =>
    have hs := startAllRooms_sameMatch m
    refine ⟨by rw [hs.players]; exact .refl _,.silent ?_ hs.matchEnded⟩
    exact filter_final_starting fun _ => startAllRooms_outs
  | recv slot msg hu => exact handleHubMsg_verdict m slot msg
  | close slot hu => exact closeRoom_verdict m slot
  | endPass stopRequested => exact ⟨.refl _,.silent rfl rfl⟩

/-! ## Whole runs -/

structure MasterRun where
  master : Master
  log : List MasterOut

def MasterRun.init (roomSize : ℕ) : MasterRun := ⟨.init roomSize,[]⟩

def masterStep (r : MasterRun) (ev : MasterEvent) : Option MasterRun :=
  (r.master.step ev).map fun q => ⟨q.1,r.log ++ q.2⟩

theorem masterStep_inv {r t : MasterRun} {ev : MasterEvent} (h : masterStep r ev = some t) :
    ∃ q, r.master.step ev = some q ∧ Master.Step r.master ev q ∧ t = ⟨q.1,r.log ++ q.2⟩ := by
  obtain ⟨q,hq,rfl⟩ := Option.map_eq_some_iff.mp h
  exact ⟨q,hq,Master.step_inv hq,rfl⟩

/-- The log announces nothing before the end and exactly one verdict after it. -/
structure MasterRun.Decided (r : MasterRun) : Prop where
  wired : r.master.Wired
  before : r.master.matchEnded = false → r.log.filter (·.final) = []
  after : r.master.matchEnded = true → ∃ m : Master, m.Wired ∧ r.log.filter (·.final) = m.announcement

theorem MasterRun.init_decided (roomSize : ℕ) : (MasterRun.init roomSize).Decided :=
  ⟨Master.init_wired roomSize,fun _ => rfl,fun h => (by cases h)⟩

theorem masterStep_decided (r : MasterRun) (ev : MasterEvent) (t : MasterRun) (h : r.Decided)
    (ht : masterStep r ev = some t) : t.Decided := by
  obtain ⟨q,-,hs,rfl⟩ := masterStep_inv ht
  have hw := h.wired.rewired hs.rewired
  cases hs.verdict.2 with
  | silent hf he =>
    refine ⟨hw,fun hn => ?_,fun ha => ?_⟩ <;> dsimp only at *
    · rw [List.filter_append,h.before (he ▸ hn),hf]
      rfl
    · rw [List.filter_append,hf,List.append_nil]
      exact h.after (he ▸ ha)
  | given hn he hf ho hp =>
    refine ⟨hw,fun ha => ?_,fun _ => ⟨q.1,hw,?_⟩⟩
    · cases he.symm.trans ha
    · rw [List.filter_append,h.before hn,hf]
      rfl

theorem verdicts_filter_final (outs : List MasterOut) : verdicts (outs.filter (·.final)) = verdicts outs := by
  unfold verdicts
  rw [List.filterMap_filter]
  congr 1
  funext o
  cases o with
  | send fd msg => cases msg <;> rfl
  | _ => rfl

theorem verdicts_announcement (m : Master) : verdicts m.announcement = [m.winnerId] := by
  unfold verdicts Master.announcement
  rw [List.filterMap_append,List.filterMap_eq_nil_iff.mpr]
  · rfl
  · intro o ho
    obtain ⟨i,-,rfl⟩ := Master.mem_sendTo.mp ho
    rfl

theorem gameOver_mem_announcement {m : Master} {fd w : ℕ}
    (h : MasterOut.send fd (.gameOver w) ∈ m.announcement) : w = m.winnerId := by
  rcases List.mem_append.mp h with h | h
  · obtain ⟨i,-,h⟩ := Master.mem_sendTo.mp h
    cases h
    rfl
  · cases List.mem_singleton.mp h

theorem countP_gameOverTo_announcement {m : Master} (h : m.Wired) (fd : ℕ) :
    m.announcement.countP (·.gameOverTo fd) ≤ 1 := by
  have hb := countP_sendTo_le h (p := fun i => (m.rooms i).used) (fun _ hi => hi) (.gameOver m.winnerId)
    (·.gameOverTo fd) fd (fun fd' hq => by simpa [MasterOut.gameOverTo] using hq)
  unfold Master.announcement
  rw [List.countP_append]
  simpa [MasterOut.gameOverTo] using hb

theorem countP_filter_final (outs : List MasterOut) (fd : ℕ) :
    (outs.filter (·.final)).countP (·.gameOverTo fd) = outs.countP (·.gameOverTo fd) := by
  rw [List.countP_filter]
  refine List.countP_congr ?_
  intro o _
  cases o with
  | send fd' msg => cases msg <;> simp [MasterOut.gameOverTo,MasterOut.final]
  | _ => simp [MasterOut.gameOverTo]

theorem MasterRun.Decided.once {r : MasterRun} (h : r.Decided) :
    (verdicts r.log).length ≤ 1 ∧ (∀ fd, r.log.countP (·.gameOverTo fd) ≤ 1) ∧
    ∀ fd w, MasterOut.send fd (.gameOver w) ∈ r.log → w ∈ verdicts r.log := by
  have hmem : ∀ fd w, MasterOut.send fd (.gameOver w) ∈ r.log →
      MasterOut.send fd (.gameOver w) ∈ r.log.filter (·.final) :=
    fun fd w hm => List.mem_filter.mpr ⟨hm,rfl⟩
  cases he : r.master.matchEnded with
  | false =>
    have hf := h.before he
    rw [← verdicts_filter_final,hf]
    refine ⟨Nat.zero_le _,fun fd => ?_,fun fd w hm => ?_⟩
    · rw [← countP_filter_final,hf]
      exact Nat.zero_le _
    · have hm := hmem fd w hm
      rw [hf] at hm
      cases hm
  | true =>
    obtain ⟨m,hw,hf⟩ := h.after he
    rw [← verdicts_filter_final,hf,verdicts_announcement]
    refine ⟨le_rfl,fun fd => ?_,fun fd w hm => ?_⟩
    · rw [← countP_filter_final,hf]
      exact countP_gameOverTo_announcement hw fd
    · have hw := gameOver_mem_announcement (hf ▸ hmem fd w hm)
      exact List.mem_singleton.mpr hw

/-- The match is over for the records: nobody or one player stands, and the winner is the survivor. -/
theorem Master.isOver_winner {m : Master} (ho : m.isOver = true) :
    m.alive.length ≤ 1 ∧ (m.players.length = 1 → m.alive = []) ∧
    (m.alive = [] ∧ m.winnerId = 0 ∨ ∃ p, m.alive = [p] ∧ m.winnerId = p.id) := by
  have hle : m.alive.length ≤ 1 := by
    unfold Master.isOver at ho
    split at ho <;> simp at ho
    · exact ho
    · simp [ho]
  refine ⟨hle,fun h1 => ?_,?_⟩
  · simpa [Master.isOver,h1] using ho
  · unfold Master.winnerId
    match ha : m.alive, hle with
    | [], _ => exact .inl ⟨rfl,rfl⟩
    | [p], _ => exact .inr ⟨p,rfl,rfl⟩

theorem Master.Step.given {m : Master} {ev : MasterEvent} {q : MasterReply} (h : Master.Step m ev q) {w : ℕ}
    (hw : w ∈ verdicts q.2) : w = q.1.winnerId ∧ q.1.isOver = true := by
  rw [← verdicts_filter_final] at hw
  cases h.verdict.2 with
  | silent hf he =>
    rw [hf] at hw
    cases hw
  | given hn he hf ho hp =>
    rw [hf,verdicts_announcement] at hw
    exact ⟨List.mem_singleton.mp hw,ho⟩

theorem run_outlives {r t : MasterRun} {evs : List MasterEvent} (h : Execution.run masterStep r evs = some t) :
    Outlives r.master.players t.master.players := by
  refine Execution.run_invariant (I := fun t => Outlives r.master.players t.master.players) ?_ h (.refl _)
  intro s ev t hs ht
  obtain ⟨q,-,hst,rfl⟩ := masterStep_inv ht
  exact hs.trans hst.verdict.1

theorem closeRoom_after_end {m : Master} (h : m.matchEnded = true) (slot : Fin maxRooms) :
    (closeRoom m slot).1.players = m.players := by
  have hf : (m.freeRoom slot).matchEnded = true := h
  unfold closeRoom
  rw [if_pos hf]
  rfl

/-- The master's decisions agree with its records, seen from a state of a run. -/
structure MasterRun.Consistent (r : MasterRun) : Prop where
  once : (verdicts r.log).length ≤ 1
  broadcast : ∀ fd, r.log.countP (·.gameOverTo fd) ≤ 1
  sameWinner : ∀ fd w, MasterOut.send fd (.gameOver w) ∈ r.log → w ∈ verdicts r.log
  winner : ∀ ev q, r.master.step ev = some q → ∀ w ∈ verdicts q.2,
    q.1.alive.length ≤ 1 ∧ (q.1.players.length = 1 → q.1.alive = []) ∧
    (q.1.alive = [] ∧ w = 0 ∨ ∃ p, q.1.alive = [p] ∧ w = p.id)
  mortal : ∀ evs t, Execution.run masterStep r evs = some t → ∀ (i : ℕ) (p : PlayerRec),
    r.master.players[i]? = some p →
    ∃ q : PlayerRec, t.master.players[i]? = some q ∧ q.id = p.id ∧ (p.alive = false → q.alive = false)
  closed : r.master.matchEnded = true → ∀ slot q, r.master.step (.close slot) = some q →
    q.1.players = r.master.players

/-- The master decides once, on the records it then has, and no record ever revives. -/
theorem master_decides_once (roomSize : ℕ) (evs : List MasterEvent) (r : MasterRun)
    (hr : Execution.run masterStep (.init roomSize) evs = some r) : r.Consistent := by
  have hd := Execution.run_invariant masterStep_decided hr (MasterRun.init_decided roomSize)
  obtain ⟨honce,hbroadcast,hsame⟩ := hd.once
  refine ⟨honce,hbroadcast,hsame,?_,?_,?_⟩
  · intro ev q hq w hw
    obtain ⟨rfl,ho⟩ := (Master.step_inv hq).given hw
    exact Master.isOver_winner ho
  · intro evs' t ht i p hp
    obtain ⟨q,hq,hid,-,-,hal⟩ := run_outlives ht i p hp
    refine ⟨q,hq,hid,fun hpa => ?_⟩
    cases hqa : q.alive with
    | false => rfl
    | true => exact (hal hqa).symm.trans hpa
  · intro he slot q hq
    cases Master.step_inv hq with
    | close slot hu => exact closeRoom_after_end he slot

/-- One room of two, started by ENTER; the first player tops out. -/
def duel : List MasterEvent :=
  [.accept 10 true,.accept 11 true,.recv firstSlot .ready,.recv firstSlot (.joined 1),
    .recv firstSlot (.joined 2),.enter,.recv firstSlot (.eliminated 1)]

theorem master_decides_once_duel :
    ∃ r, Execution.run masterStep (.init 2) duel = some r ∧ verdicts r.log = [2] ∧ r.Consistent := by
  obtain ⟨r,hr,hv⟩ := Execution.exists_of_run_any masterStep (.init 2) duel
    (fun r => verdicts r.log == [2]) (by decide +kernel)
  exact ⟨r,hr,by simpa using hv,master_decides_once 2 duel r hr⟩

end CoreStack.Tetrisd
