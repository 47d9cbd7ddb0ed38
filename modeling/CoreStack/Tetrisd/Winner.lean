import CoreStack.Tetrisd.Attacks
import CoreStack.Tetrisd.Contenders

/-! # The winner and the eliminations on their way

A worker reports eliminations one message at a time and the master decides after
each one. A report that still waits in a hub is the only way to a winner who has
already been eliminated, as long as player ids are unique.
-/
namespace CoreStack.Tetrisd
open Star

/-! ## Who may be reported -/

/-- The players a room knows are clients of its server. -/
structure Worker.Enrolled (wk : Worker) (obs : List RoomObs) : Prop where
  polled : ∀ p ∈ wk.clientIds, p ∈ wk.server.clients
  seated : ∀ q ∈ wk.session.players, q.playerId ∈ wk.server.clients
  reported : ∀ p, RoomObs.elimSent p ∈ obs → p ∈ wk.server.clients

theorem Worker.init_enrolled (idBase : ℕ) : (Worker.init idBase).Enrolled [] := by
  refine ⟨fun _ h => ?_,fun _ h => ?_,fun _ h => ?_⟩ <;> cases h

theorem Worker.Step.clientIds {serial : ℕ} {hub : HubRecv} {wk : Worker} {input : Input} {e : Effect}
    (hs : Worker.Step serial hub wk input e) :
    e.worker.clientIds = wk.clientIds ∨ e.worker.clientIds = wk.server.clients := by
  cases hs with
  | boot bound hpc =>
    unfold bootStep
    split <;> exact .inl rfl
  | poll hpc he =>
    unfold pollStep at he
    split at he
    · cases he; exact .inr rfl
    · cases he
  | lobbyRecv hpc =>
    unfold Tetrisd.lobbyRecv
    split <;> exact .inl rfl
  | check graceOver rand hpc =>
    unfold checkStep
    split
    · split <;> exact .inl rfl
    · exact .inl rfl
  | client n m rand hpc he =>
    unfold clientStep at he
    split at he
    · cases m <;> cases he <;> exact .inl rfl
    · cases he
  | clientsDone n hpc => exact .inl rfl
  | hubRecv hpc =>
    unfold hubStep
    split <;> exact .inl rfl
  | tick rand hpc => exact .inl rfl
  | report i hpc =>
    unfold reportStep
    split
    · exact .inl rfl
    · dsimp only
      split <;> exact .inl rfl
  | route i draw hpc =>
    unfold routeStep
    split <;> exact .inl rfl
  | push hpc => exact .inl rfl
  | conclude hpc => exact .inl rfl

theorem Worker.Step.joined_sent {serial : ℕ} {hub : HubRecv} {wk : Worker} {input : Input} {e : Effect}
    (hs : Worker.Step serial hub wk input e) {p : ℕ} (h : HubMsg.joined p ∈ e.sent) :
    wk.pc.inMatch = false ∧ p ∈ wk.server.clients := by
  rcases hs.sent_cases h with ⟨-,hm⟩ | ⟨hpc,q,hq,hm⟩ | ⟨i,q,-,hm⟩ | ⟨i,a,-,hm | hm⟩
  · cases hm
  · cases hm
    exact ⟨by rw [hpc]; rfl,hq⟩
  · cases hm
  · cases hm
  · cases hm

theorem Worker.Step.elim_sent {serial : ℕ} {hub : HubRecv} {wk : Worker} {input : Input} {e : Effect}
    (hs : Worker.Step serial hub wk input e) {p : ℕ} (h : RoomObs.elimSent p ∈ e.obs) :
    HubMsg.eliminated p ∈ e.sent := by
  obtain ⟨⟨i,hi⟩,-⟩ := hs.source h
  rw [hs.at_report hi] at h ⊢
  rcases reportStep_cases wk i with ⟨-,he⟩ | ⟨q,-,⟨-,he⟩ | ⟨-,he⟩⟩ <;> rw [he] at h ⊢
  · cases h
  · cases List.mem_singleton.mp h
    exact List.mem_singleton.mpr rfl
  · cases h

theorem Worker.Enrolled.work {serial : ℕ} {hub : HubRecv} {wk : Worker} {input : Input} {e : Effect}
    {obs : List RoomObs} (h : wk.Enrolled obs) (hs : Worker.Step serial hub wk input e) :
    e.worker.Enrolled (obs ++ e.obs) := by
  obtain ⟨-,-,-,hc⟩ := hs.server
  refine ⟨fun p hp => ?_,fun q hq => ?_,fun p hp => ?_⟩ <;> rw [hc]
  · rcases hs.clientIds with he | he <;> rw [he] at hp
    · exact h.polled p hp
    · exact hp
  · cases hpc : wk.pc.inMatch with
    | true =>
      obtain ⟨q',hq',he⟩ := (hs.evolves hpc).mem hq
      rw [he.playerId]
      exact h.seated q' hq'
    | false =>
      obtain he | ⟨rand,he⟩ := hs.lobby_session hpc
      · exact h.seated q (he ▸ hq)
      · rw [he] at hq
        obtain ⟨i,hi,rfl⟩ := List.mem_mapIdx.mp hq
        exact h.polled _ (List.getElem_mem hi)
  · rcases List.mem_append.mp hp with hp | hp
    · exact h.reported p hp
    · obtain ⟨-,q,hq,rfl⟩ := hs.source hp
      exact h.seated q hq

theorem Worker.Enrolled.serve {wk wk' : Worker} {obs obs' : List RoomObs} (h : wk.Enrolled obs)
    (hid : wk'.clientIds = wk.clientIds) (hs : wk'.session = wk.session)
    (hc : ∀ p ∈ wk.server.clients, p ∈ wk'.server.clients) (ho : ∀ p, RoomObs.elimSent p ∉ obs') :
    wk'.Enrolled (obs ++ obs') := by
  refine ⟨fun p hp => hc p (h.polled p (hid ▸ hp)),fun q hq => hc _ (h.seated q (hs ▸ hq)),fun p hp => ?_⟩
  rcases List.mem_append.mp hp with hp | hp
  · exact hc p (h.reported p hp)
  · exact absurd hp (ho p)

theorem Server.accept_clients {srv srv' : Server} (h : srv.accept = some srv') : srv'.clients = srv.clients := by
  unfold Server.accept at h
  split at h
  · cases h; rfl
  · cases h

theorem Server.finish_clients {srv : Server} {ok : Bool} {r : Server × List RoomObs} (h : srv.finish ok = some r) :
    (∀ p ∈ srv.clients, p ∈ r.1.clients) ∧
    ∀ p ∈ r.1.clients, p ∈ srv.clients ∨ ok = true ∧ srv.pending = some p := by
  unfold Server.finish at h
  obtain ⟨id,hp,h⟩ := Option.map_eq_some_iff.mp h
  cases ok with
  | false =>
    rw [if_neg Bool.false_ne_true] at h
    subst h
    exact ⟨fun _ h => h,fun _ h => .inl h⟩
  | true =>
    rw [if_pos rfl] at h
    subst h
    refine ⟨fun p h => List.mem_append_left _ h,fun p h => ?_⟩
    rcases List.mem_append.mp h with h | h
    · exact .inl h
    · exact .inr ⟨rfl,List.mem_singleton.mp h ▸ hp⟩

def System.Enrolled (s : System) : Prop :=
  ∀ w, w < s.master.roomSeq → (s.workers w).Enrolled (roomLog w s.log)

theorem System.step_enrolled {s t : System} {l : Label} (hs : s.Sound) (h : s.Enrolled)
    (ht : s.step l = some t) : t.Enrolled := by
  refine System.local_step ht hs (fun _ wk obs => wk.Enrolled obs) (fun w => Worker.init_enrolled _) ?_ h
  intro w wk obs hw hi hm
  cases hm with
  | connect ha =>
    refine hi.serve rfl rfl (fun p hp => ?_) fun p hp => (by cases hp)
    rw [Server.accept_clients ha]
    exact hp
  | handshake hf =>
    refine hi.serve rfl rfl (Server.finish_clients hf).1 fun p hp => ?_
    obtain ⟨id,he⟩ := Server.finish_obs hf _ hp
    cases he
  | worker hr hst => exact hi.work hst
  | crash => exact hi.serve rfl rfl (fun _ hp => hp) fun p hp => (by cases hp)

theorem System.step_clients {s t : System} {l : Label} (ht : s.step l = some t) (w : ℕ) :
    (w < s.master.roomSeq → ∀ p ∈ (s.workers w).server.clients, p ∈ (t.workers w).server.clients) ∧
    (w < t.master.roomSeq → ∀ p ∈ (t.workers w).server.clients, w < s.master.roomSeq ∧
      (p ∈ (s.workers w).server.clients ∨ l = .handshake w true ∧ (s.workers w).server.pending = some p)) := by
  have hstep := System.step_inv ht
  have hmove : w < s.master.roomSeq → (∀ p ∈ (s.workers w).server.clients, p ∈ (t.workers w).server.clients) ∧
      ∀ p ∈ (t.workers w).server.clients,
        p ∈ (s.workers w).server.clients ∨ l = .handshake w true ∧ (s.workers w).server.pending = some p := by
    intro hw
    rcases hstep.local_cases hw with ⟨he,-⟩ | ⟨obs,hm,-⟩
    · rw [he]
      exact ⟨fun _ h => h,fun _ h => .inl h⟩
    · generalize t.workers w = wk at hm ⊢
      cases hm with
      | connect ha =>
        rw [Server.accept_clients ha]
        exact ⟨fun _ h => h,fun _ h => .inl h⟩
      | handshake hf =>
        obtain ⟨hold,hnew⟩ := Server.finish_clients hf
        refine ⟨hold,fun p hp => ?_⟩
        rcases hnew p hp with hp | ⟨rfl,hp⟩
        · exact .inl hp
        · exact .inr ⟨rfl,hp⟩
      | worker hr hst =>
        rw [hst.server.2.2.2]
        exact ⟨fun _ h => h,fun _ h => .inl h⟩
      | crash => exact ⟨fun _ h => h,fun _ h => .inl h⟩
  refine ⟨fun hw => (hmove hw).1,fun hw p hp => ?_⟩
  by_cases hold : w < s.master.roomSeq
  · exact ⟨hold,(hmove hold).2 p hp⟩
  · rcases hstep.rewired with hm | ⟨outs,hr,-,hwk⟩
    · rw [hm] at hw
      exact absurd hw hold
    · rw [hwk,(born_new hr s.workers hw hold).2] at hp
      cases hp

/-! ## What the master does with a report -/

def Master.Dead (m : Master) (p : ℕ) : Prop := ∀ q ∈ m.players, q.id = p → q.alive = false

theorem Master.Dead.kill {m : Master} {p : ℕ} (h : m.Dead p) {m' : Master} (hit : PlayerRec → Bool)
    (hp : m'.players = (m.kill hit).players) : m'.Dead p := by
  intro q hq hid
  rw [hp] at hq
  obtain ⟨q',hq',hid',-,-,hal⟩ := mem_kill hq
  have hd := h q' hq' (hid'.trans hid)
  by_contra hne
  exact Bool.eq_false_iff.mp hd (hal (Bool.not_eq_false _ ▸ hne))

/-- Records of a dead player come back only with another join under its id. -/
theorem Master.Turn.dead {m : Master} {ev : MasterEvent} {q : MasterReply} (h : m.Turn ev q) {p : ℕ}
    (hd : m.Dead p) (hj : ∀ slot, ev ≠ .recv slot (.joined p)) : q.1.Dead p := by
  cases h with
  | quiet hp he hs hf =>
    intro r hr
    exact hd r (hp ▸ hr)
  | joined slot playerId hev hu hq =>
    have hplayers : q.1.players = (joinPlayer m slot playerId).players := by
      rcases hq with rfl | rfl
      · rfl
      · exact (startAllRooms_sameMatch _).players
    intro r hr hid
    rw [hplayers] at hr
    rcases joinPlayer_players m slot playerId with hp | hp <;> rw [hp] at hr
    · exact hd r hr hid
    · rcases List.mem_append.mp hr with hr | hr
      · exact hd r hr hid
      · rw [List.mem_singleton.mp hr] at hid
        exact absurd (hid ▸ hev) (hj slot)
  | start hq =>
    intro r hr
    rw [hq,(startAllRooms_sameMatch m).players] at hr
    exact hd r hr
  | check m' outs hc hp he hs hf hq =>
    obtain ⟨hit,hp⟩ := hp
    refine hd.kill hit ?_
    rw [hq,← hp]
    exact checkGlobalEnd_players m'

theorem eliminated_dead (m : Master) (slot : Fin maxRooms) (p : ℕ) :
    (handleHubMsg m slot (.eliminated p)).1.Dead p := by
  intro r hr hid
  simp only [handleHubMsg,checkGlobalEnd_players] at hr
  obtain ⟨q,-,rfl⟩ := List.mem_map.mp hr
  split
  · rfl
  · rename_i hn
    rw [if_neg hn] at hid
    exact absurd (beq_iff_eq.mpr hid) hn

def MasterOut.winner? : MasterOut → Option ℕ
  | .send _ (.gameOver winnerId) => some winnerId
  | .matchOver winnerId => some winnerId
  | _ => none

theorem MasterOut.final_of_winner {o : MasterOut} {p : ℕ} (h : o.winner? = some p) : o.final = true := by
  unfold MasterOut.winner? at h
  split at h
  · rfl
  · rfl
  · cases h

theorem not_final_of_filter {outs : List MasterOut} (h : outs.filter (·.final) = []) {o : MasterOut}
    (ho : o ∈ outs) : o.final ≠ true := List.filter_eq_nil_iff.mp h o ho

theorem winner_of_check {m : Master} {o : MasterOut} {p : ℕ} (ho : o ∈ (checkGlobalEnd m).2)
    (hp : o.winner? = some p) : m.matchEnded = false ∧ m.isOver = true ∧ m.winnerId = p := by
  unfold checkGlobalEnd at ho
  split at ho
  · cases ho
  · rename_i hn
    split at ho
    · rename_i hover
      refine ⟨?_,hover,?_⟩
      · simp only [Bool.or_eq_true,not_or] at hn
        exact Bool.eq_false_iff.mpr hn.1
      · rcases List.mem_append.mp ho with ho | ho
        · obtain ⟨i,-,rfl⟩ := Master.mem_sendTo.mp ho
          exact Option.some.inj hp
        · rw [List.mem_singleton.mp ho] at hp
          exact Option.some.inj hp
    · cases ho

/-- A winner is announced only by the check, for the one record left alive. -/
theorem Master.Turn.winner {m : Master} {ev : MasterEvent} {q : MasterReply} (h : m.Turn ev q) {o : MasterOut}
    {p : ℕ} (ho : o ∈ q.2) (hp : o.winner? = some p) (h0 : p ≠ 0) :
    ∃ m', m.checked ev = some m' ∧ m'.matchEnded = false ∧ m'.isOver = true ∧ q.1.players = m'.players ∧
      ∃ r ∈ m'.alive, r.id = p := by
  have hfinal := MasterOut.final_of_winner hp
  cases h with
  | quiet hp he hs hf => exact absurd hfinal (not_final_of_filter hf ho)
  | joined slot playerId hev hu hq =>
    have hb := broadcastRoster_final (joinPlayer m slot playerId)
    rcases hq with rfl | rfl
    · exact absurd hfinal (not_final_of_filter hb ho)
    · rcases List.mem_append.mp ho with ho | ho
      · exact absurd hfinal (not_final_of_filter hb ho)
      · exact absurd hfinal (not_final_of_filter (filter_final_starting fun _ => startAllRooms_outs) ho)
  | start hq =>
    rw [hq] at ho
    exact absurd hfinal (not_final_of_filter (filter_final_starting fun _ => startAllRooms_outs) ho)
  | check m' outs hc hpl he hs hf hq =>
    rw [hq] at ho
    rcases List.mem_append.mp ho with ho | ho
    · exact absurd hfinal (not_final_of_filter hf ho)
    · obtain ⟨hend,hover,hw⟩ := winner_of_check ho hp
      refine ⟨m',hc,hend,hover,by rw [hq]; exact checkGlobalEnd_players m',?_⟩
      rcases (Master.isOver_winner hover).2.2 with ⟨-,hz⟩ | ⟨r,hal,hid⟩
      · exact absurd (hw.symm.trans hz) h0
      · exact ⟨r,by rw [hal]; exact List.mem_singleton.mpr rfl,hid.symm.trans hw⟩

/-! ## Runs -/

/-- A handshake is completed only under an id that no client of a room has. -/
def System.freshName (s : System) : Label → Bool
  | .handshake w true => (s.workers w).server.pending.all fun id =>
      (List.range s.master.roomSeq).all fun v => !(s.workers v).server.clients.contains id
  | _ => true

/-- The event of the master in which `check_global_end` may run. -/
def System.event (s : System) : Label → Option MasterEvent
  | .hub slot => (s.net (s.master.rooms slot).hubFd).up.head?.map (.recv slot)
  | .hangUp slot => some (.close slot)
  | _ => none

/-- When the check finds the match over, no report about a player still alive waits in a hub. -/
def System.reportsRead (s : System) (l : Label) : Bool :=
  match (s.event l).bind s.master.checked with
  | some m => m.matchEnded || !m.isOver || m.alive.all fun r =>
      (List.range s.master.roomSeq).all fun v => !(s.net v).up.contains (.eliminated r.id)
  | none => true

def System.wellInformed (s : System) (l : Label) : Bool := s.freshName l && s.reportsRead l

/-- No player reported eliminated is announced as the winner later. -/
def Obs.spares (o o' : Obs) : Bool :=
  match o, o' with
  | .room _ (.elimSent p), .master m => p == 0 || m.winner? != some p
  | _, _ => true

structure System.Spared (s : System) : Prop where
  distinct : ∀ w w' p, w < s.master.roomSeq → w' < s.master.roomSeq → p ∈ (s.workers w).server.clients →
    p ∈ (s.workers w').server.clients → w = w'
  posted : ∀ w p, HubMsg.joined p ∈ (s.net w).up → p ∈ (s.workers w).server.clients
  order : ∀ w p pre post, (s.net w).up = pre ++ .joined p :: post → Obs.room w (.elimSent p) ∈ s.log →
    HubMsg.eliminated p ∈ post
  settled : ∀ w p, Obs.room w (.elimSent p) ∈ s.log → HubMsg.eliminated p ∈ (s.net w).up ∨ s.master.Dead p
  spares : s.log.Pairwise fun o o' => o.spares o' = true

theorem System.init_spared (roomSize : ℕ) : (System.init roomSize).Spared := by
  refine ⟨fun w w' p hw => (by cases hw),fun w p h => (by cases h),fun w p pre post he h => (by cases h),
    fun w p h => (by cases h),List.Pairwise.nil⟩

theorem System.step_distinct {s t : System} {l : Label} (h : s.Spared) (hg : s.freshName l = true)
    (ht : s.step l = some t) (w w' p : ℕ) (hw : w < t.master.roomSeq) (hw' : w' < t.master.roomSeq)
    (hp : p ∈ (t.workers w).server.clients) (hp' : p ∈ (t.workers w').server.clients) : w = w' := by
  have hnew : ∀ v v', l = .handshake v true → (s.workers v).server.pending = some p →
      v' < s.master.roomSeq → p ∉ (s.workers v').server.clients := by
    intro v v' hl hpend hv' hmem
    subst hl
    simp only [System.freshName,hpend,Option.all_some,List.all_eq_true,List.mem_range] at hg
    have := hg v' hv'
    simp [hmem] at this
  obtain ⟨hlt,hold⟩ := (System.step_clients ht w).2 hw p hp
  obtain ⟨hlt',hold'⟩ := (System.step_clients ht w').2 hw' p hp'
  rcases hold with hold | ⟨hl,hpend⟩ <;> rcases hold' with hold' | ⟨hl',hpend'⟩
  · exact h.distinct w w' p hlt hlt' hold hold'
  · exact absurd hold (hnew w' w hl' hpend' hlt)
  · exact absurd hold' (hnew w w' hl hpend hlt')
  · cases hl.symm.trans hl'
    rfl

theorem System.Sound.up_born {s : System} (h : s.Sound) {w : ℕ} {m : HubMsg} (hm : m ∈ (s.net w).up) :
    w < s.master.roomSeq := by
  by_contra hn
  rw [(h.links w hn).1] at hm
  cases hm

theorem split_append {α : Type*} {a b pre post : List α} {x : α} (h : a ++ b = pre ++ x :: post) (hx : x ∉ b) :
    ∃ post', a = pre ++ x :: post' ∧ post = post' ++ b := by
  rcases List.append_eq_append_iff.mp h with ⟨c,-,hb⟩ | ⟨c,ha,hc⟩
  · exact absurd (hb ▸ List.mem_append_right _ List.mem_cons_self) hx
  · cases c with
    | nil =>
      rw [List.nil_append] at hc
      exact absurd (hc ▸ List.mem_cons_self) hx
    | cons y c =>
      cases hc
      exact ⟨c,ha,rfl⟩

theorem Obs.spares_room (o : Obs) (w : ℕ) (x : RoomObs) : o.spares (.room w x) = true := by
  cases o with
  | master m => rfl
  | room v y => cases y <;> rfl

/-- A move of room `w`: reports go out as they are logged, joins only before any report. -/
theorem System.Spared.move {s t : System} {l : Label} (h : s.Spared) (hs : s.Sound)
    (hg : s.freshName l = true) (ht : s.step l = some t) (w : ℕ) (sent : List HubMsg) (obs : List RoomObs)
    (hm : t.master = s.master) (hup : ∀ v, (t.net v).up = if v = w then (s.net v).up ++ sent else (s.net v).up)
    (hlog : t.log = s.log ++ obs.map (.room w))
    (hjoin : ∀ p, HubMsg.joined p ∈ sent → p ∈ (t.workers w).server.clients ∧
      Obs.room w (.elimSent p) ∉ t.log)
    (helim : ∀ p, RoomObs.elimSent p ∈ obs → HubMsg.eliminated p ∈ sent) : t.Spared := by
  have hold : ∀ v p, Obs.room v (.elimSent p) ∈ t.log →
      Obs.room v (.elimSent p) ∈ s.log ∨ v = w ∧ HubMsg.eliminated p ∈ sent := by
    intro v p hmem
    rw [hlog] at hmem
    exact (mem_append_room.mp hmem).imp_right fun ⟨hv,ho⟩ => ⟨hv,helim p ho⟩
  refine ⟨System.step_distinct h hg ht,fun v p hmem => ?_,fun v p pre post hsplit hmem => ?_,
    fun v p hmem => ?_,?_⟩
  · have hkeep : HubMsg.joined p ∈ (s.net v).up → p ∈ (t.workers v).server.clients :=
      fun hu => (System.step_clients ht v).1 (hs.up_born hu) p (h.posted v p hu)
    rw [hup] at hmem
    split at hmem
    · rename_i hv
      subst hv
      exact (List.mem_append.mp hmem).elim hkeep fun hu => (hjoin p hu).1
    · exact hkeep hmem
  · rw [hup] at hsplit
    split at hsplit
    · rename_i hv
      subst hv
      have hno : HubMsg.joined p ∉ sent := fun hu => (hjoin p hu).2 hmem
      obtain ⟨post',ha,rfl⟩ := split_append hsplit hno
      rcases hold v p hmem with hmem | ⟨-,hu⟩
      · exact List.mem_append_left _ (h.order v p pre post' ha hmem)
      · exact List.mem_append_right _ hu
    · rename_i hv
      exact h.order v p pre post hsplit ((hold v p hmem).resolve_right fun hc => hv hc.1)
  · rw [hm,hup]
    rcases hold v p hmem with hmem | ⟨rfl,hu⟩
    · rcases h.settled v p hmem with hu | hd
      · left
        split
        · exact List.mem_append_left _ hu
        · exact hu
      · exact .inr hd
    · left
      rw [if_pos rfl]
      exact List.mem_append_right _ hu
  · rw [hlog]
    refine List.pairwise_append.mpr ⟨h.spares,?_,?_⟩
    · refine List.pairwise_of_forall_mem_list fun o _ o' ho' => ?_
      obtain ⟨x,-,rfl⟩ := List.mem_map.mp ho'
      exact o.spares_room w x
    · intro o _ o' ho'
      obtain ⟨x,-,rfl⟩ := List.mem_map.mp ho'
      exact o.spares_room w x

theorem Obs.spares_master {o : Obs} {m : MasterOut}
    (h : ∀ w p, o = .room w (.elimSent p) → p ≠ 0 → m.winner? ≠ some p) : o.spares (.master m) = true := by
  cases o with
  | master m' => rfl
  | room w x =>
    cases x with
    | elimSent p =>
      by_cases hp : p = 0
      · simp [Obs.spares,hp]
      · simp [Obs.spares,h w p rfl hp]
    | _ => rfl

/-- An event of the master. Only a report it has just read leaves the hubs without
its player being dead, and only a join read brings an id back. -/
theorem System.Spared.answer {s : System} {l : Label} {net : Net HubMsg} {ev : MasterEvent} {q : MasterReply}
    (h : s.Spared) (hs : s.Sound) (hen : s.Enrolled) (hg : s.freshName l = true)
    (ht : s.step l = some (s.answer net q)) (hturn : s.master.Turn ev q)
    (hsuf : ∀ w, (net w).up <:+ (s.net w).up)
    (hgone : ∀ w p, HubMsg.eliminated p ∈ (s.net w).up → HubMsg.eliminated p ∈ (net w).up ∨ q.1.Dead p)
    (hjoin : ∀ slot p, ev = .recv slot (.joined p) → ∃ w, (s.net w).up = .joined p :: (net w).up)
    (hread : ∀ m, s.master.checked ev = some m → m.matchEnded = false → m.isOver = true →
      ∀ r ∈ m.alive, ∀ w, HubMsg.eliminated r.id ∉ (s.net w).up) : (s.answer net q).Spared := by
  have hold : ∀ w p, Obs.room w (.elimSent p) ∈ (s.answer net q).log → Obs.room w (.elimSent p) ∈ s.log := by
    intro w p hm
    exact mem_append_master.mp hm
  have hsettled : ∀ w p, Obs.room w (.elimSent p) ∈ s.log →
      HubMsg.eliminated p ∈ (net w).up ∨ q.1.Dead p := by
    intro w p hm
    by_cases hj : ∃ slot, ev = .recv slot (.joined p)
    · -- the join read now was sent by the room of the report, before it
      obtain ⟨slot,hev⟩ := hj
      obtain ⟨w',hup⟩ := hjoin slot p hev
      have hp' := h.posted w' p (hup ▸ List.mem_cons_self)
      have hw := hs.born hm
      have hw' : w' < s.master.roomSeq := hs.up_born (hup ▸ List.mem_cons_self)
      have hp := (hen w hw).reported p (mem_roomLog.mpr hm)
      obtain rfl := h.distinct w w' p hw hw' hp hp'
      exact .inl (h.order w p [] _ hup hm)
    · rcases h.settled w p hm with hu | hd
      · exact hgone w p hu
      · exact .inr (hturn.dead hd fun slot he => hj ⟨slot,he⟩)
  refine ⟨System.step_distinct h hg ht,fun w p hm => ?_,fun w p pre post hsplit hm => ?_,
    fun w p hm => hsettled w p (hold w p hm),?_⟩
  · have hu := (hsuf w).subset hm
    exact (System.step_clients ht w).1 (hs.up_born hu) p (h.posted w p hu)
  · obtain ⟨front,hfront⟩ := hsuf w
    refine h.order w p (front ++ pre) post ?_ (hold w p hm)
    rw [← hfront,List.append_assoc]
    exact congrArg (front ++ ·) hsplit
  · refine List.pairwise_append.mpr ⟨h.spares,?_,?_⟩
    · refine List.pairwise_of_forall_mem_list fun o ho o' _ => ?_
      obtain ⟨x,-,rfl⟩ := List.mem_map.mp ho
      rfl
    · intro o ho o' ho'
      obtain ⟨m,hm,rfl⟩ := List.mem_map.mp ho'
      refine Obs.spares_master fun w p he h0 hwin => ?_
      subst he
      obtain ⟨m',hc,hend,hover,hpl,r,hr,hid⟩ := hturn.winner hm hwin h0
      rcases hsettled w p ho with hu | hd
      · exact hread m' hc hend hover r hr w (hid ▸ (hsuf w).subset hu)
      · obtain ⟨hrm,hra⟩ := List.mem_filter.mp hr
        exact Bool.eq_false_iff.mp (hd r (hpl ▸ hrm) hid) hra

theorem System.reportsRead_spec {s : System} (hs : s.Sound) {l : Label} {ev : MasterEvent} (he : s.event l = some ev)
    (hg : s.reportsRead l = true) {m : Master} (hc : s.master.checked ev = some m) (hend : m.matchEnded = false)
    (hover : m.isOver = true) : ∀ r ∈ m.alive, ∀ w, HubMsg.eliminated r.id ∉ (s.net w).up := by
  intro r hr w hm
  simp only [System.reportsRead,he,Option.bind_some,hc,hend,hover,Bool.not_true,Bool.or_self,Bool.false_or,
    List.all_eq_true,List.mem_range] at hg
  have := hg r hr w (hs.up_born hm)
  simp [hm] at this

theorem Master.checked_none {m : Master} {ev : MasterEvent} (h : ∀ slot msg, ev ≠ .recv slot msg)
    (h' : ∀ slot, ev ≠ .close slot) : m.checked ev = none := by
  cases ev with
  | recv slot msg => exact absurd rfl (h slot msg)
  | close slot => exact absurd rfl (h' slot)
  | _ => rfl

theorem System.step_spared {s t : System} {l : Label} (hs : s.Sound) (hrec : s.Recorded) (hen : s.Enrolled)
    (h : s.Spared) (hg : s.wellInformed l = true) (ht : s.step l = some t) : t.Spared := by
  obtain ⟨hname,hread⟩ := Bool.and_eq_true_iff.mp hg
  cases System.step_inv ht with
  | @act _ ev q hm hl hev hc =>
    refine h.answer hs hen hname ht hm.turn (fun w => List.suffix_rfl) (fun w p hu => .inl hu)
      (fun slot p he => absurd he (hev slot _)) fun m hck hend hover => ?_
    by_cases hclose : ∃ slot, ev = .close slot
    · obtain ⟨slot,rfl⟩ := hclose
      obtain rfl := (hc slot).mpr rfl
      exact System.reportsRead_spec hs rfl hread hck hend hover
    · rw [Master.checked_none hev fun slot he => hclose ⟨slot,he⟩] at hck
      cases hck
  | @hub slot w m rest q hw hu hup hm =>
    subst hm
    have hdrop : ∀ v, (s.net.dropUp w v).up = if v = w then (s.net v).up.tail else (s.net v).up :=
      fun v => Net.dropUp_up ..
    have htail : (s.net.dropUp w w).up = rest := by rw [hdrop,if_pos rfl,hup,List.tail_cons]
    have hturn := (Master.Step.recv slot m hu).turn
    refine h.answer hs hen hname ht hturn (fun v => Net.dropUp_suffix ..) (fun v p hmem => ?_)
      (fun slot' p he => ?_) fun m' hck hend hover => ?_
    · by_cases hv : v = w
      · subst hv
        rw [hup] at hmem
        rcases List.mem_cons.mp hmem with rfl | hmem
        · exact .inr (eliminated_dead s.master slot p)
        · exact .inl (htail ▸ hmem)
      · rw [hdrop,if_neg hv]
        exact .inl hmem
    · cases he
      exact ⟨w,by rw [htail,hup]⟩
    · refine System.reportsRead_spec hs ?_ hread hck hend hover
      simp [System.event,hw,hup]
  | @connect w srv hw ha =>
    exact h.move hs hname ht w [] [] rfl (fun v => by simp [System.serve]) rfl
      (fun p hm => (by cases hm)) fun p hm => (by cases hm)
  | @handshake w ok r hw hf =>
    refine h.move hs hname ht w [] r.2 rfl (fun v => by simp [System.serve]) rfl
      (fun p hm => (by cases hm)) fun p hm => ?_
    obtain ⟨id,he⟩ := Server.finish_obs hf _ hm
    cases he
  | @worker w reset input e net hub hw hr hk hst =>
    refine h.move hs hname ht w e.sent e.obs rfl (fun v => ?_) rfl (fun p hm => ?_) fun p hm => hst.elim_sent hm
    · simp only [System.work,Net.push_up,hk.up]
    · obtain ⟨hpc,hp⟩ := hst.joined_sent hm
      refine ⟨(System.step_clients ht w).1 hw p hp,fun hmem => ?_⟩
      rcases mem_append_room.mp hmem with hmem | ⟨-,ho⟩
      · cases (hrec w hw).stage hpc _ (mem_roomLog.mpr hmem)
      · obtain ⟨⟨i,hi⟩,-⟩ := hst.source ho
        rw [hi] at hpc
        cases hpc
  | @crash w hw =>
    exact h.move hs hname ht w [] [] rfl (fun v => by simp [System.kill]) (List.append_nil _).symm
      (fun p hm => (by cases hm)) fun p hm => (by cases hm)

/-- Nobody whose elimination has been sent is announced as the winner afterwards. -/
theorem winner_not_eliminated (roomSize : ℕ) (ls : List Label) (s : System)
    (hr : Execution.run (Execution.guarded System.wellInformed System.step) (.init roomSize) ls = some s) :
    s.log.Pairwise fun o o' => o.spares o' = true := by
  have hJ := Execution.guarded_invariant (I := fun s => s.Sound ∧ s.Recorded ∧ s.Enrolled) (J := System.Spared)
    (fun s l t hi ht => ⟨System.step_sound s l t hi.1 ht,System.step_recorded hi.1 hi.2.1 ht,
      System.step_enrolled hi.1 hi.2.2 ht⟩)
    (fun s l t hi hj hg ht => System.step_spared hi.1 hi.2.1 hi.2.2 hj hg ht)
    hr ⟨System.init_sound roomSize,fun w hw => (by cases hw),fun w hw => (by cases hw)⟩
    (System.init_spared roomSize)
  exact hJ.spares

/-- One room of two players plays. -/
def duelRoom : List Label :=
  [.accept 10 true,.accept 11 true,.worker 0 false (.boot true)] ++ joins 0 true ++ joins 0 true ++
  [.worker 0 false .poll] ++ reads firstSlot 3 ++ [.enter] ++ hears 0 3 ++ [.worker 0 false (.check false noRand)]

theorem winner_not_eliminated_duel :
    ∃ s, Execution.run (Execution.guarded System.wellInformed System.step) (.init 2)
        (duelRoom ++ [plays 0 1 .quit] ++ ticks 0 0 ++ [.worker 0 false .report] ++ reads firstSlot 1) = some s ∧
      Obs.room 0 (.elimSent 1) ∈ s.log ∧ Obs.master (.matchOver 2) ∈ s.log ∧
      s.log.Pairwise fun o o' => o.spares o' = true := by
  obtain ⟨s,hs,ht⟩ := Execution.exists_of_run_any (Execution.guarded System.wellInformed System.step) (.init 2)
    (duelRoom ++ [plays 0 1 .quit] ++ ticks 0 0 ++ [.worker 0 false .report] ++ reads firstSlot 1)
    (fun s => decide (Obs.room 0 (.elimSent 1) ∈ s.log) && decide (Obs.master (.matchOver 2) ∈ s.log))
    (by decide +kernel)
  simp only [Bool.and_eq_true,decide_eq_true_eq] at ht
  exact ⟨s,hs,ht.1,ht.2,winner_not_eliminated 2 _ s hs⟩

/-- Both players leave in one tick. The master reads the first report and declares
the second player the winner while the second report waits. -/
theorem winner_eliminated :
    ¬ ∀ (roomSize : ℕ) (ls : List Label) (s : System), Execution.run System.step (.init roomSize) ls = some s →
      s.log.Pairwise fun o o' => o.spares o' = true := by
  intro h
  obtain ⟨s,hs,ht⟩ := Execution.exists_of_run_any System.step (.init 2)
    (duelRoom ++ [plays 0 1 .quit,plays 0 2 .quit] ++ ticks 0 0 ++
      [.worker 0 false .report,.worker 0 false .report] ++ reads firstSlot 1)
    (fun s : System => !decide (s.log.Pairwise fun o o' : Obs => o.spares o' = true)) (by decide +kernel)
  simp only [Bool.not_eq_true',decide_eq_false_iff_not] at ht
  exact ht (h 2 _ s hs)

end CoreStack.Tetrisd
