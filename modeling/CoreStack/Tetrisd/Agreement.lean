import CoreStack.Tetrisd.Decision
import CoreStack.Tetrisd.GameOver
import CoreStack.Tetrisd.Identities
import CoreStack.Tetrisd.Seats
import CoreStack.Tetrisd.Winner

/-! # One winner for all rooms

The verdict of the master is the only winner that a message on its way, a worker or a board can
name, and at most one board of the daemon names its own player.
-/
namespace CoreStack.Tetrisd
open Star Tetris Execution

/-! ## The master of the daemon -/

def masterLog (log : List Obs) : List MasterOut :=
  log.filterMap fun
    | .master o => some o
    | .room _ _ => none

theorem masterLog_append (log log' : List Obs) : masterLog (log ++ log') = masterLog log ++ masterLog log' :=
  List.filterMap_append

theorem masterLog_master (outs : List MasterOut) : masterLog (outs.map .master) = outs := by
  rw [masterLog,List.filterMap_map]
  exact List.filterMap_some

theorem masterLog_room (w : ℕ) (obs : List RoomObs) : masterLog (obs.map (.room w)) = [] := by
  rw [masterLog,List.filterMap_map]
  exact List.filterMap_eq_nil_iff.mpr fun _ _ => rfl

theorem masterLog_worked (log : List Obs) (w : ℕ) (obs : List RoomObs) :
    masterLog (log ++ obs.map (.room w)) = masterLog log := by
  rw [masterLog_append,masterLog_room,List.append_nil]

theorem System.masterStep_answer {s : System} {ev : MasterEvent} {q : MasterReply} (h : s.master.step ev = some q)
    (net : Net HubMsg) : masterStep ⟨s.master,masterLog s.log⟩ ev =
      some ⟨(s.answer net q).master,masterLog (s.answer net q).log⟩ := by
  simp only [masterStep,h,Option.map_some,System.answer,masterLog_append,masterLog_master]

theorem System.step_master {s t : System} {l : Label} (ht : s.step l = some t) :
    (t.master = s.master ∧ masterLog t.log = masterLog s.log) ∨
    ∃ ev, masterStep ⟨s.master,masterLog s.log⟩ ev = some ⟨t.master,masterLog t.log⟩ := by
  cases l with
  | accept client forkOk =>
    obtain ⟨q,hq,rfl⟩ := Option.map_eq_some_iff.mp ht
    exact .inr ⟨_,System.masterStep_answer hq _⟩
  | enter =>
    obtain ⟨q,hq,rfl⟩ := Option.map_eq_some_iff.mp ht
    exact .inr ⟨_,System.masterStep_answer hq _⟩
  | endPass stopRequested =>
    simp only [System.step] at ht
    obtain ⟨q,hq,rfl⟩ := Option.map_eq_some_iff.mp ht
    exact .inr ⟨_,System.masterStep_answer hq _⟩
  | hub slot =>
    simp only [System.step] at ht
    split at ht
    · obtain ⟨q,hq,rfl⟩ := Option.map_eq_some_iff.mp ht
      exact .inr ⟨_,System.masterStep_answer hq _⟩
    · cases ht
  | hangUp slot =>
    simp only [System.step] at ht
    split at ht
    · obtain ⟨q,hq,rfl⟩ := Option.map_eq_some_iff.mp ht
      exact .inr ⟨_,System.masterStep_answer hq _⟩
    · cases ht
  | connect w =>
    cases System.step_inv ht with
    | connect hw ha => exact .inl ⟨rfl,masterLog_worked ..⟩
    | act hm hl hev hc => simp at hl
  | handshake w ok =>
    cases System.step_inv ht with
    | handshake hw hf => exact .inl ⟨rfl,masterLog_worked ..⟩
    | act hm hl hev hc => simp at hl
  | worker w reset input =>
    cases System.step_inv ht with
    | worker hw hr hk hs => exact .inl ⟨rfl,masterLog_worked ..⟩
    | act hm hl hev hc => simp at hl
  | crash w =>
    cases System.step_inv ht with
    | crash hw => exact .inl ⟨rfl,rfl⟩
    | act hm hl hev hc => simp at hl

theorem System.run_master {roomSize : ℕ} {ls : List Label} {s : System}
    (hr : run System.step (.init roomSize) ls = some s) :
    ∃ evs, run masterStep (.init roomSize) evs = some ⟨s.master,masterLog s.log⟩ := by
  refine run_invariant (I := fun s => ∃ evs, run masterStep (.init roomSize) evs = some ⟨s.master,masterLog s.log⟩)
    ?_ hr ⟨[],rfl⟩
  intro s l t h ht
  obtain ⟨evs,hevs⟩ := h
  rcases System.step_master ht with ⟨hm,hl⟩ | ⟨ev,hev⟩
  · exact ⟨evs,by rw [hm,hl,hevs]⟩
  · exact ⟨evs ++ [ev],run_append.mpr ⟨_,hevs,run_cons.mpr ⟨_,hev,rfl⟩⟩⟩

/-! ## What a room knows of the winner -/

/-- The winners a room names, in its worker and on its boards, are among these. -/
structure Worker.Names (wk : Worker) (winners : List ℕ) : Prop where
  winner : wk.winnerId ∈ winners
  boards : ∀ p ∈ wk.session.players, p.state.winnerId ∈ winners

theorem Worker.Names.mono {wk : Worker} {winners winners' : List ℕ} (h : wk.Names winners) (hsub : winners ⊆ winners') :
    wk.Names winners' := ⟨hsub h.winner,fun p hp => hsub (h.boards p hp)⟩

theorem Worker.Names.server {wk : Worker} {winners : List ℕ} (h : wk.Names winners) (srv : Server) :
    { wk with server := srv }.Names winners := ⟨h.winner,h.boards⟩

theorem Worker.init_names (idBase : ℕ) (winners : List ℕ) : (Worker.init idBase).Names (0 :: winners) :=
  ⟨List.mem_cons_self,fun p hp => (by cases hp)⟩

theorem Worker.Step.winnerId {serial : ℕ} {hub : HubRecv} {wk : Worker} {input : Input} {e : Effect}
    (hs : Worker.Step serial hub wk input e) :
    e.worker.winnerId = wk.winnerId ∨ input = .recv ∧ hub = .msg (.gameOver e.worker.winnerId) := by
  cases hs with
  | boot bound hpc =>
    unfold bootStep
    split <;> exact .inl rfl
  | poll hpc he =>
    unfold pollStep at he
    split at he
    · cases he
      exact .inl rfl
    · cases he
  | lobbyRecv hpc =>
    unfold Tetrisd.lobbyRecv
    split <;> exact .inl rfl
  | check graceOver rand hpc =>
    unfold checkStep
    split
    · split <;> exact .inl rfl
    · exact .inl rfl
  | client n m rand hpc he =>
    unfold clientStep at he
    split at he
    · cases m <;> cases he <;> exact .inl rfl
    · cases he
  | clientsDone n hpc => exact .inl rfl
  | hubRecv hpc =>
    unfold hubStep
    split
    case h_4 winnerId => exact .inr ⟨rfl,rfl⟩
    all_goals exact .inl rfl
  | tick rand hpc => exact .inl rfl
  | report i hpc =>
    rcases reportStep_cases wk i with ⟨-,he⟩ | ⟨q,-,⟨-,he⟩ | ⟨-,he⟩⟩ <;> rw [he] <;> exact .inl rfl
  | route i draw hpc =>
    unfold routeStep
    split <;> exact .inl rfl
  | push hpc => exact .inl rfl
  | conclude hpc => exact .inl rfl

/-- A board keeps the winner it names until the room names one. -/
theorem Worker.moves_winnerId (wk : Worker) :
    wk.Moves fun p q => q.state.winnerId = p.state.winnerId ∨ q.state.winnerId = wk.winnerId where
  refl := fun _ => .inl rfl
  trans := by
    intro p q r hpq hqr
    rcases hqr with hqr | hqr
    · exact hpq.imp hqr.trans hqr.trans
    · exact .inr hqr
  action := by
    intro rand roster a p
    left
    unfold applyToSlot
    split
    · rfl
    · split
      · rfl
      · exact performAction_winnerId rand roster p.state a
  tick := fun rand p => .inl (names_winnerId (tickSlot_names rand p))
  hit := fun p _ lines _ => .inl (names_winnerId (queueGarbage_names p.state (toI32 lines)))
  drained := fun _ => .inl rfl
  report := fun _ _ _ => .inl rfl
  push := fun _ p => .inl (congrArg GameState.winnerId (pushSlot_state p))
  finish := by
    intro _ p
    unfold finishSlot
    split
    · exact .inr rfl
    · exact .inl rfl

theorem initSession_winnerId {rand : ℕ → ℕ → ℕ} {ids : List ℕ} {p : PlayerSlot} (hp : p ∈ (initSession rand ids).players) :
    p.state.winnerId = 0 := by
  obtain ⟨i,hi,rfl⟩ := List.mem_mapIdx.mp hp
  exact congrArg (fun n : ℕ × ℕ × ℕ => n.2.2) (startGame_names (rand i))

theorem Worker.Step.names {serial : ℕ} {hub : HubRecv} {wk : Worker} {input : Input} {e : Effect}
    (hs : Worker.Step serial hub wk input e) {winners : List ℕ} (h : wk.Names (0 :: winners))
    (hheard : ∀ v, input = .recv → hub = .msg (.gameOver v) → v ∈ winners) : e.worker.Names (0 :: winners) := by
  refine ⟨?_,fun q hq => ?_⟩
  · rcases hs.winnerId with heq | ⟨hi,hh⟩
    · rw [heq]
      exact h.winner
    · exact List.mem_cons_of_mem _ (hheard _ hi hh)
  · cases hpc : wk.pc.inMatch with
    | true =>
      obtain ⟨i,hi⟩ := List.getElem?_of_mem hq
      obtain ⟨p,hp,hkeeps | hnew⟩ := (hs.slotwise hpc wk.moves_winnerId).get hi
      · rw [hkeeps]
        exact h.boards p (List.mem_of_getElem? hp)
      · rw [hnew]
        exact h.winner
    | false =>
      rcases hs.lobby_session hpc with heq | ⟨rand,heq⟩ <;> rw [heq] at hq
      · exact h.boards q hq
      · rw [initSession_winnerId hq]
        exact List.mem_cons_self

/-! ## The verdict in the whole daemon -/

theorem verdicts_append (outs outs' : List MasterOut) : verdicts (outs ++ outs') = verdicts outs ++ verdicts outs' :=
  List.filterMap_append

/-- The daemon knows no winner but the one the master declared. -/
structure System.Unanimous (s : System) : Prop where
  decided : MasterRun.Decided ⟨s.master,masterLog s.log⟩
  waiting : ∀ w v, HubMsg.gameOver v ∈ (s.net w).down → v ∈ verdicts (masterLog s.log)
  rooms : ∀ w, w < s.master.roomSeq → (s.workers w).Names (0 :: verdicts (masterLog s.log))

theorem System.init_unanimous (roomSize : ℕ) : (System.init roomSize).Unanimous :=
  ⟨MasterRun.init_decided roomSize,fun _ _ h => (by cases h),fun _ h => (by cases h)⟩

theorem System.Unanimous.answer {s : System} (h : s.Unanimous) {ev : MasterEvent} {q : MasterReply} {net : Net HubMsg}
    (hm : Master.Step s.master ev q) (hd : ∀ w, (net w).down = (s.net w).down)
    (hdecided : MasterRun.Decided ⟨(s.answer net q).master,masterLog (s.answer net q).log⟩) :
    (s.answer net q).Unanimous := by
  have hlog : masterLog (s.answer net q).log = masterLog s.log ++ q.2 := by
    rw [System.answer,masterLog_append,masterLog_master]
  have hgrows : verdicts (masterLog s.log) ⊆ verdicts (masterLog (s.answer net q).log) := by
    rw [hlog,verdicts_append]
    exact List.subset_append_left _ _
  refine ⟨hdecided,fun w v hv => ?_,fun w hw => ?_⟩
  · have hv : HubMsg.gameOver v ∈ (net w).down ++ addressed (sends q.2) w := hv
    rcases List.mem_append.mp hv with hold | hnew
    · exact hgrows (h.waiting w v (hd w ▸ hold))
    · refine hdecided.once.2.2 w v ?_
      rw [hlog]
      exact List.mem_append_right _ (mem_sends.mp (mem_addressed.mp hnew))
  · by_cases hold : w < s.master.roomSeq
    · have hsame : (s.answer net q).workers w = s.workers w := born_eq_of_rewired hm.rewired s.workers hold
      rw [hsame]
      exact (h.rooms w hold).mono (List.cons_subset_cons 0 hgrows)
    · have hborn := (born_new hm.rewired s.workers hw hold).2
      have hfresh : (s.answer net q).workers w = _ := hborn
      rw [hfresh]
      exact Worker.init_names _ _

theorem System.Unanimous.moved {s t : System} (h : s.Unanimous) {w : ℕ} {obs : List RoomObs} {wk : Worker}
    (hm : t.master = s.master) (hl : t.log = s.log ++ obs.map (.room w))
    (hworkers : t.workers = Function.update s.workers w wk) (hnet : ∀ v m, m ∈ (t.net v).down → m ∈ (s.net v).down)
    (hwk : wk.Names (0 :: verdicts (masterLog s.log))) : t.Unanimous := by
  have hlog : masterLog t.log = masterLog s.log := by rw [hl,masterLog_worked]
  refine ⟨by rw [hm,hlog]; exact h.decided,fun v m hv => ?_,fun v hv => ?_⟩
  · rw [hlog]
    exact h.waiting v m (hnet v _ hv)
  · rw [hlog,hworkers]
    by_cases hvw : v = w
    · subst hvw
      rw [Function.update_self]
      exact hwk
    · rw [Function.update_of_ne hvw]
      exact h.rooms v (hm ▸ hv)

theorem System.step_unanimous {s t : System} {l : Label} (h : s.Unanimous) (ht : s.step l = some t) : t.Unanimous := by
  have hdecided : MasterRun.Decided ⟨t.master,masterLog t.log⟩ := by
    rcases System.step_master ht with ⟨hm,hl⟩ | ⟨ev,hev⟩
    · rw [hm,hl]
      exact h.decided
    · exact masterStep_decided _ ev _ h.decided hev
  cases System.step_inv ht with
  | act hm hl hev hc => exact h.answer hm (fun _ => rfl) hdecided
  | hub hw hu hup hm =>
    subst hm
    exact h.answer (.recv _ _ hu) (fun _ => Net.dropUp_down ..) hdecided
  | @connect w srv hw ha => exact h.moved rfl rfl rfl (fun _ _ hv => hv) ((h.rooms w hw).server srv)
  | @handshake w ok r hw hf => exact h.moved rfl rfl rfl (fun _ _ hv => hv) ((h.rooms w hw).server r.1)
  | @worker w reset input e net hub hw hr hk hst =>
    refine h.moved rfl rfl rfl (fun v m hv => hk.down_subset ?_) ?_
    · rwa [System.work,Net.push_down] at hv
    · exact hst.names (h.rooms w hw) fun v hi hh => h.waiting w v (hk.mem hi hh)
  | @crash w hw =>
    obtain ⟨hwinner,hboards⟩ := h.rooms w hw
    have hlog : (s.kill w).log = s.log ++ [].map (.room w) := (List.append_nil _).symm
    exact h.moved rfl hlog rfl (fun _ _ hv => hv) ⟨hwinner,hboards⟩

/-- There is one verdict at most. -/
theorem System.Unanimous.verdict {s : System} (h : s.Unanimous) {v : ℕ} (hv : v ∈ verdicts (masterLog s.log)) :
    verdicts (masterLog s.log) = [v] := by
  have hone : (verdicts (masterLog s.log)).length = 1 := le_antisymm h.decided.once.1 (List.length_pos_of_mem hv)
  obtain ⟨u,hu⟩ := List.length_eq_one_iff.mp hone
  rw [hu] at hv ⊢
  rw [List.mem_singleton.mp hv]

/-! ## Who is told that he has won -/

/-- The players of a room in the order in which they were added. -/
structure Worker.Rostered (wk : Worker) (obs : List RoomObs) : Prop where
  added : obs.filterMap RoomObs.addedId = wk.server.clients
  polled : wk.clientIds <+: wk.server.clients
  seated : wk.session.players.map (·.playerId) <+: wk.server.clients

theorem Slotwise.playerIds {s t : GameSession} (h : s.Evolves t) :
    t.players.map (·.playerId) = s.players.map (·.playerId) := by
  refine List.ext_getElem? fun i => ?_
  rw [List.getElem?_map,List.getElem?_map]
  cases hq : t.players[i]? with
  | none =>
    have hlen := h.1
    rw [List.getElem?_eq_none_iff,hlen] at hq
    rw [List.getElem?_eq_none_iff.mpr hq]
  | some q =>
    obtain ⟨p,hp,he⟩ := h.get hq
    rw [hp,Option.map_some,Option.map_some,he.playerId]

theorem initSession_playerIds (rand : ℕ → ℕ → ℕ) (ids : List ℕ) :
    (initSession rand ids).players.map (·.playerId) = ids := by
  refine List.ext_getElem? fun i => ?_
  change ((ids.mapIdx fun i id => initSlot (rand i) ids id).map (·.playerId))[i]? = ids[i]?
  rw [List.getElem?_map,List.getElem?_mapIdx,Option.map_map]
  exact Option.map_id_apply

theorem Worker.Step.added_none {serial : ℕ} {hub : HubRecv} {wk : Worker} {input : Input} {e : Effect}
    (hs : Worker.Step serial hub wk input e) : e.obs.filterMap RoomObs.addedId = [] := by
  refine List.filterMap_eq_nil_iff.mpr fun o ho => ?_
  have hsource := hs.source ho
  cases o with
  | added id => exact hsource.elim
  | _ => rfl

theorem Worker.Rostered.work {serial : ℕ} {hub : HubRecv} {wk : Worker} {input : Input} {e : Effect}
    {obs : List RoomObs} (h : wk.Rostered obs) (hs : Worker.Step serial hub wk input e) :
    e.worker.Rostered (obs ++ e.obs) := by
  have hclients := hs.server.2.2.2
  refine ⟨?_,?_,?_⟩ <;> rw [hclients]
  · rw [List.filterMap_append,hs.added_none,List.append_nil]
    exact h.added
  · rcases hs.clientIds with heq | heq
    · rw [heq]
      exact h.polled
    · exact heq ▸ List.prefix_rfl
  · cases hpc : wk.pc.inMatch with
    | true =>
      rw [Slotwise.playerIds (hs.evolves hpc)]
      exact h.seated
    | false =>
      rcases hs.lobby_session hpc with heq | ⟨rand,heq⟩ <;> rw [heq]
      · exact h.seated
      · rw [initSession_playerIds]
        exact h.polled

theorem Worker.Rostered.server {wk : Worker} {obs : List RoomObs} (h : wk.Rostered obs) {srv : Server}
    (hclients : srv.clients = wk.server.clients) : { wk with server := srv }.Rostered obs :=
  ⟨hclients ▸ h.added,hclients ▸ h.polled,hclients ▸ h.seated⟩

theorem Worker.Rostered.finish {wk : Worker} {obs : List RoomObs} (h : wk.Rostered obs) {ok : Bool}
    {r : Server × List RoomObs} (hf : wk.server.finish ok = some r) : { wk with server := r.1 }.Rostered (obs ++ r.2) := by
  unfold Server.finish at hf
  obtain ⟨id,-,hr⟩ := Option.map_eq_some_iff.mp hf
  cases ok with
  | false =>
    rw [if_neg Bool.false_ne_true] at hr
    subst hr
    rw [List.append_nil]
    exact h.server rfl
  | true =>
    rw [if_pos rfl] at hr
    subst hr
    have hmore : wk.server.clients <+: wk.server.clients ++ [id] := List.prefix_append _ _
    refine ⟨?_,h.polled.trans hmore,h.seated.trans hmore⟩
    rw [List.filterMap_append,h.added]
    rfl

def System.Rostered (s : System) : Prop := ∀ w, w < s.master.roomSeq → (s.workers w).Rostered (roomLog w s.log)

theorem System.step_rostered {s t : System} {l : Label} (hs : s.Sound) (h : s.Rostered) (ht : s.step l = some t) :
    t.Rostered := by
  refine System.local_step ht hs (fun _ wk obs => wk.Rostered obs)
    (fun _ => ⟨rfl,List.nil_prefix,List.nil_prefix⟩) ?_ h
  intro w wk obs hw hi hm
  cases hm with
  | connect ha =>
    rw [List.append_nil]
    exact hi.server (Server.accept_clients ha)
  | handshake hf => exact hi.finish hf
  | worker hr hst => exact hi.work hst
  | crash =>
    rw [List.append_nil]
    exact ⟨hi.added,hi.polled,hi.seated⟩

/-- The board names its own player. -/
def PlayerSlot.won (p : PlayerSlot) : Prop := p.state.winnerId ≠ 0 ∧ p.state.winnerId = p.playerId

theorem System.Rostered.added {s : System} (h : s.Rostered) {w : ℕ} (hw : w < s.master.roomSeq) {p : PlayerSlot}
    (hp : p ∈ (s.workers w).session.players) : Obs.room w (.added p.playerId) ∈ s.log := by
  obtain ⟨hadded,-,hseated⟩ := h w hw
  have hmem := hseated.subset (List.mem_map_of_mem (f := (·.playerId)) hp)
  rw [← hadded] at hmem
  obtain ⟨o,ho,hid⟩ := List.mem_filterMap.mp hmem
  obtain rfl : o = .added p.playerId := by
    cases o with
    | added id => exact congrArg RoomObs.added (Option.some.inj hid)
    | _ => cases hid
  exact mem_roomLog.mp ho

theorem added_sublist (w : ℕ) (log : List Obs) :
    ((roomLog w log).filterMap RoomObs.addedId).Sublist (log.filterMap Obs.addedId) := by
  induction log with
  | nil => exact .slnil
  | cons o log ih =>
    cases o with
    | master o => exact ih
    | room v o =>
      have hcons : roomLog w (.room v o :: log) = if v = w then o :: roomLog w log else roomLog w log := by
        by_cases hvw : v = w
        · rw [if_pos hvw]
          exact List.filterMap_cons_some (if_pos hvw)
        · rw [if_neg hvw]
          exact List.filterMap_cons_none (if_neg hvw)
      have hall : Obs.addedId (.room v o) = o.addedId := rfl
      rw [hcons,List.filterMap_cons,hall]
      cases ho : o.addedId with
      | none =>
        split
        · rw [List.filterMap_cons_none ho]
          exact ih
        · exact ih
      | some id =>
        split
        · rw [List.filterMap_cons_some ho]
          exact ih.cons_cons id
        · exact ih.cons id

/-- While ids are unique an id names its room and its place there. -/
theorem System.Rostered.unique {s : System} (h : s.Rostered) (hids : (s.log.filterMap Obs.addedId).Nodup) {v w : ℕ}
    (hv : v < s.master.roomSeq) (hw : w < s.master.roomSeq) {i j : ℕ} {p q : PlayerSlot}
    (hp : (s.workers v).session.players[i]? = some p) (hq : (s.workers w).session.players[j]? = some q)
    (hsame : q.playerId = p.playerId) : v = w ∧ i = j := by
  have hrooms : v = w := by
    by_contra hne
    have hpairs := List.pairwise_filterMap.mp hids
    have hsymm : Std.Symm fun a a' : Obs => ∀ id, a.addedId = some id → ∀ id', a'.addedId = some id' → id ≠ id' :=
      ⟨fun _ _ h id hid id' hid' => (h id' hid' id hid).symm⟩
    have hfirst := h.added hv (List.mem_of_getElem? hp)
    have hsecond := h.added hw (List.mem_of_getElem? hq)
    have hapart := hpairs.forall hfirst hsecond fun heq => hne (Obs.room.inj heq).1
    exact hapart _ rfl _ rfl hsame.symm
  subst hrooms
  obtain ⟨hadded,-,hseated⟩ := h v hv
  have hnodup : ((s.workers v).session.players.map (·.playerId)).Nodup :=
    hseated.sublist.nodup (hadded ▸ (added_sublist v s.log).nodup hids)
  have hget : ∀ {k : ℕ} {r : PlayerSlot}, (s.workers v).session.players[k]? = some r →
      ((s.workers v).session.players.map (·.playerId))[k]? = some r.playerId :=
    fun hr => by rw [List.getElem?_map,hr,Option.map_some]
  refine ⟨rfl,(List.getElem?_inj (List.getElem?_eq_some_iff.mp (hget hp)).1 hnodup).mp ?_⟩
  rw [hget hp,hget hq,hsame]

/-- The master decides as it would alone, and no two rooms know different winners: a winner on its way
to a room, or on a board, is the one verdict. While ids are unique, at most one board of all
rooms names its own player. -/
theorem rooms_agree (roomSize : ℕ) (ls : List Label) (s : System) (hr : run System.step (.init roomSize) ls = some s) :
    (∃ evs, run masterStep (.init roomSize) evs = some ⟨s.master,masterLog s.log⟩) ∧
    (∀ w v, HubMsg.gameOver v ∈ (s.net w).down → verdicts (masterLog s.log) = [v]) ∧
    (∀ w, w < s.master.roomSeq → ∀ p ∈ (s.workers w).session.players, p.state.winnerId ≠ 0 →
      verdicts (masterLog s.log) = [p.state.winnerId]) ∧
    ((s.log.filterMap Obs.addedId).Nodup → ∀ (v w i j : ℕ) (p q : PlayerSlot), v < s.master.roomSeq →
      w < s.master.roomSeq → (s.workers v).session.players[i]? = some p → (s.workers w).session.players[j]? = some q →
      p.won → q.won → v = w ∧ i = j) := by
  have hunanimous := run_invariant (I := System.Unanimous) (fun _ _ _ h ht => System.step_unanimous h ht) hr
    (System.init_unanimous roomSize)
  have hrostered := (run_invariant (I := fun s => System.Sound s ∧ System.Rostered s)
    (fun _ l t h ht => ⟨System.step_sound _ l t h.1 ht,System.step_rostered h.1 h.2 ht⟩) hr
    ⟨System.init_sound roomSize,fun _ hw => (by cases hw)⟩).2
  have hboard : ∀ w, w < s.master.roomSeq → ∀ p ∈ (s.workers w).session.players, p.state.winnerId ≠ 0 →
      verdicts (masterLog s.log) = [p.state.winnerId] := by
    intro w hw p hp hne
    rcases List.mem_cons.mp ((hunanimous.rooms w hw).boards p hp) with hzero | hmem
    · exact absurd hzero hne
    · exact hunanimous.verdict hmem
  refine ⟨System.run_master hr,fun w v hv => hunanimous.verdict (hunanimous.waiting w v hv),hboard,?_⟩
  intro hids v w i j p q hv hw hp hq hwon hwon'
  refine hrostered.unique hids hv hw hp hq ?_
  have hverdict := hboard v hv p (List.mem_of_getElem? hp) hwon.1
  rw [hboard w hw q (List.mem_of_getElem? hq) hwon'.1] at hverdict
  rw [← hwon.2,← hwon'.2]
  exact List.singleton_inj.mp hverdict

/-- The last player of the second room is told that he has won. -/
def lastStanding : List Label :=
  opening ++ kickoff ++ hears 1 3 ++ [.worker 1 false (.check true noRand)] ++ walkover ++
  [.worker 1 false .clientsDone] ++ hears 1 4 ++ [.worker 1 false .conclude]

theorem rooms_agree_lastStanding :
    ∃ (s : System) (p : PlayerSlot), run System.step (.init 2) lastStanding = some s ∧
      (s.workers 1).session.players[0]? = some p ∧ p.won ∧ verdicts (masterLog s.log) = [p.playerId] ∧
      ∀ (w j : ℕ) (q : PlayerSlot), w < 2 → (s.workers w).session.players[j]? = some q → q.won → 1 = w ∧ 0 = j := by
  have hrun := exists_of_run_any System.step (.init 2) lastStanding
    (fun s : System => decide (s.master.roomSeq = 2) && (decide (s.log.filterMap Obs.addedId).Nodup &&
      ((s.workers 1).session.players[0]?).any fun p => p.state.winnerId == 3 && p.playerId == 3)) (by decide +kernel)
  obtain ⟨s,hs,ht⟩ := hrun
  obtain ⟨hseq,ht⟩ := Bool.and_eq_true_iff.mp ht
  obtain ⟨hids,ht⟩ := Bool.and_eq_true_iff.mp ht
  obtain ⟨p,hp,hwon⟩ := (Option.any_eq_true _ _).mp ht
  obtain ⟨hwinner,hid⟩ := Bool.and_eq_true_iff.mp hwon
  have hseq : s.master.roomSeq = 2 := of_decide_eq_true hseq
  have hwinner : p.state.winnerId = 3 := beq_iff_eq.mp hwinner
  have hthree : p.won := ⟨by rw [hwinner]; decide,hwinner.trans (beq_iff_eq.mp hid).symm⟩
  have hsecond : 1 < s.master.roomSeq := by rw [hseq]; decide
  obtain ⟨-,-,hboard,hunique⟩ := rooms_agree 2 lastStanding s hs
  have hverdict := hboard 1 hsecond p (List.mem_of_getElem? hp) hthree.1
  refine ⟨s,p,hs,hp,hthree,hthree.2 ▸ hverdict,fun w j q hw hq hwon' => ?_⟩
  exact hunique (of_decide_eq_true hids) 1 w 0 j p q hsecond (by rw [hseq]; exact hw) hp hq hthree hwon'

end CoreStack.Tetrisd
