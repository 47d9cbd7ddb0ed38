import CoreStack.Tetrisd.Delivery

/-! # The kill feed

The routing pass shows an attack in its own room and asks the master to tell every
other running room. The victim's room shows it when the garbage lands, and once
more if it also takes the relayed entry.
-/
namespace CoreStack.Tetrisd
open Star Tetris

/-! ## What one room shows -/

/-- Feed entries of one room by their cause. -/
structure RoomTally (k : ℕ) (obs : List RoomObs) : Prop where
  shown : obs.countP (·.bears k (· == .shown)) = obs.countP (·.bears k Cargo.isSent) +
    obs.countP (·.bears k (· == .call true)) + obs.countP (·.bears k (· == .relayed))
  remote : obs.countP (·.bears k (· == .call true)) = obs.countP (·.bears k (· == .arrival true true))

theorem RoomTally.append {k : ℕ} {obs obs' : List RoomObs} (h : RoomTally k obs) (h' : RoomTally k obs') :
    RoomTally k (obs ++ obs') := by
  obtain ⟨hs,hr⟩ := h
  obtain ⟨hs',hr'⟩ := h'
  constructor <;> simp only [List.countP_append] <;> omega

theorem roomTally_quiet {obs : List RoomObs} (h : ∀ o ∈ obs, o.cargo = none) (k : ℕ) : RoomTally k obs := by
  have h0 := countP_bears_quiet h k
  constructor <;> simp [h0]

def System.Tallied (s : System) : Prop := ∀ w, w < s.master.roomSeq → ∀ k, RoomTally k (roomLog w s.log)

theorem System.step_tallied {s t : System} {l : Label} (hs : s.Sound) (hrec : s.Recorded) (h : s.Tallied)
    (ht : s.step l = some t) : t.Tallied := by
  have hnone : ∀ k, RoomTally k [] := roomTally_quiet fun _ h => (by cases h)
  refine System.local_step ht hs (fun _ _ obs => ∀ k, RoomTally k obs) (fun _ => hnone) ?_ h
  intro w wk obs hw hi hm k
  refine (hi k).append ?_
  cases hm with
  | connect ha => exact hnone k
  | handshake hf =>
    refine roomTally_quiet (fun o ho => ?_) k
    obtain ⟨id,rfl⟩ := Server.finish_obs hf o ho
    rfl
  | worker hr hst =>
    have htally := (hst.traffic (hrec w hw).metered).tally k
    exact ⟨htally.shown,htally.remote⟩
  | crash => exact hnone k

/-! ## How a relayed entry travels -/

/-- Somebody outside room `w` read this attack. -/
def ReadElsewhere (log : List Obs) (w k att vic lines : ℕ) : Prop :=
  ∃ v i fate, v ≠ w ∧ Obs.room v (.consumed k i att vic lines fate) ∈ log

theorem ReadElsewhere.mono {log : List Obs} {w k att vic lines : ℕ} (h : ReadElsewhere log w k att vic lines)
    (log' : List Obs) : ReadElsewhere (log ++ log') w k att vic lines := by
  obtain ⟨v,i,fate,hne,hm⟩ := h
  exact ⟨v,i,fate,hne,List.mem_append_left _ hm⟩

structure System.Relayed (s : System) : Prop where
  bound : ∀ w k, s.net.upCount s.master.roomSeq (·.bears k .feed) + (s.net w).down.countP (·.bears k .feed) +
    (roomLog w s.log).countP (·.bears k (· == .relayed)) ≤ countAll (·.bears k Cargo.isSent) s.log
  source : ∀ w a, HubMsg.feed a ∈ (s.net w).up →
    ∃ i fate, Obs.room w (.consumed a.serial i a.attackerId a.victimId a.lines fate) ∈ s.log
  target : ∀ w a, HubMsg.feed a ∈ (s.net w).down →
    ReadElsewhere s.log w a.serial a.attackerId a.victimId a.lines
  foreign : ∀ w c, Obs.room w (.queued c) ∈ s.log → c.remote = true →
    ∃ att vic lines, ReadElsewhere s.log w c.serial att vic lines
  got : ∀ w k, Obs.room w (.gotFeed k) ∈ s.log → ∃ att vic lines, ReadElsewhere s.log w k att vic lines ∧
    ∀ p ∈ (s.workers w).session.players, p.playerId ≠ vic

theorem System.init_relayed (roomSize : ℕ) : (System.init roomSize).Relayed := by
  refine ⟨fun w k => le_rfl,fun w a h => ?_,fun w a h => ?_,fun w c h => ?_,fun w k h => ?_⟩ <;> cases h

theorem Worker.Traffic.relay {serial : ℕ} {hub : HubRecv} {wk : Worker} {input : Input} {e : Effect}
    (h : Worker.Traffic serial hub wk input e) (k : ℕ) :
    e.sent.countP (·.bears k .feed) + e.obs.countP (·.bears k (· == .relayed)) ≤
    e.obs.countP (·.bears k Cargo.isSent) + (taken hub input).countP (·.bears k .feed) := by
  have hfresh := (h.tally k).feed
  cases h with
  | quiet ho hs hg =>
    simp only [countP_bears_quiet ho k,countP_msg_bears_quiet hs k]
    omega
  | here i p a c hi hpc hp ha hk hz hc hr hne hv ho hs =>
    have h0 : e.obs.countP (·.bears k (· == .relayed)) = 0 := by simp [ho]
    omega
  | away i p a hi hpc hp ha hk hz hne habs ho hs =>
    have h0 : e.obs.countP (·.bears k (· == .relayed)) = 0 := by simp [ho]
    omega
  | dropped i p victimId lines hi hpc hp ho hs => simp [ho,hs]
  | lobby a hi hh hpc ho hs => simp [ho,hs]
  | hit a v c hi hh hpc hv hva hid hc hk hr hcv ho hs => simp [ho,hs]
  | miss a hi hh hpc ho hs => simp [ho,hs]
  | feed a hi hh hpc ho hs =>
    by_cases he : a.serial = k <;> simp [taken,ho,hs,hi,hh,Cargo.isSent,he]

/-- Where the feed entries and the remote calls of one step come from. -/
theorem Worker.Traffic.provenance {serial : ℕ} {hub : HubRecv} {wk : Worker} {input : Input} {e : Effect}
    (h : Worker.Traffic serial hub wk input e) :
    (∀ a, HubMsg.feed a ∈ e.sent →
      ∃ i fate, RoomObs.consumed a.serial i a.attackerId a.victimId a.lines fate ∈ e.obs) ∧
    (∀ c, RoomObs.queued c ∈ e.obs → c.remote = true → ∃ a, input = .recv ∧ hub = .msg (.garbage a) ∧
      c.serial = a.serial ∧ ∃ v ∈ wk.session.players, v.active = true ∧ v.playerId = a.victimId) ∧
    ∀ k, RoomObs.gotFeed k ∈ e.obs →
      ∃ a, a.serial = k ∧ input = .recv ∧ hub = .msg (.feed a) ∧ wk.pc = .drainHub := by
  cases h with
  | quiet ho hs hg =>
    refine ⟨fun a hm => ?_,fun c hm => ?_,fun k hm => ?_⟩
    · cases hs _ hm
    · cases ho _ hm
    · cases ho _ hm
  | here i p a c hi hpc hp ha hk hz hc hr hne hv ho hs =>
    refine ⟨fun a' hm => ?_,fun c' hm hrem => ?_,by simp [ho]⟩
    · rw [hs,List.mem_singleton] at hm
      cases hm
      exact ⟨i,.here,by simp [ho,hk]⟩
    · simp only [ho,List.mem_cons,RoomObs.queued.injEq,reduceCtorEq,List.not_mem_nil,or_false,false_or] at hm
      subst hm
      cases hr.symm.trans hrem
  | away i p a hi hpc hp ha hk hz hne habs ho hs =>
    refine ⟨fun a' hm => ?_,by simp [ho],by simp [ho]⟩
    simp only [hs,List.mem_cons,HubMsg.feed.injEq,reduceCtorEq,List.not_mem_nil,or_false,false_or] at hm
    subst hm
    exact ⟨i,.away,by simp [ho,hk]⟩
  | dropped i p victimId lines hi hpc hp ho hs => simp [ho,hs]
  | lobby a hi hh hpc ho hs => simp [ho,hs]
  | hit a v c hi hh hpc hv hva hid hc hk hr hcv ho hs =>
    refine ⟨by simp [hs],fun c' hm hrem => ?_,by simp [ho]⟩
    simp only [ho,List.mem_cons,RoomObs.queued.injEq,reduceCtorEq,List.not_mem_nil,or_false,false_or] at hm
    subst hm
    exact ⟨a,hi,hh,hk,v,List.mem_of_getElem? hv,hva,hid⟩
  | miss a hi hh hpc ho hs => simp [ho,hs]
  | feed a hi hh hpc ho hs =>
    refine ⟨by simp [hs],by simp [ho],fun k hm => ?_⟩
    simp only [ho,List.mem_cons,RoomObs.gotFeed.injEq,reduceCtorEq,List.not_mem_nil,or_false] at hm
    exact ⟨a,hm.symm,hi,hh,hpc⟩

/-- No tick loop takes a relayed entry about a player of its own room. -/
def System.feedElsewhere (s : System) : Label → Bool
  | .worker w reset .recv =>
    match s.recv w reset with
    | .msg (.feed a) =>
      (s.workers w).pc != .drainHub || (s.workers w).session.players.all fun p => p.playerId != a.victimId
    | _ => true
  | _ => true

theorem System.feedElsewhere_ne {s : System} {w : ℕ} {reset : Bool} {a : HubAttack}
    (hg : s.feedElsewhere (.worker w reset .recv) = true) (hr : s.recv w reset = .msg (.feed a))
    (hpc : (s.workers w).pc = .drainHub) : ∀ p ∈ (s.workers w).session.players, p.playerId ≠ a.victimId := by
  simpa [System.feedElsewhere,hr,hpc] using hg

theorem Worker.Step.playerId {serial : ℕ} {hub : HubRecv} {wk : Worker} {input : Input} {e : Effect}
    (hs : Worker.Step serial hub wk input e) (hpc : wk.pc.inMatch = true) {vic : ℕ}
    (h : ∀ p ∈ wk.session.players, p.playerId ≠ vic) : ∀ p ∈ e.worker.session.players, p.playerId ≠ vic := by
  intro q hq
  obtain ⟨p,hp,he⟩ := (hs.evolves hpc).mem hq
  rw [he.playerId]
  exact h p hp

theorem System.Relayed.work {s : System} (h : s.Relayed) (ht : s.Traced) {w : ℕ} (hw : w < s.master.roomSeq)
    {reset : Bool} {hub : HubRecv} {input : Input} {net : Net HubMsg} {e : Effect} (hr : s.recv w reset = hub)
    (hk : s.Took w hub input net) (hs : Worker.Step s.serial hub (s.workers w) input e)
    (hg : s.feedElsewhere (.worker w reset input) = true) : (s.work net w e).Relayed := by
  have hrec := ht.recorded w hw
  have htr := hs.traffic hrec.metered
  obtain ⟨hfeed,hcall,hgot⟩ := htr.provenance
  refine ⟨fun v k => ?_,fun v a ha => ?_,fun v a ha => ?_,fun v c hm hrem => ?_,fun v k hm => ?_⟩
  · have hold := h.bound v k
    simp only [System.work,countAll_append,countAll_room,roomLog_append,roomLog_room,List.countP_append,
      Net.upCount_push _ hw,Net.push_down,hk.upCount]
    by_cases hv : v = w
    · subst hv
      have hrelay := htr.relay k
      have hd : (s.net v).down.countP (·.bears k .feed) =
          (taken hub input).countP (·.bears k .feed) + (net v).down.countP (·.bears k .feed) := by
        rw [hk.down_eq,List.countP_append]
      rw [if_pos rfl]
      omega
    · have hsent := (htr.tally k).feed
      rw [hk.down_ne hv,if_neg (Ne.symm hv),List.countP_nil]
      omega
  · rcases hk.mem_up ha with hold | ⟨rfl,hnew⟩
    · obtain ⟨i,fate,hm⟩ := h.source v a hold
      exact ⟨i,fate,List.mem_append_left _ hm⟩
    · obtain ⟨i,fate,hm⟩ := hfeed a hnew
      exact ⟨i,fate,mem_append_room.mpr (.inr ⟨rfl,hm⟩)⟩
  · simp only [System.work,Net.push_down] at ha
    exact (h.target v a (hk.down_subset ha)).mono _
  · rcases mem_append_room.mp hm with hm | ⟨rfl,ho⟩
    · obtain ⟨att,vic,lines,he⟩ := h.foreign v c hm hrem
      exact ⟨att,vic,lines,he.mono _⟩
    · obtain ⟨a,hi,hh,hser,p,hp,hpa,hpid⟩ := hcall c ho hrem
      obtain ⟨-,-,u,i,hread⟩ := ht.tokens.origin a (.inr (.inl ⟨v,hk.mem hi hh⟩))
      -- the attacker's own room does not have the victim among its active slots
      have hne : u ≠ v := by
        intro he
        subst he
        exact hrec.absent _ _ _ _ _ (mem_roomLog.mpr hread) p hp hpa hpid
      rw [hser]
      exact ⟨_,_,_,u,i,.away,hne,List.mem_append_left _ hread⟩
  · have hkeep : ∀ vic, (s.workers w).pc.inMatch = true →
        (∀ p ∈ (s.workers w).session.players, p.playerId ≠ vic) →
        ∀ p ∈ ((s.work net w e).workers w).session.players, p.playerId ≠ vic := by
      intro vic hpc hp
      simp only [System.work,Function.update_self]
      exact hs.playerId hpc hp
    rcases mem_append_room.mp hm with hold | ⟨rfl,ho⟩
    · obtain ⟨att,vic,lines,he,hp⟩ := h.got v k hold
      refine ⟨att,vic,lines,he.mono _,?_⟩
      by_cases hv : v = w
      · subst hv
        refine hkeep vic ?_ hp
        by_contra hpc
        cases hrec.stage (Bool.eq_false_iff.mpr hpc) _ (mem_roomLog.mpr hold)
      · simpa [System.work,hv] using hp
    · obtain ⟨a,rfl,rfl,rfl,hpc⟩ := hgot k ho
      refine ⟨_,_,_,(h.target v a (hk.mem rfl rfl)).mono _,?_⟩
      exact hkeep _ (by rw [hpc]; rfl) (System.feedElsewhere_ne hg hr hpc)

theorem countP_addressed_sends (outs : List MasterOut) (w : ℕ) (p : HubMsg → Bool) :
    (addressed (sends outs) w).countP p = outs.countP fun
      | .send fd m => fd == w && p m
      | _ => false := by
  induction outs with
  | nil => rfl
  | cons o outs ih =>
    rw [List.countP_cons,← ih]
    cases o with
    | send fd m =>
      change (addressed ((fd,m) :: sends outs) w).countP p = _
      rw [addressed_cons]
      by_cases hfd : fd = w <;> simp [hfd,List.countP_cons]
    | _ => rfl

/-- One loop over the table writes once to the hub of every room it selects. -/
theorem addressed_sendTo {m : Master} (h : m.Wired) {p : Fin maxRooms → Bool}
    (hp : ∀ i, p i = true → (m.rooms i).used = true) (msg : HubMsg) {i : Fin maxRooms} (hi : p i = true) :
    addressed (sends (m.sendTo p msg)) (m.rooms i).hubFd = [msg] := by
  have hall : ∀ msg' ∈ addressed (sends (m.sendTo p msg)) (m.rooms i).hubFd, msg' = msg := by
    intro msg' hm
    obtain ⟨j,-,he⟩ := Master.mem_sendTo.mp (mem_sends.mp (mem_addressed.mp hm))
    simp only [MasterOut.send.injEq] at he
    exact he.2
  have hmem : msg ∈ addressed (sends (m.sendTo p msg)) (m.rooms i).hubFd :=
    mem_addressed.mpr (mem_sends.mpr (Master.mem_sendTo.mpr ⟨i,hi,rfl⟩))
  have hle : (addressed (sends (m.sendTo p msg)) (m.rooms i).hubFd).length ≤ 1 := by
    rw [← List.countP_true,countP_addressed_sends]
    refine countP_sendTo_le h hp msg _ (m.rooms i).hubFd fun fd hq => ?_
    simpa using hq
  have hlen := List.length_pos_of_mem hmem
  exact List.eq_replicate_of_mem hall |>.trans (by rw [show List.length _ = 1 by omega]; rfl)

/-- A feed entry the master reads goes to each other running room once; nothing else becomes one. -/
theorem Master.Freighting.relay {m : Master} (hw : m.Wired) {slot : Fin maxRooms} {msg : HubMsg}
    {outs : List MasterOut} (h : m.Freighting slot msg outs) (w k : ℕ) :
    (addressed (sends outs) w).countP (·.bears k .feed) ≤ if msg.bears k .feed then 1 else 0 := by
  rw [countP_addressed_sends]
  cases h with
  | attack a hm ho =>
    rcases ho with rfl | ⟨fd,rfl⟩ <;> simp
  | feed a hm ho =>
    subst hm ho
    by_cases hk : a.serial = k
    · have hle := countP_sendTo_le hw (p := fun i => decide (i ≠ slot) && (m.rooms i).running)
        (fun i hi => (by simp [Room.running] at hi; exact hi.2.1)) (.feed a)
        (fun | .send fd m => fd == w && m.bears k .feed | _ => false) w
        (fun fd hq => (by simp at hq; exact hq.1))
      simpa [hk] using hle
    · rw [List.countP_eq_zero.mpr]
      · exact Nat.zero_le _
      · intro o ho
        obtain ⟨i,-,rfl⟩ := Master.mem_sendTo.mp ho
        simp [hk]
  | light hn ho =>
    rw [List.countP_eq_zero.mpr]
    · exact Nat.zero_le _
    · intro o hm
      cases o with
      | send fd msg' => simp [HubMsg.bears,ho fd msg' hm]
      | _ => simp

theorem System.Relayed.answer {s : System} (h : s.Relayed) {net : Net HubMsg} {q : MasterReply}
    (hs : s.Sound) (hr : s.master.Rewired q.1 q.2)
    (hlinks : ∀ w, ¬w < s.master.roomSeq → (net w).up = [])
    (hup : ∀ w, ∀ m ∈ (net w).up, m ∈ (s.net w).up) (hdown : ∀ w, (net w).down = (s.net w).down)
    (hcount : ∀ w k, net.upCount s.master.roomSeq (·.bears k .feed) +
      (addressed (sends q.2) w).countP (·.bears k .feed) ≤ s.net.upCount s.master.roomSeq (·.bears k .feed))
    (hsends : ∀ fd a, MasterOut.send fd (.feed a) ∈ q.2 → ∃ w, w ≠ fd ∧ HubMsg.feed a ∈ (s.net w).up) :
    (s.answer net q).Relayed := by
  have hle := hr.roomSeq_le
  refine ⟨fun v k => ?_,fun v a ha => ?_,fun v a ha => ?_,fun v c hm hrem => ?_,fun v k hm => ?_⟩
  · have hold := h.bound v k
    have hc := hcount v k
    have hu := net.upCount_extend hle hlinks (·.bears k .feed)
    simp only [System.answer,countAll_append,countAll_master,roomLog_append,roomLog_master,List.append_nil,
      Net.upCount_deliver,Net.deliver_down,List.countP_append,hdown,hu]
    omega
  · obtain ⟨i,fate,hm⟩ := h.source v a (hup v _ ha)
    exact ⟨i,fate,List.mem_append_left _ hm⟩
  · simp only [System.answer,Net.deliver_down,hdown] at ha
    rcases List.mem_append.mp ha with ha | ha
    · exact (h.target v a ha).mono _
    · obtain ⟨w,hne,hm⟩ := hsends v a (mem_sends.mp (mem_addressed.mp ha))
      obtain ⟨i,fate,hm⟩ := h.source w a hm
      exact ⟨w,i,fate,hne,List.mem_append_left _ hm⟩
  · obtain ⟨att,vic,lines,he⟩ := h.foreign v c (mem_append_master.mp hm) hrem
    exact ⟨att,vic,lines,he.mono _⟩
  · have hold := mem_append_master.mp hm
    obtain ⟨att,vic,lines,he,hp⟩ := h.got v k hold
    refine ⟨att,vic,lines,he.mono _,?_⟩
    simpa [System.answer,born_eq_of_rewired hr s.workers (hs.born hold)] using hp

theorem System.Relayed.congr {s t : System} (h : s.Relayed) (w : ℕ) (obs : List RoomObs)
    (ho : ∀ o ∈ obs, o.cargo = none) (hm : t.master = s.master) (hn : t.net = s.net)
    (hw : ∀ v, (t.workers v).session = (s.workers v).session) (hl : t.log = s.log ++ obs.map (.room w)) :
    t.Relayed := by
  have h0 := countP_bears_quiet ho
  have hold : ∀ v o, o.cargo ≠ none → Obs.room v o ∈ t.log → Obs.room v o ∈ s.log := by
    intro v o hc hm
    rw [hl] at hm
    rcases mem_append_room.mp hm with hm | ⟨-,ho'⟩
    · exact hm
    · exact absurd (ho _ ho') hc
  refine ⟨fun v k => ?_,fun v a ha => ?_,fun v a ha => ?_,fun v c hm hrem => ?_,fun v k hm => ?_⟩
  · have hb := h.bound v k
    have hroom : (roomLog v (obs.map (.room w))).countP (·.bears k (· == .relayed)) = 0 := by
      rw [roomLog_room]
      split
      · exact h0 k _
      · rfl
    simp only [hm,hn,hl,countAll_append,countAll_room,roomLog_append,List.countP_append,h0,hroom]
    omega
  · obtain ⟨i,fate,hm⟩ := h.source v a (hn ▸ ha)
    exact ⟨i,fate,hl ▸ List.mem_append_left _ hm⟩
  · rw [hl]
    exact (h.target v a (hn ▸ ha)).mono _
  · obtain ⟨att,vic,lines,he⟩ := h.foreign v c (hold v _ (by simp [RoomObs.cargo]) hm) hrem
    exact ⟨att,vic,lines,hl ▸ he.mono _⟩
  · obtain ⟨att,vic,lines,he,hp⟩ := h.got v k (hold v _ (by simp [RoomObs.cargo]) hm)
    exact ⟨att,vic,lines,hl ▸ he.mono _,hw v ▸ hp⟩

theorem System.step_relayed {s t : System} {l : Label} (htr : s.Traced) (h : s.Relayed)
    (hg : s.feedElsewhere l = true) (ht : s.step l = some t) : t.Relayed := by
  have hs := htr.sound
  have hsession : ∀ (w : ℕ) (wk : Worker), wk.session = (s.workers w).session →
      ∀ v, (Function.update s.workers w wk v).session = (s.workers v).session := by
    intro w wk hwk v
    by_cases hv : v = w
    · subst hv
      rw [Function.update_self,hwk]
    · rw [Function.update_of_ne hv]
  cases System.step_inv ht with
  | act hm hl hev hc =>
    have hlight := hm.light hev
    refine h.answer hs hm.rewired (fun w hw => (hs.links w hw).1) (fun _ _ hm => hm) (fun _ => rfl)
      (fun w k => ?_) fun fd a hmem => ?_
    · rw [List.countP_eq_zero.mpr]
      · exact le_rfl
      · intro msg hmsg
        simp [HubMsg.bears,hlight _ _ (mem_sends.mp (mem_addressed.mp hmsg))]
    · cases hlight fd _ hmem
  | @hub slot w m rest q hw hu hup hm =>
    subst hm
    have hf := handleHubMsg_freighting s.master slot m
    have hlt : w < s.master.roomSeq := hw ▸ hs.wired.lt slot hu
    refine h.answer hs (handleHubMsg_rewired s.master slot m) (fun w' hw' => (hs.links_dropUp w w' hw').1)
      (fun _ _ hm' => (Net.dropUp_suffix ..).subset hm') (fun _ => Net.dropUp_down ..) (fun v k => ?_) ?_
    · have hdrop := s.net.upCount_dropUp hlt hup (·.bears k .feed)
      have hcount := hf.relay hs.wired v k
      omega
    · intro fd a hmem
      cases hf with
      | attack a' hm' ho =>
        rcases ho with ho | ⟨fd',ho⟩ <;> rw [ho] at hmem <;> simp at hmem
      | feed a' hm' ho =>
        rw [ho] at hmem
        obtain ⟨i,hi,he⟩ := Master.mem_sendTo.mp hmem
        simp only [Bool.and_eq_true,decide_eq_true_eq,Room.running] at hi
        simp only [MasterOut.send.injEq,HubMsg.feed.injEq] at he
        refine ⟨w,fun hfd => hi.1 ?_,?_⟩
        · exact hs.wired.inj i slot hi.2.1 hu (he.1.symm.trans (hfd.symm.trans hw.symm))
        · rw [hup,hm',he.2]
          exact List.mem_cons_self
      | light hn ho => cases ho fd _ hmem
  | @connect w srv hw ha => exact h.congr w [] (fun _ hm => (by cases hm)) rfl rfl (hsession w _ rfl) rfl
  | @handshake w ok r hw hf =>
    refine h.congr w r.2 ?_ rfl rfl (hsession w _ rfl) rfl
    intro o ho
    obtain ⟨id,rfl⟩ := Server.finish_obs hf o ho
    rfl
  | @worker w reset input e net hub hw hr hk hst => exact h.work htr hw hr hk hst hg
  | @crash w hw =>
    exact h.congr w [] (fun _ hm => (by cases hm)) rfl rfl (hsession w _ rfl) (List.append_nil _).symm

/-! ## Every attack once in every feed -/

/-- The tick loop of a room learns of an attack: it routes it, or takes its garbage or its entry. -/
def Cargo.isNotice : Cargo → Bool
  | .read _ | .arrival true _ | .relayed => true
  | _ => false

theorem bears_shown (k : ℕ) (o : RoomObs) : o.bears k (· == .shown) = (o == .feed k) := by
  rw [Bool.eq_iff_iff]
  cases o <;> simp [RoomObs.bears,RoomObs.cargo]

theorem exists_cargo {obs : List RoomObs} {k : ℕ} {p : Cargo → Bool} (h : 0 < obs.countP (·.bears k p)) :
    ∃ o ∈ obs, ∃ c, o.cargo = some (k,c) ∧ p c = true := by
  obtain ⟨o,ho,hb⟩ := List.countP_pos_iff.mp h
  refine ⟨o,ho,?_⟩
  unfold RoomObs.bears at hb
  cases hc : o.cargo with
  | none => simp [hc] at hb
  | some q =>
    obtain ⟨k',c⟩ := q
    simp only [hc,Option.any_some,Bool.and_eq_true,beq_iff_eq] at hb
    obtain ⟨rfl,hp⟩ := hb
    exact ⟨c,rfl,hp⟩

theorem exists_read {obs : List RoomObs} {k : ℕ} (h : 0 < obs.countP (·.bears k Cargo.isSent)) :
    ∃ i att vic lines fate, RoomObs.consumed k i att vic lines fate ∈ obs := by
  obtain ⟨o,ho,c,hc,hp⟩ := exists_cargo h
  cases o <;> cases hc <;> first | cases hp | exact ⟨_,_,_,_,_,ho⟩

theorem exists_call {obs : List RoomObs} {k : ℕ} (h : 0 < obs.countP (·.bears k (· == .call true))) :
    ∃ c, RoomObs.queued c ∈ obs ∧ c.serial = k ∧ c.remote = true := by
  obtain ⟨o,ho,c,hc,hp⟩ := exists_cargo h
  obtain rfl := beq_iff_eq.mp hp
  cases o with
  | queued c =>
    simp only [RoomObs.cargo,Option.some.injEq,Prod.mk.injEq,Cargo.call.injEq] at hc
    exact ⟨c,ho,hc⟩
  | _ => cases hc

theorem exists_gotFeed {obs : List RoomObs} {k : ℕ} (h : 0 < obs.countP (·.bears k (· == .relayed))) :
    RoomObs.gotFeed k ∈ obs := by
  obtain ⟨o,ho,c,hc,hp⟩ := exists_cargo h
  obtain rfl := beq_iff_eq.mp hp
  cases o <;> cases hc
  exact ho

theorem ReadElsewhere.absent {s : System} (htr : s.Traced) {w k att vic lines : ℕ}
    (h : ReadElsewhere s.log w k att vic lines) : (roomLog w s.log).countP (·.bears k Cargo.isSent) = 0 := by
  obtain ⟨v,i,fate,hne,hm⟩ := h
  by_contra hn
  obtain ⟨i',att',vic',lines',fate',hm'⟩ := exists_read (Nat.pos_of_ne_zero hn)
  exact hne (htr.read_unique hm (mem_roomLog.mp hm')).1

theorem System.Relayed.not_hit {s : System} (h : s.Relayed) (htr : s.Traced) {w : ℕ} {c : QueueCall}
    (hg : Obs.room w (.gotFeed c.serial) ∈ s.log) : Obs.room w (.queued c) ∉ s.log := by
  intro hc
  obtain ⟨att,vic,lines,⟨v,i,fate,-,hm⟩,hp⟩ := h.got w _ hg
  obtain ⟨a,hf,v',i',fate',hm',-⟩ := htr.cause hc
  obtain ⟨-,-,-,rfl,-⟩ := htr.read_unique hm hm'
  obtain ⟨q,hq,hid⟩ := (htr.recorded w (htr.sound.born hc)).victims c (mem_roomLog.mpr hc)
  exact hp q (List.mem_of_getElem? hq) (hid.trans hf.playerId)

/-- The three causes of a feed entry exclude each other, and each comes once. -/
theorem System.Relayed.shown_le {s : System} (h : s.Relayed) (htr : s.Traced) (ht : s.Tallied) {w : ℕ}
    (hw : w < s.master.roomSeq) (k : ℕ) : (roomLog w s.log).countP (·.bears k (· == .shown)) ≤ 1 := by
  have htally := ht w hw k
  have hsent := htr.tokens.sent k
  have hread := htr.tokens.read k
  have hone : (roomLog w s.log).countP (·.bears k Cargo.isSent) ≤ 1 :=
    (countP_roomLog_le _ w s.log).trans (hsent.trans hread)
  have hcall : (roomLog w s.log).countP (·.bears k (· == .call true)) ≤ 1 := by
    refine (countP_roomLog_le _ w s.log).trans ?_
    have hle := htr.tokens.calls_le k
    have hsplit := countAll_isCall k s.log
    omega
  have hrel := h.bound w k
  rw [htally.shown]
  by_cases hr : 0 < (roomLog w s.log).countP (·.bears k (· == .relayed))
  · have hg := mem_roomLog.mp (exists_gotFeed hr)
    obtain ⟨att,vic,lines,he,-⟩ := h.got w k hg
    have h0 := he.absent htr
    have h1 : (roomLog w s.log).countP (·.bears k (· == .call true)) = 0 := by
      by_contra hn
      obtain ⟨c,hc,rfl,-⟩ := exists_call (Nat.pos_of_ne_zero hn)
      exact h.not_hit htr hg (mem_roomLog.mp hc)
    omega
  · by_cases hc : 0 < (roomLog w s.log).countP (·.bears k (· == .call true))
    · obtain ⟨c,hm,rfl,hrem⟩ := exists_call hc
      obtain ⟨att,vic,lines,he⟩ := h.foreign w c (mem_roomLog.mp hm) hrem
      have h0 := he.absent htr
      omega
    · omega

/-- A room that learns of an attack that landed shows it. -/
theorem System.Tallied.shown_pos {s : System} (ht : s.Tallied) (htr : s.Traced) {w k : ℕ}
    (hl : 0 < countAll (·.bears k Cargo.isCall) s.log) {o : RoomObs} (ho : o ∈ roomLog w s.log)
    (hn : o.bears k Cargo.isNotice = true) : 0 < (roomLog w s.log).countP (·.bears k (· == .shown)) := by
  have hm := mem_roomLog.mp ho
  have htally := ht w (htr.sound.born hm) k
  have hread := htr.tokens.read k
  have hsent := htr.tokens.sent k
  have hcalls := htr.tokens.calls_le k
  rw [htally.shown]
  cases o with
  | consumed k' i att vic lines fate =>
    have hr : (RoomObs.consumed k' i att vic lines fate).bears k Cargo.isRead = true := by
      simp only [bears_consumed,Bool.and_eq_true] at hn ⊢
      exact ⟨hn.1,rfl⟩
    obtain ⟨v,x,hx,hp⟩ := exists_of_countAll_pos (hl.trans_le hcalls)
    have hxr := bears_mono (q := Cargo.isRead) (fun c hc => (by cases c <;> first | rfl | cases hc)) k x hp
    obtain ⟨rfl,rfl⟩ := eq_of_countAll_le_one hread hx hm hxr hr
    have hpos : 0 < (roomLog v s.log).countP (·.bears k Cargo.isSent) := List.countP_pos_iff.mpr ⟨_,ho,hp⟩
    omega
  | gotGarbage a playing live =>
    have harr : (RoomObs.gotGarbage a playing live).bears k Cargo.isArrival = true := by
      simp only [bears_gotGarbage,Bool.and_eq_true] at hn ⊢
      exact ⟨hn.1,rfl⟩
    have htok := htr.tokens.token k
    have hpos := countAll_pos (p := (·.bears k Cargo.isArrival)) hm harr
    have hrem := htr.tokens.remote k
    have hsplit := countAll_isCall k s.log
    unfold System.tokens at htok
    have hle : countAll (·.bears k Cargo.isArrival) s.log ≤ 1 := by omega
    have hlive : 0 < countAll (·.bears k (· == .arrival true true)) s.log := by omega
    obtain ⟨v,x,hx,hp⟩ := exists_of_countAll_pos hlive
    have hxa := bears_mono (q := Cargo.isArrival) (fun c hc => (by rw [beq_iff_eq.mp hc]; rfl)) k x hp
    obtain ⟨rfl,rfl⟩ := eq_of_countAll_le_one hle hx hm hxa harr
    have hpos : 0 < (roomLog v s.log).countP (·.bears k (· == .arrival true true)) :=
      List.countP_pos_iff.mpr ⟨_,ho,hp⟩
    have hroom := htally.remote
    omega
  | gotFeed k' =>
    have hb : (RoomObs.gotFeed k').bears k (· == .relayed) = true := by
      simp only [bears_gotFeed,Bool.and_eq_true] at hn ⊢
      exact ⟨hn.1,rfl⟩
    have hpos : 0 < (roomLog w s.log).countP (·.bears k (· == .relayed)) := List.countP_pos_iff.mpr ⟨_,ho,hb⟩
    omega
  | queued c => simp [Cargo.isNotice] at hn
  | feed k' => simp [Cargo.isNotice] at hn
  | _ => cases hn

/-- A landed attack is shown once in each room whose tick loop learns of it, and the
master passes each entry to all other running rooms. -/
theorem feed_shown_once (roomSize : ℕ) (ls : List Label) (s : System)
    (hr : Execution.run (Execution.guarded System.feedElsewhere System.step) (.init roomSize) ls = some s) :
    (∀ k, 0 < countAll (·.bears k Cargo.isCall) s.log → ∀ w o, Obs.room w o ∈ s.log →
      o.bears k Cargo.isNotice = true → (roomLog w s.log).countP (· == .feed k) = 1) ∧
    ∀ slot a t, (s.net (s.master.rooms slot).hubFd).up.head? = some (.feed a) → s.step (.hub slot) = some t →
      ∀ i, i ≠ slot → (s.master.rooms i).running = true →
        (t.net (s.master.rooms i).hubFd).down = (s.net (s.master.rooms i).hubFd).down ++ [.feed a] := by
  have htr := Execution.guarded_base System.step_traced hr (System.init_traced roomSize)
  have hJ := Execution.guarded_invariant (J := fun s => s.Tallied ∧ s.Relayed) System.step_traced
    (fun s l t hi hj hg ht => ⟨System.step_tallied hi.sound hi.recorded hj.1 ht,
      System.step_relayed hi hj.2 hg ht⟩)
    hr (System.init_traced roomSize) ⟨fun _ hw => (by cases hw),System.init_relayed roomSize⟩
  refine ⟨fun k hl w o ho hn => ?_,fun slot a t hhead ht i hi hrun => ?_⟩
  · have hle := hJ.2.shown_le htr hJ.1 (htr.sound.born ho) k
    have hpos := hJ.1.shown_pos htr hl (mem_roomLog.mpr ho) hn
    simp only [bears_shown] at hle hpos
    omega
  · cases System.step_inv ht with
    | act hm hl hev hc => simp at hl
    | @hub _ w m rest q hw hu hup hm =>
      rw [hw,hup] at hhead
      cases hhead
      subst hm
      have hsel : ∀ j, (decide (j ≠ slot) && (s.master.rooms j).running) = true → (s.master.rooms j).used = true := by
        intro j hj
        simp only [Bool.and_eq_true,Room.running] at hj
        exact hj.2.1
      simp only [System.answer,handleHubMsg,Net.deliver_down,Net.dropUp_down]
      rw [addressed_sendTo htr.sound.wired hsel _ (by simp [hi,hrun])]

/-- The first player hits the other one of its room; the second room hears of it. -/
theorem feed_shown_once_salvo :
    ∃ s, Execution.run (Execution.guarded System.feedElsewhere System.step) (.init 2)
        (opening ++ secondStarts ++ salvo [] 1 ++ [.worker 1 false .clientsDone] ++ hears 1 1) = some s ∧
      0 < countAll (·.bears 43 Cargo.isCall) s.log ∧ Obs.room 1 (.gotFeed 43) ∈ s.log ∧
      (roomLog 0 s.log).countP (· == .feed 43) = 1 ∧ (roomLog 1 s.log).countP (· == .feed 43) = 1 := by
  obtain ⟨s,hs,ht⟩ := Execution.exists_of_run_any (Execution.guarded System.feedElsewhere System.step) (.init 2)
    (opening ++ secondStarts ++ salvo [] 1 ++ [.worker 1 false .clientsDone] ++ hears 1 1)
    (fun s => decide (0 < countAll (·.bears 43 Cargo.isCall) s.log) && decide (Obs.room 1 (.gotFeed 43) ∈ s.log) &&
      decide (Obs.room 0 (.consumed 43 0 1 2 1 .here) ∈ s.log)) (by decide +kernel)
  simp only [Bool.and_eq_true,decide_eq_true_eq] at ht
  obtain ⟨⟨hl,hg⟩,hc⟩ := ht
  have hone := (feed_shown_once 2 _ s hs).1 43 hl
  exact ⟨s,hs,hl,hg,hone 0 _ hc rfl,hone 1 _ hg rfl⟩

/-- The victim's room shows the attack with the garbage and again with the relayed entry. -/
theorem feed_shown_twice :
    ¬ ∀ (roomSize : ℕ) (ls : List Label) (s : System), Execution.run System.step (.init roomSize) ls = some s →
      ∀ k, 0 < countAll (·.bears k Cargo.isCall) s.log → ∀ w o, Obs.room w o ∈ s.log →
        o.bears k Cargo.isNotice = true → (roomLog w s.log).countP (· == .feed k) = 1 := by
  intro h
  obtain ⟨s,hs,ht⟩ := Execution.exists_of_run_any System.step (.init 2)
    (opening ++ secondStarts ++ volley ++ [.worker 1 false .clientsDone] ++ hears 1 2)
    (fun s => decide (0 < countAll (·.bears 44 Cargo.isCall) s.log) && decide (Obs.room 1 (.gotFeed 44) ∈ s.log) &&
      decide ((roomLog 1 s.log).countP (· == .feed 44) = 2)) (by decide +kernel)
  simp only [Bool.and_eq_true,decide_eq_true_eq] at ht
  have hone := h 2 _ s hs 44 ht.1.1 1 _ ht.1.2 rfl
  omega

end CoreStack.Tetrisd
