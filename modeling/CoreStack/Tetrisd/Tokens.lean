import CoreStack.Tetrisd.Attacks

/-! # An attack hits at most once

For every serial the messages under way and the arrivals together never exceed
the one read they came from.
-/
namespace CoreStack.Tetrisd
open Star Tetris

/-- The attack is in a hub or has come out of one. -/
def System.InFlight (s : System) (a : HubAttack) : Prop :=
  (∃ w, HubMsg.attack a ∈ (s.net w).up) ∨ (∃ w, HubMsg.garbage a ∈ (s.net w).down) ∨
  ∃ w playing live, Obs.room w (.gotGarbage a playing live) ∈ s.log

/-- Some room read this attack from a meter and sent it away. -/
def Launched (log : List Obs) (a : HubAttack) : Prop :=
  a.Sized ∧ a.victimId ≠ a.attackerId ∧
  ∃ w i, Obs.room w (.consumed a.serial i a.attackerId a.victimId a.lines .away) ∈ log

theorem Launched.mono {log : List Obs} {a : HubAttack} (h : Launched log a) (log' : List Obs) :
    Launched (log ++ log') a := by
  obtain ⟨hz,hne,w,i,hm⟩ := h
  exact ⟨hz,hne,w,i,List.mem_append_left _ hm⟩

/-- Messages under way, arrivals and local hits of attack `k`. -/
def System.tokens (s : System) (k : ℕ) : ℕ :=
  s.net.upCount s.master.roomSeq (·.bears k .attack) + s.net.downCount s.master.roomSeq (·.bears k .garbage) +
  countAll (·.bears k Cargo.isArrival) s.log + countAll (·.bears k (· == .call false)) s.log

structure System.Tokens (s : System) : Prop where
  read : ∀ k, countAll (·.bears k Cargo.isRead) s.log ≤ 1
  fresh : ∀ k, s.serial ≤ k → countAll (·.bears k Cargo.isRead) s.log = 0
  sent : ∀ k, countAll (·.bears k Cargo.isSent) s.log ≤ countAll (·.bears k Cargo.isRead) s.log
  token : ∀ k, s.tokens k ≤ countAll (·.bears k Cargo.isSent) s.log
  remote : ∀ k, countAll (·.bears k (· == .call true)) s.log = countAll (·.bears k (· == .arrival true true)) s.log
  origin : ∀ a, s.InFlight a → Launched s.log a

theorem System.init_tokens (roomSize : ℕ) : (System.init roomSize).Tokens := by
  refine ⟨fun k => Nat.zero_le _,fun k _ => rfl,fun k => le_rfl,fun k => le_rfl,fun k => rfl,fun a h => ?_⟩
  rcases h with ⟨w,h⟩ | ⟨w,h⟩ | ⟨w,playing,live,h⟩ <;> cases h

/-- The token of an attack moves with the step: out of the hub into an arrival, or
from a fresh read into the hub or onto a local slot. -/
theorem Worker.Traffic.token {serial : ℕ} {hub : HubRecv} {wk : Worker} {input : Input} {e : Effect}
    (h : Worker.Traffic serial hub wk input e) (k : ℕ) :
    e.sent.countP (·.bears k .attack) + e.obs.countP (·.bears k Cargo.isArrival) +
      e.obs.countP (·.bears k (· == .call false)) ≤
    e.obs.countP (·.bears k Cargo.isSent) + (taken hub input).countP (·.bears k .garbage) := by
  have hfresh := (h.tally k).away
  cases h with
  | quiet ho hs hg =>
    have h0 := countP_bears_quiet ho k
    have h1 := countP_msg_bears_quiet hs k
    simp only [h0,h1]
    omega
  | here i p a c hi hpc hp ha hk hz hc hr hne hv ho hs =>
    have h0 : e.obs.countP (·.bears k Cargo.isArrival) = 0 := by simp [ho,Cargo.isArrival]
    omega
  | away i p a hi hpc hp ha hk hz hne habs ho hs =>
    have h0 : e.obs.countP (·.bears k Cargo.isArrival) = 0 := by simp [ho,Cargo.isArrival]
    omega
  | dropped i p victimId lines hi hpc hp ho hs =>
    have h0 : e.obs.countP (·.bears k Cargo.isArrival) = 0 := by simp [ho,Cargo.isArrival]
    omega
  | lobby a hi hh hpc ho hs =>
    by_cases he : a.serial = k <;> simp [taken,ho,hs,hi,hh,Cargo.isArrival,Cargo.isSent,he]
  | hit a v c hi hh hpc hv hva hid hc hk hr hcv ho hs =>
    by_cases he : a.serial = k <;> simp [taken,ho,hs,hi,hh,Cargo.isArrival,Cargo.isSent,he,hk,hr]
  | miss a hi hh hpc ho hs =>
    by_cases he : a.serial = k <;> simp [taken,ho,hs,hi,hh,Cargo.isArrival,Cargo.isSent,he]
  | feed a hi hh hpc ho hs =>
    by_cases he : a.serial = k <;> simp [ho,hs,Cargo.isArrival,he]

/-- Attacks a step sends are read in it; garbage it reports came out of the hub. -/
theorem Worker.Traffic.origin {serial : ℕ} {hub : HubRecv} {wk : Worker} {input : Input} {e : Effect}
    (h : Worker.Traffic serial hub wk input e) (w : ℕ) :
    (∀ a, HubMsg.attack a ∈ e.sent → Launched (e.obs.map (.room w)) a) ∧
    ∀ a playing live, RoomObs.gotGarbage a playing live ∈ e.obs → input = .recv ∧ hub = .msg (.garbage a) := by
  cases h with
  | quiet ho hs hg =>
    refine ⟨fun a hm => ?_,fun a playing live hm => ?_⟩
    · cases hs _ hm
    · cases ho _ hm
  | here i p a c hi hpc hp ha hk hz hc hr hne hv ho hs => simp [ho,hs]
  | away i p a hi hpc hp ha hk hz hne habs ho hs =>
    refine ⟨fun a' hm => ?_,by simp [ho]⟩
    simp only [hs,List.mem_cons,HubMsg.attack.injEq,reduceCtorEq,List.not_mem_nil,or_false] at hm
    subst hm
    refine ⟨hz,hne,w,i,?_⟩
    simp [ho,hk]
  | dropped i p victimId lines hi hpc hp ho hs => simp [ho,hs]
  | lobby a hi hh hpc ho hs =>
    refine ⟨by simp [hs],fun a' playing live hm => ?_⟩
    simp only [ho,List.mem_singleton,RoomObs.gotGarbage.injEq] at hm
    exact ⟨hi,hm.1 ▸ hh⟩
  | hit a v c hi hh hpc hv hva hid hc hk hr hcv ho hs =>
    refine ⟨by simp [hs],fun a' playing live hm => ?_⟩
    simp only [ho,List.mem_cons,RoomObs.gotGarbage.injEq,reduceCtorEq,List.not_mem_nil,or_false] at hm
    exact ⟨hi,hm.1 ▸ hh⟩
  | miss a hi hh hpc ho hs =>
    refine ⟨by simp [hs],fun a' playing live hm => ?_⟩
    simp only [ho,List.mem_singleton,RoomObs.gotGarbage.injEq] at hm
    exact ⟨hi,hm.1 ▸ hh⟩
  | feed a hi hh hpc ho hs => simp [ho,hs]

theorem System.Tokens.work {s : System} (h : s.Tokens) {w : ℕ} (hw : w < s.master.roomSeq) {hub : HubRecv}
    {input : Input} {net : Net HubMsg} {e : Effect} (ht : s.Took w hub input net)
    (htr : Worker.Traffic s.serial hub (s.workers w) input e) : (s.work net w e).Tokens := by
  refine ⟨fun k => ?_,fun k hk' => ?_,fun k => ?_,fun k => ?_,fun k => ?_,fun a ha => ?_⟩
  · have hr := (htr.tally k).read
    have hold := h.read k
    simp only [System.work,countAll_append,countAll_room]
    by_cases he : k = s.serial
    · have := h.fresh k he.ge
      omega
    · have := (htr.tally k).fresh he
      omega
  · simp only [System.work] at hk'
    have hold := h.fresh k (by omega)
    have hnew := (htr.tally k).fresh (by omega)
    simp only [System.work,countAll_append,countAll_room]
    omega
  · have hr := (htr.tally k).sent_read
    have hold := h.sent k
    simp only [System.work,countAll_append,countAll_room]
    omega
  · have htok := htr.token k
    have hold := h.token k
    have hdown := ht.downCount hw (·.bears k .garbage)
    unfold System.tokens at hold ⊢
    simp only [System.work,countAll_append,countAll_room,Net.upCount_push _ hw,Net.downCount_push,ht.upCount]
    omega
  · have hr := (htr.tally k).remote
    have hold := h.remote k
    simp only [System.work,countAll_append,countAll_room]
    omega
  · obtain ⟨hsent,hgot⟩ := htr.origin w
    have hlift : Launched s.log a → Launched (s.log ++ e.obs.map (.room w)) a := fun hl => hl.mono _
    rcases ha with ⟨v,ha⟩ | ⟨v,ha⟩ | ⟨v,playing,live,ha⟩
    · rcases ht.mem_up ha with ha | ⟨-,ha⟩
      · exact hlift (h.origin a (.inl ⟨v,ha⟩))
      · obtain ⟨hz,hne,w',i,hm⟩ := hsent a ha
        exact ⟨hz,hne,w',i,List.mem_append_right _ hm⟩
    · simp only [System.work,Net.push_down] at ha
      exact hlift (h.origin a (.inr (.inl ⟨v,ht.down_subset ha⟩)))
    · rcases mem_append_room.mp ha with ha | ⟨-,ho⟩
      · exact hlift (h.origin a (.inr (.inr ⟨v,playing,live,ha⟩)))
      · obtain ⟨hi,hh⟩ := hgot a playing live ho
        exact hlift (h.origin a (.inr (.inl ⟨w,ht.mem hi hh⟩)))

/-- A master step takes at most one attack out of a hub and forwards it at most once. -/
theorem System.Tokens.answer {s : System} (h : s.Tokens) {net : Net HubMsg} {q : MasterReply}
    (hr : s.master.Rewired q.1 q.2)
    (hlinks : ∀ w, ¬w < s.master.roomSeq → (net w).up = [] ∧ (net w).down = [])
    (hup : ∀ w, ∀ m ∈ (net w).up, m ∈ (s.net w).up) (hdown : ∀ w, (net w).down = (s.net w).down)
    (hcount : ∀ k, net.upCount s.master.roomSeq (·.bears k .attack) +
      (sends q.2).countP (fun o => o.2.bears k .garbage) ≤ s.net.upCount s.master.roomSeq (·.bears k .attack))
    (hsends : ∀ fd a, MasterOut.send fd (.garbage a) ∈ q.2 → ∃ w, HubMsg.attack a ∈ (s.net w).up) :
    (s.answer net q).Tokens := by
  have hle := hr.roomSeq_le
  refine ⟨fun k => ?_,fun k hk' => ?_,fun k => ?_,fun k => ?_,fun k => ?_,fun a ha => ?_⟩
  · simpa [System.answer] using h.read k
  · simpa [System.answer] using h.fresh k hk'
  · simpa [System.answer] using h.sent k
  · have hold := h.token k
    have hc := hcount k
    have hu := net.upCount_extend hle (fun w hw => (hlinks w hw).1) (·.bears k .attack)
    have hd := net.downCount_extend hle (fun w hw => (hlinks w hw).2) (·.bears k .garbage)
    have hdel := net.downCount_deliver_le q.1.roomSeq (sends q.2) (·.bears k .garbage)
    have hsame : net.downCount s.master.roomSeq (·.bears k .garbage) =
        s.net.downCount s.master.roomSeq (·.bears k .garbage) := by
      simp only [Net.downCount,hdown]
    unfold System.tokens at hold ⊢
    simp only [System.answer,countAll_append,countAll_master,Net.upCount_deliver,Nat.add_zero]
    omega
  · simpa [System.answer] using h.remote k
  · have hlift : Launched s.log a → Launched (s.log ++ q.2.map .master) a := fun hl => hl.mono _
    rcases ha with ⟨v,ha⟩ | ⟨v,ha⟩ | ⟨v,playing,live,ha⟩
    · exact hlift (h.origin a (.inl ⟨v,hup v _ ha⟩))
    · simp only [System.answer,Net.deliver_down] at ha
      rcases List.mem_append.mp ha with ha | ha
      · exact hlift (h.origin a (.inr (.inl ⟨v,hdown v ▸ ha⟩)))
      · obtain ⟨w,hw⟩ := hsends v a (mem_sends.mp (mem_addressed.mp ha))
        exact hlift (h.origin a (.inl ⟨w,hw⟩))
    · exact hlift (h.origin a (.inr (.inr ⟨v,playing,live,mem_append_master.mp ha⟩)))

theorem Master.Freighting.count {m : Master} {slot : Fin maxRooms} {msg : HubMsg} {outs : List MasterOut}
    (h : m.Freighting slot msg outs) (k : ℕ) :
    (sends outs).countP (fun o => o.2.bears k .garbage) ≤ (if msg.bears k .attack then 1 else 0) := by
  cases h with
  | attack a hm ho =>
    subst hm
    rcases ho with rfl | ⟨fd,rfl⟩
    · exact Nat.zero_le _
    · simp [sends]
  | feed a hm ho =>
    rw [List.countP_eq_zero.mpr]
    · exact Nat.zero_le _
    · rintro ⟨fd,msg'⟩ hmem
      rw [ho] at hmem
      obtain ⟨i,-,he⟩ := Master.mem_sendTo.mp (mem_sends.mp hmem)
      cases he
      simp
  | light hn ho =>
    rw [countP_sends_light ho]
    exact Nat.zero_le _

theorem Master.Freighting.garbage {m : Master} {slot : Fin maxRooms} {msg : HubMsg} {outs : List MasterOut}
    (h : m.Freighting slot msg outs) {fd : ℕ} {a : HubAttack} (hm : MasterOut.send fd (.garbage a) ∈ outs) :
    msg = .attack a := by
  cases h with
  | attack a' hm' ho =>
    rcases ho with rfl | ⟨fd',rfl⟩
    · cases hm
    · cases List.mem_singleton.mp hm
      exact hm'
  | feed a' hm' ho =>
    rw [ho] at hm
    obtain ⟨i,-,he⟩ := Master.mem_sendTo.mp hm
    cases he
  | light hn ho => cases ho fd _ hm

theorem System.Tokens.congr {s t : System} (h : s.Tokens) (w : ℕ) (obs : List RoomObs)
    (ho : ∀ o ∈ obs, o.cargo = none) (hm : t.master = s.master) (hn : t.net = s.net) (hk : t.serial = s.serial)
    (hl : t.log = s.log ++ obs.map (.room w)) : t.Tokens := by
  have h0 := countP_bears_quiet ho
  refine ⟨fun k => ?_,fun k hk' => ?_,fun k => ?_,fun k => ?_,fun k => ?_,fun a ha => ?_⟩
  · simpa [hl,h0] using h.read k
  · simpa [hl,h0] using h.fresh k (hk ▸ hk')
  · simpa [hl,h0] using h.sent k
  · simpa [System.tokens,hm,hn,hl,h0] using h.token k
  · simpa [hl,h0] using h.remote k
  · rw [hl]
    refine (h.origin a ?_).mono _
    unfold System.InFlight at ha ⊢
    rw [hn,hl] at ha
    rcases ha with ha | ha | ⟨v,playing,live,ha⟩
    · exact .inl ha
    · exact .inr (.inl ha)
    · rcases mem_append_room.mp ha with ha | ⟨-,hm'⟩
      · exact .inr (.inr ⟨v,playing,live,ha⟩)
      · cases ho _ hm'

theorem System.step_tokens {s t : System} {l : Label} (hs : s.Sound) (hrec : s.Recorded) (h : s.Tokens)
    (ht : s.step l = some t) : t.Tokens := by
  cases System.step_inv ht with
  | act hm hl hev hc =>
    have hlight := hm.light hev
    refine h.answer hm.rewired hs.links (fun _ _ hm => hm) (fun _ => rfl) (fun k => ?_) fun fd a hmem => ?_
    · rw [countP_sends_light hlight]
      exact le_rfl
    · cases hlight fd _ hmem
  | @hub slot w m rest q hw hu hup hm =>
    subst hm
    have hf := handleHubMsg_freighting s.master slot m
    have hlt : w < s.master.roomSeq := hw ▸ hs.wired.lt slot hu
    refine h.answer (handleHubMsg_rewired s.master slot m) (hs.links_dropUp w)
      (fun _ _ hm' => (Net.dropUp_suffix ..).subset hm') (fun _ => Net.dropUp_down ..) (fun k => ?_) ?_
    · have hdrop := s.net.upCount_dropUp hlt hup (·.bears k .attack)
      have hcount := hf.count k
      omega
    · intro fd a hmem
      refine ⟨w,?_⟩
      rw [hup,hf.garbage hmem]
      exact List.mem_cons_self
  | @connect w srv hw ha => exact h.congr w [] (fun _ hm => (by cases hm)) rfl rfl rfl rfl
  | @handshake w ok r hw hf =>
    refine h.congr w r.2 ?_ rfl rfl rfl rfl
    intro o ho
    obtain ⟨id,rfl⟩ := Server.finish_obs hf o ho
    rfl
  | @worker w reset input e net hub hw hr hk hst => exact h.work hw hk (hst.traffic (hrec w hw).metered)
  | @crash w hw =>
    exact h.congr w [] (fun _ hm => (by cases hm)) rfl rfl rfl (List.append_nil _).symm

/-- What holds of the attacks in every state the daemon can reach. -/
structure System.Traced (s : System) : Prop where
  sound : s.Sound
  recorded : s.Recorded
  tokens : s.Tokens

theorem System.init_traced (roomSize : ℕ) : (System.init roomSize).Traced :=
  ⟨System.init_sound roomSize,fun w hw => (by cases hw),System.init_tokens roomSize⟩

theorem System.step_traced (s : System) (l : Label) (t : System) (h : s.Traced) (ht : s.step l = some t) :
    t.Traced :=
  ⟨System.step_sound s l t h.sound ht,System.step_recorded h.sound h.recorded ht,
    System.step_tokens h.sound h.recorded h.tokens ht⟩

end CoreStack.Tetrisd
