import CoreStack.Daemons.Lobby
import CoreStack.BattleRoyale.Payload

/-! # Who is let in, counted and started

The accept loop of the listener knows no limit and ends only when it finds the
state changed, with one more handshake done if one was under way. The arrays of
the main thread hold what the last `brserver_client_info` found.
-/
namespace CoreStack.Daemons
open BattleRoyale Execution
variable {daemon : Daemon} {ssl : OpenSSL}

def Act.joins : Act → Bool
  | .listener (.handshake (some _)) => true
  | _ => false

namespace Hall

theorem clientInfo_clients (daemon : Daemon) (s : Hall) : (s.clientInfo daemon).clients = s.clients := by
  cases daemon <;> rfl

theorem clientInfo_clientIds (daemon : Daemon) (s : Hall) : (s.clientInfo daemon).clientIds = s.ids := by
  cases daemon <;> rfl

theorem clientInfo_written (daemon : Daemon) (s : Hall) :
    (s.clientInfo daemon).written = s.written ++ [s.clients.length] := by
  cases daemon <;> simp [clientInfo,ids]

theorem clientInfo_session (daemon : Daemon) (s : Hall) : (s.clientInfo daemon).session = s.session := by
  cases daemon <;> rfl

/-- The list of clients grows by a handshake and by nothing else. -/
theorem step_ids {s t : Hall} {l : Act} (h : s.step daemon ssl l = some t) :
    t.ids = s.ids ∧ (l.joins = true → s.clients.length = 4294967295) ∨
    l.joins = true ∧ s.clients.length ≠ 4294967295 ∧ ∃ id, t.ids = s.ids ++ [id] := by
  have hno : ∀ l : Act, l.joins = false → l.joins = true → s.clients.length = 4294967295 := by
    intro l h h'
    rw [h] at h'
    cases h'
  cases l with
  | listener a =>
    cases (listenerStep_move h).2 with
    | send hc => exact Or.inl ⟨Cast.step_ids _ _,hno _ rfl⟩
    | stay n pc hs hfull =>
      refine Or.inl ⟨rfl,?_⟩
      intro hjoin
      unfold Act.joins at hjoin
      split at hjoin
      · next sesskey heq =>
        cases heq
        exact hfull sesskey rfl
      · cases hjoin
    | reopen hs hstate hclients => exact Or.inl ⟨rfl,hno _ rfl⟩
    | begin hs hstate => exact Or.inl ⟨rfl,hno _ rfl⟩
    | close hs hstate => exact Or.inl ⟨rfl,hno _ rfl⟩
    | add id sesskey hs hroom =>
      refine Or.inr ⟨rfl,hroom,id,?_⟩
      simp [ids,Peer.joined]
  | main a =>
    left
    refine ⟨?_,hno _ rfl⟩
    cases mainStep_move h with
    | send hc => exact Cast.step_ids _ _
    | info pc hs hmain hpc => exact congrArg (List.map _) (clientInfo_clients daemon s)
    | stay pc order expected hs ha hpc => rfl
    | start pc hs hmain hstate hpc => rfl
    | sendAll content sized pc hs hpc => rfl
    | initSession hs hmain => rfl
    | finish hs hmain => rfl
  | client i a =>
    left
    refine ⟨?_,hno _ rfl⟩
    obtain ⟨p,q,hp,rfl,hq⟩ := clientStep_cases h
    have hend : q.endpoint = p.endpoint := by
      rcases hq with ⟨-,hq⟩ | ⟨-,rfl⟩
      · exact Peer.receive_endpoint hq
      · rfl
    obtain ⟨hlt,hget⟩ := List.getElem?_eq_some_iff.mp hp
    show (s.clients.set i q).map (·.endpoint.id) = s.clients.map (·.endpoint.id)
    rw [List.map_set]
    have hsame : (s.clients.map (·.endpoint.id))[i]? = some q.endpoint.id := by
      rw [List.getElem?_map,hp,hend]
      rfl
    rw [← List.getElem?_eq_some_iff.mp hsame |>.2,List.set_getElem_self]

theorem step_length {s t : Hall} {l : Act} (hle : s.clients.length ≤ 4294967295) (h : s.step daemon ssl l = some t) :
    t.clients.length = min (s.clients.length + if l.joins then 1 else 0) 4294967295 := by
  have hids : ∀ s : Hall, s.ids.length = s.clients.length := fun s => List.length_map _
  rcases step_ids h with ⟨heq,hjoin⟩ | ⟨hjoin,hroom,id,heq⟩
  · have hlen := congrArg List.length heq
    rw [hids,hids] at hlen
    split
    · next hl =>
      have hfull := hjoin hl
      omega
    · omega
  · have hlen := congrArg List.length heq
    rw [List.length_append,hids,hids,List.length_singleton] at hlen
    rw [if_pos hjoin]
    omega

theorem run_length {s t : Hall} {ls : List Act} (hle : s.clients.length ≤ 4294967295)
    (h : run (step daemon ssl) s ls = some t) :
    t.clients.length = min (s.clients.length + ls.countP Act.joins) 4294967295 := by
  induction ls generalizing s with
  | nil =>
    cases h
    simp only [List.countP_nil]
    omega
  | cons l ls ih =>
    obtain ⟨u,hu,h⟩ := run_cons.mp h
    have hone := step_length hle hu
    have hrest := ih (by omega) h
    rw [List.countP_cons]
    omega

/-! ## The arrays of the main thread -/

/-- No call wrote more ids than the array holds, and the counts of a tetrisd session are in
range. -/
def Fits (daemon : Daemon) (s : Hall) : Prop :=
  (∀ n ∈ s.written, n ≤ daemon.capacity) ∧
  (daemon = .tetrisd → ∀ session, s.session = some session →
    session.count ≤ Tetrisd.maxLobbySize ∧ session.rosterCount ≤ Tetrisd.maxLobbySize)

/-- What the session will be built from has been written by a call. -/
def Snapshot (s : Hall) : Prop := s.clientIds = [] ∨ s.clientIds.length ∈ s.written

def roomForAll (daemon : Daemon) (s : Hall) : Act → Bool
  | .main .clientInfo => decide (s.clients.length ≤ daemon.capacity)
  | _ => true

/-- Everything but `brserver_client_info` and `init_session` leaves the arrays alone. -/
theorem step_arrays {s t : Hall} {l : Act} (h : s.step daemon ssl l = some t) :
    (l ≠ .main .clientInfo ∧ t.written = s.written ∧ t.clientIds = s.clientIds ∧
      t.joined = s.joined ∧ t.reported = s.reported ∧
      (t.session = s.session ∨ t.session = some (initSession daemon s.clientIds))) ∨
    ∃ pc, l = .main .clientInfo ∧ s.main.waiting = true ∧ t = { s.clientInfo daemon with main := pc } := by
  cases l with
  | listener a =>
    cases (listenerStep_move h).2 <;> exact Or.inl ⟨Act.noConfusion,rfl,rfl,rfl,rfl,Or.inl rfl⟩
  | main a =>
    have hother : a ≠ .clientInfo → Act.main a ≠ .main .clientInfo := fun ha heq => ha (Act.main.inj heq)
    cases mainStep_move h with
    | info pc hs hmain hpc => exact Or.inr ⟨pc,rfl,hmain,rfl⟩
    | initSession hs hmain => exact Or.inl ⟨hother MainAct.noConfusion,rfl,rfl,rfl,rfl,Or.inr rfl⟩
    | send hc => exact Or.inl ⟨hother MainAct.noConfusion,rfl,rfl,rfl,rfl,Or.inl rfl⟩
    | stay pc order expected hs ha hpc => exact Or.inl ⟨hother ha,rfl,rfl,rfl,rfl,Or.inl rfl⟩
    | start pc hs hmain hstate hpc => exact Or.inl ⟨hother MainAct.noConfusion,rfl,rfl,rfl,rfl,Or.inl rfl⟩
    | sendAll content sized pc hs hpc => exact Or.inl ⟨hother MainAct.noConfusion,rfl,rfl,rfl,rfl,Or.inl rfl⟩
    | finish hs hmain => exact Or.inl ⟨hother MainAct.noConfusion,rfl,rfl,rfl,rfl,Or.inl rfl⟩
  | client i a =>
    obtain ⟨p,q,-,rfl,-⟩ := clientStep_cases h
    exact Or.inl ⟨Act.noConfusion,rfl,rfl,rfl,rfl,Or.inl rfl⟩

theorem step_snapshot {s t : Hall} {l : Act} (hs : s.Snapshot) (h : s.step daemon ssl l = some t) : t.Snapshot := by
  unfold Snapshot at hs ⊢
  rcases step_arrays h with ⟨-,hw,hc,-⟩ | ⟨pc,-,-,rfl⟩
  · rw [hw,hc]
    exact hs
  · right
    show (s.clientInfo daemon).clientIds.length ∈ (s.clientInfo daemon).written
    rw [clientInfo_clientIds,clientInfo_written,ids,List.length_map]
    exact List.mem_append_right _ (List.mem_singleton_self _)

theorem toI32_le {n : ℕ} (h : n ≤ Tetrisd.maxLobbySize) : Tetris.toI32 n ≤ Tetrisd.maxLobbySize := by
  unfold Tetris.toI32
  unfold Tetrisd.maxLobbySize at *
  split <;> omega

theorem initSession_fits {s : Hall} (hs : s.Snapshot) (hf : ∀ n ∈ s.written, n ≤ Tetrisd.maxLobbySize) :
    (initSession .tetrisd s.clientIds).count ≤ Tetrisd.maxLobbySize ∧
    (initSession .tetrisd s.clientIds).rosterCount ≤ Tetrisd.maxLobbySize := by
  have hle : s.clientIds.length ≤ Tetrisd.maxLobbySize := by
    rcases hs with hnil | hmem
    · rw [hnil]
      exact Nat.zero_le _
    · exact hf _ hmem
  exact ⟨toI32_le hle,toI32_le hle⟩

theorem step_fits {s t : Hall} {l : Act} (hs : s.Snapshot) (hf : s.Fits daemon)
    (hroom : s.roomForAll daemon l = true) (h : s.step daemon ssl l = some t) : t.Fits daemon := by
  obtain ⟨hwritten,hcounts⟩ := hf
  rcases step_arrays h with ⟨-,hw,-,-,-,hsession⟩ | ⟨pc,rfl,-,rfl⟩
  · refine ⟨by rw [hw]; exact hwritten,?_⟩
    rintro rfl session hsome
    rcases hsession with heq | heq
    · exact hcounts rfl session (by rw [← heq]; exact hsome)
    · rw [heq] at hsome
      cases hsome
      exact initSession_fits hs hwritten
  · have hsession := clientInfo_session daemon s
    refine ⟨?_,fun htetrisd session hsome => hcounts htetrisd session (by rw [← hsession]; exact hsome)⟩
    intro n hn
    change n ∈ (s.clientInfo daemon).written at hn
    rw [clientInfo_written] at hn
    rcases List.mem_append.mp hn with hn | hn
    · exact hwritten n hn
    · rw [List.mem_singleton.mp hn]
      exact of_decide_eq_true hroom

theorem step_overflows {s t : Hall} {l : Act} (hroom : s.roomForAll daemon l = false)
    (h : s.step daemon ssl l = some t) : ¬t.Fits daemon := by
  unfold roomForAll at hroom
  split at hroom
  · have hlarge := of_decide_eq_false hroom
    intro hf
    rcases step_arrays h with ⟨hno,-⟩ | ⟨pc,-,-,rfl⟩
    · exact hno rfl
    · have hmem : s.clients.length ∈ (s.clientInfo daemon).written := by simp [clientInfo_written]
      exact hlarge (hf.1 _ hmem)
  · cases hroom

theorem init_fits (daemon : Daemon) (idBase : ℕ) : (init idBase).Fits daemon := by
  refine ⟨?_,?_⟩
  · intro n hn
    cases hn
  · intro _ session hsome
    cases hsome

/-- The arrays hold the ids exactly when each `brserver_client_info` comes after at most as
many successful handshakes as they have room for. -/
theorem ids_fit_iff (daemon : Daemon) (ssl : OpenSSL) (idBase : ℕ) (ls : List Act) :
    (∀ n s, run (step daemon ssl) (init idBase) (ls.take n) = some s → s.Fits daemon) ↔
    ∀ n s, run (step daemon ssl) (init idBase) (ls.take (n + 1)) = some s → ls[n]? = some (.main .clientInfo) →
      (ls.take n).countP Act.joins ≤ daemon.capacity := by
  have hcap : daemon.capacity < 4294967295 := by
    cases daemon <;> decide
  have hroom : ∀ {n t}, run (step daemon ssl) (init idBase) (ls.take n) = some t →
      (t.clients.length ≤ daemon.capacity ↔ (ls.take n).countP Act.joins ≤ daemon.capacity) := by
    intro n t ht
    have hlen := run_length (Nat.zero_le _) ht
    have hnil : (init idBase).clients.length = 0 := rfl
    omega
  have hkeep : ∀ s l t, Snapshot s → Fits daemon s → roomForAll daemon s l = true → step daemon ssl s l = some t →
      Fits daemon t := fun _ _ _ => step_fits
  have hbreak : ∀ s l t, Snapshot s → Fits daemon s → roomForAll daemon s l = false → step daemon ssl s l = some t →
      ¬Fits daemon t := fun _ _ _ _ _ => step_overflows
  rw [safe_iff_guard (fun _ _ _ => step_snapshot) hkeep hbreak (Or.inl rfl) (init_fits daemon idBase) ls]
  constructor
  · intro h n u hu hl
    obtain ⟨t,ht,hstep⟩ := (run_take_succ hl).mp hu
    exact (hroom ht).mp (of_decide_eq_true (h n t _ u ht hl hstep))
  · intro h n t l u ht hl hstep
    unfold roomForAll
    split
    · exact decide_eq_true ((hroom ht).mpr (h n u ((run_take_succ hl).mpr ⟨t,ht,hstep⟩) hl))
    · rfl

def arrival : List Act :=
  [.listener .look,.listener .accept,.listener (.handshake (some []))]

/-- Three clients in a tetrisd room before its main thread looks, and twenty-six in bombd. -/
def crowd (n : ℕ) : List Act :=
  .listener .look :: (List.replicate n arrival).flatten ++ [.main .clientInfo]

theorem crowd_overflows :
    (∃ s, run (step .tetrisd lettersVector.cipher.toOpenSSL) (init 1) (crowd 3) = some s ∧ ¬s.Fits .tetrisd) ∧
    ∃ s, run (step .bombd lettersVector.cipher.toOpenSSL) (init 1) (crowd 26) = some s ∧ ¬s.Fits .bombd := by
  constructor
  · obtain ⟨s,hs,htest⟩ := exists_of_run_any (step .tetrisd lettersVector.cipher.toOpenSSL) (init 1) (crowd 3)
      (fun s => s.written.contains 3) (by decide +kernel)
    exact ⟨s,hs,fun h => absurd (h.1 3 (List.contains_iff_mem.mp htest)) (by decide)⟩
  · obtain ⟨s,hs,htest⟩ := exists_of_run_any (step .bombd lettersVector.cipher.toOpenSSL) (init 1) (crowd 26)
      (fun s => s.written.contains 26) (by decide +kernel)
    exact ⟨s,hs,fun h => absurd (h.1 26 (List.contains_iff_mem.mp htest)) (by decide)⟩

/-! ## Who is started -/

/-- A client that was told to start is one the session was made for and, in tetrisd, one
the master has heard of. -/
def Slotted (daemon : Daemon) (s : Hall) : Prop :=
  ∀ p ∈ s.clients, p.started = true →
    (∀ session, s.session = some session → p.endpoint.id ∈ session.ids) ∧
    (daemon = .tetrisd → p.endpoint.id ∈ s.joined)

/-- No handshake succeeds between the last `brserver_client_info` and `brserver_start`, and
none after that. -/
def noLatecomer (s : Hall) : Act → Bool
  | .listener (.handshake (some _)) => s.main.waiting
  | .main .start => s.ids.length == s.clientIds.length
  | _ => true

/-- The ids found so far are the first of the list, and a room has reported them. -/
structure Known (daemon : Daemon) (s : Hall) : Prop where
  found : s.clientIds <+: s.ids
  reported : daemon = .tetrisd → s.joined = s.clientIds ∧ s.reported = s.clientIds.length

/-- The game has been started with every client found. -/
structure Launched (s : Hall) : Prop where
  main : s.main.waiting = false
  all : s.clientIds = s.ids
  session : ∀ session, s.session = some session → session.ids = s.clientIds

/-- Nobody has been told to start yet. -/
structure Gathering (s : Hall) : Prop where
  quiet : ∀ p ∈ s.clients, p.started = false
  starting : s.starting = none
  sending : s.sending = none
  state : s.state = .lobby
  main : s.main.waiting = true ∨ s.main = .exited
  session : s.session = none

theorem Gathering.main_ne {s : Hall} (hs : s.Gathering) {pc : MainPc} (hpc : pc.waiting = false) (hne : pc ≠ .exited) :
    s.main ≠ pc := by
  rintro rfl
  rcases hs.main with hwait | hexit
  · rw [hwait] at hpc
    cases hpc
  · exact hne hexit

theorem clientInfo_known {daemon : Daemon} {s : Hall} (hs : s.Known daemon) :
    (s.clientInfo daemon).Known daemon := by
  obtain ⟨hfound,hreported⟩ := hs
  cases daemon with
  | bombd => exact ⟨List.prefix_rfl,nofun⟩
  | tetrisd =>
    obtain ⟨hjoined,hcount⟩ := hreported rfl
    obtain ⟨new,hnew⟩ := hfound
    refine ⟨List.prefix_rfl,fun _ => ⟨?_,?_⟩⟩
    · show s.joined ++ s.ids.drop s.reported = s.ids
      rw [hjoined,hcount,← hnew,List.drop_left]
    · show max s.reported s.ids.length = s.ids.length
      rw [hcount,← hnew,List.length_append]
      omega

theorem step_known {s t : Hall} {l : Act} (hs : s.Known daemon) (h : s.step daemon ssl l = some t) : t.Known daemon := by
  rcases step_arrays h with ⟨-,-,hc,hj,hr,-⟩ | ⟨pc,-,-,rfl⟩
  · have hgrow : s.ids <+: t.ids := by
      rcases step_ids h with ⟨heq,-⟩ | ⟨-,-,id,heq⟩
      · exact heq.symm ▸ List.prefix_rfl
      · exact heq.symm ▸ List.prefix_append _ _
    refine ⟨by rw [hc]; exact hs.found.trans hgrow,?_⟩
    rw [hj,hr,hc]
    exact hs.reported
  · have hk := clientInfo_known hs
    exact ⟨hk.found,hk.reported⟩

theorem clientStep_quiet {s t : Hall} {i : ℕ} {a : ClientAct} (hs : ∀ p ∈ s.clients, p.started = false)
    (h : s.clientStep ssl i a = some t) : ∀ p ∈ t.clients, p.started = false := by
  obtain ⟨p,q,hp,rfl,hq⟩ := clientStep_cases h
  have hold := hs p (List.mem_of_getElem? hp)
  have hnew : q.started = false := by
    rcases hq with ⟨-,hq⟩ | ⟨-,rfl⟩
    · rw [Peer.receive_started hq,hold]
    · exact hold
  intro r hr
  rcases List.mem_or_eq_of_mem_set hr with hr | rfl
  · exact hs r hr
  · exact hnew

theorem step_gathering {s t : Hall} {l : Act} (hs : s.Gathering) (h : s.step daemon ssl l = some t) :
    t.Gathering ∨ l = .main .start ∧ t.clients = s.clients ∧ t.clientIds = s.clientIds ∧ t.main.waiting = false ∧
      t.session = none := by
  cases l with
  | listener a =>
    left
    cases (listenerStep_move h).2 with
    | send hc =>
      rw [hs.starting] at hc
      cases hc
    | stay n pc hstarting hfull => exact { hs with }
    | reopen hstarting hstate hclients =>
      rw [hs.state] at hstate
      cases hstate
    | begin hstarting hstate =>
      rw [hs.state] at hstate
      cases hstate
    | close hstarting hstate =>
      rw [hs.state] at hstate
      cases hstate
    | add id sesskey hstarting hroom =>
      refine { hs with quiet := ?_ }
      intro p hp
      rcases List.mem_append.mp hp with hp | hp
      · exact hs.quiet p hp
      · rw [List.mem_singleton.mp hp]
        rfl
  | main a =>
    cases mainStep_move h with
    | send hc =>
      rw [hs.sending] at hc
      cases hc
    | info pc hsending hmain hpc =>
      left
      have hsame : (s.clientInfo daemon).starting = s.starting ∧ (s.clientInfo daemon).sending = s.sending ∧
          (s.clientInfo daemon).state = s.state := by
        cases daemon <;> exact ⟨rfl,rfl,rfl⟩
      refine ⟨?_,hsame.1.trans hs.starting,hsame.2.1.trans hs.sending,hsame.2.2.trans hs.state,hpc,
        (clientInfo_session daemon s).trans hs.session⟩
      show ∀ p ∈ (s.clientInfo daemon).clients, p.started = false
      rw [clientInfo_clients]
      exact hs.quiet
    | stay pc order expected hsending ha hpc => exact Or.inl { hs with main := hpc.imp_left (·.2) }
    | start pc hsending hmain hstate hpc =>
      refine Or.inr ⟨rfl,rfl,rfl,?_,hs.session⟩
      rcases hpc with rfl | rfl <;> rfl
    | sendAll content sized pc hsending hpc =>
      rcases hpc with ⟨hmain,-⟩ | ⟨hmain,-⟩
      · exact absurd hmain (hs.main_ne rfl MainPc.noConfusion)
      · exact absurd hmain (hs.main_ne rfl MainPc.noConfusion)
    | initSession hsending hmain => exact absurd hmain (hs.main_ne rfl MainPc.noConfusion)
    | finish hsending hmain => exact absurd hmain (hs.main_ne rfl MainPc.noConfusion)
  | client i a =>
    left
    have hquiet := clientStep_quiet hs.quiet h
    obtain ⟨p,q,-,rfl,-⟩ := clientStep_cases h
    exact { hs with quiet := hquiet }

/-- After the start no client is added, so the snapshot stays complete. -/
theorem step_launched {s t : Hall} {l : Act} (hs : s.Launched) (hguard : s.noLatecomer l = true)
    (h : s.step daemon ssl l = some t) : t.Launched := by
  have hmain : t.main.waiting = false := by
    cases l with
    | listener a => cases (listenerStep_move h).2 <;> exact hs.main
    | main a =>
      have hno := hs.main
      cases mainStep_move h with
      | send hc => exact hno
      | info pc hsending hwait hpc =>
        rw [hwait] at hno
        cases hno
      | stay pc order expected hsending ha hpc =>
        rcases hpc with ⟨hwait,-⟩ | rfl
        · rw [hwait] at hno
          cases hno
        · rfl
      | start pc hsending hstart hstate hpc =>
        rw [hstart] at hno
        cases hno
      | sendAll content sized pc hsending hpc => rcases hpc with ⟨-,rfl⟩ | ⟨-,rfl⟩ <;> rfl
      | initSession hsending hsetup => rfl
      | finish hsending hplay => rfl
    | client i a =>
      obtain ⟨p,q,-,rfl,-⟩ := clientStep_cases h
      exact hs.main
  have hids : t.ids = s.ids := by
    rcases step_ids h with ⟨heq,-⟩ | ⟨hjoins,-,-⟩
    · exact heq
    · unfold Act.joins at hjoins
      split at hjoins
      · exact absurd hguard (by rw [noLatecomer,hs.main]; decide)
      · cases hjoins
  rcases step_arrays h with ⟨-,-,hc,-,-,hsession⟩ | ⟨pc,-,hwait,-⟩
  · refine ⟨hmain,by rw [hc,hids]; exact hs.all,?_⟩
    intro session hsome
    rw [hc]
    rcases hsession with heq | heq
    · exact hs.session session (by rw [← heq]; exact hsome)
    · rw [heq] at hsome
      cases hsome
      cases daemon <;> rfl
  · -- `brserver_client_info` is not called again
    have hno := hs.main
    rw [hwait] at hno
    cases hno

/-- The two phases of a match that nobody joins late. -/
def Punctual (s : Hall) : Prop := s.Gathering ∨ s.Launched

theorem step_punctual {s t : Hall} {l : Act} (hk : s.Known daemon) (hs : s.Punctual) (hguard : s.noLatecomer l = true)
    (h : s.step daemon ssl l = some t) : t.Punctual := by
  rcases hs with hs | hs
  · rcases step_gathering hs h with ht | ⟨rfl,hclients,hc,hmain,hsession⟩
    · exact Or.inl ht
    · right
      have hids : t.ids = s.ids := congrArg (List.map _) hclients
      refine ⟨hmain,?_,?_⟩
      · rw [hc,hids]
        exact hk.found.eq_of_length (beq_iff_eq.mp hguard).symm
      · intro session hsome
        rw [hsession] at hsome
        cases hsome
  · exact Or.inr (step_launched hs hguard h)

theorem slotted_of_punctual {s : Hall} (hk : s.Known daemon) (hs : s.Punctual) : s.Slotted daemon := by
  intro p hp hstarted
  rcases hs with hs | hs
  · rw [hs.quiet p hp] at hstarted
    cases hstarted
  · have hmem : p.endpoint.id ∈ s.clientIds := by
      rw [hs.all]
      exact List.mem_map.mpr ⟨p,hp,rfl⟩
    refine ⟨?_,?_⟩
    · intro session hsome
      rw [hs.session session hsome]
      exact hmem
    · intro htetrisd
      rw [(hk.reported htetrisd).1]
      exact hmem

theorem init_known (daemon : Daemon) (idBase : ℕ) : (init idBase).Known daemon :=
  ⟨List.nil_prefix,fun _ => ⟨rfl,rfl⟩⟩

theorem init_gathering (idBase : ℕ) : (init idBase).Gathering where
  quiet := by
    intro p hp
    cases hp
  starting := rfl
  sending := rfl
  state := rfl
  main := Or.inl rfl
  session := rfl

/-- In every run without a latecomer everyone who is started has a slot. -/
theorem started_have_slots {idBase : ℕ} {ls : List Act} {s : Hall}
    (h : run (guarded noLatecomer (step daemon ssl)) (init idBase) ls = some s) : s.Slotted daemon := by
  have hbase : ∀ s l t, Known daemon s → step daemon ssl s l = some t → Known daemon t := fun _ _ _ => step_known
  have hknown := guarded_base hbase h (init_known daemon idBase)
  have hpunctual := guarded_invariant (J := Punctual) hbase (fun _ _ _ => step_punctual) h
    (init_known daemon idBase) (Or.inl (init_gathering idBase))
  exact slotted_of_punctual hknown hpunctual

/-- A broadcast of the listener or of the main thread to `n` clients. -/
def volley (l : Act) (n : ℕ) : List Act := List.replicate (5 * n) l

/-- What the main threads do from their last look at the list to the start. -/
def starts : Daemon → List Act
  | .tetrisd => [.main .clientInfo,.main (.order 1),.main (.check false),.main .start]
  | .bombd => [.main .enter,.main .clientInfo,.main (.check false),.main .clientInfo,.main .start]

/-- The main thread's way to the session. A room sends its roster first. -/
def setsUp (n : ℕ) : Daemon → List Act
  | .tetrisd => .main (.sendAll rosterMessage.msgContent rosterMessage.sized) :: volley (.main .send) n ++ [.main .initSession]
  | .bombd => [.main .initSession]

/-- The listener sees the new state and tells `n` clients. -/
def tells (n : ℕ) : List Act := .listener .look :: .listener .look :: volley (.listener .send) n

def alone (daemon : Daemon) : List Act :=
  .listener .look :: arrival ++ starts daemon ++ tells 1 ++ setsUp 1 daemon

def seated (s : Hall) : Bool := s.session.isSome && s.clients.any (·.started)

theorem alone_has_slot :
    (∃ s, run (guarded noLatecomer (step .tetrisd lettersVector.cipher.toOpenSSL)) (init 1) (alone .tetrisd) = some s ∧
      s.seated = true ∧ s.Slotted .tetrisd) ∧
    ∃ s, run (guarded noLatecomer (step .bombd lettersVector.cipher.toOpenSSL)) (init 1) (alone .bombd) = some s ∧
      s.seated = true ∧ s.Slotted .bombd := by
  constructor
  · obtain ⟨s,hs,htest⟩ := exists_of_run_any (guarded noLatecomer (step .tetrisd lettersVector.cipher.toOpenSSL)) (init 1)
      (alone .tetrisd) seated (by decide +kernel)
    exact ⟨s,hs,htest,started_have_slots hs⟩
  · obtain ⟨s,hs,htest⟩ := exists_of_run_any (guarded noLatecomer (step .bombd lettersVector.cipher.toOpenSSL)) (init 1)
      (alone .bombd) seated (by decide +kernel)
    exact ⟨s,hs,htest,started_have_slots hs⟩

/-- The second client is in its handshake when the game is started. -/
def late (daemon : Daemon) : List Act :=
  .listener .look :: arrival ++ [.listener .look,.listener .accept] ++ starts daemon ++
    [.listener (.handshake (some []))] ++ tells 2 ++ setsUp 2 daemon

def unseated (s : Hall) : Bool :=
  s.clients.any fun p => p.started && s.session.any fun session => !session.ids.contains p.endpoint.id

theorem not_slotted {s : Hall} (h : s.unseated = true) : ¬s.Slotted daemon := by
  intro hs
  obtain ⟨p,hp,htest⟩ := List.any_eq_true.mp h
  obtain ⟨hstarted,hsession⟩ := Bool.and_eq_true_iff.mp htest
  cases hsome : s.session with
  | none =>
    rw [hsome] at hsession
    cases hsession
  | some session =>
    have hmem := (hs p hp hstarted).1 session hsome
    rw [hsome] at hsession
    simp [hmem] at hsession

/-- It is told to start like the first one and has no slot. -/
theorem late_has_none :
    (∃ s, run (step .tetrisd lettersVector.cipher.toOpenSSL) (init 1) (late .tetrisd) = some s ∧ ¬s.Slotted .tetrisd) ∧
    ∃ s, run (step .bombd lettersVector.cipher.toOpenSSL) (init 1) (late .bombd) = some s ∧ ¬s.Slotted .bombd := by
  constructor
  · obtain ⟨s,hs,htest⟩ := exists_of_run_any (step .tetrisd lettersVector.cipher.toOpenSSL) (init 1)
      (late .tetrisd) unseated (by decide +kernel)
    exact ⟨s,hs,not_slotted htest⟩
  · obtain ⟨s,hs,htest⟩ := exists_of_run_any (step .bombd lettersVector.cipher.toOpenSSL) (init 1)
      (late .bombd) unseated (by decide +kernel)
    exact ⟨s,hs,not_slotted htest⟩

end Hall
end CoreStack.Daemons
