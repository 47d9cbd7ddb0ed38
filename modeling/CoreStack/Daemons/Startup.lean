import CoreStack.BattleRoyale.Streams
import CoreStack.Daemons.Admission

/-! # Nothing sent after the start is swallowed by the lobby

`brserver_start` returns before anyone was told to start. A message of the main
thread is safe when it follows the start message on its way to the client, and
when the messages of the two threads do not cut into each other.
-/
namespace CoreStack.Daemons
open BattleRoyale Execution
variable {daemon : Daemon} {ssl : OpenSSL}

namespace Hall

/-- The main thread begins a message only to a client that has been sent the start message,
no thread begins one in the middle of another, and a client takes one while there is room. -/
def afterStart (s : Hall) : Act → Bool
  | .main .send => s.sending.all fun c => c.done != 0 ||
      (s.clients[c.client]?.all (·.started) && !Cast.midwayAt s.starting c.client)
  | .listener .send => s.starting.all fun c => c.done != 0 || !Cast.midwayAt s.sending c.client
  | .client i .receive => s.clients[i]?.all fun p =>
      !(p.state == .game && p.queue.full && p.incoming.any Frame.isApp)
  | _ => true

structure Orderly (s : Hall) : Prop where
  streams : Streams (s.main.over = true) s.sending s.starting s.clients
  apart : Cast.Apart s.sending s.starting
  starting : ∀ c, s.starting = some c → c.frame.isApp = false ∧ (c.frame.isEnd = true → s.main.over = true)
  sending : ∀ c, s.sending = some c → s.main.over = false ∧ c.frame.isEnd = false ∧
    (0 < c.done → ∀ p, s.clients[c.client]? = some p → p.started = true)
  inside : ∀ c, s.sending = some c ∨ s.starting = some c → c.client < s.clients.length
  ended : s.state = .end → s.main.over = true

theorem init_orderly (idBase : ℕ) : (init idBase).Orderly where
  streams := by
    intro i p hp
    cases hp
  apart := by
    intro i hi
    cases hi
  starting := by
    intro c hc
    cases hc
  sending := by
    intro c hc
    cases hc
  inside := by
    rintro c (hc | hc)
    · cases hc
    · cases hc
  ended := by
    intro h
    cases h

theorem fresh_not_midway (clients : List Peer) (frame : Frame) (i : ℕ) :
    Cast.midwayAt (Cast.start clients frame) i = false := by
  cases hc : Cast.start clients frame with
  | none => rfl
  | some c =>
    obtain ⟨-,rfl⟩ := Cast.start_eq_some hc
    exact Cast.not_midway_begin frame 0 i

theorem streams_fresh {ended : Prop} {c c' : Option Cast} {clients : List Peer} (h : Streams ended none c clients)
    (hfresh : ∀ i, Cast.midwayAt c' i = false) : Streams ended c' c clients := by
  intro i p hp
  obtain ⟨wire,hwire⟩ := h i p hp
  refine ⟨wire,?_⟩
  rw [Cast.partAt_of_not_midway (hfresh i)]
  exact hwire

theorem apart_fresh {c c' : Option Cast} (hfresh : ∀ i, Cast.midwayAt c i = false) : Cast.Apart c c' := by
  intro i hi
  rw [hfresh i] at hi
  cases hi

theorem streams_mono {ended ended' : Prop} {c c' : Option Cast} {clients : List Peer}
    (h : Streams ended c c' clients) (hended : ended → ended') : Streams ended' c c' clients := by
  intro i p hp
  obtain ⟨wire,hwire⟩ := h i p hp
  exact ⟨wire,hwire.mono hended⟩

theorem cast_step_length (c : Cast) (clients : List Peer) : (c.step clients).1.length = clients.length := by
  have h := congrArg List.length (c.step_ids clients)
  rwa [List.length_map,List.length_map] at h

theorem cast_step_inside {c c' : Cast} {clients : List Peer} (hc : c.client < clients.length)
    (h : (c.step clients).2 = some c') : c'.client < clients.length := by
  rcases c.step_cases clients with ⟨buffer,-,-,heq⟩ | ⟨-,heq⟩
  · rw [heq] at h
    cases h
    exact hc
  · rw [heq] at h
    dsimp only at h
    split at h
    · next hlt =>
      cases h
      exact hlt
    · cases h

theorem cast_step_frame {c c' : Cast} {clients : List Peer} (h : (c.step clients).2 = some c') :
    c'.frame = c.frame := by
  rcases c.step_cases clients with ⟨buffer,-,-,heq⟩ | ⟨-,heq⟩
  · rw [heq] at h
    cases h
    rfl
  · rw [heq] at h
    dsimp only at h
    split at h
    · cases h
      rfl
    · cases h

/-- A client that was told to start stays so. -/
theorem cast_step_started {c : Cast} {clients : List Peer} {i : ℕ}
    (h : ∀ p, clients[i]? = some p → p.started = true) :
    ∀ p, (c.step clients).1[i]? = some p → p.started = true := by
  rcases c.step_cases clients with ⟨buffer,-,-,heq⟩ | ⟨-,heq⟩
  · rw [heq]
    intro q hq
    rw [List.getElem?_modify] at hq
    obtain ⟨p,hp,rfl⟩ := Option.map_eq_some_iff.mp hq
    have hstarted := h p hp
    split
    · split
      · exact Bool.or_eq_true_iff.mpr (Or.inl hstarted)
      · exact hstarted
    · exact hstarted
  · rw [heq]
    exact h

/-! ## One step of each thread -/

theorem orderly_tells {s : Hall} {frame : Frame} (hs : s.Orderly) (pc : ListenerPc) (hstarting : s.starting = none)
    (happ : frame.isApp = false) (hend : frame.isEnd = true → s.main.over = true) :
    ({ s with listener := pc, starting := Cast.start s.clients frame } : Hall).Orderly := by
  have hstreams := hs.streams.symm hs.apart
  rw [hstarting] at hstreams
  have hfresh := fresh_not_midway s.clients frame
  have hapart : Cast.Apart _ s.sending := apart_fresh hfresh
  refine ⟨(streams_fresh hstreams hfresh).symm hapart,hapart.symm,?_,hs.sending,?_,hs.ended⟩
  · intro c hc
    obtain ⟨-,rfl⟩ := Cast.start_eq_some hc
    exact ⟨happ,hend⟩
  · rintro c (hc | hc)
    · exact hs.inside c (Or.inl hc)
    · obtain ⟨hne,rfl⟩ := Cast.start_eq_some hc
      exact List.length_pos_iff.mpr hne

theorem orderly_joined {s : Hall} (hs : s.Orderly) (client : Endpoint) (hstarting : s.starting = none) :
    ({ s with clients := s.clients ++ [.joined client], listener := .lobby } : Hall).Orderly := by
  refine ⟨?_,hs.apart,hs.starting,?_,?_,hs.ended⟩
  · intro i p hp
    rcases Nat.lt_or_ge i s.clients.length with hlt | hge
    · rw [List.getElem?_append_left hlt] at hp
      exact hs.streams i p hp
    · have hsending : Cast.partAt s.sending i = [] := by
        cases hc : s.sending with
        | none => rfl
        | some c =>
          have hin := hs.inside c (Or.inl hc)
          have hne : c.client ≠ i := by omega
          exact Cast.part_of_not_midway (by simp [Cast.midway,hne])
      rw [List.getElem?_append_right hge] at hp
      have hjoined : p = .joined client := List.mem_singleton.mp (List.mem_of_getElem? hp)
      refine ⟨[],?_⟩
      rw [hsending,hjoined,hstarting]
      exact Peer.wire_joined _
  · intro c hc
    obtain ⟨hopen,hno,hstarted⟩ := hs.sending c hc
    refine ⟨hopen,hno,?_⟩
    intro hpos p hp
    rw [List.getElem?_append_left (hs.inside c (Or.inl hc))] at hp
    exact hstarted hpos p hp
  · intro c hc
    have hin := hs.inside c hc
    show c.client < (s.clients ++ [_]).length
    rw [List.length_append]
    omega

theorem orderly_telling {s : Hall} {c : Cast} (hs : s.Orderly) (hc : s.starting = some c)
    (hguard : s.afterStart (.listener .send) = true) :
    ({ s with clients := (c.step s.clients).1, starting := (c.step s.clients).2 } : Hall).Orderly := by
  obtain ⟨happ,hend⟩ := hs.starting c hc
  have hstreams := hs.streams.symm hs.apart
  have hapart := hs.apart.symm
  rw [hc] at hstreams hapart
  have hclear : c.done = 0 → Cast.midwayAt s.sending c.client = false := by
    intro hzero
    have hg : (s.starting.all fun c => c.done != 0 || !Cast.midwayAt s.sending c.client) = true := hguard
    rw [hc] at hg
    simpa [hzero] using hg
  have hno : c.frame.isApp = true → ¬s.main.over = true ∧
      ∀ p, s.clients[c.client]? = some p → c.done < 4 → p.started = true := by
    intro hf
    rw [happ] at hf
    cases hf
  obtain ⟨hnew,hnewApart⟩ := hstreams.step hapart hclear hno hend
  refine ⟨hnew.symm hnewApart,hnewApart.symm,?_,?_,?_,hs.ended⟩
  · intro c' hc'
    rw [cast_step_frame hc']
    exact ⟨happ,hend⟩
  · intro c' hc'
    obtain ⟨hopen,hno,hstarted⟩ := hs.sending c' hc'
    exact ⟨hopen,hno,fun hpos => cast_step_started (hstarted hpos)⟩
  · intro c' hc'
    show c'.client < (c.step s.clients).1.length
    rw [cast_step_length]
    rcases hc' with hc' | hc'
    · exact hs.inside c' (Or.inl hc')
    · exact cast_step_inside (hs.inside c (Or.inr hc)) hc'

theorem listener_orderly {s t : Hall} {a : ListenerAct} (hs : s.Orderly) (hguard : s.afterStart (.listener a) = true)
    (h : s.listenerStep a = some t) : t.Orderly := by
  cases (listenerStep_move h).2 with
  | send hc => exact orderly_telling hs hc hguard
  | stay n pc hstarting hfull => exact { hs with }
  | reopen hstarting hstate hclients => exact { hs with ended := fun hend => nomatch hend }
  | begin hstarting hstate => exact orderly_tells hs .game hstarting rfl (fun hf => nomatch hf)
  | close hstarting hstate => exact orderly_tells hs .ended hstarting rfl (fun _ => hs.ended hstate)
  | add id sesskey hstarting hroom => exact orderly_joined hs ⟨id,sesskey⟩ hstarting

theorem clientInfo_frame (daemon : Daemon) (s : Hall) :
    (s.clientInfo daemon).clients = s.clients ∧ (s.clientInfo daemon).sending = s.sending ∧
    (s.clientInfo daemon).starting = s.starting ∧ (s.clientInfo daemon).state = s.state := by
  cases daemon <;> exact ⟨rfl,rfl,rfl,rfl⟩

/-- A step of the main thread that sends nothing may end the match. -/
theorem orderly_silent {s t : Hall} (hs : s.Orderly) (hsending : s.sending = none) (hclients : t.clients = s.clients)
    (hsending' : t.sending = s.sending) (hstarting : t.starting = s.starting)
    (hover : s.main.over = true → t.main.over = true) (hended : t.state = .end → s.state = .end ∨ t.main.over = true) :
    t.Orderly := by
  refine ⟨?_,?_,?_,?_,?_,?_⟩
  · rw [hclients,hsending',hstarting]
    exact streams_mono hs.streams hover
  · rw [hsending',hstarting]
    exact hs.apart
  · intro c hc
    rw [hstarting] at hc
    obtain ⟨happ,hend⟩ := hs.starting c hc
    exact ⟨happ,fun hf => hover (hend hf)⟩
  · intro c hc
    rw [hsending',hsending] at hc
    cases hc
  · intro c hc
    rw [hsending',hstarting] at hc
    rw [hclients]
    exact hs.inside c hc
  · intro hend
    rcases hended hend with h | h
    · exact hover (hs.ended h)
    · exact h

theorem orderly_sending {s : Hall} {c : Cast} (hs : s.Orderly) (hc : s.sending = some c)
    (hguard : s.afterStart (.main .send) = true) :
    ({ s with clients := (c.step s.clients).1, sending := (c.step s.clients).2 } : Hall).Orderly := by
  obtain ⟨hopen,hend,hstarted⟩ := hs.sending c hc
  have hstreams := hs.streams
  have hapart := hs.apart
  rw [hc] at hstreams hapart
  have hg : (s.sending.all fun c => c.done != 0 ||
    (s.clients[c.client]?.all (·.started) && !Cast.midwayAt s.starting c.client)) = true := hguard
  rw [hc] at hg
  have hbegin : c.done = 0 → s.clients[c.client]?.all (·.started) = true ∧ Cast.midwayAt s.starting c.client = false := by
    intro hzero
    simpa [hzero] using hg
  have hall : ∀ p, s.clients[c.client]? = some p → p.started = true := by
    intro p hp
    rcases Nat.eq_zero_or_pos c.done with hzero | hpos
    · have hfirst := (hbegin hzero).1
      rw [hp] at hfirst
      exact hfirst
    · exact hstarted hpos p hp
  have hnot : ¬s.main.over = true := by
    rw [hopen]
    exact Bool.false_ne_true
  obtain ⟨hnew,hnewApart⟩ := hstreams.step hapart (fun hzero => (hbegin hzero).2)
    (fun _ => ⟨hnot,fun p hp _ => hall p hp⟩) (fun hf => by rw [hend] at hf; cases hf)
  refine ⟨hnew,hnewApart,hs.starting,?_,?_,hs.ended⟩
  · intro c' hc'
    change (c.step s.clients).2 = some c' at hc'
    refine ⟨hopen,by rw [cast_step_frame hc']; exact hend,?_⟩
    intro hpos
    have hsame : c'.client = c.client := by
      rcases c.step_cases s.clients with ⟨buffer,-,-,heq⟩ | ⟨-,heq⟩
      · rw [heq] at hc'
        cases hc'
        rfl
      · rw [heq] at hc'
        dsimp only at hc'
        split at hc'
        · cases hc'
          cases hpos
        · cases hc'
    rw [hsame]
    exact cast_step_started hall
  · intro c' hc'
    show c'.client < (c.step s.clients).1.length
    rw [cast_step_length]
    rcases hc' with hc' | hc'
    · exact cast_step_inside (hs.inside c (Or.inl hc)) hc'
    · exact hs.inside c' (Or.inr hc')

theorem main_orderly {s t : Hall} {a : MainAct} (hs : s.Orderly) (hguard : s.afterStart (.main a) = true)
    (h : s.mainStep daemon a = some t) : t.Orderly := by
  cases mainStep_move h with
  | send hc => exact orderly_sending hs hc hguard
  | info pc hsending hmain hpc =>
    obtain ⟨hclients,hsame,hstarting,hstate⟩ := clientInfo_frame daemon s
    refine orderly_silent hs hsending hclients hsame hstarting ?_ (fun hend => Or.inl (hstate.symm.trans hend))
    intro hover
    rw [MainPc.not_over hmain] at hover
    cases hover
  | stay pc order expected hsending ha hpc =>
    refine orderly_silent hs hsending rfl rfl rfl ?_ Or.inl
    intro hover
    rcases hpc with ⟨hwait,-⟩ | rfl
    · rw [MainPc.not_over hwait] at hover
      cases hover
    · rfl
  | start pc hsending hmain hstate hpc =>
    refine orderly_silent hs hsending rfl rfl rfl ?_ (fun hend => nomatch hend)
    intro hover
    rw [hmain] at hover
    cases hover
  | sendAll content sized pc hsending hpc =>
    have hstreams := hs.streams
    rw [hsending] at hstreams
    have hover : s.main.over = false ∧ pc.over = false := by
      rcases hpc with ⟨hm,rfl⟩ | ⟨hm,rfl⟩ <;> rw [hm] <;> exact ⟨rfl,rfl⟩
    have hnot : s.main.over = true → pc.over = true := by
      intro h
      rw [hover.1] at h
      cases h
    have hfresh := fresh_not_midway s.clients (appMessage content sized)
    refine ⟨streams_mono (streams_fresh hstreams hfresh) hnot,apart_fresh hfresh,?_,?_,?_,?_⟩
    · intro c hc
      obtain ⟨happ,hend⟩ := hs.starting c hc
      exact ⟨happ,fun hf => hnot (hend hf)⟩
    · intro c hc
      obtain ⟨-,rfl⟩ := Cast.start_eq_some hc
      exact ⟨hover.2,rfl,fun hpos => nomatch hpos⟩
    · rintro c (hc | hc)
      · obtain ⟨hne,rfl⟩ := Cast.start_eq_some hc
        exact List.length_pos_iff.mpr hne
      · exact hs.inside c (Or.inr hc)
    · intro hend
      exact hnot (hs.ended hend)
  | initSession hsending hmain =>
    refine orderly_silent hs hsending rfl rfl rfl ?_ Or.inl
    intro hover
    rw [hmain] at hover
    cases hover
  | finish hsending hmain => exact orderly_silent hs hsending rfl rfl rfl (fun _ => rfl) (fun _ => Or.inr rfl)

theorem client_orderly {s t : Hall} {i : ℕ} {a : ClientAct} (hs : s.Orderly) (hguard : s.afterStart (.client i a) = true)
    (h : s.clientStep ssl i a = some t) : t.Orderly := by
  obtain ⟨p,q,hp,rfl,hq⟩ := clientStep_cases h
  have hlt := (List.getElem?_eq_some_iff.mp hp).1
  obtain ⟨wire,hwire⟩ := hs.streams i p hp
  have hq' : (∃ wire, q.Wire (s.main.over = true) (Cast.partAt s.sending i ++ Cast.partAt s.starting i) wire) ∧
      q.started = p.started := by
    rcases hq with ⟨rfl,hq⟩ | ⟨-,rfl⟩
    · refine ⟨hwire.receive (hs.apart.length_lt i) ?_ hq,?_⟩
      · intro frame hin hgame happ
        have hg : (s.clients[i]?.all fun p => !(p.state == .game && p.queue.full && p.incoming.any Frame.isApp)) = true := hguard
        rw [hp] at hg
        simpa [hgame,hin,happ] using hg
      · exact Peer.receive_started hq
    · exact ⟨⟨wire,hwire.get⟩,rfl⟩
  have hget : ∀ j r, (s.clients.set i q)[j]? = some r → j = i ∧ r = q ∨ s.clients[j]? = some r := by
    intro j r hr
    by_cases hj : j = i
    · rw [hj,List.getElem?_set_self hlt] at hr
      exact Or.inl ⟨hj,(Option.some.inj hr).symm⟩
    · rw [List.getElem?_set_ne (Ne.symm hj)] at hr
      exact Or.inr hr
  refine ⟨?_,hs.apart,hs.starting,?_,?_,hs.ended⟩
  · intro j r hr
    rcases hget j r hr with ⟨rfl,rfl⟩ | hr
    · exact hq'.1
    · exact hs.streams j r hr
  · intro c hc
    obtain ⟨hopen,hno,hstarted⟩ := hs.sending c hc
    refine ⟨hopen,hno,?_⟩
    intro hpos r hr
    rcases hget c.client r hr with ⟨hi,rfl⟩ | hr
    · rw [hq'.2]
      exact hstarted hpos p (by rw [hi]; exact hp)
    · exact hstarted hpos r hr
  · intro c hc
    show c.client < (s.clients.set i q).length
    rw [List.length_set]
    exact hs.inside c hc

theorem step_orderly {s t : Hall} {l : Act} (hs : s.Orderly) (hguard : s.afterStart l = true)
    (h : s.step daemon ssl l = some t) : t.Orderly := by
  cases l with
  | listener a => exact listener_orderly hs hguard h
  | main a => exact main_orderly hs hguard h
  | client i a => exact client_orderly hs hguard h

/-- In every run whose sends come after the start message nothing is lost: every application
message is in the client's queue or on its way there. -/
theorem sent_are_enqueued {idBase : ℕ} {ls : List Act} {s : Hall}
    (h : run (guarded afterStart (step .tetrisd ssl)) (init idBase) ls = some s) : ∀ p ∈ s.clients, p.Delivered := by
  have hs : s.Orderly := by
    refine run_invariant ?_ h (init_orderly idBase)
    intro s l t hs ht
    obtain ⟨hguard,ht⟩ := guarded_eq_some.mp ht
    exact step_orderly hs hguard ht
  intro p hp
  obtain ⟨i,hi⟩ := List.getElem?_of_mem hp
  obtain ⟨wire,hwire⟩ := hs.streams i p hi
  exact hwire.delivered (hs.apart.length_lt i)

/-- The roster of a room with one client. -/
def sendsRoster : List Act :=
  .main (.sendAll rosterMessage.msgContent rosterMessage.sized) :: volley (.main .send) 1

def startThenRoster : List Act :=
  .listener .look :: arrival ++ starts .tetrisd ++ tells 1 ++ sendsRoster ++ [.client 0 .receive,.client 0 .receive]

def rosterThenStart : List Act :=
  .listener .look :: arrival ++ starts .tetrisd ++ sendsRoster ++ [.client 0 .receive] ++ tells 1 ++ [.client 0 .receive]

theorem roster_behind_start :
    ∃ s, run (guarded afterStart (step .tetrisd lettersVector.cipher.toOpenSSL)) (init 1) startThenRoster = some s ∧
      (s.clients.any fun p => p.state == .game && p.enqueued.length == 1) = true ∧ ∀ p ∈ s.clients, p.Delivered := by
  obtain ⟨s,hs,htest⟩ := exists_of_run_any (guarded afterStart (step .tetrisd lettersVector.cipher.toOpenSSL)) (init 1)
    startThenRoster (fun s => s.clients.any fun p => p.state == .game && p.enqueued.length == 1) (by decide +kernel)
  exact ⟨s,hs,htest,sent_are_enqueued hs⟩

/-- The stream has been read and a message that was sent is not in the queue. -/
def swallowed (p : Peer) : Bool := p.stream.isEmpty && p.enqueued.isEmpty && !p.sent.isEmpty

theorem not_delivered {p : Peer} (h : swallowed p = true) : ¬p.Delivered := by
  rintro ⟨wire,part,hstream,-,hsent⟩
  simp only [swallowed,Bool.and_eq_true,List.isEmpty_iff,Bool.not_eq_true'] at h
  obtain ⟨⟨hread,hempty⟩,hsome⟩ := h
  have hwire : wire = [] := by
    cases wire with
    | nil => rfl
    | cons frame rest =>
      have hlen := congrArg List.length hstream
      rw [hread,List.flatMap_cons,List.length_append,List.length_append,length_encode] at hlen
      unfold frameLength at hlen
      rw [List.length_nil] at hlen
      omega
  rw [hwire,hempty] at hsent
  rw [hsent] at hsome
  cases hsome

/-- The client is in the game and has dropped the roster in its lobby. -/
theorem roster_swallowed :
    ∃ s, run (step .tetrisd lettersVector.cipher.toOpenSSL) (init 1) rosterThenStart = some s ∧
      ∃ p ∈ s.clients, p.state = .game ∧ ¬p.Delivered := by
  obtain ⟨s,hs,htest⟩ := exists_of_run_any (step .tetrisd lettersVector.cipher.toOpenSSL) (init 1) rosterThenStart
    (fun s => s.clients.any fun p => p.state == .game && swallowed p) (by decide +kernel)
  obtain ⟨p,hp,hbad⟩ := List.any_eq_true.mp htest
  obtain ⟨hgame,hbad⟩ := Bool.and_eq_true_iff.mp hbad
  exact ⟨s,hs,p,hp,beq_iff_eq.mp hgame,not_delivered hbad⟩

end Hall
end CoreStack.Daemons
