import CoreStack.Tetrisd.Loop

/-! # A player who is out stays out

Every operation passes by a slot that is inactive or game over, each in its own place:
`apply_action`, `tick_session`, `apply_remote_garbage` and the routing pass. The report
pass marks each such slot once.
-/
namespace CoreStack.Tetrisd
open Tetris Execution

/-- The slot is out and its game has not moved. -/
structure Frozen (p q : PlayerSlot) : Prop where
  out : q.out = true
  board : q.state.board = p.state.board
  current : q.state.current = p.state.current
  bag : q.state.bag = p.state.bag
  bagIndex : q.state.bagIndex = p.state.bagIndex
  score : q.state.score = p.state.score
  linesCleared : q.state.linesCleared = p.state.linesCleared
  pendingGarbage : q.state.pendingGarbage = p.state.pendingGarbage

theorem Frozen.refl {p : PlayerSlot} (h : p.out = true) : Frozen p p := ⟨h,rfl,rfl,rfl,rfl,rfl,rfl,rfl⟩

theorem Frozen.trans {p q r : PlayerSlot} (h : Frozen p q) (h' : Frozen q r) : Frozen p r :=
  ⟨h'.out,h'.board.trans h.board,h'.current.trans h.current,h'.bag.trans h.bag,h'.bagIndex.trans h.bagIndex,
    h'.score.trans h.score,h'.linesCleared.trans h.linesCleared,h'.pendingGarbage.trans h.pendingGarbage⟩

/-- A step keeps the player and the report mark, and does not move a slot that is out. -/
structure Settles (p q : PlayerSlot) : Prop where
  playerId : q.playerId = p.playerId
  reported : q.elimReported = p.elimReported
  frozen : p.out = true → Frozen p q

theorem Settles.refl (p : PlayerSlot) : Settles p p := ⟨rfl,rfl,Frozen.refl⟩

theorem Settles.trans {p q r : PlayerSlot} (h : Settles p q) (h' : Settles q r) : Settles p r :=
  ⟨h'.playerId.trans h.playerId,h'.reported.trans h.reported,
    fun ho => (h.frozen ho).trans (h'.frozen (h.frozen ho).out)⟩

/-- A slot that is in the game may change as it likes. -/
theorem settles_of_in {p q : PlayerSlot} (hid : q.playerId = p.playerId) (hr : q.elimReported = p.elimReported)
    (h : p.out = false) : Settles p q :=
  ⟨hid,hr,fun ho => absurd (ho.symm.trans h) (by decide)⟩

theorem applyToSlot_settles (rand : ℕ → ℕ) (roster : Roster) (a : PlayerAction) (p : PlayerSlot) :
    Settles p (applyToSlot rand roster a p) := by
  cases ho : p.out with
  | true =>
    unfold applyToSlot
    rw [if_pos ho]
    exact .refl p
  | false =>
    unfold applyToSlot
    rw [if_neg (by rw [ho]; decide)]
    split
    · exact .refl p
    · exact settles_of_in rfl rfl ho

theorem tickSlot_settles (rand : ℕ → ℕ) (p : PlayerSlot) : Settles p (tickSlot rand p) := by
  cases ho : p.out with
  | true =>
    unfold tickSlot
    rw [if_pos ho]
    exact .refl p
  | false =>
    unfold tickSlot
    rw [if_neg (by rw [ho]; decide)]
    exact settles_of_in rfl rfl ho

theorem drained_settles (p : PlayerSlot) : Settles p p.drained :=
  ⟨rfl,rfl,fun ho => ⟨ho,rfl,rfl,rfl,rfl,rfl,rfl,rfl⟩⟩

theorem pushSlot_settles (p : PlayerSlot) : Settles p (pushSlot p) := by
  unfold pushSlot
  split <;> exact ⟨rfl,rfl,fun ho => ⟨ho,rfl,rfl,rfl,rfl,rfl,rfl,rfl⟩⟩

theorem finishSlot_settles (winnerId : ℕ) (p : PlayerSlot) : Settles p (finishSlot winnerId p) := by
  unfold finishSlot
  split
  · refine ⟨rfl,rfl,fun _ => ⟨?_,rfl,rfl,rfl,rfl,rfl,rfl,rfl⟩⟩
    simp [PlayerSlot.out]
  · exact .refl p

def GameSession.Settles (s t : GameSession) : Prop := Slotwise (fun _ p q => Tetrisd.Settles p q) s t

/-- Outside the report pass a step keeps the marks and moves nobody who is out. -/
theorem Worker.Step.settles {serial : ℕ} {hub : HubRecv} {w : Worker} {input : Input} {e : Effect}
    (h : Worker.Step serial hub w input e) (hm : w.pc.inMatch = true) (hr : ∀ i, w.pc ≠ .report i) :
    w.session.Settles e.worker.session := by
  refine h.slotwise hm ?_
  constructor
  · exact .refl
  · exact fun _ _ _ => .trans
  · exact applyToSlot_settles
  · exact tickSlot_settles
  · exact fun p attackerId lines hin => settles_of_in rfl rfl hin
  · exact drained_settles
  · exact fun i _ hreport => absurd hreport (hr i)
  · exact fun _ => pushSlot_settles
  · exact fun _ => finishSlot_settles w.winnerId

/-! ## The report pass -/

theorem reportStep_frozen (w : Worker) (i : ℕ) :
    Slotwise (fun _ p q => p.out = true → Frozen p q) w.session (reportStep w i).worker.session := by
  rcases reportStep_cases w i with ⟨-,he⟩ | ⟨p,hp,⟨-,he⟩ | ⟨-,he⟩⟩
  · rw [he]
    exact slotwise_refl (fun _ _ => Frozen.refl) _
  · rw [he]
    exact slotwise_setSlot hp (fun ho => ⟨ho,rfl,rfl,rfl,rfl,rfl,rfl,rfl⟩) fun _ _ _ => Frozen.refl
  · rw [he]
    exact slotwise_refl (fun _ _ => Frozen.refl) _

theorem Worker.Step.frozen {serial : ℕ} {hub : HubRecv} {w : Worker} {input : Input} {e : Effect}
    (h : Worker.Step serial hub w input e) (hm : w.pc.inMatch = true) :
    Slotwise (fun _ p q => p.out = true → Frozen p q) w.session e.worker.session := by
  by_cases hr : ∃ i, w.pc = .report i
  · obtain ⟨i,hi⟩ := hr
    rw [h.at_report hi]
    exact reportStep_frozen w i
  · obtain ⟨hl,hs⟩ := h.settles hm fun i hi => hr ⟨i,hi⟩
    exact ⟨hl,fun i p q hp hq => (hs i p q hp hq).frozen⟩

theorem Worker.Step.no_elimination {serial : ℕ} {hub : HubRecv} {w : Worker} {input : Input} {e : Effect}
    (h : Worker.Step serial hub w input e) (hr : ∀ i, w.pc ≠ .report i) (id : ℕ) :
    e.sent.count (.eliminated id) = 0 := by
  rw [List.count_eq_zero]
  intro hmem
  rcases h.sent_cases hmem with ⟨-,hm⟩ | ⟨-,q,-,hm⟩ | ⟨i,p,hpc,-⟩ | ⟨i,a,-,hm | hm⟩
  · cases hm
  · cases hm
  · exact hr i hpc
  · cases hm
  · cases hm

/-- The slots of one player that have been reported. -/
def GameSession.reports (s : GameSession) (id : ℕ) : ℕ :=
  s.players.countP fun p => p.elimReported && p.playerId == id

theorem GameSession.Settles.reports {s t : GameSession} (h : s.Settles t) (id : ℕ) : t.reports id = s.reports id := by
  have hmap : t.players.map (fun p => (p.elimReported,p.playerId)) =
      s.players.map fun p => (p.elimReported,p.playerId) := by
    apply List.ext_getElem
    · simpa using h.1
    · intro i h1 h2
      simp only [List.length_map] at h1 h2
      have hs := h.2 i _ _ (List.getElem?_eq_getElem h2) (List.getElem?_eq_getElem h1)
      simp [hs.reported,hs.playerId]
  have hc := congrArg (List.countP fun q : Bool × ℕ => q.1 && q.2 == id) hmap
  simpa [List.countP_map,Function.comp_def,GameSession.reports] using hc

/-- The master hears of every marked slot once, and after a report pass everybody who
is out is marked. -/
structure LoopRun.Reported (r : LoopRun) : Prop where
  inMatch : r.worker.pc.inMatch = true
  count : ∀ id, r.sent.count (.eliminated id) = r.worker.session.reports id
  out : ∀ (i : ℕ) (p : PlayerSlot), r.worker.session.players[i]? = some p → p.elimReported = true → p.out = true
  passed : ∀ k, r.worker.pc = .report k → ∀ (i : ℕ) (p : PlayerSlot), i < k →
    r.worker.session.players[i]? = some p → p.out = true → p.elimReported = true
  done : r.worker.pc = .route 0 → ∀ (i : ℕ) (p : PlayerSlot),
    r.worker.session.players[i]? = some p → p.out = true → p.elimReported = true

/-- The program points a step leads to: the report pass starts after a tick, the
routing pass after the report pass. -/
theorem Worker.Step.not_reporting {serial : ℕ} {hub : HubRecv} {w : Worker} {input : Input} {e : Effect}
    (h : Worker.Step serial hub w input e) (hm : w.pc.inMatch = true) (hr : ∀ i, w.pc ≠ .report i) :
    (∀ k, e.worker.pc = .report k → k = 0) ∧ e.worker.pc ≠ .route 0 := by
  cases h with
  | boot bound h => simp [h,Pc.inMatch] at hm
  | poll h he => simp [h,Pc.inMatch] at hm
  | lobbyRecv h => simp [h,Pc.inMatch] at hm
  | check graceOver rand h => simp [h,Pc.inMatch] at hm
  | client n m rand h he =>
    unfold clientStep at he
    split at he
    · cases m <;> cases he <;> simp [Worker.quiet]
    · cases he
  | clientsDone n h => simp [Worker.quiet]
  | hubRecv h =>
    unfold hubStep
    split
    case h_6 =>
      dsimp only [Worker.quiet]
      split <;> simp
    all_goals simp [Worker.quiet,h]
  | tick rand h =>
    dsimp only [tickStep]
    exact ⟨fun k hk => by cases hk; rfl,by decide⟩
  | report i h => exact absurd h (hr i)
  | route i draw h =>
    unfold routeStep
    split <;> simp [Worker.quiet]
  | push h => simp [pushStep,Worker.quiet]
  | conclude h => simp [concludeStep,Worker.exit,Worker.quiet]

theorem reports_mark {s : GameSession} {i : ℕ} {p : PlayerSlot} (hp : s.players[i]? = some p)
    (hr : p.elimReported = false) (id : ℕ) :
    (s.setSlot i { p with elimReported := true }).reports id = s.reports id + [p.playerId].count id := by
  obtain ⟨hi,rfl⟩ := List.getElem?_eq_some_iff.mp hp
  unfold GameSession.reports GameSession.setSlot
  rw [List.countP_set hi]
  simp [hr,List.count_singleton]

theorem LoopRun.Reported.report {r : LoopRun} {i : ℕ} (h : r.Reported) (hpc : r.worker.pc = .report i) :
    LoopRun.Reported ⟨(reportStep r.worker i).worker,r.sent ++ (reportStep r.worker i).sent,
      r.worker.pushes r.pushed⟩ := by
  rcases reportStep_cases r.worker i with ⟨hp,he⟩ | ⟨p,hp,⟨hd,he⟩ | ⟨hd,he⟩⟩
  · rw [he]
    refine ⟨rfl,by simpa [Worker.quiet] using h.count,h.out,fun k hk => (by cases hk),?_⟩
    intro _ j q hq
    have hj : j < i := by
      have h1 := (List.getElem?_eq_some_iff.mp hq).1
      have h2 := List.getElem?_eq_none_iff.mp hp
      exact h1.trans_le h2
    exact h.passed i hpc j q hj hq
  · obtain ⟨ho,hr⟩ := Bool.and_eq_true_iff.mp hd
    have hr : p.elimReported = false := by simpa using hr
    have hget : ∀ (j : ℕ) (q : PlayerSlot),
        (r.worker.session.setSlot i { p with elimReported := true }).players[j]? = some q →
        j = i ∧ q = { p with elimReported := true } ∨ j ≠ i ∧ r.worker.session.players[j]? = some q := by
      intro j q hq
      by_cases hj : i = j
      · subst hj
        have hi := (List.getElem?_eq_some_iff.mp hp).1
        rw [GameSession.setSlot,List.getElem?_set_self hi] at hq
        exact .inl ⟨rfl,(Option.some.inj hq).symm⟩
      · rw [GameSession.setSlot,List.getElem?_set_ne hj] at hq
        exact .inr ⟨Ne.symm hj,hq⟩
    rw [he]
    refine ⟨rfl,?_,?_,?_,fun hk => (by cases hk)⟩
    · intro id
      dsimp only
      rw [reports_mark hp hr,List.count_append,h.count id]
      simp [List.count_singleton]
    · intro j q hq hrep
      rcases hget j q hq with ⟨-,rfl⟩ | ⟨-,hq⟩
      · exact ho
      · exact h.out j q hq hrep
    · intro k hk j q hj hq hout
      cases hk
      rcases hget j q hq with ⟨-,rfl⟩ | ⟨hji,hq⟩
      · rfl
      · exact h.passed i hpc j q (by omega) hq hout
  · rw [he]
    refine ⟨rfl,by simpa [Worker.quiet] using h.count,h.out,?_,fun hk => (by cases hk)⟩
    intro k hk j q hj hq hout
    cases hk
    by_cases hji : j = i
    · subst hji
      cases hp.symm.trans hq
      unfold PlayerSlot.due at hd
      simpa [hout] using hd
    · exact h.passed i hpc j q (by omega) hq hout

theorem LoopRun.step_reported {r r' : LoopRun} {l : HubRecv × Input} (h : r.Reported) (hs : r.step l = some r') :
    r'.Reported := by
  obtain ⟨e,he,rfl⟩ := LoopRun.step_inv hs
  by_cases hr : ∃ i, r.worker.pc = .report i
  · obtain ⟨i,hi⟩ := hr
    rw [he.at_report hi]
    exact h.report hi
  · have hr : ∀ i, r.worker.pc ≠ .report i := fun i hi => hr ⟨i,hi⟩
    have hset := he.settles h.inMatch hr
    obtain ⟨hrep,hroute⟩ := he.not_reporting h.inMatch hr
    refine ⟨he.inMatch h.inMatch,?_,?_,?_,fun hk => absurd hk hroute⟩
    · intro id
      dsimp only
      rw [List.count_append,he.no_elimination hr,h.count id,hset.reports,Nat.add_zero]
    · intro i q hq hmark
      obtain ⟨p,hp,hsp⟩ := Slotwise.get hset hq
      exact (hsp.frozen (h.out i p hp (hsp.reported ▸ hmark))).out
    · intro k hk i p hi
      have h0 := hrep k hk
      omega

theorem LoopRun.start_reported (w : Worker) (rand : ℕ → ℕ → ℕ) (clientIds : List ℕ) :
    (LoopRun.start w rand clientIds).Reported := by
  have hno : ∀ p ∈ (initSession rand clientIds).players, p.elimReported = false := by
    intro p hp
    obtain ⟨k,hk,rfl⟩ := List.mem_mapIdx.mp hp
    rfl
  refine ⟨rfl,?_,?_,fun k hk => (by cases hk),fun hk => (by cases hk)⟩
  · intro id
    have hz : (initSession rand clientIds).reports id = 0 := by
      unfold GameSession.reports
      rw [List.countP_eq_zero]
      intro p hp
      simp [hno p hp]
    exact hz.symm
  · intro i p hp hmark
    exact absurd (hmark.symm.trans (hno p (List.mem_of_getElem? hp))) (by decide)

theorem LoopRun.run_reported {w : Worker} {rand : ℕ → ℕ → ℕ} {clientIds : List ℕ} {labels : List (HubRecv × Input)}
    {r : LoopRun} (hr : run LoopRun.step (LoopRun.start w rand clientIds) labels = some r) : r.Reported :=
  run_invariant (fun _ _ _ h hs => LoopRun.step_reported h hs) hr (LoopRun.start_reported w rand clientIds)

theorem LoopRun.run_playerIds {w : Worker} {rand : ℕ → ℕ → ℕ} {clientIds : List ℕ}
    {labels : List (HubRecv × Input)} {r : LoopRun}
    (hr : run LoopRun.step (LoopRun.start w rand clientIds) labels = some r) :
    r.worker.session.players.map (·.playerId) = clientIds := by
  have h := run_invariant (I := fun r : LoopRun => r.worker.pc.inMatch = true ∧
    r.worker.session.players.map (·.playerId) = clientIds) ?_ hr ⟨rfl,?_⟩
  · exact h.2
  · intro r l r' h hs
    obtain ⟨e,he,rfl⟩ := LoopRun.step_inv hs
    refine ⟨he.inMatch h.1,?_⟩
    rw [← h.2]
    have hev := he.evolves h.1
    apply List.ext_getElem
    · simpa using hev.1
    · intro i h1 h2
      simp only [List.length_map] at h1 h2
      have hp := hev.2 i _ _ (List.getElem?_eq_getElem h2) (List.getElem?_eq_getElem h1)
      simp [hp.playerId]
  · apply List.ext_getElem
    · simp [LoopRun.start,initSession]
    · intro i h1 h2
      simp [LoopRun.start,initSession,initSlot]

theorem LoopRun.run_frozen {r r' : LoopRun} {later : List (HubRecv × Input)} (hm : r.worker.pc.inMatch = true)
    (hr : run LoopRun.step r later = some r') :
    Slotwise (fun _ p q => p.out = true → Frozen p q) r.worker.session r'.worker.session := by
  have h := run_invariant (I := fun r' : LoopRun => r'.worker.pc.inMatch = true ∧
    Slotwise (fun _ p q => p.out = true → Frozen p q) r.worker.session r'.worker.session) ?_ hr
    ⟨hm,slotwise_refl (fun _ _ => Frozen.refl) _⟩
  · exact h.2
  · intro s l t h hs
    obtain ⟨e,he,rfl⟩ := LoopRun.step_inv hs
    refine ⟨he.inMatch h.1,h.2.trans (he.frozen h.1) ?_⟩
    intro i p q u hp hq ho
    exact (hp ho).trans (hq (hp ho).out)

/-- In every run of a room an elimination goes out at most once a player and only for
somebody who is out; after each report pass it has gone out for everybody who is; and
whoever is out stays so with the same board, piece, bag, score, lines and garbage. -/
theorem LoopRun.elimination_is_final (w : Worker) (rand : ℕ → ℕ → ℕ) (clientIds : List ℕ)
    (labels : List (HubRecv × Input)) (r : LoopRun)
    (hr : run LoopRun.step (LoopRun.start w rand clientIds) labels = some r) :
    (∀ id, r.sent.count (.eliminated id) ≤ clientIds.count id) ∧
    (clientIds.Nodup → ∀ id, r.sent.count (.eliminated id) ≤ 1) ∧
    (∀ id, HubMsg.eliminated id ∈ r.sent → ∃ p ∈ r.worker.session.players, p.playerId = id ∧ p.out = true) ∧
    (r.worker.pc = .route 0 → ∀ id, r.sent.count (.eliminated id) =
      r.worker.session.players.countP fun p => p.out && p.playerId == id) ∧
    ∀ (i : ℕ) (p : PlayerSlot), r.worker.session.players[i]? = some p → p.out = true →
      ∀ later r', run LoopRun.step r later = some r' →
      ∀ q, r'.worker.session.players[i]? = some q → Frozen p q := by
  have h := LoopRun.run_reported hr
  have hcount : ∀ id, r.sent.count (.eliminated id) ≤ clientIds.count id := by
    intro id
    rw [h.count id,← LoopRun.run_playerIds hr]
    unfold GameSession.reports
    rw [List.count,List.countP_map]
    apply List.countP_mono_left
    intro p _ hp
    exact (Bool.and_eq_true_iff.mp hp).2
  refine ⟨hcount,?_,?_,?_,?_⟩
  · intro hn id
    exact (hcount id).trans (List.nodup_iff_count.mp hn id)
  · intro id hm
    have hpos : 0 < r.worker.session.reports id := by
      rw [← h.count id]
      exact List.count_pos_iff.mpr hm
    obtain ⟨p,hp,hb⟩ := List.countP_pos_iff.mp hpos
    obtain ⟨hmark,hid⟩ := Bool.and_eq_true_iff.mp hb
    obtain ⟨i,hi⟩ := List.getElem?_of_mem hp
    exact ⟨p,hp,beq_iff_eq.mp hid,h.out i p hi hmark⟩
  · intro hpc id
    rw [h.count id]
    unfold GameSession.reports
    apply List.countP_congr
    intro p hp
    obtain ⟨i,hi⟩ := List.getElem?_of_mem hp
    have hiff : p.elimReported = true ↔ p.out = true := ⟨h.out i p hi,h.done hpc i p hi⟩
    simp only [Bool.and_eq_true,hiff]
  · intro i p hp ho later r' hl q hq
    exact (LoopRun.run_frozen h.inMatch hl).2 i p q hp hq ho

/-- The first player quits and is reported in the same iteration. -/
theorem LoopRun.elimination_of_a_quitter :
    ∃ r, run LoopRun.step (LoopRun.start (Worker.init 1) (fun _ i => i) [1, 2])
        [(.empty,.client (.action 1 .quit) fun i => i), (.empty,.clientsDone), (.empty,.recv),
          (.empty,.tick fun _ i => i), (.empty,.report), (.empty,.report), (.empty,.report)] = some r ∧
      r.worker.pc = .route 0 ∧ r.sent.count (.eliminated 1) ≤ 1 ∧ HubMsg.eliminated 1 ∈ r.sent := by
  obtain ⟨r,hr,ht⟩ := exists_of_run_any LoopRun.step (LoopRun.start (Worker.init 1) (fun _ i => i) [1, 2])
    [(.empty,.client (.action 1 .quit) fun i => i), (.empty,.clientsDone), (.empty,.recv),
      (.empty,.tick fun _ i => i), (.empty,.report), (.empty,.report), (.empty,.report)]
    (fun r : LoopRun => r.worker.pc == .route 0 && r.sent.contains (.eliminated 1)) (by decide +kernel)
  obtain ⟨hpc,hm⟩ := Bool.and_eq_true_iff.mp ht
  have h := LoopRun.elimination_is_final _ _ _ _ r hr
  exact ⟨r,hr,beq_iff_eq.mp hpc,h.2.1 (by decide) 1,by simpa using hm⟩

end CoreStack.Tetrisd
