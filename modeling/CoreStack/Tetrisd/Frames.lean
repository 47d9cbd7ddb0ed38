import CoreStack.Lib.Latest
import CoreStack.Tetrisd.Seats

/-! # What a room broadcasts (`room.c`)

Every step of the worker sends its clients some frames: attacks for the kill feed, and the
boards that the push pass and the end of the match send out. The log of the frames says of
each player what was pushed for him last.
-/
namespace CoreStack.Tetrisd
open Tetris Execution Latest

/-- A broadcast, before it is made a request. -/
inductive Frame
  | roster (ids : List ℕ)
  | attack (source target lines : ℕ)
  | state (playerId : ℕ) (state : GameState)

/-- `broadcast_feed` in the routing pass. -/
def routeFrames (draw : ℕ) (session : GameSession) (global : HubRoster) (i : ℕ) (p : PlayerSlot) : List Frame :=
  if p.state.outgoingGarbage = 0 then []
  else
    let session := session.setSlot i p.drained
    let victimId := resolveVictim draw session p.drained global
    let feed := [Frame.attack p.playerId victimId p.state.outgoingGarbage]
    match lookup session victimId with
    | some (j,v) => if j ≠ i ∧ v.state.gameOver = false then feed else []
    | none => if victimId ≠ 0 ∧ victimId ≠ p.playerId then feed else []

/-- `broadcast_feed` for what comes from the master. -/
def hubFrames (session : GameSession) : HubRecv → List Frame
  | .msg (.garbage a) => if session.live a.victimId then [.attack a.attackerId a.victimId a.lines] else []
  | .msg (.feed a) => [.attack a.attackerId a.victimId a.lines]
  | _ => []

def pushFrame (p : PlayerSlot) : Option Frame := if p.skipped then none else some (.state p.playerId p.state)

def finishFrame (winnerId : ℕ) (p : PlayerSlot) : Option Frame :=
  if p.active then some (.state p.playerId (finishSlot winnerId p).state) else none

def Worker.frames (w : Worker) (hub : HubRecv) (input : Input) : List Frame :=
  match w.pc, input with
  | .drainHub, .recv => hubFrames w.session hub
  | .route i, .route draw =>
    match w.session.players[i]? with
    | none => []
    | some p => routeFrames draw w.session w.globalRoster i p
  | .push, .push => w.session.players.filterMap pushFrame
  | .conclude, .conclude => w.session.players.filterMap (finishFrame w.winnerId)
  | _, _ => []

/-- A loop run with the log of its broadcasts, which the roster opens. -/
def LoopRun.broadcasts (s : LoopRun × List Frame) (l : HubRecv × Input) : Option (LoopRun × List Frame) :=
  logged (fun r l => r.worker.frames l.1 l.2) LoopRun.step s l

/-! ## Frames and the kill feed -/

def Frame.isAttack : Frame → Bool
  | .attack .. => true
  | _ => false

def RoomObs.isFeed : RoomObs → Bool
  | .feed _ => true
  | _ => false

theorem countP_pushed (p : Frame → Bool) (g : PlayerSlot → Option Frame) (slots : List PlayerSlot)
    (h : ∀ q f, g q = some f → p f = false) : (slots.filterMap g).countP p = 0 := by
  refine List.countP_eq_zero.mpr fun f hf => ?_
  obtain ⟨q,-,hq⟩ := List.mem_filterMap.mp hf
  rw [h q f hq]
  exact Bool.false_ne_true

theorem pushFrame_eq {p : PlayerSlot} {f : Frame} (h : pushFrame p = some f) : f = .state p.playerId p.state := by
  unfold pushFrame at h
  split at h
  · cases h
  · cases h
    rfl

theorem finishFrame_eq {winnerId : ℕ} {p : PlayerSlot} {f : Frame} (h : finishFrame winnerId p = some f) :
    p.active = true ∧ f = .state p.playerId (finishSlot winnerId p).state := by
  unfold finishFrame at h
  split at h
  · next ha =>
    cases h
    exact ⟨ha,rfl⟩
  · cases h

theorem routeFrames_feed (serial draw : ℕ) (session : GameSession) (global : HubRoster) (i : ℕ) (p : PlayerSlot) :
    (routeFrames draw session global i p).countP Frame.isAttack =
      (routeSlot serial draw session global i p).obs.countP RoomObs.isFeed := by
  unfold routeFrames routeSlot
  split
  · rfl
  · dsimp only [PlayerSlot.drained]
    generalize resolveVictim draw _ _ global = victimId
    generalize lookup _ victimId = found
    cases found with
    | none =>
      by_cases hv : victimId ≠ 0 ∧ victimId ≠ p.playerId
      · simp only [if_pos hv]
        rfl
      · simp only [if_neg hv]
        rfl
    | some q =>
      by_cases hq : q.1 ≠ i ∧ q.2.state.gameOver = false
      · simp only [if_pos hq]
        rfl
      · simp only [if_neg hq]
        rfl

theorem hubFrames_feed (w : Worker) (hub : HubRecv) :
    (hubFrames w.session hub).countP Frame.isAttack = (hubStep w hub).obs.countP RoomObs.isFeed := by
  unfold hubFrames hubStep
  split
  · next a =>
    dsimp only
    unfold applyRemoteGarbage GameSession.live
    cases lookup w.session a.victimId with
    | none => rfl
    | some q =>
      obtain ⟨j,v⟩ := q
      cases hv : v.state.gameOver with
      | true => simp only [Option.any_some,hv]; rfl
      | false => simp only [Option.any_some,hv]; rfl
  · rfl
  · next hgarbage hfeed =>
    split
    · next a => exact absurd rfl (hgarbage a)
    · next a => exact absurd rfl (hfeed a)
    all_goals rfl

theorem Worker.Step.frames_feed {serial : ℕ} {hub : HubRecv} {w : Worker} {input : Input} {e : Effect}
    (h : Worker.Step serial hub w input e) (hm : w.pc.inMatch = true) :
    (w.frames hub input).countP Frame.isAttack = e.obs.countP RoomObs.isFeed := by
  cases h with
  | boot bound hpc => simp [hpc,Pc.inMatch] at hm
  | poll hpc he => simp [hpc,Pc.inMatch] at hm
  | lobbyRecv hpc => simp [hpc,Pc.inMatch] at hm
  | check graceOver rand hpc => simp [hpc,Pc.inMatch] at hm
  | client n m rand hpc he =>
    simp only [Worker.frames,hpc]
    unfold clientStep at he
    split at he
    · cases m with
      | ignored => cases he; rfl
      | action senderId action =>
        cases he
        dsimp only
        split
        · unfold lockedObs
          split <;> rfl
        · rfl
    · cases he
  | clientsDone n hpc => simp only [Worker.frames,hpc]; rfl
  | hubRecv hpc => simp only [Worker.frames,hpc]; exact hubFrames_feed w hub
  | tick rand hpc =>
    simp only [Worker.frames,hpc]
    refine Eq.symm (List.countP_eq_zero.mpr fun o ho => ?_)
    rcases List.mem_cons.mp ho with rfl | ho
    · exact Bool.false_ne_true
    · obtain ⟨q,-,hq⟩ := List.mem_flatMap.mp ho
      unfold lockedObs at hq
      split at hq
      · rw [List.mem_singleton.mp hq]
        exact Bool.false_ne_true
      · cases hq
  | report i hpc =>
    simp only [Worker.frames,hpc]
    rcases reportStep_cases w i with ⟨-,he⟩ | ⟨p,-,⟨-,he⟩ | ⟨-,he⟩⟩ <;> rw [he] <;> rfl
  | route i draw hpc =>
    simp only [Worker.frames,hpc]
    unfold routeStep
    cases w.session.players[i]? with
    | none => rfl
    | some p => exact routeFrames_feed serial draw w.session w.globalRoster i p
  | push hpc =>
    simp only [Worker.frames,hpc]
    exact countP_pushed _ _ _ fun q f hf => by rw [pushFrame_eq hf]; rfl
  | conclude hpc =>
    simp only [Worker.frames,hpc]
    exact countP_pushed _ _ _ fun q f hf => by rw [(finishFrame_eq hf).2]; rfl

/-! ## The last board of a player -/

/-- The board a frame carries for this player. -/
def Frame.board? (id : ℕ) : Frame → Option GameState
  | .state playerId s => if playerId = id then some s else none
  | _ => none

/-- A board of a room: the game of one of its players. -/
structure Board.Of (rand : ℕ → ℕ → ℕ) (ids : List ℕ) (id : ℕ) (s : GameState) : Prop where
  playerId : s.playerId = id
  target : s.targetPlayerId ∈ 0 :: ids
  game : ∃ i target moves q, ids[i]? = some id ∧ run Play.step (Play.start (rand i) id target) moves = some q ∧ q.state = s

/-- What the log of a run is like: boards of the players, for each of them the last one pushed. -/
structure LoopRun.Logged (rand : ℕ → ℕ → ℕ) (ids : List ℕ) (s : LoopRun × List Frame) : Prop where
  seated : s.1.Seated rand ids
  boards : ∀ id t, .state id t ∈ s.2 → Board.Of rand ids id t
  pushed : ∀ i id, ids[i]? = some id → (latest (Frame.board? id) s.2).map buildStatePayload = s.1.pushed i
  opens : ∃ rest, s.2 = .roster ids :: rest ∧ ∀ others, .roster others ∉ rest

theorem Seat.board {rand : ℕ → ℕ → ℕ} {ids : List ℕ} {i : ℕ} {p : PlayerSlot} (h : Seat rand ids i p) (ha : p.Aims ids) :
    Board.Of rand ids p.playerId p.state := by
  obtain ⟨target,moves,q,hr,hq⟩ := h.game
  exact ⟨h.playerId,ha.target,i,target,moves,q,h.seated,hr,hq⟩

theorem Board.Of.finish {rand : ℕ → ℕ → ℕ} {ids : List ℕ} {id : ℕ} {s : GameState} (h : Board.Of rand ids id s)
    (winnerId : ℕ) : Board.Of rand ids id { s with gameOver := true, winnerId := winnerId } := by
  obtain ⟨i,target,moves,q,hi,hr,hq⟩ := h.game
  refine ⟨h.playerId,h.target,i,target,moves ++ [.finish winnerId],⟨_,_,_⟩,hi,run_append.mpr ⟨q,hr,run_cons.mpr ⟨_,rfl,rfl⟩⟩,?_⟩
  rw [← hq]
  rfl

theorem Worker.frames_boards (w : Worker) (hub : HubRecv) (input : Input) :
    (∃ g, w.frames hub input = w.session.players.filterMap g ∧
      ((w.pc = .push ∧ input = .push ∧ g = pushFrame) ∨ (w.pc = .conclude ∧ input = .conclude ∧ g = finishFrame w.winnerId))) ∨
    ∀ f ∈ w.frames hub input, f.isAttack = true := by
  unfold Worker.frames
  split
  · right
    unfold hubFrames
    split
    · split
      · exact List.forall_mem_singleton.mpr rfl
      · exact fun f hf => absurd hf List.not_mem_nil
    · exact List.forall_mem_singleton.mpr rfl
    · exact fun f hf => absurd hf List.not_mem_nil
  · right
    split
    · exact fun f hf => absurd hf List.not_mem_nil
    · unfold routeFrames
      split
      · exact fun f hf => absurd hf List.not_mem_nil
      · dsimp only
        split <;> split
        · exact List.forall_mem_singleton.mpr rfl
        · exact fun f hf => absurd hf List.not_mem_nil
        · exact List.forall_mem_singleton.mpr rfl
        · exact fun f hf => absurd hf List.not_mem_nil
  · next hpc => exact Or.inl ⟨_,rfl,Or.inl ⟨hpc,rfl,rfl⟩⟩
  · next hpc => exact Or.inl ⟨_,rfl,Or.inr ⟨hpc,rfl,rfl⟩⟩
  · exact Or.inr fun f hf => absurd hf List.not_mem_nil

theorem Worker.Step.frames_push {serial : ℕ} {hub : HubRecv} {w : Worker} {input : Input} {e : Effect}
    (h : Worker.Step serial hub w input e) (hpc : w.pc = .push) :
    w.frames hub input = w.session.players.filterMap pushFrame := by
  cases h with
  | push hpc' => simp only [Worker.frames,hpc]
  | _ => simp_all

theorem Worker.Step.frames_conclude {serial : ℕ} {hub : HubRecv} {w : Worker} {input : Input} {e : Effect}
    (h : Worker.Step serial hub w input e) (hpc : w.pc = .conclude) :
    w.frames hub input = w.session.players.filterMap (finishFrame w.winnerId) := by
  cases h with
  | conclude hpc' => simp only [Worker.frames,hpc]
  | _ => simp_all

theorem Frame.board?_of_isAttack {f : Frame} (h : f.isAttack = true) (id : ℕ) : f.board? id = none := by
  cases f with
  | attack source target lines => rfl
  | roster ids => cases h
  | state playerId s => cases h

theorem Frame.board?_eq_some {f : Frame} {id : ℕ} {s : GameState} : f.board? id = some s ↔ f = .state id s := by
  cases f with
  | roster ids => exact iff_of_false nofun nofun
  | attack source target lines => exact iff_of_false nofun nofun
  | state playerId t =>
    constructor
    · intro h
      have h : (if playerId = id then some t else none) = some s := h
      split at h
      · next hid => rw [hid,Option.some.inj h]
      · cases h
    · intro h
      cases h
      exact if_pos rfl

theorem pushFrame_board (p : PlayerSlot) (id : ℕ) : (pushFrame p).bind (Frame.board? id) =
    if p.skipped then none else if p.playerId = id then some p.state else none := by
  unfold pushFrame
  split <;> rfl

theorem finishFrame_board (winnerId : ℕ) (p : PlayerSlot) (id : ℕ) : (finishFrame winnerId p).bind (Frame.board? id) =
    if p.active then if p.playerId = id then some (finishSlot winnerId p).state else none else none := by
  unfold finishFrame
  split <;> rfl

theorem ite_ne_none {α : Type*} {c : Prop} [Decidable c] {x : Option α} (h : (if c then x else none) ≠ none) : c := by
  by_contra hc
  exact h (if_neg hc)

theorem LoopRun.step_logged {rand : ℕ → ℕ → ℕ} {ids : List ℕ} (hn : ids.Nodup) {s s' : LoopRun × List Frame}
    {l : HubRecv × Input} (h : LoopRun.Logged rand ids s) (hs : LoopRun.broadcasts s l = some s') :
    LoopRun.Logged rand ids s' := by
  obtain ⟨hstep,hlog⟩ := logged_eq_some.mp hs
  have hseated := LoopRun.step_seated h.seated hstep
  obtain ⟨e,he,hr⟩ := LoopRun.step_inv hstep
  have haims := h.seated.aims he.not_exited
  refine ⟨hseated,?_,?_,?_⟩
  · intro id t hmem
    rw [hlog] at hmem
    rcases List.mem_append.mp hmem with hmem | hmem
    · exact h.boards id t hmem
    · rcases s.1.worker.frames_boards l.1 l.2 with ⟨g,hframes,hg⟩ | hattack
      · rw [hframes] at hmem
        obtain ⟨p,hp,hf⟩ := List.mem_filterMap.mp hmem
        obtain ⟨i,hi⟩ := List.getElem?_of_mem hp
        have hboard := (h.seated.seats i p hi).board (haims.slot hi)
        rcases hg with ⟨-,-,rfl⟩ | ⟨-,-,rfl⟩
        · cases pushFrame_eq hf
          exact hboard
        · obtain ⟨ha,hf⟩ := finishFrame_eq hf
          cases hf
          rw [finishSlot,if_pos ha]
          exact hboard.finish _
      · exact absurd (hattack _ hmem) Bool.false_ne_true
  · intro i id hi
    obtain ⟨p,hp,hid⟩ := h.seated.slot hi
    have hold := h.pushed i id hi
    rw [hlog,latest_append,hr]
    dsimp only
    by_cases hpush : s.1.worker.pc = .push
    · rw [he.frames_push hpush,latest_slots hp fun j q hq hne => ?_]
      · rw [pushFrame_board,if_pos hid,Worker.pushes,hpush,hp]
        dsimp only
        split
        · exact hold
        · rfl
      · rw [pushFrame_board] at hne
        split at hne
        · exact absurd rfl hne
        · exact h.seated.unique hn hi hq (ite_ne_none hne)
    · by_cases hconclude : s.1.worker.pc = .conclude
      · rw [he.frames_conclude hconclude,latest_slots hp fun j q hq hne => ?_]
        · rw [finishFrame_board,if_pos hid,Worker.pushes,hconclude,hp]
          dsimp only
          split
          · rfl
          · exact hold
        · rw [finishFrame_board] at hne
          have hactive := ite_ne_none hne
          rw [if_pos hactive] at hne
          exact h.seated.unique hn hi hq (ite_ne_none hne)
      · rw [pushes_of_loop s.1.pushed hpush hconclude]
        rcases s.1.worker.frames_boards l.1 l.2 with ⟨g,-,⟨hpc,-⟩ | ⟨hpc,-⟩⟩ | hattack
        · exact absurd hpc hpush
        · exact absurd hpc hconclude
        · have hnone : latest (Frame.board? id) (s.1.worker.frames l.1 l.2) = none := by
            rw [← List.nil_append (s.1.worker.frames l.1 l.2),
              latest_append_of_none fun f hf => f.board?_of_isAttack (hattack f hf) id]
            rfl
          rw [hnone]
          exact hold
  · obtain ⟨rest,hrest,hnot⟩ := h.opens
    refine ⟨rest ++ s.1.worker.frames l.1 l.2,by rw [hlog,hrest]; rfl,fun others hmem => ?_⟩
    rcases List.mem_append.mp hmem with hmem | hmem
    · exact hnot others hmem
    · rcases s.1.worker.frames_boards l.1 l.2 with ⟨g,hframes,hg⟩ | hattack
      · rw [hframes] at hmem
        obtain ⟨p,-,hf⟩ := List.mem_filterMap.mp hmem
        rcases hg with ⟨-,-,rfl⟩ | ⟨-,-,rfl⟩
        · cases pushFrame_eq hf
        · cases (finishFrame_eq hf).2
      · exact absurd (hattack _ hmem) Bool.false_ne_true

theorem LoopRun.run_logged {w : Worker} {rand : ℕ → ℕ → ℕ} {ids : List ℕ} (hn : ids.Nodup)
    {labels : List (HubRecv × Input)} {s : LoopRun × List Frame}
    (hr : run LoopRun.broadcasts (LoopRun.start w rand ids,[.roster ids]) labels = some s) : LoopRun.Logged rand ids s := by
  refine run_invariant (fun _ _ _ h hs => LoopRun.step_logged hn h hs) hr ⟨LoopRun.start_seated w rand ids,?_,?_,?_⟩
  · intro id t hmem
    cases List.mem_singleton.mp hmem
  · intro i id _
    rfl
  · exact ⟨[],rfl,fun _ => List.not_mem_nil⟩

/-! ## The last frames of a match -/

/-- A worker leaves its match through the end of `room_worker_run`. -/
theorem Worker.Step.conclude_of_exited {serial : ℕ} {hub : HubRecv} {w : Worker} {input : Input} {e : Effect}
    (h : Worker.Step serial hub w input e) (hm : w.pc.inMatch = true) (hx : e.worker.pc = .exited) : w.pc = .conclude := by
  cases h with
  | boot bound hpc => simp [hpc,Pc.inMatch] at hm
  | poll hpc he => simp [hpc,Pc.inMatch] at hm
  | lobbyRecv hpc => simp [hpc,Pc.inMatch] at hm
  | check graceOver rand hpc => simp [hpc,Pc.inMatch] at hm
  | client n m rand hpc he =>
    unfold clientStep at he
    split at he
    · cases m <;> cases he <;> cases hx
    · cases he
  | clientsDone n hpc => cases hx
  | hubRecv hpc =>
    unfold hubStep at hx
    split at hx
    case h_6 =>
      change (if w.matchOver = true then Pc.conclude else Pc.tick) = .exited at hx
      split at hx <;> cases hx
    case h_7 => cases hx
    all_goals exact absurd (hpc.symm.trans hx) (by decide)
  | tick rand hpc => cases hx
  | report i hpc =>
    rcases reportStep_cases w i with ⟨-,he⟩ | ⟨p,-,⟨-,he⟩ | ⟨-,he⟩⟩ <;> rw [he] at hx <;> cases hx
  | route i draw hpc =>
    unfold routeStep at hx
    split at hx <;> cases hx
  | push hpc => cases hx
  | conclude hpc => exact hpc

/-- Who is still there after the match was sent a board that says who won. -/
def LoopRun.Told (r : LoopRun) : Prop :=
  r.worker.pc = .exited → ∀ i p, r.worker.session.players[i]? = some p → p.active = true →
    r.pushed i = some (buildStatePayload p.state) ∧ p.state.gameOver = true ∧ p.state.winnerId = r.worker.winnerId

theorem finishSlot_active {winnerId : ℕ} {p : PlayerSlot} (h : (finishSlot winnerId p).active = true) : p.active = true := by
  unfold finishSlot at h
  split at h
  · exact h
  · exact h

theorem LoopRun.step_told {r r' : LoopRun} {l : HubRecv × Input} (hm : r.worker.pc.inMatch = true) (hs : r.step l = some r') :
    r'.Told := by
  obtain ⟨e,he,rfl⟩ := LoopRun.step_inv hs
  intro hx i q hq ha
  have hconclude := he.conclude_of_exited hm hx
  dsimp only at hq ⊢
  rw [he.at_conclude hconclude] at hq ⊢
  have hq : (r.worker.session.players.map (finishSlot r.worker.winnerId))[i]? = some q := hq
  rw [List.getElem?_map] at hq
  obtain ⟨p,hp,rfl⟩ := Option.map_eq_some_iff.mp hq
  have hactive := finishSlot_active ha
  rw [Worker.pushes,hconclude,hp]
  dsimp only
  rw [if_pos hactive,finishSlot,if_pos hactive]
  exact ⟨rfl,rfl,rfl⟩

theorem LoopRun.run_told {w : Worker} {rand : ℕ → ℕ → ℕ} {ids : List ℕ} {labels : List (HubRecv × Input)} {r : LoopRun}
    (hr : run LoopRun.step (LoopRun.start w rand ids) labels = some r) : r.Told := by
  have h := run_invariant (I := fun r : LoopRun => r.worker.pc.inMatch = true ∧ r.Told) ?_ hr ⟨rfl,fun hx => by cases hx⟩
  · exact h.2
  · intro r l r' h hs
    obtain ⟨e,he,hr'⟩ := LoopRun.step_inv hs
    refine ⟨?_,LoopRun.step_told h.1 hs⟩
    rw [hr']
    exact he.inMatch h.1

end CoreStack.Tetrisd
