import CoreStack.Lib.Slotwise
import CoreStack.Tetrisd.Legal
import CoreStack.Tetrisd.Slots

/-! # The targeting roster of a room

`apply_action` marks who quits and `tick_session` marks who tops out in a tick. A
hard drop that tops out is marked by neither: the player is passed by from then on.
-/
namespace CoreStack.Tetrisd
open Tetris Execution Lib

/-- One client action: the slot `find_player` returned and what it asks for. -/
structure ClientAction where
  rand : ℕ → ℕ
  slot : Option ℕ
  action : PlayerAction

def GameSession.perform (s : GameSession) (a : ClientAction) : GameSession := applyAction a.rand s a.slot a.action

/-- One iteration of the loop: the drained actions, then `tick_session`. -/
structure Iteration where
  actions : List ClientAction
  rand : ℕ → ℕ → ℕ

def loopStep (s : GameSession) (it : Iteration) : Option GameSession :=
  some (tickSession it.rand (it.actions.foldl GameSession.perform s))

/-- The dropped piece comes to rest on the board, and the next piece fits once the
lock, the cleared lines and the pending garbage are in. -/
def dropSurvives (rand : ℕ → ℕ) (s : GameState) : Bool :=
  canFall (hardDrop s) || (decide (0 ≤ (hardDrop s).current.y) &&
    isValidPos (settled rand (hardDrop s)).board (nextType s) .rot0 spawnX spawnY)

/-- A hard drop of a player who is in the game does not top out. -/
def GameSession.survives (s : GameSession) (a : ClientAction) : Bool :=
  a.action != .hardDrop || (s.slotAt a.slot).all fun q => q.2.out || dropSurvives a.rand q.2.state

/-- No hard drop of an iteration tops out, each taken in the session it meets. -/
def drainSurvives : GameSession → List ClientAction → Bool
  | _, [] => true
  | s, a :: as => s.survives a && drainSurvives (s.perform a) as

/-- Entry by entry the roster says who is out. -/
def Matched (s : GameSession) : Prop :=
  ∀ (i : ℕ) (p : PlayerSlot) (e : RosterEntry),
    s.players[i]? = some p → s.roster[i]? = some e → e.eliminated = p.out

/-- Roster and slots list the same players, each once. -/
structure Aligned (s : GameSession) : Prop where
  ids : s.roster.map (·.id) = s.players.map (·.playerId)
  nodup : (s.players.map (·.playerId)).Nodup

/-- Somebody is out and the roster does not know. -/
def Missed (s : GameSession) : Prop :=
  ∃ (i : ℕ) (p : PlayerSlot) (e : RosterEntry),
    s.players[i]? = some p ∧ s.roster[i]? = some e ∧ p.out = true ∧ e.eliminated = false

theorem Aligned.index_eq {s : GameSession} (h : Aligned s) {i j : ℕ} {p q : PlayerSlot}
    (hp : s.players[i]? = some p) (hq : s.players[j]? = some q) (he : p.playerId = q.playerId) : i = j := by
  have hi : i < (s.players.map (·.playerId)).length := by
    rw [List.length_map]
    exact (List.getElem?_eq_some_iff.mp hp).1
  exact (List.getElem?_inj hi h.nodup).mp (by simp [hp,hq,he])

theorem Aligned.id_eq {s : GameSession} (h : Aligned s) {i : ℕ} {p : PlayerSlot} {e : RosterEntry}
    (hp : s.players[i]? = some p) (he : s.roster[i]? = some e) : e.id = p.playerId := by
  have hi := congrArg (·[i]?) h.ids
  simpa [hp,he] using hi

theorem Aligned.length {s : GameSession} (h : Aligned s) : s.roster.length = s.players.length := by
  have hl := congrArg List.length h.ids
  simpa using hl

theorem Aligned.entry {s : GameSession} (h : Aligned s) {i : ℕ} {p : PlayerSlot} (hp : s.players[i]? = some p) :
    ∃ e, s.roster[i]? = some e :=
  ⟨_,List.getElem?_eq_getElem (h.length ▸ (List.getElem?_eq_some_iff.mp hp).1)⟩

theorem Aligned.slot {s : GameSession} (h : Aligned s) {i : ℕ} {e : RosterEntry} (he : s.roster[i]? = some e) :
    ∃ p, s.players[i]? = some p :=
  ⟨_,List.getElem?_eq_getElem (h.length ▸ (List.getElem?_eq_some_iff.mp he).1)⟩

theorem Missed.not_matched {s : GameSession} (h : Missed s) : ¬Matched s := by
  obtain ⟨i,p,e,hp,he,ho,hn⟩ := h
  intro hm
  have heq := hm i p e hp he
  rw [ho,hn] at heq
  cases heq

/-! ## Game over in one call -/

theorem tickGame_gameOver (rand : ℕ → ℕ) (s : GameState) :
    (tickGame rand s).1.gameOver = (s.gameOver || !(canFall s || (decide (0 ≤ s.current.y) &&
      isValidPos (settled rand s).board (nextType s) .rot0 spawnX spawnY))) := by
  cases hl : locks s with
  | true =>
    obtain ⟨hc,hy⟩ := locks_iff.mp hl
    have hh := settled_hand rand s
    simp only [GameState.hand,Prod.mk.injEq] at hh
    have hlegal : legal (spawnNewPiece (afterGarbage rand) (settled rand s)) =
        isValidPos (settled rand s).board (nextType s) .rot0 spawnX spawnY := by
      unfold legal nextType
      rw [spawnNewPiece_board,spawnNewPiece_type,hh.2.1,hh.2.2.1]
    have hg : (spawnNewPiece (afterGarbage rand) (settled rand s)).gameOver = s.gameOver := by
      rw [spawnNewPiece_gameOver,hh.2.2.2.2.2]
    rw [tickGame_locked rand hl,hc,decide_eq_true hy,← hlegal,← hg]
    unfold blockOut
    generalize spawnNewPiece _ _ = t
    cases ht : legal t <;> simp
  | false =>
    unfold tickGame
    split
    · rename_i hc
      simp [hc]
    · rename_i hc
      have hy : s.current.y < 0 := by simpa [locks,hc] using hl
      rw [if_pos hy]
      simp [hc,not_le.mpr hy]

theorem hardDropLoop_gameOver (fuel : ℕ) (s : GameState) : (hardDropLoop fuel s).gameOver = s.gameOver := by
  induction fuel generalizing s with
  | zero => rfl
  | succ fuel ih =>
    unfold hardDropLoop
    split
    · rw [ih]
    · rfl

theorem testRotate_gameOver (s : GameState) (r : Rotation) : (testRotate s r).1.gameOver = s.gameOver := by
  unfold testRotate
  dsimp only
  split <;> rfl

theorem hardDrop_over (rand : ℕ → ℕ) (roster : Roster) (s : GameState) (h : s.gameOver = false) :
    (performAction rand roster s .hardDrop).gameOver = !dropSurvives rand s := by
  have hh := hardDrop_carries s
  have hn : nextType (hardDrop s) = nextType s := by
    unfold nextType
    rw [hh.bag,hh.bagIndex]
  have ho : (hardDrop s).gameOver = false := by
    rw [← h]
    exact hardDropLoop_gameOver _ s
  have ht := tickGame_gameOver rand (hardDrop s)
  rw [ho,hn,Bool.false_or] at ht
  exact ht

theorem performAction_gameOver (rand : ℕ → ℕ) (roster : Roster) (s : GameState) {a : PlayerAction}
    (hd : a ≠ .hardDrop) (hq : a ≠ .quit) : (performAction rand roster s a).gameOver = s.gameOver := by
  cases a with
  | hardDrop => exact absurd rfl hd
  | quit => exact absurd rfl hq
  | none => rfl
  | moveLeft =>
    dsimp only [performAction]
    unfold moveLeft
    split <;> rfl
  | moveRight =>
    dsimp only [performAction]
    unfold moveRight
    split <;> rfl
  | softDrop =>
    dsimp only [performAction]
    unfold softDrop
    split <;> rfl
  | rotateCW => exact testRotate_gameOver s _
  | rotateCCW => exact testRotate_gameOver s _
  | hold =>
    dsimp only [performAction]
    split
    · rfl
    · exact holdPiece_gameOver rand s
  | cycleTargetMode => rfl
  | cycleTarget =>
    dsimp only [performAction]
    unfold cycleManualTarget
    split
    · rfl
    · split <;> rfl

/-! ## One action -/

/-- What `apply_action` does to the session when its pointer stands for a slot. -/
theorem perform_eq {s : GameSession} {a : ClientAction} {i : ℕ} {p : PlayerSlot} (h : s.slotAt a.slot = some (i,p)) :
    s.perform a = ⟨s.players.set i (applyToSlot a.rand s.roster a.action p),
      if p.out = false ∧ a.action = .quit then Roster.eliminate s.roster p.playerId else s.roster⟩ := by
  unfold GameSession.perform applyAction
  rw [h]
  rfl

theorem slotAt_get {s : GameSession} {slot : Option ℕ} {i : ℕ} {p : PlayerSlot} (h : s.slotAt slot = some (i,p)) :
    s.players[i]? = some p := by
  obtain ⟨j,-,h⟩ := Option.bind_eq_some_iff.mp h
  obtain ⟨q,hq,h⟩ := Option.map_eq_some_iff.mp h
  cases h
  exact hq

theorem perform_none {s : GameSession} {a : ClientAction} (h : s.slotAt a.slot = none) : s.perform a = s := by
  unfold GameSession.perform applyAction
  rw [h]

theorem applyToSlot_playerId (rand : ℕ → ℕ) (roster : Roster) (a : PlayerAction) (p : PlayerSlot) :
    (applyToSlot rand roster a p).playerId = p.playerId :=
  (applyToSlot_evolves rand roster a p).playerId

theorem applyToSlot_out (rand : ℕ → ℕ) (roster : Roster) (a : PlayerAction) {p : PlayerSlot} (h : p.out = false) :
    (applyToSlot rand roster a p).out =
      (a == .quit || (a == .hardDrop && !dropSurvives rand p.state)) := by
  have ho : p.state.gameOver = false := (Bool.or_eq_false_iff.mp h).2
  unfold applyToSlot
  rw [h]
  simp only [Bool.false_eq_true,↓reduceIte]
  by_cases hn : a = .none
  · subst hn
    simp [h]
  · rw [if_neg hn]
    unfold PlayerSlot.out
    dsimp only
    by_cases hd : a = .hardDrop
    · subst hd
      rw [hardDrop_over rand roster p.state ho]
      rfl
    · by_cases hq : a = .quit
      · subst hq
        rfl
      · have hd' : (a == .hardDrop) = false := beq_eq_false_iff_ne.mpr hd
        have hq' : (a == .quit) = false := beq_eq_false_iff_ne.mpr hq
        rw [performAction_gameOver rand roster p.state hd hq,ho,hd',hq']
        simp [bne,hq']

theorem applyToSlot_of_out (rand : ℕ → ℕ) (roster : Roster) (a : PlayerAction) {p : PlayerSlot} (h : p.out = true) :
    applyToSlot rand roster a p = p := by
  unfold applyToSlot
  rw [if_pos h]

theorem eliminate_get (r : Roster) (playerId i : ℕ) :
    (Roster.eliminate r playerId)[i]? =
      r[i]?.map fun e => if e.id = playerId then { e with eliminated := true } else e := by
  unfold Roster.eliminate
  exact List.getElem?_map ..

theorem eliminate_ids (r : Roster) (playerId : ℕ) : (Roster.eliminate r playerId).map (·.id) = r.map (·.id) := by
  unfold Roster.eliminate
  rw [List.map_map]
  apply List.map_congr_left
  intro e _
  dsimp only [Function.comp]
  split <;> rfl

theorem perform_aligned {s : GameSession} (h : Aligned s) (a : ClientAction) : Aligned (s.perform a) := by
  cases hs : s.slotAt a.slot with
  | none => rwa [perform_none hs]
  | some q =>
    obtain ⟨i,p⟩ := q
    rw [perform_eq hs]
    have hp : (s.players.set i (applyToSlot a.rand s.roster a.action p)).map (·.playerId) =
        s.players.map (·.playerId) := by
      exact map_set_of_eq (slotAt_get hs) (applyToSlot_playerId a.rand s.roster a.action p)
    refine ⟨?_,by rw [hp]; exact h.nodup⟩
    rw [hp,← h.ids]
    dsimp only
    split
    · exact eliminate_ids s.roster p.playerId
    · rfl

theorem perform_roster {s : GameSession} (h : Aligned s) {a : ClientAction} {i : ℕ} {p : PlayerSlot}
    (hs : s.slotAt a.slot = some (i,p)) {j : ℕ} {e : RosterEntry} (he : s.roster[j]? = some e) :
    (s.perform a).roster[j]? =
      some (if j = i ∧ p.out = false ∧ a.action = .quit then { e with eliminated := true } else e) := by
  rw [perform_eq hs]
  dsimp only
  by_cases hq : p.out = false ∧ a.action = .quit
  · rw [if_pos hq,eliminate_get,he,Option.map_some]
    obtain ⟨pj,hpj⟩ := h.slot he
    have hid := h.id_eq hpj he
    by_cases hji : j = i
    · subst hji
      cases hpj.symm.trans (slotAt_get hs)
      rw [if_pos hid,if_pos ⟨rfl,hq⟩]
    · have hne : e.id ≠ p.playerId := by
        intro he'
        exact hji (h.index_eq hpj (slotAt_get hs) (hid.symm.trans he'))
      rw [if_neg hne,if_neg fun hc => hji hc.1]
  · rw [if_neg hq,he,if_neg fun hc => hq hc.2]

theorem perform_players {s : GameSession} {a : ClientAction} {i : ℕ} {p : PlayerSlot}
    (hs : s.slotAt a.slot = some (i,p)) (j : ℕ) :
    (s.perform a).players[j]? =
      if i = j then some (applyToSlot a.rand s.roster a.action p) else s.players[j]? := by
  have hi := (List.getElem?_eq_some_iff.mp (slotAt_get hs)).1
  rw [perform_eq hs]
  dsimp only
  split
  · rename_i hij
    subst hij
    exact List.getElem?_set_self hi
  · rename_i hij
    exact List.getElem?_set_ne hij

theorem perform_length (s : GameSession) (a : ClientAction) : (s.perform a).players.length = s.players.length :=
  (applyAction_evolves a.rand s a.slot a.action).1

/-- An action that survives keeps the roster right. -/
theorem perform_matched {s : GameSession} (h : Aligned s) (hm : Matched s) {a : ClientAction}
    (hg : s.survives a = true) : Matched (s.perform a) := by
  cases hs : s.slotAt a.slot with
  | none => rwa [perform_none hs]
  | some q =>
    obtain ⟨i,p⟩ := q
    intro j q e hq he
    have hlen : j < s.players.length := perform_length s a ▸ (List.getElem?_eq_some_iff.mp hq).1
    obtain ⟨pj,hpj⟩ : ∃ pj, s.players[j]? = some pj := ⟨_,List.getElem?_eq_getElem hlen⟩
    obtain ⟨e0,he0⟩ := h.entry hpj
    have hrow := hm j pj e0 hpj he0
    rw [perform_roster h hs he0,Option.some.injEq] at he
    rw [perform_players hs] at hq
    subst he
    by_cases hij : i = j
    · subst hij
      rw [if_pos rfl,Option.some.injEq] at hq
      subst hq
      cases hpj.symm.trans (slotAt_get hs)
      cases ho : p.out with
      | true =>
        rw [applyToSlot_of_out _ _ _ ho,if_neg fun hc => absurd hc.2.1 (by decide),hrow]
      | false =>
        rw [applyToSlot_out _ _ _ ho]
        by_cases hq : a.action = .quit
        · rw [if_pos ⟨rfl,rfl,hq⟩,hq]
          rfl
        · rw [if_neg fun hc => hq hc.2.2,hrow,ho,beq_eq_false_iff_ne.mpr hq]
          simpa [GameSession.survives,hs,ho,bne,imp_iff_not_or] using hg
    · rw [if_neg hij,hpj,Option.some.injEq] at hq
      rw [if_neg fun hc => hij hc.1.symm,hrow,hq]

/-- A hard drop that tops out is missed. -/
theorem perform_missed {s : GameSession} (h : Aligned s) (hm : Matched s) {a : ClientAction}
    (hg : s.survives a = false) : Missed (s.perform a) := by
  unfold GameSession.survives at hg
  rw [Bool.or_eq_false_iff] at hg
  obtain ⟨ha,hg⟩ := hg
  have ha : a.action = .hardDrop := by simpa using ha
  cases hs : s.slotAt a.slot with
  | none => simp [hs] at hg
  | some q =>
    obtain ⟨i,p⟩ := q
    have hp := slotAt_get hs
    obtain ⟨e,he⟩ := h.entry hp
    simp only [hs,Option.all_some,Bool.or_eq_false_iff] at hg
    obtain ⟨ho,hd⟩ := hg
    refine ⟨i,_,e,(perform_players hs i).trans (if_pos rfl),?_,?_,(hm i p e hp he).trans ho⟩
    · rw [perform_roster h hs he,ha,if_neg fun hc => absurd hc.2.2 (by decide)]
    · rw [applyToSlot_out _ _ _ ho,ha,hd]
      rfl

theorem Missed.perform {s : GameSession} (h : Aligned s) (hs : Missed s) (a : ClientAction) :
    Missed (s.perform a) := by
  obtain ⟨j,p,e,hp,he,ho,hn⟩ := hs
  cases hs : s.slotAt a.slot with
  | none =>
    rw [perform_none hs]
    exact ⟨j,p,e,hp,he,ho,hn⟩
  | some q =>
    obtain ⟨i,pi⟩ := q
    refine ⟨j,p,e,?_,?_,ho,hn⟩
    · rw [perform_players hs]
      split
      · rename_i hij
        subst hij
        cases hp.symm.trans (slotAt_get hs)
        rw [applyToSlot_of_out _ _ _ ho]
      · exact hp
    · rw [perform_roster h hs he,if_neg]
      rintro ⟨rfl,ho',-⟩
      cases hp.symm.trans (slotAt_get hs)
      exact absurd (ho.symm.trans ho') (by decide)

/-! ## One tick -/

theorem foldl_eliminate (l : List (PlayerSlot × ℕ)) (r : Roster) (i : ℕ) :
    (l.foldl (fun r q => Roster.eliminate r q.1.playerId) r)[i]? =
      r[i]?.map fun e => if l.any (fun q => q.1.playerId == e.id) then { e with eliminated := true } else e := by
  induction l generalizing r with
  | nil => simp
  | cons q l ih =>
    rw [List.foldl_cons,ih,eliminate_get,Option.map_map]
    congr 1
    funext e
    dsimp only [Function.comp]
    by_cases hq : e.id = q.1.playerId
    · simp [hq]
    · have hq' : (q.1.playerId == e.id) = false := beq_eq_false_iff_ne.mpr (Ne.symm hq)
      simp only [hq,↓reduceIte,List.any_cons,hq',Bool.false_or]

theorem foldl_eliminate_ids (l : List (PlayerSlot × ℕ)) (r : Roster) :
    (l.foldl (fun r q => Roster.eliminate r q.1.playerId) r).map (·.id) = r.map (·.id) := by
  induction l generalizing r with
  | nil => rfl
  | cons q l ih => rw [List.foldl_cons,ih,eliminate_ids]

def topsOut (rand : ℕ → ℕ → ℕ) (q : PlayerSlot × ℕ) : Bool := !q.1.out && (tickSlot (rand q.2) q.1).state.gameOver

theorem tickSession_roster {s : GameSession} (h : Aligned s) (rand : ℕ → ℕ → ℕ) {i : ℕ} {p : PlayerSlot}
    {e : RosterEntry} (hp : s.players[i]? = some p) (he : s.roster[i]? = some e) :
    (tickSession rand s).roster[i]? = some (if topsOut rand (p,i) then { e with eliminated := true } else e) := by
  have hid := h.id_eq hp he
  have hany : ((s.players.zipIdx.filter (topsOut rand)).any fun q => q.1.playerId == e.id) = topsOut rand (p,i) := by
    rw [Bool.eq_iff_iff,List.any_eq_true]
    constructor
    · rintro ⟨⟨q,j⟩,hq,hqe⟩
      obtain ⟨hm,ht⟩ := List.mem_filter.mp hq
      have hqj : s.players[j]? = some q := by simpa using List.mem_zipIdx_iff_getElem?.mp hm
      have hij := h.index_eq hqj hp ((beq_iff_eq.mp hqe).trans hid)
      subst hij
      cases hqj.symm.trans hp
      exact ht
    · intro ht
      refine ⟨(p,i),List.mem_filter.mpr ⟨?_,ht⟩,beq_iff_eq.mpr hid.symm⟩
      exact List.mem_zipIdx_iff_getElem?.mpr (by simpa using hp)
  unfold tickSession
  dsimp only
  rw [foldl_eliminate,he,Option.map_some]
  unfold topsOut at hany ⊢
  rw [hany]

theorem tickSlot_out (rand : ℕ → ℕ → ℕ) (p : PlayerSlot) (i : ℕ) :
    (tickSlot (rand i) p).out = (p.out || topsOut rand (p,i)) := by
  unfold topsOut
  cases ho : p.out with
  | true =>
    unfold tickSlot
    rw [if_pos ho,ho]
    rfl
  | false =>
    have ha : p.active = true := by simpa using (Bool.or_eq_false_iff.mp ho).1
    unfold tickSlot
    rw [if_neg (by rw [ho]; decide)]
    simp [PlayerSlot.out,ha]

theorem tickSession_players (rand : ℕ → ℕ → ℕ) (s : GameSession) (i : ℕ) :
    (tickSession rand s).players[i]? = s.players[i]?.map (tickSlot (rand i)) := by
  unfold tickSession
  simp [List.getElem?_mapIdx]

theorem tick_matched {s : GameSession} (h : Aligned s) (hm : Matched s) (rand : ℕ → ℕ → ℕ) :
    Matched (tickSession rand s) := by
  intro i q e hq he
  rw [tickSession_players] at hq
  obtain ⟨p,hp,rfl⟩ := Option.map_eq_some_iff.mp hq
  obtain ⟨e0,he0⟩ := h.entry hp
  rw [tickSession_roster h rand hp he0,Option.some.injEq] at he
  rw [tickSlot_out,← he]
  cases ht : topsOut rand (p,i) with
  | true => simp
  | false => simpa using hm i p e0 hp he0

theorem Missed.tick {s : GameSession} (h : Aligned s) (hs : Missed s) (rand : ℕ → ℕ → ℕ) :
    Missed (tickSession rand s) := by
  obtain ⟨i,p,e,hp,he,ho,hn⟩ := hs
  have ht : topsOut rand (p,i) = false := by simp [topsOut,ho]
  refine ⟨i,tickSlot (rand i) p,e,?_,?_,?_,hn⟩
  · rw [tickSession_players,hp]
    rfl
  · rw [tickSession_roster h rand hp he,ht]
    rfl
  · rw [tickSlot_out,ho,Bool.true_or]

theorem tick_aligned {s : GameSession} (h : Aligned s) (rand : ℕ → ℕ → ℕ) : Aligned (tickSession rand s) := by
  have hp : (tickSession rand s).players.map (·.playerId) = s.players.map (·.playerId) := by
    apply List.ext_getElem?
    intro i
    rw [List.getElem?_map,List.getElem?_map,tickSession_players,Option.map_map]
    congr 1
    funext p
    exact (tickSlot_evolves (rand i) p).playerId
  have hr : (tickSession rand s).roster.map (·.id) = s.roster.map (·.id) := foldl_eliminate_ids _ s.roster
  exact ⟨by rw [hr,hp]; exact h.ids,by rw [hp]; exact h.nodup⟩

/-! ## Whole loop iterations -/

theorem drain_aligned {s : GameSession} (h : Aligned s) (as : List ClientAction) :
    Aligned (as.foldl GameSession.perform s) := by
  induction as generalizing s with
  | nil => exact h
  | cons a as ih => exact ih (perform_aligned h a)

theorem Missed.drain {s : GameSession} (h : Aligned s) (hs : Missed s) (as : List ClientAction) :
    Missed (as.foldl GameSession.perform s) := by
  induction as generalizing s with
  | nil => exact hs
  | cons a as ih => exact ih (perform_aligned h a) (hs.perform h a)

/-- A drain keeps the roster right exactly when no hard drop in it tops out. -/
theorem drain_matched {s : GameSession} (h : Aligned s) (hm : Matched s) (as : List ClientAction) :
    if drainSurvives s as then Matched (as.foldl GameSession.perform s) else Missed (as.foldl GameSession.perform s) := by
  induction as generalizing s with
  | nil => simpa [drainSurvives] using hm
  | cons a as ih =>
    cases hg : s.survives a with
    | true => simpa [drainSurvives,hg] using ih (perform_aligned h a) (perform_matched h hm hg)
    | false => simpa [drainSurvives,hg] using (perform_missed h hm hg).drain (perform_aligned h a) as

theorem loopStep_aligned {s t : GameSession} {it : Iteration} (h : Aligned s) (hs : loopStep s it = some t) :
    Aligned t := by
  cases hs
  exact tick_aligned (drain_aligned h it.actions) it.rand

theorem loopStep_matched {s t : GameSession} {it : Iteration} (h : Aligned s) (hm : Matched s)
    (hg : drainSurvives s it.actions = true) (hs : loopStep s it = some t) : Matched t := by
  cases hs
  have hd := drain_matched h hm it.actions
  rw [if_pos hg] at hd
  exact tick_matched (drain_aligned h it.actions) hd it.rand

theorem loopStep_missed {s t : GameSession} {it : Iteration} (h : Aligned s) (hm : Matched s)
    (hg : drainSurvives s it.actions = false) (hs : loopStep s it = some t) : ¬Matched t := by
  cases hs
  have hd := drain_matched h hm it.actions
  rw [if_neg (by rw [hg]; decide)] at hd
  exact (hd.tick (drain_aligned h it.actions) it.rand).not_matched

/-- The roster says of every id in it whether the player with that id is out. -/
def Agrees (s : GameSession) : Prop :=
  ∀ e ∈ s.roster, ∃ p ∈ s.players, p.playerId = e.id ∧ (e.eliminated = true ↔ p.state.gameOver = true ∨ p.active = false)

theorem agrees_iff {s : GameSession} (h : Aligned s) : Agrees s ↔ Matched s := by
  have hout : ∀ p : PlayerSlot, p.out = true ↔ p.state.gameOver = true ∨ p.active = false := by
    intro p
    simp [PlayerSlot.out,or_comm]
  constructor
  · intro ha i p e hp he
    obtain ⟨q,hq,hid,hi⟩ := ha e (List.mem_of_getElem? he)
    obtain ⟨j,hj⟩ := List.getElem?_of_mem hq
    have hij := h.index_eq hj hp (hid.trans (h.id_eq hp he))
    subst hij
    cases hj.symm.trans hp
    rw [Bool.eq_iff_iff,hi,hout]
  · intro hm e he
    obtain ⟨i,hi⟩ := List.getElem?_of_mem he
    obtain ⟨p,hp⟩ := h.slot hi
    refine ⟨p,List.mem_of_getElem? hp,(h.id_eq hp hi).symm,?_⟩
    rw [hm i p e hp hi,hout]

theorem initSession_aligned (rand : ℕ → ℕ → ℕ) {clientIds : List ℕ} (h : clientIds.Nodup) :
    Aligned (initSession rand clientIds) := by
  have hp : (initSession rand clientIds).players.map (·.playerId) = clientIds := by
    apply List.ext_getElem?
    intro i
    simp [initSession,initSlot,List.getElem?_mapIdx,Function.comp_def]
  refine ⟨?_,by rw [hp]; exact h⟩
  rw [hp]
  simp [initSession,Function.comp_def]

theorem initSlot_out (rand : ℕ → ℕ) (ids : List ℕ) (id : ℕ) : (initSlot rand ids id).out = false := by
  have hplays : (startGame rand).gameOver = false := by
    rw [startGame,spawnNewPiece_gameOver]
    rfl
  rw [PlayerSlot.out,initSlot]
  dsimp only
  rw [hplays]
  rfl

theorem initSession_matched (rand : ℕ → ℕ → ℕ) (clientIds : List ℕ) : Matched (initSession rand clientIds) := by
  intro i p e hp he
  have hf : e.eliminated = false := by
    obtain ⟨id,-,rfl⟩ := List.mem_map.mp (List.mem_of_getElem? he)
    rfl
  have ho : p.out = false := by
    obtain ⟨k,hk,rfl⟩ := List.mem_mapIdx.mp (List.mem_of_getElem? hp)
    exact initSlot_out (rand k) clientIds clientIds[k]
  rw [hf,ho]

/-- After every iteration of a run the roster agrees with who is out exactly when no
hard drop of the run tops out. -/
theorem roster_agrees_iff (rand : ℕ → ℕ → ℕ) (clientIds : List ℕ) (hn : clientIds.Nodup) (its : List Iteration) :
    (∀ n t, run loopStep (initSession rand clientIds) (its.take n) = some t → Agrees t) ↔
    ∀ n s it t, run loopStep (initSession rand clientIds) (its.take n) = some s → its[n]? = some it →
      loopStep s it = some t → drainSurvives s it.actions = true := by
  have ha := initSession_aligned rand hn
  have hiff := @safe_iff_guard _ _ (fun s it => drainSurvives s it.actions) loopStep Aligned Matched
    (fun _ _ _ h hs => loopStep_aligned h hs) (fun _ _ _ h hm hg hs => loopStep_matched h hm hg hs)
    (fun _ _ _ h hm hg hs => loopStep_missed h hm hg hs) _ ha (initSession_matched rand clientIds) its
  rw [← hiff]
  constructor
  · intro h n t ht
    exact (agrees_iff (run_invariant (fun _ _ _ h hs => loopStep_aligned h hs) ht ha)).mp (h n t ht)
  · intro h n t ht
    exact (agrees_iff (run_invariant (fun _ _ _ h hs => loopStep_aligned h hs) ht ha)).mpr (h n t ht)

/-- A player who quits is marked in the same iteration. -/
theorem roster_agrees_after_a_quit :
    ∃ t, run loopStep (initSession (fun _ i => i) [1, 2]) [⟨[⟨fun i => i,some 0,.quit⟩],fun _ i => i⟩] = some t ∧
      t.roster = [⟨1,true⟩, ⟨2,false⟩] ∧ Agrees t := by
  obtain ⟨t,hr,ht⟩ := exists_of_run_any loopStep (initSession (fun _ i => i) [1, 2])
    [⟨[⟨fun i => i,some 0,.quit⟩],fun _ i => i⟩]
    (fun t : GameSession => t.roster == [⟨1,true⟩, ⟨2,false⟩]) (by decide +kernel)
  refine ⟨t,hr,beq_iff_eq.mp ht,?_⟩
  have h := (roster_agrees_iff (fun _ i => i) [1, 2] (by decide)
    [⟨[⟨fun i => i,some 0,.quit⟩],fun _ i => i⟩]).mpr ?_
  · exact h 1 t hr
  · intro n s it u _ hit _
    cases n with
    | zero =>
      cases hit
      rfl
    | succ n => cases hit

/-- Seven upright hard drops in one iteration top the first player out. -/
theorem roster_misses_a_hard_drop :
    ∃ t, run loopStep (initSession (fun _ i => [6, 5, 4, 3, 2, 1].getD i 0) [1, 2])
        [⟨(List.replicate 7 [PlayerAction.rotateCW, .hardDrop]).flatten.map
          (⟨fun i => [6, 5, 4, 3, 2, 1].getD i 0,some 0,·⟩),fun _ i => i⟩] = some t ∧ ¬Agrees t := by
  obtain ⟨t,hr,ht⟩ := exists_of_run_any loopStep (initSession (fun _ i => [6, 5, 4, 3, 2, 1].getD i 0) [1, 2])
    [⟨(List.replicate 7 [PlayerAction.rotateCW, .hardDrop]).flatten.map
      (⟨fun i => [6, 5, 4, 3, 2, 1].getD i 0,some 0,·⟩),fun _ i => i⟩]
    (fun t : GameSession => t.roster == [⟨1,false⟩, ⟨2,false⟩] &&
      t.players.all fun p => p.playerId != 1 || p.state.gameOver) (by decide +kernel)
  obtain ⟨hroster,hover⟩ := Bool.and_eq_true_iff.mp ht
  refine ⟨t,hr,?_⟩
  intro ha
  rw [beq_iff_eq] at hroster
  obtain ⟨p,hp,hid,hiff⟩ := ha ⟨1,false⟩ (by rw [hroster]; exact List.mem_cons_self)
  have hg : p.state.gameOver = true := by
    have h := List.all_eq_true.mp hover p hp
    simpa [hid] using h
  exact absurd (hiff.mpr (.inl hg)) (by decide)

end CoreStack.Tetrisd
