import CoreStack.Hypertext.Payloads
import CoreStack.Lib.Slotwise
import CoreStack.Tetrisd.Room

/-! # Whose slot a client message touches (the message drain of `room.c`)

The worker acts for the player that the content of a message names. Nothing in
the content says who sent it.
-/
namespace CoreStack.Tetrisd
open Hypertext Lib Tetris

/-- The cast to `PlayerAction`; `apply_action` ignores a number it does not know. -/
def PlayerAction.ofNumber : ℕ → PlayerAction
  | 1 => .moveLeft
  | 2 => .moveRight
  | 3 => .rotateCW
  | 4 => .rotateCCW
  | 5 => .softDrop
  | 6 => .hardDrop
  | 7 => .hold
  | 8 => .cycleTargetMode
  | 9 => .cycleTarget
  | 10 => .quit
  | _ => .none

/-- What the drain reads from a buffer. The payload is not initialised, and keeps the
value `stale` if the body holds no number. A buffer that overruns the parser has no
defined reading. -/
def readAppMsg (stale : ℕ) (buffer : List UInt8) : Option AppMsg :=
  match parseBuffer buffer with
  | .error .malformed => some .ignored
  | .error .overrun => none
  | .ok parsed =>
    let req := reqExtractInfo parsed
    if req.method = .action then
      some (.action req.id (.ofNumber ((payloadDecodeInput req.body).getD stale)))
    else some .ignored

/-- One round of the drain. -/
def dispatch (w : Worker) (drained stale : ℕ) (rand : ℕ → ℕ) (buffer : List UInt8) : Option Effect :=
  (readAppMsg stale buffer).bind fun m => clientStep w drained m rand

/-! ## One action -/

theorem findPlayer_some {s : GameSession} {id i : ℕ} (h : findPlayer s id = some i) :
    ∃ p, s.players[i]? = some p ∧ p.playerId = id := by
  obtain ⟨hi,hp,-⟩ := List.findIdx?_eq_some_iff_getElem.mp h
  simp only [PlayerSlot.hasId,Bool.and_eq_true,beq_iff_eq] at hp
  exact ⟨s.players[i],List.getElem?_eq_getElem hi,hp.2⟩

theorem findPlayer_mem {s : GameSession} {id i : ℕ} (h : findPlayer s id = some i) :
    id ∈ s.players.map (·.playerId) := by
  obtain ⟨p,hp,hid⟩ := findPlayer_some h
  exact List.mem_map.mpr ⟨p,List.mem_of_getElem? hp,hid⟩

theorem applyAction_players {s : GameSession} {i : ℕ} {p : PlayerSlot} (hp : s.players[i]? = some p)
    (rand : ℕ → ℕ) (action : PlayerAction) :
    (applyAction rand s (some i) action).players = s.players.set i (applyToSlot rand s.roster action p) := by
  simp only [applyAction,GameSession.slotAt,Option.bind_some,hp,Option.map_some]
  rfl

theorem applyToSlot_none (rand : ℕ → ℕ) (roster : Roster) (p : PlayerSlot) :
    applyToSlot rand roster .none p = p := by
  unfold applyToSlot
  split <;> rfl

theorem applyAction_spares (rand : ℕ → ℕ) (s : GameSession) (id : ℕ) (action : PlayerAction) :
    Spares (·.playerId) id s.players (applyAction rand s (findPlayer s id) action).players := by
  cases hfind : findPlayer s id with
  | none => exact Spares.refl _ _ _
  | some i =>
    obtain ⟨p,hp,hid⟩ := findPlayer_some hfind
    rw [applyAction_players hp]
    exact .set hp hid _

theorem applyAction_absent {s : GameSession} {id : ℕ} (h : id ∉ s.players.map (·.playerId)) (rand : ℕ → ℕ)
    (action : PlayerAction) : applyAction rand s (findPlayer s id) action = s := by
  cases hfind : findPlayer s id with
  | none => rfl
  | some i => exact absurd (findPlayer_mem hfind) h

theorem applyAction_none_players (rand : ℕ → ℕ) (s : GameSession) (id : ℕ) :
    (applyAction rand s (findPlayer s id) .none).players = s.players := by
  cases hfind : findPlayer s id with
  | none => rfl
  | some i =>
    obtain ⟨p,hp,-⟩ := findPlayer_some hfind
    rw [applyAction_players hp,applyToSlot_none]
    obtain ⟨hi,rfl⟩ := List.getElem?_eq_some_iff.mp hp
    exact List.set_getElem_self hi

/-! ## An idle match -/

/-- A player who could act and was not touched since the last push. -/
def PlayerSlot.Idle (p : PlayerSlot) : Prop := p.active = true ∧ p.state.gameOver = false ∧ p.dirty = false

theorem PlayerSlot.Idle.applyToSlot_ne {p : PlayerSlot} (h : p.Idle) (rand : ℕ → ℕ) (roster : Roster)
    {action : PlayerAction} (ha : action ≠ .none) : applyToSlot rand roster action p ≠ p := by
  obtain ⟨hactive,hover,hdirty⟩ := h
  intro heq
  have hset : (applyToSlot rand roster action p).dirty = true := by
    simp only [applyToSlot,PlayerSlot.out,hactive,hover,ha,Bool.not_true,Bool.or_self,Bool.false_eq_true,if_false]
  rw [heq,hdirty] at hset
  cases hset

/-- On an idle match every action for somebody else is felt. -/
theorem applyAction_not_spares {s : GameSession} (hidle : ∀ p ∈ s.players, p.Idle) {a id : ℕ}
    (hid : id ∈ s.players.map (·.playerId)) (hne : id ≠ a) (rand : ℕ → ℕ) {action : PlayerAction}
    (ha : action ≠ .none) :
    ¬Spares (·.playerId) a s.players (applyAction rand s (findPlayer s id) action).players := by
  obtain ⟨p,hp,hown⟩ := List.mem_map.mp hid
  have hfound : (findPlayer s id).isSome := by
    refine List.findIdx?_isSome.trans (List.any_eq_true.mpr ⟨p,hp,?_⟩)
    simp [PlayerSlot.hasId,(hidle p hp).1,hown]
  obtain ⟨i,hi⟩ := Option.isSome_iff_exists.mp hfound
  obtain ⟨q,hq,hqid⟩ := findPlayer_some hi
  rw [hi,applyAction_players hq]
  have hqidle := hidle q (List.mem_of_getElem? hq)
  exact not_spares_set hq (by rw [hqid]; exact hne) (hqidle.applyToSlot_ne rand s.roster ha)

def idleSession (ids : List ℕ) : GameSession where
  players := ids.map fun id =>
    { initSlot (fun _ => 0) ids id with
      state := { startGame (fun _ => 0) with gameOver := false }
      dirty := false }
  roster := ids.map fun id => ⟨id,false⟩

theorem idleSession_ids (ids : List ℕ) : (idleSession ids).players.map (·.playerId) = ids := by
  simp only [idleSession,List.map_map]
  exact List.map_id'' (fun _ => rfl) ids

theorem idleSession_idle (ids : List ℕ) : ∀ p ∈ (idleSession ids).players, p.Idle := by
  intro p hp
  obtain ⟨id,-,rfl⟩ := List.mem_map.mp hp
  exact ⟨rfl,rfl,rfl⟩

/-! ## One buffer -/

/-- The buffer stays within the parser's memory, and an action it asks for is for `a`, for
nobody in the match, or is the one that does nothing. -/
def KeepsTo (a : ℕ) (ids : List ℕ) (buffer : List UInt8) : Prop :=
  parseBuffer buffer ≠ .error .overrun ∧
  ∀ parsed, parseBuffer buffer = .ok parsed → (reqExtractInfo parsed).method = .action →
    (reqExtractInfo parsed).id = a ∨ (reqExtractInfo parsed).id ∉ ids ∨
    ∃ n, payloadDecodeInput (reqExtractInfo parsed).body = some n ∧ PlayerAction.ofNumber n = .none

/-- Whatever the state of the match, the drain handles the buffer and nobody but `a` feels it. -/
def SparesOthers (a : ℕ) (ids : List ℕ) (buffer : List UInt8) : Prop :=
  ∀ w drained stale rand, w.session.players.map (·.playerId) = ids → drained < maxMsgsPerTick →
    ∃ e, dispatch w drained stale rand buffer = some e ∧
      Spares (·.playerId) a w.session.players e.worker.session.players

theorem clientStep_ignored {w : Worker} {drained : ℕ} (h : drained < maxMsgsPerTick) (rand : ℕ → ℕ) :
    ∃ e, clientStep w drained .ignored rand = some e ∧ e.worker.session = w.session := by
  simp only [clientStep,if_pos h]
  exact ⟨_,rfl,rfl⟩

theorem clientStep_action {w : Worker} {drained : ℕ} (h : drained < maxMsgsPerTick) (rand : ℕ → ℕ) (id : ℕ)
    (action : PlayerAction) :
    ∃ e, clientStep w drained (.action id action) rand = some e ∧
      e.worker.session = applyAction rand w.session (findPlayer w.session id) action := by
  simp only [clientStep,if_pos h]
  exact ⟨_,rfl,rfl⟩

theorem spares_of_ignored {a : ℕ} {ids : List ℕ} {buffer : List UInt8}
    (h : ∀ stale, readAppMsg stale buffer = some .ignored) : SparesOthers a ids buffer := by
  intro w drained stale rand _ hdrained
  obtain ⟨e,he,hsession⟩ := clientStep_ignored hdrained rand
  refine ⟨e,by rw [dispatch,h]; exact he,?_⟩
  rw [hsession]
  exact Spares.refl _ _ _

theorem readAppMsg_malformed {buffer : List UInt8} (h : parseBuffer buffer = .error .malformed) (stale : ℕ) :
    readAppMsg stale buffer = some .ignored := by
  simp only [readAppMsg,h]

theorem readAppMsg_other {buffer : List UInt8} {parsed : ParsedMsgHT} (h : parseBuffer buffer = .ok parsed)
    (hm : (reqExtractInfo parsed).method ≠ .action) (stale : ℕ) :
    readAppMsg stale buffer = some .ignored := by
  simp only [readAppMsg,h,if_neg hm]

theorem readAppMsg_action {buffer : List UInt8} {parsed : ParsedMsgHT} (h : parseBuffer buffer = .ok parsed)
    (hm : (reqExtractInfo parsed).method = .action) (stale : ℕ) :
    readAppMsg stale buffer = some (.action (reqExtractInfo parsed).id
      (.ofNumber ((payloadDecodeInput (reqExtractInfo parsed).body).getD stale))) := by
  simp only [readAppMsg,h,if_pos hm]

theorem sparesOthers_action_iff {buffer : List UInt8} {parsed : ParsedMsgHT} (h : parseBuffer buffer = .ok parsed)
    (hm : (reqExtractInfo parsed).method = .action) (a : ℕ) (ids : List ℕ) :
    SparesOthers a ids buffer ↔ (reqExtractInfo parsed).id = a ∨ (reqExtractInfo parsed).id ∉ ids ∨
      ∃ n, payloadDecodeInput (reqExtractInfo parsed).body = some n ∧ PlayerAction.ofNumber n = .none := by
  constructor
  · intro hall
    by_contra hcon
    push Not at hcon
    obtain ⟨hne,hmem,hdo⟩ := hcon
    -- with 1 left in the payload even a body without a number asks for something
    obtain ⟨e,he,hspares⟩ := hall { Worker.init 0 with session := idleSession ids } 0 1 (fun _ => 0)
      (idleSession_ids ids) (by decide)
    obtain ⟨e',he',hsession⟩ := clientStep_action (w := { Worker.init 0 with session := idleSession ids })
      (show 0 < maxMsgsPerTick by decide) (fun _ => 0) (reqExtractInfo parsed).id
      (.ofNumber ((payloadDecodeInput (reqExtractInfo parsed).body).getD 1))
    rw [dispatch,readAppMsg_action h hm,Option.bind_some,he'] at he
    cases he
    rw [hsession] at hspares
    refine applyAction_not_spares (idleSession_idle ids) ?_ hne _ ?_ hspares
    · rw [idleSession_ids]
      exact hmem
    · cases hn : payloadDecodeInput (reqExtractInfo parsed).body with
      | none => decide
      | some n => exact hdo n hn
  · intro hcond w drained stale rand hids hdrained
    obtain ⟨e,he,hsession⟩ := clientStep_action (w := w) hdrained rand (reqExtractInfo parsed).id
      (.ofNumber ((payloadDecodeInput (reqExtractInfo parsed).body).getD stale))
    refine ⟨e,by rw [dispatch,readAppMsg_action h hm]; exact he,?_⟩
    rw [hsession]
    rcases hcond with rfl | habsent | ⟨n,hn,hnone⟩
    · exact applyAction_spares rand w.session _ _
    · rw [applyAction_absent (by rw [hids]; exact habsent)]
      exact Spares.refl _ _ _
    · rw [hn,Option.getD_some,hnone,applyAction_none_players]
      exact Spares.refl _ _ _

theorem sparesOthers_iff (a : ℕ) (ids : List ℕ) (buffer : List UInt8) :
    SparesOthers a ids buffer ↔ KeepsTo a ids buffer := by
  unfold KeepsTo
  cases hparse : parseBuffer buffer with
  | error err =>
    cases err with
    | malformed => simp [spares_of_ignored (readAppMsg_malformed hparse)]
    | overrun =>
      -- no step is defined, on no match whatsoever
      have hundefined : ¬SparesOthers a ids buffer := by
        intro hall
        obtain ⟨e,he,-⟩ := hall { Worker.init 0 with session := idleSession ids } 0 0 (fun _ => 0)
          (idleSession_ids ids) (by decide)
        simp [dispatch,readAppMsg,hparse] at he
      simp [hundefined]
  | ok parsed =>
    by_cases hm : (reqExtractInfo parsed).method = .action
    · rw [sparesOthers_action_iff hparse hm]
      simp [hm]
    · simp [hm,spares_of_ignored (readAppMsg_other hparse hm)]

end CoreStack.Tetrisd
