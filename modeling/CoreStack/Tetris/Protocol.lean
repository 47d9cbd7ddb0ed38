import CoreStack.Tetris.SevenBag

/-! # The state snapshot on the wire (`protocol.c`, the preview of `renderer.c`)

`int` and `int32_t` have one range here, so only the conversions through `uint32_t`
are written out. `next_type` is neither set nor read and left out.
-/
namespace CoreStack.Tetris

def Rotation.code : Rotation → ℕ
  | .rot0 => 0
  | .rot1 => 1
  | .rot2 => 2
  | .rot3 => 3

def Rotation.ofCode : ℕ → Option Rotation
  | 0 => some .rot0
  | 1 => some .rot1
  | 2 => some .rot2
  | 3 => some .rot3
  | _ => none

def TargetingMode.code : TargetingMode → ℕ
  | .manual => 0
  | .random => 1
  | .ko => 2

def TargetingMode.ofCode : ℕ → Option TargetingMode
  | 0 => some .manual
  | 1 => some .random
  | 2 => some .ko
  | _ => none

structure StatePayload where
  board : Board
  currentType : ℕ
  currentRot : ℕ
  currentX : ℤ
  currentY : ℤ
  preview : List ℕ
  heldType : ℤ
  hasHeld : ℕ
  playerId : ℕ
  score : ℕ
  level : ℕ
  linesCleared : ℕ
  combo : ℤ
  b2b : ℕ
  tSpins : ℕ
  tetrises : ℕ
  pendingGarbage : ℕ
  targetPlayerId : ℕ
  targetMode : ℕ
  gameOver : ℕ
  winnerId : ℕ

def buildStatePayload (s : GameState) : StatePayload where
  board := s.board
  currentType := toU32 s.current.type
  currentRot := s.current.rot.code
  currentX := s.current.x
  currentY := s.current.y
  preview := (List.range 3).map fun i => toU32 (s.bag.getD ((s.bagIndex + i) % 14) 0 : ℕ)
  heldType := s.heldType
  hasHeld := s.hasHeld.toNat
  playerId := s.playerId
  score := toU32 s.score
  level := toU32 s.level
  linesCleared := toU32 s.linesCleared
  combo := s.combo
  b2b := s.b2b.toNat
  tSpins := toU32 s.tSpins
  tetrises := toU32 s.tetrises
  pendingGarbage := s.pendingGarbage
  targetPlayerId := s.targetPlayerId
  targetMode := s.targetMode.code
  gameOver := s.gameOver.toNat
  winnerId := s.winnerId

/-- The first three of the fourteen bag slots are overwritten. A number outside an
enumeration has no counterpart in the state. -/
def applyStatePayload (payload : StatePayload) (s : GameState) : Option GameState :=
  (Rotation.ofCode payload.currentRot).bind fun rot =>
  (TargetingMode.ofCode payload.targetMode).map fun mode =>
    { s with
      board := payload.board
      current := ⟨(toI32 payload.currentType).toNat,rot,payload.currentX,payload.currentY⟩
      bagIndex := 0
      bag := payload.preview.map (fun n => (toI32 n).toNat) ++ s.bag.drop 3
      heldType := payload.heldType.toNat
      hasHeld := payload.hasHeld != 0
      playerId := payload.playerId
      score := toI32 payload.score
      level := toI32 payload.level
      linesCleared := toI32 payload.linesCleared
      combo := payload.combo
      b2b := payload.b2b != 0
      tSpins := toI32 payload.tSpins
      tetrises := toI32 payload.tetrises
      pendingGarbage := payload.pendingGarbage
      targetPlayerId := payload.targetPlayerId
      targetMode := mode
      gameOver := payload.gameOver != 0
      winnerId := payload.winnerId }

/-- The three types `draw_board` shows under NEXT. -/
def drawBoardNext (s : GameState) : List ℕ :=
  [s.bag.getD s.bagIndex 0, s.bag.getD ((s.bagIndex + 1) % 14) 0, s.bag.getD ((s.bagIndex + 2) % 14) 0]

/-! ## The round trip -/

/-- A value of the C type `int`. -/
def IsInt (z : ℤ) : Prop := -2147483648 ≤ z ∧ z < 2147483648

/-- The counters are `int`s in the program; the model keeps them as integers. -/
structure GameState.IntSized (s : GameState) : Prop where
  score : IsInt s.score
  level : IsInt s.level
  linesCleared : IsInt s.linesCleared
  tSpins : IsInt s.tSpins
  tetrises : IsInt s.tetrises

instance (z : ℤ) : Decidable (IsInt z) := inferInstanceAs (Decidable (_ ∧ _))

instance (s : GameState) : Decidable s.IntSized :=
  decidable_of_iff (IsInt s.score ∧ IsInt s.level ∧ IsInt s.linesCleared ∧ IsInt s.tSpins ∧ IsInt s.tetrises)
    ⟨fun ⟨hs,hl,hc,ht,he⟩ => ⟨hs,hl,hc,ht,he⟩,fun h => ⟨h.score,h.level,h.linesCleared,h.tSpins,h.tetrises⟩⟩
theorem toI32_toU32 {z : ℤ} (h : IsInt z) : toI32 (toU32 z) = z := by
  unfold IsInt at h
  unfold toI32 toU32
  split <;> omega

theorem toNat_toI32_toU32 {n : ℕ} (h : n ≤ 7) : (toI32 (toU32 n)).toNat = n := by
  rw [toI32_toU32 (by unfold IsInt; omega)]
  exact Int.toNat_natCast n

@[simp] theorem Rotation.ofCode_code (r : Rotation) : Rotation.ofCode r.code = some r := by
  cases r <;> rfl

@[simp] theorem TargetingMode.ofCode_code (m : TargetingMode) : TargetingMode.ofCode m.code = some m := by
  cases m <;> rfl

@[simp] theorem toNat_bne_zero (b : Bool) : (b.toNat != 0) = b := by
  cases b <;> rfl

/-- Two states agree on everything the renderer reads beside the bag. -/
structure Mirrors (server mirror : GameState) : Prop where
  board : mirror.board = server.board
  current : mirror.current = server.current
  heldType : mirror.heldType = server.heldType
  hasHeld : mirror.hasHeld = server.hasHeld
  playerId : mirror.playerId = server.playerId
  score : mirror.score = server.score
  level : mirror.level = server.level
  linesCleared : mirror.linesCleared = server.linesCleared
  combo : mirror.combo = server.combo
  b2b : mirror.b2b = server.b2b
  tSpins : mirror.tSpins = server.tSpins
  tetrises : mirror.tetrises = server.tetrises
  pendingGarbage : mirror.pendingGarbage = server.pendingGarbage
  targetPlayerId : mirror.targetPlayerId = server.targetPlayerId
  targetMode : mirror.targetMode = server.targetMode
  gameOver : mirror.gameOver = server.gameOver
  winnerId : mirror.winnerId = server.winnerId

/-- The look-ahead of three stays inside the window, so the modulus does nothing. -/
theorem preview_eq {s : GameState} (hw : s.Window) :
    ((List.range 3).map fun i => s.bag.getD ((s.bagIndex + i) % 14) 0) = s.upcoming.take 3 := by
  have hl := hw.length
  have hi := hw.index
  apply List.ext_getElem
  · simp [GameState.upcoming,hl]
    omega
  · intro i h1 h2
    have hi3 : i < 3 := by simpa using h1
    have hm : (s.bagIndex + i) % 14 = s.bagIndex + i := Nat.mod_eq_of_lt (by omega)
    have hb : s.bagIndex + i < s.bag.length := by omega
    simp [GameState.upcoming,hm,hb]

theorem applyStatePayload_build {s : GameState} (hi : s.IntSized) (ht : s.current.type ≤ 7) (client : GameState) :
    ∃ mirror, applyStatePayload (buildStatePayload s) client = some mirror ∧ Mirrors s mirror ∧
      mirror.bagIndex = 0 ∧
      mirror.bag = (buildStatePayload s).preview.map (fun n => (toI32 n).toNat) ++ client.bag.drop 3 := by
  have hr : Rotation.ofCode (buildStatePayload s).currentRot = some s.current.rot := Rotation.ofCode_code _
  have hm : TargetingMode.ofCode (buildStatePayload s).targetMode = some s.targetMode := TargetingMode.ofCode_code _
  unfold applyStatePayload
  rw [hr,hm,Option.bind_some,Option.map_some]
  refine ⟨_,rfl,?_,rfl,rfl⟩
  constructor <;> dsimp only [buildStatePayload]
  · rw [toNat_toI32_toU32 ht]
  · exact Int.toNat_natCast _
  · exact toNat_bne_zero _
  · exact toI32_toU32 hi.score
  · exact toI32_toU32 hi.level
  · exact toI32_toU32 hi.linesCleared
  · exact toNat_bne_zero _
  · exact toI32_toU32 hi.tSpins
  · exact toI32_toU32 hi.tetrises
  · exact toNat_bne_zero _

theorem preview_roundtrip {s : GameState} (hw : s.Window) (hb : ∀ t ∈ s.upcoming, t ∈ newBag) :
    (buildStatePayload s).preview.map (fun n => (toI32 n).toNat) = s.upcoming.take 3 := by
  rw [← preview_eq hw]
  dsimp only [buildStatePayload]
  rw [List.map_map]
  apply List.map_congr_left
  intro i hi
  have hm : s.bag.getD ((s.bagIndex + i) % 14) 0 ∈ s.upcoming.take 3 := by
    rw [← preview_eq hw]
    exact List.mem_map.mpr ⟨i,hi,rfl⟩
  exact toNat_toI32_toU32 (mem_newBag _ (hb _ (List.mem_of_mem_take hm))).2

theorem drawBoardNext_rebased {mirror : GameState} {types rest : List ℕ} (hl : types.length = 3)
    (hi : mirror.bagIndex = 0) (hb : mirror.bag = types ++ rest) : drawBoardNext mirror = types := by
  obtain ⟨a,b,c,rfl⟩ := List.length_eq_three.mp hl
  simp [drawBoardNext,hi,hb]

end CoreStack.Tetris
