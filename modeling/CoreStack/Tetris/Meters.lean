import CoreStack.Tetris.Targeting

/-! # The two garbage meters

Only a lock and `queue_garbage` touch `pending_garbage` and `outgoing_garbage`.
Each operation gets one statement about both meters at once; the bounds keep
every conversion between `int` and `uint32_t` exact.
-/
namespace CoreStack.Tetris

def GameState.meters (s : GameState) : ℕ × ℕ := (s.pendingGarbage,s.outgoingGarbage)

@[simp] theorem testRotate_meters (s : GameState) (r : Rotation) : (testRotate s r).1.meters = s.meters := by
  unfold testRotate
  dsimp only
  split <;> rfl

@[simp] theorem rotateCurrentPiece_meters (s : GameState) : (rotateCurrentPiece s).meters = s.meters :=
  testRotate_meters s _

@[simp] theorem rotateCounterClockwise_meters (s : GameState) :
    (rotateCounterClockwise s).meters = s.meters := testRotate_meters s _

@[simp] theorem moveLeft_meters (s : GameState) : (moveLeft s).1.meters = s.meters := by
  unfold moveLeft
  split <;> rfl

@[simp] theorem moveRight_meters (s : GameState) : (moveRight s).1.meters = s.meters := by
  unfold moveRight
  split <;> rfl

@[simp] theorem softDrop_meters (s : GameState) : (softDrop s).1.meters = s.meters := by
  unfold softDrop
  split <;> rfl

theorem hardDropLoop_meters (fuel : ℕ) (s : GameState) : (hardDropLoop fuel s).meters = s.meters := by
  induction fuel generalizing s with
  | zero => rfl
  | succ fuel ih =>
    unfold hardDropLoop
    split
    · rw [ih]; rfl
    · rfl

@[simp] theorem hardDrop_meters (s : GameState) : (hardDrop s).meters = s.meters :=
  hardDropLoop_meters _ s

@[simp] theorem spawnNewPiece_meters (rand : ℕ → ℕ) (s : GameState) :
    (spawnNewPiece rand s).meters = s.meters := by
  unfold spawnNewPiece
  dsimp only
  split <;> rfl

@[simp] theorem holdPiece_meters (rand : ℕ → ℕ) (s : GameState) : (holdPiece rand s).meters = s.meters := by
  unfold holdPiece
  split
  · rfl
  · dsimp only
    split
    · exact spawnNewPiece_meters rand { s with heldType := s.current.type }
    · rfl

@[simp] theorem cycleManualTarget_meters (s : GameState) (r : Roster) :
    (cycleManualTarget s r).meters = s.meters := by
  unfold cycleManualTarget
  split
  · rfl
  · split <;> rfl

theorem clearLines_meters (s : GameState) : (clearLines s).1.meters = s.meters := by
  unfold clearLines
  dsimp only
  split <;> rfl

theorem calculateGarbage_meters (s : GameState) (n : ℕ) (t : Bool) :
    (calculateGarbage s n t).1.meters = s.meters := by
  unfold calculateGarbage
  split <;> rfl

theorem addGarbage_meters (rand : ℕ → ℕ) (s : GameState) (lines : ℤ) :
    (addGarbage rand s lines).meters = s.meters := by
  unfold addGarbage
  split <;> rfl

/-- More lines than one scan of the board can clear, doubled, plus the bonuses. -/
abbrev maxDamage : ℕ := 86

structure GameState.Metered (s : GameState) : Prop where
  pending : s.pendingGarbage ≤ boardHeight
  outgoing : s.outgoingGarbage ≤ maxDamage

theorem GameState.Metered.congr {s t : GameState} (h : s.Metered) (he : t.meters = s.meters) : t.Metered := by
  have hp : t.pendingGarbage = s.pendingGarbage := congrArg Prod.fst he
  have ho : t.outgoingGarbage = s.outgoingGarbage := congrArg Prod.snd he
  exact ⟨hp ▸ h.pending,ho ▸ h.outgoing⟩

theorem startGame_meters (rand : ℕ → ℕ) : (startGame rand).meters = (0,0) :=
  spawnNewPiece_meters _ (freshState rand)

theorem startGame_metered (rand : ℕ → ℕ) : (startGame rand).Metered := by
  have h : (freshState rand).Metered := ⟨Nat.zero_le _,Nat.zero_le _⟩
  exact h.congr (startGame_meters rand)

theorem queueGarbage_outgoing (s : GameState) (lines : ℤ) :
    (queueGarbage s lines).outgoingGarbage = s.outgoingGarbage := by
  unfold queueGarbage
  split <;> rfl

theorem queueGarbage_metered {s : GameState} (h : s.Metered) (lines : ℤ) : (queueGarbage s lines).Metered := by
  refine ⟨queueGarbage_pending_le s lines h.pending,?_⟩
  rw [queueGarbage_outgoing]
  exact h.outgoing

theorem cancelGarbage_eq {damage : ℤ} {pending : ℕ} (hd : 0 ≤ damage) (hm : damage ≤ maxDamage)
    (hp : pending ≤ boardHeight) :
    (cancelGarbage damage pending).1 = damage - min damage pending ∧
    ((cancelGarbage damage pending).2 : ℤ) = pending - min damage pending := by
  dsimp only [maxDamage,boardHeight] at hm hp
  have hi : toI32 pending = pending := toI32_of_lt (by omega)
  have hu : damage ≤ pending → (toU32 (pending - damage) : ℤ) = pending - damage := fun h =>
    toU32_of_nonneg (by omega) (by omega)
  unfold cancelGarbage
  rw [hi]
  split_ifs <;> dsimp only <;> omega

/-- The damage `calculate_garbage` returns to `tick_game` when the piece locks. -/
def attack (s : GameState) : ℤ :=
  let tspin := checkTSpin s
  let s := if tspin then { s with tSpins := s.tSpins + 1 } else s
  let s := lockPiece s
  let s := { s with piecesPlaced := s.piecesPlaced + 1 }
  let r := clearLines s
  let s := if r.2 = 4 then { r.1 with tetrises := r.1.tetrises + 1 } else r.1
  (calculateGarbage s r.2 tspin).2

theorem resolveLock_cancels (s : GameState) :
    (resolveLock s).damage = (cancelGarbage (attack s) s.pendingGarbage).1 ∧
    (resolveLock s).state.pendingGarbage = (cancelGarbage (attack s) s.pendingGarbage).2 := by
  unfold resolveLock attack
  dsimp only
  generalize ht : (if checkTSpin s = true then { s with tSpins := s.tSpins + 1 } else s : GameState) = s0
  have h0 : s0.meters = s.meters := by
    rw [← ht]
    split <;> rfl
  generalize hs1 : lockPiece s0 = s1
  have h1 : s1.meters = s.meters := by rw [← h0,← hs1]; rfl
  generalize hs2 : ({ s1 with piecesPlaced := s1.piecesPlaced + 1 } : GameState) = s2
  have h2 : s2.meters = s.meters := by rw [← h1,← hs2]; rfl
  have hc := clearLines_meters s2
  generalize clearLines s2 = r at hc
  generalize hs3 : (if r.2 = 4 then { r.1 with tetrises := r.1.tetrises + 1 } else r.1 : GameState) = s3
  have h3 : s3.meters = s.meters := by
    rw [← h2,← hc,← hs3]
    split <;> rfl
  have hg := calculateGarbage_meters s3 r.2 (checkTSpin s)
  generalize calculateGarbage s3 r.2 (checkTSpin s) = g at hg
  have hp : g.1.pendingGarbage = s.pendingGarbage := congrArg Prod.fst (hg.trans h3)
  rw [hp]
  exact ⟨rfl,rfl⟩

theorem resolveLock_cleared_le (s : GameState) : (resolveLock s).cleared ≤ 2 * boardHeight := clearLines_count_le _

theorem attack_bounds (s : GameState) : 0 ≤ attack s ∧ attack s ≤ 2 * (resolveLock s).cleared + 6 :=
  calculateGarbage_bounds _ _ _

theorem attack_le (s : GameState) : attack s ≤ maxDamage := by
  have hb := (attack_bounds s).2
  have hc := resolveLock_cleared_le s
  dsimp only [maxDamage,boardHeight] at *
  omega

theorem resolveLock_damage (s : GameState) (h : s.pendingGarbage ≤ boardHeight) :
    0 ≤ (resolveLock s).damage ∧ (resolveLock s).damage ≤ maxDamage ∧
    (resolveLock s).state.pendingGarbage ≤ s.pendingGarbage := by
  have h0 := (attack_bounds s).1
  have hm := attack_le s
  obtain ⟨hd,hp⟩ := resolveLock_cancels s
  have he := cancelGarbage_eq h0 hm h
  rw [hd,hp]
  dsimp only [maxDamage,boardHeight] at *
  omega

theorem settleGarbage_meters (rand : ℕ → ℕ) (o : LockOutcome) :
    (settleGarbage rand o).outgoingGarbage = toU32 o.damage ∧
    (settleGarbage rand o).pendingGarbage ≤ o.state.pendingGarbage := by
  unfold settleGarbage
  dsimp only
  split
  · have h := addGarbage_meters rand { o.state with outgoingGarbage := toU32 o.damage }
      (toI32 o.state.pendingGarbage)
    exact ⟨congrArg Prod.snd h,Nat.zero_le _⟩
  · exact ⟨rfl,le_rfl⟩

/-- What a lock leaves over replaces the outgoing meter; without a lock it stays. -/
def published (old : ℕ) : Option ℤ → ℕ
  | some d => toU32 d
  | none => old

/-- After a lock only the settled garbage decides the meters. -/
theorem tickGame_meters_lock (rand : ℕ → ℕ) {s : GameState} (hf : ¬canFall s = true) (hy : ¬s.current.y < 0) :
    (tickGame rand s).1.meters = (settleGarbage rand (resolveLock s)).meters := by
  unfold tickGame
  rw [if_neg hf,if_neg hy]
  dsimp only
  rw [← spawnNewPiece_meters (fun i => rand (i + boardHeight)) (settleGarbage rand (resolveLock s))]
  generalize spawnNewPiece _ _ = t
  split <;> rfl

theorem tickGame_outgoing (rand : ℕ → ℕ) (s : GameState) :
    (tickGame rand s).1.outgoingGarbage = published s.outgoingGarbage (tickLock s) := by
  unfold tickLock
  by_cases hf : canFall s = true
  · simp [tickGame,hf,published]
  · by_cases hy : s.current.y < 0
    · simp [tickGame,hf,hy,published]
    · rw [if_neg hf,if_neg hy]
      have h := congrArg Prod.snd (tickGame_meters_lock rand hf hy)
      exact h.trans (settleGarbage_meters rand (resolveLock s)).1

theorem tickGame_pending_le (rand : ℕ → ℕ) {s : GameState} (hp : s.pendingGarbage ≤ boardHeight) :
    (tickGame rand s).1.pendingGarbage ≤ s.pendingGarbage := by
  by_cases hf : canFall s = true
  · simp [tickGame,hf]
  · by_cases hy : s.current.y < 0
    · simp [tickGame,hf,hy]
    · have h : (tickGame rand s).1.pendingGarbage = (settleGarbage rand (resolveLock s)).pendingGarbage :=
        congrArg Prod.fst (tickGame_meters_lock rand hf hy)
      rw [h]
      exact (settleGarbage_meters rand (resolveLock s)).2.trans (resolveLock_damage s hp).2.2

theorem tickLock_bounds {s : GameState} (hp : s.pendingGarbage ≤ boardHeight) {d : ℤ}
    (h : tickLock s = some d) : 0 ≤ d ∧ d ≤ maxDamage := by
  unfold tickLock at h
  split at h
  · cases h
  · split at h
    · cases h
    · cases h
      have hr := resolveLock_damage s hp
      exact ⟨hr.1,hr.2.1⟩

theorem tickGame_metered (rand : ℕ → ℕ) {s : GameState} (h : s.Metered) : (tickGame rand s).1.Metered := by
  refine ⟨(tickGame_pending_le rand h.pending).trans h.pending,?_⟩
  rw [tickGame_outgoing]
  cases hl : tickLock s with
  | none => exact h.outgoing
  | some d =>
    have hb := tickLock_bounds h.pending hl
    have hu := toU32_of_nonneg hb.1 (by dsimp only [maxDamage] at hb; omega)
    dsimp only [published]
    dsimp only [maxDamage] at *
    omega

/-- The gravity branch only falls; the delay branch locks the state it was called on. -/
theorem updateTimers_outgoing (rand : ℕ → ℕ) (s : GameState) :
    (updateTimers rand s).1.outgoingGarbage = published s.outgoingGarbage (timersLock s) := by
  unfold updateTimers timersLock
  cases hf : canFall s with
  | true =>
    simp only [↓reduceIte,Bool.not_true,Bool.false_eq_true,false_and]
    split
    · have h := tickGame_outgoing rand { s with lockTimer := 0, gravityTimer := s.gravityTimer + 1 }
      have hn : tickLock { s with lockTimer := 0, gravityTimer := s.gravityTimer + 1 } = none := by
        unfold tickLock
        exact if_pos hf
      rw [hn] at h
      exact h
    · rfl
  | false =>
    simp only [Bool.false_eq_true,↓reduceIte,Bool.not_false,true_and]
    split
    · exact tickGame_outgoing rand { s with lockTimer := s.lockTimer + 1 }
    · rfl

theorem updateTimers_metered (rand : ℕ → ℕ) {s : GameState} (h : s.Metered) :
    (updateTimers rand s).1.Metered := by
  have hs : ∀ a b, ({ s with lockTimer := a, gravityTimer := b } : GameState).Metered := fun _ _ => h.congr rfl
  unfold updateTimers
  split <;> dsimp only <;> split
  · exact (tickGame_metered rand (hs _ _)).congr rfl
  · exact hs _ _
  · exact (tickGame_metered rand (hs _ _)).congr rfl
  · exact hs _ _

end CoreStack.Tetris
