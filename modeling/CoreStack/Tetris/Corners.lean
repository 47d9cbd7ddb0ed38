import CoreStack.Tetris.Lines

/-! # The corners of a T

`check_t_spin` looks at the corners of the upper left three by three cells of the box.
Only in one of the four rotations is their middle the block the other three touch.
-/
namespace CoreStack.Tetris

def touches (c d : ℕ × ℕ) : Bool :=
  c.1 == d.1 && (c.2 + 1 == d.2 || d.2 + 1 == c.2) || c.2 == d.2 && (c.1 + 1 == d.1 || d.1 + 1 == c.1)

/-- The block of the rotated T that the other three blocks touch. -/
def IsCentre (rot : Rotation) (c : ℕ × ℕ) : Prop :=
  c ∈ solidCells 3 rot ∧ ∀ d ∈ solidCells 3 rot, d ≠ c → touches c d = true

def centre : Rotation → ℕ × ℕ
  | .rot0 => (1,2)
  | .rot1 => (1,1)
  | .rot2 => (2,1)
  | .rot3 => (2,2)

theorem isCentre_iff (rot : Rotation) (c : ℕ × ℕ) : IsCentre rot c ↔ c = centre rot := by
  have hcentre : IsCentre rot (centre rot) := by
    unfold IsCentre
    cases rot <;> decide
  have hunique : ∀ c ∈ solidCells 3 rot, (∀ d ∈ solidCells 3 rot, d ≠ c → touches c d = true) → c = centre rot := by
    cases rot <;> decide
  exact ⟨fun h => hunique c h.1 h.2,fun h => h ▸ hcentre⟩

def blockedAt (b : Board) (x y : ℤ) (cells : List (ℤ × ℤ)) : ℕ :=
  cells.countP fun o => cornerBlocked b (x + o.1) (y + o.2)

/-- The cells `check_t_spin` looks at, counted from the corner of the box. -/
def testedCells : List (ℤ × ℤ) := [(0,0), (2,0), (0,2), (2,2)]

/-- The cells diagonal to the centre block, counted from the corner of the box. -/
def ownCorners : Rotation → List (ℤ × ℤ)
  | .rot0 => [(0,1), (2,1), (0,3), (2,3)]
  | .rot1 => [(0,0), (2,0), (0,2), (2,2)]
  | .rot2 => [(1,0), (3,0), (1,2), (3,2)]
  | .rot3 => [(1,1), (3,1), (1,3), (3,3)]

theorem blockedAt_shift (b : Board) (x y dx dy : ℤ) (cells : List (ℤ × ℤ)) :
    blockedAt b (x + dx) (y + dy) cells = blockedAt b x y (cells.map fun o => (dx + o.1,dy + o.2)) := by
  unfold blockedAt
  rw [List.countP_map]
  refine List.countP_congr fun o _ => ?_
  rw [Function.comp_apply,add_assoc,add_assoc]

theorem ownCorners_eq (rot : Rotation) :
    cornerOffsets.map (fun o => (((centre rot).1 : ℤ) + o.1,((centre rot).2 : ℤ) + o.2)) = ownCorners rot := by
  cases rot <;> decide

/-- At least three of the cells diagonal to the centre block count as corners. -/
def Cornered (s : GameState) : Prop :=
  ∀ c, IsCentre s.current.rot c → 3 ≤ blockedAt s.board (s.current.x + c.1) (s.current.y + c.2) cornerOffsets

theorem cornered_iff (s : GameState) :
    Cornered s ↔ 3 ≤ blockedAt s.board s.current.x s.current.y (ownCorners s.current.rot) := by
  have he : ∀ c, c = centre s.current.rot →
      blockedAt s.board (s.current.x + c.1) (s.current.y + c.2) cornerOffsets =
        blockedAt s.board s.current.x s.current.y (ownCorners s.current.rot) := by
    rintro c rfl
    rw [blockedAt_shift,ownCorners_eq]
  constructor
  · intro h
    rw [← he _ rfl]
    exact h _ ((isCentre_iff _ _).mpr rfl)
  · intro h c hc
    rw [he c ((isCentre_iff _ _).mp hc)]
    exact h

theorem checkTSpin_iff {s : GameState} (ht : s.current.type = 3) (hf : s.lastActionRotation = true) :
    checkTSpin s = true ↔ 3 ≤ blockedAt s.board s.current.x s.current.y testedCells := by
  have he : blockedAt s.board (s.current.x + 1) (s.current.y + 1) cornerOffsets =
      blockedAt s.board s.current.x s.current.y testedCells := by
    rw [blockedAt_shift]
    rfl
  rw [← he]
  unfold checkTSpin blockedAt
  simp [ht,hf]

def turnedT (rot : Rotation) (x y : ℤ) : GameState :=
  { freshState fun _ => 0 with current := ⟨3,rot,x,y⟩, lastActionRotation := true }

/-- Above the top edge every other rotation is credited with corners it does not have. -/
theorem turnedT_miscounted : ∀ rot : Rotation, rot ≠ .rot1 → ∃ x y,
    3 ≤ blockedAt .empty x y testedCells ∧ ¬3 ≤ blockedAt .empty x y (ownCorners rot) := by
  intro rot hr
  cases rot with
  | rot0 => exact ⟨0,-3,by decide,by decide⟩
  | rot1 => exact absurd rfl hr
  | rot2 => exact ⟨-1,-1,by decide,by decide⟩
  | rot3 => exact ⟨-1,-1,by decide,by decide⟩

/-- The test counts a T's own corners on every board and at every position in one
rotation only. In the others it gives the right answer where the cells it looks at and
the T's own corners are both three times blocked, or both not. -/
theorem checkTSpin_own_corners (rot : Rotation) :
    ((∀ s : GameState, s.current.type = 3 → s.lastActionRotation = true → s.current.rot = rot →
      (checkTSpin s = true ↔ Cornered s)) ↔ rot = .rot1) ∧
    ∀ s : GameState, s.current.type = 3 → s.lastActionRotation = true → s.current.rot = rot →
      ((checkTSpin s = true ↔ Cornered s) ↔
        (rot = .rot1 ∨ (3 ≤ blockedAt s.board s.current.x s.current.y testedCells ↔
          3 ≤ blockedAt s.board s.current.x s.current.y (ownCorners rot)))) := by
  have hiff : ∀ s : GameState, s.current.type = 3 → s.lastActionRotation = true → s.current.rot = rot →
      ((checkTSpin s = true ↔ Cornered s) ↔
        (rot = .rot1 ∨ (3 ≤ blockedAt s.board s.current.x s.current.y testedCells ↔
          3 ≤ blockedAt s.board s.current.x s.current.y (ownCorners rot)))) := by
    rintro s ht hf rfl
    rw [checkTSpin_iff ht hf,cornered_iff]
    refine ⟨.inr,?_⟩
    rintro (h | h)
    · rw [h]
      rfl
    · exact h
  refine ⟨⟨?_,?_⟩,hiff⟩
  · intro h
    by_contra hr
    obtain ⟨x,y,htested,hown⟩ := turnedT_miscounted rot hr
    rcases (hiff (turnedT rot x y) rfl rfl rfl).mp (h _ rfl rfl rfl) with he | he
    · exact hr he
    · exact hown (he.mp htested)
  · rintro hr s ht hf hs
    exact (hiff s ht hf hs).mpr (.inl hr)

theorem checkTSpin_own_corners_right :
    checkTSpin (turnedT .rot1 0 (-3)) = true ↔ Cornered (turnedT .rot1 0 (-3)) :=
  (checkTSpin_own_corners .rot1).1.mpr rfl _ rfl rfl rfl

theorem cornerBlocked_under {s : GameState} (h : legal s = true) (hy : 0 ≤ s.current.y) {c : ℕ × ℕ}
    (hc : c ∈ solidCells s.current.type s.current.rot) :
    cornerBlocked s.board (s.current.x + c.1) (s.current.y + c.2) = false := by
  obtain ⟨h1,h2,h3,h4⟩ := cellFits_bounds (fits_of_legal h hc)
  have hc0 : 0 ≤ s.current.y + c.2 := by omega
  simp only [cornerBlocked,Bool.or_eq_false_iff,decide_eq_false_iff_not,bne_eq_false_iff_eq]
  exact ⟨⟨⟨⟨by omega,by omega⟩,by omega⟩,by omega⟩,h4 hc0⟩

/-- A T that points up on the board is never credited: it covers two tested cells itself. -/
theorem checkTSpin_pointing_up {s : GameState} (ht : s.current.type = 3) (hr : s.current.rot = .rot0)
    (h : legal s = true) (hy : 0 ≤ s.current.y) : checkTSpin s = false := by
  have hleft := cornerBlocked_under h hy (c := (0,2)) (by rw [ht,hr]; decide)
  have hright := cornerBlocked_under h hy (c := (2,2)) (by rw [ht,hr]; decide)
  cases hf : s.lastActionRotation with
  | false => simp [checkTSpin,hf]
  | true =>
    rw [Bool.eq_false_iff]
    intro hs
    have hcount := (checkTSpin_iff ht hf).mp hs
    simp only [blockedAt,testedCells,List.countP_cons,List.countP_nil] at hcount
    have hleft : cornerBlocked s.board (s.current.x + 0) (s.current.y + 2) = false := hleft
    have hright : cornerBlocked s.board (s.current.x + 2) (s.current.y + 2) = false := hright
    have hone : ∀ b : Bool, (if b = true then 1 else 0) ≤ 1 := by decide
    have htop := hone (cornerBlocked s.board (s.current.x + 0) (s.current.y + 0))
    have htop' := hone (cornerBlocked s.board (s.current.x + 2) (s.current.y + 0))
    simp only [hleft,hright,Bool.false_eq_true,↓reduceIte] at hcount
    omega

/-- A T that points up stands in a corner of the floor: two of its own corners are
below the floor and one is filled, and the test sees none of them. -/
theorem checkTSpin_misses_corners :
    ∃ s : GameState, s.current = ⟨3,.rot0,0,17⟩ ∧ s.lastActionRotation = true ∧ legal s = true ∧
      canFall s = false ∧ Cornered s ∧ checkTSpin s = false := by
  refine ⟨{ turnedT .rot0 0 17 with board := ⟨fun y x => if y.val = 18 ∧ x.val = 0 then 8 else 0⟩ },
    rfl,rfl,by decide +kernel,by decide +kernel,?_,by decide +kernel⟩
  rw [cornered_iff]
  decide +kernel

end CoreStack.Tetris
