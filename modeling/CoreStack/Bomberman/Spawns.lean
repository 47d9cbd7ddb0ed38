import CoreStack.Bomberman.Arena
import Mathlib.Data.Nat.ModEq
import Mathlib.Data.List.Nodup

/-! # Where the players start

The corners come first, the other players stand in the middle of equal parts of strips.
There is room enough that no two of them stand side by side, so the free cross around
one spawn never takes the mark of another away.
-/
namespace CoreStack.Bomberman

/-- Two tiles are neither the same nor side by side. -/
def Apart (p q : ℕ × ℕ) : Prop :=
  p ≠ q ∧ ¬(p.1 = q.1 ∧ (p.2 + 1 = q.2 ∨ q.2 + 1 = p.2)) ∧ ¬(p.2 = q.2 ∧ (p.1 + 1 = q.1 ∨ q.1 + 1 = p.1))

theorem apart_of_rows {p q : ℕ × ℕ} (h : p.1 + 2 ≤ q.1) : Apart p q :=
  ⟨by rintro rfl; omega,by omega,by omega⟩

theorem apart_of_cols {p q : ℕ × ℕ} (h : p.2 + 2 ≤ q.2) : Apart p q :=
  ⟨by rintro rfl; omega,by omega,by omega⟩

/-! ## The middles of equal parts -/

/-- The middle of the `s`-th of `n` parts, as rows and columns are computed. -/
def middle (inner n s : ℕ) : ℕ := (s * inner / n + (s + 1) * inner / n - 1) / 2

theorem part_ge {inner n c : ℕ} (hn : 0 < n) (h : c * n ≤ inner) (s : ℕ) :
    s * inner / n + c ≤ (s + 1) * inner / n := by
  have hc : c ≤ inner / n := (Nat.le_div_iff_mul_le hn).mpr h
  calc
    s * inner / n + c ≤ s * inner / n + inner / n := Nat.add_le_add_left hc _
    _ ≤ (s * inner + inner) / n := Nat.div_add_div_le_add_div
    _ = (s + 1) * inner / n := by rw [Nat.succ_mul]

/-- Parts of two tiles and more have middles two tiles apart. -/
theorem middle_gap {inner n : ℕ} (hn : 0 < n) (h : 2 * n ≤ inner) (s : ℕ) :
    middle inner n s + 2 ≤ middle inner n (s + 1) := by
  have hfirst := part_ge hn h s
  have hsecond := part_ge hn h (s + 1)
  unfold middle
  generalize s * inner / n = y0 at *
  generalize (s + 1) * inner / n = y1 at *
  generalize (s + 1 + 1) * inner / n = y2 at *
  omega

theorem middle_lt {inner n : ℕ} (hn : 0 < n) (h : 2 * n ≤ inner) {s t : ℕ} (hst : s < t) :
    middle inner n s + 2 ≤ middle inner n t := by
  induction t with
  | zero => exact absurd hst (Nat.not_lt_zero s)
  | succ t ih =>
    have hgap := middle_gap hn h t
    rcases Nat.lt_succ_iff_lt_or_eq.mp hst with hlt | rfl
    · have hle := ih hlt
      omega
    · exact hgap

/-! ## Shares -/

theorem share_le {left n c : ℕ} (h : left ≤ (n + 1) * c) : (left + n) / (n + 1) ≤ c := by
  refine Nat.le_of_lt_succ ((Nat.div_lt_iff_lt_mul (Nat.succ_pos n)).mpr ?_)
  calc
    left + n < (n + 1) * c + (n + 1) := by omega
    _ = (c + 1) * (n + 1) := by ring

theorem le_share (left n : ℕ) : left ≤ (left + n) / (n + 1) * (n + 1) := by
  have hdiv := Nat.div_add_mod (left + n) (n + 1)
  have hmod : (left + n) % (n + 1) < n + 1 := Nat.mod_lt _ (Nat.succ_pos n)
  rw [Nat.mul_comm]
  omega

theorem share_rest {left n c : ℕ} (h : left ≤ (n + 1) * c) : left - (left + n) / (n + 1) ≤ n * c := by
  have hle := share_le h
  have hge := le_share left n
  have hmul : n * ((left + n) / (n + 1)) ≤ n * c := Nat.mul_le_mul_left n hle
  rw [Nat.mul_succ,Nat.mul_comm] at hge
  omega

theorem share_le_left (left n : ℕ) : (left + n) / (n + 1) ≤ left := by
  refine share_le ?_
  rw [Nat.succ_mul]
  omega

/-! ## Strips -/

theorem stripSpawns_length (inner row n : ℕ) : (stripSpawns inner row n).length = n := by
  unfold stripSpawns
  rw [List.length_map,List.length_range]

theorem stripSpawns_apart {inner n : ℕ} (row : ℕ) (h : 2 * n ≤ inner) : (stripSpawns inner row n).Pairwise Apart := by
  unfold stripSpawns
  rw [List.pairwise_map]
  refine List.Pairwise.imp_of_mem ?_ List.pairwise_lt_range
  intro i j _ hj hij
  have hn : 0 < n := Nat.zero_lt_of_lt (List.mem_range.mp hj)
  have hgap := middle_lt hn h hij
  refine apart_of_cols ?_
  change 2 + middle inner n i + 2 ≤ 2 + middle inner n j
  omega

theorem stripSpawns_row {inner row n : ℕ} {p : ℕ × ℕ} (hp : p ∈ stripSpawns inner row n) : p.1 = row := by
  obtain ⟨i,-,rfl⟩ := List.mem_map.mp hp
  rfl

theorem strips_length (inner numStrips playersLeft stripsLeft : ℕ) (h : 0 < stripsLeft ∨ playersLeft = 0) :
    (strips inner numStrips playersLeft stripsLeft).length = playersLeft := by
  induction stripsLeft generalizing playersLeft with
  | zero =>
    have h0 : playersLeft = 0 := by omega
    rw [h0]
    rfl
  | succ n ih =>
    rw [strips]
    split
    · next h0 => exact h0.symm
    · next h0 =>
      have hle := share_le_left playersLeft n
      have hrest : 0 < n ∨ playersLeft - (playersLeft + n) / (n + 1) = 0 := by
        rcases Nat.eq_zero_or_pos n with rfl | hpos
        · right
          omega
        · exact .inl hpos
      dsimp only
      rw [List.length_append,stripSpawns_length,ih _ hrest]
      omega

theorem strips_rows {inner numStrips : ℕ} (hn : 0 < numStrips) (h : 2 * numStrips ≤ inner)
    (playersLeft stripsLeft : ℕ) (hs : stripsLeft ≤ numStrips) {p : ℕ × ℕ}
    (hp : p ∈ strips inner numStrips playersLeft stripsLeft) : 2 + middle inner numStrips (numStrips - stripsLeft) ≤ p.1 := by
  induction stripsLeft generalizing playersLeft with
  | zero => exact absurd hp List.not_mem_nil
  | succ n ih =>
    rw [strips] at hp
    split at hp
    · exact absurd hp List.not_mem_nil
    · rcases List.mem_append.mp hp with hp | hp
      · exact (stripSpawns_row hp).ge
      · have hrow := ih _ (Nat.le_of_succ_le hs) hp
        have hgap := middle_lt hn h (show numStrips - (n + 1) < numStrips - n by omega)
        omega

/-- `c` players at most stand in one strip, and there is room for them. -/
theorem strips_apart {inner numStrips c : ℕ} (hn : 0 < numStrips) (h : 2 * numStrips ≤ inner) (hc : 2 * c ≤ inner)
    (playersLeft stripsLeft : ℕ) (hs : stripsLeft ≤ numStrips) (hl : playersLeft ≤ stripsLeft * c) :
    (strips inner numStrips playersLeft stripsLeft).Pairwise Apart := by
  induction stripsLeft generalizing playersLeft with
  | zero => exact List.Pairwise.nil
  | succ n ih =>
    rw [strips]
    split
    · exact List.Pairwise.nil
    · have hshare := share_le hl
      refine List.pairwise_append.mpr ⟨stripSpawns_apart _ (by omega),ih _ (Nat.le_of_succ_le hs) (share_rest hl),?_⟩
      intro p hp q hq
      have hrow := strips_rows hn h _ n (Nat.le_of_succ_le hs) hq
      have hgap := middle_lt hn h (show numStrips - (n + 1) < numStrips - n by omega)
      have hp1 : p.1 = 2 + middle inner numStrips (numStrips - (n + 1)) := stripSpawns_row hp
      exact apart_of_rows (by omega)

/-! ## All spawns -/

theorem roundSqrt_bounds (n : ℕ) :
    n ≤ roundSqrt n * roundSqrt n + roundSqrt n ∧ (0 < n → roundSqrt n * roundSqrt n + 1 ≤ n + roundSqrt n) := by
  have hlow := Nat.sqrt_le n
  have hhigh := Nat.sqrt_le_add n
  unfold roundSqrt
  split
  · refine ⟨by assumption,fun h => ?_⟩
    have hpos : 0 < n.sqrt := Nat.sqrt_pos.mpr h
    omega
  · refine ⟨?_,fun _ => ?_⟩
    · nlinarith
    · nlinarith

/-- The inner square has two rows and two columns for every strip and one player more
than there are strips. -/
theorem spawn_room {n : ℕ} (h : 4 < n) : 2 * (max (roundSqrt (n - 4)) 1 + 1) ≤ max (calcMapSize n - 2) 1 := by
  have hsize := (calcMapSize_le (calcMapSize_ge n) n).mp le_rfl
  obtain ⟨-,hlow⟩ := roundSqrt_bounds (n - 4)
  have hlow := hlow (by omega)
  generalize hk : roundSqrt (n - 4) = k at hlow
  generalize calcMapSize n = m at hsize
  have hmk : 2 * k + 4 ≤ m := by
    by_contra hlt
    have hle : m ≤ 2 * k + 3 := by omega
    have hsq := Nat.mul_le_mul hle hle
    have hn : 25 * (n - 4) + 100 ≤ m * m := by omega
    nlinarith
  have hk1 : 1 ≤ k := by
    by_contra h0
    have h0 : k = 0 := by omega
    have hb := (roundSqrt_bounds (n - 4)).1
    rw [hk,h0] at hb
    omega
  omega

theorem corners_apart {innerSize : ℕ} (h : 3 ≤ innerSize) (numPlayers : ℕ) :
    ([(1,1),(innerSize,innerSize),(1,innerSize),(innerSize,1)].take numPlayers).Pairwise Apart := by
  refine List.Pairwise.sublist (List.take_sublist _ _) ?_
  simp only [List.pairwise_cons,List.mem_cons,List.not_mem_nil,or_false,forall_eq_or_imp,forall_eq,Apart,ne_eq,
    Prod.mk.injEq,false_imp_iff,implies_true,List.Pairwise.nil,and_true]
  omega

theorem corner_coordinates {innerSize numPlayers : ℕ} {p : ℕ × ℕ}
    (hp : p ∈ [(1,1),(innerSize,innerSize),(1,innerSize),(innerSize,1)].take numPlayers) :
    (p.1 = 1 ∨ p.1 = innerSize) ∧ (p.2 = 1 ∨ p.2 = innerSize) := by
  have hp := List.mem_of_mem_take hp
  simp only [List.mem_cons,List.not_mem_nil,or_false] at hp
  rcases hp with rfl | rfl | rfl | rfl <;> simp

theorem calcPlayerSpawns_length (numPlayers innerSize : ℕ) :
    (calcPlayerSpawns numPlayers innerSize).length = numPlayers := by
  unfold calcPlayerSpawns
  dsimp only
  split
  · rw [List.length_take]
    exact Nat.min_eq_left (by assumption)
  · rw [List.length_append,List.length_take,strips_length _ _ _ _ (.inl (by omega))]
    simp only [List.length_cons,List.length_nil]
    omega

theorem calcPlayerSpawns_apart (numPlayers : ℕ) :
    (calcPlayerSpawns numPlayers (calcMapSize numPlayers)).Pairwise Apart := by
  have hsize : 10 ≤ calcMapSize numPlayers := calcMapSize_ge numPlayers
  unfold calcPlayerSpawns
  dsimp only
  split
  · exact corners_apart (by omega) _
  · next hn =>
    have hroom := spawn_room (n := numPlayers) (by omega)
    obtain ⟨hhigh,-⟩ := roundSqrt_bounds (numPlayers - 4)
    generalize hk : roundSqrt (numPlayers - 4) = k at hroom hhigh
    have hleft : numPlayers - 4 ≤ max k 1 * (max k 1 + 1) := by
      have hmono : k * k + k ≤ max k 1 * (max k 1 + 1) := by
        have hle : k ≤ max k 1 := Nat.le_max_left _ _
        nlinarith
      omega
    refine List.pairwise_append.mpr ⟨corners_apart (by omega) _,
      strips_apart (by omega) (by omega) hroom _ _ le_rfl hleft,?_⟩
    intro p hp q hq
    have hcorner := corner_coordinates hp
    obtain ⟨h1,h2,h3,h4⟩ := strips_interior (Nat.le_max_right _ 1) _ _ (Nat.le_refl _) hq
    refine ⟨?_,by omega,by omega⟩
    rintro rfl
    omega

/-! ## Marks on the map -/

def Beside (p : ℕ × ℕ) (c : ℤ × ℤ) : Prop :=
  c = ((p.1 : ℤ) - 1,(p.2 : ℤ)) ∨ c = ((p.1 : ℤ) + 1,(p.2 : ℤ)) ∨ c = ((p.1 : ℤ),(p.2 : ℤ) - 1) ∨
    c = ((p.1 : ℤ),(p.2 : ℤ) + 1)

def tileOf (p : ℕ × ℕ) : ℤ × ℤ := (p.1,p.2)

theorem tileOf_injective : Function.Injective tileOf := by
  intro p q h
  simp only [tileOf,Prod.mk.injEq,Nat.cast_inj] at h
  exact Prod.ext h.1 h.2

theorem Apart.not_beside {p q : ℕ × ℕ} (h : Apart p q) : ¬Beside q (tileOf p) := by
  obtain ⟨-,hrow,hcol⟩ := h
  simp only [Beside,tileOf,Prod.mk.injEq]
  omega

theorem not_beside_self (p : ℕ × ℕ) : ¬Beside p (tileOf p) := by
  simp only [Beside,tileOf,Prod.mk.injEq]
  omega

theorem emptied_player (g : Draft) {p : Prop} [Decidable p] (x y : ℤ) (c : ℤ × ℤ) :
    (if p then g.set x y .empty else g) c.1 c.2 = some .player ↔ ¬(p ∧ c = (x,y)) ∧ g c.1 c.2 = some .player := by
  by_cases hp : p
  · rw [if_pos hp,Draft.set_apply]
    by_cases hc : c = (x,y)
    · simp [hp,hc]
    · simp [hc]
  · simp [hp]

/-- A spawn is marked; marks that are not beside it stay. -/
theorem clearSpawn_player {mapSize : ℕ} {g : Draft} {p : ℕ × ℕ} {c : ℤ × ℤ}
    (h : g c.1 c.2 = some .player → ¬Beside p c) :
    (clearSpawn mapSize g p) c.1 c.2 = some .player ↔ c = tileOf p ∨ g c.1 c.2 = some .player := by
  -- no mark and not the spawn itself is among the tiles that are emptied
  have hkeep : ¬Beside p c → ∀ q : Prop, ¬(q ∧ c = ((p.1 : ℤ) - 1,(p.2 : ℤ))) ∧ ¬(q ∧ c = ((p.1 : ℤ) + 1,(p.2 : ℤ))) ∧
      ¬(q ∧ c = ((p.1 : ℤ),(p.2 : ℤ) - 1)) ∧ ¬(q ∧ c = ((p.1 : ℤ),(p.2 : ℤ) + 1)) := by
    intro hb q
    unfold Beside at hb
    tauto
  unfold clearSpawn
  rw [emptied_player,emptied_player,emptied_player,emptied_player,Draft.set_apply]
  by_cases hc : c = ((p.1 : ℤ),(p.2 : ℤ))
  · have hb : ¬Beside p c := hc ▸ not_beside_self p
    rw [if_pos hc]
    exact iff_of_true ⟨(hkeep hb _).2.2.2,(hkeep hb _).2.2.1,(hkeep hb _).2.1,(hkeep hb _).1,rfl⟩ (.inl hc)
  · rw [if_neg hc]
    constructor
    · rintro ⟨-,-,-,-,hg⟩
      exact .inr hg
    · rintro (hp | hg)
      · exact absurd hp hc
      · have hb := h hg
        exact ⟨(hkeep hb _).2.2.2,(hkeep hb _).2.2.1,(hkeep hb _).2.1,(hkeep hb _).1,hg⟩

theorem clearSpawns_player {mapSize : ℕ} {spawns : List (ℕ × ℕ)} (hs : spawns.Pairwise Apart) {g : Draft}
    (h : ∀ c, g c.1 c.2 = some .player → ∀ p ∈ spawns, ¬Beside p c) (c : ℤ × ℤ) :
    (spawns.foldl (clearSpawn mapSize) g) c.1 c.2 = some .player ↔
      c ∈ spawns.map tileOf ∨ g c.1 c.2 = some .player := by
  induction spawns generalizing g with
  | nil => simp
  | cons p spawns ih =>
    obtain ⟨hp,hs⟩ := List.pairwise_cons.mp hs
    have hfirst : ∀ c : ℤ × ℤ, (clearSpawn mapSize g p) c.1 c.2 = some .player ↔
        c = tileOf p ∨ g c.1 c.2 = some .player :=
      fun c => clearSpawn_player fun hg => h c hg p List.mem_cons_self
    rw [List.foldl_cons,ih hs ?_,hfirst,List.map_cons,List.mem_cons]
    · tauto
    · intro c hc q hq
      rcases (hfirst c).mp hc with rfl | hg
      · exact (hp q hq).not_beside
      · exact h c hg q (List.mem_cons_of_mem p hq)

theorem fill_player (innerSize : ℕ) (cells : List (ℤ × ℤ)) (r : Draft × (ℕ → ℕ)) (c : ℤ × ℤ) :
    (cells.foldl (fillCell innerSize) r).1 c.1 c.2 = some .player ↔ r.1 c.1 c.2 = some .player := by
  refine ⟨fun h => ?_,fill_kept innerSize cells r⟩
  induction cells generalizing r with
  | nil => exact h
  | cons cell cells ih =>
    have hcell := ih _ h
    unfold fillCell at hcell
    split at hcell
    · exact hcell
    · dsimp only at hcell
      rw [Draft.set_apply] at hcell
      split at hcell
      · have hfill : ∀ x y draw, fillTile innerSize x y draw ≠ .player := by
          intro x y draw
          unfold fillTile
          dsimp only
          split
          · decide
          · split <;> decide
        exact absurd (Option.some.inj hcell) (hfill _ _ _)
      · exact hcell

theorem mapGenerate_player (draws : ℕ → ℕ) (numPlayers : ℕ) (c : ℤ × ℤ) :
    (mapGenerate draws numPlayers).map c.1 c.2 = .player ↔
      c ∈ (calcPlayerSpawns numPlayers (calcMapSize numPlayers)).map tileOf := by
  have hborder : ∀ c : ℤ × ℤ, borders (calcMapSize numPlayers + 2) c.1 c.2 ≠ some .player := by
    intro c
    unfold borders
    split <;> decide
  have hplaced := @clearSpawns_player (calcMapSize numPlayers + 2) _ (calcPlayerSpawns_apart numPlayers)
    (borders (calcMapSize numPlayers + 2)) (fun c hc => absurd hc (hborder c)) c
  have hgetD : ∀ tile : Option Tile, tile.getD .wall = .player ↔ tile = some .player := by
    intro tile
    cases tile <;> simp
  unfold mapGenerate
  dsimp only
  rw [hgetD,fill_player,Nat.add_sub_cancel,hplaced]
  exact or_iff_left (hborder c)

theorem intRange_nodup (a b : ℤ) : (intRange a b).Nodup := by
  have hmap : intRange a b = (List.range (b - a).toNat).map fun k : ℕ => a + (k : ℤ) := by
    simp only [intRange,List.bind_eq_flatMap,List.pure_def,← List.map_eq_flatMap,List.map_map]
    rfl
  rw [hmap]
  refine List.Nodup.map ?_ List.nodup_range
  intro i j h
  exact Int.ofNat.inj (Int.add_left_cancel h)

theorem arena_nodup (mapSize : ℕ) : (arena mapSize).Nodup :=
  (intRange_nodup 0 mapSize).product (intRange_nodup 0 mapSize)

theorem mem_arena_iff {mapSize : ℕ} {c : ℤ × ℤ} :
    c ∈ arena mapSize ↔ 0 ≤ c.1 ∧ c.1 < mapSize ∧ 0 ≤ c.2 ∧ c.2 < mapSize := by
  refine ⟨mem_arena,fun ⟨h1,h2,h3,h4⟩ => ?_⟩
  exact List.mem_flatMap.mpr ⟨c.1,mem_intRange.mpr ⟨h1,h2⟩,List.mem_map.mpr ⟨c.2,mem_intRange.mpr ⟨h3,h4⟩,rfl⟩⟩

theorem arena_players (draws : ℕ → ℕ) (numPlayers : ℕ) :
    ((arena (mapGenerate draws numPlayers).mapSize).filter
      fun c => (mapGenerate draws numPlayers).map c.1 c.2 = .player).Perm
        ((calcPlayerSpawns numPlayers (calcMapSize numPlayers)).map tileOf) := by
  have hsize : 10 ≤ calcMapSize numPlayers := calcMapSize_ge numPlayers
  have hn : (calcPlayerSpawns numPlayers (calcMapSize numPlayers)).Nodup :=
    (calcPlayerSpawns_apart numPlayers).imp fun h => h.1
  refine (List.perm_ext_iff_of_nodup ((arena_nodup _).filter _) (hn.map tileOf_injective)).mpr fun c => ?_
  rw [List.mem_filter,decide_eq_true_iff,mapGenerate_player,mem_arena_iff,and_iff_right_iff_imp]
  intro hc
  obtain ⟨p,hp,rfl⟩ := List.mem_map.mp hc
  obtain ⟨h1,h2,h3,h4⟩ := calcPlayerSpawns_within (by omega) hp
  change (0 : ℤ) ≤ (p.1 : ℤ) ∧ (p.1 : ℤ) < ((calcMapSize numPlayers + 2 : ℕ) : ℤ) ∧ 0 ≤ (p.2 : ℤ) ∧
    (p.2 : ℤ) < ((calcMapSize numPlayers + 2 : ℕ) : ℤ)
  omega

/-- With room for all of them `collect_spawns` takes the marks in the order of its scan. -/
theorem collect_fold {maxSpawns : ℕ} (map : Grid) {cells : List (ℤ × ℤ)} (hn : cells.Nodup) {r : Grid × List Vector2}
    (hr : ∀ c ∈ cells, r.1 c.1 c.2 = map c.1 c.2)
    (hroom : r.2.length + (cells.filter fun c => map c.1 c.2 = .player).length ≤ maxSpawns) :
    (cells.foldl (collectSpawn maxSpawns) r).2 =
      r.2 ++ (cells.filter fun c => map c.1 c.2 = .player).map fun c => ⟨c.1,c.2⟩ := by
  induction cells generalizing r with
  | nil => simp
  | cons cell cells ih =>
    obtain ⟨hcell,hn⟩ := List.nodup_cons.mp hn
    have hhead := hr cell List.mem_cons_self
    have htail : ∀ c ∈ cells, r.1 c.1 c.2 = map c.1 c.2 := fun c hc => hr c (List.mem_cons_of_mem cell hc)
    rw [List.foldl_cons]
    by_cases hp : map cell.1 cell.2 = .player
    · rw [List.filter_cons_of_pos (by simpa using hp),List.length_cons] at hroom
      have hstep : collectSpawn maxSpawns r cell = (r.1.set cell.1 cell.2 .empty,r.2 ++ [⟨cell.1,cell.2⟩]) :=
        if_pos ⟨by omega,hhead.trans hp⟩
      rw [hstep,ih hn ?_ ?_,List.filter_cons_of_pos (by simpa using hp)]
      · simp
      · intro c hc
        have hne : ¬(c.1 = cell.1 ∧ c.2 = cell.2) := by
          rintro ⟨h1,h2⟩
          exact hcell (Prod.ext h1 h2 ▸ hc)
        exact (if_neg hne).trans (htail c hc)
      · rw [List.length_append]
        simp only [List.length_cons,List.length_nil]
        omega
    · rw [List.filter_cons_of_neg (by simpa using hp)] at hroom ⊢
      have hstep : collectSpawn maxSpawns r cell = r := if_neg fun h => hp (hhead.symm.trans h.2)
      rw [hstep]
      exact ih hn htail hroom

/-- For every number of players there is a spawn for each of them inside the border, no
two side by side. The generated map marks these tiles and no others, and
`collect_spawns` finds them all. -/
theorem spawns_complete (draws : ℕ → ℕ) (numPlayers : ℕ) :
    (calcPlayerSpawns numPlayers (calcMapSize numPlayers)).length = numPlayers ∧
    (∀ p ∈ calcPlayerSpawns numPlayers (calcMapSize numPlayers), Within (calcMapSize numPlayers) p) ∧
    (calcPlayerSpawns numPlayers (calcMapSize numPlayers)).Pairwise Apart ∧
    (arena (mapGenerate draws numPlayers).mapSize).countP
      (fun c => (mapGenerate draws numPlayers).map c.1 c.2 = .player) = numPlayers ∧
    (collectSpawns (mapGenerate draws numPlayers).mapSize (mapGenerate draws numPlayers).map numPlayers).2.length =
      numPlayers ∧
    (collectSpawns (mapGenerate draws numPlayers).mapSize (mapGenerate draws numPlayers).map numPlayers).2.Perm
      ((calcPlayerSpawns numPlayers (calcMapSize numPlayers)).map fun p => ⟨p.1,p.2⟩) := by
  have hsize : 10 ≤ calcMapSize numPlayers := calcMapSize_ge numPlayers
  have hlength := calcPlayerSpawns_length numPlayers (calcMapSize numPlayers)
  have hperm := arena_players draws numPlayers
  have hcount := hperm.length_eq
  rw [List.length_map,hlength] at hcount
  have hcollect : (collectSpawns (mapGenerate draws numPlayers).mapSize (mapGenerate draws numPlayers).map numPlayers).2 =
      ((arena (mapGenerate draws numPlayers).mapSize).filter
        fun c => (mapGenerate draws numPlayers).map c.1 c.2 = .player).map fun c => ⟨c.1,c.2⟩ := by
    refine (collect_fold _ (arena_nodup _) (fun _ _ => rfl) ?_).trans (List.nil_append _)
    rw [hcount]
    exact (Nat.zero_add _).le
  refine ⟨hlength,fun p hp => calcPlayerSpawns_within (by omega) hp,calcPlayerSpawns_apart numPlayers,?_,?_,?_⟩
  · rw [List.countP_eq_length_filter]
    exact hcount
  · rw [hcollect,List.length_map]
    exact hcount
  · rw [hcollect]
    refine (hperm.map _).trans (List.Perm.of_eq ?_)
    rw [List.map_map]
    rfl

end CoreStack.Bomberman
