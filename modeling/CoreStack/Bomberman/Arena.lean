import CoreStack.Bomberman.Session

/-! # What the generated arena looks like

The border is wall all around, players start on tiles inside of it, and whatever the
draws are, the filling pass leaves the spawns and the crosses around them open.
-/
namespace CoreStack.Bomberman

/-! ## Sizes -/

theorem ceilSqrt_le (n m : ℕ) : ceilSqrt n ≤ m ↔ n ≤ m * m := by
  unfold ceilSqrt
  split
  · next hexact =>
    calc
      n.sqrt ≤ m ↔ n.sqrt * n.sqrt ≤ m * m := Nat.mul_self_le_mul_self_iff.symm
      _ ↔ n ≤ m * m := by rw [hexact]
  · next hover =>
    have hne : n ≠ m * m := by
      rintro rfl
      exact hover (by rw [Nat.sqrt_eq])
    rw [Nat.succ_le_iff,Nat.sqrt_lt,Nat.le_iff_lt_or_eq,or_iff_left hne]

theorem calcMapSize_ge (numPlayers : ℕ) : minMapWidth ≤ calcMapSize numPlayers := Nat.le_max_right _ _

theorem calcMapSize_le {m : ℕ} (h : minMapWidth ≤ m) (numPlayers : ℕ) :
    calcMapSize numPlayers ≤ m ↔ 25 * numPlayers ≤ m * m := by
  rw [calcMapSize,Nat.max_le,and_iff_left h,ceilSqrt_le]

/-! ## Spawns -/

def Within (innerSize : ℕ) (p : ℕ × ℕ) : Prop := 1 ≤ p.1 ∧ p.1 ≤ innerSize ∧ 1 ≤ p.2 ∧ p.2 ≤ innerSize

theorem middle_le {inner s n : ℕ} (hinner : 1 ≤ inner) (hs : s < n) :
    2 + (s * inner / n + (s + 1) * inner / n - 1) / 2 ≤ inner + 1 := by
  have hlow : s * inner / n ≤ inner := Nat.div_le_of_le_mul (Nat.mul_le_mul_right inner (Nat.le_of_lt hs))
  have hhigh : (s + 1) * inner / n ≤ inner := Nat.div_le_of_le_mul (Nat.mul_le_mul_right inner hs)
  omega

def Interior (inner : ℕ) (p : ℕ × ℕ) : Prop := 2 ≤ p.1 ∧ p.1 ≤ inner + 1 ∧ 2 ≤ p.2 ∧ p.2 ≤ inner + 1

theorem stripSpawns_interior {inner row n : ℕ} (hinner : 1 ≤ inner) (hrow : 2 ≤ row ∧ row ≤ inner + 1) {p : ℕ × ℕ}
    (hp : p ∈ stripSpawns inner row n) : Interior inner p := by
  obtain ⟨i,hi,rfl⟩ := List.mem_map.mp hp
  have hcol := middle_le hinner (List.mem_range.mp hi)
  dsimp only [Interior] at hcol ⊢
  omega

theorem strips_interior {inner numStrips : ℕ} (hinner : 1 ≤ inner) (stripsLeft playersLeft : ℕ)
    (h : stripsLeft ≤ numStrips) {p : ℕ × ℕ} (hp : p ∈ strips inner numStrips playersLeft stripsLeft) :
    Interior inner p := by
  induction stripsLeft generalizing playersLeft with
  | zero => exact absurd hp List.not_mem_nil
  | succ n ih =>
    rw [strips] at hp
    split at hp
    · exact absurd hp List.not_mem_nil
    · rcases List.mem_append.mp hp with hp | hp
      · have hrow := middle_le hinner (show numStrips - (n + 1) < numStrips by omega)
        exact stripSpawns_interior hinner ⟨by omega,hrow⟩ hp
      · exact ih _ (Nat.le_of_succ_le h) hp

theorem calcPlayerSpawns_within {numPlayers innerSize : ℕ} (h : 3 ≤ innerSize) {p : ℕ × ℕ}
    (hp : p ∈ calcPlayerSpawns numPlayers innerSize) : Within innerSize p := by
  have hcorners : ∀ q ∈ [(1,1),(innerSize,innerSize),(1,innerSize),(innerSize,1)].take numPlayers,
      Within innerSize q := by
    intro q hq
    have hq := List.mem_of_mem_take hq
    simp only [List.mem_cons,List.not_mem_nil,or_false] at hq
    rcases hq with rfl | rfl | rfl | rfl <;> dsimp only [Within] <;> omega
  unfold calcPlayerSpawns at hp
  dsimp only at hp
  split at hp
  · exact hcorners p hp
  · rcases List.mem_append.mp hp with hp | hp
    · exact hcorners p hp
    · obtain ⟨h1,h2,h3,h4⟩ := strips_interior (Nat.le_max_right _ 1) _ _ (Nat.le_refl _) hp
      dsimp only [Within]
      omega

theorem corner_mem_spawns {numPlayers : ℕ} (h : 1 ≤ numPlayers) (innerSize : ℕ) :
    (1,1) ∈ calcPlayerSpawns numPlayers innerSize := by
  have hcorner : (1,1) ∈ [(1,1),(innerSize,innerSize),(1,innerSize),(innerSize,1)].take numPlayers := by
    obtain ⟨n,rfl⟩ := Nat.exists_eq_add_of_le' h
    exact List.mem_cons_self
  unfold calcPlayerSpawns
  dsimp only
  split
  · exact hcorner
  · exact List.mem_append_left _ hcorner

/-! ## Generation -/

def Border (mapSize : ℕ) (c : ℤ × ℤ) : Prop := c.1 = 0 ∨ c.2 = 0 ∨ c.1 = mapSize - 1 ∨ c.2 = mapSize - 1

/-- The cell is decided, and a player can stand on it. -/
def Draft.Open (g : Draft) (c : ℤ × ℤ) : Prop := g c.1 c.2 = some .player ∨ g c.1 c.2 = some .empty

theorem Draft.set_apply (g : Draft) (x y : ℤ) (tile : Tile) (c : ℤ × ℤ) :
    (g.set x y tile) c.1 c.2 = if c = (x,y) then some tile else g c.1 c.2 := by
  simp only [Draft.set,Prod.ext_iff]

/-- Cells inside the border were opened, and nothing else was done. -/
structure Opens (mapSize : ℕ) (g h : Draft) : Prop where
  border : ∀ c, Border mapSize c → h c.1 c.2 = g c.1 c.2
  opened : ∀ c, h c.1 c.2 = g c.1 c.2 ∨ h.Open c

theorem Opens.refl (mapSize : ℕ) (g : Draft) : Opens mapSize g g := ⟨fun _ _ => rfl,fun _ => Or.inl rfl⟩

theorem Opens.keeps {mapSize : ℕ} {g h : Draft} (ho : Opens mapSize g h) {c : ℤ × ℤ} (hc : g.Open c) : h.Open c := by
  rcases ho.opened c with heq | hopen
  · unfold Draft.Open
    rw [heq]
    exact hc
  · exact hopen

theorem Opens.trans {mapSize : ℕ} {g h k : Draft} (ho : Opens mapSize g h) (ho' : Opens mapSize h k) :
    Opens mapSize g k := by
  refine ⟨fun c hc => (ho'.border c hc).trans (ho.border c hc),fun c => ?_⟩
  rcases ho.opened c with heq | hopen
  · rw [← heq]
    exact ho'.opened c
  · exact Or.inr (ho'.keeps hopen)

theorem set_opens {mapSize : ℕ} (g : Draft) {x y : ℤ} {tile : Tile} (hin : ¬Border mapSize (x,y))
    (htile : tile = .player ∨ tile = .empty) : Opens mapSize g (g.set x y tile) := by
  constructor
  · intro c hc
    rw [Draft.set_apply,if_neg]
    rintro rfl
    exact hin hc
  · intro c
    unfold Draft.Open
    rw [Draft.set_apply]
    split
    · exact Or.inr (htile.imp (congrArg some) (congrArg some))
    · exact Or.inl rfl

/-- An opening that is left out at the border. -/
theorem set_if_opens {mapSize : ℕ} (g : Draft) {x y : ℤ} {p : Prop} [Decidable p]
    (hin : p → ¬Border mapSize (x,y)) : Opens mapSize g (if p then g.set x y .empty else g) := by
  split
  · next hp => exact set_opens g (hin hp) (Or.inr rfl)
  · exact .refl mapSize g

theorem clearSpawn_opens {mapSize : ℕ} (g : Draft) {spawn : ℕ × ℕ} (h : Within (mapSize - 2) spawn) :
    Opens mapSize g (clearSpawn mapSize g spawn) ∧ (clearSpawn mapSize g spawn).Open (spawn.1,spawn.2) := by
  obtain ⟨hx,hx',hy,hy'⟩ := h
  have hspawn : Opens mapSize g (g.set spawn.1 spawn.2 .player) :=
    set_opens g (by unfold Border; dsimp only; omega) (Or.inl rfl)
  have hcross : Opens mapSize (g.set spawn.1 spawn.2 .player) (clearSpawn mapSize g spawn) := by
    unfold clearSpawn
    dsimp only
    refine (((Opens.trans ?_ (set_if_opens _ ?_)).trans (set_if_opens _ ?_)).trans (set_if_opens _ ?_))
    · exact set_if_opens _ (by unfold Border; dsimp only; omega)
    · unfold Border
      dsimp only
      omega
    · unfold Border
      dsimp only
      omega
    · unfold Border
      dsimp only
      omega
  refine ⟨hspawn.trans hcross,hcross.keeps (Or.inl ?_)⟩
  rw [Draft.set_apply,if_pos rfl]

theorem clearSpawns_opens {mapSize : ℕ} (spawns : List (ℕ × ℕ)) (g : Draft)
    (h : ∀ p ∈ spawns, Within (mapSize - 2) p) : Opens mapSize g (spawns.foldl (clearSpawn mapSize) g) ∧
      ∀ p ∈ spawns, (spawns.foldl (clearSpawn mapSize) g).Open (p.1,p.2) := by
  induction spawns generalizing g with
  | nil => exact ⟨.refl mapSize g,nofun⟩
  | cons p spawns ih =>
    obtain ⟨hfirst,hopen⟩ := clearSpawn_opens g (h p List.mem_cons_self)
    obtain ⟨hrest,hopens⟩ := ih (clearSpawn mapSize g p) fun q hq => h q (List.mem_cons_of_mem p hq)
    refine ⟨hfirst.trans hrest,fun q hq => ?_⟩
    rcases List.mem_cons.mp hq with rfl | hq
    · exact hrest.keeps hopen
    · exact hopens q hq

theorem fill_kept (innerSize : ℕ) (cells : List (ℤ × ℤ)) (r : Draft × (ℕ → ℕ)) {c : ℤ × ℤ} {tile : Tile}
    (h : r.1 c.1 c.2 = some tile) : (cells.foldl (fillCell innerSize) r).1 c.1 c.2 = some tile := by
  induction cells generalizing r with
  | nil => exact h
  | cons cell cells ih =>
    apply ih
    unfold fillCell
    split
    · exact h
    · next hopen =>
      dsimp only
      rw [Draft.set_apply,if_neg]
      · exact h
      · rintro rfl
        rw [h] at hopen
        cases hopen

def Tile.isGround (tile : Tile) : Prop := tile = .empty ∨ tile = .player ∨ tile = .breakable ∨ tile = .wall

theorem fillTile_ground (innerSize : ℕ) (x y : ℤ) (draw : ℕ) : (fillTile innerSize x y draw).isGround := by
  unfold fillTile Tile.isGround
  dsimp only
  split
  · simp
  · split <;> simp

theorem fill_ground (innerSize : ℕ) (cells : List (ℤ × ℤ)) (r : Draft × (ℕ → ℕ))
    (h : ∀ (c : ℤ × ℤ) tile, r.1 c.1 c.2 = some tile → tile.isGround) (c : ℤ × ℤ) {tile : Tile}
    (hc : (cells.foldl (fillCell innerSize) r).1 c.1 c.2 = some tile) : tile.isGround := by
  induction cells generalizing r with
  | nil => exact h c tile hc
  | cons cell cells ih =>
    refine ih (fillCell innerSize r cell) (fun q t hq => ?_) hc
    unfold fillCell at hq
    split at hq
    · exact h q t hq
    · dsimp only at hq
      rw [Draft.set_apply] at hq
      split at hq
      · cases hq
        exact fillTile_ground _ _ _ _
      · exact h q t hq

theorem getD_ground {cell : Option Tile} (h : ∀ tile, cell = some tile → tile.isGround) : (cell.getD .wall).isGround := by
  cases cell with
  | none => exact Or.inr (Or.inr (Or.inr rfl))
  | some tile => exact h tile rfl

/-- The map before the open cells are filled. -/
theorem placed_opens (numPlayers : ℕ) :
    let spawns := calcPlayerSpawns numPlayers (calcMapSize numPlayers + 2 - 2)
    let placed := spawns.foldl (clearSpawn (calcMapSize numPlayers + 2)) (borders (calcMapSize numPlayers + 2))
    Opens (calcMapSize numPlayers + 2) (borders (calcMapSize numPlayers + 2)) placed ∧
      ∀ p ∈ spawns, placed.Open (p.1,p.2) := by
  have hsize : 10 ≤ calcMapSize numPlayers := calcMapSize_ge numPlayers
  exact clearSpawns_opens _ _ fun p hp => calcPlayerSpawns_within (by omega) hp

theorem mapGenerate_ground (draws : ℕ → ℕ) (numPlayers : ℕ) (c : ℤ × ℤ) :
    ((mapGenerate draws numPlayers).map c.1 c.2).isGround := by
  have hplaced := (placed_opens numPlayers).1
  unfold mapGenerate
  dsimp only
  refine getD_ground fun tile hg => fill_ground _ _ _ (fun q t hq => ?_) c hg
  rcases hplaced.opened q with heq | hopen | hopen
  · have hborder : borders (calcMapSize numPlayers + 2) q.1 q.2 = some t := heq.symm.trans hq
    unfold borders at hborder
    split at hborder
    · cases hborder
      exact Or.inr (Or.inr (Or.inr rfl))
    · cases hborder
  · cases hopen.symm.trans hq
    exact Or.inr (Or.inl rfl)
  · cases hopen.symm.trans hq
    exact Or.inl rfl

theorem mapGenerate_border (draws : ℕ → ℕ) (numPlayers : ℕ) {c : ℤ × ℤ}
    (h : Border (mapGenerate draws numPlayers).mapSize c) : (mapGenerate draws numPlayers).map c.1 c.2 = .wall := by
  have hplaced := (placed_opens numPlayers).1
  have hwall := (hplaced.border c h).trans (show borders _ c.1 c.2 = some .wall from if_pos h)
  unfold mapGenerate
  dsimp only
  rw [fill_kept _ _ _ hwall]
  rfl

theorem mapGenerate_corner (draws : ℕ → ℕ) {numPlayers : ℕ} (h : 1 ≤ numPlayers) :
    (mapGenerate draws numPlayers).map 1 1 = .player ∨ (mapGenerate draws numPlayers).map 1 1 = .empty := by
  have hopen := (placed_opens numPlayers).2 (1,1) (corner_mem_spawns h _)
  unfold mapGenerate
  dsimp only
  rcases hopen with hopen | hopen
  · refine Or.inl ?_
    rw [fill_kept (c := (1,1)) _ _ _ hopen]
    rfl
  · refine Or.inr ?_
    rw [fill_kept (c := (1,1)) _ _ _ hopen]
    rfl

/-! ## The start of the session -/

theorem mem_intRange {a b i : ℤ} : i ∈ intRange a b ↔ a ≤ i ∧ i < b := by
  have hoffset : i ∈ intRange a b ↔ ∃ k : ℕ, (k : ℤ) < b - a ∧ a + k = i := by simp [intRange]
  rw [hoffset]
  constructor
  · rintro ⟨k,hk,rfl⟩
    omega
  · rintro ⟨hle,hlt⟩
    exact ⟨(i - a).toNat,by omega,by omega⟩

theorem mem_arena {mapSize : ℕ} {c : ℤ × ℤ} (h : c ∈ arena mapSize) :
    0 ≤ c.1 ∧ c.1 < mapSize ∧ 0 ≤ c.2 ∧ c.2 < mapSize := by
  obtain ⟨i,hi,hrow⟩ := List.mem_flatMap.mp h
  obtain ⟨j,hj,rfl⟩ := List.mem_map.mp hrow
  have hrows := mem_intRange.mp hi
  have hcols := mem_intRange.mp hj
  exact ⟨hrows.1,hrows.2,hcols.1,hcols.2⟩

structure Collected (mapSize : ℕ) (map : Grid) (r : Grid × List Vector2) : Prop where
  kept : ∀ c : ℤ × ℤ, r.1 c.1 c.2 = map c.1 c.2 ∨ map c.1 c.2 = .player ∧ r.1 c.1 c.2 = .empty
  spawns : ∀ v ∈ r.2, ∃ c : ℤ × ℤ, v = ⟨c.1,c.2⟩ ∧ r.1 c.1 c.2 = .empty ∧
    0 ≤ c.1 ∧ c.1 < mapSize ∧ 0 ≤ c.2 ∧ c.2 < mapSize

theorem collectSpawn_collected {mapSize : ℕ} {map : Grid} {r : Grid × List Vector2} (h : Collected mapSize map r)
    (maxSpawns : ℕ) {cell : ℤ × ℤ} (hcell : 0 ≤ cell.1 ∧ cell.1 < mapSize ∧ 0 ≤ cell.2 ∧ cell.2 < mapSize) :
    Collected mapSize map (collectSpawn maxSpawns r cell) := by
  unfold collectSpawn
  split
  · next hplayer =>
    have hset : ∀ c : ℤ × ℤ, (r.1.set cell.1 cell.2 .empty) c.1 c.2 = if c = cell then .empty else r.1 c.1 c.2 := by
      intro c
      simp only [Grid.set,Prod.ext_iff]
    constructor
    · intro c
      dsimp only
      rw [hset]
      split
      · next heq =>
        subst heq
        refine Or.inr ⟨?_,rfl⟩
        rcases h.kept c with hkept | ⟨hmap,-⟩
        · exact hkept.symm.trans hplayer.2
        · exact hmap
      · exact h.kept c
    · intro v hv
      rcases List.mem_append.mp hv with hv | hv
      · obtain ⟨c,rfl,hempty,hin⟩ := h.spawns v hv
        refine ⟨c,rfl,?_,hin⟩
        dsimp only
        rw [hset,hempty,ite_self]
      · refine ⟨cell,List.mem_singleton.mp hv,?_,hcell⟩
        dsimp only
        rw [hset,if_pos rfl]
  · exact h

theorem collectSpawns_collected (mapSize : ℕ) (map : Grid) (maxSpawns : ℕ) :
    Collected mapSize map (collectSpawns mapSize map maxSpawns) := by
  have hfold : ∀ (cells : List (ℤ × ℤ)) (r : Grid × List Vector2), (∀ c ∈ cells, c ∈ arena mapSize) →
      Collected mapSize map r → Collected mapSize map (cells.foldl (collectSpawn maxSpawns) r) := by
    intro cells
    induction cells with
    | nil => exact fun r _ h => h
    | cons cell cells ih =>
      intro r hcells h
      apply ih
      · exact fun c hc => hcells c (List.mem_cons_of_mem cell hc)
      · exact collectSpawn_collected h maxSpawns (mem_arena (hcells cell List.mem_cons_self))
  exact hfold _ _ (fun _ h => h) ⟨fun _ => Or.inl rfl,nofun⟩

theorem initSession_parts [Arithmetic] (draws : ℕ → ℕ) (clientIds : List ℕ) :
    ∃ n g r, n = min clientIds.length bombdMaxPlayers ∧ g = mapGenerate draws n ∧ r = collectSpawns g.mapSize g.map n ∧
      (initSession draws clientIds).world.map = r.1 ∧ (initSession draws clientIds).world.mapSize = g.mapSize ∧
      (initSession draws clientIds).session.players =
        (clientIds.take n).mapIdx fun i id => initPlayer id (r.2.getD i ⟨1,1⟩) := by
  refine ⟨_,_,_,rfl,rfl,rfl,?_⟩
  unfold initSession
  dsimp only
  generalize collectSpawns _ _ _ = r
  exact ⟨rfl,rfl,rfl⟩

theorem initSession_queues [Arithmetic] (draws : ℕ → ℕ) (clientIds : List ℕ) :
    (initSession draws clientIds).world.bombs = .init ∧ (initSession draws clientIds).world.explodes = .init := by
  unfold initSession
  dsimp only
  generalize collectSpawns _ _ _ = r
  exact ⟨rfl,rfl⟩

theorem initSession_powerups [Arithmetic] (draws : ℕ → ℕ) (clientIds : List ℕ) :
    (initSession draws clientIds).world.powerupsToSpawn = fun _ _ => .empty := by
  unfold initSession
  dsimp only

theorem initSession_mapSize [Arithmetic] (draws : ℕ → ℕ) (clientIds : List ℕ) :
    (initSession draws clientIds).world.mapSize = calcMapSize (min clientIds.length bombdMaxPlayers) + 2 := by
  obtain ⟨n,g,r,hn,hg,-,-,hsize,-⟩ := initSession_parts draws clientIds
  rw [hsize,hg,hn]
  rfl

theorem initSession_border [Arithmetic] (draws : ℕ → ℕ) (clientIds : List ℕ) {c : ℤ × ℤ}
    (h : Border (initSession draws clientIds).world.mapSize c) :
    (initSession draws clientIds).world.map c.1 c.2 = .wall := by
  obtain ⟨n,g,r,-,hg,hr,hmap,hsize,-⟩ := initSession_parts draws clientIds
  rw [hsize,hg] at h
  have hwall := mapGenerate_border draws n h
  have hkept := (collectSpawns_collected g.mapSize g.map n).kept c
  rw [← hr,hg,hwall] at hkept
  rw [hmap]
  rcases hkept with hkept | ⟨hplayer,-⟩
  · exact hkept
  · cases hplayer

/-- At the start the map shows no bombs, explosions or powerups. -/
theorem initSession_ground [Arithmetic] (draws : ℕ → ℕ) (clientIds : List ℕ) (c : ℤ × ℤ) :
    ((initSession draws clientIds).world.map c.1 c.2).isGround := by
  obtain ⟨n,g,r,-,hg,hr,hmap,-,-⟩ := initSession_parts draws clientIds
  rw [hmap,hr]
  rcases (collectSpawns_collected g.mapSize g.map n).kept c with hkept | ⟨-,hempty⟩
  · rw [hkept,hg]
    exact mapGenerate_ground draws n c
  · rw [hempty]
    exact Or.inl rfl

/-- Every player starts in the middle of a free tile of the arena. -/
theorem initSession_seats [Arithmetic] (draws : ℕ → ℕ) (clientIds : List ℕ) {p : BombPlayer}
    (hp : p ∈ (initSession draws clientIds).session.players) : ∃ c : ℤ × ℤ,
      p.box = ⟨(⟨c.1,c.2⟩ : Vector2).add simPlayerBoxOffset,simPlayerBoxSize⟩ ∧
      (initSession draws clientIds).world.inside c.1 c.2 = true ∧
      tileIsSolid (initSession draws clientIds).world c.1 c.2 = false := by
  obtain ⟨n,g,r,hn,hg,hr,hmap,hsize,hplayers⟩ := initSession_parts draws clientIds
  have hcollected := collectSpawns_collected g.mapSize g.map n
  have hwidth : (1 : ℤ) < g.mapSize := by
    have := calcMapSize_ge n
    rw [hg]
    change (1 : ℤ) < ((calcMapSize n + 2 : ℕ) : ℤ)
    omega
  rw [hplayers] at hp
  obtain ⟨i,hi,rfl⟩ := List.mem_mapIdx.mp hp
  have hcount : 1 ≤ n := by
    rw [List.length_take] at hi
    omega
  unfold World.inside tileIsSolid
  rw [List.getD_eq_getElem?_getD,hmap,hsize]
  rw [← hr] at hcollected
  cases hspawn : r.2[i]? with
  | none =>
    -- the fallback is the first corner
    have hfree : r.1 1 1 = .player ∨ r.1 1 1 = .empty := by
      have hcorner := mapGenerate_corner draws hcount
      rw [← hg] at hcorner
      rcases hcollected.kept (1,1) with hkept | ⟨-,hempty⟩
      · exact hcorner.imp hkept.trans hkept.trans
      · exact Or.inr hempty
    refine ⟨(1,1),by simp [initPlayer],by simp [hwidth],?_⟩
    rcases hfree with hfree | hfree <;> simp [hfree]
  | some v =>
    obtain ⟨c,rfl,hempty,hx,hx',hy,hy'⟩ := hcollected.spawns v (List.mem_of_getElem? hspawn)
    exact ⟨c,rfl,decide_eq_true ⟨hx,hy,hx',hy'⟩,by simp [hempty]⟩

end CoreStack.Bomberman
