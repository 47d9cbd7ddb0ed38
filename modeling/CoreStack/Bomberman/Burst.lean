import CoreStack.Bomberman.Session
import Mathlib.Data.List.Nodup

/-! # What an explosion does

`trigger_explosion` scans the map while it writes to it. Four arms cover a cross of
tiles that the map before the explosion already shows: the tiles burn, the breakable
ones among them may hide a powerup, and the rest of the world stays as it is.
-/
namespace CoreStack.Bomberman
open Utils

def BombInfo.blast (b : BombInfo) : Vector2 × ℤ := (b.position,b.spread)

def ExplosionInfo.blast (e : ExplosionInfo) : Vector2 × ℤ := (e.center,e.range)

def World.at (w : World) (c : ℤ × ℤ) : Tile := w.map c.1 c.2

theorem setTile_map (w : World) (x y : ℤ) (tile : Tile) (c : ℤ × ℤ) :
    (w.setTile x y tile).map c.1 c.2 = if c = (x,y) then tile else w.map c.1 c.2 := by
  simp only [World.setTile,Grid.set,Prod.ext_iff]

/-! ## Walls -/

/-- The same arena, with walls where they were. -/
structure SameWalls (w t : World) : Prop where
  mapSize : t.mapSize = w.mapSize
  walls : ∀ c : ℤ × ℤ, t.map c.1 c.2 = .wall ↔ w.map c.1 c.2 = .wall

theorem SameWalls.refl (w : World) : SameWalls w w := ⟨rfl,fun _ => Iff.rfl⟩

theorem SameWalls.trans {w t u : World} (h : SameWalls w t) (h' : SameWalls t u) : SameWalls w u :=
  ⟨h'.mapSize.trans h.mapSize,fun c => (h'.walls c).trans (h.walls c)⟩

theorem setTile_sameWalls {w : World} {x y : ℤ} {tile : Tile} (hfloor : w.map x y ≠ .wall) (htile : tile ≠ .wall) :
    SameWalls w (w.setTile x y tile) := by
  refine ⟨rfl,fun c => ?_⟩
  rw [setTile_map]
  split
  · next h =>
    rw [h]
    exact iff_of_false htile hfloor
  · exact Iff.rfl

/-! ## Arms -/

/-- The tiles of an arm from its `i`-th on: up to a wall, the edge or the end of the spread. -/
def armTiles (w : World) (d : Direction) (x y : ℤ) : ℕ → ℕ → List (ℤ × ℤ)
  | 0, _ => []
  | n + 1, i =>
    let t := d.tile x y i
    if d.beyond w.mapSize x y i || w.map t.1 t.2 == .wall then [] else t :: armTiles w d x y n (i + 1)

theorem armTiles_congr {w t : World} (h : SameWalls w t) (d : Direction) (x y : ℤ) (n i : ℕ) :
    armTiles t d x y n i = armTiles w d x y n i := by
  induction n generalizing i with
  | zero => rfl
  | succ n ih =>
    have hwall : (t.map (d.tile x y i).1 (d.tile x y i).2 == .wall) = (w.map (d.tile x y i).1 (d.tile x y i).2 == .wall) := by
      rw [Bool.eq_iff_iff,beq_iff_eq,beq_iff_eq]
      exact h.walls _
    rw [armTiles,armTiles,h.mapSize,hwall,ih]

/-- The arms of a bomb at a place and with a spread. -/
def crossTiles (w : World) (blast : Vector2 × ℤ) : List (ℤ × ℤ) :=
  [.up,.down,.left,.right].flatMap fun d => armTiles w d (toInt blast.1.x) (toInt blast.1.y) blast.2.toNat 1

theorem crossTiles_congr {w t : World} (h : SameWalls w t) : crossTiles t = crossTiles w := by
  funext blast
  simp only [crossTiles,armTiles_congr h]

theorem mem_armTiles {w : World} {d : Direction} {x y : ℤ} {n i : ℕ} {c : ℤ × ℤ} (h : c ∈ armTiles w d x y n i) :
    ∃ k : ℕ, i ≤ k ∧ c = d.tile x y k ∧ d.beyond w.mapSize x y k = false ∧ w.at c ≠ .wall := by
  induction n generalizing i with
  | zero => exact absurd h List.not_mem_nil
  | succ n ih =>
    rw [armTiles] at h
    split at h
    · exact absurd h List.not_mem_nil
    · next hopen =>
      rw [Bool.or_eq_true,not_or,Bool.not_eq_true,beq_iff_eq] at hopen
      rcases List.mem_cons.mp h with rfl | hrest
      · exact ⟨i,le_refl i,rfl,hopen⟩
      · obtain ⟨k,hk,harm⟩ := ih hrest
        exact ⟨k,by omega,harm⟩

theorem crossTiles_free {w : World} {blast : Vector2 × ℤ} {c : ℤ × ℤ} (h : c ∈ crossTiles w blast) : w.at c ≠ .wall := by
  obtain ⟨d,-,hd⟩ := List.mem_flatMap.mp h
  obtain ⟨-,-,-,-,hfree⟩ := mem_armTiles hd
  exact hfree

theorem tile_inj_same {d : Direction} {x y : ℤ} {k k' : ℕ} (h : d.tile x y k = d.tile x y k') : k = k' := by
  cases d <;> simp only [Direction.tile,Prod.mk.injEq] at h <;> omega

theorem tile_inj {d d' : Direction} {x y : ℤ} {k k' : ℕ} (hk : 1 ≤ k) (hk' : 1 ≤ k')
    (h : d.tile x y k = d'.tile x y k') : d = d' ∧ k = k' := by
  cases d <;> cases d' <;> simp only [Direction.tile,Prod.mk.injEq] at h <;>
    first | exact ⟨rfl,by omega⟩ | exact absurd h (by omega)

/-! ## Burning tiles -/

def World.uncover (w : World) (c : ℤ × ℤ) : World := randomisePowerup w c.1 c.2

def World.breakables (w : World) (tiles : List (ℤ × ℤ)) : List (ℤ × ℤ) := tiles.filter fun c => w.at c = .breakable

def World.scorched (w : World) (tiles : List (ℤ × ℤ)) : Grid := tiles.foldl (fun map c => map.set c.1 c.2 .explosion) w.map

/-- `randomise_powerup` is called for the breakable tiles, once each and in their order, and
all tiles burn. -/
def World.blown (w : World) (tiles : List (ℤ × ℤ)) : World :=
  { (w.breakables tiles).foldl World.uncover w with map := w.scorched tiles }

theorem randomisePowerup_map (w : World) (x y : ℤ) :
    (randomisePowerup w x y).map = w.map ∧ (randomisePowerup w x y).mapSize = w.mapSize := by
  unfold randomisePowerup
  dsimp only [World.rand]
  split <;> exact ⟨rfl,rfl⟩

theorem randomisePowerup_queues (w : World) (x y : ℤ) :
    (randomisePowerup w x y).bombs = w.bombs ∧ (randomisePowerup w x y).explodes = w.explodes := by
  unfold randomisePowerup
  dsimp only [World.rand]
  split <;> exact ⟨rfl,rfl⟩

/-- What every call of `randomise_powerup` keeps, all calls keep. -/
theorem uncover_all_induction {I : World → Prop} (hstep : ∀ w x y, I w → I (randomisePowerup w x y))
    (cells : List (ℤ × ℤ)) {w : World} (h : I w) : I (cells.foldl World.uncover w) := by
  induction cells generalizing w with
  | nil => exact h
  | cons c cells ih => exact ih (hstep w c.1 c.2 h)

theorem uncover_all_withMap (cells : List (ℤ × ℤ)) (w : World) (map : Grid) :
    cells.foldl World.uncover { w with map := map } = { cells.foldl World.uncover w with map := map } := by
  induction cells generalizing w with
  | nil => rfl
  | cons c cells ih =>
    have hstep : World.uncover { w with map := map } c = { w.uncover c with map := map } := by
      unfold World.uncover randomisePowerup
      dsimp only [World.rand]
      split <;> rfl
    rw [List.foldl_cons,List.foldl_cons,hstep,ih]

theorem blown_mapSize (w : World) (tiles : List (ℤ × ℤ)) : (w.blown tiles).mapSize = w.mapSize :=
  uncover_all_induction (I := fun t => t.mapSize = w.mapSize)
    (fun t x y h => (randomisePowerup_map t x y).2.trans h) (w.breakables tiles) rfl

theorem blown_queues (w : World) (tiles : List (ℤ × ℤ)) :
    (w.blown tiles).bombs = w.bombs ∧ (w.blown tiles).explodes = w.explodes :=
  uncover_all_induction (I := fun t => t.bombs = w.bombs ∧ t.explodes = w.explodes)
    (fun t x y h => ⟨(randomisePowerup_queues t x y).1.trans h.1,(randomisePowerup_queues t x y).2.trans h.2⟩)
    (w.breakables tiles) ⟨rfl,rfl⟩

theorem blown_at (w : World) (tiles : List (ℤ × ℤ)) (c : ℤ × ℤ) :
    (w.blown tiles).at c = if c ∈ tiles then .explosion else w.at c := by
  change tiles.foldl (fun map c => Grid.set map c.1 c.2 .explosion) w.map c.1 c.2 = if c ∈ tiles then _ else w.map c.1 c.2
  generalize w.map = map
  induction tiles generalizing map with
  | nil => rfl
  | cons t tiles ih =>
    have hset : Grid.set map t.1 t.2 .explosion c.1 c.2 = if c = t then .explosion else map c.1 c.2 := by
      simp only [Grid.set,Prod.ext_iff]
    rw [List.foldl_cons,ih,hset]
    by_cases hc : c ∈ tiles <;> simp [hc]

theorem blown_sameWalls {w : World} {tiles : List (ℤ × ℤ)} (h : ∀ c ∈ tiles, w.at c ≠ .wall) :
    SameWalls w (w.blown tiles) := by
  refine ⟨blown_mapSize w tiles,fun c => ?_⟩
  change (w.blown tiles).at c = .wall ↔ w.at c = .wall
  rw [blown_at]
  split
  · next hc => exact iff_of_false (by decide) (h c hc)
  · exact Iff.rfl

theorem blown_nil (w : World) : w.blown [] = w := rfl

theorem blown_append {tiles tiles' : List (ℤ × ℤ)} (w : World) (h : ∀ c ∈ tiles', c ∉ tiles) :
    (w.blown tiles).blown tiles' = w.blown (tiles ++ tiles') := by
  have hcalls : (w.blown tiles).breakables tiles' = w.breakables tiles' := by
    refine List.filter_congr fun c hc => ?_
    rw [blown_at,if_neg (h c hc)]
  have hmap : (w.blown tiles).scorched tiles' = w.scorched (tiles ++ tiles') := List.foldl_append.symm
  have hboth : w.breakables (tiles ++ tiles') = w.breakables tiles ++ w.breakables tiles' := List.filter_append _ _
  rw [World.blown,hcalls,hmap,World.blown,uncover_all_withMap,World.blown,hboth,List.foldl_append]

/-! ## Growing the arms -/

theorem handleSpread_eq (w : World) (x y : ℤ) (e : ExplosionInfo) :
    handleSpread w x y e = (w.blown [(x,y)],{ e with spreadPositions := e.spreadPositions ++ [⟨x,y⟩] }) := by
  have hmap : ∀ u : World, u.map = w.map →
      u.setTile x y .explosion = { u with map := w.scorched [(x,y)] } := by
    intro u hu
    rw [World.setTile,hu]
    rfl
  unfold handleSpread
  dsimp only
  by_cases hb : w.map x y = .breakable
  · have hcalls : w.breakables [(x,y)] = [(x,y)] := List.filter_cons_of_pos (decide_eq_true hb)
    rw [if_pos hb,hmap _ (randomisePowerup_map w x y).1,World.blown,hcalls]
    rfl
  · have hcalls : w.breakables [(x,y)] = [] := List.filter_cons_of_neg fun h => hb (of_decide_eq_true h)
    rw [if_neg hb,hmap w rfl,World.blown,hcalls]
    rfl

def positions (tiles : List (ℤ × ℤ)) : List Vector2 := tiles.map fun c => ⟨c.1,c.2⟩

theorem positions_nodup {tiles : List (ℤ × ℤ)} (h : tiles.Nodup) : (positions tiles).Nodup := by
  refine h.map fun c c' heq => ?_
  simp only [Vector2.mk.injEq,Int.cast_inj] at heq
  exact Prod.ext heq.1 heq.2

/-- The count of an arm whose tiles from the `i`-th on are these. -/
def grownAmt (amt : Direction → ℕ) (d : Direction) (i : ℕ) (tiles : List (ℤ × ℤ)) : Direction → ℕ :=
  if tiles = [] then amt else Function.update amt d (i + tiles.length - 1)

theorem spreadArm_eq (d : Direction) (x y : ℤ) (n i : ℕ) (w : World) (e : ExplosionInfo) :
    spreadArm d x y n i (w,e) = (w.blown (armTiles w d x y n i),
      { e with spreadAmt := grownAmt e.spreadAmt d i (armTiles w d x y n i),
               spreadPositions := e.spreadPositions ++ positions (armTiles w d x y n i) }) := by
  have hstop : ∀ (i : ℕ) (w : World) (e : ExplosionInfo), (w,e) = (w.blown [],
      { e with spreadAmt := grownAmt e.spreadAmt d i [],
               spreadPositions := e.spreadPositions ++ positions [] }) := by
    intro i w e
    rw [blown_nil,grownAmt,if_pos rfl,positions,List.map_nil,List.append_nil]
  induction n generalizing i w e with
  | zero => exact hstop i w e
  | succ n ih =>
    rw [spreadArm,armTiles]
    dsimp only
    split
    · exact hstop i w e
    · next hopen =>
      rw [Bool.or_eq_true,not_or,beq_iff_eq] at hopen
      have hwalls : SameWalls w (w.blown [d.tile x y i]) := by
        refine blown_sameWalls fun c hc => ?_
        rw [List.mem_singleton.mp hc]
        exact hopen.2
      have hafter : ∀ c ∈ armTiles w d x y n (i + 1), c ∉ [d.tile x y i] := by
        intro c hc hmem
        obtain ⟨k,hk,rfl,-,-⟩ := mem_armTiles hc
        have hsame := tile_inj_same (List.mem_singleton.mp hmem)
        omega
      have hamt : grownAmt (Function.update e.spreadAmt d i) d (i + 1) (armTiles w d x y n (i + 1)) =
          grownAmt e.spreadAmt d i (d.tile x y i :: armTiles w d x y n (i + 1)) := by
        cases armTiles w d x y n (i + 1) with
        | nil => simp [grownAmt]
        | cons t tiles => simp [grownAmt,Nat.add_assoc,Nat.add_comm 1]
      rw [handleSpread_eq,ih,armTiles_congr hwalls,blown_append w hafter,hamt]
      simp only [positions,List.map_cons,List.append_assoc,List.singleton_append]

theorem arms_eq (x y : ℤ) (n : ℕ) {directions : List Direction} (hn : directions.Nodup) (w : World) (e : ExplosionInfo)
    (he : ∀ d ∈ directions, e.spreadAmt d = 0) :
    directions.foldl (fun r d => spreadArm d x y n 1 r) (w,e) =
      (w.blown (directions.flatMap fun d => armTiles w d x y n 1),
        { e with spreadAmt := fun d => if d ∈ directions then (armTiles w d x y n 1).length else e.spreadAmt d,
                 spreadPositions := e.spreadPositions ++ positions (directions.flatMap fun d => armTiles w d x y n 1) }) := by
  induction directions generalizing w e with
  | nil => simp [blown_nil,positions]
  | cons d directions ih =>
    obtain ⟨hd,hn⟩ := List.nodup_cons.mp hn
    have hwalls : SameWalls w (w.blown (armTiles w d x y n 1)) := by
      refine blown_sameWalls fun c hc => ?_
      obtain ⟨-,-,-,-,hfree⟩ := mem_armTiles hc
      exact hfree
    have hrest : ∀ d', armTiles (w.blown (armTiles w d x y n 1)) d' x y n 1 = armTiles w d' x y n 1 :=
      fun d' => armTiles_congr hwalls d' x y n 1
    have hapart : ∀ c ∈ directions.flatMap fun d' => armTiles w d' x y n 1, c ∉ armTiles w d x y n 1 := by
      intro c hc hmem
      obtain ⟨d',hd',hc⟩ := List.mem_flatMap.mp hc
      obtain ⟨k,hk,rfl,-,-⟩ := mem_armTiles hmem
      obtain ⟨k',hk',heq,-,-⟩ := mem_armTiles hc
      exact hd ((tile_inj hk hk' heq).1 ▸ hd')
    have hown : grownAmt e.spreadAmt d 1 (armTiles w d x y n 1) d = (armTiles w d x y n 1).length := by
      cases armTiles w d x y n 1 with
      | nil => exact he d List.mem_cons_self
      | cons t tiles => simp [grownAmt]
    have hother : ∀ d' ≠ d, grownAmt e.spreadAmt d 1 (armTiles w d x y n 1) d' = e.spreadAmt d' := by
      intro d' hne
      unfold grownAmt
      split
      · rfl
      · exact Function.update_of_ne hne _ _
    have hzero : ∀ d' ∈ directions, grownAmt e.spreadAmt d 1 (armTiles w d x y n 1) d' = 0 := by
      intro d' hd'
      rw [hother d' (ne_of_mem_of_not_mem hd' hd)]
      exact he d' (List.mem_cons_of_mem d hd')
    rw [List.foldl_cons,spreadArm_eq,ih hn _ _ hzero]
    simp only [hrest]
    rw [blown_append w hapart]
    simp only [List.flatMap_cons,positions,List.map_append,List.append_assoc]
    congr 2
    funext d'
    by_cases hd' : d' = d
    · subst hd'
      rw [if_neg hd,hown,if_pos List.mem_cons_self]
    · rw [hother d' hd']
      exact if_congr (by rw [List.mem_cons,or_iff_right hd']) rfl rfl

/-! ## The explosion of a bomb -/

/-- What `trigger_explosion` does before it queues the explosion. -/
def burst (w : World) (bomb : BombInfo) : World × ExplosionInfo :=
  let x := toInt bomb.position.x
  let y := toInt bomb.position.y
  let explosion : ExplosionInfo := ⟨bomb.position,fun _ => 0,[],explodeLifetime,bomb.spread⟩
  let arm := fun d => spreadArm d x y bomb.spread.toNat 1
  arm .right (arm .left (arm .down (arm .up (w,explosion))))

theorem triggerExplosion_eq (w : World) (bomb : BombInfo) : triggerExplosion w bomb =
    { (burst w bomb).1 with explodes := ((burst w bomb).1.explodes.enqueue (burst w bomb).2).1 } := rfl

theorem burst_eq (w : World) (bomb : BombInfo) :
    burst w bomb = (w.blown (crossTiles w bomb.blast),
      ⟨bomb.position,
        fun d => (armTiles w d (toInt bomb.position.x) (toInt bomb.position.y) bomb.spread.toNat 1).length,
        positions (crossTiles w bomb.blast),explodeLifetime,bomb.spread⟩) := by
  have hdirections : [Direction.up,.down,.left,.right].Nodup := by decide
  have harms := arms_eq (toInt bomb.position.x) (toInt bomb.position.y) bomb.spread.toNat hdirections w
    ⟨bomb.position,fun _ => 0,[],explodeLifetime,bomb.spread⟩ fun _ _ => rfl
  refine harms.trans ?_
  have hall : ∀ d : Direction, d ∈ [Direction.up,.down,.left,.right] := by
    intro d
    cases d <;> decide
  simp only [hall,if_true,List.nil_append]
  rfl

end CoreStack.Bomberman
