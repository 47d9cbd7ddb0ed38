import CoreStack.Bomberman.Fuse

/-! # The tiles an explosion covers

`trigger_explosion` marks the tiles of the four arms and remembers them; the tile of the
bomb itself it neither marks nor looks at. `tick_explosions` empties all of them.
-/
namespace CoreStack.Bomberman
open Utils

theorem toInt_intCast (k : ℤ) : toInt k = k := by
  unfold toInt
  split
  · exact Int.floor_intCast k
  · exact Int.ceil_intCast k

def Vector2.tile (v : Vector2) : ℤ × ℤ := (toInt v.x,toInt v.y)

def ExplosionInfo.tiles (e : ExplosionInfo) : List (ℤ × ℤ) := (e.center :: e.spreadPositions).map Vector2.tile

def World.burning (w : World) (c : ℤ × ℤ) : Prop := w.map c.1 c.2 = .explosion

def blastTiles (w : World) (blast : Vector2 × ℤ) : List (ℤ × ℤ) := blast.1.tile :: crossTiles w blast

theorem blastTiles_congr {w t : World} (h : SameWalls w t) : blastTiles t = blastTiles w := by
  funext blast
  rw [blastTiles,blastTiles,crossTiles_congr h]

/-- The tiles burn and are remembered; no other tile begins or ceases to burn. -/
structure Burns (r : World × ExplosionInfo) (tiles : List (ℤ × ℤ)) (t : World × ExplosionInfo) : Prop where
  walls : SameWalls r.1 t.1
  burning : ∀ c, t.1.burning c ↔ c ∈ tiles ∨ r.1.burning c
  remembered : t.2.tiles = r.2.tiles ++ tiles
  timer : t.2.timer = r.2.timer

theorem burst_burns (w : World) (bomb : BombInfo) :
    Burns (w,⟨bomb.position,fun _ => 0,[],explodeLifetime,bomb.spread⟩) (crossTiles w bomb.blast) (burst w bomb) := by
  rw [burst_eq]
  refine ⟨blown_sameWalls fun c hc => crossTiles_free hc,fun c => ?_,?_,rfl⟩
  · change (w.blown (crossTiles w bomb.blast)).at c = .explosion ↔ _
    rw [blown_at]
    split
    · next hc => exact iff_of_true rfl (.inl hc)
    · next hc => exact (or_iff_right hc).symm
  · simp [ExplosionInfo.tiles,positions,Vector2.tile,toInt_intCast,Function.comp_def]

theorem burst_tiles (w : World) (bomb : BombInfo) :
    (burst w bomb).2.tiles = blastTiles w (burst w bomb).2.blast ∧ (burst w bomb).2.timer = explodeLifetime := by
  refine ⟨?_,(burst_burns w bomb).timer⟩
  rw [(burst_burns w bomb).remembered,(burst_grows w bomb).blast]
  rfl

/-! ## Going out -/

theorem clear_burning (w : World) (v : Vector2) (c : ℤ × ℤ) : (w.clear v).burning c ↔ w.burning c ∧ v.tile ≠ c := by
  rw [World.burning,World.clear,setTile_map]
  split
  · next h =>
    refine iff_of_false (by decide) ?_
    rintro ⟨-,hne⟩
    exact hne h.symm
  · next h => exact (and_iff_left fun heq => h heq.symm).symm

theorem clear_all_burning (positions : List Vector2) (w : World) (c : ℤ × ℤ) :
    (positions.foldl World.clear w).burning c ↔ w.burning c ∧ c ∉ positions.map Vector2.tile := by
  induction positions generalizing w with
  | nil => simp
  | cons v positions ih =>
    rw [List.foldl_cons,ih,clear_burning,List.map_cons,List.mem_cons,not_or,and_assoc,ne_comm]

/-- Powerups that wait under a fire are neither fire nor wall. -/
def Hidden (w : World) : Prop := ∀ x y, w.powerupsToSpawn x y ≠ .wall ∧ w.powerupsToSpawn x y ≠ .explosion

theorem spawnPending_hidden {w : World} (h : Hidden w) (v : Vector2) : Hidden (spawnPending w v) := by
  unfold spawnPending
  dsimp only
  split
  · exact h
  · intro x y
    dsimp only [Grid.set]
    split
    · decide
    · exact h x y

theorem spawnPending_burning {w : World} (h : Hidden w) {v : Vector2} (hv : ¬w.burning v.tile) (c : ℤ × ℤ) :
    (spawnPending w v).burning c ↔ w.burning c := by
  unfold spawnPending
  dsimp only
  split
  · exact Iff.rfl
  · change (w.setTile _ _ _).map c.1 c.2 = _ ↔ _
    rw [setTile_map]
    split
    · next hc =>
      rw [hc]
      exact iff_of_false (h _ _).2 hv
    · exact Iff.rfl

theorem spawnPending_all_burning (positions : List Vector2) {w : World} (h : Hidden w)
    (hout : ∀ v ∈ positions, ¬w.burning v.tile) (c : ℤ × ℤ) :
    (positions.foldl spawnPending w).burning c ↔ w.burning c := by
  induction positions generalizing w with
  | nil => exact Iff.rfl
  | cons v positions ih =>
    have hv := hout v List.mem_cons_self
    have hrest : ∀ v' ∈ positions, ¬(spawnPending w v).burning v'.tile := by
      intro v' hv'
      rw [spawnPending_burning h hv]
      exact hout v' (List.mem_cons_of_mem _ hv')
    rw [List.foldl_cons,ih (spawnPending_hidden h v) hrest,spawnPending_burning h hv]

theorem clear_all_hidden {w : World} (h : Hidden w) (positions : List Vector2) :
    Hidden (positions.foldl World.clear w) := by
  induction positions generalizing w with
  | nil => exact h
  | cons v positions ih => exact ih (w := w.clear v) h

theorem extinguish_burning {w : World} (h : Hidden w) (e : ExplosionInfo) (c : ℤ × ℤ) :
    (extinguish w e).burning c ↔ w.burning c ∧ c ∉ e.tiles := by
  have hall := clear_all_burning (e.center :: e.spreadPositions) w
  have hout : ∀ v ∈ e.spreadPositions, ¬((e.center :: e.spreadPositions).foldl World.clear w).burning v.tile := by
    intro v hv hburn
    exact ((hall _).mp hburn).2 (List.mem_map_of_mem (List.mem_cons_of_mem _ hv))
  refine Iff.trans ?_ (hall c)
  exact spawnPending_all_burning _ (clear_all_hidden h (e.center :: e.spreadPositions)) hout c

end CoreStack.Bomberman
