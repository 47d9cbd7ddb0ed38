import CoreStack.Bomberman.Walls

/-! # The arms of an explosion

Inside a border of walls the tests for the edge of the map never decide: the wall is met
first. An arm is then the run of free tiles next to the bomb, and the explosion does to
the world what its tiles say.
-/
namespace CoreStack.Bomberman
open Utils

def World.Enclosed (w : World) : Prop := ∀ c, w.inside c.1 c.2 = true → Border w.mapSize c → w.at c = .wall

def Inner (mapSize : ℕ) (c : ℤ × ℤ) : Prop := 0 < c.1 ∧ c.1 < mapSize - 1 ∧ 0 < c.2 ∧ c.2 < mapSize - 1

instance (mapSize : ℕ) (c : ℤ × ℤ) : Decidable (Inner mapSize c) := inferInstanceAs (Decidable (_ ∧ _ ∧ _ ∧ _))

/-- `n` tiles in one direction from the bomb, from the `i`-th on. -/
def ray (d : Direction) (x y : ℤ) (n i : ℕ) : List (ℤ × ℤ) := (List.range' i n).map fun k : ℕ => d.tile x y k

def World.free (w : World) (cells : List (ℤ × ℤ)) : List (ℤ × ℤ) := cells.takeWhile fun c => w.at c ≠ .wall

def reach (w : World) (bomb : BombInfo) (d : Direction) : List (ℤ × ℤ) :=
  w.free (ray d (toInt bomb.position.x) (toInt bomb.position.y) bomb.spread.toNat 1)

/-- The tiles all arms can reach, in the order of the loops. -/
def reached (w : World) (bomb : BombInfo) : List (ℤ × ℤ) := [.up,.down,.left,.right].flatMap (reach w bomb)

/-! ## Arms are runs -/

theorem tile_next {mapSize : ℕ} {d : Direction} {x y : ℤ} {i : ℕ} (h : Inner mapSize (d.tile x y i)) :
    Inner mapSize (d.tile x y (i + 1 : ℕ)) ∨
      Border mapSize (d.tile x y (i + 1 : ℕ)) ∧ 0 ≤ (d.tile x y (i + 1 : ℕ)).1 ∧ 0 ≤ (d.tile x y (i + 1 : ℕ)).2 ∧
        (d.tile x y (i + 1 : ℕ)).1 < mapSize ∧ (d.tile x y (i + 1 : ℕ)).2 < mapSize := by
  unfold Inner Border at *
  cases d <;> simp only [Direction.tile] at * <;> omega

theorem inner_not_beyond {mapSize : ℕ} {d : Direction} {x y : ℤ} {i : ℕ} (h : Inner mapSize (d.tile x y i)) :
    d.beyond mapSize x y i = false := by
  unfold Inner at h
  cases d <;> simp only [Direction.tile] at h <;> simp only [Direction.beyond,decide_eq_false_iff_not] <;> omega

theorem ray_succ (d : Direction) (x y : ℤ) (n i : ℕ) :
    ray d x y (n + 1) i = d.tile x y i :: ray d x y n (i + 1) := rfl

theorem armTiles_eq_free {w : World} (hw : w.Enclosed) {d : Direction} {x y : ℤ} (n : ℕ) {i : ℕ}
    (hi : Inner w.mapSize (d.tile x y i)) : armTiles w d x y n (i + 1) = w.free (ray d x y n (i + 1)) := by
  induction n generalizing i with
  | zero => rfl
  | succ n ih =>
    rw [armTiles,ray_succ,World.free]
    rcases tile_next hi with hinner | ⟨hborder,hx,hy,hx',hy'⟩
    · rw [inner_not_beyond hinner,Bool.false_or]
      by_cases hwall : w.at (d.tile x y (i + 1 : ℕ)) = .wall
      · rw [List.takeWhile_cons_of_neg (by simpa using hwall)]
        exact if_pos (beq_iff_eq.mpr hwall)
      · rw [List.takeWhile_cons_of_pos (by simpa using hwall)]
        refine (if_neg fun h => hwall (beq_iff_eq.mp h)).trans ?_
        rw [ih hinner]
        rfl
    · have hwall : w.at (d.tile x y (i + 1 : ℕ)) = .wall := hw _ (decide_eq_true ⟨hx,hy,hx',hy'⟩) hborder
      rw [List.takeWhile_cons_of_neg (by simpa using hwall)]
      exact if_pos ((Bool.or_eq_true _ _).mpr (.inr (beq_iff_eq.mpr hwall)))

theorem armTiles_eq_reach {w : World} (hw : w.Enclosed) {bomb : BombInfo} (hin : Inner w.mapSize bomb.position.tile)
    (d : Direction) :
    armTiles w d (toInt bomb.position.x) (toInt bomb.position.y) bomb.spread.toNat 1 = reach w bomb d := by
  have hstart : d.tile (toInt bomb.position.x) (toInt bomb.position.y) (0 : ℕ) = bomb.position.tile := by
    cases d <;> simp [Direction.tile,Vector2.tile]
  exact armTiles_eq_free hw _ (hstart ▸ hin)

theorem mem_reach {w : World} {bomb : BombInfo} {d : Direction} {c : ℤ × ℤ} (h : c ∈ reach w bomb d) :
    ∃ k : ℕ, 1 ≤ k ∧ c = d.tile (toInt bomb.position.x) (toInt bomb.position.y) k := by
  obtain ⟨k,hk,rfl⟩ := List.mem_map.mp ((List.takeWhile_prefix _).subset h)
  exact ⟨k,(List.mem_range'_1.mp hk).1,rfl⟩

theorem reach_nodup (w : World) (bomb : BombInfo) (d : Direction) : (reach w bomb d).Nodup := by
  refine List.Nodup.sublist (List.takeWhile_sublist _) (List.Nodup.map_on ?_ List.nodup_range')
  intro k hk k' hk' h
  exact (tile_inj (List.mem_range'_1.mp hk).1 (List.mem_range'_1.mp hk').1 h).2

theorem reach_length_le (w : World) (bomb : BombInfo) (d : Direction) : (reach w bomb d).length ≤ bomb.spread.toNat := by
  have hle := (List.takeWhile_prefix (fun c => decide (w.at c ≠ .wall))
    (l := ray d (toInt bomb.position.x) (toInt bomb.position.y) bomb.spread.toNat 1)).length_le
  rwa [ray,List.length_map,List.length_range'] at hle

theorem reached_nodup (w : World) (bomb : BombInfo) : (reached w bomb).Nodup := by
  refine List.nodup_flatMap.mpr ⟨fun d _ => reach_nodup w bomb d,?_⟩
  have hdirections : [Direction.up,.down,.left,.right].Nodup := by decide
  refine hdirections.imp fun hne => List.disjoint_left.mpr fun c hc hc' => hne ?_
  obtain ⟨k,hk,rfl⟩ := mem_reach hc
  obtain ⟨k',hk',heq⟩ := mem_reach hc'
  exact (tile_inj hk hk' heq).1

theorem reached_length_le (w : World) {bomb : BombInfo} (hs : 0 ≤ bomb.spread) :
    ((reached w bomb).length : ℤ) ≤ 4 * bomb.spread := by
  have hup := reach_length_le w bomb .up
  have hdown := reach_length_le w bomb .down
  have hleft := reach_length_le w bomb .left
  have hright := reach_length_le w bomb .right
  simp only [reached,List.flatMap_cons,List.flatMap_nil,List.length_append,List.length_nil]
  omega

/-- An explosion within a border of walls spreads in every direction as far as the run of
tiles without walls goes, no further than the spread of the bomb. It remembers just these
tiles, each once. They burn and no other tile changes, and `randomise_powerup` is called
for those of them that were breakable. -/
theorem triggerExplosion_arms {w : World} (hw : w.Enclosed) {bomb : BombInfo} (hin : Inner w.mapSize bomb.position.tile)
    (hs : 0 ≤ bomb.spread) :
    (∀ d, (burst w bomb).2.spreadAmt d = (reach w bomb d).length) ∧
    (burst w bomb).2.spreadPositions = positions (reached w bomb) ∧
    (burst w bomb).2.spreadPositions.Nodup ∧
    ((burst w bomb).2.spreadPositions.length : ℤ) ≤ 4 * bomb.spread ∧
    (∀ c, (triggerExplosion w bomb).at c = if c ∈ reached w bomb then .explosion else w.at c) ∧
    triggerExplosion w bomb = { (w.breakables (reached w bomb)).foldl World.uncover w with
      map := (triggerExplosion w bomb).map, explodes := (w.explodes.enqueue (burst w bomb).2).1 } := by
  have hcross : crossTiles w bomb.blast = reached w bomb := by
    have hreach : reach w bomb = fun d =>
        armTiles w d (toInt bomb.position.x) (toInt bomb.position.y) bomb.spread.toNat 1 :=
      funext fun d => (armTiles_eq_reach hw hin d).symm
    rw [reached,hreach]
    rfl
  have hburst := burst_eq w bomb
  rw [hcross] at hburst
  have hpositions : (burst w bomb).2.spreadPositions = positions (reached w bomb) := by rw [hburst]
  refine ⟨fun d => ?_,hpositions,?_,?_,fun c => ?_,?_⟩
  · rw [hburst,← armTiles_eq_reach hw hin]
  · rw [hpositions]
    exact positions_nodup (reached_nodup w bomb)
  · rw [hpositions,positions,List.length_map]
    exact reached_length_le w hs
  · rw [triggerExplosion_eq,hburst]
    exact blown_at w _ c
  · have hexplodes : (burst w bomb).1.explodes = w.explodes := (burst_grows w bomb).explodes
    rw [triggerExplosion_eq,hexplodes,hburst]
    rfl

def cellar : World :=
  ⟨4,fun x y => if Inner 4 (x,y) then .breakable else .wall,fun _ _ => .empty,.init,.init,fun _ => 0⟩

def cellarBomb : BombInfo := ⟨⟨1,1⟩,3,0⟩

theorem triggerExplosion_arms_cellar : (burst cellar cellarBomb).2.spreadAmt .down = 1 ∧
    (burst cellar cellarBomb).2.spreadAmt .up = 0 ∧
    (burst cellar cellarBomb).2.spreadPositions = [⟨1,2⟩,⟨2,1⟩] ∧
    (triggerExplosion cellar cellarBomb).at (2,1) = .explosion := by
  have hw : cellar.Enclosed := by
    intro c _ hborder
    refine if_neg fun hinner => ?_
    unfold Border at hborder
    unfold Inner at hinner
    change c.1 = 0 ∨ c.2 = 0 ∨ c.1 = 4 - 1 ∨ c.2 = 4 - 1 at hborder
    dsimp only at hinner
    omega
  have hin : Inner cellar.mapSize cellarBomb.position.tile := by decide
  obtain ⟨hamt,hpositions,-,-,hat,-⟩ := triggerExplosion_arms hw hin (by decide)
  have hreached : reached cellar cellarBomb = [(1,2),(2,1)] := by decide
  refine ⟨(hamt .down).trans (by decide),(hamt .up).trans (by decide),?_,?_⟩
  · rw [hpositions,hreached]
    simp [positions]
  · rw [hat,hreached]
    rfl

end CoreStack.Bomberman
