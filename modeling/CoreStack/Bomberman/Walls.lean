import CoreStack.Bomberman.Arena
import CoreStack.Bomberman.Tick

/-! # Walls stay where they were generated

Bombs are put on the floor, arms of explosions stop at walls, and explosions that go out
empty only tiles they cover. So all that is ever overwritten is floor.
-/
namespace CoreStack.Bomberman
open Utils

/-- Tiles without walls that the arms of explosions do not leave. -/
structure Floor (base : World) (F : ℤ × ℤ → Prop) : Prop where
  free : ∀ c, F c → base.at c ≠ .wall
  arms : ∀ blast : Vector2 × ℤ, F blast.1.tile → ∀ c ∈ crossTiles base blast, F c

/-- The walls are as they were, and bombs and explosions lie on the floor. -/
structure Confined (base : World) (F : ℤ × ℤ → Prop) (w : World) : Prop where
  walls : SameWalls base w
  bombs : ∀ b ∈ w.bombs.queued, F b.position.tile
  fires : ∀ e ∈ w.explodes.queued, ∀ c ∈ e.tiles, F c
  hidden : Hidden w

section Confined
variable {base w : World} {F : ℤ × ℤ → Prop}

theorem Confined.free (h : Confined base F w) (hF : Floor base F) {c : ℤ × ℤ} (hc : F c) : w.at c ≠ .wall :=
  fun hwall => hF.free c hc ((h.walls.walls c).mp hwall)

theorem Confined.write (h : Confined base F w) (hF : Floor base F) {t : World} (hsize : t.mapSize = w.mapSize)
    (hmap : ∀ c, t.at c = w.at c ∨ F c ∧ t.at c ≠ .wall) (hbombs : ∀ b ∈ t.bombs.queued, F b.position.tile)
    (hfires : ∀ e ∈ t.explodes.queued, ∀ c ∈ e.tiles, F c) (hhidden : Hidden t) : Confined base F t := by
  refine ⟨⟨hsize.trans h.walls.mapSize,fun c => ?_⟩,hbombs,hfires,hhidden⟩
  rcases hmap c with heq | ⟨hc,hne⟩
  · exact (Eq.congr_left heq).trans (h.walls.walls c)
  · exact iff_of_false hne (hF.free c hc)

theorem detonate_confined (h : Confined base F w) (hF : Floor base F) {r : BombInfo × BombInfo}
    (htaken : F r.1.position.tile) (hblown : F r.2.position.tile) : Confined base F (detonate w r) := by
  have harms := hF.arms r.2.blast hblown
  refine h.write hF (detonate_mapSize w r) (fun c => ?_) ?_ ?_ (detonate_hidden h.hidden r)
  · rw [detonate_at w r (h.free hF htaken),crossTiles_congr h.walls]
    split
    · next hc => exact Or.inr ⟨harms c hc,by decide⟩
    · split
      · next hc =>
        subst hc
        exact Or.inr ⟨htaken,by decide⟩
      · exact Or.inl rfl
  · rw [detonate_bombs]
    exact h.bombs
  · intro e he c hc
    rw [detonate_explodes] at he
    rcases Queue.mem_enqueue_queued he with he | rfl
    · exact h.fires e he c hc
    · rw [detonated_tiles (h.free hF htaken),blastTiles_congr h.walls] at hc
      rcases List.mem_cons.mp hc with rfl | hc
      · exact hblown
      · exact harms c hc

theorem extinguish_confined (h : Confined base F w) (hF : Floor base F) {e : ExplosionInfo}
    (he : ∀ c ∈ e.tiles, F c) : Confined base F (extinguish w e) := by
  have hhidden : Hidden (extinguish w e) := by
    intro x y
    have hpending := extinguish_pending w e (x,y)
    unfold World.pending at hpending
    rw [hpending]
    split
    · decide
    · exact h.hidden x y
  refine h.write hF (extinguish_mapSize w e) (fun c => ?_) ?_ ?_ hhidden
  · rw [extinguish_at]
    split
    · next hc => exact Or.inr ⟨he c (mem_tiles.mpr (Or.inr hc.1)),(h.hidden c.1 c.2).1⟩
    · split
      · next hc => exact Or.inr ⟨he c hc,by decide⟩
      · exact Or.inl rfl
  · rw [extinguish_bombs]
    exact h.bombs
  · rw [extinguish_explodes]
    exact h.fires

/-! ## Whole steps -/

theorem detonate_all_confined (hF : Floor base F) (rs : List (BombInfo × BombInfo))
    (hrs : ∀ r ∈ rs, F r.1.position.tile ∧ F r.2.position.tile) (h : Confined base F w) :
    Confined base F (rs.foldl detonate w) := by
  induction rs generalizing w with
  | nil => exact h
  | cons r rs ih =>
    obtain ⟨htaken,hblown⟩ := hrs r List.mem_cons_self
    apply ih (fun q hq => hrs q (List.mem_cons_of_mem r hq))
    exact detonate_confined h hF htaken hblown

theorem extinguish_all_confined (hF : Floor base F) (es : List ExplosionInfo) (hes : ∀ e ∈ es, ∀ c ∈ e.tiles, F c)
    (h : Confined base F w) : Confined base F (es.foldl extinguish w) := by
  induction es generalizing w with
  | nil => exact h
  | cons e es ih =>
    apply ih (fun q hq => hes q (List.mem_cons_of_mem e hq))
    exact extinguish_confined h hF (hes e List.mem_cons_self)

theorem tickBombs_confined [Arithmetic] (h : Confined base F w) (hF : Floor base F) (deltaTime : ℚ) :
    Confined base F (tickBombs w deltaTime) := by
  obtain ⟨bombs,hworld,hleft,-⟩ := tickBombs_fold w deltaTime
  have hfold := detonate_all_confined hF (removals deltaTime w.bombs.queued.length w.bombs.queued) (fun r hr => by
    obtain ⟨htaken,-,b,hb,hposition,-⟩ := removals_mem hr
    rw [← hposition]
    exact ⟨h.bombs _ htaken,h.bombs b hb⟩) h
  rw [hworld]
  refine ⟨⟨hfold.walls.mapSize,hfold.walls.walls⟩,fun b hb => ?_,hfold.fires,hfold.hidden⟩
  obtain ⟨b',hb',rfl⟩ := List.mem_map.mp (hleft.subset hb)
  exact h.bombs b' (List.mem_of_mem_filter hb')

theorem tickExplosions_confined [Arithmetic] (h : Confined base F w) (hF : Floor base F) (deltaTime : ℚ) :
    Confined base F (tickExplosions w deltaTime) := by
  obtain ⟨out,explodes,hworld,hout,hlit,-⟩ := tickExplosions_fold w deltaTime
  have hfold := extinguish_all_confined hF out (fun e he => h.fires e (List.mem_of_mem_filter (hout.subset he))) h
  rw [hworld]
  refine ⟨⟨hfold.walls.mapSize,hfold.walls.walls⟩,hfold.bombs,fun e he => ?_,hfold.hidden⟩
  obtain ⟨e',he',rfl⟩ := List.mem_map.mp (hlit.subset he)
  exact h.fires e' (List.mem_of_mem_filter he')

theorem movement_confined [Arithmetic] {s : Bombd} (h : Confined base F s.world) (normalize : Vector2 → Vector2) (deltaTime : ℚ) :
    Confined base F (applyMovementAndPickups normalize deltaTime s).world := by
  have htrodden := advanceAll_trodden normalize deltaTime s.world s.session.players
  have hqueues := advanceAll_sameQueues normalize deltaTime s.world s.session.players
  change Trodden s.world (applyMovementAndPickups normalize deltaTime s).world at htrodden
  change s.world.SameQueues (applyMovementAndPickups normalize deltaTime s).world at hqueues
  refine ⟨h.walls.trans htrodden.walls,?_,?_,?_⟩
  · rw [hqueues.1]
    exact h.bombs
  · rw [hqueues.2]
    exact h.fires
  · unfold Hidden
    rw [htrodden.powerups]
    exact h.hidden

theorem tickSession_confined [Arithmetic] {s : Bombd} (h : Confined base F s.world) (hF : Floor base F)
    (normalize : Vector2 → Vector2) (deltaTime : ℚ) : Confined base F (tickSession normalize s deltaTime).1.world := by
  have hmoved := movement_confined h normalize deltaTime
  exact tickExplosions_confined (tickBombs_confined hmoved hF deltaTime) hF deltaTime

theorem placeBomb_confined (h : Confined base F w) (hF : Floor base F) (pos : Vector2) (stock : InventoryStock)
    (hpos : w.at pos.tile ≠ .wall → F pos.tile) : Confined base F (placeBomb w pos stock).1 := by
  rcases placeBomb_cases w pos stock with ⟨heq,-⟩ | ⟨hfree,-,heq⟩
  · rw [heq]
    exact h
  · rw [heq]
    have hfloor : w.at pos.tile ≠ .wall := by
      intro hwall
      have hmap : w.map (toInt pos.x) (toInt pos.y) = .wall := hwall
      rcases hfree with hfree | hfree <;> rw [hmap] at hfree <;> cases hfree
    refine h.write hF rfl (fun c => ?_) (fun b hb => ?_) h.fires h.hidden
    · have hset : (w.setTile (toInt pos.x) (toInt pos.y) .bomb).at c = if c = pos.tile then .bomb else w.at c :=
        setTile_map w _ _ _ c
      change (w.setTile (toInt pos.x) (toInt pos.y) .bomb).at c = _ ∨
        F c ∧ (w.setTile (toInt pos.x) (toInt pos.y) .bomb).at c ≠ _
      rw [hset]
      split
      · next hc =>
        rw [hc]
        exact Or.inr ⟨hpos hfloor,by decide⟩
      · exact Or.inl rfl
    · rcases Queue.mem_enqueue_queued hb with hb | rfl
      · exact h.bombs b hb
      · exact hpos hfloor

end Confined

/-! ## Every reachable session -/

theorem mem_crossTiles {w : World} {blast : Vector2 × ℤ} {c : ℤ × ℤ} (h : c ∈ crossTiles w blast) :
    ∃ (d : Direction) (k : ℕ), 1 ≤ k ∧ c = d.tile blast.1.tile.1 blast.1.tile.2 k ∧
      d.beyond w.mapSize blast.1.tile.1 blast.1.tile.2 k = false ∧ w.at c ≠ .wall := by
  obtain ⟨d,-,hd⟩ := List.mem_flatMap.mp h
  obtain ⟨k,hk,harm⟩ := mem_armTiles hd
  exact ⟨d,k,hk,harm⟩

theorem floor_free (base : World) : Floor base fun c => base.at c ≠ .wall := by
  constructor
  · exact fun _ h => h
  · intro blast _ c hc
    obtain ⟨_,_,_,_,_,hfree⟩ := mem_crossTiles hc
    exact hfree

theorem initSession_confined [Arithmetic] (draws : ℕ → ℕ) (clientIds : List ℕ) (F : ℤ × ℤ → Prop) :
    Confined (initSession draws clientIds).world F (initSession draws clientIds).world where
  walls := .refl _
  bombs b hb := by
    rw [(initSession_queues draws clientIds).1] at hb
    exact absurd hb List.not_mem_nil
  fires e he := by
    rw [(initSession_queues draws clientIds).2] at he
    exact absurd he List.not_mem_nil
  hidden := (initSession_sound draws clientIds).hidden

theorem step_confined [Arithmetic] {normalize : Vector2 → Vector2} {base : World} (s : Bombd) (input : BombInput) (t : Bombd)
    (h : Confined base (fun c => base.at c ≠ .wall) s.world) (ht : Bombd.step normalize s input = some t) :
    Confined base (fun c => base.at c ≠ .wall) t.world := by
  rcases step_world ht with hsame | ⟨pos,stock,hplaced⟩ | ⟨deltaTime,-,rfl⟩
  · rwa [hsame]
  · rw [hplaced]
    exact placeBomb_confined h (floor_free base) pos stock fun hfree hwall => hfree ((h.walls.walls _).mpr hwall)
  · exact tickSession_confined h (floor_free base) normalize deltaTime

/-- In every reachable session the walls are those of the generated map. -/
theorem run_sameWalls [Arithmetic] {normalize : Vector2 → Vector2} {draws : ℕ → ℕ} {clientIds : List ℕ} {inputs : List BombInput}
    {s : Bombd} (hrun : Execution.run (Bombd.step normalize) (initSession draws clientIds) inputs = some s) :
    SameWalls (initSession draws clientIds).world s.world :=
  (Execution.run_invariant step_confined hrun (initSession_confined draws clientIds _)).walls

end CoreStack.Bomberman
