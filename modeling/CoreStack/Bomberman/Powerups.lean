import CoreStack.Bomberman.Placed

/-! # What becomes of powerups

`randomise_powerup` records a powerup beside the map. The first explosion over its tile
that goes out puts it on the map; the next one that goes out there removes it.
-/
namespace CoreStack.Bomberman
open Utils

/-! ## Fates -/

/-- What has become of the powerup of a tile. One that waits has this much left of the
lifetime of an explosion that began when it was recorded. -/
inductive Fate
  | absent
  | waiting (powerup : Tile) (left : ℚ)
  | shown (powerup : Tile)
  deriving DecidableEq

abbrev Fates := ℤ × ℤ → Fate

def Fate.picked (w t : World) (c : ℤ × ℤ) : Fate → Fate
  | .shown powerup => if t.at c = w.at c then .shown powerup else .absent
  | fate => fate

/-- An arm of a bomb that explodes in the tick reaches the tile. -/
def Swept [Arithmetic] (w : World) (deltaTime : ℚ) (c : ℤ × ℤ) : Prop :=
  ∃ r ∈ removals deltaTime w.bombs.queued.length w.bombs.queued, c ∈ crossTiles w r.2.blast

instance [Arithmetic] (w : World) (deltaTime : ℚ) (c : ℤ × ℤ) : Decidable (Swept w deltaTime c) :=
  inferInstanceAs (Decidable (∃ r ∈ removals deltaTime w.bombs.queued.length w.bombs.queued, c ∈ crossTiles w r.2.blast))

def Fate.swept [Arithmetic] (w : World) (deltaTime : ℚ) (c : ℤ × ℤ) (fate : Fate) : Fate :=
  if (tickBombs w deltaTime).pending c ≠ w.pending c then .waiting ((tickBombs w deltaTime).pending c) explodeLifetime
  else match fate with
    | .shown powerup => if Swept w deltaTime c then .absent else .shown powerup
    | fate => fate

/-- The explosions that go out in the tick with an arm over the tile. -/
def endings [Arithmetic] (w : World) (deltaTime : ℚ) (c : ℤ × ℤ) : ℕ :=
  w.explodes.queued.countP fun e => e.expires deltaTime && decide (c ∈ e.spread)

/-- Explosions go out: the first over a powerup that waits puts it on the map. -/
def Fate.uncovered [Arithmetic] (w : World) (deltaTime : ℚ) (c : ℤ × ℤ) : Fate → Fate
  | .waiting powerup left =>
    if endings w deltaTime c = 0 then .waiting powerup (fl (left - deltaTime)) else .shown powerup
  | fate => fate

def Fates.next [Arithmetic] (normalize : Vector2 → Vector2) (fates : Fates) (s : Bombd) : BombInput → Fates
  | .tick deltaTime => fun c =>
    let w := (applyMovementAndPickups normalize deltaTime s).world
    (((fates c).picked s.world w c).swept w deltaTime c).uncovered (tickBombs w deltaTime) deltaTime c
  | _ => fates

/-- The session with its fates as a history variable. -/
def followed [Arithmetic] (normalize : Vector2 → Vector2) (s : Bombd × Fates) (input : BombInput) : Option (Bombd × Fates) :=
  (Bombd.step normalize s.1 input).map fun t => (t,s.2.next normalize s.1 input)

/-- The map and the record of waiting powerups are as the fate says, and over a powerup
that waits there is an explosion that goes out before it has waited for a lifetime. -/
def Fate.Kept (w : World) (c : ℤ × ℤ) : Fate → Prop
  | .absent => ¬(w.at c).isPowerup ∧ w.pending c = .empty
  | .waiting powerup left => powerup.isPowerup ∧ w.pending c = powerup ∧ ¬(w.at c).isPowerup ∧
      ∃ e ∈ w.explodes.queued, c ∈ e.spread ∧ 0 < e.timer ∧ e.timer ≤ left
  | .shown powerup => powerup.isPowerup ∧ w.at c = powerup ∧ w.pending c = .empty

/-- When the explosions are ticked, none that goes out covers a powerup on the map, and one
that waits is covered by an explosion, but not by two that go out together. -/
structure Unharmed [Arithmetic] (w : World) (deltaTime : ℚ) (c : ℤ × ℤ) : Prop where
  shown : (w.at c).isPowerup → endings w deltaTime c = 0
  waiting : w.pending c ≠ .empty → endings w deltaTime c ≤ 1 ∧ ∃ e ∈ w.explodes.queued, c ∈ e.spread

/-! ## Where no powerup comes any more -/

/-- No powerup is on the tile, waits there or is hidden in it. -/
structure Barren (w : World) (c : ℤ × ℤ) : Prop where
  bare : ¬(w.at c).isPowerup
  open_tile : w.at c ≠ .breakable
  pending : w.pending c = .empty

def Covered (w : World) : Prop := ∀ c, w.pending c ≠ .empty → w.at c = .explosion

/-- Barren tiles stay barren, and what waits stays covered. -/
structure Smoulders (w t : World) : Prop where
  barren : ∀ c, Barren w c → Barren t c
  covered : Covered w → Covered t

theorem Smoulders.refl (w : World) : Smoulders w w := ⟨fun _ h => h,id⟩

theorem Smoulders.trans {w t u : World} (h : Smoulders w t) (h' : Smoulders t u) : Smoulders w u :=
  ⟨fun c hc => h'.barren c (h.barren c hc),h'.covered ∘ h.covered⟩

theorem Smoulders.of_eq {w t : World} (hmap : t.map = w.map) (hpending : t.powerupsToSpawn = w.powerupsToSpawn) :
    Smoulders w t := by
  have hat : ∀ c, t.at c = w.at c := fun c => congrFun (congrFun hmap c.1) c.2
  have hsame : ∀ c, t.pending c = w.pending c := fun c => congrFun (congrFun hpending c.1) c.2
  constructor
  · intro c hc
    exact ⟨by rw [hat]; exact hc.bare,by rw [hat]; exact hc.open_tile,(hsame c).trans hc.pending⟩
  · intro h c hc
    rw [hat]
    exact h c (by rwa [hsame] at hc)

theorem Tile.not_isPowerup_explosion : ¬Tile.explosion.isPowerup := by simp [isPowerup]

theorem Tile.not_isPowerup_empty : ¬Tile.empty.isPowerup := by simp [isPowerup]

theorem Tile.isPowerup.ne_empty {tile : Tile} (h : tile.isPowerup) : tile ≠ .empty := by
  rintro rfl
  exact not_isPowerup_empty h

theorem Covered.pending_of_powerup {w : World} (h : Covered w) {c : ℤ × ℤ} (hc : (w.at c).isPowerup) :
    w.pending c = .empty := by
  by_contra hne
  rw [h c hne] at hc
  exact Tile.not_isPowerup_explosion hc

theorem detonate_smoulders {w : World} {r : BombInfo × BombInfo} (hfloor : w.at r.1.position.tile ≠ .wall)
    (htaken : Barren w r.1.position.tile) : Smoulders w (detonate w r) := by
  constructor
  · intro c hc
    have hpending : (detonate w r).pending c = .empty := by
      rcases detonate_pending w r hfloor c with heq | ⟨-,hbreakable,-⟩
      · exact heq.trans hc.pending
      · exact absurd hbreakable hc.open_tile
    have hat := detonate_at w r hfloor c
    split at hat
    · exact ⟨by rw [hat]; exact Tile.not_isPowerup_explosion,by rw [hat]; decide,hpending⟩
    · split at hat
      · exact ⟨by rw [hat]; exact Tile.not_isPowerup_empty,by rw [hat]; decide,hpending⟩
      · exact ⟨by rw [hat]; exact hc.bare,by rw [hat]; exact hc.open_tile,hpending⟩
  · intro h c hc
    rw [detonate_at w r hfloor]
    split
    · rfl
    · next harm =>
      have heq := (detonate_pending w r hfloor c).resolve_right fun hnew => harm hnew.1
      rw [heq] at hc
      rw [if_neg]
      · exact h c hc
      · rintro rfl
        exact hc htaken.pending

theorem detonate_all_smoulders (rs : List (BombInfo × BombInfo)) {w : World}
    (hfloor : ∀ r ∈ rs, w.at r.1.position.tile ≠ .wall) (htaken : ∀ r ∈ rs, Barren w r.1.position.tile) :
    Smoulders w (rs.foldl detonate w) := by
  induction rs generalizing w with
  | nil => exact .refl w
  | cons r rs ih =>
    have hr := hfloor r List.mem_cons_self
    have hfirst := detonate_smoulders hr (htaken r List.mem_cons_self)
    have hwalls := detonate_sameWalls hr
    apply hfirst.trans
    apply ih
    · exact fun q hq hwall => hfloor q (List.mem_cons_of_mem r hq) ((hwalls.walls _).mp hwall)
    · exact fun q hq => hfirst.barren _ (htaken q (List.mem_cons_of_mem r hq))

theorem extinguish_smoulders {w : World} {e : ExplosionInfo} (hcenter : Barren w e.center.tile) :
    Smoulders w (extinguish w e) := by
  constructor
  · intro c hc
    have hat := extinguish_at w e c
    rw [if_neg fun h => h.2 hc.pending] at hat
    have hpending : (extinguish w e).pending c = .empty := by
      rw [extinguish_pending,hc.pending,ite_self]
    split at hat
    · exact ⟨by rw [hat]; exact Tile.not_isPowerup_empty,by rw [hat]; decide,hpending⟩
    · exact ⟨by rw [hat]; exact hc.bare,by rw [hat]; exact hc.open_tile,hpending⟩
  · intro h c hc
    rw [extinguish_pending] at hc
    split at hc
    · exact absurd rfl hc
    · next harm =>
      rw [extinguish_at,if_neg fun h => harm h.1,if_neg]
      · exact h c hc
      · intro htile
        rcases mem_tiles.mp htile with rfl | hspread
        · exact hc hcenter.pending
        · exact harm hspread

theorem extinguish_all_smoulders (es : List ExplosionInfo) {w : World} (hcenter : ∀ e ∈ es, Barren w e.center.tile) :
    Smoulders w (es.foldl extinguish w) := by
  induction es generalizing w with
  | nil => exact .refl w
  | cons e es ih =>
    have hfirst := extinguish_smoulders (hcenter e List.mem_cons_self)
    apply hfirst.trans
    exact ih fun q hq => hfirst.barren _ (hcenter q (List.mem_cons_of_mem e hq))

theorem picked_smoulders {w t : World} (h : Picked w t) (hpending : ∀ c, t.pending c = w.pending c) : Smoulders w t := by
  constructor
  · intro c hc
    have hempty : t.pending c = .empty := (hpending c).trans hc.pending
    rcases h c with heq | ⟨hpowerup,-⟩
    · exact ⟨by rw [heq]; exact hc.bare,by rw [heq]; exact hc.open_tile,hempty⟩
    · exact absurd hpowerup hc.bare
  · intro hw c hc
    rw [hpending] at hc
    have hfire := hw c hc
    rcases h c with heq | ⟨hpowerup,-⟩
    · rw [heq,hfire]
    · rw [hfire] at hpowerup
      exact absurd hpowerup Tile.not_isPowerup_explosion

theorem placeBomb_smoulders (w : World) (pos : Vector2) (stock : InventoryStock) :
    Smoulders w (placeBomb w pos stock).1 := by
  by_cases hcan : CanPlace w pos stock
  · obtain ⟨-,-,hmap⟩ := placeBomb_placed hcan
    constructor
    · intro c hc
      have hpending := (placeBomb_pending w pos stock c).trans hc.pending
      have hat := hmap c
      split at hat
      · exact ⟨by rw [hat]; simp [Tile.isPowerup],by rw [hat]; decide,hpending⟩
      · exact ⟨by rw [hat]; exact hc.bare,by rw [hat]; exact hc.open_tile,hpending⟩
    · intro h c hc
      rw [placeBomb_pending] at hc
      have hfire := h c hc
      rw [hmap,if_neg]
      · exact hfire
      · rintro rfl
        rcases hcan.1 with hfree | hfree <;> rw [hfree] at hfire <;> cases hfire
  · rw [placeBomb_refused hcan]
    exact .refl w

/-- No powerup comes to a tile with a bomb or under the centre of an explosion. -/
structure Buried (w : World) : Prop where
  bombs : ∀ b ∈ w.bombs.queued, Barren w b.position.tile
  centers : ∀ e ∈ w.explodes.queued, Barren w e.center.tile
  covered : Covered w

/-- The explosions after the bombs have been ticked: those before, and new ones. -/
theorem ticked_fire [Arithmetic] {w : World} (hs : Sound w) {deltaTime : ℚ} {e : ExplosionInfo}
    (he : e ∈ (tickBombs w deltaTime).explodes.queued) : (∃ e' ∈ w.explodes.queued, e'.fire = e.fire) ∨
      ∃ r ∈ removals deltaTime w.bombs.queued.length w.bombs.queued, (blastTiles w r.2.blast,explodeLifetime) = e.fire := by
  have hmem := List.mem_map_of_mem (f := (·.fire)) he
  rw [tickBombs_fires hs,fires,List.mem_append] at hmem
  exact hmem.imp List.mem_map.mp fun h => List.mem_map.mp (List.mem_of_mem_take h)

theorem burning_fire [Arithmetic] {w : World} (hs : Sound w) (deltaTime : ℚ) {e : ExplosionInfo} (he : e ∈ w.explodes.queued) :
    ∃ e' ∈ (tickBombs w deltaTime).explodes.queued, e'.fire = e.fire := by
  apply List.mem_map.mp
  rw [tickBombs_fires hs,fires]
  exact List.mem_append_left _ (List.mem_map_of_mem he)

theorem fire_parts {e e' : ExplosionInfo} (h : e.fire = e'.fire) :
    e.center.tile = e'.center.tile ∧ e.spread = e'.spread ∧ e.timer = e'.timer := by
  obtain ⟨htiles,htimer⟩ := Prod.mk.inj h
  obtain ⟨hcenter,hspread⟩ := List.cons.inj htiles
  exact ⟨hcenter,hspread,htimer⟩

theorem tickBombs_buried [Arithmetic] {w : World} (hs : Sound w) (h : Buried w) (deltaTime : ℚ) : Buried (tickBombs w deltaTime) := by
  have hfires : ∀ e ∈ (tickBombs w deltaTime).explodes.queued, _ := fun _ he => ticked_fire hs he
  obtain ⟨bombs,hworld,hleft,-⟩ := tickBombs_fold w deltaTime
  have hsmoulders := (detonate_all_smoulders _ (removals_floor hs deltaTime)
    fun r hr => h.bombs _ (removals_mem hr).1).trans
      (.of_eq (t := (List.foldl detonate w _).withBombs bombs) rfl rfl)
  rw [hworld] at hfires ⊢
  constructor
  · intro b hb
    obtain ⟨b',hb',rfl⟩ := List.mem_map.mp (hleft.subset hb)
    exact hsmoulders.barren _ (h.bombs b' (List.mem_of_mem_filter hb'))
  · intro e he
    apply hsmoulders.barren
    rcases hfires e he with ⟨e',he',heq⟩ | ⟨r,hr,heq⟩
    · rw [← (fire_parts heq).1]
      exact h.centers e' he'
    · obtain ⟨-,-,b,hb,hposition,-⟩ := removals_mem hr
      have hcenter : r.2.position.tile = e.center.tile := (List.cons.inj (Prod.mk.inj heq).1).1
      rw [← hcenter,← hposition]
      exact h.bombs b hb
  · exact hsmoulders.covered h.covered

theorem tickExplosions_buried [Arithmetic] {w : World} (h : Buried w) (deltaTime : ℚ) : Buried (tickExplosions w deltaTime) := by
  obtain ⟨out,explodes,hworld,hout,hlit,-⟩ := tickExplosions_fold w deltaTime
  have hsmoulders := (extinguish_all_smoulders out fun e he =>
    h.centers e (List.mem_of_mem_filter (hout.subset he))).trans
      (.of_eq (t := (List.foldl extinguish w out).withExplodes explodes) rfl rfl)
  have hbombs := tickExplosions_bombs w deltaTime
  rw [hworld] at hbombs ⊢
  constructor
  · rw [hbombs]
    exact fun b hb => hsmoulders.barren _ (h.bombs b hb)
  · intro e he
    obtain ⟨e',he',rfl⟩ := List.mem_map.mp (hlit.subset he)
    exact hsmoulders.barren _ (h.centers e' (List.mem_of_mem_filter he'))
  · exact hsmoulders.covered h.covered

theorem movement_pending [Arithmetic] (normalize : Vector2 → Vector2) (deltaTime : ℚ) (s : Bombd) (c : ℤ × ℤ) :
    (applyMovementAndPickups normalize deltaTime s).world.pending c = s.world.pending c :=
  congrFun (congrFun (advanceAll_trodden normalize deltaTime s.world s.session.players).powerups c.1) c.2

theorem movement_buried [Arithmetic] {s : Bombd} (h : Buried s.world) (normalize : Vector2 → Vector2) (deltaTime : ℚ) :
    Buried (applyMovementAndPickups normalize deltaTime s).world := by
  have hqueues := advanceAll_sameQueues normalize deltaTime s.world s.session.players
  change s.world.SameQueues (applyMovementAndPickups normalize deltaTime s).world at hqueues
  have hsmoulders := picked_smoulders (advanceAll_picked normalize deltaTime s.world s.session.players)
    (movement_pending normalize deltaTime s)
  change Smoulders s.world (applyMovementAndPickups normalize deltaTime s).world at hsmoulders
  constructor
  · rw [hqueues.1]
    exact fun b hb => hsmoulders.barren _ (h.bombs b hb)
  · rw [hqueues.2]
    exact fun e he => hsmoulders.barren _ (h.centers e he)
  · exact hsmoulders.covered h.covered

theorem placeBomb_buried {w : World} (h : Buried w) (pos : Vector2) (stock : InventoryStock) :
    Buried (placeBomb w pos stock).1 := by
  have hsmoulders := placeBomb_smoulders w pos stock
  constructor
  · intro b hb
    by_cases hcan : CanPlace w pos stock
    · rw [(placeBomb_placed hcan).1] at hb
      rcases Queue.mem_enqueue_queued hb with hb | rfl
      · exact hsmoulders.barren _ (h.bombs b hb)
      · apply hsmoulders.barren
        -- the tile was free, so nothing waits there
        have hpending : w.pending pos.tile = .empty := by
          by_contra hne
          have hfire := h.covered pos.tile hne
          rcases hcan.1 with hfree | hfree <;> rw [hfree] at hfire <;> cases hfire
        rcases hcan.1 with hfree | hfree
        · exact ⟨by rw [hfree]; simp [Tile.isPowerup],by rw [hfree]; decide,hpending⟩
        · exact ⟨by rw [hfree]; simp [Tile.isPowerup],by rw [hfree]; decide,hpending⟩
    · rw [placeBomb_refused hcan] at hb ⊢
      exact h.bombs b hb
  · rw [placeBomb_explodes]
    exact fun e he => hsmoulders.barren _ (h.centers e he)
  · exact hsmoulders.covered h.covered

theorem step_buried [Arithmetic] {normalize : Vector2 → Vector2} (s : Bombd) (input : BombInput) (t : Bombd)
    (h : Sound s.world ∧ Buried s.world) (ht : Bombd.step normalize s input = some t) :
    Sound t.world ∧ Buried t.world := by
  refine ⟨step_sound s input t h.1 ht,?_⟩
  rcases step_world ht with hsame | ⟨pos,stock,hplaced⟩ | ⟨deltaTime,-,rfl⟩
  · rw [hsame]
    exact h.2
  · rw [hplaced]
    exact placeBomb_buried h.2 pos stock
  · have hmoved := movement_buried h.2 normalize deltaTime
    have hsound := (movement_moves normalize deltaTime h.1).sound
    exact tickExplosions_buried (tickBombs_buried hsound hmoved deltaTime) deltaTime

theorem initSession_buried [Arithmetic] (draws : ℕ → ℕ) (clientIds : List ℕ) : Buried (initSession draws clientIds).world := by
  constructor
  · intro b hb
    rw [(initSession_queues draws clientIds).1] at hb
    exact absurd hb List.not_mem_nil
  · intro e he
    rw [(initSession_queues draws clientIds).2] at he
    exact absurd he List.not_mem_nil
  · intro c hc
    unfold World.pending at hc
    rw [initSession_powerups] at hc
    exact absurd rfl hc

/-! ## One tile through a tick -/

theorem detonate_all_at (rs : List (BombInfo × BombInfo)) (w : World)
    (hfloor : ∀ r ∈ rs, w.at r.1.position.tile ≠ .wall) {c : ℤ × ℤ} (hc : ∀ r ∈ rs, c ≠ r.1.position.tile) :
    (rs.foldl detonate w).at c = if ∃ r ∈ rs, c ∈ crossTiles w r.2.blast then .explosion else w.at c := by
  induction rs generalizing w with
  | nil => simp
  | cons r rs ih =>
    have hr := hfloor r List.mem_cons_self
    have hwalls := detonate_sameWalls hr
    have hrest := ih (detonate w r) (fun q hq hwall => hfloor q (List.mem_cons_of_mem r hq) ((hwalls.walls _).mp hwall))
      fun q hq => hc q (List.mem_cons_of_mem r hq)
    rw [crossTiles_congr hwalls,detonate_at w r hr,if_neg (hc r List.mem_cons_self)] at hrest
    rw [List.foldl_cons,hrest]
    by_cases hlater : ∃ q ∈ rs, c ∈ crossTiles w q.2.blast
    · obtain ⟨q,hq,harm⟩ := hlater
      rw [if_pos ⟨q,hq,harm⟩,if_pos ⟨q,List.mem_cons_of_mem r hq,harm⟩]
    · rw [if_neg hlater]
      refine if_congr ?_ rfl rfl
      constructor
      · exact fun harm => ⟨r,List.mem_cons_self,harm⟩
      · rintro ⟨q,hq,harm⟩
        rcases List.mem_cons.mp hq with rfl | hq
        · exact harm
        · exact absurd ⟨q,hq,harm⟩ hlater

/-- Bombs that explode leave fire, free tiles and what was there. -/
theorem detonate_all_leaves (rs : List (BombInfo × BombInfo)) (w : World)
    (hfloor : ∀ r ∈ rs, w.at r.1.position.tile ≠ .wall) (c : ℤ × ℤ) : (rs.foldl detonate w).at c = w.at c ∨
      (rs.foldl detonate w).at c = .explosion ∨ (rs.foldl detonate w).at c = .empty := by
  induction rs generalizing w with
  | nil => exact Or.inl rfl
  | cons r rs ih =>
    have hr := hfloor r List.mem_cons_self
    have hwalls := detonate_sameWalls hr
    rcases ih (detonate w r) fun q hq hwall => hfloor q (List.mem_cons_of_mem r hq) ((hwalls.walls _).mp hwall) with
      heq | hleft
    · rw [detonate_at w r hr] at heq
      split at heq
      · exact Or.inr (Or.inl heq)
      · split at heq
        · exact Or.inr (Or.inr heq)
        · exact Or.inl heq
    · exact Or.inr hleft

theorem detonate_all_pending (rs : List (BombInfo × BombInfo)) (w : World)
    (hfloor : ∀ r ∈ rs, w.at r.1.position.tile ≠ .wall) (c : ℤ × ℤ) :
    (rs.foldl detonate w).pending c = w.pending c ∨
      w.at c = .breakable ∧ ((rs.foldl detonate w).pending c).isPowerup := by
  induction rs generalizing w with
  | nil => exact Or.inl rfl
  | cons r rs ih =>
    have hr := hfloor r List.mem_cons_self
    have hwalls := detonate_sameWalls hr
    rcases ih (detonate w r) fun q hq hwall => hfloor q (List.mem_cons_of_mem r hq) ((hwalls.walls _).mp hwall) with
      heq | ⟨hbreakable,hpowerup⟩
    · rcases detonate_pending w r hr c with hkept | ⟨-,hbreakable,hpowerup⟩
      · exact Or.inl (heq.trans hkept)
      · rw [← heq] at hpowerup
        exact Or.inr ⟨hbreakable,hpowerup⟩
    · rw [detonate_at w r hr] at hbreakable
      split at hbreakable
      · cases hbreakable
      · split at hbreakable
        · cases hbreakable
        · exact Or.inr ⟨hbreakable,hpowerup⟩

/-- The first explosion over the tile puts up what waits, the second takes it down. -/
theorem extinguish_all_at (es : List ExplosionInfo) (w : World) {c : ℤ × ℤ} (hc : ∀ e ∈ es, c ≠ e.center.tile) :
    (es.foldl extinguish w).at c = (match es.countP fun e => decide (c ∈ e.spread) with
      | 0 => w.at c
      | 1 => w.pending c
      | _ + 2 => .empty) ∧
    (es.foldl extinguish w).pending c = if es.countP (fun e => decide (c ∈ e.spread)) = 0 then w.pending c else .empty := by
  induction es generalizing w with
  | nil => exact ⟨rfl,rfl⟩
  | cons e es ih =>
    obtain ⟨hat,hpending⟩ := ih (extinguish w e) fun q hq => hc q (List.mem_cons_of_mem e hq)
    rw [List.foldl_cons,hat,hpending,extinguish_at,extinguish_pending]
    by_cases harm : c ∈ e.spread
    · rw [List.countP_cons_of_pos (by simpa using harm),if_pos harm,if_pos (mem_tiles.mpr (Or.inr harm))]
      constructor
      · cases es.countP fun e => decide (c ∈ e.spread) with
        | zero =>
          by_cases hw : w.pending c = .empty
          · simp [hw]
          · simp [harm,hw]
        | succ n => cases n <;> rfl
      · simp
    · have htile : c ∉ e.tiles := fun h => (mem_tiles.mp h).elim (hc e List.mem_cons_self) harm
      rw [List.countP_cons_of_neg (by simpa using harm),if_neg harm,if_neg htile,if_neg fun h => harm h.1]
      exact ⟨rfl,rfl⟩

theorem extinguish_all_absent (es : List ExplosionInfo) (w : World) {c : ℤ × ℤ}
    (h : ¬(w.at c).isPowerup ∧ w.pending c = .empty) :
    ¬((es.foldl extinguish w).at c).isPowerup ∧ (es.foldl extinguish w).pending c = .empty := by
  induction es generalizing w with
  | nil => exact h
  | cons e es ih =>
    apply ih
    rw [extinguish_at,extinguish_pending,if_neg fun hwaits => hwaits.2 h.2,h.2,ite_self]
    refine ⟨?_,rfl⟩
    split
    · exact Tile.not_isPowerup_empty
    · exact h.1

/-- Before the explosions are ticked: a powerup that waits has an explosion that goes out in
time, if it has one at all. -/
def Fate.Tracked (w : World) (c : ℤ × ℤ) : Fate → Prop
  | .absent => ¬(w.at c).isPowerup ∧ w.pending c = .empty
  | .waiting powerup left => powerup.isPowerup ∧ w.pending c = powerup ∧
      ((∃ e ∈ w.explodes.queued, c ∈ e.spread) → ∃ e ∈ w.explodes.queued, c ∈ e.spread ∧ e.timer ≤ left)
  | .shown powerup => powerup.isPowerup ∧ w.at c = powerup

theorem picked_kept {w t : World} {c : ℤ × ℤ} (hpicked : Picked w t) (hpending : t.pending c = w.pending c)
    (hqueue : t.explodes = w.explodes) {fate : Fate} (h : fate.Kept w c) : (fate.picked w t c).Kept t c := by
  cases fate with
  | absent =>
    refine ⟨?_,hpending.trans h.2⟩
    rcases hpicked c with heq | ⟨-,hempty⟩
    · rw [heq]
      exact h.1
    · rw [hempty]
      exact Tile.not_isPowerup_empty
  | waiting powerup left =>
    obtain ⟨hpowerup,hwaits,hbare,hcover⟩ := h
    have heq := (hpicked c).resolve_right fun hgone => hbare hgone.1
    refine ⟨hpowerup,hpending.trans hwaits,?_,?_⟩
    · rw [heq]
      exact hbare
    · rw [hqueue]
      exact hcover
  | shown powerup =>
    obtain ⟨hpowerup,hat,hnone⟩ := h
    rw [Fate.picked]
    split
    · next heq => exact ⟨hpowerup,heq.trans hat,hpending.trans hnone⟩
    · next hne =>
      obtain ⟨-,hempty⟩ := (hpicked c).resolve_left hne
      refine ⟨?_,hpending.trans hnone⟩
      rw [hempty]
      exact Tile.not_isPowerup_empty

theorem swept_tracked [Arithmetic] {w : World} (hs : Sound w) (hb : Buried w) (deltaTime : ℚ) {c : ℤ × ℤ} {fate : Fate}
    (h : fate.Kept w c) : (fate.swept w deltaTime c).Tracked (tickBombs w deltaTime) c := by
  have hfloor := removals_floor hs deltaTime
  obtain ⟨bombs,hworld,-,-⟩ := tickBombs_fold w deltaTime
  have hat : (tickBombs w deltaTime).at c = (List.foldl detonate w
      (removals deltaTime w.bombs.queued.length w.bombs.queued)).at c := by rw [hworld]; rfl
  have hpending : (tickBombs w deltaTime).pending c = (List.foldl detonate w
      (removals deltaTime w.bombs.queued.length w.bombs.queued)).pending c := by rw [hworld]; rfl
  by_cases hnew : (tickBombs w deltaTime).pending c ≠ w.pending c
  · unfold Fate.swept
    rw [if_pos hnew]
    rw [hpending] at hnew ⊢
    obtain ⟨-,hpowerup⟩ := (detonate_all_pending _ w hfloor c).resolve_left hnew
    refine ⟨hpowerup,hpending,?_⟩
    rintro ⟨e,he,harm⟩
    have htimer := (tickBombs_blazes hs deltaTime).sound.timers e (List.mem_of_mem_drop he)
    exact ⟨e,he,harm,htimer⟩
  · have hsame := not_not.mp hnew
    unfold Fate.swept
    rw [if_neg hnew]
    cases fate with
    | absent =>
      refine ⟨?_,hsame.trans h.2⟩
      rw [hat]
      rcases detonate_all_leaves _ w hfloor c with heq | heq | heq
      · rw [heq]
        exact h.1
      · rw [heq]
        exact Tile.not_isPowerup_explosion
      · rw [heq]
        exact Tile.not_isPowerup_empty
    | waiting powerup left =>
      obtain ⟨hpowerup,hwaits,-,e,he,harm,-,hdue⟩ := h
      refine ⟨hpowerup,hsame.trans hwaits,fun _ => ?_⟩
      obtain ⟨e',he',hfire⟩ := burning_fire hs deltaTime he
      obtain ⟨-,hspread,htimer⟩ := fire_parts hfire
      exact ⟨e',he',by rwa [hspread],by rwa [htimer]⟩
    | shown powerup =>
      obtain ⟨hpowerup,htile,hnone⟩ := h
      -- no bomb is taken out where a powerup lies
      have hc : ∀ r ∈ removals deltaTime w.bombs.queued.length w.bombs.queued, c ≠ r.1.position.tile := by
        rintro r hr rfl
        apply (hb.bombs _ (removals_mem hr).1).bare
        rw [htile]
        exact hpowerup
      have hleft := hat.trans (detonate_all_at _ w hfloor hc)
      dsimp only
      split
      · next hswept =>
        refine ⟨?_,hsame.trans hnone⟩
        rw [hleft.trans (if_pos hswept)]
        exact Tile.not_isPowerup_explosion
      · next hspared => exact ⟨hpowerup,(hleft.trans (if_neg hspared)).trans htile⟩

theorem tickExplosions_tile [Arithmetic] {w : World} (hb : Buried w) (deltaTime : ℚ) {c : ℤ × ℤ} (hfertile : ¬Barren w c) :
    (tickExplosions w deltaTime).at c = (match endings w deltaTime c with
      | 0 => w.at c
      | 1 => w.pending c
      | _ + 2 => .empty) ∧
    (tickExplosions w deltaTime).pending c = if endings w deltaTime c = 0 then w.pending c else .empty := by
  obtain ⟨out,explodes,hworld,hout,-,-⟩ := tickExplosions_fold w deltaTime
  have hcount : out.countP (fun e => decide (c ∈ e.spread)) = endings w deltaTime c := by
    rw [hout.countP_eq,List.countP_filter]
    exact List.countP_congr fun e _ => by rw [Bool.and_comm]
  have hapart : ∀ e ∈ out, c ≠ e.center.tile := by
    rintro e he rfl
    exact hfertile (hb.centers e (List.mem_of_mem_filter (hout.subset he)))
  have hleft := extinguish_all_at out w hapart
  rw [hcount] at hleft
  rw [hworld]
  exact hleft

/-- As long as no explosion over it goes out, a powerup waits on if one of them will. -/
theorem waiting_burns_iff [Arithmetic] {w : World} (hb : Buried w) {deltaTime : ℚ} {c : ℤ × ℤ} {powerup : Tile} {left : ℚ}
    (h : (Fate.waiting powerup left).Tracked w c) (hn : endings w deltaTime c = 0) :
    (Fate.waiting powerup (fl (left - deltaTime))).Kept (tickExplosions w deltaTime) c ↔ Unharmed w deltaTime c := by
  obtain ⟨hpowerup,hwaits,hdue⟩ := h
  have hempty : w.pending c ≠ .empty := by
    rw [hwaits]
    exact hpowerup.ne_empty
  obtain ⟨hleft,hnext⟩ := tickExplosions_tile hb deltaTime fun hbarren => hempty hbarren.pending
  rw [hn] at hleft hnext
  obtain ⟨out,explodes,hworld,-,hlit,-⟩ := tickExplosions_fold w deltaTime
  have hqueue : (tickExplosions w deltaTime).explodes = explodes := by rw [hworld]; rfl
  constructor
  · rintro ⟨-,-,-,e',he',harm,-,-⟩
    refine ⟨fun _ => hn,fun _ => ⟨by omega,?_⟩⟩
    rw [hqueue] at he'
    obtain ⟨e,he,rfl⟩ := List.mem_map.mp (hlit.subset he')
    exact ⟨e,List.mem_of_mem_filter he,harm⟩
  · intro hunharmed
    obtain ⟨e,he,harm,hintime⟩ := hdue (hunharmed.waiting hempty).2
    -- it outlasts the tick, since none over the tile goes out
    have hlong : e.expires deltaTime = false := by
      have hnone := List.countP_eq_zero.mp hn e he
      simpa [harm] using hnone
    refine ⟨hpowerup,hnext.trans hwaits,?_,?_⟩
    · rw [hleft,hb.covered c hempty]
      exact Tile.not_isPowerup_explosion
    · rw [hqueue]
      refine ⟨e.burn deltaTime,hlit.symm.subset (List.mem_map_of_mem (List.mem_filter.mpr ⟨he,by simp [hlong]⟩)),harm,?_,?_⟩
      · exact ExplosionInfo.not_expires.mp (by simp [hlong])
      · exact fl_mono (sub_le_sub_right hintime deltaTime)

/-- The first explosion that goes out shows what waited, and the second takes it away. -/
theorem waiting_ends_iff [Arithmetic] {w : World} (hb : Buried w) {deltaTime : ℚ} {c : ℤ × ℤ} {powerup : Tile} {left : ℚ}
    (h : (Fate.waiting powerup left).Tracked w c) (hn : endings w deltaTime c ≠ 0) :
    (Fate.shown powerup).Kept (tickExplosions w deltaTime) c ↔ Unharmed w deltaTime c := by
  obtain ⟨hpowerup,hwaits,-⟩ := h
  have hempty : w.pending c ≠ .empty := by
    rw [hwaits]
    exact hpowerup.ne_empty
  obtain ⟨hleft,hnext⟩ := tickExplosions_tile hb deltaTime fun hbarren => hempty hbarren.pending
  rw [if_neg hn] at hnext
  obtain ⟨n,hsucc⟩ := Nat.exists_eq_succ_of_ne_zero hn
  rw [hsucc] at hleft
  cases n with
  | zero =>
    refine iff_of_true ⟨hpowerup,hleft.trans hwaits,hnext⟩ ⟨fun hshown => ?_,fun _ => ⟨by omega,?_⟩⟩
    · rw [hb.covered c hempty] at hshown
      exact absurd hshown Tile.not_isPowerup_explosion
    · obtain ⟨e,he,hends⟩ := List.countP_pos_iff.mp (Nat.pos_of_ne_zero hn)
      rw [Bool.and_eq_true,decide_eq_true_eq] at hends
      exact ⟨e,he,hends.2⟩
  | succ n =>
    refine iff_of_false ?_ fun hunharmed => ?_
    · rintro ⟨-,hshown,-⟩
      rw [hleft] at hshown
      exact hpowerup.ne_empty hshown.symm
    · have := (hunharmed.waiting hempty).1
      omega

theorem shown_burns_iff [Arithmetic] {w : World} (hb : Buried w) {deltaTime : ℚ} {c : ℤ × ℤ} {powerup : Tile}
    (h : (Fate.shown powerup).Tracked w c) :
    (Fate.shown powerup).Kept (tickExplosions w deltaTime) c ↔ Unharmed w deltaTime c := by
  obtain ⟨hpowerup,htile⟩ := h
  have hhere : (w.at c).isPowerup := htile.symm ▸ hpowerup
  have hnone := hb.covered.pending_of_powerup hhere
  obtain ⟨hleft,hnext⟩ := tickExplosions_tile hb deltaTime fun hbarren => hbarren.bare hhere
  rw [hnone] at hleft hnext
  rcases hn : endings w deltaTime c with _ | n
  · rw [hn] at hleft hnext
    exact iff_of_true ⟨hpowerup,hleft.trans htile,hnext⟩ ⟨fun _ => hn,fun hwaits => absurd hnone hwaits⟩
  · refine iff_of_false ?_ fun hunharmed => ?_
    · rintro ⟨-,hshown,-⟩
      have hempty : (tickExplosions w deltaTime).at c = .empty := by
        rw [hleft,hn]
        cases n <;> rfl
      rw [hempty] at hshown
      exact hpowerup.ne_empty hshown.symm
    · have := hunharmed.shown hhere
      omega

theorem uncovered_kept_iff [Arithmetic] {w : World} (hb : Buried w) {deltaTime : ℚ} {c : ℤ × ℤ} {fate : Fate}
    (h : fate.Tracked w c) :
    (fate.uncovered w deltaTime c).Kept (tickExplosions w deltaTime) c ↔ Unharmed w deltaTime c := by
  cases fate with
  | absent =>
    obtain ⟨out,explodes,hworld,-,-,-⟩ := tickExplosions_fold w deltaTime
    refine iff_of_true ?_ ⟨fun hpowerup => absurd hpowerup h.1,fun hwaits => absurd h.2 hwaits⟩
    rw [hworld]
    exact extinguish_all_absent out w h
  | waiting powerup left =>
    unfold Fate.uncovered
    dsimp only
    split
    · next hn => exact waiting_burns_iff hb h hn
    · next hn => exact waiting_ends_iff hb h hn
  | shown powerup => exact shown_burns_iff hb h

/-! ## Runs -/

def Bombd.Unharmed [Arithmetic] (normalize : Vector2 → Vector2) (s : Bombd) : BombInput → Prop
  | .tick deltaTime => ∀ c, Bomberman.Unharmed (tickBombs (applyMovementAndPickups normalize deltaTime s).world deltaTime)
      deltaTime c
  | _ => True

def PowerupsKept (s : Bombd × Fates) : Prop := ∀ c, (s.2 c).Kept s.1.world c

theorem placeBomb_kept {w : World} (hw : Covered w) (pos : Vector2) (stock : InventoryStock) {c : ℤ × ℤ} {fate : Fate}
    (h : fate.Kept w c) : fate.Kept (placeBomb w pos stock).1 c := by
  have hpending := placeBomb_pending w pos stock c
  have hqueue := placeBomb_explodes w pos stock
  by_cases hcan : CanPlace w pos stock
  · have hmap := (placeBomb_placed hcan).2.2 c
    by_cases hc : c = pos.tile
    · rw [if_pos hc] at hmap
      have hfree : w.at c = .empty ∨ w.at c = .player := by
        rw [hc]
        exact hcan.1
      cases fate with
      | absent =>
        refine ⟨?_,hpending.trans h.2⟩
        rw [hmap]
        simp [Tile.isPowerup]
      | waiting powerup left =>
        obtain ⟨hpowerup,hwaits,-⟩ := h
        have hfire := hw c (by rw [hwaits]; exact hpowerup.ne_empty)
        rcases hfree with hfree | hfree <;> rw [hfree] at hfire <;> cases hfire
      | shown powerup =>
        obtain ⟨hpowerup,htile,-⟩ := h
        rw [← htile] at hpowerup
        rcases hfree with hfree | hfree <;> rw [hfree] at hpowerup <;> rcases hpowerup with hne | hne <;> cases hne
    · rw [if_neg hc] at hmap
      cases fate with
      | absent => exact ⟨by rw [hmap]; exact h.1,hpending.trans h.2⟩
      | waiting powerup left =>
        obtain ⟨hpowerup,hwaits,hbare,hcover⟩ := h
        exact ⟨hpowerup,hpending.trans hwaits,by rwa [hmap],by rwa [hqueue]⟩
      | shown powerup =>
        obtain ⟨hpowerup,htile,hnone⟩ := h
        exact ⟨hpowerup,hmap.trans htile,hpending.trans hnone⟩
  · rw [placeBomb_refused hcan]
    exact h

theorem followed_eq_some [Arithmetic] {normalize : Vector2 → Vector2} {s t : Bombd × Fates} {input : BombInput} :
    followed normalize s input = some t ↔
      Bombd.step normalize s.1 input = some t.1 ∧ t.2 = s.2.next normalize s.1 input := by
  rw [followed,Option.map_eq_some_iff]
  constructor
  · rintro ⟨u,hu,rfl⟩
    exact ⟨hu,rfl⟩
  · rintro ⟨hu,hfates⟩
    exact ⟨t.1,hu,Prod.ext rfl hfates.symm⟩

theorem tick_kept_iff [Arithmetic] (normalize : Vector2 → Vector2) {s : Bombd} {fates : Fates} (hs : Sound s.world)
    (hb : Buried s.world) (h : PowerupsKept (s,fates)) (deltaTime : ℚ) :
    PowerupsKept ((tickSession normalize s deltaTime).1,fates.next normalize s (.tick deltaTime)) ↔
      s.Unharmed normalize (.tick deltaTime) := by
  have hmoves := movement_moves normalize deltaTime hs
  have hmoved := movement_buried hb normalize deltaTime
  refine forall_congr' fun c => ?_
  have hpicked := picked_kept (advanceAll_picked normalize deltaTime s.world s.session.players)
    (movement_pending normalize deltaTime s c) hmoves.queues.2 (h c)
  exact uncovered_kept_iff (tickBombs_buried hmoves.sound hmoved deltaTime) (swept_tracked hmoves.sound hmoved deltaTime hpicked)

theorem applyBombPlace_kept [Arithmetic] {s : Bombd} (hw : Covered s.world) (playerId : ℕ) {c : ℤ × ℤ} {fate : Fate}
    (h : fate.Kept s.world c) : fate.Kept (applyBombPlace s playerId).world c := by
  rcases applyBombPlace_world s playerId with hsame | ⟨pos,stock,hplaced⟩
  · rwa [hsame]
  · rw [hplaced]
    exact placeBomb_kept hw pos stock h

theorem followed_kept_iff [Arithmetic] {normalize : Vector2 → Vector2} {s t : Bombd × Fates} {input : BombInput}
    (hs : Sound s.1.world ∧ Buried s.1.world) (h : PowerupsKept s) (ht : followed normalize s input = some t) :
    PowerupsKept t ↔ s.1.Unharmed normalize input := by
  obtain ⟨s,fates⟩ := s
  obtain ⟨t,fates'⟩ := t
  obtain ⟨ht,rfl⟩ := followed_eq_some.mp ht
  cases input with
  | move playerId dx dy sprinting =>
    cases ht
    refine iff_of_true (fun c => ?_) trivial
    change (fates c).Kept (applyMove s playerId dx dy sprinting).world c
    rw [applyMove_world]
    exact h c
  | place playerId =>
    cases ht
    exact iff_of_true (fun c => applyBombPlace_kept hs.2.covered playerId (h c)) trivial
  | disconnect playerId =>
    cases ht
    refine iff_of_true (fun c => ?_) trivial
    change (fates c).Kept (applyDisconnect s playerId).world c
    rw [applyDisconnect_world]
    exact h c
  | tick deltaTime =>
    obtain ⟨-,rfl⟩ := step_tick ht
    exact tick_kept_iff normalize hs.1 hs.2 h deltaTime

theorem initSession_kept [Arithmetic] (draws : ℕ → ℕ) (clientIds : List ℕ) :
    PowerupsKept (initSession draws clientIds,fun _ => .absent) := by
  intro c
  refine ⟨fun hpowerup => ?_,?_⟩
  · have hground : ((initSession draws clientIds).world.at c).isGround := initSession_ground draws clientIds c
    rcases hpowerup with hpowerup | hpowerup <;> rw [hpowerup] at hground <;>
      rcases hground with hne | hne | hne | hne <;> cases hne
  · unfold World.pending
    rw [initSession_powerups]

theorem run_kept_iff [Arithmetic] (normalize : Vector2 → Vector2) (s₀ : Bombd × Fates) (hs : Sound s₀.1.world ∧ Buried s₀.1.world)
    (h : PowerupsKept s₀) (inputs : List BombInput) :
    (∀ n s, Execution.run (followed normalize) s₀ (inputs.take n) = some s → PowerupsKept s) ↔
    ∀ n s input t, Execution.run (followed normalize) s₀ (inputs.take n) = some s → inputs[n]? = some input →
      followed normalize s input = some t → s.1.Unharmed normalize input :=
  Execution.safe_iff (I := fun s : Bombd × Fates => Sound s.1.world ∧ Buried s.1.world)
    (P := fun s : Bombd × Fates => PowerupsKept s)
    (fun s input t hs ht => step_buried s.1 input t.1 hs (followed_eq_some.mp ht).1)
    (fun _ _ _ hs h hmeets ht => (followed_kept_iff hs h ht).mpr hmeets)
    (fun _ _ _ hs h ht hafter => (followed_kept_iff hs h ht).mp hafter) hs h inputs

/-- All along a run every powerup recorded for a tile waits under an explosion that goes
out in time, is then on the map, and leaves it only with a player or in the arm of a bomb
that explodes, if and only if no tick of explosions harms one. -/
theorem powerups_kept_iff [Arithmetic] (normalize : Vector2 → Vector2) (draws : ℕ → ℕ) (clientIds : List ℕ) (inputs : List BombInput) :
    (∀ n s, Execution.run (followed normalize) (initSession draws clientIds,fun _ => .absent) (inputs.take n) = some s →
      PowerupsKept s) ↔
    ∀ n s input t, Execution.run (followed normalize) (initSession draws clientIds,fun _ => .absent) (inputs.take n) = some s →
      inputs[n]? = some input → followed normalize s input = some t → s.1.Unharmed normalize input :=
  run_kept_iff normalize (initSession draws clientIds,fun _ => .absent)
    ⟨initSession_sound draws clientIds,initSession_buried draws clientIds⟩ (initSession_kept draws clientIds) inputs

attribute [local instance] Arithmetic.binary32

def richDraws (n : ℕ) : ℕ := if n < 97 then 99 else 0

/-- A lone player in the corner puts a bomb down, runs to the next tile and puts down another one. -/
def hurriedBombs : List BombInput :=
  .place 1 :: .move 1 0 (-1) true :: List.replicate 11 (.tick tickSeconds) ++
    .place 1 :: .move 1 0 0 false :: List.replicate 94 (.tick tickSeconds)

/-- The first explosion puts the powerup on the map, the second one was burning already
and removes it. -/
theorem hurried_bombs_lose_powerup :
    ¬ ∀ (normalize : Vector2 → Vector2) (draws : ℕ → ℕ) (clientIds : List ℕ) (inputs : List BombInput) (s : Bombd × Fates),
      Execution.run (followed normalize) (initSession draws clientIds,fun _ => .absent) inputs = some s →
      PowerupsKept s := by
  intro h
  obtain ⟨s,hs,ht⟩ := Execution.exists_of_run_any (followed id) (initSession richDraws [1],fun _ => .absent) hurriedBombs
    (fun s => decide (s.1.world.at (2,2) = .empty) && decide (s.2 (2,2) = .shown .powerupFire)) (by decide +kernel)
  simp only [Bool.and_eq_true,decide_eq_true_eq] at ht
  have hkept := h id richDraws [1] hurriedBombs s hs (2,2)
  rw [ht.2] at hkept
  have hlost := hkept.2.1.symm.trans ht.1
  cases hlost

end CoreStack.Bomberman
