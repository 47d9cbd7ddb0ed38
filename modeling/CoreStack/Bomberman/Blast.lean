import CoreStack.Bomberman.Flames

/-! # Who dies in a blast

Players die on tiles that burn once bombs and explosions have been ticked. The tile of a
bomb that explodes is not set on fire, and a bomb taken out later in the tick puts its
own tile out.
-/
namespace CoreStack.Bomberman
open Utils Marking

/-! ## The players' moves -/

/-- Walls, fires and waiting powerups are left alone. -/
structure Trodden (w t : World) : Prop where
  walls : SameWalls w t
  burning : ∀ c, t.burning c ↔ w.burning c
  powerups : t.powerupsToSpawn = w.powerupsToSpawn

theorem Trodden.refl (w : World) : Trodden w w := ⟨.refl w,fun _ => Iff.rfl,rfl⟩

theorem Trodden.trans {w t u : World} (h : Trodden w t) (h' : Trodden t u) : Trodden w u :=
  ⟨h.walls.trans h'.walls,fun c => (h'.burning c).trans (h.burning c),h'.powerups.trans h.powerups⟩

theorem setTile_trodden {w : World} {x y : ℤ} (hwall : w.map x y ≠ .wall) (hfire : w.map x y ≠ .explosion) :
    Trodden w (w.setTile x y .empty) := by
  refine ⟨setTile_sameWalls hwall (by decide),fun c => ?_,rfl⟩
  rw [World.burning,setTile_map]
  split
  · next h =>
    rw [h]
    exact iff_of_false (by decide) hfire
  · exact Iff.rfl

theorem pickUp_trodden (r : Pickup) (tile : ℤ × ℤ) : Trodden r.world (pickUp r tile).world := by
  unfold pickUp
  split
  · exact .refl _
  · dsimp only
    split
    · next h => exact setTile_trodden (by rw [h]; decide) (by rw [h]; decide)
    · next h => exact setTile_trodden (by rw [h]; decide) (by rw [h]; decide)
    · exact .refl _

theorem pickUp_all_trodden (tiles : List (ℤ × ℤ)) (r : Pickup) : Trodden r.world (tiles.foldl pickUp r).world := by
  induction tiles generalizing r with
  | nil => exact .refl _
  | cons t tiles ih => exact (pickUp_trodden r t).trans (ih _)

theorem advance_trodden [Arithmetic] (normalize : Vector2 → Vector2) (deltaTime : ℚ) (w : World) (p : BombPlayer) :
    Trodden w (advance normalize deltaTime w p).1 := by
  unfold advance
  split
  · exact .refl w
  · exact pickUp_all_trodden _ ⟨w,_,_⟩

theorem advanceAll_trodden [Arithmetic] (normalize : Vector2 → Vector2) (deltaTime : ℚ) (w : World) (players : List BombPlayer) :
    Trodden w (advanceAll normalize deltaTime w players).1 := by
  induction players generalizing w with
  | nil => exact .refl w
  | cons p players ih => exact (advance_trodden normalize deltaTime w p).trans (ih _)

/-- What the tick finds when the players have moved. -/
structure Moves (w t : World) : Prop extends Trodden w t where
  queues : w.SameQueues t
  sound : Sound t

theorem movement_moves [Arithmetic] (normalize : Vector2 → Vector2) (deltaTime : ℚ) {s : Bombd} (hs : Sound s.world) :
    Moves s.world (applyMovementAndPickups normalize deltaTime s).world := by
  have htrodden := advanceAll_trodden normalize deltaTime s.world s.session.players
  have hqueues := advanceAll_sameQueues normalize deltaTime s.world s.session.players
  refine ⟨htrodden,hqueues,?_⟩
  refine hs.change (fun c hc => (htrodden.walls.walls c).mp hc) hqueues.1 ?_ hqueues.2
  intro x y
  rw [show (applyMovementAndPickups normalize deltaTime s).world.powerupsToSpawn = s.world.powerupsToSpawn from
    htrodden.powerups]
  exact hs.hidden x y

/-! ## Every reachable session -/

theorem sound_start (mapSize : ℕ) (map : Grid) (draws : ℕ → ℕ) :
    Sound ⟨mapSize,map,fun _ _ => .empty,.init,.init,draws⟩ where
  floor _ hb := absurd hb List.not_mem_nil
  hidden _ _ := ⟨nofun,nofun⟩
  head := rfl
  timers _ he := absurd he List.not_mem_nil

theorem initSession_sound [Arithmetic] (draws : ℕ → ℕ) (clientIds : List ℕ) : Sound (initSession draws clientIds).world := by
  rw [initSession]
  exact sound_start _ _ _

theorem placeBomb_sound {w : World} (h : Sound w) (pos : Vector2) (stock : InventoryStock) :
    Sound (placeBomb w pos stock).1 := by
  rcases placeBomb_cases w pos stock with ⟨heq,-⟩ | ⟨-,-,heq⟩
  · rw [heq]
    exact h
  · rw [heq]
    have hset : Sound (w.setTile (toInt pos.x) (toInt pos.y) .bomb) :=
      h.change (setTile_noNewWalls w _ _ (by decide)) rfl h.hidden rfl
    refine ⟨fun b hb => ?_,hset.hidden,hset.head,hset.timers⟩
    dsimp only at hb ⊢
    rcases Queue.enqueue_cases w.bombs ⟨pos,stock.numFires,bombTimer⟩ with hitems | ⟨hitems,-⟩
    · rw [hitems,List.mem_append,List.mem_singleton] at hb
      rcases hb with hb | rfl
      · exact hset.floor b hb
      · intro hwall
        have hbomb : (w.setTile (toInt pos.x) (toInt pos.y) .bomb).map pos.tile.1 pos.tile.2 = .bomb :=
          (setTile_map w _ _ _ pos.tile).trans (if_pos rfl)
        rw [hbomb] at hwall
        cases hwall
    · rw [hitems] at hb
      exact hset.floor b hb

theorem tickSession_sound [Arithmetic] (normalize : Vector2 → Vector2) {s : Bombd} (hs : Sound s.world) {deltaTime : ℚ}
    (hpos : 0 < deltaTime) : Sound (tickSession normalize s deltaTime).1.world :=
  (tickExplosions_douses (tickBombs_blazes (movement_moves normalize deltaTime hs).sound deltaTime).sound hpos).sound

theorem step_sound [Arithmetic] {normalize : Vector2 → Vector2} (s : Bombd) (input : BombInput) (t : Bombd) (hs : Sound s.world)
    (h : Bombd.step normalize s input = some t) : Sound t.world := by
  rcases step_world h with hsame | ⟨pos,stock,hplaced⟩ | ⟨deltaTime,hpos,rfl⟩
  · rwa [hsame]
  · rw [hplaced]
    exact placeBomb_sound hs pos stock
  · exact tickSession_sound normalize hs hpos

/-! ## Who dies -/

def BombPlayer.overlapped [Arithmetic] (p : BombPlayer) : List (ℤ × ℤ) :=
  (getAllOverlappingTiles p.box.position.x p.box.position.y p.box.size).tiles

def exploded [Arithmetic] (normalize : Vector2 → Vector2) (s : Bombd) (deltaTime : ℚ) : List ExplosionInfo :=
  triggered (applyMovementAndPickups normalize deltaTime s).world deltaTime

/-- `on_explosion` is called for them, as long as the queue has room. -/
theorem tickSession_reports [Arithmetic] (normalize : Vector2 → Vector2) (s : Bombd) (deltaTime : ℚ) :
    (tickSession normalize s deltaTime).2 = (exploded normalize s deltaTime).take (500 - s.world.explodes.rear) := by
  have hexplodes := (advanceAll_sameQueues normalize deltaTime s.world s.session.players).2
  change (applyMovementAndPickups normalize deltaTime s).world.explodes = _ at hexplodes
  have hqueues := tickBombsLoop_queues deltaTime ((applyMovementAndPickups normalize deltaTime s).world.bombs.rear -
    (applyMovementAndPickups normalize deltaTime s).world.bombs.head)
    (applyMovementAndPickups normalize deltaTime s).world.bombs.head (applyMovementAndPickups normalize deltaTime s).world
  rw [tickBombsLoop_eq,hexplodes] at hqueues
  simp only [tickSession,hqueues,hexplodes]
  exact List.drop_left

def NoOtherExpires [Arithmetic] (normalize : Vector2 → Vector2) (s : Bombd) (deltaTime : ℚ) (e : ExplosionInfo) : Prop :=
  ∀ e' ∈ (tickBombs (applyMovementAndPickups normalize deltaTime s).world deltaTime).explodes.queued,
    fl (e'.timer - deltaTime) ≤ 0 → e' = e

def Kills [Arithmetic] (normalize : Vector2 → Vector2) (s : Bombd) (deltaTime : ℚ) (e : ExplosionInfo) : Prop :=
  ∀ p ∈ (tickSession normalize s deltaTime).1.session.players, p.active = true →
    (∃ c ∈ p.overlapped, c ∈ e.tiles) → p.alive = false

/-- A player who has moved into the cross of a bomb touches a tile of the arena that
burns until the players are checked. -/
def Caught [Arithmetic] (s : Bombd) (deltaTime : ℚ) (blast : Vector2 × ℤ) (p : BombPlayer) : Prop :=
  ∃ c ∈ p.overlapped, s.world.inside c.1 c.2 = true ∧ StaysLit s.world deltaTime c ∧
    (fl (explodeLifetime - deltaTime) ≤ 0 → c ∉ blastTiles s.world blast)

theorem burning_iff [Arithmetic] (w : World) (p : BombPlayer) : p.burning w = true ↔
    p.active = true ∧ p.alive = true ∧ ∃ c ∈ p.overlapped, w.inside c.1 c.2 = true ∧ w.burning c := by
  simp [BombPlayer.burning,BombPlayer.overlapped,World.burning,and_assoc]

theorem kills_iff_burning [Arithmetic] (normalize : Vector2 → Vector2) (s : Bombd) (deltaTime : ℚ) (e : ExplosionInfo) :
    Kills normalize s deltaTime e ↔ ∀ p ∈ (applyMovementAndPickups normalize deltaTime s).session.players,
      p.active = true → p.alive = true → (∃ c ∈ p.overlapped, c ∈ e.tiles) →
      p.burning (tickSession normalize s deltaTime).1.world = true := by
  constructor
  · intro h p hp hactive halive hstands
    by_contra hcool
    have hp' : p ∈ (tickSession normalize s deltaTime).1.session.players := List.mem_map.mpr ⟨p,hp,if_neg hcool⟩
    rw [h p hp' hactive hstands] at halive
    cases halive
  · intro h p' hp' hactive hstands
    obtain ⟨p,hp,rfl⟩ := List.mem_map.mp hp'
    split at hactive
    · next hburns => rw [if_pos hburns]
    · next hcool =>
      rw [if_neg hcool] at hstands ⊢
      exact Bool.eq_false_iff.mpr fun halive => hcool (h p hp hactive halive hstands)

/-- What burns when the players are checked, if no explosion but this new one goes out. -/
theorem tickSession_burning [Arithmetic] {normalize : Vector2 → Vector2} {s : Bombd} (hs : Sound s.world) {deltaTime : ℚ}
    (hpos : 0 < deltaTime) {e : ExplosionInfo} (he : e ∈ exploded normalize s deltaTime)
    (hothers : NoOtherExpires normalize s deltaTime e) (c : ℤ × ℤ) :
    (tickSession normalize s deltaTime).1.world.burning c ↔
      StaysLit s.world deltaTime c ∧ (fl (explodeLifetime - deltaTime) ≤ 0 → c ∉ e.tiles) := by
  have hmoves := movement_moves normalize deltaTime hs
  have hblazes := tickBombs_blazes hmoves.sound deltaTime
  have hdouses := tickExplosions_douses hblazes.sound hpos
  refine (hdouses.burning c).trans (and_congr ?_ ?_)
  · rw [hblazes.burning c,setsOnFire_congr hmoves.walls,hmoves.queues.1]
    exact remains_congr hmoves.burning
  · have htimer := (hblazes.shape e he).2
    constructor
    · intro h hlong
      -- the first explosion in the queue goes out: it is this one
      have hqueue : (tickBombs (applyMovementAndPickups normalize deltaTime s).world deltaTime).explodes.queued ≠ [] := by
        rw [Queue.queued,hblazes.sound.head]
        exact hblazes.queued (Or.inl (List.ne_nil_of_mem he))
      obtain ⟨e',rest,hcons⟩ := List.exists_cons_of_ne_nil hqueue
      have hmem : e' ∈ (tickBombs (applyMovementAndPickups normalize deltaTime s).world deltaTime).explodes.queued := by
        rw [hcons]
        exact List.mem_cons_self
      have hshort := hblazes.sound.timers e' (List.mem_of_mem_drop hmem)
      have hout : fl (e'.timer - deltaTime) ≤ 0 := (fl_mono (sub_le_sub_right hshort deltaTime)).trans hlong
      rw [← hothers e' hmem hout]
      exact h e' hmem hout
    · intro h e' hmem hout
      have heq := hothers e' hmem hout
      rw [heq,htimer] at hout
      rw [heq]
      exact h hout

/-- In every reachable session: an explosion kills all who stand in it exactly if each of
them touches a tile that stays on fire. -/
theorem kills_iff_caught [Arithmetic] {normalize : Vector2 → Vector2} {draws : ℕ → ℕ} {clientIds : List ℕ} {inputs : List BombInput}
    {s : Bombd} (hrun : Execution.run (Bombd.step normalize) (initSession draws clientIds) inputs = some s)
    {deltaTime : ℚ} (hpos : 0 < deltaTime) {e : ExplosionInfo} (he : e ∈ exploded normalize s deltaTime)
    (hothers : NoOtherExpires normalize s deltaTime e) :
    Kills normalize s deltaTime e ↔
      ∀ p ∈ (applyMovementAndPickups normalize deltaTime s).session.players, p.active = true → p.alive = true →
        (∃ c ∈ p.overlapped, c ∈ blastTiles s.world e.blast) → Caught s deltaTime e.blast p := by
  have hs : Sound s.world := Execution.run_invariant (I := fun s => Sound s.world) step_sound hrun
    (initSession_sound draws clientIds)
  have hmoves := movement_moves normalize deltaTime hs
  have hblazes := tickBombs_blazes hmoves.sound deltaTime
  have hsize : (tickSession normalize s deltaTime).1.world.mapSize = s.world.mapSize :=
    (tickExplosions_douses hblazes.sound hpos).mapSize.trans (hblazes.walls.mapSize.trans hmoves.walls.mapSize)
  have htiles : e.tiles = blastTiles s.world e.blast := by
    rw [← blastTiles_congr hmoves.walls]
    exact (hblazes.shape e he).1
  rw [kills_iff_burning,htiles]
  refine forall₂_congr fun p _ => forall₃_congr fun hactive halive _ => ?_
  rw [burning_iff,and_iff_right hactive,and_iff_right halive]
  refine exists_congr fun c => and_congr_right fun _ => and_congr ?_ ?_
  · rw [World.inside,World.inside,hsize]
  · rw [tickSession_burning hs hpos he hothers,htiles]

attribute [local instance] Arithmetic.exact

/-- A lone player who stays where the bomb was placed, a quarter of a second before its end. -/
def ownBomb : List BombInput := [.place 1,.tick (3 / 4)]

theorem ownBomb_spared : ∃ s e, Execution.run (Bombd.step id) (initSession (fun _ => 0) [1]) ownBomb = some s ∧
    e ∈ exploded id s (1 / 4) ∧ NoOtherExpires id s (1 / 4) e ∧
    ∃ p ∈ (tickSession id s (1 / 4)).1.session.players, p.active = true ∧ p.alive = true ∧
      ∃ c ∈ p.overlapped, c ∈ e.tiles := by
  obtain ⟨s,hs,ht⟩ := Execution.exists_of_run_any (Bombd.step id) (initSession (fun _ => 0) [1]) ownBomb
    (fun s => ((tickBombs (applyMovementAndPickups id (1 / 4) s).world (1 / 4)).explodes.queued.all fun e' =>
        decide (¬fl (e'.timer - 1 / 4) ≤ 0)) &&
      (exploded id s (1 / 4)).any fun e => (tickSession id s (1 / 4)).1.session.players.any fun p =>
        p.active && p.alive && p.overlapped.any fun c => decide (c ∈ e.tiles)) (by decide +kernel)
  simp only [Bool.and_eq_true,List.all_eq_true,List.any_eq_true,decide_eq_true_eq] at ht
  obtain ⟨hlit,e,he,p,hp,⟨hactive,halive⟩,hstands⟩ := ht
  exact ⟨s,e,hs,he,fun e' he' hout => absurd hout (hlit e' he'),p,hp,hactive,halive,hstands⟩

theorem kills_iff_caught_ownBomb : ∃ s e,
    Execution.run (Bombd.step id) (initSession (fun _ => 0) [1]) ownBomb = some s ∧ e ∈ exploded id s (1 / 4) ∧
    (Kills id s (1 / 4) e ↔
      ∀ p ∈ (applyMovementAndPickups id (1 / 4) s).session.players, p.active = true → p.alive = true →
        (∃ c ∈ p.overlapped, c ∈ blastTiles s.world e.blast) → Caught s (1 / 4) e.blast p) := by
  obtain ⟨s,e,hs,he,hothers,-⟩ := ownBomb_spared
  exact ⟨s,e,hs,he,kills_iff_caught hs (by decide +kernel) he hothers⟩

theorem own_bomb_survived :
    ¬ ∀ (normalize : Vector2 → Vector2) (draws : ℕ → ℕ) (clientIds : List ℕ) (inputs : List BombInput) (s : Bombd),
      Execution.run (Bombd.step normalize) (initSession draws clientIds) inputs = some s →
      ∀ deltaTime, 0 < deltaTime → ∀ e ∈ exploded normalize s deltaTime,
        NoOtherExpires normalize s deltaTime e → Kills normalize s deltaTime e := by
  intro h
  obtain ⟨s,e,hs,he,hothers,p,hp,hactive,halive,hstands⟩ := ownBomb_spared
  have hdead := h id (fun _ => 0) [1] ownBomb s hs (1 / 4) (by decide +kernel) e he hothers p hp hactive hstands
  rw [halive] at hdead
  cases hdead

end CoreStack.Bomberman
