import CoreStack.Bomberman.Arena
import CoreStack.Bomberman.Tick

/-! # Explosions that overlap

An explosion that goes out empties all its tiles, also those another one still covers,
and a bomb taken out empties its own tile, whatever burns there.
-/
namespace CoreStack.Bomberman
open Utils Marking

/-- Every arm of an explosion in the queue is on fire. -/
def World.Ablaze (w : World) : Prop := ∀ e ∈ w.explodes.queued, ∀ c ∈ e.spread, w.burning c

/-! ## The fires of a tick -/

/-- The tiles of an explosion, the centre first, and the time it has left. -/
abbrev Fire := List (ℤ × ℤ) × ℚ

def ExplosionInfo.fire (e : ExplosionInfo) : Fire := (e.tiles,e.timer)

/-- The explosions queued before a tick, and those of the bombs that explode in it as
long as the queue has room. -/
def fires [Arithmetic] (w : World) (deltaTime : ℚ) : List Fire :=
  w.explodes.queued.map (·.fire) ++
    ((removals deltaTime w.bombs.queued.length w.bombs.queued).map fun r => (blastTiles w r.2.blast,explodeLifetime)).take
      (500 - w.explodes.rear)

/-- Every fire that outlasts the tick keeps its arms: no bomb taken out puts one of their
tiles out, unless an arm reaches it again, and no fire that ends covers one. -/
def Undisturbed [Arithmetic] (w : World) (deltaTime : ℚ) : Prop :=
  ∀ f ∈ fires w deltaTime, 0 < fl (f.2 - deltaTime) → ∀ c ∈ f.1.tail,
    StaysLit w deltaTime c ∧ ∀ g ∈ fires w deltaTime, fl (g.2 - deltaTime) ≤ 0 → c ∉ g.1

theorem detonated_fire {w : World} {r : BombInfo × BombInfo} (hfloor : w.at r.1.position.tile ≠ .wall) :
    (detonated w r).fire = (blastTiles w r.2.blast,explodeLifetime) :=
  Prod.ext (detonated_tiles hfloor) (burst_tiles (w.clear r.1.position) r.2).2

theorem detonate_all_fires (rs : List (BombInfo × BombInfo)) (w : World)
    (hfloor : ∀ r ∈ rs, w.at r.1.position.tile ≠ .wall) : (rs.foldl detonate w).explodes.items.map (·.fire) =
      w.explodes.items.map (·.fire) ++
        (rs.map fun r => (blastTiles w r.2.blast,explodeLifetime)).take (500 - w.explodes.items.length) := by
  induction rs generalizing w with
  | nil => simp
  | cons r rs ih =>
    have hr := hfloor r List.mem_cons_self
    have hwalls := detonate_sameWalls hr
    have hrest := ih (detonate w r) fun q hq hwall =>
      hfloor q (List.mem_cons_of_mem r hq) ((hwalls.walls _).mp hwall)
    rw [blastTiles_congr hwalls,detonate_explodes] at hrest
    rw [List.foldl_cons,hrest,List.map_cons]
    rcases Queue.enqueue_cases w.explodes (detonated w r) with hitems | ⟨hitems,hfull⟩
    · have hbound := (w.explodes.enqueue (detonated w r)).1.bounded
      rw [hitems,List.length_append,List.length_singleton] at hbound
      have hroom : 500 - w.explodes.items.length = 500 - (w.explodes.items.length + 1) + 1 := by omega
      rw [hitems,List.map_append,List.map_singleton,detonated_fire hr,List.length_append,List.length_singleton,hroom,
        List.take_succ_cons,List.append_assoc]
      rfl
    · rw [hitems,hfull,Nat.sub_self,List.take_zero,List.take_zero]

theorem tickBombs_fires [Arithmetic] {w : World} (hs : Sound w) (deltaTime : ℚ) :
    (tickBombs w deltaTime).explodes.queued.map (·.fire) = fires w deltaTime := by
  obtain ⟨bombs,hworld,-,-⟩ := tickBombs_fold w deltaTime
  have hfires := detonate_all_fires _ w (removals_floor hs deltaTime)
  have hqueue := Queue.queued_of_head (tickBombs_blazes hs deltaTime).sound.head
  rw [hqueue,hworld,fires,Queue.queued_of_head hs.head]
  exact hfires

/-! ## The tick -/

theorem fires_congr [Arithmetic] {w t : World} (hwalls : SameWalls w t) (hqueues : w.SameQueues t) (deltaTime : ℚ) :
    fires t deltaTime = fires w deltaTime := by
  rw [fires,fires,hqueues.1,hqueues.2,blastTiles_congr hwalls]

theorem staysLit_congr [Arithmetic] {w t : World} (h : Trodden w t) (hqueues : w.SameQueues t) (deltaTime : ℚ) (c : ℤ × ℤ) :
    StaysLit t deltaTime c ↔ StaysLit w deltaTime c := by
  unfold StaysLit
  rw [setsOnFire_congr h.walls,hqueues.1]
  exact remains_congr h.burning

/-- What burns after a tick: what stays lit while the bombs explode, unless an explosion
that covers it goes out. -/
theorem tickSession_burns [Arithmetic] (normalize : Vector2 → Vector2) {s : Bombd} (hs : Sound s.world) {deltaTime : ℚ}
    (hpos : 0 < deltaTime) (c : ℤ × ℤ) : (tickSession normalize s deltaTime).1.world.burning c ↔
      StaysLit s.world deltaTime c ∧ ∀ g ∈ fires s.world deltaTime, fl (g.2 - deltaTime) ≤ 0 → c ∉ g.1 := by
  have hmoves := movement_moves normalize deltaTime hs
  have hblazes := tickBombs_blazes hmoves.sound deltaTime
  have hdouses := tickExplosions_douses hblazes.sound hpos
  have hfires := tickBombs_fires hmoves.sound deltaTime
  rw [fires_congr hmoves.walls hmoves.queues] at hfires
  refine (hdouses.burning c).trans (and_congr ?_ ?_)
  · rw [hblazes.burning c]
    exact staysLit_congr hmoves.toTrodden hmoves.queues deltaTime c
  · rw [← hfires,List.forall_mem_map]
    exact Iff.rfl

/-- After a tick the arms of all explosions burn exactly if none was disturbed. -/
theorem tickSession_ablaze_iff [Arithmetic] (normalize : Vector2 → Vector2) {s : Bombd} (hs : Sound s.world) {deltaTime : ℚ}
    (hpos : 0 < deltaTime) :
    (tickSession normalize s deltaTime).1.world.Ablaze ↔ Undisturbed s.world deltaTime := by
  have hmoves := movement_moves normalize deltaTime hs
  have hfires := tickBombs_fires hmoves.sound deltaTime
  rw [fires_congr hmoves.walls hmoves.queues] at hfires
  obtain ⟨out,explodes,hworld,-,hlit,-⟩ := tickExplosions_fold
    (tickBombs (applyMovementAndPickups normalize deltaTime s).world deltaTime) deltaTime
  have hqueue : (tickSession normalize s deltaTime).1.world.explodes = explodes := congrArg World.explodes hworld
  unfold World.Ablaze Undisturbed
  simp only [tickSession_burns normalize hs hpos,hqueue,hlit.mem_iff,List.mem_map,List.mem_filter]
  rw [← hfires,List.forall_mem_map]
  constructor
  · intro h e he hlong
    exact h (e.burn deltaTime) ⟨e,⟨he,ExplosionInfo.not_expires.mpr hlong⟩,rfl⟩
  · rintro h _ ⟨e,⟨he,hlong⟩,rfl⟩
    exact h e he (ExplosionInfo.not_expires.mp hlong)

/-! ## Runs -/

theorem placeBomb_burning (w : World) (pos : Vector2) (stock : InventoryStock) (c : ℤ × ℤ) (h : w.burning c) :
    (placeBomb w pos stock).1.burning c := by
  rcases placeBomb_cases w pos stock with ⟨heq,-⟩ | ⟨hfree,-,heq⟩
  · rw [heq]
    exact h
  · rw [heq]
    refine (setTile_map w _ _ .bomb c).trans ((if_neg ?_).trans h)
    intro hc
    have hmap : w.map (toInt pos.x) (toInt pos.y) = .explosion := by
      rw [hc] at h
      exact h
    rcases hfree with hfree | hfree <;> rw [hmap] at hfree <;> cases hfree

theorem placeBomb_explodes (w : World) (pos : Vector2) (stock : InventoryStock) :
    (placeBomb w pos stock).1.explodes = w.explodes := by
  rcases placeBomb_cases w pos stock with ⟨heq,-⟩ | ⟨-,-,heq⟩
  · rw [heq]
  · rw [heq]
    rfl

def Bombd.Undisturbed [Arithmetic] (s : Bombd) : BombInput → Prop
  | .tick deltaTime => Bomberman.Undisturbed s.world deltaTime
  | _ => True

theorem step_ablaze_iff [Arithmetic] {normalize : Vector2 → Vector2} {s t : Bombd} {input : BombInput} (hs : Sound s.world)
    (h : s.world.Ablaze) (ht : Bombd.step normalize s input = some t) : t.world.Ablaze ↔ s.Undisturbed input := by
  cases input with
  | move playerId dx dy sprinting =>
    cases ht
    refine iff_of_true ?_ trivial
    rwa [applyMove_world]
  | place playerId =>
    cases ht
    refine iff_of_true ?_ trivial
    rcases applyBombPlace_world s playerId with hsame | ⟨pos,stock,hplaced⟩
    · rwa [hsame]
    · intro e he c hc
      rw [hplaced] at he ⊢
      rw [placeBomb_explodes] at he
      exact placeBomb_burning _ _ _ c (h e he c hc)
  | disconnect playerId =>
    cases ht
    refine iff_of_true ?_ trivial
    rwa [applyDisconnect_world]
  | tick deltaTime =>
    obtain ⟨hpos,rfl⟩ := step_tick ht
    exact tickSession_ablaze_iff normalize hs hpos

theorem initSession_ablaze [Arithmetic] (draws : ℕ → ℕ) (clientIds : List ℕ) : (initSession draws clientIds).world.Ablaze := by
  intro e he
  rw [(initSession_queues draws clientIds).2] at he
  exact absurd he List.not_mem_nil

/-- All along a run every arm of every explosion in the queue burns, if and only if no
tick of the run disturbs an explosion that outlasts it. -/
theorem ablaze_iff_undisturbed [Arithmetic] (normalize : Vector2 → Vector2) (draws : ℕ → ℕ) (clientIds : List ℕ)
    (inputs : List BombInput) :
    (∀ n s, Execution.run (Bombd.step normalize) (initSession draws clientIds) (inputs.take n) = some s →
      s.world.Ablaze) ↔
    ∀ n s input t, Execution.run (Bombd.step normalize) (initSession draws clientIds) (inputs.take n) = some s →
      inputs[n]? = some input → Bombd.step normalize s input = some t → s.Undisturbed input :=
  Execution.safe_iff (I := fun s : Bombd => Sound s.world) (P := fun s : Bombd => s.world.Ablaze) step_sound
    (fun _ _ _ hs h hmeets ht => (step_ablaze_iff hs h ht).mpr hmeets)
    (fun _ _ _ hs h ht hafter => (step_ablaze_iff hs h ht).mp hafter)
    (initSession_sound draws clientIds) (initSession_ablaze draws clientIds) inputs

attribute [local instance] Arithmetic.binary32

/-- A player puts a bomb down, runs to the next tile and puts down another one. -/
def crossingBombs : List BombInput :=
  .place 1 :: .move 1 1 0 true :: List.replicate 11 (.tick tickSeconds) ++
    .place 1 :: .move 1 0 0 false :: List.replicate 83 (.tick tickSeconds)

/-- The explosion that goes out first empties the arms of the second one. -/
theorem crossing_arms_emptied :
    ¬ ∀ (normalize : Vector2 → Vector2) (draws : ℕ → ℕ) (clientIds : List ℕ) (inputs : List BombInput) (s : Bombd),
      Execution.run (Bombd.step normalize) (initSession draws clientIds) inputs = some s → s.world.Ablaze := by
  intro h
  obtain ⟨s,hs,ht⟩ := Execution.exists_of_run_any (Bombd.step id) (initSession (fun _ => 0) [1]) crossingBombs
    (fun s => s.world.explodes.queued.any fun e => e.spread.any fun c => !decide (s.world.map c.1 c.2 = .explosion))
    (by decide +kernel)
  simp only [List.any_eq_true,Bool.not_eq_true',decide_eq_false_iff_not] at ht
  obtain ⟨e,he,c,hc,hcold⟩ := ht
  exact hcold (h id (fun _ => 0) [1] crossingBombs s hs e he c hc)

end CoreStack.Bomberman
