import CoreStack.Bomberman.Overlap

/-! # Bomb tiles and queued bombs

Four operations write the tiles of bombs: placing puts one down, also when the queue has
no room for the bomb; a bomb taken out, an arm and an explosion that goes out remove
whatever tile is there.
-/
namespace CoreStack.Bomberman
open Utils

def BombInfo.tile (b : BombInfo) : ℤ × ℤ := b.position.tile

/-- The tiles that read BOMB are those of the queued bombs, and no two bombs share one. -/
structure World.Placed (w : World) : Prop where
  tiles : ∀ c, w.at c = .bomb ↔ ∃ b ∈ w.bombs.queued, b.tile = c
  apart : (w.bombs.queued.map (·.tile)).Nodup

/-- No arm of a bomb that explodes reaches a bomb that does not run out, and no explosion
whose time is up in the tick covers one. -/
def BombsSpared [Arithmetic] (w : World) (deltaTime : ℚ) : Prop :=
  ∀ b ∈ w.bombs.queued, b.expires deltaTime = false →
    (∀ r ∈ removals deltaTime w.bombs.queued.length w.bombs.queued, b.tile ∉ crossTiles w r.2.blast) ∧
    ∀ g ∈ fires w deltaTime, fl (g.2 - deltaTime) ≤ 0 → b.tile ∉ g.1

/-! ## Ticks -/

theorem detonate_all_bomb (rs : List (BombInfo × BombInfo)) (w : World)
    (hfloor : ∀ r ∈ rs, w.at r.1.position.tile ≠ .wall) (c : ℤ × ℤ) : (rs.foldl detonate w).at c = .bomb ↔
      w.at c = .bomb ∧ ∀ r ∈ rs, c ≠ r.1.tile ∧ c ∉ crossTiles w r.2.blast := by
  induction rs generalizing w with
  | nil => simp
  | cons r rs ih =>
    have hr := hfloor r List.mem_cons_self
    have hwalls := detonate_sameWalls hr
    have hrest := ih (detonate w r) fun q hq hwall => hfloor q (List.mem_cons_of_mem r hq) ((hwalls.walls _).mp hwall)
    rw [crossTiles_congr hwalls,detonate_at w r hr] at hrest
    rw [List.foldl_cons,hrest,List.forall_mem_cons,← and_assoc]
    refine and_congr_left fun _ => ?_
    split
    · next hc => exact iff_of_false nofun fun h => h.2.2 hc
    · next hc =>
      split
      · next hb => exact iff_of_false nofun fun h => h.2.1 hb
      · next hb => exact (and_iff_left ⟨hb,hc⟩).symm

theorem tickBombs_bomb [Arithmetic] {w : World} (hs : Sound w) (deltaTime : ℚ) (c : ℤ × ℤ) : (tickBombs w deltaTime).at c = .bomb ↔
    w.at c = .bomb ∧ ∀ r ∈ removals deltaTime w.bombs.queued.length w.bombs.queued,
      c ≠ r.1.tile ∧ c ∉ crossTiles w r.2.blast := by
  obtain ⟨bombs,hworld,-,-⟩ := tickBombs_fold w deltaTime
  rw [hworld]
  exact detonate_all_bomb _ w (removals_floor hs deltaTime) c

theorem extinguish_all_bomb (es : List ExplosionInfo) {w : World} (h : Waiting w) (c : ℤ × ℤ) :
    (es.foldl extinguish w).at c = .bomb ↔ w.at c = .bomb ∧ ∀ e ∈ es, c ∉ e.tiles := by
  induction es generalizing w with
  | nil => simp
  | cons e es ih =>
    rw [List.foldl_cons,ih (extinguish_waiting h e),extinguish_at,List.forall_mem_cons,← and_assoc]
    refine and_congr_left fun _ => ?_
    split
    · next hc =>
      refine iff_of_false ?_ fun hb => hb.2 (mem_tiles.mpr (Or.inr hc.1))
      rcases h c with hnone | hpowerup | hpowerup
      · exact absurd hnone hc.2
      · rw [hpowerup]
        decide
      · rw [hpowerup]
        decide
    · split
      · next hc => exact iff_of_false nofun fun hb => hb.2 hc
      · next hc => exact (and_iff_left hc).symm

theorem picked_bomb {w t : World} (h : Picked w t) (c : ℤ × ℤ) : t.at c = .bomb ↔ w.at c = .bomb := by
  rcases h c with heq | ⟨hpowerup,hempty⟩
  · rw [heq]
  · rw [hempty]
    rcases hpowerup with hpowerup | hpowerup <;> rw [hpowerup] <;> exact iff_of_false nofun nofun

theorem tickSession_queue [Arithmetic] (normalize : Vector2 → Vector2) (s : Bombd) (deltaTime : ℚ) :
    (tickSession normalize s deltaTime).1.world.bombs.queued.Perm
      ((s.world.bombs.queued.filter fun b => !b.expires deltaTime).map (·.burn deltaTime)) := by
  obtain ⟨bombs,hticked,hleft,-⟩ := tickBombs_fold (applyMovementAndPickups normalize deltaTime s).world deltaTime
  have hqueue : (tickSession normalize s deltaTime).1.world.bombs =
      (tickBombs (applyMovementAndPickups normalize deltaTime s).world deltaTime).bombs := tickExplosions_bombs _ deltaTime
  have hmoved := (advanceAll_sameQueues normalize deltaTime s.world s.session.players).1
  change (applyMovementAndPickups normalize deltaTime s).world.bombs = s.world.bombs at hmoved
  rw [hqueue,hticked]
  rw [hmoved] at hleft
  exact hleft

theorem tickSession_head [Arithmetic] (normalize : Vector2 → Vector2) (s : Bombd) (deltaTime : ℚ) :
    (tickSession normalize s deltaTime).1.world.bombs.head = s.world.bombs.head := by
  obtain ⟨bombs,hticked,-,hhead⟩ := tickBombs_fold (applyMovementAndPickups normalize deltaTime s).world deltaTime
  have hqueue : (tickSession normalize s deltaTime).1.world.bombs =
      (tickBombs (applyMovementAndPickups normalize deltaTime s).world deltaTime).bombs := tickExplosions_bombs _ deltaTime
  have hmoved := (advanceAll_sameQueues normalize deltaTime s.world s.session.players).1
  change (applyMovementAndPickups normalize deltaTime s).world.bombs = s.world.bombs at hmoved
  rw [hqueue,hticked,← hmoved]
  exact hhead

theorem tickSession_bombs [Arithmetic] (normalize : Vector2 → Vector2) {s : Bombd} (hs : Sound s.world) (hw : Waiting s.world)
    (deltaTime : ℚ) (c : ℤ × ℤ) : (tickSession normalize s deltaTime).1.world.at c = .bomb ↔ s.world.at c = .bomb ∧
      (∀ r ∈ removals deltaTime s.world.bombs.queued.length s.world.bombs.queued,
        c ≠ r.1.tile ∧ c ∉ crossTiles s.world r.2.blast) ∧
      ∀ g ∈ fires s.world deltaTime, fl (g.2 - deltaTime) ≤ 0 → c ∉ g.1 := by
  have hmoves := movement_moves normalize deltaTime hs
  have hpicked := advanceAll_picked normalize deltaTime s.world s.session.players
  change Picked s.world (applyMovementAndPickups normalize deltaTime s).world at hpicked
  have hwaiting := tickBombs_waiting hmoves.sound (movement_waiting hw normalize deltaTime) deltaTime
  have hfires := tickBombs_fires hmoves.sound deltaTime
  rw [fires_congr hmoves.walls hmoves.queues] at hfires
  obtain ⟨out,explodes,hworld,hout,-,-⟩ := tickExplosions_fold
    (tickBombs (applyMovementAndPickups normalize deltaTime s).world deltaTime) deltaTime
  have hblown := tickBombs_bomb hmoves.sound deltaTime c
  rw [hmoves.queues.1,crossTiles_congr hmoves.walls,picked_bomb hpicked] at hblown
  have hmap : (tickSession normalize s deltaTime).1.world.at c = (out.foldl extinguish
      (tickBombs (applyMovementAndPickups normalize deltaTime s).world deltaTime)).at c :=
    (congrArg (World.at · c) hworld).trans rfl
  rw [hmap,extinguish_all_bomb out hwaiting c,hblown,and_assoc,← hfires,List.forall_mem_map]
  simp only [hout.mem_iff,List.mem_filter,ExplosionInfo.expires,decide_eq_true_eq,and_imp]
  exact Iff.rfl

/-- A bomb that stays queued is not on the tile of one that runs out. -/
theorem Placed.tile_ne_taken [Arithmetic] {w : World} (h : w.Placed) {deltaTime : ℚ} {b : BombInfo} (hb : b ∈ w.bombs.queued)
    (hexp : b.expires deltaTime = false) {r : BombInfo × BombInfo}
    (hr : r ∈ removals deltaTime w.bombs.queued.length w.bombs.queued) : b.tile ≠ r.1.tile := by
  intro htile
  obtain ⟨hmem,hout,-⟩ := removals_mem hr
  rw [List.inj_on_of_nodup_map h.apart hb hmem htile,hout] at hexp
  cases hexp

/-- A tick keeps the bombs and their tiles together exactly if it spares the tiles of
the bombs that do not run out. -/
theorem tickSession_placed_iff [Arithmetic] (normalize : Vector2 → Vector2) {s : Bombd} (hs : Sound s.world) (hw : Waiting s.world)
    (h : s.world.Placed) (deltaTime : ℚ) :
    (tickSession normalize s deltaTime).1.world.Placed ↔ BombsSpared s.world deltaTime := by
  have htiles := tickSession_bombs normalize hs hw deltaTime
  have hqueue := tickSession_queue normalize s deltaTime
  have hleft : ∀ c, (∃ b ∈ (tickSession normalize s deltaTime).1.world.bombs.queued, b.tile = c) ↔
      ∃ b ∈ s.world.bombs.queued, b.expires deltaTime = false ∧ b.tile = c := by
    intro c
    constructor
    · rintro ⟨b',hb',rfl⟩
      obtain ⟨b,hb,rfl⟩ := List.mem_map.mp (hqueue.subset hb')
      obtain ⟨hmem,hexp⟩ := List.mem_filter.mp hb
      exact ⟨b,hmem,by simpa using hexp,rfl⟩
    · rintro ⟨b,hb,hexp,rfl⟩
      have hkept : b ∈ s.world.bombs.queued.filter fun b => !b.expires deltaTime :=
        List.mem_filter.mpr ⟨hb,by simp [hexp]⟩
      exact ⟨b.burn deltaTime,hqueue.symm.subset (List.mem_map_of_mem hkept),rfl⟩
  constructor
  · intro hafter b hb hexp
    have hbomb := (hafter.tiles b.tile).mpr ((hleft b.tile).mpr ⟨b,hb,hexp,rfl⟩)
    obtain ⟨-,hblown,hburnt⟩ := (htiles b.tile).mp hbomb
    exact ⟨fun r hr => (hblown r hr).2,hburnt⟩
  · intro hspared
    constructor
    · intro c
      rw [htiles c,h.tiles c,hleft c]
      constructor
      · rintro ⟨⟨b,hb,rfl⟩,hblown,-⟩
        refine ⟨b,hb,Bool.eq_false_iff.mpr fun hexp => ?_,rfl⟩
        -- a bomb that runs out is taken out
        have htaken : b ∈ (removals deltaTime s.world.bombs.queued.length s.world.bombs.queued).map (·.1) :=
          (removals_taken deltaTime _ s.world.bombs.queued rfl).mem_iff.mpr (List.mem_filter.mpr ⟨hb,hexp⟩)
        obtain ⟨r,hr,rfl⟩ := List.mem_map.mp htaken
        exact (hblown r hr).1 rfl
      · rintro ⟨b,hb,hexp,rfl⟩
        obtain ⟨hblown,hburnt⟩ := hspared b hb hexp
        exact ⟨⟨b,hb,rfl⟩,fun r hr => ⟨Placed.tile_ne_taken h hb hexp hr,hblown r hr⟩,hburnt⟩
    · have hsub : ((s.world.bombs.queued.filter fun b => !b.expires deltaTime).map (·.tile)).Nodup :=
        (List.filter_sublist.map _).nodup h.apart
      refine (hqueue.map (·.tile)).nodup_iff.mpr ?_
      rw [List.map_map]
      exact hsub

/-! ## Placing -/

def CanPlace (w : World) (pos : Vector2) (stock : InventoryStock) : Prop :=
  (w.at pos.tile = .empty ∨ w.at pos.tile = .player) ∧ 0 < stock.remainingBombs

/-- `place_bomb` answers true exactly when it adds one bomb to the queue, and otherwise leaves it alone. -/
def Answers (w : World) (pos : Vector2) (stock : InventoryStock) : Prop :=
  ((placeBomb w pos stock).2.2 = true ↔ ∃ b, (placeBomb w pos stock).1.bombs.queued = w.bombs.queued ++ [b]) ∧
  ((placeBomb w pos stock).2.2 = false → (placeBomb w pos stock).1.bombs = w.bombs)

theorem placeBomb_refused {w : World} {pos : Vector2} {stock : InventoryStock} (h : ¬CanPlace w pos stock) :
    placeBomb w pos stock = (w,stock,false) := by
  rcases placeBomb_cases w pos stock with ⟨heq,-⟩ | ⟨hfree,hstock,-⟩
  · exact heq
  · exact absurd ⟨hfree,hstock⟩ h

theorem placeBomb_placed {w : World} {pos : Vector2} {stock : InventoryStock} (h : CanPlace w pos stock) :
    (placeBomb w pos stock).1.bombs = (w.bombs.enqueue ⟨pos,stock.numFires,bombTimer⟩).1 ∧
    (placeBomb w pos stock).2.2 = true ∧
    ∀ c, (placeBomb w pos stock).1.at c = if c = pos.tile then .bomb else w.at c := by
  rcases placeBomb_cases w pos stock with ⟨-,hrefused⟩ | ⟨-,-,heq⟩
  · exact absurd h hrefused
  · rw [heq]
    exact ⟨rfl,rfl,fun c => setTile_map w _ _ .bomb c⟩

theorem answers_iff (w : World) (pos : Vector2) (stock : InventoryStock) :
    Answers w pos stock ↔ (CanPlace w pos stock → w.bombs.full = false) := by
  by_cases hcan : CanPlace w pos stock
  · obtain ⟨hbombs,hanswer,-⟩ := placeBomb_placed hcan
    rw [Answers,hbombs,hanswer]
    refine ⟨fun h _ => ?_,fun h => ⟨iff_of_true rfl ?_,fun hno => absurd hno.symm Bool.false_ne_true⟩⟩
    · obtain ⟨b,hb⟩ := h.1.mp rfl
      refine Bool.eq_false_iff.mpr fun hfull => ?_
      rw [Queue.enqueue,dif_neg ((Queue.full_iff w.bombs).mp hfull)] at hb
      have hlen := congrArg List.length hb
      simp at hlen
    · exact ⟨_,Queue.enqueue_queued (h hcan) _⟩
  · refine iff_of_true ?_ fun h => absurd h hcan
    rw [Answers,placeBomb_refused hcan]
    refine ⟨iff_of_false Bool.false_ne_true ?_,fun _ => rfl⟩
    rintro ⟨b,hb⟩
    have hlen := congrArg List.length hb
    simp at hlen

theorem placeBomb_placed_iff {w : World} (h : w.Placed) (pos : Vector2) (stock : InventoryStock) :
    (placeBomb w pos stock).1.Placed ↔ (CanPlace w pos stock → w.bombs.full = false) := by
  by_cases hcan : CanPlace w pos stock
  · obtain ⟨hbombs,-,hmap⟩ := placeBomb_placed hcan
    -- no bomb is queued on a free tile
    have hnone : ¬∃ b ∈ w.bombs.queued, b.tile = pos.tile := by
      rw [← h.tiles]
      intro hbomb
      rcases hcan.1 with hfree | hfree <;> rw [hfree] at hbomb <;> cases hbomb
    constructor
    · intro hafter _
      refine Bool.eq_false_iff.mpr fun hfull => hnone ?_
      have hbomb := (hafter.tiles pos.tile).mp (by rw [hmap,if_pos rfl])
      rwa [hbombs,Queue.enqueue,dif_neg ((Queue.full_iff w.bombs).mp hfull)] at hbomb
    · intro hroom
      have hqueue := Queue.enqueue_queued (hroom hcan) ⟨pos,stock.numFires,bombTimer⟩
      constructor
      · intro c
        rw [hmap,hbombs,hqueue]
        simp only [List.mem_append,List.mem_singleton,or_and_right,exists_or,exists_eq_left]
        split
        · next hc => exact iff_of_true rfl (Or.inr hc.symm)
        · next hc => exact (h.tiles c).trans (or_iff_left fun htile => hc htile.symm).symm
      · rw [hbombs,hqueue,List.map_append,List.map_singleton]
        refine List.nodup_append.mpr ⟨h.apart,List.nodup_singleton _,fun c hc c' hc' heq => hnone ?_⟩
        rw [List.mem_singleton.mp hc'] at heq
        obtain ⟨b,hb,htile⟩ := List.mem_map.mp hc
        exact ⟨b,hb,htile.trans heq⟩
  · refine iff_of_true ?_ fun hcan' => absurd hcan' hcan
    rw [placeBomb_refused hcan]
    exact h

/-! ## Runs -/

/-- The condition under which a step keeps the bombs and their tiles together. -/
def Bombd.SparesBombs [Arithmetic] (s : Bombd) : BombInput → Prop
  | .tick deltaTime => BombsSpared s.world deltaTime
  | .place playerId => ∀ i p, s.session.steered playerId = some (i,p) →
      CanPlace s.world (getCenterBox p.box) p.inventory → s.world.bombs.full = false
  | _ => True

def Bombd.Answers [Arithmetic] (s : Bombd) : BombInput → Prop
  | .place playerId => ∀ i p, s.session.steered playerId = some (i,p) →
      Bomberman.Answers s.world (getCenterBox p.box) p.inventory
  | _ => True

theorem step_placed_iff [Arithmetic] {normalize : Vector2 → Vector2} {s t : Bombd} {input : BombInput}
    (hs : Sound s.world ∧ Waiting s.world) (h : s.world.Placed) (ht : Bombd.step normalize s input = some t) :
    t.world.Placed ↔ s.SparesBombs input := by
  cases input with
  | move playerId dx dy sprinting =>
    cases ht
    refine iff_of_true ?_ trivial
    rwa [applyMove_world]
  | place playerId =>
    cases ht
    rw [applyBombPlace,Bombd.SparesBombs]
    split
    · next i p hp =>
      refine (placeBomb_placed_iff h _ _).trans ⟨fun hroom j q hq => ?_,fun hroom => hroom i p hp⟩
      obtain ⟨rfl,rfl⟩ := Prod.mk.inj (Option.some.inj (hp.symm.trans hq))
      exact hroom
    · next hp =>
      refine iff_of_true h fun i p hq => ?_
      rw [hp] at hq
      cases hq
  | disconnect playerId =>
    cases ht
    refine iff_of_true ?_ trivial
    rwa [applyDisconnect_world]
  | tick deltaTime =>
    obtain ⟨-,rfl⟩ := step_tick ht
    exact tickSession_placed_iff normalize hs.1 hs.2 h deltaTime

theorem sparesBombs_answers [Arithmetic] {s : Bombd} {input : BombInput} (h : s.SparesBombs input) : s.Answers input := by
  cases input with
  | place playerId => exact fun i p hp => (answers_iff _ _ _).mpr (h i p hp)
  | move playerId dx dy sprinting => trivial
  | disconnect playerId => trivial
  | tick deltaTime => trivial

theorem initSession_waiting [Arithmetic] (draws : ℕ → ℕ) (clientIds : List ℕ) : Waiting (initSession draws clientIds).world := by
  unfold Waiting World.pending
  rw [initSession_powerups]
  exact fun _ => Or.inl rfl

theorem initSession_placed [Arithmetic] (draws : ℕ → ℕ) (clientIds : List ℕ) : (initSession draws clientIds).world.Placed := by
  have hnone : (initSession draws clientIds).world.bombs.queued = [] := by
    rw [(initSession_queues draws clientIds).1]
    rfl
  constructor
  · intro c
    rw [hnone]
    refine iff_of_false (fun hbomb => ?_) (by simp)
    have hground := initSession_ground draws clientIds c
    rw [show (initSession draws clientIds).world.map c.1 c.2 = .bomb from hbomb] at hground
    rcases hground with h | h | h | h <;> cases h
  · rw [hnone]
    exact List.nodup_nil

theorem run_placed_iff [Arithmetic] (normalize : Vector2 → Vector2) (draws : ℕ → ℕ) (clientIds : List ℕ) (inputs : List BombInput) :
    (∀ n s, Execution.run (Bombd.step normalize) (initSession draws clientIds) (inputs.take n) = some s →
      s.world.Placed) ↔
    ∀ n s input t, Execution.run (Bombd.step normalize) (initSession draws clientIds) (inputs.take n) = some s →
      inputs[n]? = some input → Bombd.step normalize s input = some t → s.SparesBombs input :=
  Execution.safe_iff (I := fun s : Bombd => Sound s.world ∧ Waiting s.world) (P := fun s : Bombd => s.world.Placed)
    step_waiting
    (fun _ _ _ hs h hmeets ht => (step_placed_iff hs h ht).mpr hmeets)
    (fun _ _ _ hs h ht hafter => (step_placed_iff hs h ht).mp hafter)
    ⟨initSession_sound draws clientIds,initSession_waiting draws clientIds⟩ (initSession_placed draws clientIds) inputs

/-- All along a run the bomb tiles are those of the queued bombs, one each, and every
`place_bomb` answers whether it has queued a bomb, if and only if no step puts down a
bomb the queue has no room for and no tick touches the tile of a bomb that goes on ticking. -/
theorem bombs_placed_iff [Arithmetic] (normalize : Vector2 → Vector2) (draws : ℕ → ℕ) (clientIds : List ℕ) (inputs : List BombInput) :
    ((∀ n s, Execution.run (Bombd.step normalize) (initSession draws clientIds) (inputs.take n) = some s →
        s.world.Placed) ∧
      ∀ n s input t, Execution.run (Bombd.step normalize) (initSession draws clientIds) (inputs.take n) = some s →
        inputs[n]? = some input → Bombd.step normalize s input = some t → s.Answers input) ↔
    ∀ n s input t, Execution.run (Bombd.step normalize) (initSession draws clientIds) (inputs.take n) = some s →
      inputs[n]? = some input → Bombd.step normalize s input = some t → s.SparesBombs input := by
  rw [run_placed_iff]
  refine and_iff_left_of_imp fun hspares n s input t hr hinput ht => ?_
  exact sparesBombs_answers (hspares n s input t hr hinput ht)

attribute [local instance] Arithmetic.binary32

/-- A lone player who puts a bomb down where the last one has just exploded. -/
def rearmed : List BombInput :=
  .place 1 :: List.replicate 63 (.tick tickSeconds) ++ .place 1 :: List.replicate 31 (.tick tickSeconds)

/-- The old explosion goes out and takes the tile of the new bomb with it. -/
theorem rearmed_bomb_vanishes :
    ¬ ∀ (normalize : Vector2 → Vector2) (draws : ℕ → ℕ) (clientIds : List ℕ) (inputs : List BombInput) (s : Bombd),
      Execution.run (Bombd.step normalize) (initSession draws clientIds) inputs = some s → s.world.Placed := by
  intro h
  obtain ⟨s,hs,ht⟩ := Execution.exists_of_run_any (Bombd.step id) (initSession (fun _ => 0) [1]) rearmed
    (fun s => s.world.bombs.queued.any fun b => !decide (s.world.at b.tile = .bomb)) (by decide +kernel)
  simp only [List.any_eq_true,Bool.not_eq_true',decide_eq_false_iff_not] at ht
  obtain ⟨b,hb,hgone⟩ := ht
  exact hgone (((h id (fun _ => 0) [1] rearmed s hs).tiles b.tile).mpr ⟨b,hb,rfl⟩)

end CoreStack.Bomberman
