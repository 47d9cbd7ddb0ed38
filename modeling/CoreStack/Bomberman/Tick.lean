import CoreStack.Bomberman.Blast

/-! # The tick as two folds

Of the queue they shorten `tick_bombs` and `tick_explosions` read nothing but the next
entry. What they do to the rest of the world is a fold: over the bombs taken out, each
with the one that explodes for it, and over the explosions that go out.
-/
namespace CoreStack.Bomberman
open Utils

/-! ## Taking bombs out -/

def World.withBombs (w : World) (bombs : BombsQueue) : World := { w with bombs := bombs }

def detonate (w : World) (r : BombInfo × BombInfo) : World := triggerExplosion (w.clear r.1.position) r.2

def detonated (w : World) (r : BombInfo × BombInfo) : ExplosionInfo := (burst (w.clear r.1.position) r.2).2

theorem detonate_bombs (w : World) (r : BombInfo × BombInfo) : (detonate w r).bombs = w.bombs :=
  (burst_grows (w.clear r.1.position) r.2).bombs

theorem detonate_explodes (w : World) (r : BombInfo × BombInfo) :
    (detonate w r).explodes = (w.explodes.enqueue (detonated w r)).1 := by
  have h : (burst (w.clear r.1.position) r.2).1.explodes = w.explodes := (burst_grows (w.clear r.1.position) r.2).explodes
  rw [detonate,triggerExplosion_eq,h]
  rfl

theorem detonate_mapSize (w : World) (r : BombInfo × BombInfo) : (detonate w r).mapSize = w.mapSize :=
  (burst_burns (w.clear r.1.position) r.2).walls.mapSize

theorem detonate_hidden {w : World} (h : Hidden w) (r : BombInfo × BombInfo) : Hidden (detonate w r) :=
  burst_hidden (w := w.clear r.1.position) h r.2

theorem detonated_tiles {w : World} {r : BombInfo × BombInfo} (hfloor : w.map r.1.position.tile.1 r.1.position.tile.2 ≠ .wall) :
    (detonated w r).tiles = blastTiles w r.2.blast := by
  have hwalls : SameWalls w (w.clear r.1.position) := setTile_sameWalls hfloor (by decide)
  have hblast : (detonated w r).blast = r.2.blast := (burst_grows (w.clear r.1.position) r.2).blast
  have h := (burst_tiles (w.clear r.1.position) r.2).1
  rw [blastTiles_congr hwalls] at h
  rw [← hblast]
  exact h

theorem randomisePowerup_withBombs (w : World) (bombs : BombsQueue) (x y : ℤ) :
    randomisePowerup (w.withBombs bombs) x y = (randomisePowerup w x y).withBombs bombs := by
  unfold randomisePowerup
  dsimp only [World.withBombs,World.rand]
  split <;> rfl

theorem uncover_all_withBombs (cells : List (ℤ × ℤ)) (w : World) (bombs : BombsQueue) :
    cells.foldl World.uncover (w.withBombs bombs) = (cells.foldl World.uncover w).withBombs bombs := by
  induction cells generalizing w with
  | nil => rfl
  | cons c cells ih =>
    have hstep : (w.withBombs bombs).uncover c = (w.uncover c).withBombs bombs := randomisePowerup_withBombs w bombs _ _
    rw [List.foldl_cons,List.foldl_cons,hstep,ih]

theorem burst_withBombs (w : World) (bombs : BombsQueue) (bomb : BombInfo) :
    burst (w.withBombs bombs) bomb = ((burst w bomb).1.withBombs bombs,(burst w bomb).2) := by
  have hwalls : SameWalls w (w.withBombs bombs) := ⟨rfl,fun _ => Iff.rfl⟩
  have hblown : ∀ tiles, (w.withBombs bombs).blown tiles = (w.blown tiles).withBombs bombs := by
    intro tiles
    have hcalls := uncover_all_withBombs (w.breakables tiles) w bombs
    exact congrArg (fun t : World => { t with map := w.scorched tiles }) hcalls
  rw [burst_eq,burst_eq,crossTiles_congr hwalls,hblown]
  simp only [armTiles_congr hwalls]

theorem detonate_withBombs (w : World) (bombs : BombsQueue) (r : BombInfo × BombInfo) :
    detonate (w.withBombs bombs) r = (detonate w r).withBombs bombs := by
  unfold detonate
  rw [triggerExplosion_eq,triggerExplosion_eq]
  have h := burst_withBombs (w.clear r.1.position) bombs r.2
  change burst ((w.withBombs bombs).clear r.1.position) r.2 = _ at h
  rw [h]
  rfl

theorem detonate_all_withBombs (rs : List (BombInfo × BombInfo)) (w : World) (bombs : BombsQueue) :
    rs.foldl detonate (w.withBombs bombs) = (rs.foldl detonate w).withBombs bombs := by
  induction rs generalizing w with
  | nil => rfl
  | cons r rs ih => rw [List.foldl_cons,List.foldl_cons,detonate_withBombs,ih]

theorem sweep_takeOut [Arithmetic] {deltaTime : ℚ} {b : BombInfo} (h : b.expires deltaTime = true) (n : ℕ) (rest : List BombInfo) :
    (sweep deltaTime (n + 1) (b :: rest)).1 = (sweep deltaTime n (takeOut deltaTime b rest).2).1 := by
  rcases List.eq_nil_or_concat rest with rfl | ⟨mid,last,rfl⟩
  · rw [sweep_single h]
    cases n <;> rfl
  · rw [List.concat_eq_append,sweep_swap h]
    simp [takeOut]

theorem tickBombsLoop_fold [Arithmetic] (deltaTime : ℚ) (n : ℕ) (w : World) (pre rest : List BombInfo) (hn : rest.length = n)
    (hitems : w.bombs.items = pre ++ rest) (hhead : w.bombs.head ≤ pre.length) :
    ∃ bombs, tickBombsLoop deltaTime n pre.length w = ((removals deltaTime n rest).foldl detonate w).withBombs bombs ∧
      bombs.items = pre ++ (sweep deltaTime n rest).1 ∧ bombs.head = w.bombs.head := by
  induction n generalizing w pre rest with
  | zero =>
    obtain rfl := List.length_eq_zero_iff.mp hn
    exact ⟨w.bombs,rfl,hitems,rfl⟩
  | succ n ih =>
    match rest, hn with
    | b :: rest, hn =>
      have hlen : rest.length = n := Nat.succ.inj hn
      rw [removals]
      cases hexp : b.expires deltaTime with
      | false =>
        have hcell : w.bombs.items[pre.length]? = some b := by simp [hitems]
        have hpre : pre.length + 1 = (pre ++ [b.burn deltaTime]).length := by simp
        obtain ⟨bombs,hloop,hbombs,hh⟩ := ih (w.withBombs (w.bombs.write pre.length (b.burn deltaTime)))
          (pre ++ [b.burn deltaTime]) rest hlen (by simp [World.withBombs,hitems])
          (by simpa [World.withBombs] using Nat.le_succ_of_le hhead)
        refine ⟨bombs,?_,?_,hh⟩
        · rw [tickBombsLoop_kept hcell hexp,hpre,if_neg Bool.false_ne_true]
          exact hloop.trans (by rw [detonate_all_withBombs]; rfl)
        · rw [hbombs,sweep_keep hexp,List.append_assoc]
          rfl
      | true =>
        obtain ⟨left,hleft,hh,hloop⟩ := loops_take_out hitems hhead hexp
        have hnext : triggerExplosion { w.clear b.position with bombs := left } (takeOut deltaTime b rest).1 =
            (detonate w (b,(takeOut deltaTime b rest).1)).withBombs left :=
          detonate_withBombs w left (b,(takeOut deltaTime b rest).1)
        obtain ⟨bombs,hrest,hbombs,hh'⟩ := ih ((detonate w (b,(takeOut deltaTime b rest).1)).withBombs left) pre
          (takeOut deltaTime b rest).2 (by rw [takeOut_length,hlen]) hleft (hh.trans_le hhead)
        refine ⟨bombs,?_,?_,hh'.trans hh⟩
        · rw [(hloop n).1,hnext,hrest,if_pos rfl,List.foldl_cons,detonate_all_withBombs]
          rfl
        · rw [hbombs,sweep_takeOut hexp]

/-- Ticking the bombs is a fold over the removals; the bombs that do not run out stay. -/
theorem tickBombs_fold [Arithmetic] (w : World) (deltaTime : ℚ) :
    ∃ bombs, tickBombs w deltaTime =
        ((removals deltaTime w.bombs.queued.length w.bombs.queued).foldl detonate w).withBombs bombs ∧
      bombs.queued.Perm ((w.bombs.queued.filter fun b => !b.expires deltaTime).map (·.burn deltaTime)) ∧
      bombs.head = w.bombs.head := by
  have hlen : w.bombs.queued.length = w.bombs.rear - w.bombs.head := List.length_drop
  obtain ⟨bombs,hloop,hitems,hh⟩ := tickBombsLoop_fold deltaTime (w.bombs.rear - w.bombs.head) w
    (w.bombs.items.take w.bombs.head) w.bombs.queued hlen w.bombs.take_head_append.symm (by rw [w.bombs.take_head_length])
  rw [w.bombs.take_head_length,tickBombsLoop_eq] at hloop
  refine ⟨bombs,by rw [hlen]; exact hloop,?_,hh⟩
  rw [Queue.queued_eq hitems (hh.trans w.bombs.take_head_length.symm)]
  exact sweep_left deltaTime _ _ hlen

theorem removals_taken [Arithmetic] (deltaTime : ℚ) (n : ℕ) (bombs : List BombInfo) (hn : bombs.length = n) :
    ((removals deltaTime n bombs).map (·.1)).Perm (bombs.filter (·.expires deltaTime)) := by
  induction n generalizing bombs with
  | zero =>
    obtain rfl := List.length_eq_zero_iff.mp hn
    exact .refl _
  | succ n ih =>
    match bombs, hn with
    | b :: rest, hn =>
      have hlen : rest.length = n := Nat.succ.inj hn
      rw [removals]
      split
      · next hexp =>
        rw [List.map_cons,List.filter_cons_of_pos hexp]
        refine ((ih _ ((takeOut_length deltaTime b rest).trans hlen)).trans ?_).cons b
        rcases List.eq_nil_or_concat rest with rfl | ⟨mid,last,rfl⟩
        · exact .refl _
        · have hcycle : (takeOut deltaTime b (mid.concat last)).2 = last :: mid := by simp [takeOut]
          rw [hcycle,List.concat_eq_append]
          exact (List.perm_append_singleton last mid).symm.filter _
      · next hexp =>
        rw [List.filter_cons_of_neg hexp]
        exact ih rest hlen

theorem removals_mem [Arithmetic] {deltaTime : ℚ} {n : ℕ} {bombs : List BombInfo} {r : BombInfo × BombInfo}
    (h : r ∈ removals deltaTime n bombs) : r.1 ∈ bombs ∧ r.1.expires deltaTime = true ∧
      ∃ b ∈ bombs, b.position = r.2.position ∧ b.spread = r.2.spread := by
  induction n generalizing bombs with
  | zero => exact absurd h List.not_mem_nil
  | succ n ih =>
    match bombs with
    | [] => exact absurd h List.not_mem_nil
    | b :: rest =>
      rw [removals] at h
      split at h
      · next hexp =>
        rcases List.mem_cons.mp h with rfl | h
        · refine ⟨List.mem_cons_self,hexp,?_⟩
          rcases List.eq_nil_or_concat rest with rfl | ⟨mid,last,rfl⟩
          · exact ⟨b,List.mem_cons_self,rfl,rfl⟩
          · exact ⟨last,by simp,by simp [takeOut],by simp [takeOut]⟩
        · obtain ⟨hr,hexp',b',hb',hpos⟩ := ih h
          have hsub := takeOut_subset deltaTime b rest
          exact ⟨List.mem_cons_of_mem b (hsub hr),hexp',b',List.mem_cons_of_mem b (hsub hb'),hpos⟩
      · obtain ⟨hr,hexp',b',hb',hpos⟩ := ih h
        exact ⟨List.mem_cons_of_mem b hr,hexp',b',List.mem_cons_of_mem b hb',hpos⟩

/-! ## Putting explosions out -/

def ExplosionInfo.expires [Arithmetic] (deltaTime : ℚ) (e : ExplosionInfo) : Bool := decide (fl (e.timer - deltaTime) ≤ 0)

theorem ExplosionInfo.not_expires [Arithmetic] {deltaTime : ℚ} {e : ExplosionInfo} :
    (!e.expires deltaTime) = true ↔ 0 < fl (e.timer - deltaTime) := by
  rw [expires,Bool.not_eq_true',decide_eq_false_iff_not,not_le]

def ExplosionInfo.burn [Arithmetic] (e : ExplosionInfo) (deltaTime : ℚ) : ExplosionInfo := { e with timer := fl (e.timer - deltaTime) }

def World.withExplodes (w : World) (explodes : ExplodesQueue) : World := { w with explodes := explodes }

theorem clear_all_withExplodes (positions : List Vector2) (w : World) (explodes : ExplodesQueue) :
    positions.foldl World.clear (w.withExplodes explodes) = (positions.foldl World.clear w).withExplodes explodes := by
  induction positions generalizing w with
  | nil => rfl
  | cons v positions ih => exact ih (w.clear v)

theorem spawnPending_withExplodes (w : World) (explodes : ExplodesQueue) (v : Vector2) :
    spawnPending (w.withExplodes explodes) v = (spawnPending w v).withExplodes explodes := by
  unfold spawnPending
  by_cases h : w.powerupsToSpawn (toInt v.x) (toInt v.y) = .empty
  · rw [if_pos h]
    exact if_pos h
  · rw [if_neg h]
    exact if_neg h

theorem spawnPending_all_withExplodes (positions : List Vector2) (w : World) (explodes : ExplodesQueue) :
    positions.foldl spawnPending (w.withExplodes explodes) = (positions.foldl spawnPending w).withExplodes explodes := by
  induction positions generalizing w with
  | nil => rfl
  | cons v positions ih => rw [List.foldl_cons,List.foldl_cons,spawnPending_withExplodes,ih]

theorem extinguish_withExplodes (w : World) (explodes : ExplodesQueue) (e : ExplosionInfo) :
    extinguish (w.withExplodes explodes) e = (extinguish w e).withExplodes explodes := by
  unfold extinguish spawnPendingPowerups
  dsimp only
  rw [← spawnPending_all_withExplodes,← clear_all_withExplodes]
  rfl

theorem extinguish_all_withExplodes (es : List ExplosionInfo) (w : World) (explodes : ExplodesQueue) :
    es.foldl extinguish (w.withExplodes explodes) = (es.foldl extinguish w).withExplodes explodes := by
  induction es generalizing w with
  | nil => rfl
  | cons e es ih => rw [List.foldl_cons,List.foldl_cons,extinguish_withExplodes,ih]

theorem extinguish_explodes (w : World) (e : ExplosionInfo) : (extinguish w e).explodes = w.explodes := by
  have h : extinguish w e = (extinguish w e).withExplodes w.explodes := extinguish_withExplodes w w.explodes e
  rw [h]
  rfl

theorem spawnPending_mapSize (w : World) (v : Vector2) : (spawnPending w v).mapSize = w.mapSize := by
  unfold spawnPending
  dsimp only
  split <;> rfl

theorem spawnPending_all_mapSize (positions : List Vector2) (w : World) :
    (positions.foldl spawnPending w).mapSize = w.mapSize := by
  induction positions generalizing w with
  | nil => rfl
  | cons v positions ih => rw [List.foldl_cons,ih,spawnPending_mapSize]

theorem clear_all_mapSize (positions : List Vector2) (w : World) : (positions.foldl World.clear w).mapSize = w.mapSize := by
  induction positions generalizing w with
  | nil => rfl
  | cons v positions ih => exact ih (w.clear v)

theorem extinguish_mapSize (w : World) (e : ExplosionInfo) : (extinguish w e).mapSize = w.mapSize :=
  (spawnPending_all_mapSize _ _).trans (clear_all_mapSize (e.center :: e.spreadPositions) w)

/-- What the loop over the explosions does, the cells before `pre` being done with. -/
structure PutsOut [Arithmetic] (deltaTime : ℚ) (pre rest : List ExplosionInfo) (w t : World) (out lit : List ExplosionInfo) : Prop where
  world : ∃ explodes, t = (out.foldl extinguish w).withExplodes explodes ∧ explodes.items = pre ++ lit ∧
    explodes.head = w.explodes.head
  out : out.Perm (rest.filter (·.expires deltaTime))
  lit : lit.Perm ((rest.filter fun e => !e.expires deltaTime).map (·.burn deltaTime))

theorem tickExplosionsLoop_fold [Arithmetic] (deltaTime : ℚ) (n : ℕ) (w : World) (pre rest : List ExplosionInfo)
    (hn : rest.length = n) (hitems : w.explodes.items = pre ++ rest) (hhead : w.explodes.head ≤ pre.length) :
    ∃ out lit, PutsOut deltaTime pre rest w (tickExplosionsLoop deltaTime n pre.length w) out lit := by
  induction n generalizing w pre rest with
  | zero =>
    obtain rfl := List.length_eq_zero_iff.mp hn
    exact ⟨[],[],⟨w.explodes,rfl,hitems,rfl⟩,.refl _,.refl _⟩
  | succ n ih =>
    match rest, hn with
    | e :: rest, hn =>
      have hlen : rest.length = n := Nat.succ.inj hn
      have hcell : w.explodes.items[pre.length]? = some e := by simp [hitems]
      have hwrite : (w.explodes.write pre.length (e.burn deltaTime)).items = pre ++ e.burn deltaTime :: rest := by
        simp [hitems]
      rw [tickExplosionsLoop,hcell]
      dsimp only
      split
      · next hout =>
        have hexp : e.expires deltaTime = true := decide_eq_true hout
        obtain ⟨rest',hitems',hperm⟩ := Queue.overwrite_rest hwrite hhead
        let written := w.explodes.write pre.length (e.burn deltaTime)
        -- going out does not read the timer
        have hgone : extinguish (w.withExplodes written) (e.burn deltaTime) = (extinguish w e).withExplodes written :=
          extinguish_withExplodes w written e
        have hnext : (extinguish (w.withExplodes written) (e.burn deltaTime)).withExplodes
            ((extinguish (w.withExplodes written) (e.burn deltaTime)).explodes.overwrite pre.length).shrink =
            (extinguish w e).withExplodes (written.overwrite pre.length).shrink := by
          rw [extinguish_explodes,hgone]
          rfl
        obtain ⟨out,lit,⟨explodes,hworld,hqueue,hh⟩,hout',hlit⟩ := ih ((extinguish w e).withExplodes
          ((w.explodes.write pre.length (e.burn deltaTime)).overwrite pre.length).shrink) pre rest'
          (hperm.length_eq.trans hlen) hitems' (by simpa [World.withExplodes] using hhead)
        refine ⟨e :: out,lit,⟨explodes,?_,hqueue,by simpa [World.withExplodes] using hh⟩,?_,?_⟩
        · refine (congrArg (tickExplosionsLoop deltaTime n pre.length) hnext).trans (hworld.trans ?_)
          rw [extinguish_all_withExplodes]
          rfl
        · rw [List.filter_cons_of_pos hexp]
          exact (hout'.trans (hperm.filter _)).cons e
        · rw [List.filter_cons_of_neg (by simp [hexp])]
          exact hlit.trans ((hperm.filter _).map _)
      · next hlong =>
        have hexp : e.expires deltaTime = false := decide_eq_false hlong
        have hpre : pre.length + 1 = (pre ++ [e.burn deltaTime]).length := by simp
        obtain ⟨out,lit,⟨explodes,hworld,hqueue,hh⟩,hout,hlit⟩ := ih
          (w.withExplodes (w.explodes.write pre.length (e.burn deltaTime))) (pre ++ [e.burn deltaTime]) rest hlen
          (hwrite.trans (by simp)) (by simpa [World.withExplodes] using Nat.le_succ_of_le hhead)
        refine ⟨out,e.burn deltaTime :: lit,⟨explodes,?_,by rw [hqueue,List.append_assoc]; rfl,hh⟩,?_,?_⟩
        · rw [hpre]
          exact hworld.trans (by rw [extinguish_all_withExplodes]; rfl)
        · rw [List.filter_cons_of_neg (by simp [hexp])]
          exact hout
        · rw [List.filter_cons_of_pos (by simp [hexp]),List.map_cons]
          exact hlit.cons _

theorem tickExplosions_fold [Arithmetic] (w : World) (deltaTime : ℚ) :
    ∃ (out : List ExplosionInfo) (explodes : ExplodesQueue), tickExplosions w deltaTime = (out.foldl extinguish w).withExplodes explodes ∧
      out.Perm (w.explodes.queued.filter (·.expires deltaTime)) ∧
      explodes.queued.Perm ((w.explodes.queued.filter fun e => !e.expires deltaTime).map (·.burn deltaTime)) ∧
      explodes.head = w.explodes.head := by
  have hlen : w.explodes.queued.length = w.explodes.rear - w.explodes.head := List.length_drop
  unfold tickExplosions
  split
  · next hempty =>
    have hnil : w.explodes.queued = [] := w.explodes.empty_iff.mp hempty
    exact ⟨[],w.explodes,rfl,by rw [hnil]; exact .refl _,by rw [hnil]; exact .refl _,rfl⟩
  · obtain ⟨out,lit,⟨explodes,hworld,hitems,hh⟩,hout,hlit⟩ := tickExplosionsLoop_fold deltaTime
      (w.explodes.rear - w.explodes.head) w (w.explodes.items.take w.explodes.head) w.explodes.queued hlen
      w.explodes.take_head_append.symm (by rw [w.explodes.take_head_length])
    rw [w.explodes.take_head_length] at hworld
    refine ⟨out,explodes,hworld,hout,?_,hh⟩
    rw [Queue.queued_eq hitems (hh.trans w.explodes.take_head_length.symm)]
    exact hlit

/-! ## Tile by tile -/

def ExplosionInfo.spread (e : ExplosionInfo) : List (ℤ × ℤ) := e.spreadPositions.map Vector2.tile

theorem mem_tiles {e : ExplosionInfo} {c : ℤ × ℤ} : c ∈ e.tiles ↔ c = e.center.tile ∨ c ∈ e.spread := List.mem_cons

def World.pending (w : World) (c : ℤ × ℤ) : Tile := w.powerupsToSpawn c.1 c.2

theorem clear_at (w : World) (v : Vector2) (c : ℤ × ℤ) : (w.clear v).at c = if c = v.tile then .empty else w.at c :=
  setTile_map w _ _ _ c

theorem clear_all_at (positions : List Vector2) (w : World) (c : ℤ × ℤ) :
    (positions.foldl World.clear w).at c = if c ∈ positions.map Vector2.tile then .empty else w.at c := by
  induction positions generalizing w with
  | nil => rfl
  | cons v positions ih =>
    rw [List.foldl_cons,ih,clear_at,List.map_cons]
    by_cases hv : c = v.tile
    · rw [if_pos hv,if_pos (List.mem_cons.mpr (Or.inl hv)),ite_self]
    · rw [if_neg hv]
      exact if_congr (by rw [List.mem_cons,or_iff_right hv]) rfl rfl

theorem spawnPending_at (w : World) (v : Vector2) (c : ℤ × ℤ) :
    (spawnPending w v).at c = if c = v.tile ∧ w.pending c ≠ .empty then w.pending c else w.at c := by
  unfold spawnPending
  dsimp only
  split
  · next hnone =>
    rw [if_neg]
    rintro ⟨rfl,hpending⟩
    exact hpending hnone
  · next hpending =>
    have hset : ∀ tile, (w.setTile (toInt v.x) (toInt v.y) tile).at c = if c = v.tile then tile else w.at c :=
      fun tile => setTile_map w _ _ tile c
    refine (hset _).trans ?_
    by_cases hv : c = v.tile
    · subst hv
      exact (if_pos rfl).trans (if_pos ⟨rfl,hpending⟩).symm
    · exact (if_neg hv).trans (if_neg fun h => hv h.1).symm

theorem spawnPending_pending (w : World) (v : Vector2) (c : ℤ × ℤ) :
    (spawnPending w v).pending c = if c = v.tile then .empty else w.pending c := by
  unfold spawnPending
  dsimp only
  split
  · next hnone =>
    split
    · next hv =>
      subst hv
      exact hnone
    · rfl
  · simp only [World.pending,Grid.set,Vector2.tile,Prod.ext_iff]

theorem spawnPending_all_at (positions : List Vector2) (w : World) (c : ℤ × ℤ) :
    (positions.foldl spawnPending w).at c =
      if c ∈ positions.map Vector2.tile ∧ w.pending c ≠ .empty then w.pending c else w.at c := by
  induction positions generalizing w with
  | nil => simp
  | cons v positions ih =>
    rw [List.foldl_cons,ih,spawnPending_at,spawnPending_pending]
    by_cases hv : c = v.tile
    · simp [hv]
    · simp [hv]

theorem spawnPending_all_pending (positions : List Vector2) (w : World) (c : ℤ × ℤ) :
    (positions.foldl spawnPending w).pending c = if c ∈ positions.map Vector2.tile then .empty else w.pending c := by
  induction positions generalizing w with
  | nil => simp
  | cons v positions ih =>
    rw [List.foldl_cons,ih,spawnPending_pending]
    by_cases hv : c = v.tile
    · simp [hv]
    · simp [hv]

theorem clear_all_pending (positions : List Vector2) (w : World) (c : ℤ × ℤ) :
    (positions.foldl World.clear w).pending c = w.pending c := by
  induction positions generalizing w with
  | nil => rfl
  | cons v positions ih => exact ih (w.clear v)

/-- A waiting powerup appears under an arm that goes out; the other tiles become empty. -/
theorem extinguish_at (w : World) (e : ExplosionInfo) (c : ℤ × ℤ) : (extinguish w e).at c =
    if c ∈ e.spread ∧ w.pending c ≠ .empty then w.pending c else if c ∈ e.tiles then .empty else w.at c := by
  have hclear := clear_all_at (e.center :: e.spreadPositions) w c
  have hpending := clear_all_pending (e.center :: e.spreadPositions) w c
  have hspawn := spawnPending_all_at e.spreadPositions ((e.center :: e.spreadPositions).foldl World.clear w) c
  rw [hclear,hpending] at hspawn
  exact hspawn

theorem extinguish_pending (w : World) (e : ExplosionInfo) (c : ℤ × ℤ) :
    (extinguish w e).pending c = if c ∈ e.spread then .empty else w.pending c := by
  have hpending := clear_all_pending (e.center :: e.spreadPositions) w c
  have hspawn := spawnPending_all_pending e.spreadPositions ((e.center :: e.spreadPositions).foldl World.clear w) c
  rw [hpending] at hspawn
  exact hspawn

def Tile.isPowerup (tile : Tile) : Prop := tile = .powerupFire ∨ tile = .powerupBomb

/-- The tiles burn, and a powerup waits at most where a breakable tile was. -/
structure Scorches (w : World) (tiles : List (ℤ × ℤ)) (t : World) : Prop where
  at_tile : ∀ c, t.at c = if c ∈ tiles then .explosion else w.at c
  pending : ∀ c, t.pending c = w.pending c ∨ c ∈ tiles ∧ w.at c = .breakable ∧ (t.pending c).isPowerup

theorem randomisePowerup_pending (w : World) (x y : ℤ) (c : ℤ × ℤ) :
    (randomisePowerup w x y).pending c = w.pending c ∨ c = (x,y) ∧ ((randomisePowerup w x y).pending c).isPowerup := by
  unfold randomisePowerup
  dsimp only [World.rand]
  split
  · exact Or.inl rfl
  · by_cases hc : c.1 = x ∧ c.2 = y
    · refine Or.inr ⟨Prod.ext hc.1 hc.2,?_⟩
      change (Grid.set w.powerupsToSpawn x y _ c.1 c.2).isPowerup
      rw [Grid.set,if_pos hc]
      split
      · exact Or.inl rfl
      · exact Or.inr rfl
    · exact Or.inl (if_neg hc)

theorem uncover_all_pending (cells : List (ℤ × ℤ)) (w : World) (c : ℤ × ℤ) :
    (cells.foldl World.uncover w).pending c = w.pending c ∨
      c ∈ cells ∧ ((cells.foldl World.uncover w).pending c).isPowerup := by
  induction cells generalizing w with
  | nil => exact .inl rfl
  | cons t cells ih =>
    rw [List.foldl_cons]
    rcases ih (w.uncover t) with heq | ⟨hc,hpowerup⟩
    · rw [heq]
      refine (randomisePowerup_pending w t.1 t.2 c).imp_right fun ⟨hc,hpowerup⟩ => ⟨?_,hpowerup⟩
      exact List.mem_cons.mpr (.inl hc)
    · exact .inr ⟨List.mem_cons_of_mem t hc,hpowerup⟩

theorem burst_scorches (w : World) (bomb : BombInfo) : Scorches w (crossTiles w bomb.blast) (burst w bomb).1 := by
  rw [burst_eq]
  refine ⟨blown_at w _,fun c => ?_⟩
  refine (uncover_all_pending (w.breakables (crossTiles w bomb.blast)) w c).imp_right fun ⟨hc,hpowerup⟩ => ?_
  obtain ⟨hcross,hbreakable⟩ := List.mem_filter.mp hc
  exact ⟨hcross,of_decide_eq_true hbreakable,hpowerup⟩

theorem detonate_sameWalls {w : World} {r : BombInfo × BombInfo} (hfloor : w.at r.1.position.tile ≠ .wall) :
    SameWalls w (detonate w r) := by
  have hcleared : SameWalls w (w.clear r.1.position) := setTile_sameWalls hfloor (by decide)
  have hburst := (burst_burns (w.clear r.1.position) r.2).walls
  exact hcleared.trans ⟨hburst.mapSize,hburst.walls⟩

theorem detonate_at (w : World) (r : BombInfo × BombInfo) (hfloor : w.at r.1.position.tile ≠ .wall) (c : ℤ × ℤ) :
    (detonate w r).at c =
      if c ∈ crossTiles w r.2.blast then .explosion else if c = r.1.position.tile then .empty else w.at c := by
  have hwalls : SameWalls w (w.clear r.1.position) := setTile_sameWalls hfloor (by decide)
  have h := (burst_scorches (w.clear r.1.position) r.2).at_tile c
  rw [crossTiles_congr hwalls,clear_at] at h
  exact h

theorem detonate_pending (w : World) (r : BombInfo × BombInfo) (hfloor : w.at r.1.position.tile ≠ .wall) (c : ℤ × ℤ) :
    (detonate w r).pending c = w.pending c ∨
      c ∈ crossTiles w r.2.blast ∧ w.at c = .breakable ∧ ((detonate w r).pending c).isPowerup := by
  have hwalls : SameWalls w (w.clear r.1.position) := setTile_sameWalls hfloor (by decide)
  have h := (burst_scorches (w.clear r.1.position) r.2).pending c
  rw [crossTiles_congr hwalls,clear_at] at h
  refine h.imp_right fun ⟨hc,hbreakable,hpowerup⟩ => ⟨hc,?_,hpowerup⟩
  split at hbreakable
  · cases hbreakable
  · exact hbreakable

/-! ## What waits for an explosion to end -/

/-- Nothing but powerups waits under the fire. -/
def Waiting (w : World) : Prop := ∀ c, w.pending c = .empty ∨ (w.pending c).isPowerup

theorem detonate_waiting {w : World} (h : Waiting w) {r : BombInfo × BombInfo}
    (hfloor : w.at r.1.position.tile ≠ .wall) : Waiting (detonate w r) := by
  intro c
  rcases detonate_pending w r hfloor c with heq | ⟨-,-,hpowerup⟩
  · rw [heq]
    exact h c
  · exact Or.inr hpowerup

theorem detonate_all_waiting (rs : List (BombInfo × BombInfo)) {w : World} (h : Waiting w)
    (hfloor : ∀ r ∈ rs, w.at r.1.position.tile ≠ .wall) : Waiting (rs.foldl detonate w) := by
  induction rs generalizing w with
  | nil => exact h
  | cons r rs ih =>
    have hr := hfloor r List.mem_cons_self
    have hwalls := detonate_sameWalls hr
    apply ih (detonate_waiting h hr)
    exact fun q hq hwall => hfloor q (List.mem_cons_of_mem r hq) ((hwalls.walls _).mp hwall)

theorem extinguish_waiting {w : World} (h : Waiting w) (e : ExplosionInfo) : Waiting (extinguish w e) := by
  intro c
  rw [extinguish_pending]
  split
  · exact Or.inl rfl
  · exact h c

theorem extinguish_all_waiting (es : List ExplosionInfo) {w : World} (h : Waiting w) :
    Waiting (es.foldl extinguish w) := by
  induction es generalizing w with
  | nil => exact h
  | cons e es ih => exact ih (extinguish_waiting h e)

theorem removals_floor [Arithmetic] {w : World} (hs : Sound w) (deltaTime : ℚ) :
    ∀ r ∈ removals deltaTime w.bombs.queued.length w.bombs.queued, w.at r.1.position.tile ≠ .wall :=
  fun _ hr => hs.floor _ (List.mem_of_mem_drop (removals_mem hr).1)

theorem tickBombs_waiting [Arithmetic] {w : World} (hs : Sound w) (h : Waiting w) (deltaTime : ℚ) :
    Waiting (tickBombs w deltaTime) := by
  obtain ⟨bombs,hworld,-,-⟩ := tickBombs_fold w deltaTime
  rw [hworld]
  exact detonate_all_waiting _ h (removals_floor hs deltaTime)

theorem tickExplosions_waiting [Arithmetic] {w : World} (h : Waiting w) (deltaTime : ℚ) : Waiting (tickExplosions w deltaTime) := by
  obtain ⟨out,explodes,hworld,-,-,-⟩ := tickExplosions_fold w deltaTime
  rw [hworld]
  exact extinguish_all_waiting out h

theorem movement_waiting [Arithmetic] {s : Bombd} (h : Waiting s.world) (normalize : Vector2 → Vector2) (deltaTime : ℚ) :
    Waiting (applyMovementAndPickups normalize deltaTime s).world := by
  intro c
  have hpowerups := (advanceAll_trodden normalize deltaTime s.world s.session.players).powerups
  have hsame : (applyMovementAndPickups normalize deltaTime s).world.pending c = s.world.pending c :=
    congrFun (congrFun hpowerups c.1) c.2
  rw [hsame]
  exact h c

theorem tickSession_waiting [Arithmetic] {s : Bombd} (hs : Sound s.world) (h : Waiting s.world) (normalize : Vector2 → Vector2)
    (deltaTime : ℚ) : Waiting (tickSession normalize s deltaTime).1.world :=
  tickExplosions_waiting (tickBombs_waiting (movement_moves normalize deltaTime hs).sound
    (movement_waiting h normalize deltaTime) deltaTime) deltaTime

theorem placeBomb_pending (w : World) (pos : Vector2) (stock : InventoryStock) (c : ℤ × ℤ) :
    (placeBomb w pos stock).1.pending c = w.pending c := by
  rcases placeBomb_cases w pos stock with ⟨heq,-⟩ | ⟨-,-,heq⟩
  · rw [heq]
  · rw [heq]
    rfl

theorem step_waiting [Arithmetic] {normalize : Vector2 → Vector2} (s : Bombd) (input : BombInput) (t : Bombd)
    (h : Sound s.world ∧ Waiting s.world) (ht : Bombd.step normalize s input = some t) :
    Sound t.world ∧ Waiting t.world := by
  refine ⟨step_sound s input t h.1 ht,?_⟩
  rcases step_world ht with hsame | ⟨pos,stock,hplaced⟩ | ⟨deltaTime,-,rfl⟩
  · rw [hsame]
    exact h.2
  · intro c
    rw [hplaced,placeBomb_pending]
    exact h.2 c
  · exact tickSession_waiting h.1 h.2 normalize deltaTime

/-! ## The players' moves, tile by tile -/

/-- Players only take powerups off the map. -/
def Picked (w t : World) : Prop := ∀ c, t.at c = w.at c ∨ (w.at c).isPowerup ∧ t.at c = .empty

theorem Picked.refl (w : World) : Picked w w := fun _ => Or.inl rfl

theorem Picked.trans {w t u : World} (h : Picked w t) (h' : Picked t u) : Picked w u := by
  intro c
  rcases h' c with heq | ⟨hpowerup,hempty⟩
  · rw [heq]
    exact h c
  · rcases h c with heq | ⟨-,hgone⟩
    · rw [heq] at hpowerup
      exact Or.inr ⟨hpowerup,hempty⟩
    · rw [hgone] at hpowerup
      rcases hpowerup with hne | hne <;> cases hne

theorem pickUp_picked (r : Pickup) (tile : ℤ × ℤ) : Picked r.world (pickUp r tile).world := by
  have htake : (r.world.at tile).isPowerup → Picked r.world (r.world.setTile tile.1 tile.2 .empty) := by
    intro hpowerup c
    have hset : (r.world.setTile tile.1 tile.2 .empty).at c = if c = tile then .empty else r.world.at c :=
      setTile_map _ _ _ _ c
    rw [hset]
    split
    · next hc =>
      subst hc
      exact Or.inr ⟨hpowerup,rfl⟩
    · exact Or.inl rfl
  unfold pickUp
  split
  · exact .refl _
  · dsimp only
    split
    · next h => exact htake (Or.inl h)
    · next h => exact htake (Or.inr h)
    · exact .refl _

theorem pickUp_all_picked (tiles : List (ℤ × ℤ)) (r : Pickup) : Picked r.world (tiles.foldl pickUp r).world := by
  induction tiles generalizing r with
  | nil => exact .refl _
  | cons t tiles ih => exact (pickUp_picked r t).trans (ih _)

theorem advance_picked [Arithmetic] (normalize : Vector2 → Vector2) (deltaTime : ℚ) (w : World) (p : BombPlayer) :
    Picked w (advance normalize deltaTime w p).1 := by
  unfold advance
  split
  · exact .refl w
  · exact pickUp_all_picked _ ⟨w,_,_⟩

theorem advanceAll_picked [Arithmetic] (normalize : Vector2 → Vector2) (deltaTime : ℚ) (w : World) (players : List BombPlayer) :
    Picked w (advanceAll normalize deltaTime w players).1 := by
  induction players generalizing w with
  | nil => exact .refl w
  | cons p players ih => exact (advance_picked normalize deltaTime w p).trans (ih _)

end CoreStack.Bomberman
