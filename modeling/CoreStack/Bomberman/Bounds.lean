import CoreStack.Bomberman.Placed
import CoreStack.Lib.Checked
import CoreStack.Bomberman.Walls

/-! # Inside the arena (`collision.c`, `bomb_control.c`, `session.c`)

`tile_is_solid`, `place_bomb` and the explosions index the map without a check. Here the
same code stops at an index outside; what keeps it from stopping is the border of walls,
which no hitbox overlaps.
-/
namespace CoreStack.Bomberman
open Utils

/-! ## The code with its indices checked -/

/-- What is done to one cell of the map, if that cell is inside. -/
def World.checked {α : Type} (w : World) (c : ℤ × ℤ) (result : α) : Option α :=
  if w.inside c.1 c.2 then some result else none

/-- The scan stops at the first tile that is solid. -/
def aabbCollided? [Arithmetic] (w : World) (x y : ℚ) (size : Vector2) : Option Bool :=
  (getAllOverlappingTiles x y size).tiles.anyM fun t => w.checked t (tileIsSolid w t.1 t.2)

def moveBox? [Arithmetic] (w : World) (box : BoundBox) (moveAmt : Vector2) : Option BoundBox :=
  let newPos := box.position.add moveAmt
  (aabbCollided? w newPos.x box.position.y box.size).bind fun collided =>
    let box := if collided then box else { box with position := { box.position with x := newPos.x } }
    (aabbCollided? w box.position.x newPos.y box.size).map fun collided =>
      if collided then box else { box with position := { box.position with y := newPos.y } }

def placeBomb? (w : World) (pos : Vector2) (stock : InventoryStock) : Option (World × InventoryStock × Bool) :=
  w.checked pos.tile (placeBomb w pos stock)

/-- The map is read only before its edge. -/
def spreadArm? (d : Direction) (x y : ℤ) : ℕ → ℕ → World × ExplosionInfo → Option (World × ExplosionInfo)
  | 0, _, r => some r
  | n + 1, i, (w,explosion) =>
    let (tx,ty) := d.tile x y i
    if d.beyond w.mapSize x y i then some (w,explosion)
    else (w.checked (tx,ty) (w.map tx ty)).bind fun tile =>
      if tile == .wall then some (w,explosion)
      else (w.checked (tx,ty) (handleSpread w tx ty { explosion with spreadAmt := Function.update explosion.spreadAmt d i })).bind
        (spreadArm? d x y n (i + 1))

def triggerExplosion? (w : World) (bomb : BombInfo) : Option World :=
  let x := toInt bomb.position.x
  let y := toInt bomb.position.y
  let explosion : ExplosionInfo := ⟨bomb.position,fun _ => 0,[],explodeLifetime,bomb.spread⟩
  let arm := fun d => spreadArm? d x y bomb.spread.toNat 1
  (arm .up (w,explosion)).bind fun r => (arm .down r).bind fun r => (arm .left r).bind fun r => (arm .right r).map fun r =>
    { r.1 with explodes := (r.1.explodes.enqueue r.2).1 }

def World.clear? (w : World) (position : Vector2) : Option World := w.checked position.tile (w.clear position)

def tickBombsLoop? [Arithmetic] (deltaTime : ℚ) : ℕ → ℕ → World → Option World
  | 0, _, w => some w
  | n + 1, i, w =>
    match w.bombs.items[i]? with
    | none => some w
    | some b =>
      let bomb := b.burn deltaTime
      let w := { w with bombs := w.bombs.write i bomb }
      if bomb.timer ≤ 0 then
        (w.clear? bomb.position).bind fun w =>
          let bombs := w.bombs.overwrite i
          let pointee := bombs.items[i]?.getD bomb
          (triggerExplosion? { w with bombs := bombs.shrink } pointee).bind (tickBombsLoop? deltaTime n i)
      else tickBombsLoop? deltaTime n (i + 1) w

def tickBombs? [Arithmetic] (w : World) (deltaTime : ℚ) : Option World :=
  if w.bombs.empty then some w else tickBombsLoop? deltaTime (w.bombs.rear - w.bombs.head) w.bombs.head w

def spawnPending? (w : World) (position : Vector2) : Option World := w.checked position.tile (spawnPending w position)

def extinguish? (w : World) (explosion : ExplosionInfo) : Option World :=
  (w.clear? explosion.center).bind fun w => (explosion.spreadPositions.foldlM World.clear? w).bind fun w =>
    explosion.spreadPositions.foldlM spawnPending? w

def tickExplosionsLoop? [Arithmetic] (deltaTime : ℚ) : ℕ → ℕ → World → Option World
  | 0, _, w => some w
  | n + 1, i, w =>
    match w.explodes.items[i]? with
    | none => some w
    | some e =>
      let explosion := { e with timer := fl (e.timer - deltaTime) }
      let w := { w with explodes := w.explodes.write i explosion }
      if explosion.timer ≤ 0 then
        (extinguish? w explosion).bind fun w =>
          tickExplosionsLoop? deltaTime n i { w with explodes := (w.explodes.overwrite i).shrink }
      else tickExplosionsLoop? deltaTime n (i + 1) w

def tickExplosions? [Arithmetic] (w : World) (deltaTime : ℚ) : Option World :=
  if w.explodes.empty then some w
  else tickExplosionsLoop? deltaTime (w.explodes.rear - w.explodes.head) w.explodes.head w

/-- The loop over the overlapped tiles skips those outside itself. -/
def pickUp? (r : Pickup) (tile : ℤ × ℤ) : Option Pickup :=
  if !r.world.inside tile.1 tile.2 then some r else r.world.checked tile (pickUp r tile)

def steer? [Arithmetic] (normalize : Vector2 → Vector2) (deltaTime : ℚ) (w : World) (p : BombPlayer) : Option BombPlayer :=
  let speed := if p.sprinting then simPlayerSprintSpeed else simPlayerSpeed
  let moveVec := normalize ⟨fl p.moveDx,-fl p.moveDy⟩
  (moveBox? w p.box (moveVec.scale (fl (speed * deltaTime)))).map fun box => { p with box := box, direction := facing p }

def advance? [Arithmetic] (normalize : Vector2 → Vector2) (deltaTime : ℚ) (w : World) (p : BombPlayer) :
    Option (World × BombPlayer × Bool) :=
  if !p.active || !p.alive then some (w,p,false)
  else
    let moving := decide (p.moveDx ≠ 0 ∨ p.moveDy ≠ 0)
    let changed := moving || p.isMoving != moving
    (if moving then steer? normalize deltaTime w p else some p).bind fun p =>
      let p := { p with isMoving := moving }
      let tiles := (getAllOverlappingTiles p.box.position.x p.box.position.y p.box.size).tiles
      (tiles.foldlM pickUp? ⟨w,p.inventory,changed⟩).map fun r =>
        (r.world,{ p with inventory := inventoryUpdate r.inventory deltaTime },r.dirty)

def advanceAll? [Arithmetic] (normalize : Vector2 → Vector2) (deltaTime : ℚ) :
    World → List BombPlayer → Option (World × List BombPlayer × Bool)
  | w, [] => some (w,[],false)
  | w, p :: players =>
    (advance? normalize deltaTime w p).bind fun r => (advanceAll? normalize deltaTime r.1 players).map fun r' =>
      (r'.1,r.2.1 :: r'.2.1,r.2.2 || r'.2.2)

def applyMovementAndPickups? [Arithmetic] (normalize : Vector2 → Vector2) (deltaTime : ℚ) (s : Bombd) : Option Bombd :=
  (advanceAll? normalize deltaTime s.world s.session.players).map fun r => ⟨⟨r.2.1,s.session.dirty || r.2.2⟩,r.1⟩

def BombPlayer.burning? [Arithmetic] (w : World) (p : BombPlayer) : Option Bool :=
  if p.active && p.alive then p.overlapped.anyM fun t =>
    if w.inside t.1 t.2 then w.checked t (w.map t.1 t.2 == .explosion) else some false
  else some false

def killPlayersInExplosions? [Arithmetic] (s : Bombd) : Option Bombd :=
  (s.session.players.mapM (BombPlayer.burning? s.world)).map fun _ => killPlayersInExplosions s

def tickSession? [Arithmetic] (normalize : Vector2 → Vector2) (s : Bombd) (deltaTime : ℚ) : Option (Bombd × List ExplosionInfo) :=
  (applyMovementAndPickups? normalize deltaTime s).bind fun s =>
    let explosionsBefore := s.world.explodes.rear
    (tickBombs? s.world deltaTime).bind fun world =>
      let reported := world.explodes.items.drop explosionsBefore
      (tickExplosions? world deltaTime).bind fun world =>
        (killPlayersInExplosions? { s with world := world }).map (·,reported)

def applyBombPlace? [Arithmetic] (s : Bombd) (playerId : ℕ) : Option Bombd :=
  match s.session.steered playerId with
  | some (i,p) => (placeBomb? s.world (getCenterBox p.box) p.inventory).map fun (world,inventory,_) =>
    ⟨s.session.setPlayer i { p with inventory := inventory },world⟩
  | none => some s

/-- A step of the session that stops where the map is indexed outside `0..map_size-1`. -/
def Bombd.step? [Arithmetic] (normalize : Vector2 → Vector2) (s : Bombd) : BombInput → Option Bombd
  | .move playerId dx dy sprinting => some (applyMove s playerId dx dy sprinting)
  | .place playerId => applyBombPlace? s playerId
  | .disconnect playerId => some (applyDisconnect s playerId)
  | .tick deltaTime => if 0 < deltaTime then (tickSession? normalize s deltaTime).map (·.1) else none

/-! ## The condition on a tick -/

def BombPlayer.displacement [Arithmetic] (normalize : Vector2 → Vector2) (deltaTime : ℚ) (p : BombPlayer) : Vector2 :=
  (normalize ⟨fl p.moveDx,-fl p.moveDy⟩).scale (fl ((if p.sprinting then simPlayerSprintSpeed else simPlayerSpeed) * deltaTime))

/-- The player is not moved by a tile or more. -/
def BombPlayer.slow [Arithmetic] (normalize : Vector2 → Vector2) (deltaTime : ℚ) (p : BombPlayer) : Bool :=
  let d := p.displacement normalize deltaTime
  decide (p.active = true ∧ p.alive = true ∧ (p.moveDx ≠ 0 ∨ p.moveDy ≠ 0) → -1 < d.x ∧ d.x < 1 ∧ -1 < d.y ∧ d.y < 1)

def Bombd.slow [Arithmetic] (normalize : Vector2 → Vector2) (s : Bombd) : BombInput → Bool
  | .tick deltaTime => s.session.players.all (·.slow normalize deltaTime)
  | _ => true

/-! ## Checks that pass -/

theorem checked_of_inside {α : Type} {w : World} {c : ℤ × ℤ} (h : w.inside c.1 c.2 = true) (result : α) :
    w.checked c result = some result := if_pos h

def Walled (w : World) : Prop := ∀ c, Border w.mapSize c → w.at c = .wall

def Inside (mapSize : ℕ) (c : ℤ × ℤ) : Prop := 0 ≤ c.1 ∧ 0 ≤ c.2 ∧ c.1 < mapSize ∧ c.2 < mapSize

theorem inside_iff {w : World} {c : ℤ × ℤ} : w.inside c.1 c.2 = true ↔ Inside w.mapSize c := decide_eq_true_iff

/-! ## What stays free -/

structure Clears (w t : World) : Prop where
  mapSize : t.mapSize = w.mapSize
  solid : ∀ c : ℤ × ℤ, tileIsSolid t c.1 c.2 = true → tileIsSolid w c.1 c.2 = true

theorem Clears.refl (w : World) : Clears w w := ⟨rfl,fun _ => id⟩

theorem Clears.trans {w t u : World} (h : Clears w t) (h' : Clears t u) : Clears w u :=
  ⟨h'.mapSize.trans h.mapSize,fun c hc => h.solid c (h'.solid c hc)⟩

theorem solid_iff {w : World} {c : ℤ × ℤ} : tileIsSolid w c.1 c.2 = true ↔ w.at c = .wall ∨ w.at c = .breakable := by
  rw [tileIsSolid,Bool.or_eq_true,beq_iff_eq,beq_iff_eq]
  exact Iff.rfl

theorem Clears.of_at {w t : World} (hsize : t.mapSize = w.mapSize)
    (hat : ∀ c, t.at c = w.at c ∨ t.at c ≠ .wall ∧ t.at c ≠ .breakable) : Clears w t := by
  refine ⟨hsize,fun c hsolid => ?_⟩
  rcases hat c with heq | hopen
  · rw [solid_iff] at hsolid ⊢
    rwa [← heq]
  · exact absurd (solid_iff.mp hsolid) (not_or.mpr hopen)

theorem picked_clears {w t : World} (h : Picked w t) (hsize : t.mapSize = w.mapSize) : Clears w t := by
  refine .of_at hsize fun c => (h c).imp_right fun hgone => ?_
  rw [hgone.2]
  exact ⟨by decide,by decide⟩

theorem advance_clears [Arithmetic] (normalize : Vector2 → Vector2) (deltaTime : ℚ) (w : World) (p : BombPlayer) :
    Clears w (advance normalize deltaTime w p).1 :=
  picked_clears (advance_picked normalize deltaTime w p) (advance_trodden normalize deltaTime w p).walls.mapSize

theorem advanceAll_clears [Arithmetic] (normalize : Vector2 → Vector2) (deltaTime : ℚ) (w : World) (players : List BombPlayer) :
    Clears w (advanceAll normalize deltaTime w players).1 :=
  picked_clears (advanceAll_picked normalize deltaTime w players) (advanceAll_trodden normalize deltaTime w players).walls.mapSize

theorem placeBomb_mapSize (w : World) (pos : Vector2) (stock : InventoryStock) :
    (placeBomb w pos stock).1.mapSize = w.mapSize := by
  rcases placeBomb_cases w pos stock with ⟨heq,-⟩ | ⟨-,-,heq⟩
  · rw [heq]
  · rw [heq]
    rfl

theorem placeBomb_clears (w : World) (pos : Vector2) (stock : InventoryStock) : Clears w (placeBomb w pos stock).1 := by
  by_cases hcan : CanPlace w pos stock
  · obtain ⟨-,-,hmap⟩ := placeBomb_placed hcan
    refine .of_at (placeBomb_mapSize w pos stock) fun c => ?_
    rw [hmap]
    split
    · exact Or.inr ⟨by decide,by decide⟩
    · exact Or.inl rfl
  · rw [placeBomb_refused hcan]
    exact .refl w

theorem detonate_clears {w : World} {r : BombInfo × BombInfo} (hfloor : w.at r.1.position.tile ≠ .wall) :
    Clears w (detonate w r) := by
  refine .of_at (detonate_mapSize w r) fun c => ?_
  rw [detonate_at w r hfloor]
  split
  · exact Or.inr ⟨by decide,by decide⟩
  · split
    · exact Or.inr ⟨by decide,by decide⟩
    · exact Or.inl rfl

theorem detonate_all_clears (rs : List (BombInfo × BombInfo)) {w : World}
    (hfloor : ∀ r ∈ rs, w.at r.1.position.tile ≠ .wall) : Clears w (rs.foldl detonate w) := by
  induction rs generalizing w with
  | nil => exact .refl w
  | cons r rs ih =>
    have hr := hfloor r List.mem_cons_self
    have hwalls := detonate_sameWalls hr
    apply (detonate_clears hr).trans
    exact ih fun q hq hwall => hfloor q (List.mem_cons_of_mem r hq) ((hwalls.walls _).mp hwall)

theorem tickBombs_clears [Arithmetic] {w : World} (hs : Sound w) (deltaTime : ℚ) : Clears w (tickBombs w deltaTime) := by
  obtain ⟨bombs,hworld,-,-⟩ := tickBombs_fold w deltaTime
  have hfold := detonate_all_clears _ (removals_floor hs deltaTime)
  rw [hworld]
  exact ⟨hfold.mapSize,hfold.solid⟩

theorem extinguish_clears {w : World} (h : Waiting w) (e : ExplosionInfo) : Clears w (extinguish w e) := by
  refine .of_at (extinguish_mapSize w e) fun c => ?_
  rw [extinguish_at]
  split
  · rcases h c with hnone | hpowerup | hpowerup
    · rw [hnone]
      exact Or.inr ⟨by decide,by decide⟩
    · rw [hpowerup]
      exact Or.inr ⟨by decide,by decide⟩
    · rw [hpowerup]
      exact Or.inr ⟨by decide,by decide⟩
  · split
    · exact Or.inr ⟨by decide,by decide⟩
    · exact Or.inl rfl

theorem extinguish_all_clears (es : List ExplosionInfo) {w : World} (h : Waiting w) :
    Clears w (es.foldl extinguish w) := by
  induction es generalizing w with
  | nil => exact .refl w
  | cons e es ih => exact (extinguish_clears h e).trans (ih (extinguish_waiting h e))

theorem tickExplosions_clears [Arithmetic] {w : World} (h : Waiting w) (deltaTime : ℚ) : Clears w (tickExplosions w deltaTime) := by
  obtain ⟨out,explodes,hworld,-,-,-⟩ := tickExplosions_fold w deltaTime
  have hfold := extinguish_all_clears out h
  rw [hworld]
  exact ⟨hfold.mapSize,hfold.solid⟩

/-! ## Bombs and explosions -/

theorem arm_inside {mapSize : ℕ} {d : Direction} {x y : ℤ} (hcenter : Inside mapSize (x,y)) (i : ℕ)
    (hopen : d.beyond mapSize x y i = false) : Inside mapSize (d.tile x y i) := by
  unfold Inside at hcenter ⊢
  dsimp only at hcenter
  cases d <;> simp only [Direction.beyond,decide_eq_false_iff_not,not_le] at hopen <;> simp only [Direction.tile] <;> omega

theorem spreadArm?_eq {mapSize : ℕ} (d : Direction) {x y : ℤ} (hcenter : Inside mapSize (x,y)) (n i : ℕ)
    {r : World × ExplosionInfo} (hsize : r.1.mapSize = mapSize) : spreadArm? d x y n i r = some (spreadArm d x y n i r) := by
  induction n generalizing i r with
  | zero => rfl
  | succ n ih =>
    obtain ⟨w,e⟩ := r
    dsimp only at hsize
    subst hsize
    rw [spreadArm?,spreadArm]
    dsimp only
    cases hbeyond : d.beyond w.mapSize x y i with
    | true => rfl
    | false =>
      have hin := inside_iff.mpr (arm_inside hcenter i hbeyond)
      rw [if_neg Bool.false_ne_true,checked_of_inside hin,Option.bind_some,Bool.false_or]
      split
      · rfl
      · rw [checked_of_inside hin,Option.bind_some]
        exact ih (i + 1) (by rw [handleSpread_eq]; exact blown_mapSize _ _)

theorem clear?_eq {w : World} {v : Vector2} (h : Inside w.mapSize v.tile) : w.clear? v = some (w.clear v) :=
  checked_of_inside (inside_iff.mpr h) _

theorem triggerExplosion?_eq {w : World} {bomb : BombInfo} (hcenter : Inside w.mapSize bomb.position.tile) :
    triggerExplosion? w bomb = some (triggerExplosion w bomb) := by
  have hsize : ∀ d {r : World × ExplosionInfo}, r.1.mapSize = w.mapSize →
      (spreadArm d (toInt bomb.position.x) (toInt bomb.position.y) bomb.spread.toNat 1 r).1.mapSize = w.mapSize :=
    fun d r hr => by rw [spreadArm_eq]; exact (blown_mapSize _ _).trans hr
  have harm := fun d {r : World × ExplosionInfo} (hr : r.1.mapSize = w.mapSize) =>
    spreadArm?_eq d (x := toInt bomb.position.x) (y := toInt bomb.position.y) hcenter bomb.spread.toNat 1 hr
  unfold triggerExplosion? triggerExplosion
  dsimp only
  rw [harm .up rfl,Option.bind_some,harm .down (hsize .up rfl),Option.bind_some,
    harm .left (hsize .down (hsize .up rfl)),Option.bind_some,harm .right (hsize .left (hsize .down (hsize .up rfl)))]
  rfl

theorem triggerExplosion_keeps (w : World) (bomb : BombInfo) :
    (triggerExplosion w bomb).mapSize = w.mapSize ∧ (triggerExplosion w bomb).bombs = w.bombs := by
  rw [triggerExplosion_eq]
  exact ⟨(burst_burns w bomb).walls.mapSize,(burst_grows w bomb).bombs⟩

theorem tickBombsLoop?_eq [Arithmetic] (deltaTime : ℚ) (n i : ℕ) {w : World} (hbombs : ∀ b ∈ w.bombs.items, Inside w.mapSize b.tile) :
    tickBombsLoop? deltaTime n i w = some (tickBombsLoop deltaTime n i w) := by
  induction n generalizing i w with
  | zero => rfl
  | succ n ih =>
    rw [tickBombsLoop?,tickBombsLoop]
    cases hcell : w.bombs.items[i]? with
    | none => rfl
    | some b =>
      dsimp only
      have hb := hbombs b (List.mem_of_getElem? hcell)
      have hwritten : ∀ b' ∈ (w.bombs.write i (b.burn deltaTime)).items, Inside w.mapSize b'.tile := by
        intro b' hb'
        rcases List.mem_or_eq_of_mem_set hb' with hb' | rfl
        · exact hbombs b' hb'
        · exact hb
      split
      · have hleft : ∀ b' ∈ ((w.bombs.write i (b.burn deltaTime)).overwrite i).items, Inside w.mapSize b'.tile :=
          fun b' hb' => hwritten b' (Queue.overwrite_subset _ i hb')
        have hpointee : Inside w.mapSize
            (((w.bombs.write i (b.burn deltaTime)).overwrite i).items[i]?.getD (b.burn deltaTime)).tile := by
          cases hp : ((w.bombs.write i (b.burn deltaTime)).overwrite i).items[i]? with
          | none => exact hb
          | some b' => exact hleft b' (List.mem_of_getElem? hp)
        refine Option.bind_eq_some_iff.mpr ⟨_,clear?_eq hb,?_⟩
        refine Option.bind_eq_some_iff.mpr ⟨_,triggerExplosion?_eq hpointee,ih i ?_⟩
        rw [(triggerExplosion_keeps _ _).1,(triggerExplosion_keeps _ _).2]
        exact fun b' hb' => hleft b' (Queue.shrink_subset _ hb')
      · exact ih (i + 1) hwritten

theorem tickBombs?_eq [Arithmetic] {w : World} (hbombs : ∀ b ∈ w.bombs.items, Inside w.mapSize b.tile) (deltaTime : ℚ) :
    tickBombs? w deltaTime = some (tickBombs w deltaTime) := by
  unfold tickBombs? tickBombs
  split
  · rfl
  · exact tickBombsLoop?_eq deltaTime _ _ hbombs

/-- A visit to each of the positions. -/
theorem visit_all {step : World → Vector2 → World} (hsize : ∀ w v, (step w v).mapSize = w.mapSize)
    {positions : List Vector2} {w : World} (hin : ∀ v ∈ positions, Inside w.mapSize v.tile) :
    positions.foldlM (fun w v => w.checked v.tile (step w v)) w = some (positions.foldl step w) := by
  refine Checked.foldlM_of_some (I := fun t => t.mapSize = w.mapSize) positions (fun v hv t ht => ⟨?_,?_⟩) rfl
  · refine checked_of_inside (inside_iff.mpr ?_) _
    rw [ht]
    exact hin v hv
  · exact (hsize t v).trans ht

theorem clear_mapSize (w : World) (v : Vector2) : (w.clear v).mapSize = w.mapSize := rfl

theorem extinguish?_eq {w : World} {e : ExplosionInfo} (hin : ∀ c ∈ e.tiles, Inside w.mapSize c) :
    extinguish? w e = some (extinguish w e) := by
  have hspread : ∀ v ∈ e.spreadPositions, Inside w.mapSize v.tile :=
    fun v hv => hin _ (mem_tiles.mpr (Or.inr (List.mem_map_of_mem hv)))
  have hcleared : ∀ v ∈ e.spreadPositions,
      Inside (e.spreadPositions.foldl World.clear (w.clear e.center)).mapSize v.tile := by
    rw [clear_all_mapSize]
    exact hspread
  unfold extinguish?
  rw [clear?_eq (hin _ List.mem_cons_self),Option.bind_some]
  unfold World.clear?
  rw [visit_all clear_mapSize (w := w.clear e.center) hspread,Option.bind_some]
  exact visit_all spawnPending_mapSize hcleared

theorem tickExplosionsLoop?_eq [Arithmetic] (deltaTime : ℚ) (n i : ℕ) {w : World}
    (hfires : ∀ e ∈ w.explodes.items, ∀ c ∈ e.tiles, Inside w.mapSize c) :
    tickExplosionsLoop? deltaTime n i w = some (tickExplosionsLoop deltaTime n i w) := by
  induction n generalizing i w with
  | zero => rfl
  | succ n ih =>
    rw [tickExplosionsLoop?,tickExplosionsLoop]
    cases hcell : w.explodes.items[i]? with
    | none => rfl
    | some e =>
      dsimp only
      have he := hfires e (List.mem_of_getElem? hcell)
      have hwritten : ∀ e' ∈ (w.explodes.write i { e with timer := fl (e.timer - deltaTime) }).items,
          ∀ c ∈ e'.tiles, Inside w.mapSize c := by
        intro e' he'
        rcases List.mem_or_eq_of_mem_set he' with he' | rfl
        · exact hfires e' he'
        · exact he
      split
      · refine Option.bind_eq_some_iff.mpr ⟨_,extinguish?_eq he,ih i ?_⟩
        dsimp only
        rw [extinguish_explodes,extinguish_mapSize]
        exact fun e' he' => hwritten e' (Queue.overwrite_subset _ i (Queue.shrink_subset _ he'))
      · exact ih (i + 1) hwritten

theorem tickExplosions?_eq [Arithmetic] {w : World} (hfires : ∀ e ∈ w.explodes.items, ∀ c ∈ e.tiles, Inside w.mapSize c)
    (deltaTime : ℚ) : tickExplosions? w deltaTime = some (tickExplosions w deltaTime) := by
  unfold tickExplosions? tickExplosions
  split
  · rfl
  · exact tickExplosionsLoop?_eq deltaTime _ _ hfires

/-! ## Pickups and deaths -/

theorem pickUp?_eq (r : Pickup) (tile : ℤ × ℤ) : pickUp? r tile = some (pickUp r tile) := by
  unfold pickUp?
  split
  · next hout =>
    unfold pickUp
    rw [if_pos hout]
  · next hin =>
    rw [Bool.not_eq_true,Bool.not_eq_false'] at hin
    exact checked_of_inside hin _

theorem pickUps?_eq (tiles : List (ℤ × ℤ)) (r : Pickup) : tiles.foldlM pickUp? r = some (tiles.foldl pickUp r) :=
  Checked.foldlM_of_some (I := fun _ => True) tiles (fun c _ r _ => ⟨pickUp?_eq r c,trivial⟩) trivial

theorem burning?_eq [Arithmetic] (w : World) (p : BombPlayer) : p.burning? w = some (p.burning w) := by
  unfold BombPlayer.burning? BombPlayer.burning
  split
  · next hplays =>
    rw [hplays,Bool.true_and]
    refine Checked.anyM_of_some _ fun c _ => ?_
    split
    · next hin => rw [checked_of_inside hin,hin,Bool.true_and]
    · next hout => rw [Bool.eq_false_iff.mpr hout,Bool.false_and]
  · next hplays => rw [Bool.eq_false_iff.mpr hplays,Bool.false_and]

theorem kill?_eq [Arithmetic] (s : Bombd) : killPlayersInExplosions? s = some (killPlayersInExplosions s) := by
  unfold killPlayersInExplosions?
  rw [Checked.mapM_of_some s.session.players fun p _ => burning?_eq s.world p]
  rfl

/-! ## Hitboxes -/

/-- No overlapped tile is outside or solid. -/
def Vacant [Arithmetic] (w : World) (x y : ℚ) : Prop :=
  ∀ c ∈ (getAllOverlappingTiles x y simPlayerBoxSize).tiles, w.inside c.1 c.2 = true ∧ tileIsSolid w c.1 c.2 = false

structure BoundBox.Housed [Arithmetic] (w : World) (box : BoundBox) : Prop where
  size : box.size = simPlayerBoxSize
  vacant : Vacant w box.position.x box.position.y

/-- Every player is on free tiles, and bombs and fire lie inside. -/
structure Bombd.Sheltered [Arithmetic] (base : World) (s : Bombd) : Prop where
  sound : Sound s.world
  waiting : Waiting s.world
  head : s.world.bombs.head = 0
  confined : Confined base (fun c => Inside base.mapSize c ∧ base.at c ≠ .wall) s.world
  housed : ∀ p ∈ s.session.players, p.box.Housed s.world

attribute [local instance] Arithmetic.exact

theorem fl_exact (q : ℚ) : fl q = q := rfl

theorem mem_range_tiles {r : TileRange} {c : ℤ × ℤ} :
    c ∈ r.tiles ↔ r.top ≤ c.2 ∧ c.2 < r.bottom ∧ r.left ≤ c.1 ∧ c.1 < r.right := by
  rw [TileRange.tiles,List.mem_flatMap]
  simp only [List.mem_map,mem_intRange]
  constructor
  · rintro ⟨ty,⟨htop,hbottom⟩,tx,⟨hleft,hright⟩,rfl⟩
    exact ⟨htop,hbottom,hleft,hright⟩
  · rintro ⟨htop,hbottom,hleft,hright⟩
    exact ⟨c.2,⟨htop,hbottom⟩,c.1,⟨hleft,hright⟩,rfl⟩

/-- A hitbox covers a column, and likewise a row. -/
theorem floor_lt_ceil (x : ℚ) {size : ℚ} (h : 0 < size - 1 / 1000) : ⌊x⌋ < ⌈x + size - 1 / 1000⌉ := by
  rw [Int.lt_ceil]
  have hfloor := Int.floor_le x
  linarith

theorem width_pos : 0 < simPlayerBoxSize.x - 1 / 1000 := by norm_num [simPlayerBoxSize,fl_exact]

theorem height_pos : 0 < simPlayerBoxSize.y - 1 / 1000 := by norm_num [simPlayerBoxSize,fl_exact]

theorem Vacant.inner {w : World} (hw : Walled w) {x y : ℚ} (h : Vacant w x y) :
    1 ≤ ⌊x⌋ ∧ ⌈x + simPlayerBoxSize.x - 1 / 1000⌉ ≤ w.mapSize - 1 ∧
    1 ≤ ⌊y⌋ ∧ ⌈y + simPlayerBoxSize.y - 1 / 1000⌉ ≤ w.mapSize - 1 := by
  have hx := floor_lt_ceil x width_pos
  have hy := floor_lt_ceil y height_pos
  have hfree : ∀ c ∈ (getAllOverlappingTiles x y simPlayerBoxSize).tiles, Inside w.mapSize c ∧ ¬Border w.mapSize c := by
    intro c hc
    obtain ⟨hin,hopen⟩ := h c hc
    refine ⟨inside_iff.mp hin,fun hborder => ?_⟩
    have hwall : w.map c.1 c.2 = .wall := hw c hborder
    rw [tileIsSolid,hwall] at hopen
    cases hopen
  -- the first and the last tile of the hitbox
  obtain ⟨hin,hfirst⟩ := hfree (⌊x⌋,⌊y⌋) (mem_range_tiles.mpr ⟨le_refl _,hy,le_refl _,hx⟩)
  obtain ⟨hin',hlast⟩ := hfree (⌈x + simPlayerBoxSize.x - 1 / 1000⌉ - 1,⌈y + simPlayerBoxSize.y - 1 / 1000⌉ - 1)
    (mem_range_tiles.mpr ⟨Int.le_sub_one_of_lt hy,sub_one_lt _,Int.le_sub_one_of_lt hx,sub_one_lt _⟩)
  unfold Inside at hin hin'
  unfold Border at hfirst hlast
  dsimp only at hin hin' hfirst hlast
  omega

theorem floor_near {z z' : ℚ} (h : -1 < z' - z) : ⌊z⌋ - 1 ≤ ⌊z'⌋ := by
  rw [← Int.floor_sub_one]
  exact Int.floor_le_floor (by linarith)

theorem ceil_near {z z' : ℚ} (size : ℚ) (h : z' - z < 1) : ⌈z' + size - 1 / 1000⌉ ≤ ⌈z + size - 1 / 1000⌉ + 1 := by
  rw [← Int.ceil_add_one]
  exact Int.ceil_le_ceil (by linarith)

theorem Vacant.near {w : World} (hw : Walled w) {x y x' y' : ℚ} (h : Vacant w x y) (hx : -1 < x' - x ∧ x' - x < 1)
    (hy : -1 < y' - y ∧ y' - y < 1) {c : ℤ × ℤ} (hc : c ∈ (getAllOverlappingTiles x' y' simPlayerBoxSize).tiles) :
    w.inside c.1 c.2 = true := by
  obtain ⟨hleft,hright,htop,hbottom⟩ := h.inner hw
  obtain ⟨hc1,hc2,hc3,hc4⟩ := mem_range_tiles.mp hc
  have h1 := (floor_near hy.1).trans hc1
  have h2 := hc2.trans_le (ceil_near _ hy.2)
  have h3 := (floor_near hx.1).trans hc3
  have h4 := hc4.trans_le (ceil_near _ hx.2)
  rw [inside_iff]
  exact ⟨by omega,by omega,by omega,by omega⟩

/-- The collision check less than a tile away. -/
theorem BoundBox.Housed.slide {w : World} (hw : Walled w) {box : BoundBox} (h : box.Housed w) {x y : ℚ}
    (hx : -1 < x - box.position.x ∧ x - box.position.x < 1) (hy : -1 < y - box.position.y ∧ y - box.position.y < 1) :
    aabbCollided? w x y box.size = some (aabbCollided w x y box.size) ∧
    (aabbCollided w x y box.size = false → BoundBox.Housed w ⟨⟨x,y⟩,box.size⟩) := by
  have hin : ∀ c ∈ (getAllOverlappingTiles x y simPlayerBoxSize).tiles, w.inside c.1 c.2 = true :=
    fun _ hc => h.vacant.near hw hx hy hc
  rw [h.size]
  constructor
  · exact Checked.anyM_of_some _ fun c hc => checked_of_inside (hin c hc) _
  · intro hfree
    rw [aabbCollided,List.any_eq_false] at hfree
    have hvacant : Vacant w x y := fun c hc => ⟨hin c hc,Bool.eq_false_iff.mpr (hfree c hc)⟩
    exact ⟨rfl,hvacant⟩

/-- Where a box is moved to, not far from where it is. -/
theorem add_near (a : Vector2) {b : Vector2} (hx : -1 < b.x ∧ b.x < 1) (hy : -1 < b.y ∧ b.y < 1) :
    (-1 < (a.add b).x - a.x ∧ (a.add b).x - a.x < 1) ∧ -1 < (a.add b).y - a.y ∧ (a.add b).y - a.y < 1 := by
  simp only [Vector2.add,fl_exact,add_sub_cancel_left]
  exact ⟨hx,hy⟩

theorem moveBox_housed {w : World} (hw : Walled w) {box : BoundBox} (h : box.Housed w) {moveAmt : Vector2}
    (hx : -1 < moveAmt.x ∧ moveAmt.x < 1) (hy : -1 < moveAmt.y ∧ moveAmt.y < 1) :
    moveBox? w box moveAmt = some (moveBox w box moveAmt) ∧ (moveBox w box moveAmt).Housed w := by
  have hzero : ∀ z : ℚ, -1 < z - z ∧ z - z < 1 := by
    intro z
    rw [sub_self]
    norm_num
  obtain ⟨hnearX,hnearY⟩ := add_near box.position hx hy
  unfold moveBox moveBox?
  generalize box.position.add moveAmt = newPos at hnearX hnearY ⊢
  obtain ⟨hcolumns,hfreeX⟩ := h.slide hw hnearX (hzero box.position.y)
  dsimp only
  rw [hcolumns,Option.bind_some]
  generalize hbox : (if aabbCollided w newPos.x box.position.y box.size = true then box
    else { box with position := { box.position with x := newPos.x } }) = slid
  -- the rows are looked at from where the columns have left the box
  have hslid : slid.Housed w ∧ slid.position.y = box.position.y := by
    subst hbox
    split
    · exact ⟨h,rfl⟩
    · next hfree => exact ⟨hfreeX (Bool.eq_false_iff.mpr hfree),rfl⟩
  rw [← hslid.2] at hnearY
  obtain ⟨hrows,hfreeY⟩ := hslid.1.slide hw (hzero slid.position.x) hnearY
  rw [hrows,Option.map_some]
  refine ⟨rfl,?_⟩
  split
  · exact hslid.1
  · next hfree => exact hfreeY (Bool.eq_false_iff.mpr hfree)

theorem Walled.keeps {w t : World} (h : Walled w) (hwalls : SameWalls w t) : Walled t := by
  intro c hc
  rw [hwalls.mapSize] at hc
  exact (hwalls.walls c).mpr (h c hc)

theorem Clears.housed {w t : World} (h : Clears w t) {box : BoundBox} (hbox : box.Housed w) : box.Housed t := by
  refine ⟨hbox.size,fun c hc => ?_⟩
  obtain ⟨hin,hopen⟩ := hbox.vacant c hc
  constructor
  · rw [inside_iff] at hin ⊢
    rwa [h.mapSize]
  · refine Bool.eq_false_iff.mpr fun hsolid => ?_
    rw [h.solid c hsolid] at hopen
    cases hopen

/-! ## The players' moves -/

theorem steer?_eq {normalize : Vector2 → Vector2} {deltaTime : ℚ} {w : World} (hw : Walled w) {p : BombPlayer}
    (hp : p.box.Housed w) (hplays : p.active = true ∧ p.alive = true) (hslow : p.slow normalize deltaTime = true) :
    (if decide (p.moveDx ≠ 0 ∨ p.moveDy ≠ 0) = true then steer? normalize deltaTime w p else some p) =
      some (if decide (p.moveDx ≠ 0 ∨ p.moveDy ≠ 0) = true then steer normalize deltaTime w p else p) ∧
    (if decide (p.moveDx ≠ 0 ∨ p.moveDy ≠ 0) = true then steer normalize deltaTime w p else p).box.Housed w := by
  split
  · next hmoving =>
    have hd := of_decide_eq_true hslow ⟨hplays.1,hplays.2,of_decide_eq_true hmoving⟩
    obtain ⟨hmove,hhoused⟩ := moveBox_housed hw hp ⟨hd.1,hd.2.1⟩ hd.2.2
    refine ⟨?_,hhoused⟩
    exact congrArg (Option.map fun box => { p with box := box, direction := facing p }) hmove
  · exact ⟨rfl,hp⟩

theorem advance?_eq {normalize : Vector2 → Vector2} {deltaTime : ℚ} {w : World} (hw : Walled w) {p : BombPlayer}
    (hp : p.box.Housed w) (hslow : p.slow normalize deltaTime = true) :
    advance? normalize deltaTime w p = some (advance normalize deltaTime w p) ∧
    (advance normalize deltaTime w p).2.1.box.Housed w := by
  unfold advance advance?
  split
  · exact ⟨rfl,hp⟩
  · next hplays =>
    rw [Bool.or_eq_true,not_or,Bool.not_eq_true,Bool.not_eq_true,Bool.not_eq_false',Bool.not_eq_false'] at hplays
    obtain ⟨hsteer,hhoused⟩ := steer?_eq hw hp hplays hslow
    dsimp only
    rw [hsteer]
    dsimp only [Option.bind_some]
    rw [pickUps?_eq]
    exact ⟨rfl,hhoused⟩

theorem advanceAll?_eq {normalize : Vector2 → Vector2} {deltaTime : ℚ} {players : List BombPlayer} {w : World}
    (hw : Walled w) (hplayers : ∀ p ∈ players, p.box.Housed w) (hslow : ∀ p ∈ players, p.slow normalize deltaTime = true) :
    advanceAll? normalize deltaTime w players = some (advanceAll normalize deltaTime w players) ∧
    ∀ p ∈ (advanceAll normalize deltaTime w players).2.1, p.box.Housed (advanceAll normalize deltaTime w players).1 := by
  induction players generalizing w with
  | nil => exact ⟨rfl,fun p hp => absurd hp List.not_mem_nil⟩
  | cons p players ih =>
    obtain ⟨hp,hrest⟩ := List.forall_mem_cons.mp hplayers
    obtain ⟨hpslow,hrestslow⟩ := List.forall_mem_cons.mp hslow
    obtain ⟨hfirst,hbox⟩ := advance?_eq hw hp hpslow
    have hclears := advance_clears normalize deltaTime w p
    have hwalled := hw.keeps (advance_trodden normalize deltaTime w p).walls
    obtain ⟨hlater,hboxes⟩ := ih hwalled (fun q hq => hclears.housed (hrest q hq)) hrestslow
    have hlast := advanceAll_clears normalize deltaTime (advance normalize deltaTime w p).1 players
    constructor
    · rw [advanceAll?,hfirst,Option.bind_some,hlater]
      rfl
    · exact List.forall_mem_cons.mpr ⟨hlast.housed (hclears.housed hbox),hboxes⟩

theorem movement?_eq {normalize : Vector2 → Vector2} {deltaTime : ℚ} {s : Bombd} (hw : Walled s.world)
    (hplayers : ∀ p ∈ s.session.players, p.box.Housed s.world)
    (hslow : ∀ p ∈ s.session.players, p.slow normalize deltaTime = true) :
    applyMovementAndPickups? normalize deltaTime s = some (applyMovementAndPickups normalize deltaTime s) ∧
    ∀ p ∈ (applyMovementAndPickups normalize deltaTime s).session.players,
      p.box.Housed (applyMovementAndPickups normalize deltaTime s).world := by
  obtain ⟨hmoves,hboxes⟩ := advanceAll?_eq hw hplayers hslow
  refine ⟨?_,hboxes⟩
  unfold applyMovementAndPickups?
  rw [hmoves]
  rfl

/-! ## Every reachable session -/

theorem floor_inside (base : World) : Floor base fun c => Inside base.mapSize c ∧ base.at c ≠ .wall := by
  constructor
  · exact fun c hc => hc.2
  · intro blast hcenter c hc
    obtain ⟨d,k,-,rfl,hopen,hfree⟩ := mem_crossTiles hc
    exact ⟨arm_inside hcenter.1 k hopen,hfree⟩

theorem overlapped_free {w : World} {p : BombPlayer} (h : p.box.Housed w) :
    ∀ c ∈ p.overlapped, w.inside c.1 c.2 = true ∧ tileIsSolid w c.1 c.2 = false := by
  unfold BombPlayer.overlapped
  rw [h.size]
  exact h.vacant

/-- A player stands on the tile of the bombs it puts down. -/
theorem center_overlapped {p : BombPlayer} (h : p.box.size = simPlayerBoxSize) :
    (getCenterBox p.box).tile ∈ p.overlapped := by
  have hx := Int.floor_le (p.box.position.x + 21 / 50 * (1 / 2))
  have hy := Int.floor_le (p.box.position.y + 17 / 20 * (1 / 2))
  unfold BombPlayer.overlapped getCenterBox Vector2.tile
  rw [h,mem_range_tiles]
  simp only [getAllOverlappingTiles,simPlayerBoxSize,fl_exact]
  rw [toInt_intCast,toInt_intCast]
  refine ⟨Int.floor_le_floor ?_,Int.lt_ceil.mpr ?_,Int.floor_le_floor ?_,Int.lt_ceil.mpr ?_⟩ <;> linarith

theorem Confined.bombs_inside {base w : World} (h : Confined base (fun c => Inside base.mapSize c ∧ base.at c ≠ .wall) w)
    (hhead : w.bombs.head = 0) : ∀ b ∈ w.bombs.items, Inside w.mapSize b.tile := by
  rw [← Queue.queued_of_head hhead,h.walls.mapSize]
  exact fun b hb => (h.bombs b hb).1

theorem Confined.fires_inside {base w : World} (h : Confined base (fun c => Inside base.mapSize c ∧ base.at c ≠ .wall) w)
    (hhead : w.explodes.head = 0) : ∀ e ∈ w.explodes.items, ∀ c ∈ e.tiles, Inside w.mapSize c := by
  rw [← Queue.queued_of_head hhead,h.walls.mapSize]
  exact fun e he c hc => (h.fires e he c hc).1

section Sheltered
variable {base : World} {s : Bombd}

theorem tickSession?_eq {normalize : Vector2 → Vector2} {deltaTime : ℚ} (hbase : Walled base) (h : s.Sheltered base)
    (hslow : ∀ p ∈ s.session.players, p.slow normalize deltaTime = true) :
    tickSession? normalize s deltaTime = some (tickSession normalize s deltaTime) ∧
    ∀ p ∈ (tickSession normalize s deltaTime).1.session.players, p.box.Housed (tickSession normalize s deltaTime).1.world := by
  obtain ⟨hmoves,hboxes⟩ := movement?_eq (hbase.keeps h.confined.walls) h.housed hslow
  have hmoved := movement_confined h.confined normalize deltaTime
  have hmovedSound := (movement_moves normalize deltaTime h.sound).sound
  have hmovedHead : (applyMovementAndPickups normalize deltaTime s).world.bombs.head = 0 := by
    rw [(movement_moves normalize deltaTime h.sound).queues.1]
    exact h.head
  have hticked := tickBombs_confined hmoved (floor_inside base) deltaTime
  have htickedHead := (tickBombs_blazes hmovedSound deltaTime).sound.head
  have hmovedWaiting := movement_waiting h.waiting normalize deltaTime
  constructor
  · unfold tickSession?
    rw [hmoves,Option.bind_some]
    dsimp only
    rw [tickBombs?_eq (hmoved.bombs_inside hmovedHead) deltaTime,Option.bind_some,
      tickExplosions?_eq (hticked.fires_inside htickedHead) deltaTime,Option.bind_some,kill?_eq]
    rfl
  · have hclears := (tickBombs_clears hmovedSound deltaTime).trans
      (tickExplosions_clears (tickBombs_waiting hmovedSound hmovedWaiting deltaTime) deltaTime)
    intro p hp
    obtain ⟨q,hq,rfl⟩ := List.mem_map.mp hp
    split
    · exact hclears.housed (hboxes q hq)
    · exact hclears.housed (hboxes q hq)

theorem Bombd.Sheltered.steered (h : s.Sheltered base) {playerId i : ℕ} {p : BombPlayer}
    (hp : s.session.steered playerId = some (i,p)) : p.box.Housed s.world :=
  h.housed p (List.mem_of_getElem? (steered_some hp).1)

theorem setPlayer_housed {w : World} {session : BombSession} (h : ∀ p ∈ session.players, p.box.Housed w) (i : ℕ)
    {q : BombPlayer} (hq : q.box.Housed w) : ∀ p ∈ (session.setPlayer i q).players, p.box.Housed w := by
  intro p hp
  rcases List.mem_or_eq_of_mem_set hp with hp | rfl
  · exact h p hp
  · exact hq

theorem placeBomb_head (w : World) (pos : Vector2) (stock : InventoryStock) :
    (placeBomb w pos stock).1.bombs.head = w.bombs.head := by
  by_cases hcan : CanPlace w pos stock
  · rw [(placeBomb_placed hcan).1,Queue.enqueue_head]
  · rw [placeBomb_refused hcan]

/-- The checked code takes the same step. -/
theorem step?_eq {normalize : Vector2 → Vector2} (hbase : Walled base) (h : s.Sheltered base) {input : BombInput}
    (hslow : s.slow normalize input = true) : s.step? normalize input = s.step normalize input := by
  cases input with
  | move playerId dx dy sprinting => rfl
  | place playerId =>
    unfold Bombd.step? Bombd.step applyBombPlace? applyBombPlace
    dsimp only
    cases hp : s.session.steered playerId with
    | none => rfl
    | some found =>
      obtain ⟨i,p⟩ := found
      have hhoused := h.steered hp
      have hin := (overlapped_free hhoused _ (center_overlapped hhoused.size)).1
      dsimp only
      rw [placeBomb?,checked_of_inside hin]
      rfl
  | disconnect playerId => rfl
  | tick deltaTime =>
    have hplayers := List.all_eq_true.mp hslow
    unfold Bombd.step? Bombd.step
    dsimp only
    rw [(tickSession?_eq hbase h hplayers).1]
    rfl

theorem step_sheltered {normalize : Vector2 → Vector2} (hbase : Walled base) (h : s.Sheltered base) {input : BombInput}
    (hslow : s.slow normalize input = true) {t : Bombd} (ht : s.step normalize input = some t) : t.Sheltered base := by
  obtain ⟨hsound,hwaiting⟩ := step_waiting s input t ⟨h.sound,h.waiting⟩ ht
  cases input with
  | move playerId dx dy sprinting =>
    cases ht
    unfold applyMove
    split
    · next i p hp =>
      have hbox := h.steered hp
      exact { h with housed := setPlayer_housed h.housed i hbox }
    · exact h
  | place playerId =>
    cases ht
    unfold applyBombPlace at hsound hwaiting ⊢
    cases hp : s.session.steered playerId with
    | none => exact h
    | some found =>
      obtain ⟨i,p⟩ := found
      rw [hp] at hsound hwaiting
      have hhoused := h.steered hp
      have hin := (overlapped_free hhoused _ (center_overlapped hhoused.size)).1
      have hclears := placeBomb_clears s.world (getCenterBox p.box) p.inventory
      refine ⟨hsound,hwaiting,(placeBomb_head _ _ _).trans h.head,?_,?_⟩
      · refine placeBomb_confined h.confined (floor_inside base) _ _ fun hfloor => ⟨?_,?_⟩
        · rw [← h.confined.walls.mapSize]
          exact inside_iff.mp hin
        · exact fun hwall => hfloor ((h.confined.walls.walls _).mpr hwall)
      · exact setPlayer_housed (fun q hq => hclears.housed (h.housed q hq)) i (hclears.housed hhoused)
  | disconnect playerId =>
    cases ht
    unfold applyDisconnect
    split
    · next i p hp =>
      have hbox := h.steered hp
      exact { h with housed := setPlayer_housed h.housed i hbox }
    · exact h
  | tick deltaTime =>
    have hplayers := List.all_eq_true.mp hslow
    obtain ⟨-,rfl⟩ := step_tick ht
    refine ⟨hsound,hwaiting,(tickSession_head normalize s deltaTime).trans h.head,?_,?_⟩
    · exact tickSession_confined h.confined (floor_inside base) normalize deltaTime
    · exact (tickSession?_eq hbase h hplayers).2

end Sheltered

theorem initSession_walled (draws : ℕ → ℕ) (clientIds : List ℕ) : Walled (initSession draws clientIds).world :=
  fun _ hc => initSession_border draws clientIds hc

theorem seat_tiles (c : ℤ × ℤ) : ∀ c' ∈ (getAllOverlappingTiles ((c.1 : ℚ) + simPlayerBoxOffset.x)
    ((c.2 : ℚ) + simPlayerBoxOffset.y) simPlayerBoxSize).tiles, c' = c := by
  intro c' hc'
  have hrange := mem_range_tiles.mp hc'
  simp only [getAllOverlappingTiles,simPlayerBoxOffset,simPlayerBoxSize,fl_exact] at hrange
  obtain ⟨htop,hbottom,hleft,hright⟩ := hrange
  rw [Int.floor_le_iff] at htop hleft
  rw [Int.lt_ceil] at hbottom hright
  have hx : (c.1 : ℚ) < c'.1 + 1 ∧ (c'.1 : ℚ) < c.1 + 1 := ⟨by linarith,by linarith⟩
  have hy : (c.2 : ℚ) < c'.2 + 1 ∧ (c'.2 : ℚ) < c.2 + 1 := ⟨by linarith,by linarith⟩
  norm_cast at hx hy
  exact Prod.ext (by omega) (by omega)

theorem initSession_sheltered (draws : ℕ → ℕ) (clientIds : List ℕ) :
    (initSession draws clientIds).Sheltered (initSession draws clientIds).world where
  sound := initSession_sound draws clientIds
  waiting := initSession_waiting draws clientIds
  head := by
    rw [(initSession_queues draws clientIds).1]
    rfl
  confined := initSession_confined draws clientIds _
  housed p hp := by
    obtain ⟨c,hbox,hin,hopen⟩ := initSession_seats draws clientIds hp
    rw [hbox]
    refine ⟨rfl,fun c' hc' => ?_⟩
    rw [seat_tiles c c' hc']
    exact ⟨hin,hopen⟩

theorem run_sheltered {normalize : Vector2 → Vector2} {draws : ℕ → ℕ} {clientIds : List ℕ} {inputs : List BombInput}
    {s : Bombd} (hrun : Execution.run (Execution.guarded (Bombd.slow normalize) (Bombd.step normalize))
      (initSession draws clientIds) inputs = some s) : s.Sheltered (initSession draws clientIds).world := by
  refine Execution.run_invariant (I := fun s : Bombd => s.Sheltered (initSession draws clientIds).world) ?_ hrun
    (initSession_sheltered draws clientIds)
  intro s input t hs ht
  obtain ⟨hslow,ht⟩ := Execution.guarded_eq_some.mp ht
  exact step_sheltered (initSession_walled draws clientIds) hs hslow ht

/-- In every session whose ticks move nobody by a tile or more, the walls are those of the
generated map and line its border, no player in the match overlaps a wall or a breakable
tile, and no further such step indexes the map outside. -/
theorem arena_safe {normalize : Vector2 → Vector2} {draws : ℕ → ℕ} {clientIds : List ℕ} {inputs : List BombInput}
    {s : Bombd} (hrun : Execution.run (Execution.guarded (Bombd.slow normalize) (Bombd.step normalize))
      (initSession draws clientIds) inputs = some s) :
    SameWalls (initSession draws clientIds).world s.world ∧
    (∀ c, Border s.world.mapSize c → s.world.at c = .wall) ∧
    (∀ p ∈ s.session.players, p.active = true → ∀ c ∈ p.overlapped, s.world.at c ≠ .wall ∧ s.world.at c ≠ .breakable) ∧
    ∀ input, s.slow normalize input = true → s.step? normalize input = s.step normalize input := by
  have hs := run_sheltered hrun
  have hbase := initSession_walled draws clientIds
  refine ⟨hs.confined.walls,hbase.keeps hs.confined.walls,fun p hp _ c hc => ?_,fun input hslow => step?_eq hbase hs hslow⟩
  have hopen := (overlapped_free (hs.housed p hp) c hc).2
  rw [← not_or,← solid_iff,hopen]
  exact Bool.false_ne_true

def shortWalk : List BombInput :=
  [.place 1,.move 1 1 0 false,.tick tickSeconds,.tick tickSeconds,.move 1 0 0 false,.tick 1]

theorem arena_safe_shortWalk : ∃ s, Execution.run (Execution.guarded (Bombd.slow id) (Bombd.step id))
      (initSession (fun _ => 0) [1]) shortWalk = some s ∧
    (∀ p ∈ s.session.players, p.active = true → ∀ c ∈ p.overlapped, s.world.at c ≠ .wall ∧ s.world.at c ≠ .breakable) ∧
    ∀ input, s.slow id input = true → s.step? id input = s.step id input := by
  obtain ⟨s,hs,-⟩ := Execution.exists_of_run_any (Execution.guarded (Bombd.slow id) (Bombd.step id))
    (initSession (fun _ => 0) [1]) shortWalk (fun _ => true) (by decide +kernel)
  exact ⟨s,hs,(arena_safe hs).2.2⟩

end CoreStack.Bomberman
