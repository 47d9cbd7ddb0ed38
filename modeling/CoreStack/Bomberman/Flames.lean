import CoreStack.Bomberman.Cross
import CoreStack.Lib.Latest

/-! # What burns after a tick

`tick_bombs` takes bombs out one after the other: each removal empties the tile of the
bomb that ran out and sets the arms of the bomb that explodes on fire. `tick_explosions`
empties the tiles of the explosions that go out.
-/
namespace CoreStack.Bomberman
open Utils Marking

/-! ## The explosions of a tick -/

/-- The loop of `tick_bombs` once more: the explosions it triggers, with or without room
for them in the queue. -/
def triggeredLoop [Arithmetic] (deltaTime : ℚ) : ℕ → ℕ → World → List ExplosionInfo
  | 0, _, _ => []
  | n + 1, i, w =>
    match w.bombs.items[i]? with
    | none => []
    | some b =>
      let bomb := b.burn deltaTime
      let w := { w with bombs := w.bombs.write i bomb }
      if bomb.timer ≤ 0 then
        let w := w.clear bomb.position
        let bombs := w.bombs.overwrite i
        let pointee := bombs.items[i]?.getD bomb
        let w := { w with bombs := bombs.shrink }
        (burst w pointee).2 :: triggeredLoop deltaTime n i (triggerExplosion w pointee)
      else triggeredLoop deltaTime n (i + 1) w

def triggered [Arithmetic] (w : World) (deltaTime : ℚ) : List ExplosionInfo :=
  triggeredLoop deltaTime (w.bombs.rear - w.bombs.head) w.bombs.head w

/-- The bomb that explodes for one taken out of the queue, and the cells from there on. -/
def takeOut [Arithmetic] (deltaTime : ℚ) (b : BombInfo) (rest : List BombInfo) : BombInfo × List BombInfo :=
  match rest.getLast? with
  | none => (b.burn deltaTime,[])
  | some last => (last,last :: rest.dropLast)

/-- The bombs taken out, each with the one that explodes for it, for the `n` bombs from the cell on. -/
def removals [Arithmetic] (deltaTime : ℚ) : ℕ → List BombInfo → List (BombInfo × BombInfo)
  | 0, _ => []
  | _ + 1, [] => []
  | n + 1, b :: rest =>
    if b.expires deltaTime then
      (b,(takeOut deltaTime b rest).1) :: removals deltaTime n (takeOut deltaTime b rest).2
    else removals deltaTime n rest

def putsOut (r : BombInfo × BombInfo) (c : ℤ × ℤ) : Prop := r.1.position.tile = c

def setsOnFire (w : World) (r : BombInfo × BombInfo) (c : ℤ × ℤ) : Prop := c ∈ crossTiles w r.2.blast

/-- The tile burns when the bombs have been ticked: an arm reaches it, or it burned
before, and no bomb taken out after that stands on it. -/
def StaysLit [Arithmetic] (w : World) (deltaTime : ℚ) (c : ℤ × ℤ) : Prop :=
  Remains putsOut (setsOnFire w) w.burning (removals deltaTime w.bombs.queued.length w.bombs.queued) c

theorem takeOut_length [Arithmetic] (deltaTime : ℚ) (b : BombInfo) (rest : List BombInfo) :
    (takeOut deltaTime b rest).2.length = rest.length := by
  rcases List.eq_nil_or_concat rest with rfl | ⟨mid,last,rfl⟩
  · rfl
  · simp [takeOut]

theorem takeOut_subset [Arithmetic] (deltaTime : ℚ) (b : BombInfo) (rest : List BombInfo) : (takeOut deltaTime b rest).2 ⊆ rest := by
  rcases List.eq_nil_or_concat rest with rfl | ⟨mid,last,rfl⟩
  · exact List.Subset.refl _
  · simp [takeOut]

/-! ## What holds of every world -/

/-- Bombs stand on the floor, and no explosion has more than its lifetime left. -/
structure Sound (w : World) : Prop where
  floor : ∀ b ∈ w.bombs.items, w.map b.position.tile.1 b.position.tile.2 ≠ .wall
  hidden : Hidden w
  head : w.explodes.head = 0
  timers : ∀ e ∈ w.explodes.items, e.timer ≤ explodeLifetime

def NoNewWalls (w t : World) : Prop := ∀ c : ℤ × ℤ, t.map c.1 c.2 = .wall → w.map c.1 c.2 = .wall

theorem Sound.change {w t : World} (h : Sound w) (hwalls : NoNewWalls w t) (hbombs : t.bombs = w.bombs)
    (hhidden : Hidden t) (hexplodes : t.explodes = w.explodes) : Sound t where
  floor b hb hwall := h.floor b (hbombs ▸ hb) (hwalls _ hwall)
  hidden := hhidden
  head := by rw [hexplodes,h.head]
  timers := by rw [hexplodes]; exact h.timers

theorem Sound.reseat {w : World} (h : Sound w) {bombs : BombsQueue}
    (hsub : ∀ b ∈ bombs.items, ∃ b' ∈ w.bombs.items, b'.position = b.position) : Sound { w with bombs := bombs } where
  floor b hb := by
    obtain ⟨b',hb',hpos⟩ := hsub b hb
    rw [← hpos]
    exact h.floor b' hb'
  hidden := h.hidden
  head := h.head
  timers := h.timers

theorem setTile_noNewWalls (w : World) (x y : ℤ) {tile : Tile} (h : tile ≠ .wall) : NoNewWalls w (w.setTile x y tile) := by
  intro c hc
  rw [setTile_map] at hc
  split at hc
  · exact absurd hc h
  · exact hc

theorem clear_sound {w : World} (h : Sound w) (v : Vector2) : Sound (w.clear v) :=
  h.change (setTile_noNewWalls w _ _ (by decide)) rfl h.hidden rfl

theorem randomisePowerup_hidden {w : World} (h : Hidden w) (x y : ℤ) : Hidden (randomisePowerup w x y) := by
  unfold randomisePowerup
  dsimp only [World.rand]
  split
  · exact h
  · intro i j
    dsimp only [Grid.set]
    split
    · split
      · decide
      · decide
    · exact h i j

theorem burst_hidden {w : World} (h : Hidden w) (bomb : BombInfo) : Hidden (burst w bomb).1 := by
  rw [burst_eq]
  exact uncover_all_induction (I := Hidden) (fun t x y ht => randomisePowerup_hidden ht x y)
    (w.breakables (crossTiles w bomb.blast)) h

theorem burst_sound {w : World} (h : Sound w) (bomb : BombInfo) : Sound (burst w bomb).1 := by
  have hgrows := burst_grows w bomb
  exact h.change (fun c hc => ((burst_burns w bomb).walls.walls c).mp hc) hgrows.bombs (burst_hidden h.hidden bomb)
    hgrows.explodes

theorem triggerExplosion_sound {w : World} (h : Sound w) (bomb : BombInfo) : Sound (triggerExplosion w bomb) := by
  have hburst := burst_sound h bomb
  rw [triggerExplosion_eq]
  refine ⟨hburst.floor,hburst.hidden,(Queue.enqueue_head _ _).trans hburst.head,fun e he => ?_⟩
  dsimp only at he
  rcases Queue.enqueue_cases (burst w bomb).1.explodes (burst w bomb).2 with hitems | ⟨hitems,-⟩
  · rw [hitems,List.mem_append,List.mem_singleton] at he
    rcases he with he | rfl
    · exact hburst.timers e he
    · exact le_of_eq (burst_tiles w bomb).2
  · rw [hitems] at he
    exact hburst.timers e he

/-! ## Ticking the bombs -/

/-- What ticking the bombs from a cell on does to the world. -/
structure Blazes [Arithmetic] (deltaTime : ℚ) (rest : List BombInfo) (w t : World) (fresh : List ExplosionInfo) : Prop where
  sound : Sound t
  walls : SameWalls w t
  burning : ∀ c, t.burning c ↔ Remains putsOut (setsOnFire w) w.burning (removals deltaTime rest.length rest) c
  shape : ∀ e ∈ fresh, e.tiles = blastTiles w e.blast ∧ e.timer = explodeLifetime
  queued : fresh ≠ [] ∨ w.explodes.items ≠ [] → t.explodes.items ≠ []

/-- One bomb is taken out and one explodes. -/
structure Detonation (w : World) (r : BombInfo × BombInfo) (bombs : BombsQueue) (u t : World) : Prop where
  sound : Sound t
  walls : SameWalls w u
  walls' : SameWalls w t
  burning : ∀ c, t.burning c ↔ setsOnFire w r c ∨ (w.burning c ∧ ¬putsOut r c)
  bombs : t.bombs = bombs
  queued : t.explodes.items ≠ []

theorem detonation {w : World} (h : Sound w) {r : BombInfo × BombInfo} (hfloor : w.map r.1.position.tile.1 r.1.position.tile.2 ≠ .wall)
    {bombs : BombsQueue} (hsub : ∀ b ∈ bombs.items, ∃ b' ∈ w.bombs.items, b'.position = b.position) :
    Detonation w r bombs { w.clear r.1.position with bombs := bombs }
      (triggerExplosion { w.clear r.1.position with bombs := bombs } r.2) := by
  have hu : Sound { w.clear r.1.position with bombs := bombs } := (clear_sound h r.1.position).reseat hsub
  have hwalls : SameWalls w { w.clear r.1.position with bombs := bombs } := by
    obtain ⟨hsize,hwalls⟩ := setTile_sameWalls (x := r.1.position.tile.1) (y := r.1.position.tile.2) hfloor (show Tile.empty ≠ .wall by decide)
    exact ⟨hsize,hwalls⟩
  have hburns := burst_burns { w.clear r.1.position with bombs := bombs } r.2
  have hgrows := burst_grows { w.clear r.1.position with bombs := bombs } r.2
  refine ⟨triggerExplosion_sound hu r.2,hwalls,hwalls.trans ⟨hburns.walls.mapSize,hburns.walls.walls⟩,fun c => ?_,
    hgrows.bombs,?_⟩
  · refine (hburns.burning c).trans ?_
    rw [crossTiles_congr hwalls]
    exact or_congr Iff.rfl (clear_burning w r.1.position c)
  · rw [triggerExplosion_eq]
    dsimp only
    rcases Queue.enqueue_cases (burst { w.clear r.1.position with bombs := bombs } r.2).1.explodes
      (burst { w.clear r.1.position with bombs := bombs } r.2).2 with hitems | ⟨hitems,hfull⟩
    · rw [hitems]
      simp
    · rw [hitems]
      intro hnil
      rw [hnil] at hfull
      cases hfull

theorem triggeredLoop_expired [Arithmetic] {deltaTime : ℚ} {w : World} {i : ℕ} {b pointee : BombInfo}
    (hcell : w.bombs.items[i]? = some b) (hexp : b.expires deltaTime = true)
    (hp : ((w.bombs.write i (b.burn deltaTime)).overwrite i).items[i]? = some pointee) (n : ℕ) :
    triggeredLoop deltaTime (n + 1) i w =
      (burst { w.clear b.position with bombs := ((w.bombs.write i (b.burn deltaTime)).overwrite i).shrink } pointee).2 ::
      triggeredLoop deltaTime n i (triggerExplosion
        { w.clear b.position with bombs := ((w.bombs.write i (b.burn deltaTime)).overwrite i).shrink } pointee) := by
  have htimer : (b.burn deltaTime).timer ≤ 0 := of_decide_eq_true hexp
  have hget : (((w.bombs.write i (b.burn deltaTime)).overwrite i).items[i]?).getD (b.burn deltaTime) = pointee := by
    rw [hp]
    rfl
  rw [triggeredLoop,hcell]
  dsimp only
  rw [if_pos htimer]
  exact congrArg (fun x => (burst _ x).2 :: triggeredLoop deltaTime n i (triggerExplosion _ x)) hget

theorem triggeredLoop_kept [Arithmetic] {deltaTime : ℚ} {w : World} {i : ℕ} {b : BombInfo}
    (hcell : w.bombs.items[i]? = some b) (hexp : b.expires deltaTime = false) (n : ℕ) :
    triggeredLoop deltaTime (n + 1) i w =
      triggeredLoop deltaTime n (i + 1) { w with bombs := w.bombs.write i (b.burn deltaTime) } := by
  have htimer : ¬(b.burn deltaTime).timer ≤ 0 := of_decide_eq_false hexp
  rw [triggeredLoop,hcell]
  dsimp only
  rw [if_neg htimer]

/-- Both loops at a bomb that has run out. -/
theorem loops_take_out [Arithmetic] {deltaTime : ℚ} {w : World} {pre rest : List BombInfo} {b : BombInfo}
    (hitems : w.bombs.items = pre ++ b :: rest) (hhead : w.bombs.head ≤ pre.length) (hexp : b.expires deltaTime = true) :
    ∃ bombs : BombsQueue, bombs.items = pre ++ (takeOut deltaTime b rest).2 ∧ bombs.head = w.bombs.head ∧ ∀ n,
      tickBombsLoop deltaTime (n + 1) pre.length w = tickBombsLoop deltaTime n pre.length
        (triggerExplosion { w.clear b.position with bombs := bombs } (takeOut deltaTime b rest).1) ∧
      triggeredLoop deltaTime (n + 1) pre.length w =
        (burst { w.clear b.position with bombs := bombs } (takeOut deltaTime b rest).1).2 ::
        triggeredLoop deltaTime n pre.length
          (triggerExplosion { w.clear b.position with bombs := bombs } (takeOut deltaTime b rest).1) := by
  have hcell : w.bombs.items[pre.length]? = some b := by simp [hitems]
  have hwrite : (w.bombs.write pre.length (b.burn deltaTime)).items = pre ++ b.burn deltaTime :: rest := by simp [hitems]
  have hget : ∀ last, rest.getLast? = some last → takeOut deltaTime b rest = (last,last :: rest.dropLast) := by
    intro last hlast
    rw [takeOut,hlast]
  rcases List.eq_nil_or_concat rest with rfl | ⟨mid,last,rfl⟩
  · obtain ⟨hp,hq⟩ := Queue.overwrite_last hwrite hhead
    refine ⟨_,?_,by simp,fun n => ⟨tickBombsLoop_expired hcell hexp hp n,triggeredLoop_expired hcell hexp hp n⟩⟩
    rw [hq]
    exact (List.append_nil pre).symm
  · rw [List.concat_eq_append] at *
    obtain ⟨hp,hq⟩ := Queue.overwrite_mid hwrite hhead
    rw [hget last (by simp)]
    refine ⟨_,?_,by simp,fun n => ⟨tickBombsLoop_expired hcell hexp hp n,triggeredLoop_expired hcell hexp hp n⟩⟩
    rw [hq,List.dropLast_concat]

theorem setsOnFire_congr {w t : World} (h : SameWalls w t) : setsOnFire t = setsOnFire w := by
  funext r c
  rw [setsOnFire,setsOnFire,crossTiles_congr h]

theorem Blazes.kept [Arithmetic] {deltaTime : ℚ} {b : BombInfo} {rest : List BombInfo} {w v : World} {bombs : BombsQueue}
    {fresh : List ExplosionInfo} (hexp : b.expires deltaTime = false)
    (h : Blazes deltaTime rest { w with bombs := bombs } v fresh) : Blazes deltaTime (b :: rest) w v fresh := by
  have hwalls : SameWalls w { w with bombs := bombs } := ⟨rfl,fun _ => Iff.rfl⟩
  refine ⟨h.sound,hwalls.trans h.walls,fun c => ?_,fun e he => ?_,h.queued⟩
  · rw [h.burning c,setsOnFire_congr hwalls,List.length_cons,removals,if_neg (by rw [hexp]; exact Bool.false_ne_true)]
    exact Iff.rfl
  · rw [← blastTiles_congr hwalls]
    exact h.shape e he

theorem Blazes.detonated [Arithmetic] {deltaTime : ℚ} {b : BombInfo} {rest : List BombInfo} {w u t v : World} {bombs : BombsQueue}
    {fresh : List ExplosionInfo} {e : ExplosionInfo} (hexp : b.expires deltaTime = true)
    (hd : Detonation w (b,(takeOut deltaTime b rest).1) bombs u t)
    (he : e.tiles = blastTiles u e.blast ∧ e.timer = explodeLifetime)
    (h : Blazes deltaTime (takeOut deltaTime b rest).2 t v fresh) : Blazes deltaTime (b :: rest) w v (e :: fresh) where
  sound := h.sound
  walls := hd.walls'.trans h.walls
  burning c := by
    rw [h.burning c,setsOnFire_congr hd.walls',takeOut_length,List.length_cons,removals,if_pos hexp,remains_cons]
    exact remains_congr hd.burning
  shape e' he' := by
    rcases List.mem_cons.mp he' with rfl | he'
    · rw [← blastTiles_congr hd.walls]
      exact he
    · rw [← blastTiles_congr hd.walls']
      exact h.shape e' he'
  queued _ := h.queued (Or.inr hd.queued)

theorem tickBombsLoop_blazes [Arithmetic] (deltaTime : ℚ) (n : ℕ) (w : World) (pre rest : List BombInfo) (hs : Sound w)
    (hn : rest.length = n) (hitems : w.bombs.items = pre ++ rest) (hhead : w.bombs.head ≤ pre.length) :
    Blazes deltaTime rest w (tickBombsLoop deltaTime n pre.length w) (triggeredLoop deltaTime n pre.length w) := by
  induction n generalizing w pre rest with
  | zero =>
    obtain rfl := List.length_eq_zero_iff.mp hn
    refine ⟨hs,.refl w,fun c => remains_nil.symm,fun e he => absurd he List.not_mem_nil,fun h => ?_⟩
    exact h.resolve_left fun hnil => hnil rfl
  | succ n ih =>
    match rest, hn with
    | b :: rest, hn =>
      have hlen : rest.length = n := Nat.succ.inj hn
      cases hexp : b.expires deltaTime with
      | false =>
        have hcell : w.bombs.items[pre.length]? = some b := by simp [hitems]
        have hpre : pre.length + 1 = (pre ++ [b.burn deltaTime]).length := by simp
        have hseats : ∀ x ∈ (w.bombs.write pre.length (b.burn deltaTime)).items,
            ∃ x' ∈ w.bombs.items, x'.position = x.position := by
          intro x hx
          rcases List.mem_or_eq_of_mem_set hx with hx | rfl
          · exact ⟨x,hx,rfl⟩
          · exact ⟨b,List.mem_of_getElem? hcell,rfl⟩
        have hrest := ih { w with bombs := w.bombs.write pre.length (b.burn deltaTime) } (pre ++ [b.burn deltaTime]) rest
          (hs.reseat hseats) hlen (by simp [hitems]) (by simpa using Nat.le_succ_of_le hhead)
        rw [tickBombsLoop_kept hcell hexp,triggeredLoop_kept hcell hexp,hpre]
        exact hrest.kept hexp
      | true =>
        obtain ⟨bombs,hbombs,hh,hloop⟩ := loops_take_out hitems hhead hexp
        have hb : b ∈ w.bombs.items := by simp [hitems]
        have hseats : ∀ x ∈ bombs.items, ∃ x' ∈ w.bombs.items, x'.position = x.position := by
          intro x hx
          rw [hbombs,List.mem_append] at hx
          refine ⟨x,?_,rfl⟩
          rw [hitems]
          rcases hx with hx | hx
          · exact List.mem_append_left _ hx
          · exact List.mem_append_right _ (List.mem_cons_of_mem _ (takeOut_subset deltaTime b rest hx))
        have hd := detonation hs (r := (b,(takeOut deltaTime b rest).1)) (hs.floor b hb) hseats
        rw [(hloop n).1,(hloop n).2]
        refine Blazes.detonated hexp hd (burst_tiles _ _) (ih _ pre _ hd.sound ?_ ?_ ?_)
        · rw [takeOut_length,hlen]
        · rw [hd.bombs,hbombs]
        · rw [hd.bombs,hh]
          exact hhead

theorem tickBombsLoop_eq [Arithmetic] (w : World) (deltaTime : ℚ) :
    tickBombsLoop deltaTime (w.bombs.rear - w.bombs.head) w.bombs.head w = tickBombs w deltaTime := by
  unfold tickBombs
  split
  · next hempty =>
    have hnone : w.bombs.rear - w.bombs.head = 0 := by
      have := beq_iff_eq.mp hempty
      omega
    rw [hnone]
    rfl
  · rfl

theorem tickBombs_blazes [Arithmetic] {w : World} (hs : Sound w) (deltaTime : ℚ) :
    Blazes deltaTime w.bombs.queued w (tickBombs w deltaTime) (triggered w deltaTime) := by
  have hlen : w.bombs.queued.length = w.bombs.rear - w.bombs.head := List.length_drop
  have h := tickBombsLoop_blazes deltaTime (w.bombs.rear - w.bombs.head) w (w.bombs.items.take w.bombs.head) w.bombs.queued
    hs hlen w.bombs.take_head_append.symm (by rw [w.bombs.take_head_length])
  rw [w.bombs.take_head_length,tickBombsLoop_eq] at h
  exact h

theorem triggerExplosion_queue (w : World) (bomb : BombInfo) (later : List ExplosionInfo) :
    (triggerExplosion w bomb).explodes.items ++ later.take (500 - (triggerExplosion w bomb).explodes.items.length) =
      w.explodes.items ++ ((burst w bomb).2 :: later).take (500 - w.explodes.items.length) := by
  rw [triggerExplosion_eq]
  dsimp only
  have hsame : (burst w bomb).1.explodes = w.explodes := (burst_grows w bomb).explodes
  rcases Queue.enqueue_cases (burst w bomb).1.explodes (burst w bomb).2 with hitems | ⟨hitems,hfull⟩
  · have hbound := ((burst w bomb).1.explodes.enqueue (burst w bomb).2).1.bounded
    rw [hitems,hsame,List.length_append,List.length_singleton] at hbound
    have hroom : 500 - w.explodes.items.length = 500 - (w.explodes.items.length + 1) + 1 := by omega
    rw [hitems,hsame,List.length_append,List.length_singleton,hroom,List.take_succ_cons,List.append_assoc]
    rfl
  · rw [hsame] at hfull
    rw [hitems,hsame,hfull,Nat.sub_self,List.take_zero,List.take_zero]

/-- The queue takes the explosions of the loop as long as it has room. -/
theorem tickBombsLoop_queues [Arithmetic] (deltaTime : ℚ) (n i : ℕ) (w : World) :
    (tickBombsLoop deltaTime n i w).explodes.items =
      w.explodes.items ++ (triggeredLoop deltaTime n i w).take (500 - w.explodes.items.length) := by
  induction n generalizing i w with
  | zero => simp [tickBombsLoop,triggeredLoop]
  | succ n ih =>
    rw [tickBombsLoop,triggeredLoop]
    cases w.bombs.items[i]? with
    | none => simp
    | some b =>
      dsimp only
      split
      · rw [ih,triggerExplosion_queue]
        rfl
      · exact ih (i + 1) _

/-! ## Ticking the explosions -/

/-- The bombs, the explosions and the size of the arena stay. -/
structure Settles (w t : World) : Prop where
  sound : Sound t
  mapSize : t.mapSize = w.mapSize
  explodes : t.explodes = w.explodes

theorem spawnPending_settles {w : World} (h : Sound w) (v : Vector2) : Settles w (spawnPending w v) := by
  have hhidden := spawnPending_hidden h.hidden v
  unfold spawnPending at hhidden ⊢
  dsimp only at hhidden ⊢
  split
  · exact ⟨h,rfl,rfl⟩
  · next hpending =>
    rw [if_neg hpending] at hhidden
    exact ⟨h.change (setTile_noNewWalls w _ _ (h.hidden _ _).1) rfl hhidden rfl,rfl,rfl⟩

theorem foldl_settles {step : World → Vector2 → World} (hstep : ∀ w v, Sound w → Settles w (step w v))
    (positions : List Vector2) {w : World} (h : Sound w) : Settles w (positions.foldl step w) := by
  induction positions generalizing w with
  | nil => exact ⟨h,rfl,rfl⟩
  | cons v positions ih =>
    obtain ⟨hsound,hsize,hexplodes⟩ := hstep w v h
    obtain ⟨hsound',hsize',hexplodes'⟩ := ih hsound
    exact ⟨hsound',hsize'.trans hsize,hexplodes'.trans hexplodes⟩

theorem extinguish_settles {w : World} (h : Sound w) (e : ExplosionInfo) : Settles w (extinguish w e) := by
  have hclear : ∀ w v, Sound w → Settles w (World.clear w v) := fun w v hw => ⟨clear_sound hw v,rfl,rfl⟩
  obtain ⟨hsound,hsize,hexplodes⟩ := foldl_settles hclear e.spreadPositions (clear_sound h e.center)
  obtain ⟨hsound',hsize',hexplodes'⟩ := foldl_settles (fun w v hw => spawnPending_settles hw v) e.spreadPositions hsound
  exact ⟨hsound',hsize'.trans hsize,hexplodes'.trans hexplodes⟩

theorem Sound.requeue {w : World} (h : Sound w) {explodes : ExplodesQueue} (hhead : explodes.head = w.explodes.head)
    (htimers : ∀ e ∈ explodes.items, e.timer ≤ explodeLifetime) : Sound { w with explodes := explodes } where
  floor := h.floor
  hidden := h.hidden
  head := hhead.trans h.head
  timers := htimers

/-- What ticking the explosions from a cell on does to the world. -/
structure Douses [Arithmetic] (deltaTime : ℚ) (rest : List ExplosionInfo) (w t : World) : Prop where
  sound : Sound t
  mapSize : t.mapSize = w.mapSize
  burning : ∀ c, t.burning c ↔ w.burning c ∧ ∀ e ∈ rest, fl (e.timer - deltaTime) ≤ 0 → c ∉ e.tiles

theorem tickExplosionsLoop_douses [Arithmetic] {deltaTime : ℚ} (hpos : 0 < deltaTime) (n : ℕ) (w : World) (pre rest : List ExplosionInfo)
    (hs : Sound w) (hn : rest.length = n) (hitems : w.explodes.items = pre ++ rest)
    (hhead : w.explodes.head ≤ pre.length) : Douses deltaTime rest w (tickExplosionsLoop deltaTime n pre.length w) := by
  induction n generalizing w pre rest with
  | zero =>
    obtain rfl := List.length_eq_zero_iff.mp hn
    exact ⟨hs,rfl,fun c => by simp [tickExplosionsLoop]⟩
  | succ n ih =>
    match rest, hn with
    | e :: rest, hn =>
      have hlen : rest.length = n := Nat.succ.inj hn
      have hcell : w.explodes.items[pre.length]? = some e := by simp [hitems]
      let e' := { e with timer := fl (e.timer - deltaTime) }
      have hwrite : (w.explodes.write pre.length e').items = pre ++ e' :: rest := by simp [hitems]
      have hburnt : ∀ x ∈ pre ++ e' :: rest, x.timer ≤ explodeLifetime := by
        intro x hx
        rw [← hwrite] at hx
        rcases List.mem_or_eq_of_mem_set hx with hx | rfl
        · exact hs.timers x hx
        · exact (fl_mono ((sub_le_self _ (le_of_lt hpos)).trans (hs.timers e (List.mem_of_getElem? hcell)))).trans_eq fl_half
      have hw : Sound { w with explodes := w.explodes.write pre.length e' } :=
        hs.requeue rfl (by rw [hwrite]; exact hburnt)
      rw [tickExplosionsLoop,hcell]
      dsimp only
      split
      · next hout =>
        -- the explosion goes out and the last one is next
        obtain ⟨rest',hitems',hperm⟩ := Queue.overwrite_rest hwrite hhead
        have hmem : ∀ x, x ∈ rest' ↔ x ∈ rest := fun x => hperm.mem_iff
        have htimers : ∀ x ∈ pre ++ rest', x.timer ≤ explodeLifetime := by
          intro x hx
          rw [List.mem_append,hmem] at hx
          exact hburnt x (List.mem_append.mpr (hx.imp id (List.mem_cons_of_mem e')))
        obtain ⟨hsound,hsize,hexplodes⟩ := extinguish_settles hw e'
        have hnext := ih { extinguish { w with explodes := w.explodes.write pre.length e' } e' with
            explodes := ((extinguish { w with explodes := w.explodes.write pre.length e' } e').explodes.overwrite
              pre.length).shrink } pre rest' (hsound.requeue (by simp) (by rw [hexplodes,hitems']; exact htimers))
          (hperm.length_eq.trans hlen) (by rw [hexplodes,hitems']) (by rw [hexplodes]; simpa using hhead)
        refine ⟨hnext.sound,hnext.mapSize.trans hsize,fun c => (hnext.burning c).trans ?_⟩
        rw [List.forall_mem_cons,← and_assoc]
        refine and_congr ((extinguish_burning hw.hidden e' c).trans (and_congr Iff.rfl ?_)) ?_
        · exact ⟨fun h _ => h,fun h => h hout⟩
        · exact ⟨fun h x hx => h x ((hmem x).mpr hx),fun h x hx => h x ((hmem x).mp hx)⟩
      · next hlit =>
        have hpre : pre.length + 1 = (pre ++ [e']).length := by simp
        rw [hpre]
        have hnext := ih { w with explodes := w.explodes.write pre.length e' } (pre ++ [e']) rest hw hlen
          (hwrite.trans (by simp)) (by simpa using Nat.le_succ_of_le hhead)
        refine ⟨hnext.sound,hnext.mapSize,fun c => (hnext.burning c).trans ?_⟩
        rw [List.forall_mem_cons]
        exact and_congr Iff.rfl (and_iff_right fun hout => absurd hout hlit).symm

theorem tickExplosions_douses [Arithmetic] {w : World} (hs : Sound w) {deltaTime : ℚ} (hpos : 0 < deltaTime) :
    Douses deltaTime w.explodes.queued w (tickExplosions w deltaTime) := by
  have hlen : w.explodes.queued.length = w.explodes.rear - w.explodes.head := List.length_drop
  have h := tickExplosionsLoop_douses hpos (w.explodes.rear - w.explodes.head) w
    (w.explodes.items.take w.explodes.head) w.explodes.queued hs hlen w.explodes.take_head_append.symm
    (by rw [w.explodes.take_head_length])
  rw [w.explodes.take_head_length] at h
  unfold tickExplosions
  split
  · next hempty =>
    have hnone : w.explodes.rear - w.explodes.head = 0 := by
      have := beq_iff_eq.mp hempty
      omega
    rw [hnone] at h
    exact h
  · exact h

end CoreStack.Bomberman
