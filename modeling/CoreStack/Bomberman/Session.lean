import CoreStack.Bomberman.BombControl
import CoreStack.Lib.Execution

/-! # The authoritative session (`session.c`, `collision.c`)

Raymath's `Vector2Normalize` is a parameter of everything that moves players.
-/
namespace CoreStack.Bomberman
open Utils

def simPlayerSpeed : ℚ := 3
def simPlayerSprintSpeed : ℚ := 11 / 2
def simPlayerBoxOffset [Arithmetic] : Vector2 := ⟨fl (7 / 20),fl (1 / 10)⟩
def simPlayerBoxSize [Arithmetic] : Vector2 := ⟨fl (21 / 50),fl (17 / 20)⟩
def bombdMaxPlayers : ℕ := 25

/-- `TICK_MICROSECONDS`, the length of every tick of the loop of bombd. -/
def tickSeconds [Arithmetic] : ℚ := fl (16000 / 1000000)

/-! ## Collision -/

structure BoundBox where
  position : Vector2
  size : Vector2
  deriving DecidableEq, Repr

/-- The columns from `left` and the rows from `top`, each up to the bound after them. -/
structure TileRange where
  left : ℤ
  right : ℤ
  top : ℤ
  bottom : ℤ

def getAllOverlappingTiles [Arithmetic] (x y : ℚ) (size : Vector2) : TileRange :=
  ⟨⌊x⌋,⌈fl (fl (x + size.x) - fl (1 / 1000))⌉,⌊y⌋,⌈fl (fl (y + size.y) - fl (1 / 1000))⌉⟩

def TileRange.tiles (r : TileRange) : List (ℤ × ℤ) :=
  (intRange r.top r.bottom).flatMap fun ty => (intRange r.left r.right).map fun tx => (tx,ty)

def tileIsSolid (w : World) (x y : ℤ) : Bool := w.map x y == .wall || w.map x y == .breakable

def aabbCollided [Arithmetic] (w : World) (x y : ℚ) (size : Vector2) : Bool :=
  (getAllOverlappingTiles x y size).tiles.any fun t => tileIsSolid w t.1 t.2

/-- Each axis is checked on its own, the second with the first already moved. -/
def moveBox [Arithmetic] (w : World) (box : BoundBox) (moveAmt : Vector2) : BoundBox :=
  let newPos := box.position.add moveAmt
  let box := if aabbCollided w newPos.x box.position.y box.size then box
    else { box with position := { box.position with x := newPos.x } }
  if aabbCollided w box.position.x newPos.y box.size then box
  else { box with position := { box.position with y := newPos.y } }

def getCenterBox [Arithmetic] (box : BoundBox) : Vector2 :=
  ⟨⌊fl (box.position.x + fl (box.size.x * (1 / 2)))⌋,⌊fl (box.position.y + fl (box.size.y * (1 / 2)))⌋⟩

/-! ## Players -/

structure BombPlayer where
  playerId : ℕ
  active : Bool
  alive : Bool
  box : BoundBox
  direction : Direction
  isMoving : Bool
  inventory : InventoryStock
  moveDx : ℤ
  moveDy : ℤ
  sprinting : Bool
  deriving DecidableEq, Repr

structure BombSession where
  players : List BombPlayer
  dirty : Bool

structure Bombd where
  session : BombSession
  world : World

/-- The scan of `collect_spawns` over one tile. -/
def collectSpawn (maxSpawns : ℕ) (r : Grid × List Vector2) (cell : ℤ × ℤ) : Grid × List Vector2 :=
  if r.2.length < maxSpawns ∧ r.1 cell.1 cell.2 = .player then
    (r.1.set cell.1 cell.2 .empty,r.2 ++ [⟨cell.1,cell.2⟩])
  else r

def collectSpawns (mapSize : ℕ) (map : Grid) (maxSpawns : ℕ) : Grid × List Vector2 :=
  (arena mapSize).foldl (collectSpawn maxSpawns) (map,[])

def initPlayer [Arithmetic] (playerId : ℕ) (tile : Vector2) : BombPlayer where
  playerId := playerId
  active := true
  alive := true
  box := ⟨tile.add simPlayerBoxOffset,simPlayerBoxSize⟩
  direction := .down
  isMoving := false
  inventory := ⟨2,2,1,0⟩
  moveDx := 0
  moveDy := 0
  sprinting := false

/-- Players without a spawn tile of their own fall back to the first corner. -/
def initSession [Arithmetic] (draws : ℕ → ℕ) (clientIds : List ℕ) : Bombd :=
  let playerCount := min clientIds.length bombdMaxPlayers
  let g := mapGenerate draws playerCount
  let (map,spawns) := collectSpawns g.mapSize g.map playerCount
  let players := (clientIds.take playerCount).mapIdx fun i id => initPlayer id (spawns.getD i ⟨1,1⟩)
  ⟨⟨players,true⟩,⟨g.mapSize,map,fun _ _ => .empty,.init,.init,g.draws⟩⟩

def findBombPlayer (session : BombSession) (playerId : ℕ) : Option ℕ :=
  session.players.findIdx? fun p => p.active && p.playerId == playerId

def BombSession.setPlayer (session : BombSession) (i : ℕ) (p : BombPlayer) : BombSession :=
  { session with players := session.players.set i p }

/-- The player a message names, if it is in the match and alive. -/
def BombSession.steered (session : BombSession) (playerId : ℕ) : Option (ℕ × BombPlayer) :=
  (findBombPlayer session playerId).bind fun i =>
    (session.players[i]?.filter (·.alive)).map (i,·)

def applyMove (s : Bombd) (playerId : ℕ) (dx dy : ℤ) (sprinting : Bool) : Bombd :=
  match s.session.steered playerId with
  | some (i,p) =>
    { s with session := s.session.setPlayer i { p with moveDx := dx, moveDy := dy, sprinting := sprinting } }
  | none => s

def applyBombPlace [Arithmetic] (s : Bombd) (playerId : ℕ) : Bombd :=
  match s.session.steered playerId with
  | some (i,p) =>
    let (world,inventory,_) := placeBomb s.world (getCenterBox p.box) p.inventory
    ⟨s.session.setPlayer i { p with inventory := inventory },world⟩
  | none => s

def applyDisconnect (s : Bombd) (playerId : ℕ) : Bombd :=
  match s.session.steered playerId with
  | some (i,p) => { s with session := { s.session.setPlayer i { p with alive := false } with dirty := true } }
  | none => s

theorem steered_some {s : BombSession} {id i : ℕ} {p : BombPlayer} (h : s.steered id = some (i,p)) :
    s.players[i]? = some p ∧ p.playerId = id := by
  simp only [BombSession.steered,Option.bind_eq_some_iff,Option.map_eq_some_iff,Prod.mk.injEq] at h
  obtain ⟨j,hj,q,hq,rfl,rfl⟩ := h
  obtain ⟨hlt,hid,-⟩ := List.findIdx?_eq_some_iff_getElem.mp hj
  simp only [Bool.and_eq_true,beq_iff_eq] at hid
  have hget : s.players[j]? = some q := (Option.filter_eq_some_iff.mp hq).1
  rw [List.getElem?_eq_getElem hlt] at hget
  cases hget
  exact ⟨List.getElem?_eq_getElem hlt,hid.2⟩

/-! ## Simulation -/

def World.inside (w : World) (x y : ℤ) : Bool := decide (0 ≤ x ∧ 0 ≤ y ∧ x < w.mapSize ∧ y < w.mapSize)

/-- One player with the world while the tick works on it. -/
structure Pickup where
  world : World
  inventory : InventoryStock
  dirty : Bool

/-- One overlapped tile of the pickup pass. -/
def pickUp (r : Pickup) (tile : ℤ × ℤ) : Pickup :=
  if !r.world.inside tile.1 tile.2 then r
  else
    let world := r.world.setTile tile.1 tile.2 .empty
    match r.world.map tile.1 tile.2 with
    | .powerupFire =>
      ⟨world,{ r.inventory with numFires := r.inventory.numFires + 1 },true⟩
    | .powerupBomb =>
      ⟨world,{ r.inventory with
        numBombs := r.inventory.numBombs + 1
        remainingBombs := r.inventory.remainingBombs + 1 },true⟩
    | _ => r

def facing (p : BombPlayer) : Direction :=
  if 0 < p.moveDy then .up
  else if p.moveDy < 0 then .down
  else if p.moveDx < 0 then .left
  else if 0 < p.moveDx then .right
  else p.direction

/-- The held direction moves the player; up is negative `y`. -/
def steer [Arithmetic] (normalize : Vector2 → Vector2) (deltaTime : ℚ) (w : World) (p : BombPlayer) : BombPlayer :=
  let speed := if p.sprinting then simPlayerSprintSpeed else simPlayerSpeed
  let moveVec := normalize ⟨fl p.moveDx,-fl p.moveDy⟩
  { p with box := moveBox w p.box (moveVec.scale (fl (speed * deltaTime))), direction := facing p }

/-- One iteration of `apply_movement_and_pickups`. -/
def advance [Arithmetic] (normalize : Vector2 → Vector2) (deltaTime : ℚ) (w : World) (p : BombPlayer) :
    World × BombPlayer × Bool :=
  if !p.active || !p.alive then (w,p,false)
  else
    let moving := decide (p.moveDx ≠ 0 ∨ p.moveDy ≠ 0)
    let changed := moving || p.isMoving != moving
    let p := { (if moving then steer normalize deltaTime w p else p) with isMoving := moving }
    let tiles := (getAllOverlappingTiles p.box.position.x p.box.position.y p.box.size).tiles
    let r := tiles.foldl pickUp ⟨w,p.inventory,changed⟩
    (r.world,{ p with inventory := inventoryUpdate r.inventory deltaTime },r.dirty)

/-- The players in slot order, each with the world the ones before it left. -/
def advanceAll [Arithmetic] (normalize : Vector2 → Vector2) (deltaTime : ℚ) :
    World → List BombPlayer → World × List BombPlayer × Bool
  | w, [] => (w,[],false)
  | w, p :: players =>
    let (w,p,changed) := advance normalize deltaTime w p
    let (w,players,changed') := advanceAll normalize deltaTime w players
    (w,p :: players,changed || changed')

def applyMovementAndPickups [Arithmetic] (normalize : Vector2 → Vector2) (deltaTime : ℚ) (s : Bombd) : Bombd :=
  let (world,players,changed) := advanceAll normalize deltaTime s.world s.session.players
  ⟨⟨players,s.session.dirty || changed⟩,world⟩

def BombPlayer.burning [Arithmetic] (w : World) (p : BombPlayer) : Bool :=
  p.active && p.alive && (getAllOverlappingTiles p.box.position.x p.box.position.y p.box.size).tiles.any
    fun t => w.inside t.1 t.2 && w.map t.1 t.2 == .explosion

def killPlayersInExplosions [Arithmetic] (s : Bombd) : Bombd :=
  { s with session := {
      players := s.session.players.map fun p => if p.burning s.world then { p with alive := false } else p
      dirty := s.session.dirty || s.session.players.any (·.burning s.world) } }

/-- The new state and the explosions handed to `on_explosion`. -/
def tickSession [Arithmetic] (normalize : Vector2 → Vector2) (s : Bombd) (deltaTime : ℚ) : Bombd × List ExplosionInfo :=
  let s := applyMovementAndPickups normalize deltaTime s
  let explosionsBefore := s.world.explodes.rear
  let world := tickBombs s.world deltaTime
  let reported := world.explodes.items.drop explosionsBefore
  (killPlayersInExplosions { s with world := tickExplosions world deltaTime },reported)

/-! ## Runs -/

inductive BombInput
  | move (playerId : ℕ) (dx dy : ℤ) (sprinting : Bool)
  | place (playerId : ℕ)
  | disconnect (playerId : ℕ)
  | tick (deltaTime : ℚ)

def Bombd.step [Arithmetic] (normalize : Vector2 → Vector2) (s : Bombd) : BombInput → Option Bombd
  | .move playerId dx dy sprinting => some (applyMove s playerId dx dy sprinting)
  | .place playerId => some (applyBombPlace s playerId)
  | .disconnect playerId => some (applyDisconnect s playerId)
  | .tick deltaTime => if 0 < deltaTime then some (tickSession normalize s deltaTime).1 else none

theorem step_tick [Arithmetic] {normalize : Vector2 → Vector2} {s t : Bombd} {deltaTime : ℚ}
    (h : s.step normalize (.tick deltaTime) = some t) : 0 < deltaTime ∧ t = (tickSession normalize s deltaTime).1 := by
  rw [Bombd.step] at h
  split at h
  · next hpos => exact ⟨hpos,(Option.some.inj h).symm⟩
  · cases h

theorem applyMove_world (s : Bombd) (playerId : ℕ) (dx dy : ℤ) (sprinting : Bool) :
    (applyMove s playerId dx dy sprinting).world = s.world := by
  unfold applyMove
  split <;> rfl

theorem applyDisconnect_world (s : Bombd) (playerId : ℕ) : (applyDisconnect s playerId).world = s.world := by
  unfold applyDisconnect
  split <;> rfl

theorem applyBombPlace_world [Arithmetic] (s : Bombd) (playerId : ℕ) : (applyBombPlace s playerId).world = s.world ∨
    ∃ pos stock, (applyBombPlace s playerId).world = (placeBomb s.world pos stock).1 := by
  unfold applyBombPlace
  split
  · exact .inr ⟨_,_,rfl⟩
  · exact .inl rfl

/-- The world only changes when a bomb is put down and in a tick. -/
theorem step_world [Arithmetic] {normalize : Vector2 → Vector2} {s t : Bombd} {input : BombInput}
    (h : s.step normalize input = some t) :
    t.world = s.world ∨ (∃ pos stock, t.world = (placeBomb s.world pos stock).1) ∨
      ∃ deltaTime, 0 < deltaTime ∧ t = (tickSession normalize s deltaTime).1 := by
  cases input with
  | move playerId dx dy sprinting =>
    cases h
    exact .inl (applyMove_world s playerId dx dy sprinting)
  | place playerId =>
    cases h
    exact (applyBombPlace_world s playerId).imp_right .inl
  | disconnect playerId =>
    cases h
    exact .inl (applyDisconnect_world s playerId)
  | tick deltaTime => exact .inr (.inr ⟨deltaTime,step_tick h⟩)

end CoreStack.Bomberman
