import CoreStack.Utils.Queue
import CoreStack.Bomberman.Map

/-! # Bombs, explosions and powerups (`bomb_control.c`, `powerup_control.c`, `inventory.c`) -/
namespace CoreStack.Bomberman
open Utils

def bombTimer : ℚ := 1
def explodeLifetime : ℚ := 1 / 2
def bombReplenishTime : ℚ := 1
def powerupChance : ℕ := 50

structure BombInfo where
  position : Vector2
  spread : ℤ
  timer : ℚ
  deriving DecidableEq, Repr

inductive Direction
  | up
  | down
  | left
  | right
  deriving DecidableEq, Repr

/-- `range` is a history variable: the spread the explosion was triggered with. -/
structure ExplosionInfo where
  center : Vector2
  spreadAmt : Direction → ℕ
  spreadPositions : List Vector2
  timer : ℚ
  range : ℤ

abbrev BombsQueue := Queue BombInfo 500
abbrev ExplodesQueue := Queue ExplosionInfo 500

/-- The globals of libbombbrain. `draws` are the results `rand` has still to give. -/
structure World where
  mapSize : ℕ
  map : Grid
  powerupsToSpawn : Grid
  bombs : BombsQueue
  explodes : ExplodesQueue
  draws : ℕ → ℕ

def World.setTile (w : World) (x y : ℤ) (tile : Tile) : World := { w with map := w.map.set x y tile }

def World.clear (w : World) (position : Vector2) : World := w.setTile (toInt position.x) (toInt position.y) .empty

def World.rand (w : World) : ℕ × World := (w.draws 0,{ w with draws := fun n => w.draws (n + 1) })

/-! ## Powerups -/

def randomisePowerup (w : World) (x y : ℤ) : World :=
  let (rng,w) := w.rand
  if powerupChance < rng % 100 then w
  else
    let (powerupType,w) := w.rand
    let tile := if powerupType % 2 = 0 then Tile.powerupFire else .powerupBomb
    { w with powerupsToSpawn := w.powerupsToSpawn.set x y tile }

/-- One spread tile of an explosion that has gone out. -/
def spawnPending (w : World) (position : Vector2) : World :=
  let x := toInt position.x
  let y := toInt position.y
  if w.powerupsToSpawn x y = .empty then w
  else { w.setTile x y (w.powerupsToSpawn x y) with powerupsToSpawn := w.powerupsToSpawn.set x y .empty }

def spawnPendingPowerups (w : World) (explosion : ExplosionInfo) : World :=
  explosion.spreadPositions.foldl spawnPending w

/-! ## Explosions -/

def handleSpread (w : World) (x y : ℤ) (explosion : ExplosionInfo) : World × ExplosionInfo :=
  let w := if w.map x y = .breakable then randomisePowerup w x y else w
  (w.setTile x y .explosion,
    { explosion with spreadPositions := explosion.spreadPositions ++ [⟨x,y⟩] })

def Direction.tile (d : Direction) (x y i : ℤ) : ℤ × ℤ :=
  match d with
  | .up => (x,y - i)
  | .down => (x,y + i)
  | .left => (x - i,y)
  | .right => (x + i,y)

def Direction.beyond (d : Direction) (mapSize : ℕ) (x y i : ℤ) : Bool :=
  match d with
  | .up => y - i ≤ 0
  | .down => mapSize ≤ y + i
  | .left => x - i ≤ 0
  | .right => mapSize ≤ x + i

/-- One arm, from its `i`-th tile on; `n` tiles are left of the spread. -/
def spreadArm (d : Direction) (x y : ℤ) : ℕ → ℕ → World × ExplosionInfo → World × ExplosionInfo
  | 0, _, r => r
  | n + 1, i, (w,explosion) =>
    let (tx,ty) := d.tile x y i
    if d.beyond w.mapSize x y i || w.map tx ty == .wall then (w,explosion)
    else spreadArm d x y n (i + 1)
      (handleSpread w tx ty { explosion with spreadAmt := Function.update explosion.spreadAmt d i })

def triggerExplosion (w : World) (bomb : BombInfo) : World :=
  let x := toInt bomb.position.x
  let y := toInt bomb.position.y
  let explosion : ExplosionInfo := ⟨bomb.position,fun _ => 0,[],explodeLifetime,bomb.spread⟩
  let arm := fun d => spreadArm d x y bomb.spread.toNat 1
  let (w,explosion) := arm .right (arm .left (arm .down (arm .up (w,explosion))))
  { w with explodes := (w.explodes.enqueue explosion).1 }

/-! ## Ticks -/

def BombInfo.burn [Arithmetic] (b : BombInfo) (deltaTime : ℚ) : BombInfo := { b with timer := fl (b.timer - deltaTime) }

/-- The loop of `tick_bombs` at cell `i` with `n` cells before `rear`. The pointer to
cell `i` is read again after the last bomb was copied over that cell. -/
def tickBombsLoop [Arithmetic] (deltaTime : ℚ) : ℕ → ℕ → World → World
  | 0, _, w => w
  | n + 1, i, w =>
    match w.bombs.items[i]? with
    | none => w
    | some b =>
      let bomb := b.burn deltaTime
      let w := { w with bombs := w.bombs.write i bomb }
      if bomb.timer ≤ 0 then
        let w := w.clear bomb.position
        let bombs := w.bombs.overwrite i
        let pointee := bombs.items[i]?.getD bomb
        tickBombsLoop deltaTime n i (triggerExplosion { w with bombs := bombs.shrink } pointee)
      else tickBombsLoop deltaTime n (i + 1) w

def tickBombs [Arithmetic] (w : World) (deltaTime : ℚ) : World :=
  if w.bombs.empty then w else tickBombsLoop deltaTime (w.bombs.rear - w.bombs.head) w.bombs.head w

/-- An explosion whose time is up leaves empty tiles and the powerups it uncovered. -/
def extinguish (w : World) (explosion : ExplosionInfo) : World :=
  let w := w.clear explosion.center
  spawnPendingPowerups (explosion.spreadPositions.foldl World.clear w) explosion

def tickExplosionsLoop [Arithmetic] (deltaTime : ℚ) : ℕ → ℕ → World → World
  | 0, _, w => w
  | n + 1, i, w =>
    match w.explodes.items[i]? with
    | none => w
    | some e =>
      let explosion := { e with timer := fl (e.timer - deltaTime) }
      let w := { w with explodes := w.explodes.write i explosion }
      if explosion.timer ≤ 0 then
        let w := extinguish w explosion
        tickExplosionsLoop deltaTime n i { w with explodes := (w.explodes.overwrite i).shrink }
      else tickExplosionsLoop deltaTime n (i + 1) w

def tickExplosions [Arithmetic] (w : World) (deltaTime : ℚ) : World :=
  if w.explodes.empty then w
  else tickExplosionsLoop deltaTime (w.explodes.rear - w.explodes.head) w.explodes.head w

/-! ## Inventory and placement -/

structure InventoryStock where
  remainingBombs : ℤ
  numBombs : ℤ
  numFires : ℤ
  bombReplenishTimer : ℚ
  deriving DecidableEq, Repr

def consumeBomb (stock : InventoryStock) : InventoryStock :=
  { stock with remainingBombs := stock.remainingBombs - 1, bombReplenishTimer := bombReplenishTime }

def inventoryUpdate [Arithmetic] (stock : InventoryStock) (deltaTime : ℚ) : InventoryStock :=
  if stock.numBombs ≤ stock.remainingBombs then stock
  else
    let stock := { stock with bombReplenishTimer := fl (stock.bombReplenishTimer - deltaTime) }
    if 0 < stock.bombReplenishTimer then stock
    else { stock with remainingBombs := stock.remainingBombs + 1, bombReplenishTimer := bombReplenishTime }

def placeBomb (w : World) (pos : Vector2) (stock : InventoryStock) : World × InventoryStock × Bool :=
  let x := toInt pos.x
  let y := toInt pos.y
  if w.map x y ≠ .empty ∧ w.map x y ≠ .player then (w,stock,false)
  else if stock.remainingBombs ≤ 0 then (w,stock,false)
  else
    let w := w.setTile x y .bomb
    let bombs := (w.bombs.enqueue ⟨pos,stock.numFires,bombTimer⟩).1
    ({ w with bombs := bombs },consumeBomb stock,true)

theorem placeBomb_cases (w : World) (pos : Vector2) (stock : InventoryStock) :
    (placeBomb w pos stock = (w,stock,false) ∧
      ¬((w.map (toInt pos.x) (toInt pos.y) = .empty ∨ w.map (toInt pos.x) (toInt pos.y) = .player) ∧
        0 < stock.remainingBombs)) ∨
    ((w.map (toInt pos.x) (toInt pos.y) = .empty ∨ w.map (toInt pos.x) (toInt pos.y) = .player) ∧
      0 < stock.remainingBombs ∧
      placeBomb w pos stock = ({ w.setTile (toInt pos.x) (toInt pos.y) .bomb with
        bombs := (w.bombs.enqueue ⟨pos,stock.numFires,bombTimer⟩).1 },consumeBomb stock,true)) := by
  unfold placeBomb
  dsimp only
  split
  · next hoccupied => exact Or.inl ⟨rfl,fun h => h.1.elim hoccupied.1 hoccupied.2⟩
  · next hfree =>
    split
    · next hstock => exact Or.inl ⟨rfl,fun h => Int.not_le.mpr h.2 hstock⟩
    · next hstock =>
      refine Or.inr ⟨?_,Int.not_le.mp hstock,rfl⟩
      by_contra hoccupied
      exact hfree ⟨fun he => hoccupied (Or.inl he),fun hp => hoccupied (Or.inr hp)⟩

end CoreStack.Bomberman
