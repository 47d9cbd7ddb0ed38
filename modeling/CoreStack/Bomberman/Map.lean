import Mathlib.Data.Nat.Sqrt
import Mathlib.Tactic.Common
import CoreStack.Bomberman.Arithmetic

/-! # The arena (`map.c`)

A grid is a total function; which cells of it belong to the arena is said by its size.
Square roots are taken exactly.
-/
namespace CoreStack.Bomberman

inductive Tile
  | empty
  | player
  | bomb
  | explosion
  | powerupFire
  | powerupBomb
  | breakable
  | wall
  deriving DecidableEq, Repr

structure Vector2 where
  x : ℚ
  y : ℚ
  deriving DecidableEq, Repr

def Vector2.add [Arithmetic] (a b : Vector2) : Vector2 := ⟨fl (a.x + b.x),fl (a.y + b.y)⟩

def Vector2.scale [Arithmetic] (a : Vector2) (k : ℚ) : Vector2 := ⟨fl (a.x * k),fl (a.y * k)⟩

/-- The cast of a float to `int`. -/
def toInt (q : ℚ) : ℤ := if 0 ≤ q then ⌊q⌋ else ⌈q⌉

abbrev Grid := ℤ → ℤ → Tile

def Grid.set (g : Grid) (x y : ℤ) (tile : Tile) : Grid :=
  fun i j => if i = x ∧ j = y then tile else g i j

def intRange (a b : ℤ) : List ℤ := (List.range (b - a).toNat).map fun k => a + k

/-! ## Size and spawns -/

def minMapWidth : ℕ := 10

def ceilSqrt (n : ℕ) : ℕ := if n.sqrt * n.sqrt = n then n.sqrt else n.sqrt + 1

/-- `round` goes away from zero on halves, which no square root of an integer is. -/
def roundSqrt (n : ℕ) : ℕ := if n ≤ n.sqrt * n.sqrt + n.sqrt then n.sqrt else n.sqrt + 1

def calcMapSize (numPlayers : ℕ) : ℕ := max (ceilSqrt (25 * numPlayers)) minMapWidth

def stripSpawns (innerSize row playersInStrip : ℕ) : List (ℕ × ℕ) :=
  (List.range playersInStrip).map fun i =>
    let x0 := i * innerSize / playersInStrip
    let x1 := (i + 1) * innerSize / playersInStrip
    (row,2 + (x0 + x1 - 1) / 2)

/-- The strips from the `s`-th on, for the players that have no spawn yet. -/
def strips (innerSize numStrips playersLeft : ℕ) : ℕ → List (ℕ × ℕ)
  | 0 => []
  | stripsLeft + 1 =>
    if playersLeft = 0 then []
    else
      let s := numStrips - (stripsLeft + 1)
      let playersInStrip := (playersLeft + stripsLeft) / (stripsLeft + 1)
      let y0 := s * innerSize / numStrips
      let y1 := (s + 1) * innerSize / numStrips
      let row := 2 + (y0 + y1 - 1) / 2
      stripSpawns innerSize row playersInStrip ++
        strips innerSize numStrips (playersLeft - playersInStrip) stripsLeft

/-- Corners first, in diagonal order, the others in strips of the inner square. -/
def calcPlayerSpawns (numPlayers innerSize : ℕ) : List (ℕ × ℕ) :=
  let corners := [(1,1),(innerSize,innerSize),(1,innerSize),(innerSize,1)].take numPlayers
  if numPlayers ≤ 4 then corners
  else
    let inner := max (innerSize - 2) 1
    let playersLeft := numPlayers - 4
    let numStrips := max (roundSqrt playersLeft) 1
    corners ++ strips inner numStrips playersLeft numStrips

/-! ## Generation -/

/-- A cell during generation; `none` is the initial `-1`. -/
abbrev Draft := ℤ → ℤ → Option Tile

def Draft.set (g : Draft) (x y : ℤ) (tile : Tile) : Draft :=
  fun i j => if i = x ∧ j = y then some tile else g i j

def emptyChance : ℕ := 20
def wallChance : ℕ := 30

def borders (mapSize : ℕ) : Draft := fun i j =>
  if i = 0 ∨ j = 0 ∨ i = mapSize - 1 ∨ j = mapSize - 1 then some .wall else none

/-- The spawn tile and the free cross around it, unless at the border. -/
def clearSpawn (mapSize : ℕ) (g : Draft) (spawn : ℕ × ℕ) : Draft :=
  let x : ℤ := spawn.1
  let y : ℤ := spawn.2
  let g := g.set x y .player
  let g := if 1 < x then g.set (x - 1) y .empty else g
  let g := if x < mapSize - 2 then g.set (x + 1) y .empty else g
  let g := if 1 < y then g.set x (y - 1) .empty else g
  if y < mapSize - 2 then g.set x (y + 1) .empty else g

/-- What a draw makes of a cell that is still open. Walls stay away from the border. -/
def fillTile (innerSize : ℕ) (x y : ℤ) (draw : ℕ) : Tile :=
  let rng := draw % 100
  if rng < emptyChance then .empty
  else if rng < emptyChance + wallChance ∧ 1 < x ∧ x < innerSize - 1 ∧ 1 < y ∧ y < innerSize - 1 then .wall
  else .breakable

def arena (mapSize : ℕ) : List (ℤ × ℤ) :=
  (intRange 0 mapSize).flatMap fun i => (intRange 0 mapSize).map fun j => (i,j)

/-- One cell of the filling pass, with the draws still to come. -/
def fillCell (innerSize : ℕ) (r : Draft × (ℕ → ℕ)) (cell : ℤ × ℤ) : Draft × (ℕ → ℕ) :=
  match r.1 cell.1 cell.2 with
  | some _ => r
  | none => (r.1.set cell.1 cell.2 (fillTile innerSize cell.1 cell.2 (r.2 0)),fun n => r.2 (n + 1))

structure Generated where
  mapSize : ℕ
  map : Grid
  draws : ℕ → ℕ

def mapGenerate (draws : ℕ → ℕ) (numPlayers : ℕ) : Generated :=
  let mapSize := calcMapSize numPlayers + 2
  let innerSize := mapSize - 2
  let spawns := calcPlayerSpawns numPlayers innerSize
  let placed := spawns.foldl (clearSpawn mapSize) (borders mapSize)
  let r := (arena mapSize).foldl (fillCell innerSize) (placed,draws)
  ⟨mapSize,fun i j => (r.1 i j).getD .wall,r.2⟩

end CoreStack.Bomberman
