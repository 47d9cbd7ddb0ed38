import CoreStack.Bomberman.MapSync
import CoreStack.Lib.Checked
import CoreStack.Lib.Execution
import CoreStack.Lib.Tables
import CoreStack.Utils.Queue

/-! # The packets a client takes in (`network.c` of bombapp)

The globals `network_poll` works on, with every access to `map` and `players` checked and
the calls of `malloc` answered by the system. Floats are their bit patterns.
-/
namespace CoreStack.Bomberman
open BattleRoyale Checked Protocol Tables Utils

/-- What `apply_state` sets of a `Bomberman`. -/
structure PlayerView where
  position : UInt32 × UInt32
  direction : ℤ
  isMoving : Bool
  numBombs : ℤ
  remainingBombs : ℤ
  numFires : ℤ

/-- `bomberman_create_default((Vector2){1, 1})`, which stands at 1.35, 1.1. -/
def PlayerView.create : PlayerView := ⟨(0x3FACCCCD,0x3F8CCCCD),1,false,2,2,1⟩

structure ShownExplosion where
  center : UInt32 × UInt32
  spreadAmt : Fin 4 → ℤ

inductive ClientEvent
  | playerDied
  | bombExploded (x y : UInt32)
  | matchWon

structure Client where
  localId : UInt32
  players : Fin bombdMaxPlayers → PlayerView
  playerIds : Fin bombdMaxPlayers → UInt32
  slotUsed : Fin bombdMaxPlayers → Bool
  alive : Fin bombdMaxPlayers → Bool
  playerCount : ℤ
  hasMap : Bool
  gameOver : Bool
  winnerId : UInt32
  cameraPos : UInt32 × UInt32
  mapSize : ℤ
  map : Option (Table (Option Tile))
  bombs : Queue BombStateEntry 500
  explodes : Queue ShownExplosion 500
  events : List ClientEvent

namespace Client

/-- After `tiles_init`, which generates a map for ten players. -/
def start (localId : UInt32) (tiles : ℕ → ℕ → Tile) : Client where
  localId := localId
  players := fun _ => ⟨(0,0),0,false,0,0,0⟩
  playerIds := fun _ => 0
  slotUsed := fun _ => false
  alive := fun _ => false
  playerCount := 0
  hasMap := false
  gameOver := false
  winnerId := 0
  cameraPos := (0x3F800000,0x3F800000)
  mapSize := (calcMapSize 10 + 2 : ℕ)
  map := some ((List.range (calcMapSize 10 + 2)).map fun i =>
    some ((List.range (calcMapSize 10 + 2)).map fun j => some (tiles i j)))
  bombs := Queue.init
  explodes := Queue.init
  events := []

/-! ## Players -/

/-- The slot of a player, a free one that is taken for it, or -1. -/
def findOrAddSlot (c : Client) (playerId : UInt32) : Client × ℤ :=
  match (List.finRange bombdMaxPlayers).find? fun i => c.slotUsed i && c.playerIds i == playerId with
  | some i => (c,i.val)
  | none =>
    match (List.finRange bombdMaxPlayers).find? fun i => !c.slotUsed i with
    | some i =>
      ({ c with
          slotUsed := Function.update c.slotUsed i true
          playerIds := Function.update c.playerIds i playerId
          alive := Function.update c.alive i true
          players := Function.update c.players i PlayerView.create
          playerCount := if c.playerCount ≤ i.val then i.val + 1 else c.playerCount },i.val)
    | none => (c,-1)

def applyRoster (c : Client) (roster : RosterPayload) : Client :=
  (List.finRange bombdMaxPlayers).foldl (fun c i =>
    if i.val < roster.count.toNat then (c.findOrAddSlot (roster.ids i)).1 else c) c

def applyEntry? (c : Client) (entry : PlayerStateEntry) : Option Client :=
  let r := c.findOrAddSlot entry.playerId
  if r.2 < 0 then some r.1
  else (cell? bombdMaxPlayers r.2).map fun slot =>
    let nowAlive := entry.alive != 0
    let died := r.1.alive slot && !nowAlive && entry.playerId == r.1.localId
    { r.1 with
      players := Function.update r.1.players slot ⟨(entry.x,entry.y),entry.direction.toInt32.toInt,entry.isMoving != 0,
        entry.numBombs.toInt32.toInt,entry.remainingBombs.toInt32.toInt,entry.numFires.toInt32.toInt⟩
      events := if died then r.1.events ++ [.playerDied] else r.1.events
      cameraPos := if died then (entry.x,entry.y) else r.1.cameraPos
      alive := Function.update r.1.alive slot nowAlive }

def applyState? (c : Client) (payload : StatePayload) : Option Client :=
  ((List.finRange bombdMaxPlayers).foldlM (fun c i =>
    if i.val < payload.playerCount.toNat then c.applyEntry? (payload.players i) else some c) c).map fun c =>
    { c with bombs := (List.finRange bombdMaxBombs).foldl (fun q i =>
        if i.val < payload.bombCount.toNat then (q.enqueue (payload.bombs i)).1 else q) Queue.init }

/-! ## The map -/

def sizeT (n : ℤ) (unit : ℕ) : ℕ := (n % 18446744073709551616).toNat * unit % 18446744073709551616

/-- `malloc` refuses sizes above `PTRDIFF_MAX`, and others when the system does. -/
def allocates (granted : Bool) (size : ℕ) : Bool := granted && decide (size ≤ 9223372036854775807)

def mapFree? (c : Client) : Option Client :=
  match c.map with
  | none => some c
  | some t => if c.mapSize ≤ t.length then some { c with map := none } else none

def initTile (payload : MapInitPayload) (i j : ℕ) : Option Tile :=
  if hi : i < bombdMaxMapDim then
    if hj : j < bombdMaxMapDim then Tile.ofCode (payload.tiles ⟨i,hi⟩ ⟨j,hj⟩).toNat else some .empty
  else some .empty

/-- Row `i` is allocated and filled. `memory (i + 1)` answers the call of `malloc`. -/
def fillRow? (memory : ℕ → Bool) (mapSize : ℤ) (payload : MapInitPayload) (t : Table (Option Tile)) (i : ℕ) :
    Option (Table (Option Tile)) :=
  (setRow? t i (if allocates (memory (i + 1)) (sizeT mapSize 4) then some (List.replicate mapSize.toNat none)
    else none)).bind fun t =>
      (List.range mapSize.toNat).foldlM (fun t j => write? t i j (initTile payload i j)) t

def applyMapInit? (memory : ℕ → Bool) (c : Client) (payload : MapInitPayload) : Option Client :=
  c.mapFree?.bind fun c =>
    let mapSize := payload.mapSize.toInt32.toInt
    if allocates (memory 0) (sizeT mapSize 8) then
      ((List.range mapSize.toNat).foldlM (fillRow? memory mapSize payload)
        (List.replicate mapSize.toNat none)).map fun t =>
          { c with mapSize := mapSize, map := some t, hasMap := true }
    else if 0 < mapSize then none
    else some { c with mapSize := mapSize, map := none, hasMap := true }

/-- The check casts the coordinates to `int`; the access does not. -/
def applyTileUpdate? (c : Client) (payload : TileUpdatePayload) : Option Client :=
  if payload.x.toInt32.toInt < c.mapSize ∧ payload.y.toInt32.toInt < c.mapSize then
    match c.map with
    | none => some c
    | some t => (write? t payload.x.toNat payload.y.toNat (Tile.ofCode payload.tile.toNat)).map fun t =>
      { c with map := some t }
  else some c

/-! ## The other packets -/

def applyExplosion (c : Client) (payload : ExplosionPayload) : Client :=
  { c with
    explodes := (c.explodes.enqueue ⟨(payload.centerX,payload.centerY),
      fun i => (payload.spreadAmt i).toInt32.toInt⟩).1
    events := c.events ++ [.bombExploded payload.centerX payload.centerY] }

def applyGameOver (c : Client) (payload : GameOverPayload) : Client :=
  { c with
    gameOver := true
    winnerId := payload.winnerId
    events := if payload.winnerId != 0 && payload.winnerId == c.localId then c.events ++ [.matchWon] else c.events }

/-! ## Polling -/

/-- What `brclient_get_app_msg` leaves in the buffer. -/
structure AppMessage where
  bytes : Bytes
  sized : bytes.length = 2048

def freshState : StatePayload := ⟨0,fun _ => ⟨0,0,0,0,0,0,0,0,0⟩,0,fun _ => ⟨0,0,0⟩⟩
def freshMapInit : MapInitPayload := ⟨0,fun _ _ => 0⟩
def freshTileUpdate : TileUpdatePayload := ⟨0,0,0⟩

/-- One round of the loop; `memory` answers its calls of `malloc`. -/
def networkPoll? (c : Client) (memory : ℕ → Bool) (message : AppMessage) : Option Client :=
  (Protocol.readBombPacketTag message.bytes).bind fun tag =>
    if tag = BombPacketType.roster.code then (unpackRoster message.bytes ⟨0,fun _ => 0⟩).map c.applyRoster
    else if tag = BombPacketType.mapInit.code then
      (unpackMapInit message.bytes freshMapInit).bind (c.applyMapInit? memory)
    else if tag = BombPacketType.tileUpdate.code then
      (unpackTileUpdate message.bytes freshTileUpdate).bind c.applyTileUpdate?
    else if tag = BombPacketType.state.code then (unpackState message.bytes freshState).bind c.applyState?
    else if tag = BombPacketType.explosion.code then
      (unpackExplosion message.bytes ⟨0,0,fun _ => 0⟩).map c.applyExplosion
    else if tag = BombPacketType.gameOver.code then (unpackGameOver message.bytes ⟨0⟩).map c.applyGameOver
    else some c

end Client
end CoreStack.Bomberman
