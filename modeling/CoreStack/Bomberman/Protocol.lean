import CoreStack.BattleRoyale.Framing
import CoreStack.Bomberman.Packets
import CoreStack.Lib.Blocks
import CoreStack.Lib.Regions
import Mathlib.Data.List.OfFn

/-! # The eight packets (`protocol.c`)

A packet is a region of 512 bytes; every `memcpy` that would leave it fails. A float is
its 32-bit pattern, so `write_net_float` and `read_net_float` are `htonl` and `ntohl`.
-/
namespace CoreStack.Bomberman.Protocol
open BattleRoyale Region

def packetSize : ℕ := 512
def tagSize : ℕ := 4
def bombdMaxBombs : ℕ := 100
def bombdMaxMapDim : ℕ := 20
def statePacketMaxPlayers : UInt32 := 8
def statePacketMaxBombs : UInt32 := 16

inductive BombPacketType
  | move
  | bombPlace
  | roster
  | mapInit
  | tileUpdate
  | state
  | explosion
  | gameOver
  deriving DecidableEq, Repr

def BombPacketType.code : BombPacketType → UInt32
  | .move => 0
  | .bombPlace => 1
  | .roster => 2
  | .mapInit => 3
  | .tileUpdate => 4
  | .state => 5
  | .explosion => 6
  | .gameOver => 7

/-! ## Words -/

def encode (words : List UInt32) : Bytes := (words.map htonl).flatten

def word (net : Bytes) (i : ℕ) : UInt32 := ntohl (Blocks.block 4 i net)

theorem length_encode (words : List UInt32) : (encode words).length = 4 * words.length := by
  have hlen : ∀ b ∈ words.map htonl, b.length = 4 := by
    intro b hb
    obtain ⟨w,-,rfl⟩ := List.mem_map.mp hb
    exact length_htonl w
  rw [encode,Blocks.flatten_length hlen,List.length_map]

theorem word_encode {words : List UInt32} {i : ℕ} (h : i < words.length) : word (encode words) i = words[i] := by
  have hlen : ∀ b ∈ words.map htonl, b.length = 4 := by
    intro b hb
    obtain ⟨w,-,rfl⟩ := List.mem_map.mp hb
    exact length_htonl w
  rw [word,encode,Blocks.block_flatten hlen (by rwa [List.length_map]),List.getElem_map,ntohl_htonl]

/-! ## Packets of one struct -/

/-- The packet is cleared before the tag is written. -/
def writeTag (buffer : Bytes) (type : BombPacketType) : Option Bytes :=
  (store buffer 0 (List.replicate packetSize 0)).bind fun buffer => store buffer 0 (htonl type.code)

def readBombPacketTag (buffer : Bytes) : Option UInt32 := (load buffer 0 tagSize).map ntohl

def packStruct (type : BombPacketType) (buffer net : Bytes) : Option Bytes :=
  (writeTag buffer type).bind fun buffer => store buffer tagSize net

def unpackStruct {P : Type*} (size : ℕ) (read : Bytes → P) (buffer : Bytes) : Option P :=
  (load buffer tagSize size).map read

structure MovePayload where
  playerId : UInt32
  dx : Int32
  dy : Int32
  sprinting : UInt32
  deriving DecidableEq

def MovePayload.net (payload : MovePayload) : Bytes :=
  encode [payload.playerId,payload.dx.toUInt32,payload.dy.toUInt32,payload.sprinting]

def MovePayload.read (net : Bytes) : MovePayload :=
  ⟨word net 0,(word net 1).toInt32,(word net 2).toInt32,word net 3⟩

def packMove (buffer : Bytes) (payload : MovePayload) : Option Bytes := packStruct .move buffer payload.net

def unpackMove (buffer : Bytes) (_payload : MovePayload) : Option MovePayload :=
  unpackStruct 16 MovePayload.read buffer

structure BombPlacePayload where
  playerId : UInt32
  deriving DecidableEq

def BombPlacePayload.net (payload : BombPlacePayload) : Bytes := encode [payload.playerId]

def BombPlacePayload.read (net : Bytes) : BombPlacePayload := ⟨word net 0⟩

def packBombPlace (buffer : Bytes) (payload : BombPlacePayload) : Option Bytes :=
  packStruct .bombPlace buffer payload.net

def unpackBombPlace (buffer : Bytes) (_payload : BombPlacePayload) : Option BombPlacePayload :=
  unpackStruct 4 BombPlacePayload.read buffer

structure RosterPayload where
  count : UInt32
  ids : Fin bombdMaxPlayers → UInt32

def RosterPayload.net (payload : RosterPayload) : Bytes := encode (payload.count :: List.ofFn payload.ids)

def RosterPayload.read (net : Bytes) : RosterPayload := ⟨word net 0,fun i => word net (1 + i)⟩

def packRoster (buffer : Bytes) (payload : RosterPayload) : Option Bytes := packStruct .roster buffer payload.net

def unpackRoster (buffer : Bytes) (_payload : RosterPayload) : Option RosterPayload :=
  unpackStruct 104 RosterPayload.read buffer

/-- The tiles are single bytes, row by row. -/
structure MapInitPayload where
  mapSize : UInt32
  tiles : Fin bombdMaxMapDim → Fin bombdMaxMapDim → UInt8

def MapInitPayload.net (payload : MapInitPayload) : Bytes :=
  htonl payload.mapSize ++ (List.ofFn fun i => List.ofFn (payload.tiles i)).flatten

def MapInitPayload.read (net : Bytes) : MapInitPayload :=
  ⟨word net 0,fun i j => (Blocks.block bombdMaxMapDim i (net.drop 4)).getD j 0⟩

def packMapInit (buffer : Bytes) (payload : MapInitPayload) : Option Bytes := packStruct .mapInit buffer payload.net

def unpackMapInit (buffer : Bytes) (_payload : MapInitPayload) : Option MapInitPayload :=
  unpackStruct 404 MapInitPayload.read buffer

structure TileUpdatePayload where
  x : UInt32
  y : UInt32
  tile : UInt32
  deriving DecidableEq

def TileUpdatePayload.net (payload : TileUpdatePayload) : Bytes := encode [payload.x,payload.y,payload.tile]

def TileUpdatePayload.read (net : Bytes) : TileUpdatePayload := ⟨word net 0,word net 1,word net 2⟩

def packTileUpdate (buffer : Bytes) (payload : TileUpdatePayload) : Option Bytes :=
  packStruct .tileUpdate buffer payload.net

def unpackTileUpdate (buffer : Bytes) (_payload : TileUpdatePayload) : Option TileUpdatePayload :=
  unpackStruct 12 TileUpdatePayload.read buffer

structure ExplosionPayload where
  centerX : UInt32
  centerY : UInt32
  spreadAmt : Fin 4 → UInt32

def ExplosionPayload.net (payload : ExplosionPayload) : Bytes :=
  encode (payload.centerX :: payload.centerY :: List.ofFn payload.spreadAmt)

def ExplosionPayload.read (net : Bytes) : ExplosionPayload := ⟨word net 0,word net 1,fun i => word net (2 + i)⟩

def packExplosion (buffer : Bytes) (payload : ExplosionPayload) : Option Bytes :=
  packStruct .explosion buffer payload.net

def unpackExplosion (buffer : Bytes) (_payload : ExplosionPayload) : Option ExplosionPayload :=
  unpackStruct 24 ExplosionPayload.read buffer

structure GameOverPayload where
  winnerId : UInt32
  deriving DecidableEq

def GameOverPayload.net (payload : GameOverPayload) : Bytes := encode [payload.winnerId]

def GameOverPayload.read (net : Bytes) : GameOverPayload := ⟨word net 0⟩

def packGameOver (buffer : Bytes) (payload : GameOverPayload) : Option Bytes :=
  packStruct .gameOver buffer payload.net

def unpackGameOver (buffer : Bytes) (_payload : GameOverPayload) : Option GameOverPayload :=
  unpackStruct 4 GameOverPayload.read buffer

/-! ## The state packet -/

structure PlayerStateEntry where
  playerId : UInt32
  x : UInt32
  y : UInt32
  direction : UInt32
  isMoving : UInt32
  alive : UInt32
  numBombs : UInt32
  remainingBombs : UInt32
  numFires : UInt32
  deriving DecidableEq

def PlayerStateEntry.net (e : PlayerStateEntry) : Bytes :=
  encode [e.playerId,e.x,e.y,e.direction,e.isMoving,e.alive,e.numBombs,e.remainingBombs,e.numFires]

def PlayerStateEntry.read (net : Bytes) : PlayerStateEntry :=
  ⟨word net 0,word net 1,word net 2,word net 3,word net 4,word net 5,word net 6,word net 7,word net 8⟩

structure BombStateEntry where
  x : UInt32
  y : UInt32
  timer : UInt32
  deriving DecidableEq

def BombStateEntry.net (e : BombStateEntry) : Bytes := encode [e.x,e.y,e.timer]

def BombStateEntry.read (net : Bytes) : BombStateEntry := ⟨word net 0,word net 1,word net 2⟩

structure StatePayload where
  playerCount : UInt32
  players : Fin bombdMaxPlayers → PlayerStateEntry
  bombCount : UInt32
  bombs : Fin bombdMaxBombs → BombStateEntry

def clampCount (limit count : UInt32) : UInt32 := if limit < count then limit else count

def packState (buffer : Bytes) (payload : StatePayload) : Option Bytes :=
  let playerCount := clampCount statePacketMaxPlayers payload.playerCount
  let bombCount := clampCount statePacketMaxBombs payload.bombCount
  (writeTag buffer .state).bind fun buffer =>
  (store buffer tagSize (htonl playerCount)).bind fun buffer =>
  (storeRecords PlayerStateEntry.net payload.players playerCount.toNat 0 (buffer,tagSize + 4)).bind fun (buffer,out) =>
  (store buffer out (htonl bombCount)).bind fun buffer =>
  (storeRecords BombStateEntry.net payload.bombs bombCount.toNat 0 (buffer,out + 4)).map (·.1)

/-- The place of the second count depends on the first one. -/
def unpackState (buffer : Bytes) (payload : StatePayload) : Option StatePayload :=
  (load buffer tagSize 4).bind fun net =>
  let playerCount := clampCount statePacketMaxPlayers (ntohl net)
  (loadRecords PlayerStateEntry.read 36 buffer playerCount.toNat 0 (payload.players,tagSize + 4)).bind
    fun (players,inp) =>
  (load buffer inp 4).bind fun net =>
  let bombCount := clampCount statePacketMaxBombs (ntohl net)
  (loadRecords BombStateEntry.read 12 buffer bombCount.toNat 0 (payload.bombs,inp + 4)).map fun (bombs,_) =>
    ⟨playerCount,players,bombCount,bombs⟩

/-! ## Round trips -/

/-- Packing stays inside the packet and tags it; unpacking the packet over an old payload
gives what the receiver sees; unpacking any packet stays inside the packet and the payload. -/
structure RoundTrips {P : Type*} (type : BombPacketType) (pack : Bytes → P → Option Bytes)
    (unpack : Bytes → P → Option P) (seen : P → P → P) : Prop where
  pack : ∀ buffer payload, buffer.length = packetSize → ∃ packet, pack buffer payload = some packet ∧
    packet.length = packetSize ∧ readBombPacketTag packet = some type.code ∧
    ∀ old, unpack packet old = some (seen payload old)
  unpack : ∀ buffer old, buffer.length = packetSize → ∃ payload, unpack buffer old = some payload

theorem writeTag_eq {buffer : Bytes} (h : buffer.length = packetSize) (type : BombPacketType) :
    writeTag buffer type = some (htonl type.code ++ List.replicate (packetSize - tagSize) 0) := by
  have hclear : store buffer 0 (List.replicate packetSize 0) = some (List.replicate packetSize 0) := by
    have hfit : (List.replicate packetSize (0 : UInt8)).length ≤ buffer.length := by rw [List.length_replicate,h]
    have hstore := store_append [] hfit
    rw [List.length_replicate,← h,List.drop_length,List.append_nil,h] at hstore
    exact hstore
  have hfit : (htonl type.code).length ≤ (List.replicate packetSize (0 : UInt8)).length := by
    rw [List.length_replicate,length_htonl]
    decide
  have htag := store_append [] hfit
  rw [List.drop_replicate] at htag
  rw [writeTag,hclear,Option.bind_some]
  exact htag

theorem readBombPacketTag_eq (tag : UInt32) (rest : Bytes) : readBombPacketTag (htonl tag ++ rest) = some tag := by
  have h := load_append [] (htonl tag) rest
  rw [readBombPacketTag]
  change (load ([] ++ (htonl tag ++ rest)) ([] : Bytes).length (htonl tag).length).map ntohl = some tag
  rw [h,Option.map_some,ntohl_htonl]

def framed (type : BombPacketType) (net : Bytes) : Bytes :=
  htonl type.code ++ (net ++ (List.replicate (packetSize - tagSize) 0).drop net.length)

theorem length_framed (type : BombPacketType) {net : Bytes} (h : net.length ≤ packetSize - tagSize) :
    (framed type net).length = packetSize := by
  simp only [framed,List.length_append,List.length_drop,List.length_replicate,length_htonl,packetSize,tagSize] at h ⊢
  omega

section Struct
variable {P : Type*} {size : ℕ} {net : P → Bytes} {read : Bytes → P}

theorem packStruct_eq {buffer net : Bytes} (hbuffer : buffer.length = packetSize) (type : BombPacketType)
    (h : net.length ≤ packetSize - tagSize) : packStruct type buffer net = some (framed type net) := by
  rw [packStruct,writeTag_eq hbuffer,Option.bind_some]
  exact store_append (htonl type.code) (by rw [List.length_replicate]; exact h)

theorem unpackStruct_framed (type : BombPacketType) (net : Bytes) (read : Bytes → P) :
    unpackStruct net.length read (framed type net) = some (read net) := by
  have hload := load_append (htonl type.code) net ((List.replicate (packetSize - tagSize) 0).drop net.length)
  rw [unpackStruct]
  exact congrArg (Option.map read) hload

theorem struct_roundTrips (type : BombPacketType) (hlen : ∀ p, (net p).length = size)
    (hsize : size ≤ packetSize - tagSize) (hround : ∀ p, read (net p) = p) :
    RoundTrips type (fun buffer p => packStruct type buffer (net p)) (fun buffer _ => unpackStruct size read buffer)
      (fun p _ => p) := by
  constructor
  · intro buffer p hbuffer
    have hfit : (net p).length ≤ packetSize - tagSize := (hlen p).trans_le hsize
    refine ⟨framed type (net p),packStruct_eq hbuffer type hfit,length_framed type hfit,readBombPacketTag_eq _ _,
      fun _ => ?_⟩
    have hunpack := unpackStruct_framed type (net p) read
    rw [hlen,hround] at hunpack
    exact hunpack
  · intro buffer _ hbuffer
    have hfit : tagSize + size ≤ buffer.length := by
      rw [hbuffer]
      unfold packetSize tagSize at *
      omega
    obtain ⟨data,hdata⟩ := load_isSome hfit
    exact ⟨read data,congrArg (Option.map read) hdata⟩

end Struct

theorem move_round (p : MovePayload) : MovePayload.read p.net = p := by
  cases p
  simp [MovePayload.read,MovePayload.net,word_encode]

theorem bombPlace_round (p : BombPlacePayload) : BombPlacePayload.read p.net = p := by
  cases p
  simp [BombPlacePayload.read,BombPlacePayload.net,word_encode]

theorem roster_round (p : RosterPayload) : RosterPayload.read p.net = p := by
  obtain ⟨count,ids⟩ := p
  have hword : ∀ i : Fin bombdMaxPlayers, word (RosterPayload.net ⟨count,ids⟩) (1 + i) = ids i := by
    intro i
    rw [RosterPayload.net,word_encode (by simp; omega)]
    simp [Nat.add_comm 1]
  rw [RosterPayload.read,funext hword]
  simp [RosterPayload.net,word_encode]

theorem mapInit_round (p : MapInitPayload) : MapInitPayload.read p.net = p := by
  obtain ⟨mapSize,tiles⟩ := p
  have hrows : ∀ b ∈ List.ofFn fun i => List.ofFn (tiles i), b.length = bombdMaxMapDim := by
    intro b hb
    obtain ⟨i,rfl⟩ := List.mem_ofFn.mp hb
    exact List.length_ofFn
  have hdrop : (MapInitPayload.net ⟨mapSize,tiles⟩).drop 4 = (List.ofFn fun i => List.ofFn (tiles i)).flatten :=
    List.drop_left' (length_htonl mapSize)
  have hsize : word (MapInitPayload.net ⟨mapSize,tiles⟩) 0 = mapSize := by
    have hblock : Blocks.block 4 0 (MapInitPayload.net ⟨mapSize,tiles⟩) = htonl mapSize := by
      rw [Blocks.block,Nat.mul_zero,List.drop_zero]
      exact List.take_left' (length_htonl mapSize)
    rw [word,hblock,ntohl_htonl]
  rw [MapInitPayload.read,hsize,hdrop]
  congr 1
  funext i j
  rw [Blocks.block_flatten hrows (by rw [List.length_ofFn]; exact i.isLt),List.getElem_ofFn]
  simp [List.getD_eq_getElem?_getD]

theorem length_roster (p : RosterPayload) : p.net.length = 104 := by
  rw [RosterPayload.net,length_encode,List.length_cons,List.length_ofFn]
  rfl

theorem length_mapInit (p : MapInitPayload) : p.net.length = 404 := by
  have hrows : ∀ b ∈ List.ofFn fun i => List.ofFn (p.tiles i), b.length = bombdMaxMapDim := by
    intro b hb
    obtain ⟨i,rfl⟩ := List.mem_ofFn.mp hb
    exact List.length_ofFn
  rw [MapInitPayload.net,List.length_append,Blocks.flatten_length hrows,List.length_ofFn,length_htonl]
  rfl

theorem length_explosion (p : ExplosionPayload) : p.net.length = 24 := by
  rw [ExplosionPayload.net,length_encode,List.length_cons,List.length_cons,List.length_ofFn]

theorem length_tileUpdate (p : TileUpdatePayload) : p.net.length = 12 := by
  rw [TileUpdatePayload.net,length_encode]
  rfl

theorem length_gameOver (p : GameOverPayload) : p.net.length = 4 := by
  rw [GameOverPayload.net,length_encode]
  rfl

theorem tileUpdate_round (p : TileUpdatePayload) : TileUpdatePayload.read p.net = p := by
  cases p
  simp [TileUpdatePayload.read,TileUpdatePayload.net,word_encode]

theorem explosion_round (p : ExplosionPayload) : ExplosionPayload.read p.net = p := by
  obtain ⟨x,y,spreadAmt⟩ := p
  have hword : ∀ i : Fin 4, word (ExplosionPayload.net ⟨x,y,spreadAmt⟩) (2 + i) = spreadAmt i := by
    intro i
    rw [ExplosionPayload.net,word_encode (by simp; omega)]
    simp only [Nat.add_comm 2,List.getElem_cons_succ,List.getElem_ofFn]
  rw [ExplosionPayload.read,funext hword]
  simp [ExplosionPayload.net,word_encode]

theorem gameOver_round (p : GameOverPayload) : GameOverPayload.read p.net = p := by
  cases p
  simp [GameOverPayload.read,GameOverPayload.net,word_encode]

theorem playerState_round (e : PlayerStateEntry) : PlayerStateEntry.read e.net = e := by
  cases e
  simp [PlayerStateEntry.read,PlayerStateEntry.net,word_encode]

theorem bombState_round (e : BombStateEntry) : BombStateEntry.read e.net = e := by
  cases e
  simp [BombStateEntry.read,BombStateEntry.net,word_encode]

/-! ## The state packet goes round -/

theorem length_playerState (e : PlayerStateEntry) : e.net.length = 36 := length_encode _

theorem length_bombState (e : BombStateEntry) : e.net.length = 12 := length_encode _

theorem clampCount_le (limit count : UInt32) : (clampCount limit count).toNat ≤ limit.toNat := by
  unfold clampCount
  split
  · exact le_rfl
  · next h => exact UInt32.le_iff_toNat_le.mp (UInt32.not_lt.mp h)

theorem clampCount_clampCount (limit count : UInt32) :
    clampCount limit (clampCount limit count) = clampCount limit count := by
  have h : ¬limit < clampCount limit count := by
    rw [UInt32.not_lt,UInt32.le_iff_toNat_le]
    exact clampCount_le limit count
  rw [clampCount,if_neg h]

/-- The payload as the receiver sees it: the counts cut to the limits, that many entries of
the sender's arrays and the rest of the receiver's own. -/
def StatePayload.seen (payload old : StatePayload) : StatePayload :=
  let playerCount := clampCount statePacketMaxPlayers payload.playerCount
  let bombCount := clampCount statePacketMaxBombs payload.bombCount
  { playerCount := playerCount
    players := fun i => if i < playerCount.toNat then payload.players i else old.players i
    bombCount := bombCount
    bombs := fun i => if i < bombCount.toNat then payload.bombs i else old.bombs i }

section State
variable (payload : StatePayload)

def StatePayload.playerNet : Bytes :=
  records PlayerStateEntry.net payload.players (clampCount statePacketMaxPlayers payload.playerCount).toNat 0

def StatePayload.bombNet : Bytes :=
  records BombStateEntry.net payload.bombs (clampCount statePacketMaxBombs payload.bombCount).toNat 0

/-- Everything behind the tag. -/
def StatePayload.net : Bytes :=
  htonl (clampCount statePacketMaxPlayers payload.playerCount) ++ (payload.playerNet ++
    (htonl (clampCount statePacketMaxBombs payload.bombCount) ++ payload.bombNet))

theorem players_le : (clampCount statePacketMaxPlayers payload.playerCount).toNat ≤ 8 := clampCount_le _ _

theorem bombs_le : (clampCount statePacketMaxBombs payload.bombCount).toNat ≤ 16 := clampCount_le _ _

theorem length_playerNet :
    payload.playerNet.length = (clampCount statePacketMaxPlayers payload.playerCount).toNat * 36 := by
  have h := players_le payload
  exact length_records length_playerState (by unfold bombdMaxPlayers; omega)

theorem length_bombNet :
    payload.bombNet.length = (clampCount statePacketMaxBombs payload.bombCount).toNat * 12 := by
  have h := bombs_le payload
  exact length_records length_bombState (by unfold bombdMaxBombs; omega)

theorem length_stateNet : payload.net.length ≤ packetSize - tagSize := by
  have hplayers := players_le payload
  have hbombs := bombs_le payload
  simp only [StatePayload.net,List.length_append,length_htonl,length_playerNet,length_bombNet,packetSize,tagSize]
  omega

theorem packState_eq {buffer : Bytes} (h : buffer.length = packetSize) :
    packState buffer payload = some (framed .state payload.net) := by
  have hplayers := players_le payload
  have hbombs := bombs_le payload
  have hp := length_playerNet payload
  have hb := length_bombNet payload
  have hnet : framed .state payload.net = htonl BombPacketType.state.code ++
      htonl (clampCount statePacketMaxPlayers payload.playerCount) ++ payload.playerNet ++
      htonl (clampCount statePacketMaxBombs payload.bombCount) ++ payload.bombNet ++
      (List.replicate (packetSize - tagSize) 0).drop payload.net.length := by
    simp only [framed,StatePayload.net,List.append_assoc]
  have hlen : payload.net.length = 4 + ((clampCount statePacketMaxPlayers payload.playerCount).toNat * 36 +
      (4 + (clampCount statePacketMaxBombs payload.bombCount).toNat * 12)) := by
    simp only [StatePayload.net,List.length_append,length_htonl,hp,hb]
  have htag : tagSize = (htonl BombPacketType.state.code).length := rfl
  have hcounted : tagSize + 4 = (htonl BombPacketType.state.code ++
      htonl (clampCount statePacketMaxPlayers payload.playerCount)).length := rfl
  have hpacked : (htonl BombPacketType.state.code ++ htonl (clampCount statePacketMaxPlayers payload.playerCount) ++
      payload.playerNet).length = tagSize + 4 + (clampCount statePacketMaxPlayers payload.playerCount).toNat * 36 := by
    simp only [List.length_append,length_htonl,hp,tagSize]
  have hroom : (List.replicate (packetSize - tagSize) (0 : UInt8)).length = 508 := List.length_replicate
  rw [hnet,hlen]
  unfold packState
  dsimp only
  rw [writeTag_eq h,Option.bind_some,store_eq _ rfl htag (by rw [hroom,length_htonl]; omega),Option.bind_some,
    length_htonl,storeRecords_eq length_playerState (by unfold bombdMaxPlayers; omega) _ rfl hcounted
      (by rw [List.length_drop,hroom]; omega),Option.bind_some]
  dsimp only
  rw [← StatePayload.playerNet,store_eq _ rfl hpacked.symm (by
      rw [List.length_drop,List.length_drop,hroom,length_htonl]
      omega),Option.bind_some,length_htonl,
    storeRecords_eq length_bombState (by unfold bombdMaxBombs; omega) _ rfl (by
      rw [List.length_append,hpacked,length_htonl]) (by
      rw [List.length_drop,List.length_drop,List.length_drop,hroom]
      omega),Option.map_some,List.drop_drop,List.drop_drop,List.drop_drop]
  rfl

theorem unpackState_framed (old : StatePayload) :
    unpackState (framed .state payload.net) old = some (payload.seen old) := by
  have hplayers := players_le payload
  have hbombs := bombs_le payload
  have hp := length_playerNet payload
  have hframed : framed .state payload.net = htonl BombPacketType.state.code ++
      (htonl (clampCount statePacketMaxPlayers payload.playerCount) ++ (payload.playerNet ++
        (htonl (clampCount statePacketMaxBombs payload.bombCount) ++ (payload.bombNet ++
          (List.replicate (packetSize - tagSize) 0).drop payload.net.length)))) := by
    simp only [framed,StatePayload.net,List.append_assoc]
  rw [hframed]
  unfold unpackState
  have htag : tagSize = (htonl BombPacketType.state.code).length := rfl
  have hcounted : tagSize + 4 = (htonl BombPacketType.state.code ++
      htonl (clampCount statePacketMaxPlayers payload.playerCount)).length := rfl
  have hword : 4 = (htonl (clampCount statePacketMaxPlayers payload.playerCount)).length := rfl
  have hword' : 4 = (htonl (clampCount statePacketMaxBombs payload.bombCount)).length := rfl
  have hplayerNet : payload.playerNet = records PlayerStateEntry.net payload.players
      (clampCount statePacketMaxPlayers payload.playerCount).toNat 0 := rfl
  have hbombNet : payload.bombNet = records BombStateEntry.net payload.bombs
      (clampCount statePacketMaxBombs payload.bombCount).toNat 0 := rfl
  rw [load_eq _ _ rfl htag hword,Option.bind_some]
  dsimp only
  rw [ntohl_htonl,clampCount_clampCount,
    loadRecords_eq length_playerState playerState_round old.players (by unfold bombdMaxPlayers; omega)
      (htonl BombPacketType.state.code ++ htonl (clampCount statePacketMaxPlayers payload.playerCount))
      hplayerNet (List.append_assoc _ _ _).symm hcounted,Option.bind_some]
  dsimp only
  rw [load_eq (htonl BombPacketType.state.code ++ (htonl (clampCount statePacketMaxPlayers payload.playerCount) ++
        payload.playerNet)) (htonl (clampCount statePacketMaxBombs payload.bombCount))
      (by rw [List.append_assoc,List.append_assoc]) (by
        simp only [List.length_append,length_htonl,hp,tagSize]
        omega) hword',Option.bind_some]
  rw [ntohl_htonl,clampCount_clampCount,
    loadRecords_eq length_bombState bombState_round old.bombs (by unfold bombdMaxBombs; omega)
      (htonl BombPacketType.state.code ++ (htonl (clampCount statePacketMaxPlayers payload.playerCount) ++
        (payload.playerNet ++ htonl (clampCount statePacketMaxBombs payload.bombCount))))
      hbombNet (by rw [List.append_assoc,List.append_assoc,List.append_assoc]) (by
        simp only [List.length_append,length_htonl,hp,tagSize]
        omega),Option.map_some]
  rfl

end State

/-- The counts of any packet are cut before they are used, so all reads lie inside. -/
theorem unpackState_isSome {buffer : Bytes} (h : packetSize ≤ buffer.length) (old : StatePayload) :
    ∃ payload, unpackState buffer old = some payload := by
  have hcount : tagSize + 4 ≤ buffer.length := Nat.le_trans (by decide) h
  obtain ⟨net,hnet⟩ := load_isSome hcount
  have hplayers : (clampCount statePacketMaxPlayers (ntohl net)).toNat ≤ 8 := clampCount_le _ _
  generalize hn : (clampCount statePacketMaxPlayers (ntohl net)).toNat = n at hplayers
  have hfirst : tagSize + 4 + n * 36 ≤ buffer.length := by
    unfold packetSize at h
    unfold tagSize
    omega
  have hsecond : tagSize + 4 + n * 36 + 4 ≤ buffer.length := by
    unfold packetSize at h
    unfold tagSize
    omega
  obtain ⟨players,hloaded⟩ := loadRecords_isSome PlayerStateEntry.read old.players (i := 0)
    (by unfold bombdMaxPlayers; omega) hfirst
  obtain ⟨net',hnet'⟩ := load_isSome hsecond
  have hbombs : (clampCount statePacketMaxBombs (ntohl net')).toNat ≤ 16 := clampCount_le _ _
  have hthird : tagSize + 4 + n * 36 + 4 + (clampCount statePacketMaxBombs (ntohl net')).toNat * 12 ≤ buffer.length := by
    unfold packetSize at h
    unfold tagSize
    omega
  obtain ⟨bombs,hbombed⟩ := loadRecords_isSome BombStateEntry.read old.bombs (i := 0)
    (by unfold bombdMaxBombs; omega) hthird
  refine ⟨⟨clampCount statePacketMaxPlayers (ntohl net),players,clampCount statePacketMaxBombs (ntohl net'),bombs⟩,?_⟩
  unfold unpackState
  rw [hnet,Option.bind_some]
  dsimp only
  rw [hn,hloaded,Option.bind_some]
  dsimp only
  rw [hnet',Option.bind_some,hbombed,Option.map_some]

theorem unpackState_extend {buffer : Bytes} {old payload : StatePayload} (h : unpackState buffer old = some payload)
    (rest : Bytes) : unpackState (buffer ++ rest) old = some payload := by
  obtain ⟨net,hnet,h⟩ := Option.bind_eq_some_iff.mp h
  obtain ⟨⟨players,inp⟩,hplayers,h⟩ := Option.bind_eq_some_iff.mp h
  obtain ⟨net',hnet',h⟩ := Option.bind_eq_some_iff.mp h
  obtain ⟨bombs,hbombs,rfl⟩ := Option.map_eq_some_iff.mp h
  unfold unpackState
  rw [load_extend hnet,Option.bind_some]
  dsimp only
  rw [loadRecords_extend rest hplayers,Option.bind_some]
  dsimp only
  rw [load_extend hnet',Option.bind_some,loadRecords_extend rest hbombs,Option.map_some]

theorem state_roundTrips : RoundTrips .state packState unpackState StatePayload.seen := by
  constructor
  · intro buffer payload hbuffer
    exact ⟨framed .state payload.net,packState_eq payload hbuffer,length_framed _ (length_stateNet payload),
      readBombPacketTag_eq _ _,unpackState_framed payload⟩
  · intro buffer old hbuffer
    exact unpackState_isSome (Nat.le_of_eq hbuffer.symm) old

theorem toInt_toInt32 (w : UInt32) : w.toInt32.toInt = toInt32 w.toNat := by
  have h : w.toInt32.toInt = w.toBitVec.toInt := rfl
  rw [h,BitVec.toInt_eq_toNat_cond,toInt32]
  have hw := w.toNat_lt
  have hb : w.toBitVec.toNat = w.toNat := rfl
  rw [hb]
  split <;> split <;> omega

/-! ## All of them -/

/-- All eight kinds of packets go round inside 512 bytes, and no packet makes the receiver
read or write outside of the packet and the payload. -/
theorem packets_round_trip :
    RoundTrips .move packMove unpackMove (fun p _ => p) ∧
    RoundTrips .bombPlace packBombPlace unpackBombPlace (fun p _ => p) ∧
    RoundTrips .roster packRoster unpackRoster (fun p _ => p) ∧
    RoundTrips .mapInit packMapInit unpackMapInit (fun p _ => p) ∧
    RoundTrips .tileUpdate packTileUpdate unpackTileUpdate (fun p _ => p) ∧
    RoundTrips .state packState unpackState StatePayload.seen ∧
    RoundTrips .explosion packExplosion unpackExplosion (fun p _ => p) ∧
    RoundTrips .gameOver packGameOver unpackGameOver (fun p _ => p) := by
  refine ⟨?_,?_,?_,?_,?_,state_roundTrips,?_,?_⟩
  · exact struct_roundTrips .move (fun _ => length_encode _) (by decide) move_round
  · exact struct_roundTrips .bombPlace (fun _ => length_encode _) (by decide) bombPlace_round
  · exact struct_roundTrips .roster length_roster (by decide) roster_round
  · exact struct_roundTrips .mapInit length_mapInit (by decide) mapInit_round
  · exact struct_roundTrips .tileUpdate (fun _ => length_encode _) (by decide) tileUpdate_round
  · exact struct_roundTrips .explosion length_explosion (by decide) explosion_round
  · exact struct_roundTrips .gameOver (fun _ => length_encode _) (by decide) gameOver_round

end CoreStack.Bomberman.Protocol
