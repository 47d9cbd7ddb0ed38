import CoreStack.Bomberman.Protocol
import CoreStack.Bomberman.Walls

/-! # The map on the clients (`main.c` of bombd, `network.c` of bombapp)

The server sends the map once and then the tiles that differ from its snapshot of what
it has sent. The packet, the snapshot and the loop that compares have a fixed dimension.
-/
namespace CoreStack.Bomberman
open BattleRoyale Protocol

def Tile.code : Tile → UInt8
  | .empty => 0
  | .player => 1
  | .bomb => 2
  | .explosion => 3
  | .powerupFire => 4
  | .powerupBomb => 5
  | .breakable => 6
  | .wall => 7

/-- The cast to `TileType`; `none` is a value the enumeration does not name. -/
def Tile.ofCode : ℕ → Option Tile
  | 0 => some .empty
  | 1 => some .player
  | 2 => some .bomb
  | 3 => some .explosion
  | 4 => some .powerupFire
  | 5 => some .powerupBomb
  | 6 => some .breakable
  | 7 => some .wall
  | _ => none

theorem Tile.ofCode_code (tile : Tile) : ofCode tile.code.toNat = some tile := by
  cases tile <;> rfl

/-! ## The server -/

/-- `prev_map`. Only the cells below `BOMBD_MAX_MAP_DIM` are used. -/
abbrev Snapshot := ℕ × ℕ → UInt8

/-- `shown` is a history variable: the map at the last `diff_and_broadcast_map`. -/
structure Server where
  bombd : Bombd
  prevMap : Snapshot
  sent : List Bytes
  shown : Grid

def sendBuffer : Bytes := List.replicate packetSize 0

def sentCells (mapSize : ℕ) : List (ℕ × ℕ) :=
  (List.range (min mapSize bombdMaxMapDim)).flatMap fun i => (List.range (min mapSize bombdMaxMapDim)).map (i,·)

def broadcastTileUpdate (sent : List Bytes) (x y : ℕ) (tile : UInt8) : List Bytes :=
  sent ++ (packTileUpdate sendBuffer ⟨UInt32.ofNat x,UInt32.ofNat y,tile.toUInt32⟩).toList

def diffTile (map : Grid) (r : Snapshot × List Bytes) (cell : ℕ × ℕ) : Snapshot × List Bytes :=
  let current := (map cell.1 cell.2).code
  if current = r.1 cell then r
  else (Function.update r.1 cell current,broadcastTileUpdate r.2 cell.1 cell.2 current)

def diffAndBroadcastMap (s : Server) : Server :=
  let map := s.bombd.world.map
  let r := (sentCells s.bombd.world.mapSize).foldl (diffTile map) (s.prevMap,s.sent)
  { s with prevMap := r.1, sent := r.2, shown := map }

/-- A tile of the arrays that are cleared and then filled from the map. -/
def firstTile (w : World) (i j : ℕ) : UInt8 := if i < w.mapSize ∧ j < w.mapSize then (w.map i j).code else 0

def mapInit (w : World) : MapInitPayload := ⟨UInt32.ofNat w.mapSize,fun i j => firstTile w i j⟩

def Server.init [Arithmetic] (draws : ℕ → ℕ) (clientIds : List ℕ) : Server where
  bombd := initSession draws clientIds
  prevMap cell := firstTile (initSession draws clientIds).world cell.1 cell.2
  sent := (packMapInit sendBuffer (mapInit (initSession draws clientIds).world)).toList
  shown := (initSession draws clientIds).world.map

/-- Step (3) of the tick loop follows every tick. -/
def Server.step [Arithmetic] (normalize : Vector2 → Vector2) (s : Server) (input : BombInput) : Option Server :=
  (Bombd.step normalize s.bombd input).map fun bombd =>
    match input with
    | .tick _ => diffAndBroadcastMap { s with bombd := bombd }
    | _ => { s with bombd := bombd }

/-! ## The client -/

/-- `none` for the map is the null pointer. -/
structure ClientMap where
  mapSize : ℤ
  map : Option (ℕ → ℕ → Option Tile)

def applyMapInit (payload : MapInitPayload) : ClientMap where
  mapSize := payload.mapSize.toInt32.toInt
  map := some fun i j =>
    if h : i < bombdMaxMapDim ∧ j < bombdMaxMapDim then Tile.ofCode (payload.tiles ⟨i,h.1⟩ ⟨j,h.2⟩).toNat
    else some .empty

/-- The check casts the coordinates to `int`; the access does not. -/
def applyTileUpdate (m : ClientMap) (payload : TileUpdatePayload) : ClientMap :=
  match m.map with
  | none => m
  | some map =>
    if payload.x.toInt32.toInt < m.mapSize ∧ payload.y.toInt32.toInt < m.mapSize then
      { m with map := some fun i j =>
          if i = payload.x.toNat ∧ j = payload.y.toNat then Tile.ofCode payload.tile.toNat else map i j }
    else m

/-- One packet of `network_poll`; the others leave the map alone. -/
def networkPoll (m : ClientMap) (buffer : Bytes) : ClientMap :=
  match Protocol.readBombPacketTag buffer with
  | none => m
  | some tag =>
    if tag = BombPacketType.mapInit.code then
      ((unpackMapInit buffer ⟨0,fun _ _ => 0⟩).map applyMapInit).getD m
    else if tag = BombPacketType.tileUpdate.code then
      ((unpackTileUpdate buffer ⟨0,0,0⟩).map (applyTileUpdate m)).getD m
    else m

/-- The client has the size of the server's map and all its tiles as of the last diff. -/
def Server.MirroredBy (s : Server) (m : ClientMap) : Prop :=
  m.mapSize = s.bombd.world.mapSize ∧ ∃ map, m.map = some map ∧
    ∀ i j : ℕ, i < s.bombd.world.mapSize → j < s.bombd.world.mapSize → map i j = some (s.shown i j)

/-! ## One packet -/

theorem length_sendBuffer : sendBuffer.length = packetSize := List.length_replicate

theorem networkPoll_mapInit (m : ClientMap) (payload : MapInitPayload) :
    (packMapInit sendBuffer payload).toList.foldl networkPoll m = applyMapInit payload := by
  have hfit : payload.net.length ≤ packetSize - tagSize := by
    rw [length_mapInit]
    decide
  have hunpack := unpackStruct_framed .mapInit payload.net MapInitPayload.read
  rw [length_mapInit,mapInit_round] at hunpack
  rw [packMapInit,packStruct_eq length_sendBuffer .mapInit hfit,Option.toList_some,List.foldl_cons,List.foldl_nil,
    networkPoll,framed,readBombPacketTag_eq]
  dsimp only
  rw [if_pos rfl]
  change ((unpackStruct 404 MapInitPayload.read (framed .mapInit payload.net)).map applyMapInit).getD m = _
  rw [hunpack]
  rfl

theorem networkPoll_tileUpdate (m : ClientMap) (payload : TileUpdatePayload) :
    (packTileUpdate sendBuffer payload).toList.foldl networkPoll m = applyTileUpdate m payload := by
  have hlen : payload.net.length = 12 := length_encode _
  have hfit : payload.net.length ≤ packetSize - tagSize := by
    rw [hlen]
    decide
  have hunpack := unpackStruct_framed .tileUpdate payload.net TileUpdatePayload.read
  rw [hlen,tileUpdate_round] at hunpack
  rw [packTileUpdate,packStruct_eq length_sendBuffer .tileUpdate hfit,Option.toList_some,List.foldl_cons,
    List.foldl_nil,networkPoll,framed,readBombPacketTag_eq]
  dsimp only
  rw [if_neg (by decide),if_pos rfl]
  change ((unpackStruct 12 TileUpdatePayload.read (framed .tileUpdate payload.net)).map (applyTileUpdate m)).getD m = _
  rw [hunpack]
  rfl

/-! ## The client follows the snapshot -/

/-- The client shows the snapshot where there is one, and empty tiles beyond. -/
structure Follows (mapSize : ℕ) (prevMap : Snapshot) (m : ClientMap) : Prop where
  mapSize : m.mapSize = mapSize
  tiles : ∃ map, m.map = some map ∧
    (∀ i j, i < bombdMaxMapDim → j < bombdMaxMapDim → map i j = Tile.ofCode (prevMap (i,j)).toNat) ∧
    ∀ i j, bombdMaxMapDim ≤ i → map i j = some .empty

theorem toInt_ofNat {n : ℕ} (h : n < 2147483648) : (UInt32.ofNat n).toInt32.toInt = n := by
  rw [toInt_toInt32,UInt32.toNat_ofNat',toInt32]
  have hmod : n % 2 ^ 32 = n := Nat.mod_eq_of_lt (by omega)
  rw [hmod]
  exact if_pos h

theorem applyMapInit_follows {w : World} (h : w.mapSize < 2147483648) :
    Follows w.mapSize (fun cell => firstTile w cell.1 cell.2) (applyMapInit (mapInit w)) := by
  refine ⟨toInt_ofNat h,_,rfl,fun i j hi hj => ?_,fun i j hi => ?_⟩
  · exact dif_pos ⟨hi,hj⟩
  · exact dif_neg fun hin => Nat.not_lt.mpr hi hin.1

/-- One cell of the loop: whatever is sent brings the client to the new snapshot. -/
theorem diffTile_follows {mapSize : ℕ} (hsize : mapSize < 2147483648) (map : Grid) {cell : ℕ × ℕ}
    (hcell : cell.1 < min mapSize bombdMaxMapDim ∧ cell.2 < min mapSize bombdMaxMapDim) {m : ClientMap}
    {r : Snapshot × List Bytes} (h : Follows mapSize r.1 (r.2.foldl networkPoll m)) :
    Follows mapSize (diffTile map r cell).1 ((diffTile map r cell).2.foldl networkPoll m) := by
  obtain ⟨x,y⟩ := cell
  dsimp only at hcell
  unfold diffTile
  dsimp only
  split
  · exact h
  · obtain ⟨hms,tiles,htiles,hnear,hfar⟩ := h
    have hx : x < 2147483648 := by omega
    have hy : y < 2147483648 := by omega
    have hxn : (UInt32.ofNat x).toNat = x := by
      rw [UInt32.toNat_ofNat']
      omega
    have hyn : (UInt32.ofNat y).toNat = y := by
      rw [UInt32.toNat_ofNat']
      omega
    unfold broadcastTileUpdate
    rw [List.foldl_append,networkPoll_tileUpdate,applyTileUpdate,htiles]
    dsimp only
    rw [toInt_ofNat hx,toInt_ofNat hy,hms,if_pos (by omega)]
    refine ⟨rfl,_,rfl,fun i j hi hj => ?_,fun i j hi => ?_⟩
    · rw [hxn,hyn,Function.update_apply]
      by_cases hcell : i = x ∧ j = y
      · rw [if_pos hcell,if_pos (Prod.ext hcell.1 hcell.2),UInt8.toNat_toUInt32]
      · rw [if_neg hcell,if_neg (fun heq => hcell (Prod.mk.inj heq))]
        exact hnear i j hi hj
    · rw [hxn,if_neg (fun heq => by omega)]
      exact hfar i j hi

theorem mem_sentCells {mapSize : ℕ} {cell : ℕ × ℕ} :
    cell ∈ sentCells mapSize ↔ cell.1 < min mapSize bombdMaxMapDim ∧ cell.2 < min mapSize bombdMaxMapDim := by
  unfold sentCells
  simp only [List.mem_flatMap,List.mem_map,List.mem_range]
  constructor
  · rintro ⟨i,hi,j,hj,rfl⟩
    exact ⟨hi,hj⟩
  · rintro ⟨hi,hj⟩
    exact ⟨cell.1,hi,cell.2,hj,rfl⟩

theorem diffTiles_snapshot (map : Grid) (cells : List (ℕ × ℕ)) (r : Snapshot × List Bytes) (cell : ℕ × ℕ) :
    (cells.foldl (diffTile map) r).1 cell = if cell ∈ cells then (map cell.1 cell.2).code else r.1 cell := by
  induction cells generalizing r with
  | nil => rfl
  | cons c cells ih =>
    have hfirst : (diffTile map r c).1 cell = if cell = c then (map cell.1 cell.2).code else r.1 cell := by
      unfold diffTile
      dsimp only
      split
      · next heq =>
        split
        · next hc =>
          rw [hc]
          exact heq.symm
        · rfl
      · dsimp only
        rw [Function.update_apply]
        split
        · next hc => rw [hc]
        · rfl
    rw [List.foldl_cons,ih,hfirst]
    by_cases hc : cell = c
    · simp [hc]
    · simp [hc]

theorem diffTiles_follows {mapSize : ℕ} (hsize : mapSize < 2147483648) (map : Grid) (cells : List (ℕ × ℕ))
    (hcells : ∀ cell ∈ cells, cell ∈ sentCells mapSize) {m : ClientMap} {r : Snapshot × List Bytes}
    (h : Follows mapSize r.1 (r.2.foldl networkPoll m)) :
    Follows mapSize (cells.foldl (diffTile map) r).1 ((cells.foldl (diffTile map) r).2.foldl networkPoll m) := by
  induction cells generalizing r with
  | nil => exact h
  | cons c cells ih =>
    apply ih (fun cell hcell => hcells cell (List.mem_cons_of_mem c hcell))
    exact diffTile_follows hsize map (mem_sentCells.mp (hcells c List.mem_cons_self)) h

/-! ## Runs -/

/-- What holds between a server and a client that has applied all it sent. -/
structure Server.Synced (base : World) (clientMap : ClientMap) (s : Server) : Prop where
  confined : Confined base (fun c => base.at c ≠ .wall) s.bombd.world
  follows : Follows base.mapSize s.prevMap (s.sent.foldl networkPoll clientMap)
  snapshot : ∀ cell, cell ∈ sentCells base.mapSize → s.prevMap cell = (s.shown cell.1 cell.2).code
  walls : ∀ c : ℤ × ℤ, base.at c = .wall → s.shown c.1 c.2 = .wall

theorem Server.Synced.bombd {base : World} {clientMap : ClientMap} {s : Server} (h : s.Synced base clientMap) {bombd : Bombd}
    (hb : Confined base (fun c => base.at c ≠ .wall) bombd.world) : Server.Synced base clientMap { s with bombd := bombd } :=
  ⟨hb,h.follows,h.snapshot,h.walls⟩

theorem diffAndBroadcastMap_synced {base : World} (hsize : base.mapSize < 2147483648) {clientMap : ClientMap} {s : Server}
    (h : s.Synced base clientMap) : (diffAndBroadcastMap s).Synced base clientMap := by
  have hcells : sentCells s.bombd.world.mapSize = sentCells base.mapSize := by rw [h.confined.walls.mapSize]
  refine ⟨h.confined,?_,fun cell hcell => ?_,fun c hc => (h.confined.walls.walls c).mpr hc⟩
  · unfold diffAndBroadcastMap
    dsimp only
    rw [hcells]
    exact diffTiles_follows hsize _ _ (fun _ hcell => hcell) h.follows
  · unfold diffAndBroadcastMap
    dsimp only
    rw [hcells,diffTiles_snapshot,if_pos hcell]

theorem serverInit_synced [Arithmetic] (draws : ℕ → ℕ) (clientIds : List ℕ) (clientMap : ClientMap)
    (hsize : (initSession draws clientIds).world.mapSize < 2147483648) :
    (Server.init draws clientIds).Synced (initSession draws clientIds).world clientMap := by
  have hconfined := initSession_confined draws clientIds fun c => (initSession draws clientIds).world.at c ≠ .wall
  unfold Server.init
  generalize initSession draws clientIds = bombd at hsize hconfined
  constructor
  · exact hconfined
  · dsimp only
    rw [networkPoll_mapInit]
    exact applyMapInit_follows hsize
  · intro cell hcell
    obtain ⟨hi,hj⟩ := mem_sentCells.mp hcell
    exact if_pos ⟨Nat.lt_of_lt_of_le hi (Nat.min_le_left _ _),Nat.lt_of_lt_of_le hj (Nat.min_le_left _ _)⟩
  · exact fun _ hc => hc

theorem serverStep_synced [Arithmetic] {normalize : Vector2 → Vector2} {base : World} (hsize : base.mapSize < 2147483648)
    {clientMap : ClientMap} (s : Server) (input : BombInput) (t : Server) (h : s.Synced base clientMap)
    (ht : Server.step normalize s input = some t) : t.Synced base clientMap := by
  obtain ⟨bombd,hb,rfl⟩ := Option.map_eq_some_iff.mp ht
  have hconfined := step_confined s.bombd input bombd h.confined hb
  cases input with
  | tick deltaTime => exact diffAndBroadcastMap_synced hsize (h.bombd hconfined)
  | move playerId dx dy sprinting => exact h.bombd hconfined
  | place playerId => exact h.bombd hconfined
  | disconnect playerId => exact h.bombd hconfined

theorem mapSize_fits [Arithmetic] (draws : ℕ → ℕ) {clientIds : List ℕ} (hmax : clientIds.length ≤ bombdMaxPlayers) :
    (initSession draws clientIds).world.mapSize ≤ bombdMaxMapDim ↔ clientIds.length ≤ 12 := by
  have hle := calcMapSize_le (m := 18) (by decide) clientIds.length
  rw [initSession_mapSize,Nat.min_eq_left hmax]
  unfold bombdMaxMapDim
  omega

theorem mapSize_small [Arithmetic] (draws : ℕ → ℕ) (clientIds : List ℕ) :
    (initSession draws clientIds).world.mapSize < 2147483648 := by
  have hle := (calcMapSize_le (m := 25) (by decide) (min clientIds.length bombdMaxPlayers)).mpr (by
    unfold bombdMaxPlayers
    omega)
  rw [initSession_mapSize]
  omega

/-- Beyond the dimension of the packet the border is wall on the server and empty on the client. -/
theorem Server.Synced.mirrored_iff [Arithmetic] {draws : ℕ → ℕ} {clientIds : List ℕ} {clientMap : ClientMap} {s : Server}
    (h : s.Synced (initSession draws clientIds).world clientMap) :
    s.MirroredBy (s.sent.foldl networkPoll clientMap) ↔ (initSession draws clientIds).world.mapSize ≤ bombdMaxMapDim := by
  obtain ⟨hms,tiles,htiles,hnear,hfar⟩ := h.follows
  have hsame := h.confined.walls.mapSize
  constructor
  · rintro ⟨-,tiles',htiles',hall⟩
    obtain rfl : tiles' = tiles := Option.some.inj (htiles'.symm.trans htiles)
    by_contra hlarge
    have hborder := h.walls (20,0) (initSession_border draws clientIds (Or.inr (Or.inl rfl)))
    have hclient := hall 20 0 (by rw [hsame]; unfold bombdMaxMapDim at hlarge; omega)
      (by rw [hsame]; unfold bombdMaxMapDim at hlarge; omega)
    rw [hfar 20 0 (Nat.le_refl 20)] at hclient
    cases Option.some.inj (hclient.trans (congrArg some hborder))
  · intro hfit
    refine ⟨hms.trans (by rw [hsame]),tiles,htiles,fun i j hi hj => ?_⟩
    rw [hsame] at hi hj
    have hcell : (i,j) ∈ sentCells (initSession draws clientIds).world.mapSize := by
      rw [mem_sentCells,Nat.min_eq_left hfit]
      exact ⟨hi,hj⟩
    rw [hnear i j (hi.trans_le hfit) (hj.trans_le hfit),h.snapshot (i,j) hcell,Tile.ofCode_code]

/-- In every run a client that has applied all packets shows the map of the last diff
exactly when the arena fits into the packet: with at most twelve players. -/
theorem mirrored_iff_twelve [Arithmetic] (normalize : Vector2 → Vector2) (draws : ℕ → ℕ) {clientIds : List ℕ}
    (hmax : clientIds.length ≤ bombdMaxPlayers) (clientMap : ClientMap) {inputs : List BombInput} {s : Server}
    (hrun : Execution.run (Server.step normalize) (Server.init draws clientIds) inputs = some s) :
    s.MirroredBy (s.sent.foldl networkPoll clientMap) ↔ clientIds.length ≤ 12 := by
  have hsize := mapSize_small draws clientIds
  have h := Execution.run_invariant (I := Server.Synced (initSession draws clientIds).world clientMap)
    (serverStep_synced hsize) hrun (serverInit_synced draws clientIds clientMap hsize)
  rw [← mapSize_fits draws hmax]
  exact h.mirrored_iff

attribute [local instance] Arithmetic.binary32

/-- Two players, and a bomb that is on the map when the tick ends. -/
theorem mirrored_iff_twelve_bomb : ∃ s, Execution.run (Server.step id) (Server.init (fun _ => 0) [1,2])
      [.place 1,.tick (1 / 2)] = some s ∧ s.sent.length = 2 ∧
    (s.MirroredBy (s.sent.foldl networkPoll ⟨0,none⟩) ↔ [1,2].length ≤ 12) := by
  obtain ⟨s,hs,hsent⟩ := Execution.exists_of_run_any (Server.step id) (Server.init (fun _ => 0) [1,2])
    [.place 1,.tick (1 / 2)] (fun s => decide (s.sent.length = 2)) (by decide +kernel)
  exact ⟨s,hs,of_decide_eq_true hsent,mirrored_iff_twelve id (fun _ => 0) (by decide) ⟨0,none⟩ hs⟩

/-- Thirteen players: the first packet already misses the last row and column of the arena. -/
theorem large_arena_cut :
    ¬ ∀ (normalize : Vector2 → Vector2) (draws : ℕ → ℕ) (clientIds : List ℕ), 1 ≤ clientIds.length →
      clientIds.length ≤ bombdMaxPlayers → ∀ (clientMap : ClientMap) (inputs : List BombInput) (s : Server),
      Execution.run (Server.step normalize) (Server.init draws clientIds) inputs = some s →
      s.MirroredBy (s.sent.foldl networkPoll clientMap) := by
  intro h
  have hmirrored := h id (fun _ => 0) (List.range 13) (by decide) (by decide) ⟨0,none⟩ [] _ rfl
  have hsynced := serverInit_synced (fun _ => 0) (List.range 13) ⟨0,none⟩ (mapSize_small _ _)
  have hfit : (List.range 13).length ≤ 12 := (mapSize_fits (fun _ => 0) (by decide)).mp (hsynced.mirrored_iff.mp hmirrored)
  exact absurd hfit (by decide)

end CoreStack.Bomberman
