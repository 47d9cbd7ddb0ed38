import CoreStack.Bomberman.ClientPackets

/-! # Which packets a client survives

Of all packets only tile updates with a coordinate that is negative as an `int`, and maps
the system has no memory for, take `network_poll` out of its arrays.
-/
namespace CoreStack.Bomberman
open BattleRoyale Checked Protocol Region Tables Utils
namespace Client

/-! ## Players -/

/-- A slot is an index of the tables, or all of them are taken. -/
theorem findOrAddSlot_range (c : Client) (playerId : UInt32) :
    (∃ slot : Fin bombdMaxPlayers, (c.findOrAddSlot playerId).2 = slot.val) ∨ (c.findOrAddSlot playerId).2 = -1 := by
  unfold findOrAddSlot
  split
  · next i _ => exact Or.inl ⟨i,rfl⟩
  · split
    · next i _ => exact Or.inl ⟨i,rfl⟩
    · exact Or.inr rfl

theorem findOrAddSlot_map (c : Client) (playerId : UInt32) :
    (c.findOrAddSlot playerId).1.map = c.map ∧ (c.findOrAddSlot playerId).1.mapSize = c.mapSize := by
  unfold findOrAddSlot
  split
  · exact ⟨rfl,rfl⟩
  · split <;> exact ⟨rfl,rfl⟩

theorem applyRoster_map (c : Client) (roster : RosterPayload) :
    (c.applyRoster roster).map = c.map ∧ (c.applyRoster roster).mapSize = c.mapSize := by
  unfold applyRoster
  induction List.finRange bombdMaxPlayers generalizing c with
  | nil => exact ⟨rfl,rfl⟩
  | cons i l ih =>
    rw [List.foldl_cons]
    split
    · obtain ⟨hmap,hsize⟩ := ih (c.findOrAddSlot (roster.ids i)).1
      exact ⟨hmap.trans (c.findOrAddSlot_map _).1,hsize.trans (c.findOrAddSlot_map _).2⟩
    · exact ih c

theorem applyEntry?_map (c : Client) (entry : PlayerStateEntry) :
    ∃ d, c.applyEntry? entry = some d ∧ d.map = c.map ∧ d.mapSize = c.mapSize := by
  have hkept := c.findOrAddSlot_map entry.playerId
  unfold applyEntry?
  dsimp only
  rcases c.findOrAddSlot_range entry.playerId with ⟨slot,hslot⟩ | hnone
  · rw [hslot,if_neg (Int.not_lt.mpr (Int.natCast_nonneg _)),cell?_natCast slot.isLt]
    exact ⟨_,rfl,hkept⟩
  · rw [hnone,if_pos (by decide)]
    exact ⟨_,rfl,hkept⟩

theorem applyState?_map (c : Client) (payload : StatePayload) :
    ∃ d, c.applyState? payload = some d ∧ d.map = c.map ∧ d.mapSize = c.mapSize := by
  unfold applyState?
  have hloop : ∀ l : List (Fin bombdMaxPlayers), ∃ d, l.foldlM (fun c i =>
      if i.val < payload.playerCount.toNat then c.applyEntry? (payload.players i) else some c) c = some d ∧
      d.map = c.map ∧ d.mapSize = c.mapSize := by
    intro l
    induction l generalizing c with
    | nil => exact ⟨c,rfl,rfl,rfl⟩
    | cons i l ih =>
      rw [List.foldlM_cons]
      split
      · obtain ⟨d,hd,hmap,hsize⟩ := c.applyEntry?_map (payload.players i)
        obtain ⟨e,he,hmap',hsize'⟩ := ih d
        exact ⟨e,by rw [hd]; exact he,hmap'.trans hmap,hsize'.trans hsize⟩
      · exact ih c
  obtain ⟨d,hd,hkept⟩ := hloop (List.finRange bombdMaxPlayers)
  rw [hd]
  exact ⟨_,rfl,hkept⟩

/-! ## The map -/

/-- A map that is allocated is a square of the size the client goes by. -/
structure Sound (c : Client) : Prop where
  small : c.mapSize < 2147483648
  square : ∀ t, c.map = some t → 0 ≤ c.mapSize ∧ Square c.mapSize.toNat t

theorem sound_of_eq {c d : Client} (h : c.Sound) (hmap : d.map = c.map) (hsize : d.mapSize = c.mapSize) : d.Sound where
  small := by rw [hsize]; exact h.small
  square := by
    rw [hmap,hsize]
    exact h.square

theorem sound_start (localId : UInt32) (tiles : ℕ → ℕ → Tile) : (start localId tiles).Sound where
  small := by
    have hsize : calcMapSize 10 ≤ 16 := (calcMapSize_le (by decide) 10).mpr (by decide)
    show ((calcMapSize 10 + 2 : ℕ) : ℤ) < 2147483648
    omega
  square := by
    rintro t ht
    cases ht
    exact ⟨Int.natCast_nonneg (calcMapSize 10 + 2),square_filled _ fun i j => some (tiles i j)⟩

theorem mapFree?_eq {c : Client} (h : c.Sound) : c.mapFree? = some { c with map := none } := by
  unfold mapFree?
  cases hmap : c.map with
  | none =>
    cases c
    simp_all
  | some t =>
    obtain ⟨hpos,hsquare⟩ := h.square t hmap
    dsimp only
    rw [if_pos (by rw [hsquare.length]; omega)]

/-- The pointers and the rows of a map are small enough for `malloc`. -/
theorem allocates_nonneg {n : ℤ} {unit : ℕ} (hn : 0 ≤ n) (hlt : n < 2147483648) (hunit : unit ≤ 8) (granted : Bool) :
    allocates granted (sizeT n unit) = granted := by
  have hmod : n % 18446744073709551616 = n := Int.emod_eq_of_lt hn (by omega)
  have hmul : n.toNat * unit ≤ 2147483648 * 8 := Nat.mul_le_mul (by omega) hunit
  have hsize : sizeT n unit ≤ 9223372036854775807 := by
    rw [sizeT,hmod]
    exact (Nat.mod_le _ _).trans (by omega)
  rw [allocates,decide_eq_true hsize,Bool.and_true]

theorem allocates_neg {n : ℤ} (hn : n < 0) (hge : -2147483648 ≤ n) (granted : Bool) :
    allocates granted (sizeT n 8) = false := by
  have hsize : ¬sizeT n 8 ≤ 9223372036854775807 := by
    rw [sizeT]
    omega
  rw [allocates,decide_eq_false hsize,Bool.and_false]

section Fill
variable {memory : ℕ → Bool} {mapSize : ℤ} (payload : MapInitPayload)

theorem fillRow?_eq (hpos : 0 ≤ mapSize) (hlt : mapSize < 2147483648) {t : Table (Option Tile)} {i : ℕ}
    (hi : i < t.length) (hn : 0 < mapSize.toNat) :
    fillRow? memory mapSize payload t i =
      if memory (i + 1) then some (t.set i (some ((List.range mapSize.toNat).map (initTile payload i)))) else none := by
  unfold fillRow?
  rw [allocates_nonneg hpos hlt (by decide),setRow?,if_pos hi,Option.bind_some]
  cases memory (i + 1) with
  | true =>
    have hrow := List.getElem?_set_self (a := some (List.replicate mapSize.toNat (none : Option Tile))) hi
    rw [if_pos rfl,foldlM_write (initTile payload i) hrow (by rw [List.length_replicate]),List.set_set]
    simp
  | false =>
    have hrow := List.getElem?_set_self (a := (none : Option (List (Option Tile)))) hi
    rw [if_neg Bool.false_ne_true,foldlM_write_null (initTile payload i) hrow hn]
    rfl

/-- After `k` rounds `k` rows are filled, unless one of them was refused. -/
theorem fillRows_eq (hpos : 0 ≤ mapSize) (hlt : mapSize < 2147483648) {k : ℕ} (hk : k ≤ mapSize.toNat) :
    (List.range k).foldlM (fillRow? memory mapSize payload) (List.replicate mapSize.toNat none) =
      if (List.range k).all fun i => memory (i + 1) then
        some ((List.range k).map (fun i => some ((List.range mapSize.toNat).map (initTile payload i))) ++
          List.replicate (mapSize.toNat - k) none)
      else none := by
  induction k with
  | zero => rfl
  | succ k ih =>
    rw [List.range_succ,List.foldlM_append,ih (by omega),List.all_append]
    cases (List.range k).all fun i => memory (i + 1) with
    | false => rfl
    | true =>
      have hlen : k < ((List.range k).map (fun i => some ((List.range mapSize.toNat).map (initTile payload i))) ++
          List.replicate (mapSize.toNat - k) none).length := by
        simp only [List.length_append,List.length_map,List.length_range,List.length_replicate]
        omega
      have hrest : mapSize.toNat - k = (mapSize.toNat - (k + 1)) + 1 := by omega
      have hset : ((List.range k).map (fun i => some ((List.range mapSize.toNat).map (initTile payload i))) ++
          List.replicate (mapSize.toNat - k) none).set k (some ((List.range mapSize.toNat).map (initTile payload k))) =
          (List.range k ++ [k]).map (fun i => some ((List.range mapSize.toNat).map (initTile payload i))) ++
            List.replicate (mapSize.toNat - (k + 1)) none := by
        rw [List.set_append_right _ _ (by simp),List.length_map,List.length_range,Nat.sub_self,hrest,
          List.replicate_succ,List.set_cons_zero,List.map_append,List.append_assoc]
        rfl
      have hlast : [k].all (fun i => memory (i + 1)) = memory (k + 1) := Bool.and_true _
      rw [if_pos rfl,Option.bind_eq_bind,Option.bind_some,List.foldlM_cons,
        fillRow?_eq payload hpos hlt hlen (by omega),hset,hlast]
      cases memory (k + 1) <;> rfl

end Fill

theorem applyMapInit?_isSome {c : Client} (h : c.Sound) (memory : ℕ → Bool) (payload : MapInitPayload) :
    (∃ d, c.applyMapInit? memory payload = some d) ↔
      (0 < payload.mapSize.toInt32.toInt →
        memory 0 = true ∧ ∀ i : ℕ, i < payload.mapSize.toInt32.toInt → memory (i + 1) = true) := by
  have hlt := payload.mapSize.toInt32.toInt_lt
  have hge := payload.mapSize.toInt32.le_toInt
  unfold applyMapInit?
  rw [mapFree?_eq h,Option.bind_some]
  dsimp only
  generalize payload.mapSize.toInt32.toInt = n at hlt hge ⊢
  rcases Int.lt_or_le n 0 with hneg | hpos
  · rw [allocates_neg hneg hge,if_neg Bool.false_ne_true,if_neg (by omega)]
    exact ⟨fun _ hn => absurd hn (by omega),fun _ => ⟨_,rfl⟩⟩
  · rw [allocates_nonneg hpos hlt (by decide),fillRows_eq payload hpos hlt (Nat.le_refl _)]
    cases hfirst : memory 0 with
    | false =>
      rw [if_neg Bool.false_ne_true]
      split
      · next hn => simp [hn]
      · next hn => exact ⟨fun _ hlt => absurd hlt hn,fun _ => ⟨_,rfl⟩⟩
    | true =>
      have hall : (List.range n.toNat).all (fun i => memory (i + 1)) = true ↔
          ∀ i : ℕ, i < n → memory (i + 1) = true := by
        rw [List.all_eq_true]
        refine forall_congr' fun i => ?_
        rw [List.mem_range,Int.lt_toNat]
      rw [if_pos rfl]
      by_cases hn : 0 < n
      · by_cases hrows : (List.range n.toNat).all (fun i => memory (i + 1)) = true
        · rw [if_pos hrows]
          exact ⟨fun _ _ => ⟨rfl,hall.mp hrows⟩,fun _ => ⟨_,rfl⟩⟩
        · rw [if_neg hrows,Option.map_none]
          constructor
          · rintro ⟨d,hd⟩
            cases hd
          · intro hmeets
            exact absurd (hall.mpr (hmeets hn).2) hrows
      · have hzero : n.toNat = 0 := by omega
        rw [hzero]
        exact ⟨fun _ hlt => absurd hlt hn,fun _ => ⟨_,rfl⟩⟩

/-- A map leaves its size, and no tiles or a square with those of the packet. -/
theorem applyMapInit?_cases {c d : Client} (h : c.Sound) {memory : ℕ → Bool} {payload : MapInitPayload}
    (hd : c.applyMapInit? memory payload = some d) :
    d.mapSize = payload.mapSize.toInt32.toInt ∧
    (d.map = none ∨ 0 ≤ d.mapSize ∧ d.map = some ((List.range d.mapSize.toNat).map fun i =>
      some ((List.range d.mapSize.toNat).map (initTile payload i)))) := by
  have hlt := payload.mapSize.toInt32.toInt_lt
  have hge := payload.mapSize.toInt32.le_toInt
  unfold applyMapInit? at hd
  rw [mapFree?_eq h,Option.bind_some] at hd
  dsimp only at hd
  generalize payload.mapSize.toInt32.toInt = n at hlt hge hd ⊢
  rcases Int.lt_or_le n 0 with hneg | hpos
  · rw [allocates_neg hneg hge,if_neg Bool.false_ne_true,if_neg (by omega)] at hd
    cases hd
    exact ⟨rfl,Or.inl rfl⟩
  · rw [fillRows_eq payload hpos hlt (Nat.le_refl _)] at hd
    split at hd
    · split at hd
      · cases hd
        refine ⟨rfl,Or.inr ⟨hpos,?_⟩⟩
        rw [Nat.sub_self,List.replicate_zero,List.append_nil]
      · cases hd
    · split at hd
      · cases hd
      · cases hd
        exact ⟨rfl,Or.inl rfl⟩

theorem applyMapInit?_sound {c d : Client} (h : c.Sound) {memory : ℕ → Bool} {payload : MapInitPayload}
    (hd : c.applyMapInit? memory payload = some d) : d.Sound := by
  obtain ⟨hsize,hmap⟩ := applyMapInit?_cases h hd
  refine ⟨hsize ▸ payload.mapSize.toInt32.toInt_lt,fun t ht => ?_⟩
  rcases hmap with hmap | ⟨hpos,hmap⟩
  · rw [hmap] at ht
    cases ht
  · rw [hmap,Option.some_inj] at ht
    subst ht
    exact ⟨hpos,square_filled _ (initTile payload)⟩

/-- A coordinate below the size as an `int` is an index, unless it is negative as one. -/
theorem toNat_lt_iff {x : UInt32} {n : ℤ} (hx : x.toInt32.toInt < n) (hn : 0 ≤ n) (hlt : n < 2147483648) :
    x.toNat < n.toNat ↔ x.toNat < 2147483648 := by
  rw [toInt_toInt32,toInt32] at hx
  split at hx <;> omega

theorem applyTileUpdate?_isSome {c : Client} (h : c.Sound) (payload : TileUpdatePayload) :
    (∃ d, c.applyTileUpdate? payload = some d) ↔
      (c.map.isSome = true → payload.x.toInt32.toInt < c.mapSize → payload.y.toInt32.toInt < c.mapSize →
        payload.x.toNat < 2147483648 ∧ payload.y.toNat < 2147483648) := by
  unfold applyTileUpdate?
  split
  · next hin =>
    cases hmap : c.map with
    | none =>
      dsimp only
      exact ⟨fun _ hsome => absurd hsome (by simp),fun _ => ⟨_,rfl⟩⟩
    | some t =>
      obtain ⟨hpos,hsquare⟩ := h.square t hmap
      have hwrite := hsquare.write_isSome payload.x.toNat payload.y.toNat (Tile.ofCode payload.tile.toNat)
      rw [toNat_lt_iff hin.1 hpos h.small,toNat_lt_iff hin.2 hpos h.small] at hwrite
      dsimp only
      rw [← Option.isSome_iff_exists,Option.isSome_map,Option.isSome_iff_exists,hwrite]
      exact ⟨fun hx _ _ _ => hx,fun hx => hx rfl hin.1 hin.2⟩
  · next hout => exact ⟨fun _ _ hx hy => absurd ⟨hx,hy⟩ hout,fun _ => ⟨_,rfl⟩⟩

theorem applyTileUpdate?_cases {c d : Client} {payload : TileUpdatePayload} (hd : c.applyTileUpdate? payload = some d) :
    (d = c ∧ (c.map = none ∨ ¬(payload.x.toInt32.toInt < c.mapSize ∧ payload.y.toInt32.toInt < c.mapSize))) ∨
    ∃ t t', (payload.x.toInt32.toInt < c.mapSize ∧ payload.y.toInt32.toInt < c.mapSize) ∧ c.map = some t ∧
      write? t payload.x.toNat payload.y.toNat (Tile.ofCode payload.tile.toNat) = some t' ∧
      d = { c with map := some t' } := by
  unfold applyTileUpdate? at hd
  split at hd
  · next hin =>
    cases hmap : c.map with
    | none =>
      rw [hmap] at hd
      cases hd
      exact Or.inl ⟨rfl,Or.inl rfl⟩
    | some t =>
      rw [hmap] at hd
      obtain ⟨t',ht,rfl⟩ := Option.map_eq_some_iff.mp hd
      exact Or.inr ⟨t,t',hin,rfl,ht,rfl⟩
  · next hout =>
    cases hd
    exact Or.inl ⟨rfl,Or.inr hout⟩

theorem applyTileUpdate?_sound {c d : Client} (h : c.Sound) {payload : TileUpdatePayload}
    (hd : c.applyTileUpdate? payload = some d) : d.Sound := by
  rcases applyTileUpdate?_cases hd with ⟨rfl,-⟩ | ⟨t,t',-,hmap,ht,rfl⟩
  · exact h
  · obtain ⟨hpos,hsquare⟩ := h.square t hmap
    obtain ⟨hx,hy⟩ := (hsquare.write_isSome _ _ _).mp ⟨t',ht⟩
    obtain ⟨t'',ht',hkept⟩ := hsquare.write hx hy (Tile.ofCode payload.tile.toNat)
    rw [ht,Option.some_inj] at ht'
    subst ht'
    refine ⟨h.small,?_⟩
    rintro u hu
    cases hu
    exact ⟨hpos,hkept⟩

/-! ## One packet -/

/-- The packet is no map without memory and no tile update, for a map that is there, with a
coordinate that passes the check only because the cast made it negative. -/
structure Meets (c : Client) (memory : ℕ → Bool) (message : AppMessage) : Prop where
  mapInit : ∀ payload, Protocol.readBombPacketTag message.bytes = some BombPacketType.mapInit.code →
    unpackMapInit message.bytes freshMapInit = some payload → 0 < payload.mapSize.toInt32.toInt →
      memory 0 = true ∧ ∀ i : ℕ, i < payload.mapSize.toInt32.toInt → memory (i + 1) = true
  tileUpdate : ∀ payload, Protocol.readBombPacketTag message.bytes = some BombPacketType.tileUpdate.code →
    unpackTileUpdate message.bytes freshTileUpdate = some payload → c.map.isSome = true →
      payload.x.toInt32.toInt < c.mapSize → payload.y.toInt32.toInt < c.mapSize →
        payload.x.toNat < 2147483648 ∧ payload.y.toNat < 2147483648

theorem meets_of_tag {c : Client} {memory : ℕ → Bool} {message : AppMessage} {tag : UInt32}
    (htag : Protocol.readBombPacketTag message.bytes = some tag) (hmap : tag ≠ BombPacketType.mapInit.code)
    (htile : tag ≠ BombPacketType.tileUpdate.code) : c.Meets memory message where
  mapInit := by
    intro _ h
    rw [htag,Option.some_inj] at h
    exact absurd h hmap
  tileUpdate := by
    intro _ h
    rw [htag,Option.some_inj] at h
    exact absurd h htile

theorem meets_mapInit_iff {c : Client} {memory : ℕ → Bool} {message : AppMessage} {payload : MapInitPayload}
    (htag : Protocol.readBombPacketTag message.bytes = some BombPacketType.mapInit.code)
    (hread : unpackMapInit message.bytes freshMapInit = some payload) :
    c.Meets memory message ↔ (0 < payload.mapSize.toInt32.toInt →
      memory 0 = true ∧ ∀ i : ℕ, i < payload.mapSize.toInt32.toInt → memory (i + 1) = true) := by
  refine ⟨fun hmeets => hmeets.mapInit payload htag hread,fun hgranted => ⟨?_,?_⟩⟩
  · intro payload' _ hread'
    rw [hread,Option.some_inj] at hread'
    exact hread' ▸ hgranted
  · intro _ htile
    rw [htag] at htile
    exact absurd htile (by decide)

theorem meets_tileUpdate_iff {c : Client} {memory : ℕ → Bool} {message : AppMessage} {payload : TileUpdatePayload}
    (htag : Protocol.readBombPacketTag message.bytes = some BombPacketType.tileUpdate.code)
    (hread : unpackTileUpdate message.bytes freshTileUpdate = some payload) :
    c.Meets memory message ↔ (c.map.isSome = true → payload.x.toInt32.toInt < c.mapSize →
      payload.y.toInt32.toInt < c.mapSize → payload.x.toNat < 2147483648 ∧ payload.y.toNat < 2147483648) := by
  refine ⟨fun hmeets => hmeets.tileUpdate payload htag hread,fun hinside => ⟨?_,?_⟩⟩
  · intro _ hmap
    rw [htag] at hmap
    exact absurd hmap (by decide)
  · intro payload' _ hread'
    rw [hread,Option.some_inj] at hread'
    exact hread' ▸ hinside

theorem unpackStruct_isSome {P : Type*} (size : ℕ) (read : Bytes → P) (message : AppMessage)
    (h : tagSize + size ≤ 2048) : ∃ payload, unpackStruct size read message.bytes = some payload := by
  obtain ⟨net,hnet⟩ := load_isSome (message.sized.symm ▸ h)
  exact ⟨read net,by rw [unpackStruct,hnet]; rfl⟩

theorem networkPoll?_isSome {c : Client} (h : c.Sound) (memory : ℕ → Bool) (message : AppMessage) :
    (∃ d, c.networkPoll? memory message = some d) ↔ c.Meets memory message := by
  have hfit : 0 + tagSize ≤ message.bytes.length := by rw [message.sized]; decide
  obtain ⟨net,hnet⟩ := load_isSome hfit
  have htag : Protocol.readBombPacketTag message.bytes = some (ntohl net) := by
    rw [Protocol.readBombPacketTag,hnet]
    rfl
  unfold networkPoll?
  rw [htag,Option.bind_some]
  generalize ntohl net = tag at htag
  split
  · next hroster =>
    obtain ⟨roster,hunpack⟩ := unpackStruct_isSome 104 RosterPayload.read message (by decide)
    refine ⟨fun _ => meets_of_tag htag (by rw [hroster]; decide) (by rw [hroster]; decide),fun _ => ?_⟩
    exact ⟨c.applyRoster roster,by rw [unpackRoster,hunpack]; rfl⟩
  · split
    · next hmapInit =>
      obtain ⟨payload,hunpack⟩ := unpackStruct_isSome 404 MapInitPayload.read message (by decide)
      have hread : unpackMapInit message.bytes freshMapInit = some payload := hunpack
      rw [hread,Option.bind_some,applyMapInit?_isSome h,meets_mapInit_iff (by rw [htag,hmapInit]) hread]
    · split
      · next htileUpdate =>
        obtain ⟨payload,hunpack⟩ := unpackStruct_isSome 12 TileUpdatePayload.read message (by decide)
        have hread : unpackTileUpdate message.bytes freshTileUpdate = some payload := hunpack
        rw [hread,Option.bind_some,applyTileUpdate?_isSome h,meets_tileUpdate_iff (by rw [htag,htileUpdate]) hread]
      · next hmap htile =>
        refine ⟨fun _ => meets_of_tag htag hmap htile,fun _ => ?_⟩
        split
        · have hpacket : packetSize ≤ message.bytes.length := by rw [message.sized]; decide
          obtain ⟨payload,hunpack⟩ := unpackState_isSome hpacket freshState
          obtain ⟨d,hd,-⟩ := c.applyState?_map payload
          exact ⟨d,by rw [hunpack]; exact hd⟩
        · split
          · obtain ⟨payload,hunpack⟩ := unpackStruct_isSome 24 ExplosionPayload.read message (by decide)
            exact ⟨c.applyExplosion payload,by rw [unpackExplosion,hunpack]; rfl⟩
          · split
            · obtain ⟨payload,hunpack⟩ := unpackStruct_isSome 4 GameOverPayload.read message (by decide)
              exact ⟨c.applyGameOver payload,by rw [unpackGameOver,hunpack]; rfl⟩
            · exact ⟨c,rfl⟩

theorem networkPoll?_cases {c d : Client} {memory : ℕ → Bool} {message : AppMessage}
    (hd : c.networkPoll? memory message = some d) :
    ∃ tag, Protocol.readBombPacketTag message.bytes = some tag ∧
      ((tag = BombPacketType.mapInit.code ∧ ∃ payload, unpackMapInit message.bytes freshMapInit = some payload ∧
        c.applyMapInit? memory payload = some d) ∨
      (tag = BombPacketType.tileUpdate.code ∧ ∃ payload, unpackTileUpdate message.bytes freshTileUpdate = some payload ∧
        c.applyTileUpdate? payload = some d) ∨
      (tag ≠ BombPacketType.mapInit.code ∧ tag ≠ BombPacketType.tileUpdate.code ∧
        d.map = c.map ∧ d.mapSize = c.mapSize)) := by
  unfold networkPoll? at hd
  obtain ⟨tag,htag,hd⟩ := Option.bind_eq_some_iff.mp hd
  refine ⟨tag,htag,?_⟩
  split at hd
  · next hroster =>
    obtain ⟨roster,-,rfl⟩ := Option.map_eq_some_iff.mp hd
    exact Or.inr (Or.inr ⟨by rw [hroster]; decide,by rw [hroster]; decide,c.applyRoster_map roster⟩)
  · split at hd
    · next hmapInit => exact Or.inl ⟨hmapInit,Option.bind_eq_some_iff.mp hd⟩
    · next hmapInit =>
      split at hd
      · next htileUpdate => exact Or.inr (Or.inl ⟨htileUpdate,Option.bind_eq_some_iff.mp hd⟩)
      · next htileUpdate =>
        refine Or.inr (Or.inr ⟨hmapInit,htileUpdate,?_⟩)
        split at hd
        · obtain ⟨payload,-,hd⟩ := Option.bind_eq_some_iff.mp hd
          obtain ⟨e,he,hkept⟩ := c.applyState?_map payload
          rw [hd,Option.some_inj] at he
          exact he ▸ hkept
        · split at hd
          · obtain ⟨payload,-,rfl⟩ := Option.map_eq_some_iff.mp hd
            exact ⟨rfl,rfl⟩
          · split at hd
            · obtain ⟨payload,-,rfl⟩ := Option.map_eq_some_iff.mp hd
              exact ⟨rfl,rfl⟩
            · cases hd
              exact ⟨rfl,rfl⟩

theorem networkPoll?_sound {c d : Client} (h : c.Sound) {memory : ℕ → Bool} {message : AppMessage}
    (hd : c.networkPoll? memory message = some d) : d.Sound := by
  obtain ⟨tag,-,⟨-,payload,-,hd⟩ | ⟨-,payload,-,hd⟩ | ⟨-,-,hmap,hsize⟩⟩ := networkPoll?_cases hd
  · exact applyMapInit?_sound h hd
  · exact applyTileUpdate?_sound h hd
  · exact sound_of_eq h hmap hsize

/-! ## Any packets in any order -/

def poll (c : Client) (received : (ℕ → Bool) × AppMessage) : Option Client := c.networkPoll? received.1 received.2

/-- The client stays inside its arrays exactly as long as every packet meets the condition. -/
theorem survives_iff (localId : UInt32) (tiles : ℕ → ℕ → Tile) (received : List ((ℕ → Bool) × AppMessage)) :
    (∃ c, Execution.run poll (start localId tiles) received = some c) ↔
      ∀ n c r, Execution.run poll (start localId tiles) (received.take n) = some c → received[n]? = some r →
        c.Meets r.1 r.2 :=
  Execution.defined_iff (I := Sound) (fun _ _ _ h hd => networkPoll?_sound h hd)
    (fun _ r h => networkPoll?_isSome h r.1 r.2) (sound_start localId tiles) received

def tileMessage (payload : TileUpdatePayload) : AppMessage where
  bytes := framed .tileUpdate payload.net ++ List.replicate 1536 0
  sized := by
    have hnet : payload.net.length = 12 := length_encode _
    rw [List.length_append,length_framed .tileUpdate (by rw [hnet]; decide),List.length_replicate]
    rfl

theorem tileMessage_tag (payload : TileUpdatePayload) :
    Protocol.readBombPacketTag (tileMessage payload).bytes = some BombPacketType.tileUpdate.code := by
  have hbytes : (tileMessage payload).bytes = framed .tileUpdate payload.net ++ List.replicate 1536 0 := rfl
  rw [hbytes,framed,List.append_assoc]
  exact readBombPacketTag_eq _ _

theorem tileMessage_read (payload : TileUpdatePayload) :
    unpackTileUpdate (tileMessage payload).bytes freshTileUpdate = some payload := by
  have hload := load_append (htonl BombPacketType.tileUpdate.code) payload.net
    ((List.replicate (packetSize - tagSize) 0).drop payload.net.length ++ List.replicate 1536 0)
  have hnet : payload.net.length = 12 := length_encode _
  have hbytes : (tileMessage payload).bytes = framed .tileUpdate payload.net ++ List.replicate 1536 0 := rfl
  rw [hnet,← List.append_assoc payload.net,← List.append_assoc] at hload
  rw [unpackTileUpdate,unpackStruct,hbytes,framed,hnet]
  exact (congrArg (Option.map TileUpdatePayload.read) hload).trans (congrArg some (tileUpdate_round payload))

/-- One tile update for row `0xFFFFFFFF` is written outside the starting map. -/
theorem wild_tile_update :
    ¬∀ (localId : UInt32) (tiles : ℕ → ℕ → Tile) (received : List ((ℕ → Bool) × AppMessage)),
      ∃ c, Execution.run poll (start localId tiles) received = some c := by
  intro h
  obtain ⟨c,hc⟩ := h 1 (fun _ _ => .empty) [(fun _ => true,tileMessage ⟨0xFFFFFFFF,0,5⟩)]
  obtain ⟨d,hd,-⟩ := Execution.run_cons.mp hc
  have hmeets := (networkPoll?_isSome (sound_start 1 _) _ _).mp ⟨d,hd⟩
  have hpos : (0 : ℤ) < ((calcMapSize 10 + 2 : ℕ) : ℤ) := Int.natCast_pos.mpr (Nat.succ_pos _)
  have hcast : (0xFFFFFFFF : UInt32).toInt32.toInt = -1 := by decide
  have hsmall := hmeets.tileUpdate _ (tileMessage_tag _) (tileMessage_read _) rfl
    (by rw [hcast]; exact Int.lt_trans (by decide) hpos) hpos
  exact absurd hsmall.1 (by decide)

/-! ## The map that is shown -/

/-- The memory holds the map of `m`. -/
def Shows (c : Client) (m : ClientMap) : Prop :=
  c.mapSize = m.mapSize ∧ ∀ t, c.map = some t → ∃ map, m.map = some map ∧
    ∀ i j : ℕ, i < c.mapSize → j < c.mapSize → read? t i j = some (map i j)

theorem applyMapInit_map (payload : MapInitPayload) : (applyMapInit payload).map = some (initTile payload) := by
  refine congrArg some (funext fun i => funext fun j => ?_)
  unfold initTile
  by_cases hi : i < bombdMaxMapDim
  · rw [dif_pos hi]
    by_cases hj : j < bombdMaxMapDim
    · rw [dif_pos hj,dif_pos ⟨hi,hj⟩]
    · rw [dif_neg hj,dif_neg fun hin => hj hin.2]
  · rw [dif_neg hi,dif_neg fun hin => hi hin.1]

theorem applyMapInit?_shows {c d : Client} (h : c.Sound) {memory : ℕ → Bool} {payload : MapInitPayload}
    (hd : c.applyMapInit? memory payload = some d) : d.Shows (applyMapInit payload) := by
  obtain ⟨hsize,hmap⟩ := applyMapInit?_cases h hd
  refine ⟨hsize,fun t ht => ⟨_,applyMapInit_map payload,fun i j hi hj => ?_⟩⟩
  rcases hmap with hmap | ⟨-,hmap⟩
  · rw [hmap] at ht
    cases ht
  · rw [hmap,Option.some_inj] at ht
    subst ht
    exact read_filled (initTile payload) (Int.lt_toNat.mpr hi) (Int.lt_toNat.mpr hj)

theorem applyTileUpdate?_shows {c d : Client} {m : ClientMap} (h : c.Shows m) {payload : TileUpdatePayload}
    (hd : c.applyTileUpdate? payload = some d) : d.Shows (applyTileUpdate m payload) := by
  obtain ⟨hsize,htiles⟩ := h
  have hkept : (applyTileUpdate m payload).mapSize = m.mapSize := by
    unfold applyTileUpdate
    split
    · rfl
    · split <;> rfl
  rcases applyTileUpdate?_cases hd with ⟨rfl,hnone | hout⟩ | ⟨t,t',hin,hmap,ht,rfl⟩
  · refine ⟨hsize.trans hkept.symm,fun t ht => ?_⟩
    rw [hnone] at ht
    cases ht
  · unfold applyTileUpdate
    split
    · exact ⟨hsize,htiles⟩
    · rw [← hsize,if_neg hout]
      exact ⟨hsize,htiles⟩
  · refine ⟨hsize.trans hkept.symm,?_⟩
    obtain ⟨map,hm,hread⟩ := htiles t hmap
    unfold applyTileUpdate
    rw [hm]
    dsimp only
    rw [← hsize,if_pos hin]
    rintro u hu
    cases hu
    refine ⟨_,rfl,fun i j hi hj => ?_⟩
    rw [read_write ht]
    split
    · rfl
    · exact hread i j hi hj

/-- As long as it survives, the client shows the map computed without memory. -/
theorem networkPoll?_shows {c d : Client} {m : ClientMap} (h : c.Sound) (hm : c.Shows m) {memory : ℕ → Bool}
    {message : AppMessage} (hd : c.networkPoll? memory message = some d) : d.Shows (networkPoll m message.bytes) := by
  obtain ⟨tag,htag,hcases⟩ := networkPoll?_cases hd
  unfold networkPoll
  rw [htag]
  dsimp only
  rcases hcases with ⟨hmapInit,payload,hread,hd⟩ | ⟨htileUpdate,payload,hread,hd⟩ | ⟨hmapInit,htileUpdate,hmap,hsize⟩
  · have hread' : unpackMapInit message.bytes ⟨0,fun _ _ => 0⟩ = some payload := hread
    rw [if_pos hmapInit,hread']
    exact applyMapInit?_shows h hd
  · have hread' : unpackTileUpdate message.bytes ⟨0,0,0⟩ = some payload := hread
    rw [if_neg (by rw [htileUpdate]; decide),if_pos htileUpdate,hread']
    exact applyTileUpdate?_shows hm hd
  · rw [if_neg hmapInit,if_neg htileUpdate,Shows,hmap,hsize]
    exact hm

theorem shows_start (localId : UInt32) (tiles : ℕ → ℕ → Tile) :
    (start localId tiles).Shows ⟨(calcMapSize 10 + 2 : ℕ),some fun i j => some (tiles i j)⟩ := by
  refine ⟨rfl,?_⟩
  rintro t ht
  cases ht
  exact ⟨_,rfl,fun i j hi hj => read_filled (fun i j => some (tiles i j)) (Int.ofNat_lt.mp hi) (Int.ofNat_lt.mp hj)⟩

theorem run_shows {c d : Client} {m : ClientMap} (h : c.Sound) (hm : c.Shows m)
    {received : List ((ℕ → Bool) × AppMessage)} (hr : Execution.run poll c received = some d) :
    d.Shows (received.foldl (fun m r => networkPoll m r.2.bytes) m) := by
  induction received generalizing c m with
  | nil =>
    cases hr
    exact hm
  | cons r received ih =>
    obtain ⟨e,he,hr⟩ := Execution.run_cons.mp hr
    exact ih (networkPoll?_sound h he) (networkPoll?_shows h hm he) hr

end Client
end CoreStack.Bomberman
