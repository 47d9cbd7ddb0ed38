import CoreStack.Bomberman.Placed

/-! # The accounts of a player's bombs (`inventory.c`, `session.c`)

Every step of the session is accompanied by the entries it makes in the accounts of
the players, each under the number of the player's slot.
-/
namespace CoreStack.Bomberman

/-- `consumed` is a powerup taken from a tile of the map. -/
inductive StockEntry
  | placed
  | replenished
  | consumed (tile : ℤ × ℤ) (kind : Tile)
  deriving DecidableEq, Repr

def StockEntry.consumes (kind : Tile) : StockEntry → Bool
  | .consumed _ k => k == kind
  | _ => false

def StockEntry.tile? : StockEntry → Option ((ℤ × ℤ) × Tile)
  | .consumed tile kind => some (tile,kind)
  | _ => none

/-- How the stock has changed when `entries` were made. -/
structure Balance (before after : InventoryStock) (entries : List StockEntry) : Prop where
  remaining : after.remainingBombs + entries.countP (· == .placed) =
    before.remainingBombs + entries.countP (· == .replenished) + entries.countP (StockEntry.consumes .powerupBomb)
  bombs : after.numBombs = before.numBombs + entries.countP (StockEntry.consumes .powerupBomb)
  fires : after.numFires = before.numFires + entries.countP (StockEntry.consumes .powerupFire)

def InventoryStock.Sane (stock : InventoryStock) : Prop :=
  0 ≤ stock.remainingBombs ∧ stock.remainingBombs ≤ stock.numBombs

/-! ## The entries of each operation -/

def World.powerup (w : World) (tile : ℤ × ℤ) : Bool :=
  w.inside tile.1 tile.2 && (w.map tile.1 tile.2 == .powerupFire || w.map tile.1 tile.2 == .powerupBomb)

def pickUpEntries (r : Pickup) : List (ℤ × ℤ) → List StockEntry
  | [] => []
  | tile :: tiles =>
    (if r.world.powerup tile then [.consumed tile (r.world.map tile.1 tile.2)] else []) ++
      pickUpEntries (pickUp r tile) tiles

def updateEntries [Arithmetic] (stock : InventoryStock) (deltaTime : ℚ) : List StockEntry :=
  if stock.remainingBombs < (inventoryUpdate stock deltaTime).remainingBombs then [.replenished] else []

def moved [Arithmetic] (normalize : Vector2 → Vector2) (deltaTime : ℚ) (w : World) (p : BombPlayer) : BombPlayer :=
  let moving := decide (p.moveDx ≠ 0 ∨ p.moveDy ≠ 0)
  { (if moving then steer normalize deltaTime w p else p) with isMoving := moving }

def BombPlayer.overlaps [Arithmetic] (p : BombPlayer) : List (ℤ × ℤ) :=
  (getAllOverlappingTiles p.box.position.x p.box.position.y p.box.size).tiles

def pickupStart [Arithmetic] (normalize : Vector2 → Vector2) (deltaTime : ℚ) (w : World) (p : BombPlayer) : Pickup :=
  let moving := decide (p.moveDx ≠ 0 ∨ p.moveDy ≠ 0)
  ⟨w,(moved normalize deltaTime w p).inventory,moving || p.isMoving != moving⟩

/-- What the pickup pass of `advance` leaves. -/
def pickedUp [Arithmetic] (normalize : Vector2 → Vector2) (deltaTime : ℚ) (w : World) (p : BombPlayer) : Pickup :=
  (moved normalize deltaTime w p).overlaps.foldl pickUp (pickupStart normalize deltaTime w p)

def advanceEntries [Arithmetic] (normalize : Vector2 → Vector2) (deltaTime : ℚ) (w : World) (p : BombPlayer) : List StockEntry :=
  if !p.active || !p.alive then []
  else
    pickUpEntries (pickupStart normalize deltaTime w p) (moved normalize deltaTime w p).overlaps ++
      updateEntries (pickedUp normalize deltaTime w p).inventory deltaTime

/-- The entries of all players from slot `i` on. -/
def advanceAllEntries [Arithmetic] (normalize : Vector2 → Vector2) (deltaTime : ℚ) :
    ℕ → World → List BombPlayer → List (ℕ × StockEntry)
  | _, _, [] => []
  | i, w, p :: players =>
    (advanceEntries normalize deltaTime w p).map (i,·) ++
      advanceAllEntries normalize deltaTime (i + 1) (advance normalize deltaTime w p).1 players

/-- The accounts of one step; `placed` is a call of `place_bomb` that returned true. -/
def stockEntries [Arithmetic] (normalize : Vector2 → Vector2) (s : Bombd) : BombInput → List (ℕ × StockEntry)
  | .place playerId =>
    match s.session.steered playerId with
    | some (i,p) => if (placeBomb s.world (getCenterBox p.box) p.inventory).2.2 then [(i,.placed)] else []
    | none => []
  | .tick deltaTime => advanceAllEntries normalize deltaTime 0 s.world s.session.players
  | _ => []

def entriesOf (i : ℕ) (log : List (ℕ × StockEntry)) : List StockEntry := (log.filter (·.1 == i)).map (·.2)

theorem entriesOf_append (i : ℕ) (log log' : List (ℕ × StockEntry)) :
    entriesOf i (log ++ log') = entriesOf i log ++ entriesOf i log' := by
  simp [entriesOf]

theorem entriesOf_own (i : ℕ) (entries : List StockEntry) : entriesOf i (entries.map (i,·)) = entries := by
  simp [entriesOf,List.filter_map,Function.comp_def]

theorem entriesOf_other {i j : ℕ} (h : j ≠ i) (entries : List StockEntry) : entriesOf i (entries.map (j,·)) = [] := by
  simp [entriesOf,List.filter_map,Function.comp_def,h]

/-! ## One operation -/

theorem Balance.refl (stock : InventoryStock) : Balance stock stock [] :=
  ⟨by simp,by simp,by simp⟩

theorem Balance.trans {a b c : InventoryStock} {l l' : List StockEntry} (h : Balance a b l) (h' : Balance b c l') :
    Balance a c (l ++ l') := by
  obtain ⟨hremaining,hbombs,hfires⟩ := h
  obtain ⟨hremaining',hbombs',hfires'⟩ := h'
  constructor
  · rw [List.countP_append,List.countP_append,List.countP_append]
    omega
  · rw [List.countP_append]
    omega
  · rw [List.countP_append]
    omega

theorem pickUp_world_of_not {r : Pickup} {tile : ℤ × ℤ} (h : r.world.powerup tile = false) : pickUp r tile = r := by
  unfold World.powerup at h
  unfold pickUp
  split
  · rfl
  · next hin =>
    simp only [Bool.not_eq_true,Bool.not_eq_false'] at hin
    rw [hin,Bool.true_and,Bool.or_eq_false_iff,beq_eq_false_iff_ne,beq_eq_false_iff_ne] at h
    dsimp only
    split
    · next hmap => exact absurd hmap h.1
    · next hmap => exact absurd hmap h.2
    · rfl

/-- A powerup raises one of the counters, the bombs with what is in stock. -/
theorem pickUp_powerup {r : Pickup} {tile : ℤ × ℤ} (h : r.world.powerup tile = true) :
    (pickUp r tile).world = r.world.setTile tile.1 tile.2 .empty ∧
    Balance r.inventory (pickUp r tile).inventory [.consumed tile (r.world.map tile.1 tile.2)] ∧
    (r.inventory.Sane → (pickUp r tile).inventory.Sane) := by
  unfold World.powerup at h
  rw [Bool.and_eq_true,Bool.or_eq_true,beq_iff_eq,beq_iff_eq] at h
  obtain ⟨hin,hfire | hbomb⟩ := h
  · have hpick : pickUp r tile = ⟨r.world.setTile tile.1 tile.2 .empty,
        { r.inventory with numFires := r.inventory.numFires + 1 },true⟩ := by
      simp only [pickUp,hin,hfire,Bool.not_true,Bool.false_eq_true,if_false]
    rw [hpick,hfire]
    exact ⟨rfl,⟨by simp [StockEntry.consumes],by simp [StockEntry.consumes],by simp [StockEntry.consumes]⟩,id⟩
  · have hpick : pickUp r tile = ⟨r.world.setTile tile.1 tile.2 .empty,{ r.inventory with
        numBombs := r.inventory.numBombs + 1
        remainingBombs := r.inventory.remainingBombs + 1 },true⟩ := by
      simp only [pickUp,hin,hbomb,Bool.not_true,Bool.false_eq_true,if_false]
    rw [hpick,hbomb]
    refine ⟨rfl,⟨by simp [StockEntry.consumes],by simp [StockEntry.consumes],by simp [StockEntry.consumes]⟩,?_⟩
    rintro ⟨hnonneg,hle⟩
    exact ⟨Int.add_nonneg hnonneg Int.one_nonneg,Int.add_le_add_right hle 1⟩

theorem pickUps_balance (r : Pickup) (tiles : List (ℤ × ℤ)) :
    Balance r.inventory (tiles.foldl pickUp r).inventory (pickUpEntries r tiles) ∧
    (r.inventory.Sane → (tiles.foldl pickUp r).inventory.Sane) := by
  induction tiles generalizing r with
  | nil => exact ⟨Balance.refl _,id⟩
  | cons tile tiles ih =>
    obtain ⟨hrest,hsane⟩ := ih (pickUp r tile)
    rw [List.foldl_cons,pickUpEntries]
    cases h : r.world.powerup tile with
    | false =>
      rw [pickUp_world_of_not h] at hrest hsane ⊢
      exact ⟨by simpa using hrest,hsane⟩
    | true =>
      obtain ⟨-,hone,hkept⟩ := pickUp_powerup h
      rw [if_pos rfl]
      exact ⟨hone.trans hrest,fun hs => hsane (hkept hs)⟩

theorem update_balance [Arithmetic] (stock : InventoryStock) (deltaTime : ℚ) :
    Balance stock (inventoryUpdate stock deltaTime) (updateEntries stock deltaTime) ∧
    (stock.Sane → (inventoryUpdate stock deltaTime).Sane) := by
  unfold updateEntries inventoryUpdate
  split
  · next hfull =>
    rw [if_neg (lt_irrefl _)]
    exact ⟨Balance.refl stock,id⟩
  · next hmissing =>
    dsimp only
    split
    · rw [if_neg (lt_irrefl _)]
      exact ⟨⟨by simp,(Int.add_zero _).symm,(Int.add_zero _).symm⟩,id⟩
    · rw [if_pos (Int.lt_succ _)]
      refine ⟨⟨by simp [StockEntry.consumes],by simp [StockEntry.consumes],by simp [StockEntry.consumes]⟩,?_⟩
      rintro ⟨hnonneg,-⟩
      unfold InventoryStock.Sane
      dsimp only
      omega

theorem moved_inventory [Arithmetic] (normalize : Vector2 → Vector2) (deltaTime : ℚ) (w : World) (p : BombPlayer) :
    (moved normalize deltaTime w p).inventory = p.inventory := by
  unfold moved
  dsimp only
  split <;> rfl

theorem advance_balance [Arithmetic] (normalize : Vector2 → Vector2) (deltaTime : ℚ) (w : World) (p : BombPlayer) :
    Balance p.inventory (advance normalize deltaTime w p).2.1.inventory (advanceEntries normalize deltaTime w p) ∧
    (p.inventory.Sane → (advance normalize deltaTime w p).2.1.inventory.Sane) := by
  unfold advance advanceEntries
  split
  · exact ⟨Balance.refl _,id⟩
  · obtain ⟨hpicked,hsane⟩ := pickUps_balance (pickupStart normalize deltaTime w p)
      (moved normalize deltaTime w p).overlaps
    obtain ⟨hupdate,hkept⟩ := update_balance (pickedUp normalize deltaTime w p).inventory deltaTime
    have hstart : (pickupStart normalize deltaTime w p).inventory = p.inventory :=
      moved_inventory normalize deltaTime w p
    rw [hstart] at hpicked hsane
    exact ⟨hpicked.trans hupdate,fun hs => hkept (hsane hs)⟩

theorem placeBomb_balance (w : World) (pos : Vector2) (stock : InventoryStock) :
    Balance stock (placeBomb w pos stock).2.1 (if (placeBomb w pos stock).2.2 then [.placed] else []) ∧
    (stock.Sane → (placeBomb w pos stock).2.1.Sane) := by
  rcases placeBomb_cases w pos stock with ⟨heq,-⟩ | ⟨-,hstock,heq⟩
  · rw [heq]
    exact ⟨Balance.refl stock,id⟩
  · rw [heq,if_pos rfl]
    refine ⟨⟨by simp [consumeBomb,StockEntry.consumes],by simp [consumeBomb,StockEntry.consumes],
      by simp [consumeBomb,StockEntry.consumes]⟩,?_⟩
    rintro ⟨-,hle⟩
    unfold InventoryStock.Sane consumeBomb
    dsimp only
    omega

/-! ## All players -/

/-- The stock in every slot comes from the stock the slot had before, with its entries. -/
def SlotsBalance (before after : List BombPlayer) (log : List (ℕ × StockEntry)) : Prop :=
  ∀ (i : ℕ) q, after[i]? = some q → ∃ p, before[i]? = some p ∧
    Balance p.inventory q.inventory (entriesOf i log) ∧ (p.inventory.Sane → q.inventory.Sane)

theorem SlotsBalance.refl (players : List BombPlayer) : SlotsBalance players players [] :=
  fun _ q hq => ⟨q,hq,Balance.refl _,id⟩

theorem SlotsBalance.trans {a b c : List BombPlayer} {l l' : List (ℕ × StockEntry)} (h : SlotsBalance a b l)
    (h' : SlotsBalance b c l') : SlotsBalance a c (l ++ l') := by
  intro i r hr
  obtain ⟨q,hq,hbalance',hsane'⟩ := h' i r hr
  obtain ⟨p,hp,hbalance,hsane⟩ := h i q hq
  rw [entriesOf_append]
  exact ⟨p,hp,hbalance.trans hbalance',fun hs => hsane' (hsane hs)⟩

theorem set_slotsBalance {players : List BombPlayer} {i : ℕ} {p q : BombPlayer} {entries : List StockEntry}
    (hp : players[i]? = some p) (h : Balance p.inventory q.inventory entries)
    (hsane : p.inventory.Sane → q.inventory.Sane) : SlotsBalance players (players.set i q) (entries.map (i,·)) := by
  intro j r hr
  rw [List.getElem?_set] at hr
  split at hr
  · next hij =>
    subst hij
    split at hr
    · cases hr
      rw [entriesOf_own]
      exact ⟨p,hp,h,hsane⟩
    · cases hr
  · next hij =>
    rw [entriesOf_other hij]
    exact ⟨r,hr,Balance.refl _,id⟩

theorem reset_slotsBalance {players : List BombPlayer} {i : ℕ} {p q : BombPlayer} (hp : players[i]? = some p)
    (h : q.inventory = p.inventory) : SlotsBalance players (players.set i q) [] := by
  have hbalance : Balance p.inventory q.inventory [] := by
    rw [h]
    exact Balance.refl _
  exact set_slotsBalance hp hbalance fun hsane => h ▸ hsane

theorem map_slotsBalance (players : List BombPlayer) {f : BombPlayer → BombPlayer}
    (hf : ∀ p, (f p).inventory = p.inventory) : SlotsBalance players (players.map f) [] := by
  intro i q hq
  obtain ⟨p,hp,rfl⟩ := Option.map_eq_some_iff.mp ((List.getElem?_map).symm.trans hq)
  rw [hf]
  exact ⟨p,hp,Balance.refl _,id⟩

theorem entriesOf_advanceAll_lt [Arithmetic] (normalize : Vector2 → Vector2) (deltaTime : ℚ) {i k : ℕ} (h : i < k) (w : World)
    (players : List BombPlayer) : entriesOf i (advanceAllEntries normalize deltaTime k w players) = [] := by
  induction players generalizing k w with
  | nil => rfl
  | cons p players ih =>
    rw [advanceAllEntries,entriesOf_append,entriesOf_other (Nat.ne_of_gt h),ih (Nat.lt_succ_of_lt h)]
    rfl

theorem advanceAll_balance [Arithmetic] (normalize : Vector2 → Vector2) (deltaTime : ℚ) (w : World) (players : List BombPlayer)
    (k : ℕ) : ∀ (i : ℕ) q, (advanceAll normalize deltaTime w players).2.1[i]? = some q →
      ∃ p, players[i]? = some p ∧
        Balance p.inventory q.inventory (entriesOf (k + i) (advanceAllEntries normalize deltaTime k w players)) ∧
        (p.inventory.Sane → q.inventory.Sane) := by
  induction players generalizing w k with
  | nil =>
    intro i q hq
    rw [advanceAll] at hq
    cases hq
  | cons p players ih =>
    intro i q hq
    rw [advanceAllEntries,entriesOf_append]
    cases i with
    | zero =>
      have hq' : (advance normalize deltaTime w p).2.1 = q := Option.some.inj hq
      obtain ⟨hbalance,hsane⟩ := advance_balance normalize deltaTime w p
      rw [Nat.add_zero,entriesOf_own,entriesOf_advanceAll_lt normalize deltaTime (Nat.lt_succ_self k),
        List.append_nil,← hq']
      exact ⟨p,rfl,hbalance,hsane⟩
    | succ i =>
      have hne : k ≠ k + (i + 1) := by omega
      obtain ⟨p',hp',h⟩ := ih (advance normalize deltaTime w p).1 (k + 1) i q hq
      rw [entriesOf_other hne,List.nil_append]
      rw [Nat.add_right_comm,Nat.add_assoc] at h
      exact ⟨p',hp',h⟩

theorem movement_balance [Arithmetic] (normalize : Vector2 → Vector2) (deltaTime : ℚ) (s : Bombd) :
    SlotsBalance s.session.players (applyMovementAndPickups normalize deltaTime s).session.players
      (stockEntries normalize s (.tick deltaTime)) := by
  intro i q hq
  have h := advanceAll_balance normalize deltaTime s.world s.session.players 0 i q hq
  rwa [Nat.zero_add] at h

theorem kill_balance [Arithmetic] (s : Bombd) :
    SlotsBalance s.session.players (killPlayersInExplosions s).session.players [] := by
  apply map_slotsBalance
  intro p
  split <;> rfl

/-- In one step every slot's stock changes by the entries of the step. -/
theorem step_balance [Arithmetic] {normalize : Vector2 → Vector2} {s t : Bombd} {input : BombInput}
    (h : s.step normalize input = some t) :
    SlotsBalance s.session.players t.session.players (stockEntries normalize s input) := by
  cases input with
  | move playerId dx dy sprinting =>
    cases h
    unfold applyMove
    split
    · next i p hp =>
      have hslot := (steered_some hp).1
      exact reset_slotsBalance hslot rfl
    · exact SlotsBalance.refl _
  | place playerId =>
    cases h
    cases hp : s.session.steered playerId with
    | none =>
      simp only [applyBombPlace,stockEntries,hp]
      exact SlotsBalance.refl _
    | some found =>
      obtain ⟨i,p⟩ := found
      simp only [applyBombPlace,stockEntries,hp]
      obtain ⟨hbalance,hsane⟩ := placeBomb_balance s.world (getCenterBox p.box) p.inventory
      have hset := set_slotsBalance (q := { p with inventory := (placeBomb s.world (getCenterBox p.box) p.inventory).2.1 })
        (steered_some hp).1 hbalance hsane
      split at hset
      · next hplaced =>
        rw [if_pos hplaced]
        exact hset
      · next hrefused =>
        rw [if_neg hrefused]
        exact hset
  | disconnect playerId =>
    cases h
    unfold applyDisconnect
    split
    · next i p hp =>
      have hslot := (steered_some hp).1
      exact reset_slotsBalance hslot rfl
    · exact SlotsBalance.refl _
  | tick deltaTime =>
    obtain ⟨-,rfl⟩ := step_tick h
    have hmove := movement_balance normalize deltaTime s
    have hkill := kill_balance { applyMovementAndPickups normalize deltaTime s with
      world := tickExplosions (tickBombs (applyMovementAndPickups normalize deltaTime s).world deltaTime) deltaTime }
    have hall := hmove.trans hkill
    rw [List.append_nil] at hall
    exact hall

/-! ## The tiles -/

/-- Distinct powerup tiles are emptied, no other tile changes. -/
structure Consumes (before after : World) (taken : List ((ℤ × ℤ) × Tile)) : Prop where
  distinct : (taken.map (·.1)).Nodup
  held : ∀ e ∈ taken, before.map e.1.1 e.1.2 = e.2 ∧ (e.2 = .powerupFire ∨ e.2 = .powerupBomb)
  mapSize : after.mapSize = before.mapSize
  map : ∀ tile : ℤ × ℤ, after.map tile.1 tile.2 =
    if tile ∈ taken.map (·.1) then .empty else before.map tile.1 tile.2

def takenTiles (entries : List StockEntry) : List ((ℤ × ℤ) × Tile) := entries.filterMap StockEntry.tile?

theorem Consumes.refl (w : World) : Consumes w w [] :=
  ⟨List.nodup_nil,fun _ h => absurd h List.not_mem_nil,rfl,fun _ => rfl⟩

theorem Consumes.trans {a b c : World} {l l' : List ((ℤ × ℤ) × Tile)} (h : Consumes a b l) (h' : Consumes b c l') :
    Consumes a c (l ++ l') := by
  -- a tile emptied before holds no powerup any more
  have hapart : ∀ e ∈ l', e.1 ∉ l.map (·.1) := by
    intro e he hmem
    obtain ⟨hheld,hkind⟩ := h'.held e he
    rw [h.map,if_pos hmem] at hheld
    rcases hkind with hkind | hkind <;> rw [hkind] at hheld <;> cases hheld
  constructor
  · rw [List.map_append,List.nodup_append]
    refine ⟨h.distinct,h'.distinct,?_⟩
    rintro tile htile tile' htile' rfl
    obtain ⟨e,he,rfl⟩ := List.mem_map.mp htile'
    exact hapart e he htile
  · intro e he
    rcases List.mem_append.mp he with he | he
    · exact h.held e he
    · obtain ⟨hheld,hkind⟩ := h'.held e he
      rw [h.map,if_neg (hapart e he)] at hheld
      exact ⟨hheld,hkind⟩
  · exact h'.mapSize.trans h.mapSize
  · intro tile
    rw [h'.map,h.map,List.map_append]
    by_cases hl : tile ∈ l.map (·.1) <;> by_cases hl' : tile ∈ l'.map (·.1) <;> simp only [List.mem_append,hl,hl',
      if_true,if_false,or_true,or_false]

theorem pickUp_consumes {r : Pickup} {tile : ℤ × ℤ} (h : r.world.powerup tile = true) :
    Consumes r.world (pickUp r tile).world [(tile,r.world.map tile.1 tile.2)] := by
  have hworld := (pickUp_powerup h).1
  rw [hworld]
  unfold World.powerup at h
  rw [Bool.and_eq_true,Bool.or_eq_true,beq_iff_eq,beq_iff_eq] at h
  constructor
  · exact List.pairwise_singleton _ _
  · intro e he
    rw [List.mem_singleton.mp he]
    exact ⟨rfl,h.2⟩
  · rfl
  · intro c
    simp only [World.setTile,Grid.set,List.map_cons,List.map_nil,List.mem_singleton,Prod.ext_iff]

theorem pickUps_consumes (r : Pickup) (tiles : List (ℤ × ℤ)) :
    Consumes r.world (tiles.foldl pickUp r).world (takenTiles (pickUpEntries r tiles)) := by
  induction tiles generalizing r with
  | nil => exact Consumes.refl _
  | cons tile tiles ih =>
    have hrest := ih (pickUp r tile)
    rw [List.foldl_cons,pickUpEntries]
    cases h : r.world.powerup tile with
    | false =>
      rw [pickUp_world_of_not h] at hrest ⊢
      exact hrest
    | true => exact (pickUp_consumes h).trans hrest

theorem takenTiles_update [Arithmetic] (stock : InventoryStock) (deltaTime : ℚ) : takenTiles (updateEntries stock deltaTime) = [] := by
  unfold updateEntries
  split <;> rfl

theorem advance_consumes [Arithmetic] (normalize : Vector2 → Vector2) (deltaTime : ℚ) (w : World) (p : BombPlayer) :
    Consumes w (advance normalize deltaTime w p).1 (takenTiles (advanceEntries normalize deltaTime w p)) := by
  unfold advance advanceEntries
  split
  · exact Consumes.refl w
  · have h := pickUps_consumes (pickupStart normalize deltaTime w p) (moved normalize deltaTime w p).overlaps
    rw [takenTiles,List.filterMap_append,← takenTiles,← takenTiles,takenTiles_update,List.append_nil]
    exact h

theorem advanceAll_consumes [Arithmetic] (normalize : Vector2 → Vector2) (deltaTime : ℚ) (w : World) (players : List BombPlayer)
    (k : ℕ) : Consumes w (advanceAll normalize deltaTime w players).1
      (takenTiles ((advanceAllEntries normalize deltaTime k w players).map (·.2))) := by
  induction players generalizing w k with
  | nil => exact Consumes.refl w
  | cons p players ih =>
    have hone := advance_consumes normalize deltaTime w p
    have hrest := ih (advance normalize deltaTime w p).1 (k + 1)
    have hlog : takenTiles ((advanceAllEntries normalize deltaTime k w (p :: players)).map (·.2)) =
        takenTiles (advanceEntries normalize deltaTime w p) ++ takenTiles ((advanceAllEntries normalize deltaTime (k + 1)
          (advance normalize deltaTime w p).1 players).map (·.2)) := by
      simp [advanceAllEntries,takenTiles,Function.comp_def]
    rw [hlog]
    exact hone.trans hrest

theorem movement_consumes [Arithmetic] (normalize : Vector2 → Vector2) (deltaTime : ℚ) (s : Bombd) :
    Consumes s.world (applyMovementAndPickups normalize deltaTime s).world
      (takenTiles ((stockEntries normalize s (.tick deltaTime)).map (·.2))) :=
  advanceAll_consumes normalize deltaTime s.world s.session.players 0

/-! ## Runs -/

abbrev audited [Arithmetic] (normalize : Vector2 → Vector2) : Bombd × List (ℕ × StockEntry) → BombInput →
    Option (Bombd × List (ℕ × StockEntry)) := Execution.logged (stockEntries normalize) (Bombd.step normalize)

theorem run_balance [Arithmetic] {normalize : Vector2 → Vector2} {s₀ s : Bombd} {log : List (ℕ × StockEntry)}
    {inputs : List BombInput} (hrun : Execution.run (audited normalize) (s₀,[]) inputs = some (s,log)) :
    SlotsBalance s₀.session.players s.session.players log := by
  refine Execution.run_invariant
    (I := fun t : Bombd × List (ℕ × StockEntry) => SlotsBalance s₀.session.players t.1.session.players t.2) ?_ hrun
    (SlotsBalance.refl _)
  intro t input u ht hstep
  obtain ⟨hs,hlog⟩ := Execution.logged_eq_some.mp hstep
  rw [hlog]
  exact ht.trans (step_balance hs)

theorem initPlayer_sane [Arithmetic] (playerId : ℕ) (tile : Vector2) : (initPlayer playerId tile).inventory.Sane :=
  ⟨Int.zero_le_ofNat 2,le_refl 2⟩

theorem init_sane [Arithmetic] {draws : ℕ → ℕ} {clientIds : List ℕ} {i : ℕ} {p : BombPlayer}
    (h : (initSession draws clientIds).session.players[i]? = some p) : p.inventory.Sane := by
  have hmem := List.mem_of_getElem? h
  unfold initSession at hmem
  obtain ⟨j,hj,rfl⟩ := List.mem_mapIdx.mp hmem
  exact initPlayer_sane _ _

/-! ## The queue -/

def BombPlayer.bomb [Arithmetic] (p : BombPlayer) : BombInfo := ⟨getCenterBox p.box,p.inventory.numFires,bombTimer⟩

/-- The world with the bomb of a player on its tile and in the queue. -/
def World.withBomb [Arithmetic] (w : World) (p : BombPlayer) : World :=
  { w.setTile (getCenterBox p.box).tile.1 (getCenterBox p.box).tile.2 .bomb with bombs := (w.bombs.enqueue p.bomb).1 }

/-- An entry `placed` goes with one call of `Bombs_enqueue`; the other steps bring no bomb. -/
inductive StepBombs [Arithmetic] (s t : Bombd) : BombInput → List (ℕ × StockEntry) → Prop
  | placed {playerId i : ℕ} {p : BombPlayer} (hsteered : s.session.steered playerId = some (i,p))
      (hfree : s.world.at (getCenterBox p.box).tile = .empty ∨ s.world.at (getCenterBox p.box).tile = .player)
      (hworld : t.world = s.world.withBomb p) : StepBombs s t (.place playerId) [(i,.placed)]
  | kept {input : BombInput} {entries : List (ℕ × StockEntry)} (hentries : ∀ e ∈ entries, e.2 ≠ .placed)
      (hqueue : (t.world.bombs.queued.map BombInfo.blast).Subperm (s.world.bombs.queued.map BombInfo.blast)) :
      StepBombs s t input entries

theorem StepBombs.unchanged [Arithmetic] {s t : Bombd} (input : BombInput) (h : t.world = s.world) : StepBombs s t input [] :=
  .kept (fun _ he => absurd he List.not_mem_nil) (h ▸ List.Subperm.refl _)

theorem pickUpEntries_not_placed (tiles : List (ℤ × ℤ)) (r : Pickup) : .placed ∉ pickUpEntries r tiles := by
  induction tiles generalizing r with
  | nil => exact List.not_mem_nil
  | cons tile tiles ih =>
    rw [pickUpEntries,List.mem_append,not_or]
    refine ⟨?_,ih _⟩
    split <;> simp

theorem advanceEntries_not_placed [Arithmetic] (normalize : Vector2 → Vector2) (deltaTime : ℚ) (w : World) (p : BombPlayer) :
    .placed ∉ advanceEntries normalize deltaTime w p := by
  unfold advanceEntries updateEntries
  split
  · exact List.not_mem_nil
  · rw [List.mem_append,not_or]
    refine ⟨pickUpEntries_not_placed _ _,?_⟩
    split <;> simp

theorem advanceAllEntries_not_placed [Arithmetic] (normalize : Vector2 → Vector2) (deltaTime : ℚ) (w : World)
    (players : List BombPlayer) (k : ℕ) : ∀ e ∈ advanceAllEntries normalize deltaTime k w players, e.2 ≠ .placed := by
  induction players generalizing w k with
  | nil => exact fun e he => absurd he List.not_mem_nil
  | cons p players ih =>
    rw [advanceAllEntries,List.forall_mem_append]
    refine ⟨List.forall_mem_map.mpr fun entry hentry hplaced => ?_,ih _ _⟩
    exact advanceEntries_not_placed normalize deltaTime w p (hplaced ▸ hentry)

theorem tickSession_subperm [Arithmetic] (normalize : Vector2 → Vector2) (s : Bombd) (deltaTime : ℚ) :
    ((tickSession normalize s deltaTime).1.world.bombs.queued.map BombInfo.blast).Subperm
      (s.world.bombs.queued.map BombInfo.blast) := by
  have hleft := (tickSession_queue normalize s deltaTime).map BombInfo.blast
  rw [List.map_map] at hleft
  exact hleft.subperm.trans ((List.filter_sublist.map BombInfo.blast).subperm)

theorem step_bombs [Arithmetic] {normalize : Vector2 → Vector2} {s t : Bombd} {input : BombInput}
    (h : s.step normalize input = some t) : StepBombs s t input (stockEntries normalize s input) := by
  cases input with
  | move playerId dx dy sprinting =>
    cases h
    exact .unchanged _ (applyMove_world s playerId dx dy sprinting)
  | place playerId =>
    cases h
    cases hp : s.session.steered playerId with
    | none =>
      simp only [applyBombPlace,stockEntries,hp]
      exact .unchanged _ rfl
    | some found =>
      obtain ⟨i,p⟩ := found
      simp only [applyBombPlace,stockEntries,hp]
      rcases placeBomb_cases s.world (getCenterBox p.box) p.inventory with ⟨heq,-⟩ | ⟨hfree,-,heq⟩
      · rw [heq,if_neg Bool.false_ne_true]
        exact .unchanged _ rfl
      · rw [heq,if_pos rfl]
        exact .placed hp hfree rfl
  | disconnect playerId =>
    cases h
    exact .unchanged _ (applyDisconnect_world s playerId)
  | tick deltaTime =>
    obtain ⟨-,rfl⟩ := step_tick h
    exact .kept (advanceAllEntries_not_placed normalize deltaTime s.world s.session.players 0)
      (tickSession_subperm normalize s deltaTime)

/-- The accounts of one step: what each slot's counters have grown by, and where from, and the
bombs that were put down. -/
structure StepAccounts [Arithmetic] (normalize : Vector2 → Vector2) (s t : Bombd) (input : BombInput) : Prop where
  grows : ∀ (i : ℕ) q, t.session.players[i]? = some q → ∃ p, s.session.players[i]? = some p ∧
    q.inventory.numBombs = p.inventory.numBombs +
      (entriesOf i (stockEntries normalize s input)).countP (StockEntry.consumes .powerupBomb) ∧
    q.inventory.numFires = p.inventory.numFires +
      (entriesOf i (stockEntries normalize s input)).countP (StockEntry.consumes .powerupFire)
  consumed : ∀ deltaTime, input = .tick deltaTime →
    Consumes s.world (applyMovementAndPickups normalize deltaTime s).world
      (takenTiles ((stockEntries normalize s input).map (·.2)))
  bombs : StepBombs s t input (stockEntries normalize s input)

/-- In every reachable session the stock of every player is consistent, and nobody has placed
more bombs than the stock at the start, what came back and what was picked up. -/
theorem stock_consistent [Arithmetic] {normalize : Vector2 → Vector2} {draws : ℕ → ℕ} {clientIds : List ℕ}
    {inputs : List BombInput} {s : Bombd} {log : List (ℕ × StockEntry)}
    (hrun : Execution.run (audited normalize) (initSession draws clientIds,[]) inputs = some (s,log)) :
    (∀ (i : ℕ) p, s.session.players[i]? = some p → p.inventory.Sane ∧
      ∃ p₀, (initSession draws clientIds).session.players[i]? = some p₀ ∧
        ((entriesOf i log).countP (· == .placed) : ℤ) ≤ p₀.inventory.remainingBombs +
          (entriesOf i log).countP (· == .replenished) +
          (entriesOf i log).countP (StockEntry.consumes .powerupBomb)) ∧
    ∀ input t, s.step normalize input = some t → StepAccounts normalize s t input := by
  constructor
  · intro i p hp
    obtain ⟨p₀,hp₀,hbalance,hsane⟩ := run_balance hrun i p hp
    have hp := hsane (init_sane hp₀)
    refine ⟨hp,p₀,hp₀,?_⟩
    have hremaining := hbalance.remaining
    have hnonneg := hp.1
    omega
  · intro input t hstep
    constructor
    · intro i q hq
      obtain ⟨p,hp,hbalance,-⟩ := step_balance hstep i q hq
      exact ⟨p,hp,hbalance.bombs,hbalance.fires⟩
    · rintro deltaTime rfl
      exact movement_consumes normalize deltaTime s
    · exact step_bombs hstep

attribute [local instance] Arithmetic.binary32

/-- A player puts a bomb down, walks a tile, puts the second one down and asks for a third in
vain; after a second one comes back. -/
def threeRequests : List BombInput :=
  [.place 1,.move 1 1 0 false,.tick (1 / 3),.place 1,.move 1 0 0 false,.place 1,.tick 1]

theorem stock_consistent_three : ∃ s log p,
    Execution.run (audited id) (initSession (fun _ => 0) [1],[]) threeRequests = some (s,log) ∧
    s.session.players[0]? = some p ∧ (entriesOf 0 log).countP (· == .placed) = 2 ∧
    (entriesOf 0 log).countP (· == .replenished) = 1 ∧ p.inventory.remainingBombs = 1 ∧ p.inventory.Sane := by
  obtain ⟨⟨s,log⟩,hs,ht⟩ := Execution.exists_of_run_any (audited id) (initSession (fun _ => 0) [1],[]) threeRequests
    (fun r => (entriesOf 0 r.2).countP (· == .placed) == 2 && ((entriesOf 0 r.2).countP (· == .replenished) == 1 &&
      (r.1.session.players[0]?).any fun p => p.inventory.remainingBombs == 1)) (by decide +kernel)
  obtain ⟨hplaced,ht⟩ := Bool.and_eq_true_iff.mp ht
  obtain ⟨hback,ht⟩ := Bool.and_eq_true_iff.mp ht
  obtain ⟨p,hp,hstock⟩ := (Option.any_eq_true _ _).mp ht
  exact ⟨s,log,p,hs,hp,beq_iff_eq.mp hplaced,beq_iff_eq.mp hback,beq_iff_eq.mp hstock,((stock_consistent hs).1 0 p hp).1⟩

end CoreStack.Bomberman
