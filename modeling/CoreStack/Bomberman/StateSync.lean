import CoreStack.Bomberman.Placed
import CoreStack.Bomberman.Protocol
import CoreStack.Bomberman.Stock

/-! # The state on the clients (`main.c` of bombd)

One iteration of the loop drains messages and disconnections, ticks the session, and sends
the state if the session is dirty or a bomb is ticking.
-/
namespace CoreStack.Bomberman
open Utils

def maxMsgsPerTick : ℕ := 128

def Direction.code : Direction → UInt32
  | .up => 0
  | .down => 1
  | .left => 2
  | .right => 3

/-! ## The loop -/

/-- One player as he is sent. Floats are the rationals they stand for. -/
structure Broadcast.PlayerStateEntry where
  playerId : UInt32
  x : ℚ
  y : ℚ
  direction : UInt32
  isMoving : UInt32
  alive : UInt32
  numBombs : UInt32
  remainingBombs : UInt32
  numFires : UInt32
  deriving DecidableEq

structure Broadcast.BombStateEntry where
  x : ℚ
  y : ℚ
  timer : ℚ
  deriving DecidableEq

structure Broadcast.StatePayload where
  playerCount : UInt32
  players : Fin bombdMaxPlayers → PlayerStateEntry
  bombCount : UInt32
  bombs : Fin Protocol.bombdMaxBombs → BombStateEntry

def playerEntry (p : BombPlayer) : Broadcast.PlayerStateEntry where
  playerId := UInt32.ofNat p.playerId
  x := p.box.position.x
  y := p.box.position.y
  direction := p.direction.code
  isMoving := if p.isMoving then 1 else 0
  alive := if p.alive then 1 else 0
  numBombs := UInt32.ofInt p.inventory.numBombs
  remainingBombs := UInt32.ofInt p.inventory.remainingBombs
  numFires := UInt32.ofInt p.inventory.numFires

def bombEntry (b : BombInfo) : Broadcast.BombStateEntry := ⟨b.position.x,b.position.y,b.timer⟩

/-- The payload of `broadcast_state`. Entries past the counts are zero. -/
def statePayload (s : Bombd) : Broadcast.StatePayload where
  playerCount := UInt32.ofNat s.session.players.length
  players i := (s.session.players[i.val]?.map playerEntry).getD ⟨0,0,0,0,0,0,0,0,0⟩
  bombCount := UInt32.ofNat (min s.world.bombs.queued.length Protocol.bombdMaxBombs)
  bombs i := (s.world.bombs.queued[i.val]?.map bombEntry).getD ⟨0,0,0⟩

structure Arrivals where
  messages : List (List UInt8)
  disconnected : List ℕ

def Bombd.drain [Arithmetic] (s : Bombd) (arrivals : Arrivals) : Bombd :=
  arrivals.disconnected.foldl applyDisconnect ((arrivals.messages.take maxMsgsPerTick).foldl handlePacket s)

def BombSession.countAlive (s : BombSession) : ℕ := s.players.countP fun p => p.active && p.alive

def BombSession.matchOver (s : BombSession) : Bool :=
  (decide (1 < s.players.length) && decide (s.countAlive ≤ 1)) ||
    (decide (s.players.length = 1) && decide (s.countAlive = 0))

/-- `sent` is a history variable: the payload that was built last. -/
structure TickLoop where
  bombd : Bombd
  sent : Option Broadcast.StatePayload

def TickLoop.init [Arithmetic] (draws : ℕ → ℕ) (clientIds : List ℕ) : TickLoop := ⟨initSession draws clientIds,none⟩

/-- One iteration, unless the match is over. -/
def TickLoop.iterate [Arithmetic] (normalize : Vector2 → Vector2) (s : TickLoop) (arrivals : Arrivals) :
    Option TickLoop :=
  if s.bombd.session.matchOver then none
  else
    let ticked := (tickSession normalize (s.bombd.drain arrivals) tickSeconds).1
    let dirty := ticked.session.dirty || !ticked.world.bombs.empty
    some ⟨⟨{ ticked.session with dirty := false },ticked.world⟩,
      if dirty then some (statePayload ticked) else s.sent⟩

/-- The payload built last is the one that would be built now. Before the first iteration
there is none, and the session is dirty. -/
def TickLoop.Current (s : TickLoop) : Prop :=
  s.sent = some (statePayload s.bombd) ∨ s.sent = none ∧ s.bombd.session.dirty = true

/-! ## What marks the session dirty -/

/-- The tile is on fire when the players are checked at the end of the tick. -/
def BurnsAfter [Arithmetic] (w : World) (deltaTime : ℚ) (c : ℤ × ℤ) : Prop :=
  StaysLit w deltaTime c ∧ ∀ g ∈ fires w deltaTime, fl (g.2 - deltaTime) ≤ 0 → c ∉ g.1

/-- A player who lives stands still and has stood still, with no powerup in reach. -/
def BombPlayer.Quiet [Arithmetic] (w : World) (p : BombPlayer) : Prop :=
  p.active = true → p.alive = true →
    p.moveDx = 0 ∧ p.moveDy = 0 ∧ p.isMoving = false ∧ ∀ c ∈ p.overlapped, w.powerup c = false

/-- Somebody was disconnected, moves or stops, takes a powerup or burns. -/
def Bombd.Stirs [Arithmetic] (s : Bombd) : Prop :=
  s.session.dirty = true ∨ ∃ p ∈ s.session.players, ¬p.Quiet s.world ∨
    p.active = true ∧ p.alive = true ∧ ∃ c ∈ p.overlapped, s.world.inside c.1 c.2 = true ∧ BurnsAfter s.world tickSeconds c

/-- `inventory_update` gives the player a bomb in this tick. -/
def BombPlayer.Replenishes [Arithmetic] (p : BombPlayer) : Prop :=
  p.active = true ∧ p.alive = true ∧ p.inventory.remainingBombs < p.inventory.numBombs ∧
    fl (p.inventory.bombReplenishTimer - tickSeconds) ≤ 0

/-- If bombs were queued before the tick or a player gets one back in it, then a bomb goes
on ticking or something else marks the session dirty. -/
def Bombd.Announced [Arithmetic] (s : Bombd) : Prop :=
  (s.world.bombs.queued ≠ [] ∨ ∃ p ∈ s.session.players, p.Replenishes) →
    (∃ b ∈ s.world.bombs.queued, b.expires tickSeconds = false) ∨ s.Stirs

/-! ## A tick -/

theorem pickUp_dirty {r : Pickup} {tile : ℤ × ℤ} (h : r.world.powerup tile = true) : (pickUp r tile).dirty = true := by
  unfold World.powerup at h
  rw [Bool.and_eq_true,Bool.or_eq_true,beq_iff_eq,beq_iff_eq] at h
  obtain ⟨hin,hfire | hbomb⟩ := h
  · simp only [pickUp,hin,hfire,Bool.not_true,Bool.false_eq_true,if_false]
  · simp only [pickUp,hin,hbomb,Bool.not_true,Bool.false_eq_true,if_false]

theorem pickUps_dirty (tiles : List (ℤ × ℤ)) (r : Pickup) :
    (tiles.foldl pickUp r).dirty = false ↔ r.dirty = false ∧ ∀ c ∈ tiles, r.world.powerup c = false := by
  induction tiles generalizing r with
  | nil => simp
  | cons tile tiles ih =>
    rw [List.foldl_cons,ih,List.forall_mem_cons]
    cases h : r.world.powerup tile with
    | false =>
      rw [pickUp_world_of_not h]
      simp
    | true =>
      refine iff_of_false (fun hquiet => ?_) (by simp)
      rw [pickUp_dirty h] at hquiet
      exact absurd hquiet.1 (by decide)

theorem pickUps_none (tiles : List (ℤ × ℤ)) (r : Pickup) (h : ∀ c ∈ tiles, r.world.powerup c = false) :
    tiles.foldl pickUp r = r := by
  induction tiles with
  | nil => rfl
  | cons tile tiles ih =>
    obtain ⟨htile,htiles⟩ := List.forall_mem_cons.mp h
    rw [List.foldl_cons,pickUp_world_of_not htile]
    exact ih htiles

/-- What a tick makes of a player who is quiet and does not burn. -/
def BombPlayer.settle [Arithmetic] (deltaTime : ℚ) (p : BombPlayer) : BombPlayer :=
  if p.active && p.alive then { p with inventory := inventoryUpdate p.inventory deltaTime } else p

theorem advance_quiet [Arithmetic] (normalize : Vector2 → Vector2) (deltaTime : ℚ) {w : World} {p : BombPlayer} (h : p.Quiet w) :
    advance normalize deltaTime w p = (w,p.settle deltaTime,false) := by
  unfold advance BombPlayer.settle
  cases hlives : p.active && p.alive with
  | false =>
    have hout : (!p.active || !p.alive) = true := by rw [← Bool.not_and,hlives,Bool.not_false]
    rw [if_pos hout,if_neg Bool.false_ne_true]
  | true =>
    obtain ⟨hactive,halive⟩ := (Bool.and_eq_true _ _).mp hlives
    obtain ⟨hdx,hdy,hmoving,hnone⟩ := h hactive halive
    have hin : ¬(!p.active || !p.alive) = true := by simp [hactive,halive]
    rw [if_neg hin,if_pos rfl]
    have hstill : decide (p.moveDx ≠ 0 ∨ p.moveDy ≠ 0) = false := by simp [hdx,hdy]
    dsimp only
    rw [hstill,if_neg Bool.false_ne_true,hmoving]
    have htiles := pickUps_none p.overlapped ⟨w,p.inventory,false || false != false⟩ hnone
    unfold BombPlayer.overlapped at htiles
    rw [htiles]
    obtain ⟨_,_,_,_,_,_,_,_,_,_⟩ := p
    cases hmoving
    rfl

theorem quiet_of_advance [Arithmetic] {normalize : Vector2 → Vector2} {deltaTime : ℚ} {w : World} {p : BombPlayer}
    (h : (advance normalize deltaTime w p).2.2 = false) : p.Quiet w := by
  intro hactive halive
  have hin : ¬(!p.active || !p.alive) = true := by simp [hactive,halive]
  unfold advance at h
  rw [if_neg hin] at h
  dsimp only at h
  rw [pickUps_dirty] at h
  obtain ⟨hstill,hnone⟩ := h
  obtain ⟨hmoving,hstood⟩ := Bool.or_eq_false_iff.mp hstill
  rw [hmoving] at hstood hnone
  rw [if_neg Bool.false_ne_true] at hnone
  simp only [decide_eq_false_iff_not,not_or,not_not] at hmoving
  exact ⟨hmoving.1,hmoving.2,by simpa using hstood,hnone⟩

theorem advanceAll_quiet [Arithmetic] (normalize : Vector2 → Vector2) (deltaTime : ℚ) {w : World} {players : List BombPlayer}
    (h : ∀ p ∈ players, p.Quiet w) :
    advanceAll normalize deltaTime w players = (w,players.map (·.settle deltaTime),false) := by
  induction players with
  | nil => rfl
  | cons p players ih =>
    obtain ⟨hp,hplayers⟩ := List.forall_mem_cons.mp h
    rw [advanceAll,advance_quiet normalize deltaTime hp]
    dsimp only
    rw [ih hplayers]
    rfl

theorem quiet_of_advanceAll [Arithmetic] {normalize : Vector2 → Vector2} {deltaTime : ℚ} {w : World} {players : List BombPlayer}
    (h : (advanceAll normalize deltaTime w players).2.2 = false) : ∀ p ∈ players, p.Quiet w := by
  induction players with
  | nil => exact fun p hp => absurd hp List.not_mem_nil
  | cons p players ih =>
    rw [advanceAll] at h
    dsimp only at h
    obtain ⟨hfirst,hrest⟩ := Bool.or_eq_false_iff.mp h
    have hp := quiet_of_advance hfirst
    rw [advance_quiet normalize deltaTime hp] at hrest
    exact List.forall_mem_cons.mpr ⟨hp,ih hrest⟩

theorem settle_burning [Arithmetic] (deltaTime : ℚ) (w : World) (p : BombPlayer) :
    (p.settle deltaTime).burning w = p.burning w := by
  unfold BombPlayer.settle
  split <;> rfl

theorem tickSession_mapSize [Arithmetic] (normalize : Vector2 → Vector2) {s : Bombd} (hs : Sound s.world) {deltaTime : ℚ}
    (hpos : 0 < deltaTime) : (tickSession normalize s deltaTime).1.world.mapSize = s.world.mapSize := by
  have hmoves := movement_moves normalize deltaTime hs
  have hblazes := tickBombs_blazes hmoves.sound deltaTime
  exact (tickExplosions_douses hblazes.sound hpos).mapSize.trans (hblazes.walls.mapSize.trans hmoves.walls.mapSize)

theorem tickSeconds_pos [Arithmetic] : 0 < tickSeconds := by
  have hkept := fl_dyadic 1 6 (by norm_num) (by norm_num)
  rw [Int.cast_one] at hkept
  calc (0 : ℚ) < 1 / 2 ^ 6 := by norm_num
    _ = fl (1 / 2 ^ 6) := hkept.symm
    _ ≤ tickSeconds := fl_mono (by norm_num)

theorem tickSeconds_le_half [Arithmetic] : tickSeconds ≤ 1 / 2 :=
  calc tickSeconds ≤ fl (1 / 2) := fl_mono (by norm_num)
    _ = 1 / 2 := fl_half

/-- A bomb outlasts the tick after it was put down. -/
theorem bombTimer_outlasts [Arithmetic] : 0 < fl (bombTimer - tickSeconds) :=
  calc (0 : ℚ) < 1 / 2 := by norm_num
    _ = fl (1 / 2) := fl_half.symm
    _ ≤ fl (bombTimer - tickSeconds) := fl_mono (by unfold bombTimer; linarith [tickSeconds_le_half])

theorem burning_after [Arithmetic] (normalize : Vector2 → Vector2) {s : Bombd} (hs : Sound s.world) (p : BombPlayer) :
    p.burning (tickSession normalize s tickSeconds).1.world = true ↔ p.active = true ∧ p.alive = true ∧
      ∃ c ∈ p.overlapped, s.world.inside c.1 c.2 = true ∧ BurnsAfter s.world tickSeconds c := by
  have hinside : ∀ x y, (tickSession normalize s tickSeconds).1.world.inside x y = s.world.inside x y := by
    intro x y
    unfold World.inside
    rw [tickSession_mapSize normalize hs tickSeconds_pos]
  rw [burning_iff]
  simp only [hinside,tickSession_burns normalize hs tickSeconds_pos]
  exact Iff.rfl

theorem tickSession_dirty_iff [Arithmetic] (normalize : Vector2 → Vector2) {s : Bombd} (hs : Sound s.world) :
    (tickSession normalize s tickSeconds).1.session.dirty = true ↔ s.Stirs := by
  have hburning := burning_after normalize hs
  have hdirty : (tickSession normalize s tickSeconds).1.session.dirty =
      ((s.session.dirty || (advanceAll normalize tickSeconds s.world s.session.players).2.2) ||
        (advanceAll normalize tickSeconds s.world s.session.players).2.1.any
          (·.burning (tickSession normalize s tickSeconds).1.world)) := rfl
  rw [hdirty]
  cases hchanged : (advanceAll normalize tickSeconds s.world s.session.players).2.2 with
  | true =>
    refine iff_of_true (by simp) ?_
    have hloud : ∃ p ∈ s.session.players, ¬p.Quiet s.world := by
      by_contra hquiet
      rw [advanceAll_quiet normalize tickSeconds fun p hp => by_contra fun hnot => hquiet ⟨p,hp,hnot⟩] at hchanged
      cases hchanged
    obtain ⟨p,hp,hnot⟩ := hloud
    exact Or.inr ⟨p,hp,Or.inl hnot⟩
  | false =>
    have hquiet := quiet_of_advanceAll hchanged
    rw [advanceAll_quiet normalize tickSeconds hquiet,Bool.or_false,Bool.or_eq_true]
    refine or_congr_right ?_
    rw [List.any_map,List.any_eq_true]
    refine exists_congr fun p => and_congr_right fun hp => ?_
    rw [Function.comp_apply,settle_burning,hburning]
    exact (or_iff_right fun hnot => hnot (hquiet p hp)).symm

/-- If nothing stirs, the players stay as they are but for their stocks. -/
theorem tickSession_settles [Arithmetic] (normalize : Vector2 → Vector2) {s : Bombd} (hs : Sound s.world) (h : ¬s.Stirs) :
    (tickSession normalize s tickSeconds).1.session.players = s.session.players.map (·.settle tickSeconds) := by
  have hburning := burning_after normalize hs
  have hquiet : ∀ p ∈ s.session.players, p.Quiet s.world :=
    fun p hp => by_contra fun hnot => h (Or.inr ⟨p,hp,Or.inl hnot⟩)
  have hplayers : (tickSession normalize s tickSeconds).1.session.players =
      (advanceAll normalize tickSeconds s.world s.session.players).2.1.map fun p =>
        if p.burning (tickSession normalize s tickSeconds).1.world then { p with alive := false } else p := rfl
  rw [hplayers,advanceAll_quiet normalize tickSeconds hquiet,List.map_map]
  refine List.map_congr_left fun p hp => ?_
  rw [Function.comp_apply,settle_burning,if_neg]
  intro hburns
  exact h (Or.inr ⟨p,hp,Or.inr ((hburning p).mp hburns)⟩)

theorem ticked_empty [Arithmetic] (normalize : Vector2 → Vector2) (s : Bombd) :
    (tickSession normalize s tickSeconds).1.world.bombs.empty = true ↔
      ∀ b ∈ s.world.bombs.queued, b.expires tickSeconds = true := by
  have hqueue := tickSession_queue normalize s tickSeconds
  rw [Queue.empty_iff]
  constructor
  · intro hnil b hb
    rw [hnil] at hqueue
    by_contra hexp
    have hkept : b ∈ s.world.bombs.queued.filter fun b => !b.expires tickSeconds :=
      List.mem_filter.mpr ⟨hb,by simp [hexp]⟩
    exact absurd (hqueue.symm.subset (List.mem_map_of_mem hkept)) List.not_mem_nil
  · intro hall
    have hnone : s.world.bombs.queued.filter (fun b => !b.expires tickSeconds) = [] :=
      List.filter_eq_nil_iff.mpr fun b hb => by simp [hall b hb]
    rw [hnone] at hqueue
    exact hqueue.eq_nil

theorem settle_stock [Arithmetic] {p : BombPlayer} (h : ¬p.Replenishes) :
    playerEntry (p.settle tickSeconds) = playerEntry p := by
  unfold BombPlayer.settle
  split
  · next hlives =>
    obtain ⟨hactive,halive⟩ := (Bool.and_eq_true _ _).mp hlives
    unfold inventoryUpdate
    split
    · rfl
    · next hless =>
      have hlong : ¬fl (p.inventory.bombReplenishTimer - tickSeconds) ≤ 0 :=
        fun hdue => h ⟨hactive,halive,Int.not_le.mp hless,hdue⟩
      dsimp only
      rw [if_pos (not_le.mp hlong)]
      rfl
  · rfl

/-- A bomb that comes back is seen in the packet. -/
theorem settle_replenished [Arithmetic] {p : BombPlayer} (h : p.Replenishes) :
    (p.settle tickSeconds).inventory.remainingBombs = p.inventory.remainingBombs + 1 := by
  obtain ⟨hactive,halive,hless,hdue⟩ := h
  unfold BombPlayer.settle
  rw [if_pos (by rw [hactive,halive]; rfl)]
  unfold inventoryUpdate
  dsimp only
  rw [if_neg (Int.not_le.mpr hless),if_neg (not_lt.mpr hdue)]

theorem ofInt_succ_ne (r : ℤ) : UInt32.ofInt (r + 1) ≠ UInt32.ofInt r := by
  rw [UInt32.ofInt_add,UInt32.ofInt_one]
  intro h
  simp at h

/-! ## Before the tick -/

/-- Messages and disconnections change nothing that is sent about a player but the stock
and whether he lives. -/
structure SameBody (p q : BombPlayer) : Prop where
  playerId : q.playerId = p.playerId
  active : q.active = p.active
  box : q.box = p.box
  direction : q.direction = p.direction
  isMoving : q.isMoving = p.isMoving

theorem SameBody.refl (p : BombPlayer) : SameBody p p := ⟨rfl,rfl,rfl,rfl,rfl⟩

theorem SameBody.trans {p q r : BombPlayer} (h : SameBody p q) (h' : SameBody q r) : SameBody p r :=
  ⟨h'.playerId.trans h.playerId,h'.active.trans h.active,h'.box.trans h.box,h'.direction.trans h.direction,
    h'.isMoving.trans h.isMoving⟩

/-- What may have changed for one player, `s` being the session after the change. -/
structure Handled (s : Bombd) (p q : BombPlayer) : Prop where
  body : SameBody p q
  stock : q.inventory = p.inventory ∨ s.world.bombs.queued ≠ [] ∧ q.inventory.bombReplenishTimer = bombReplenishTime
  alive : q.alive = p.alive ∨ s.session.dirty = true

/-- What may have changed when messages and disconnections have been handled. -/
structure Drained (s t : Bombd) : Prop where
  length : t.session.players.length = s.session.players.length
  players : ∀ (i : ℕ) (q : BombPlayer), t.session.players[i]? = some q →
    ∃ p, s.session.players[i]? = some p ∧ Handled t p q
  bombs : ∀ b ∈ t.world.bombs.queued, b ∈ s.world.bombs.queued ∨ b.timer = bombTimer
  ticking : s.world.bombs.queued ≠ [] → t.world.bombs.queued ≠ []
  head : t.world.bombs.head = s.world.bombs.head
  dirty : s.session.dirty = true → t.session.dirty = true
  sound : Sound s.world → Sound t.world

theorem Drained.refl (s : Bombd) : Drained s s where
  length := rfl
  players _ q hq := ⟨q,hq,.refl q,Or.inl rfl,Or.inl rfl⟩
  bombs _ hb := Or.inl hb
  ticking := id
  head := rfl
  dirty := id
  sound := id

theorem Drained.trans {s t u : Bombd} (h : Drained s t) (h' : Drained t u) : Drained s u where
  length := h'.length.trans h.length
  players i q hq := by
    obtain ⟨q',hq',hlater⟩ := h'.players i q hq
    obtain ⟨p,hp,hfirst⟩ := h.players i q' hq'
    refine ⟨p,hp,hfirst.body.trans hlater.body,?_,?_⟩
    · rcases hlater.stock with hsame | hplaced
      · rw [hsame]
        exact hfirst.stock.imp_right fun hplaced => ⟨h'.ticking hplaced.1,hplaced.2⟩
      · exact Or.inr hplaced
    · rcases hlater.alive with hsame | hdirty
      · rw [hsame]
        exact hfirst.alive.imp_right h'.dirty
      · exact Or.inr hdirty
  bombs b hb := (h'.bombs b hb).elim (h.bombs b) Or.inr
  ticking := h'.ticking ∘ h.ticking
  head := h'.head.trans h.head
  dirty := h'.dirty ∘ h.dirty
  sound := h'.sound ∘ h.sound

theorem Drained.set {s : Bombd} {i : ℕ} {p q : BombPlayer} {dirty : Bool} (hp : s.session.players[i]? = some p)
    (hq : Handled ⟨⟨s.session.players.set i q,dirty⟩,s.world⟩ p q) (hdirty : s.session.dirty = true → dirty = true) :
    Drained s ⟨⟨s.session.players.set i q,dirty⟩,s.world⟩ where
  length := List.length_set
  players j q' hq' := by
    rw [List.getElem?_set] at hq'
    split at hq'
    · next hij =>
      subst hij
      split at hq'
      · cases hq'
        exact ⟨p,hp,hq⟩
      · cases hq'
    · exact ⟨q',hq',.refl q',Or.inl rfl,Or.inl rfl⟩
  bombs _ hb := Or.inl hb
  ticking := id
  head := rfl
  dirty := hdirty
  sound := id

theorem applyMove_drained (s : Bombd) (playerId : ℕ) (dx dy : ℤ) (sprinting : Bool) :
    Drained s (applyMove s playerId dx dy sprinting) := by
  unfold applyMove
  split
  · next i p hp => exact .set (steered_some hp).1 ⟨⟨rfl,rfl,rfl,rfl,rfl⟩,Or.inl rfl,Or.inl rfl⟩ id
  · exact .refl s

theorem applyDisconnect_drained (s : Bombd) (playerId : ℕ) : Drained s (applyDisconnect s playerId) := by
  unfold applyDisconnect
  split
  · next i p hp => exact .set (steered_some hp).1 ⟨⟨rfl,rfl,rfl,rfl,rfl⟩,Or.inl rfl,Or.inr rfl⟩ fun _ => rfl
  · exact .refl s

theorem placeBomb_stock {w : World} {pos : Vector2} {stock : InventoryStock} (h : CanPlace w pos stock) :
    (placeBomb w pos stock).2.1 = consumeBomb stock := by
  rcases placeBomb_cases w pos stock with ⟨-,hrefused⟩ | ⟨-,-,heq⟩
  · exact absurd h hrefused
  · rw [heq]

/-- Bombs are only added to the queue, and a queue that is full is not empty. -/
theorem enqueue_ticking {bombs : BombsQueue} (h : bombs.head = 0) (b : BombInfo) :
    (bombs.enqueue b).1.queued ≠ [] := by
  rw [Queue.queued_of_head ((bombs.enqueue_head b).trans h)]
  rcases bombs.enqueue_cases b with hitems | ⟨hitems,hfull⟩
  · rw [hitems]
    simp
  · rw [hitems]
    refine List.ne_nil_of_length_pos ?_
    omega

theorem applyBombPlace_drained [Arithmetic] {s : Bombd} (h : s.world.bombs.head = 0) (playerId : ℕ) :
    Drained s (applyBombPlace s playerId) := by
  unfold applyBombPlace
  split
  · next i p hp =>
    have hplayer := (steered_some hp).1
    by_cases hcan : CanPlace s.world (getCenterBox p.box) p.inventory
    · have hbombs := (placeBomb_placed hcan).1
      have hnew := enqueue_ticking h ⟨getCenterBox p.box,p.inventory.numFires,bombTimer⟩
      rw [← hbombs] at hnew
      have hstock := placeBomb_stock hcan
      constructor
      · exact List.length_set
      · intro j q' hq'
        dsimp only [BombSession.setPlayer] at hq' ⊢
        rw [List.getElem?_set] at hq'
        split at hq'
        · next hij =>
          subst hij
          split at hq'
          · cases hq'
            refine ⟨p,hplayer,⟨rfl,rfl,rfl,rfl,rfl⟩,Or.inr ⟨hnew,?_⟩,Or.inl rfl⟩
            dsimp only
            rw [hstock]
            rfl
          · cases hq'
        · exact ⟨q',hq',.refl q',Or.inl rfl,Or.inl rfl⟩
      · intro b hb
        dsimp only at hb
        rw [hbombs] at hb
        rcases Queue.mem_enqueue_queued hb with hb | rfl
        · exact Or.inl hb
        · exact Or.inr rfl
      · exact fun _ => hnew
      · dsimp only
        rw [hbombs,Queue.enqueue_head]
      · exact id
      · exact fun hs => placeBomb_sound hs _ _
    · rw [placeBomb_refused hcan]
      exact .set hplayer ⟨⟨rfl,rfl,rfl,rfl,rfl⟩,Or.inl rfl,Or.inl rfl⟩ id
  · exact .refl s

theorem handlePacket_drained [Arithmetic] {s : Bombd} (h : s.world.bombs.head = 0) (msgBuffer : List UInt8) :
    Drained s (handlePacket s msgBuffer) := by
  unfold handlePacket
  dsimp only
  split
  · exact applyMove_drained s _ _ _ _
  · split
    · exact applyBombPlace_drained h _
    · exact .refl s

theorem messages_drained [Arithmetic] (messages : List (List UInt8)) {s : Bombd} (h : s.world.bombs.head = 0) :
    Drained s (messages.foldl handlePacket s) := by
  induction messages generalizing s with
  | nil => exact .refl s
  | cons msgBuffer messages ih =>
    have hfirst := handlePacket_drained h msgBuffer
    exact hfirst.trans (ih (hfirst.head.trans h))

theorem disconnections_drained (disconnected : List ℕ) (s : Bombd) :
    Drained s (disconnected.foldl applyDisconnect s) := by
  induction disconnected generalizing s with
  | nil => exact .refl s
  | cons playerId disconnected ih => exact (applyDisconnect_drained s playerId).trans (ih _)

theorem drain_drained [Arithmetic] {s : Bombd} (h : s.world.bombs.head = 0) (arrivals : Arrivals) : Drained s (s.drain arrivals) :=
  (messages_drained _ h).trans (disconnections_drained _ _)

/-! ## One iteration -/

section Payload
variable {s t : Bombd}

theorem queued_of_payload (h : statePayload s = statePayload t) (ht : t.world.bombs.queued = []) :
    s.world.bombs.queued = [] := by
  have hcount : UInt32.ofNat (min s.world.bombs.queued.length Protocol.bombdMaxBombs) =
      UInt32.ofNat (min t.world.bombs.queued.length Protocol.bombdMaxBombs) := congrArg Broadcast.StatePayload.bombCount h
  have hsmall : min s.world.bombs.queued.length Protocol.bombdMaxBombs < 2 ^ 32 := by
    unfold Protocol.bombdMaxBombs
    omega
  have hnat := congrArg UInt32.toNat hcount
  rw [ht,UInt32.toNat_ofNat_of_lt' hsmall] at hnat
  apply List.length_eq_zero_iff.mp
  have hzero : min s.world.bombs.queued.length Protocol.bombdMaxBombs = 0 := hnat
  unfold Protocol.bombdMaxBombs at hzero
  omega

theorem entry_of_payload (h : statePayload s = statePayload t) {i : ℕ} (hi : i < bombdMaxPlayers)
    {p q : BombPlayer} (hp : s.session.players[i]? = some p) (hq : t.session.players[i]? = some q) :
    playerEntry p = playerEntry q := by
  have hentry := congrFun (congrArg Broadcast.StatePayload.players h) ⟨i,hi⟩
  simpa [statePayload,hp,hq] using hentry

theorem payload_congr (hlength : t.session.players.length = s.session.players.length)
    (hplayers : ∀ i : ℕ, t.session.players[i]?.map playerEntry = s.session.players[i]?.map playerEntry)
    (hs : s.world.bombs.queued = []) (ht : t.world.bombs.queued = []) :
    statePayload t = statePayload s := by
  simp only [statePayload,hlength,hplayers,hs,ht]

end Payload

structure TickLoop.Ready (s : TickLoop) : Prop where
  sound : Sound s.bombd.world
  head : s.bombd.world.bombs.head = 0
  count : s.bombd.session.players.length ≤ bombdMaxPlayers

/-- An iteration in which nothing stirs and no bomb goes on ticking. The state is the one
before if no bomb was ticking and none came back. -/
theorem silent_payload_iff [Arithmetic] {normalize : Vector2 → Vector2} {s left : Bombd} (hs : Sound left.world)
    (hcount : s.session.players.length ≤ bombdMaxPlayers) (hdrained : Drained s left) (hquiet : ¬left.Stirs)
    (hall : ∀ b ∈ left.world.bombs.queued, b.expires tickSeconds = true) :
    statePayload s = statePayload (tickSession normalize left tickSeconds).1 ↔
      left.world.bombs.queued = [] ∧ ¬∃ p ∈ left.session.players, p.Replenishes := by
  have hplayers := tickSession_settles normalize hs hquiet
  have hticked := (Queue.empty_iff _).mp ((ticked_empty normalize left).mpr hall)
  have hstill : left.session.dirty ≠ true := fun hdirty => hquiet (Or.inl hdirty)
  constructor
  · intro hsame
    have hnone := queued_of_payload hsame hticked
    have hleft : left.world.bombs.queued = [] := by
      refine List.eq_nil_iff_forall_not_mem.mpr fun b hb => ?_
      rcases hdrained.bombs b hb with hold | hnew
      · rw [hnone] at hold
        exact absurd hold List.not_mem_nil
      · have hexp := hall b hb
        rw [BombInfo.expires,decide_eq_true_eq,hnew] at hexp
        exact absurd hexp bombTimer_outlasts.not_ge
    refine ⟨hleft,?_⟩
    rintro ⟨q,hq,hback⟩
    obtain ⟨i,hi⟩ := List.mem_iff_getElem?.mp hq
    obtain ⟨p,hp,hhandled⟩ := hdrained.players i q hi
    have hstock := hhandled.stock.resolve_right fun hplaced => hplaced.1 hleft
    have hsettled : (tickSession normalize left tickSeconds).1.session.players[i]? = some (q.settle tickSeconds) := by
      rw [hplayers,List.getElem?_map,hi]
      rfl
    have hbound : i < bombdMaxPlayers := ((List.getElem?_eq_some_iff.mp hp).1).trans_le hcount
    have hentry := congrArg Broadcast.PlayerStateEntry.remainingBombs (entry_of_payload hsame hbound hp hsettled)
    dsimp only [playerEntry] at hentry
    rw [settle_replenished hback,← hstock] at hentry
    exact ofInt_succ_ne _ hentry.symm
  · rintro ⟨hleft,hnone⟩
    have hbefore : s.world.bombs.queued = [] := by_contra fun hne => hdrained.ticking hne hleft
    refine (payload_congr ?_ (fun i => ?_) hbefore hticked).symm
    · rw [hplayers,List.length_map,hdrained.length]
    · rw [hplayers,List.getElem?_map]
      cases hi : left.session.players[i]? with
      | none =>
        have hout : s.session.players[i]? = none := by
          rw [List.getElem?_eq_none_iff] at hi ⊢
          rwa [← hdrained.length]
        rw [hout]
        rfl
      | some q =>
        obtain ⟨p,hp,hhandled⟩ := hdrained.players i q hi
        have hstock := hhandled.stock.resolve_right fun hplaced => hplaced.1 hleft
        have halive := hhandled.alive.resolve_right hstill
        rw [hp,Option.map_some,Option.map_some,Option.map_some,
          settle_stock fun hback => hnone ⟨q,List.mem_of_getElem? hi,hback⟩]
        obtain ⟨hid,-,hbox,hdirection,hmoving⟩ := hhandled.body
        rw [playerEntry,playerEntry,hid,hbox,hdirection,hmoving,hstock,halive]

theorem iterate_current_iff [Arithmetic] {normalize : Vector2 → Vector2} {s t : TickLoop} {arrivals : Arrivals}
    (hs : s.Ready) (h : s.Current) (ht : s.iterate normalize arrivals = some t) :
    t.sent = some (statePayload t.bombd) ↔ (s.bombd.drain arrivals).Announced := by
  have hdrained := drain_drained hs.head arrivals
  have hsound := hdrained.sound hs.sound
  have hdirty := tickSession_dirty_iff normalize hsound
  have hempty := ticked_empty normalize (s.bombd.drain arrivals)
  unfold TickLoop.iterate at ht
  split at ht
  · cases ht
  · cases ht
    change (if _ then _ else _) = some (statePayload (tickSession normalize (s.bombd.drain arrivals) tickSeconds).1) ↔ _
    split
    · next hbroadcast =>
      refine iff_of_true rfl fun _ => ?_
      rcases Bool.or_eq_true_iff.mp hbroadcast with hraised | hticking
      · exact Or.inr (hdirty.mp hraised)
      · refine Or.inl ?_
        by_contra hnone
        rw [hempty.mpr fun b hb => by simpa using fun hexp => hnone ⟨b,hb,hexp⟩] at hticking
        cases hticking
    · next hsilent =>
      rw [Bool.not_eq_true,Bool.or_eq_false_iff,Bool.not_eq_false'] at hsilent
      have hquiet : ¬(s.bombd.drain arrivals).Stirs := fun hstirs => by
        rw [hdirty.mpr hstirs] at hsilent
        cases hsilent.1
      have hall := hempty.mp hsilent.2
      have hsent : s.sent = some (statePayload s.bombd) :=
        h.resolve_right fun hfirst => hquiet (Or.inl (hdrained.dirty hfirst.2))
      rw [hsent,Option.some_inj,silent_payload_iff hsound hs.count hdrained hquiet hall]
      constructor
      · rintro ⟨hleft,hnone⟩ (hticking | hback)
        · exact absurd hleft hticking
        · exact absurd hback hnone
      · intro hannounced
        have hnothing : ¬((∃ b ∈ (s.bombd.drain arrivals).world.bombs.queued, b.expires tickSeconds = false) ∨
            (s.bombd.drain arrivals).Stirs) := by
          rintro (⟨b,hb,hexp⟩ | hstirs)
          · rw [hall b hb] at hexp
            cases hexp
          · exact hquiet hstirs
        constructor
        · by_contra hticking
          exact hnothing (hannounced (Or.inl hticking))
        · exact fun hback => hnothing (hannounced (Or.inr hback))

/-! ## Runs -/

theorem advanceAll_length [Arithmetic] (normalize : Vector2 → Vector2) (deltaTime : ℚ) (w : World) (players : List BombPlayer) :
    (advanceAll normalize deltaTime w players).2.1.length = players.length := by
  induction players generalizing w with
  | nil => rfl
  | cons p players ih => exact congrArg (· + 1) (ih _)

theorem iterate_ready [Arithmetic] {normalize : Vector2 → Vector2} {s t : TickLoop} {arrivals : Arrivals} (hs : s.Ready)
    (ht : s.iterate normalize arrivals = some t) : t.Ready ∧ t.bombd.session.dirty = false := by
  have hdrained := drain_drained hs.head arrivals
  unfold TickLoop.iterate at ht
  split at ht
  · cases ht
  · cases ht
    refine ⟨⟨?_,?_,?_⟩,rfl⟩
    · exact tickSession_sound normalize (hdrained.sound hs.sound) tickSeconds_pos
    · exact (tickSession_head normalize _ tickSeconds).trans (hdrained.head.trans hs.head)
    · have hlength : (tickSession normalize (s.bombd.drain arrivals) tickSeconds).1.session.players.length =
          (s.bombd.drain arrivals).session.players.length :=
        (List.length_map _).trans (advanceAll_length normalize tickSeconds _ _)
      exact (hlength.trans hdrained.length).trans_le hs.count

theorem init_bombd [Arithmetic] (draws : ℕ → ℕ) (clientIds : List ℕ) :
    (TickLoop.init draws clientIds).bombd = initSession draws clientIds := rfl

theorem init_ready [Arithmetic] (draws : ℕ → ℕ) (clientIds : List ℕ) : (TickLoop.init draws clientIds).Ready := by
  constructor
  · rw [init_bombd]
    exact initSession_sound draws clientIds
  · rw [init_bombd,(initSession_queues draws clientIds).1]
    rfl
  · obtain ⟨n,g,r,hn,-,-,-,-,hplayers⟩ := initSession_parts draws clientIds
    rw [init_bombd,hplayers,List.length_mapIdx,hn]
    exact (List.length_take_le _ _).trans (min_le_right _ _)

theorem initSession_dirty [Arithmetic] (draws : ℕ → ℕ) (clientIds : List ℕ) : (initSession draws clientIds).session.dirty = true := by
  unfold initSession
  dsimp only

theorem init_current [Arithmetic] (draws : ℕ → ℕ) (clientIds : List ℕ) : (TickLoop.init draws clientIds).Current := by
  refine Or.inr ⟨rfl,?_⟩
  rw [init_bombd]
  exact initSession_dirty draws clientIds

theorem run_current_iff [Arithmetic] {normalize : Vector2 → Vector2} {s₀ : TickLoop} (hs : s₀.Ready) (h : s₀.Current)
    (iterations : List Arrivals) :
    (∀ n s, Execution.run (TickLoop.iterate normalize) s₀ (iterations.take n) = some s → s.Current) ↔
    ∀ n s arrivals t, Execution.run (TickLoop.iterate normalize) s₀ (iterations.take n) = some s →
      iterations[n]? = some arrivals → s.iterate normalize arrivals = some t → (s.bombd.drain arrivals).Announced :=
  Execution.safe_iff (I := fun s : TickLoop => s.Ready) (P := fun s : TickLoop => s.Current)
    (fun _ _ _ hs ht => (iterate_ready hs ht).1)
    (fun _ _ _ hs h hmeets ht => Or.inl ((iterate_current_iff hs h ht).mpr hmeets))
    (fun _ _ t hs h ht hafter => (iterate_current_iff hs h ht).mp (hafter.resolve_right fun hfirst => by
      rw [(iterate_ready hs ht).2] at hfirst
      cases hfirst.2)) hs h iterations

/-- After every iteration of the loop the payload built last is the one that would be built
now, if and only if every iteration in which the last bombs explode or a bomb is given
back also has something else to say. -/
theorem state_current_iff [Arithmetic] (normalize : Vector2 → Vector2) (draws : ℕ → ℕ) (clientIds : List ℕ) (iterations : List Arrivals) :
    (∀ n s arrivals t, Execution.run (TickLoop.iterate normalize) (TickLoop.init draws clientIds) (iterations.take n) = some s →
      iterations[n]? = some arrivals → s.iterate normalize arrivals = some t → t.sent = some (statePayload t.bombd)) ↔
    ∀ n s arrivals t, Execution.run (TickLoop.iterate normalize) (TickLoop.init draws clientIds) (iterations.take n) = some s →
      iterations[n]? = some arrivals → s.iterate normalize arrivals = some t → (s.bombd.drain arrivals).Announced := by
  have hready := init_ready draws clientIds
  have hcurrent := init_current draws clientIds
  rw [← run_current_iff hready hcurrent]
  constructor
  · intro h n
    induction n with
    | zero =>
      rintro s hs
      cases hs
      exact hcurrent
    | succ n ih =>
      intro t ht
      cases hn : iterations[n]? with
      | none =>
        rw [List.take_add_one,hn] at ht
        exact ih t (by simpa using ht)
      | some arrivals =>
        obtain ⟨s,hs,ht⟩ := (Execution.run_take_succ hn).mp ht
        exact Or.inl (h n s arrivals t hs hn ht)
  · intro h n s arrivals t hs hn ht
    have hs' : s.Ready := Execution.run_invariant (I := fun s : TickLoop => s.Ready)
      (fun _ _ _ hs ht => (iterate_ready hs ht).1) hs hready
    have hafter := h (n + 1) t ((Execution.run_take_succ hn).mpr ⟨s,hs,ht⟩)
    refine hafter.resolve_right fun hfirst => ?_
    rw [(iterate_ready hs' ht).2] at hfirst
    cases hfirst.2

attribute [local instance] Arithmetic.binary32

/-- A lone player puts one bomb down and stands still until it has exploded. -/
def loneFuse : List Arrivals := ⟨[[0,0,0,1,0,0,0,1]],[]⟩ :: List.replicate 62 ⟨[],[]⟩

/-- The clients go on showing the bomb, and one bomb too few in stock. -/
theorem exploded_bomb_shown :
    ¬ ∀ (normalize : Vector2 → Vector2) (draws : ℕ → ℕ) (clientIds : List ℕ) (iterations : List Arrivals) (s : TickLoop),
      iterations ≠ [] → Execution.run (TickLoop.iterate normalize) (TickLoop.init draws clientIds) iterations = some s →
      s.sent = some (statePayload s.bombd) := by
  intro h
  obtain ⟨s,hs,ht⟩ := Execution.exists_of_run_any (TickLoop.iterate id) (TickLoop.init (fun _ => 0) [1]) loneFuse
    (fun s => (s.sent.any fun payload => payload.bombCount == 1) && decide ((statePayload s.bombd).bombCount = 0))
    (by decide +kernel)
  rw [h id (fun _ => 0) [1] loneFuse s (by decide) hs] at ht
  simp only [Option.any_some,Bool.and_eq_true,beq_iff_eq,decide_eq_true_eq] at ht
  rw [ht.2] at ht
  exact absurd ht.1 (by decide)

end CoreStack.Bomberman
