import CoreStack.Bomberman.MapSync
import CoreStack.Bomberman.StateSync
import CoreStack.Lib.Slotwise

/-! # The match (`main` of bombd)

The whole main loop: the packets it sends over TCP in their order, the datagrams with the
explosions, and step (4), which ends the match. The pattern of the float that stands for a
rational is a parameter.
-/
namespace CoreStack.Bomberman
open BattleRoyale Protocol Utils

/-! ## The packets -/

def Broadcast.PlayerStateEntry.wire (bits : ℚ → UInt32) (e : Broadcast.PlayerStateEntry) : Protocol.PlayerStateEntry :=
  ⟨e.playerId,bits e.x,bits e.y,e.direction,e.isMoving,e.alive,e.numBombs,e.remainingBombs,e.numFires⟩

def Broadcast.BombStateEntry.wire (bits : ℚ → UInt32) (e : Broadcast.BombStateEntry) : Protocol.BombStateEntry :=
  ⟨bits e.x,bits e.y,bits e.timer⟩

def Broadcast.StatePayload.wire (bits : ℚ → UInt32) (payload : Broadcast.StatePayload) : Protocol.StatePayload where
  playerCount := payload.playerCount
  players i := (payload.players i).wire bits
  bombCount := payload.bombCount
  bombs i := (payload.bombs i).wire bits

/-- The roster of `main`. Ids past the count are zero. -/
def rosterPayload (clientIds : List ℕ) : RosterPayload :=
  ⟨UInt32.ofNat clientIds.length,fun i => UInt32.ofNat (clientIds.getD i 0)⟩

/-- The payload of `on_explosion_triggered`: up, down, left, right. -/
def explosionPayload (bits : ℚ → UInt32) (e : ExplosionInfo) : ExplosionPayload :=
  ⟨bits e.center.x,bits e.center.y,fun i =>
    UInt32.ofNat (e.spreadAmt ([.up,.down,.left,.right].get i))⟩

def onExplosionTriggered (bits : ℚ → UInt32) (e : ExplosionInfo) : List Bytes :=
  (packExplosion sendBuffer (explosionPayload bits e)).toList

/-! ## The loop -/

/-- `server.sent` are the packets sent over TCP. `state` is a history variable: the payload
that was built last. -/
structure Match where
  server : Server
  state : Option Broadcast.StatePayload
  datagrams : List Bytes
  matchOver : Bool
  winnerId : ℕ

/-- Step (4) looks for a winner only if more than one player took part. -/
def BombSession.winner (s : BombSession) : ℕ :=
  if 1 < s.players.length ∧ s.countAlive ≤ 1 then ((s.players.find? (·.alive)).map (·.playerId)).getD 0 else 0

namespace Match

/-- The roster and the map are sent before the loop. -/
def start [Arithmetic] (draws : ℕ → ℕ) (clientIds : List ℕ) : Match :=
  let server := Server.init draws clientIds
  ⟨{ server with sent := (packRoster sendBuffer (rosterPayload clientIds)).toList ++ server.sent },none,[],false,0⟩

/-- Step (3): the tiles that changed, and the state if the session is dirty or a bomb ticks. -/
def broadcast (bits : ℚ → UInt32) (s : Match) (ticked : Bombd) : Match :=
  let server := diffAndBroadcastMap { s.server with bombd := ticked }
  if ticked.session.dirty || !ticked.world.bombs.empty then
    let payload := statePayload ticked
    { s with
      server := { server with
        bombd := ⟨{ ticked.session with dirty := false },ticked.world⟩
        sent := server.sent ++ (packState sendBuffer (payload.wire bits)).toList }
      state := some payload }
  else { s with server := server }

/-- One iteration, with what arrived before it. -/
def iterate [Arithmetic] (bits : ℚ → UInt32) (normalize : Vector2 → Vector2) (s : Match) (arrivals : Arrivals) : Option Match :=
  if s.matchOver then none
  else
    let (ticked,exploded) := tickSession normalize (s.server.bombd.drain arrivals) tickSeconds
    let s := s.broadcast bits ticked
    some { s with
      datagrams := s.datagrams ++ exploded.flatMap (onExplosionTriggered bits)
      matchOver := ticked.session.matchOver
      winnerId := ticked.session.winner }

/-- The packets of a match whose loop has been left, because it is over or by a signal. -/
def packets (s : Match) : List Bytes :=
  s.server.sent ++ (packGameOver sendBuffer ⟨UInt32.ofNat s.winnerId⟩).toList

def loop (s : Match) : TickLoop := ⟨s.server.bombd,s.state⟩

def players (s : Match) : List BombPlayer := s.server.bombd.session.players

end Match

/-! ## What becomes of a player -/

/-- A player keeps his id, and once he is dead nothing about him changes. -/
structure Ages (p q : BombPlayer) : Prop where
  playerId : q.playerId = p.playerId
  active : q.active = p.active
  dead : p.alive = false → q = p

theorem Ages.refl (p : BombPlayer) : Ages p p := ⟨rfl,rfl,fun _ => rfl⟩

theorem Ages.trans {p q r : BombPlayer} (h : Ages p q) (h' : Ages q r) : Ages p r where
  playerId := h'.playerId.trans h.playerId
  active := h'.active.trans h.active
  dead hdead := by
    obtain rfl := h.dead hdead
    exact h'.dead hdead

theorem Ages.alive {p q : BombPlayer} (h : Ages p q) (hq : q.alive = true) : p.alive = true := by
  by_contra hdead
  rw [h.dead (Bool.not_eq_true _ ▸ hdead)] at hq
  exact hdead hq

structure Leaves (disconnected : List ℕ) (p q : BombPlayer) : Prop where
  ages : Ages p q
  cause : p.alive = true → q.alive = false → p.playerId ∈ disconnected

/-- He dies only on a burning tile. -/
structure Scorched [Arithmetic] (w : World) (p q : BombPlayer) : Prop where
  ages : Ages p q
  cause : p.alive = true → q.alive = false → { q with alive := true }.burning w = true

section Leaves
variable {disconnected : List ℕ}

theorem Leaves.refl (p : BombPlayer) : Leaves disconnected p p :=
  ⟨.refl p,fun halive hdead => absurd (halive.symm.trans hdead) Bool.noConfusion⟩

theorem Leaves.trans {p q r : BombPlayer} (h : Leaves disconnected p q) (h' : Leaves disconnected q r) :
    Leaves disconnected p r where
  ages := h.ages.trans h'.ages
  cause halive hdead := by
    cases hq : q.alive with
    | false => exact h.cause halive hq
    | true => exact h.ages.playerId ▸ h'.cause hq hdead

theorem steered_alive {s : BombSession} {id i : ℕ} {p : BombPlayer} (h : s.steered id = some (i,p)) : p.alive = true := by
  simp only [BombSession.steered,Option.bind_eq_some_iff,Option.map_eq_some_iff,Prod.mk.injEq] at h
  obtain ⟨_,_,q,hq,-,rfl⟩ := h
  exact (Option.filter_eq_some_iff.mp hq).2

theorem Leaves.steer {p q : BombPlayer} (hp : p.alive = true) (hq : q.alive = true) (hid : q.playerId = p.playerId)
    (hactive : q.active = p.active) : Leaves disconnected p q :=
  ⟨⟨hid,hactive,fun hdead => absurd (hp.symm.trans hdead) Bool.noConfusion⟩,
    fun _ hdead => absurd (hq.symm.trans hdead) Bool.noConfusion⟩

theorem applyMove_leaves (s : Bombd) (playerId : ℕ) (dx dy : ℤ) (sprinting : Bool) :
    List.Forall₂ (Leaves disconnected) s.session.players (applyMove s playerId dx dy sprinting).session.players := by
  unfold applyMove
  split
  · next i p hp =>
    have halive := steered_alive hp
    exact Slotwise.set Leaves.refl (steered_some hp).1 (.steer halive halive rfl rfl)
  · exact Slotwise.refl Leaves.refl _

theorem applyBombPlace_leaves [Arithmetic] (s : Bombd) (playerId : ℕ) :
    List.Forall₂ (Leaves disconnected) s.session.players (applyBombPlace s playerId).session.players := by
  unfold applyBombPlace
  split
  · next i p hp =>
    have halive := steered_alive hp
    exact Slotwise.set Leaves.refl (steered_some hp).1 (.steer halive halive rfl rfl)
  · exact Slotwise.refl Leaves.refl _

theorem applyDisconnect_leaves (s : Bombd) {playerId : ℕ} (h : playerId ∈ disconnected) :
    List.Forall₂ (Leaves disconnected) s.session.players (applyDisconnect s playerId).session.players := by
  unfold applyDisconnect
  split
  · next i p hp =>
    obtain ⟨hget,hid⟩ := steered_some hp
    have halive := steered_alive hp
    refine Slotwise.set Leaves.refl hget ⟨⟨rfl,rfl,fun hdead => ?_⟩,fun _ _ => hid ▸ h⟩
    exact absurd (halive.symm.trans hdead) Bool.noConfusion
  · exact Slotwise.refl Leaves.refl _

theorem handlePacket_leaves [Arithmetic] (s : Bombd) (msgBuffer : List UInt8) :
    List.Forall₂ (Leaves disconnected) s.session.players (handlePacket s msgBuffer).session.players := by
  unfold handlePacket
  dsimp only
  split
  · exact applyMove_leaves s _ _ _ _
  · split
    · exact applyBombPlace_leaves s _
    · exact Slotwise.refl Leaves.refl _

theorem drain_leaves [Arithmetic] (s : Bombd) (arrivals : Arrivals) :
    List.Forall₂ (Leaves arrivals.disconnected) s.session.players (s.drain arrivals).session.players := by
  have hmessages : List.Forall₂ (Leaves arrivals.disconnected) s.session.players
      ((arrivals.messages.take maxMsgsPerTick).foldl handlePacket s).session.players :=
    Slotwise.foldl (fun s : Bombd => s.session.players) Leaves.refl (fun _ _ _ => Leaves.trans) _
      (fun msgBuffer _ s => handlePacket_leaves s msgBuffer) s
  refine Slotwise.trans hmessages ?_ fun _ _ _ => Leaves.trans
  exact Slotwise.foldl (fun s : Bombd => s.session.players) Leaves.refl (fun _ _ _ => Leaves.trans) _
    (fun _ hid s => applyDisconnect_leaves s hid) _

end Leaves

/-! ## The tick -/

theorem advance_ages [Arithmetic] (normalize : Vector2 → Vector2) (deltaTime : ℚ) (w : World) (p : BombPlayer) :
    Ages p (advance normalize deltaTime w p).2.1 ∧ (advance normalize deltaTime w p).2.1.alive = p.alive := by
  unfold advance
  split
  · exact ⟨.refl p,rfl⟩
  · next hlives =>
    have halive : p.alive = true := by
      by_contra hdead
      exact hlives (by simp [hdead])
    have hmoved : ∀ moving : Bool, (if moving then steer normalize deltaTime w p else p).playerId = p.playerId ∧
        (if moving then steer normalize deltaTime w p else p).active = p.active ∧
        (if moving then steer normalize deltaTime w p else p).alive = p.alive := by
      intro moving
      cases moving <;> exact ⟨rfl,rfl,rfl⟩
    obtain ⟨hid,hactive,hsame⟩ := hmoved (decide (p.moveDx ≠ 0 ∨ p.moveDy ≠ 0))
    exact ⟨⟨hid,hactive,fun hdead => absurd (halive.symm.trans hdead) Bool.noConfusion⟩,hsame⟩

theorem advanceAll_ages [Arithmetic] (normalize : Vector2 → Vector2) (deltaTime : ℚ) (w : World) (players : List BombPlayer) :
    List.Forall₂ (fun p q => Ages p q ∧ q.alive = p.alive) players (advanceAll normalize deltaTime w players).2.1 := by
  induction players generalizing w with
  | nil => exact .nil
  | cons p players ih => exact .cons (advance_ages normalize deltaTime w p) (ih _)

theorem kill_scorched [Arithmetic] (w : World) (players : List BombPlayer) :
    List.Forall₂ (Scorched w) players (players.map fun p => if p.burning w then { p with alive := false } else p) := by
  rw [List.forall₂_map_right_iff,List.forall₂_same]
  intro p _
  split
  · next hburns =>
    obtain ⟨-,halive,-⟩ := (burning_iff w p).mp hburns
    obtain ⟨_,_,_,_,_,_,_,_,_,_⟩ := p
    cases halive
    exact ⟨⟨rfl,rfl,fun hdead => nomatch hdead⟩,fun _ _ => hburns⟩
  · exact ⟨.refl p,fun halive hdead => absurd (halive.symm.trans hdead) Bool.noConfusion⟩

theorem tickSession_scorched [Arithmetic] (normalize : Vector2 → Vector2) (s : Bombd) (deltaTime : ℚ) :
    List.Forall₂ (Scorched (tickSession normalize s deltaTime).1.world) s.session.players
      (tickSession normalize s deltaTime).1.session.players := by
  refine Slotwise.trans (advanceAll_ages normalize deltaTime s.world s.session.players)
    (kill_scorched (tickSession normalize s deltaTime).1.world _) fun p q r hpq hqr => ?_
  exact ⟨hpq.1.trans hqr.ages,fun halive hdead => hqr.cause (hpq.2.trans halive) hdead⟩

/-! ## An iteration -/

namespace Match
variable {bits : ℚ → UInt32} {normalize : Vector2 → Vector2} {s t : Match} {arrivals : Arrivals}

def ticked [Arithmetic] (normalize : Vector2 → Vector2) (s : Match) (arrivals : Arrivals) : Bombd :=
  (tickSession normalize (s.server.bombd.drain arrivals) tickSeconds).1

theorem broadcast_bombd (bits : ℚ → UInt32) (s : Match) (ticked : Bombd) :
    (s.broadcast bits ticked).server.bombd = ⟨{ ticked.session with dirty := false },ticked.world⟩ := by
  unfold broadcast
  dsimp only
  split
  · rfl
  · next hclean =>
    obtain ⟨hdirty,-⟩ := Bool.or_eq_false_iff.mp (Bool.not_eq_true _ ▸ hclean)
    obtain ⟨⟨players,dirty⟩,world⟩ := ticked
    cases hdirty
    rfl

theorem broadcast_state (bits : ℚ → UInt32) (s : Match) (ticked : Bombd) : (s.broadcast bits ticked).state =
    if ticked.session.dirty || !ticked.world.bombs.empty then some (statePayload ticked) else s.state := by
  unfold broadcast
  dsimp only
  split <;> rfl

structure Iterates [Arithmetic] (bits : ℚ → UInt32) (normalize : Vector2 → Vector2) (arrivals : Arrivals) (s t : Match) : Prop where
  running : s.matchOver = false
  server : t.server = (s.broadcast bits (s.ticked normalize arrivals)).server
  state : t.state = (s.broadcast bits (s.ticked normalize arrivals)).state
  matchOver : t.matchOver = t.server.bombd.session.matchOver
  winnerId : t.winnerId = t.server.bombd.session.winner

theorem iterate_iterates [Arithmetic] (h : s.iterate bits normalize arrivals = some t) : Iterates bits normalize arrivals s t := by
  unfold iterate at h
  split at h
  · cases h
  · next hrunning =>
    cases h
    have hbombd := s.broadcast_bombd bits (s.ticked normalize arrivals)
    unfold ticked at hbombd
    have hover := congrArg (fun b : Bombd => b.session.matchOver) hbombd
    have hwinner := congrArg (fun b : Bombd => b.session.winner) hbombd
    exact ⟨Bool.not_eq_true _ ▸ hrunning,rfl,rfl,hover.symm,hwinner.symm⟩

theorem Iterates.bombd [Arithmetic] (h : Iterates bits normalize arrivals s t) : t.server.bombd =
    ⟨{ (s.ticked normalize arrivals).session with dirty := false },(s.ticked normalize arrivals).world⟩ := by
  rw [h.server]
  exact broadcast_bombd bits s _

/-- What becomes of a player in an iteration. -/
structure Fate [Arithmetic] (arrivals : Arrivals) (w : World) (p q : BombPlayer) : Prop where
  ages : Ages p q
  cause : p.alive = true → q.alive = false →
    p.playerId ∈ arrivals.disconnected ∨ { q with alive := true }.burning w = true

theorem Iterates.fate [Arithmetic] (h : Iterates bits normalize arrivals s t) :
    List.Forall₂ (Fate arrivals t.server.bombd.world) s.players t.players := by
  unfold players
  rw [h.bombd]
  refine Slotwise.trans (drain_leaves s.server.bombd arrivals) (tickSession_scorched normalize _ tickSeconds)
    fun p q r hpq hqr => ⟨hpq.ages.trans hqr.ages,fun halive hdead => ?_⟩
  cases hq : q.alive with
  | false => exact Or.inl (hpq.cause halive hq)
  | true => exact Or.inr (hqr.cause hq hdead)

theorem iterate_ages [Arithmetic] (h : s.iterate bits normalize arrivals = some t) : List.Forall₂ Ages s.players t.players :=
  (iterate_iterates h).fate.imp fun _ _ hfate => hfate.ages

/-! ## Runs -/

/-- The players have come from those of the start, and the end is decided by who is alive. -/
structure Played (s₀ s : Match) : Prop where
  ages : List.Forall₂ Ages s₀.players s.players
  matchOver : s.matchOver = s.server.bombd.session.matchOver
  winnerId : s.winnerId = s.server.bombd.session.winner

theorem played_iterate [Arithmetic] {s₀ : Match} (s : Match) (arrivals : Arrivals) (t : Match) (h : Played s₀ s)
    (ht : s.iterate bits normalize arrivals = some t) : Played s₀ t :=
  ⟨Slotwise.trans h.ages (iterate_ages ht) fun _ _ _ => Ages.trans,(iterate_iterates ht).matchOver,(iterate_iterates ht).winnerId⟩

theorem start_players [Arithmetic] (draws : ℕ → ℕ) (clientIds : List ℕ) :
    (start draws clientIds).players = (initSession draws clientIds).session.players := by
  unfold players start Server.init
  dsimp only

theorem start_matchOver [Arithmetic] (draws : ℕ → ℕ) (clientIds : List ℕ) : (start draws clientIds).matchOver = false := by
  unfold start
  dsimp only

theorem start_winnerId [Arithmetic] (draws : ℕ → ℕ) (clientIds : List ℕ) : (start draws clientIds).winnerId = 0 := by
  unfold start
  dsimp only

theorem start_alive [Arithmetic] (draws : ℕ → ℕ) (clientIds : List ℕ) {p : BombPlayer} (hp : p ∈ (start draws clientIds).players) :
    p.active = true ∧ p.alive = true := by
  obtain ⟨n,g,r,-,-,-,-,-,hplayers⟩ := initSession_parts draws clientIds
  rw [start_players,hplayers] at hp
  obtain ⟨i,hi,rfl⟩ := List.mem_mapIdx.mp hp
  exact ⟨rfl,rfl⟩

theorem start_ids [Arithmetic] (draws : ℕ → ℕ) {clientIds : List ℕ} (hmax : clientIds.length ≤ bombdMaxPlayers) :
    (start draws clientIds).players.map (·.playerId) = clientIds := by
  obtain ⟨n,g,r,hn,-,-,-,-,hplayers⟩ := initSession_parts draws clientIds
  rw [start_players,hplayers,hn,Nat.min_eq_left hmax,List.take_length]
  refine List.ext_getElem? fun i => ?_
  rw [List.getElem?_map,List.getElem?_mapIdx,Option.map_map]
  cases clientIds[i]? <;> rfl

theorem start_played [Arithmetic] (draws : ℕ → ℕ) (clientIds : List ℕ) : Played (start draws clientIds) (start draws clientIds) := by
  have hall : (start draws clientIds).server.bombd.session.countAlive = (start draws clientIds).players.length := by
    refine List.countP_eq_length.mpr fun p hp => ?_
    obtain ⟨hactive,halive⟩ := start_alive draws clientIds hp
    rw [hactive,halive]
    rfl
  refine ⟨Slotwise.refl Ages.refl _,?_,?_⟩
  · unfold BombSession.matchOver
    rw [hall,players,start_matchOver,eq_comm,Bool.or_eq_false_iff,Bool.and_eq_false_iff,Bool.and_eq_false_iff]
    simp only [decide_eq_false_iff_not]
    omega
  · unfold BombSession.winner
    rw [hall,players,start_winnerId]
    exact (if_neg fun hover => by omega).symm

theorem run_played [Arithmetic] {draws : ℕ → ℕ} {clientIds : List ℕ} {iterations : List Arrivals}
    (hrun : Execution.run (iterate bits normalize) (start draws clientIds) iterations = some s) :
    Played (start draws clientIds) s :=
  Execution.run_invariant played_iterate hrun (start_played draws clientIds)

/-- An iteration of the match is one of its tick loop. -/
theorem Played.loop_iterate [Arithmetic] {s₀ : Match} (hplayed : Played s₀ s) (h : s.iterate bits normalize arrivals = some t) :
    s.loop.iterate normalize arrivals = some t.loop := by
  have hiterates := iterate_iterates h
  have hrunning : ¬s.loop.bombd.session.matchOver = true := by
    change ¬s.server.bombd.session.matchOver = true
    rw [← hplayed.matchOver,hiterates.running]
    exact Bool.noConfusion
  unfold TickLoop.iterate
  rw [if_neg hrunning]
  refine congrArg some ?_
  change _ = (⟨t.server.bombd,t.state⟩ : TickLoop)
  rw [hiterates.bombd,hiterates.state,broadcast_state]
  rfl

/-! ## The end -/

def Living (s : Match) (i : ℕ) : Prop := ∃ p, s.players[i]? = some p ∧ p.alive = true

theorem living_back [Arithmetic] (h : s.iterate bits normalize arrivals = some t) {i : ℕ} (hi : t.Living i) : s.Living i := by
  obtain ⟨q,hq,halive⟩ := hi
  obtain ⟨p,hp,hages⟩ := Slotwise.get_back (iterate_ages h) hq
  exact ⟨p,hp,hages.alive halive⟩

theorem Played.countAlive [Arithmetic] {draws : ℕ → ℕ} {clientIds : List ℕ} (h : Played (start draws clientIds) s) :
    s.server.bombd.session.countAlive = s.players.countP (·.alive) := by
  refine List.countP_congr fun q hq => ?_
  obtain ⟨i,hi⟩ := List.mem_iff_getElem?.mp hq
  obtain ⟨p,hp,hages⟩ := Slotwise.get_back h.ages hi
  rw [hages.active,(start_alive draws clientIds (List.mem_of_getElem? hp)).1,Bool.true_and]

theorem Played.length [Arithmetic] {draws : ℕ → ℕ} {clientIds : List ℕ} (hmax : clientIds.length ≤ bombdMaxPlayers)
    (h : Played (start draws clientIds) s) : s.players.length = clientIds.length := by
  rw [← h.ages.length_eq,← List.length_map (·.playerId),start_ids draws hmax]

theorem Played.playerId [Arithmetic] {draws : ℕ → ℕ} {clientIds : List ℕ} (hmax : clientIds.length ≤ bombdMaxPlayers)
    (h : Played (start draws clientIds) s) {i : ℕ} {p : BombPlayer} (hp : s.players[i]? = some p) :
    clientIds[i]? = some p.playerId := by
  obtain ⟨q,hq,hages⟩ := Slotwise.get_back h.ages hp
  rw [← start_ids draws hmax,List.getElem?_map,hq,hages.playerId]
  rfl

theorem unique_of_countP {α : Type*} {test : α → Bool} {l : List α} (h : l.countP test ≤ 1) {i j : ℕ} {a b : α}
    (hi : l[i]? = some a) (hj : l[j]? = some b) (ha : test a = true) (hb : test b = true) : i = j := by
  induction l generalizing i j with
  | nil => cases hi
  | cons c l ih =>
    have hpos : ∀ {k : ℕ} {d : α}, l[k]? = some d → test d = true → 0 < l.countP test :=
      fun hk hd => List.countP_pos_iff.mpr ⟨_,List.mem_of_getElem? hk,hd⟩
    rw [List.countP_cons] at h
    cases i with
    | zero =>
      obtain rfl : c = a := Option.some.inj hi
      rw [if_pos ha] at h
      cases j with
      | zero => rfl
      | succ j => exact absurd (hpos hj hb) (by omega)
    | succ i =>
      cases j with
      | zero =>
        obtain rfl : c = b := Option.some.inj hj
        rw [if_pos hb] at h
        exact absurd (hpos hi ha) (by omega)
      | succ j => exact congrArg (· + 1) (ih (Nat.le_of_add_right_le h) hi hj)

/-- The match is over once at most one player is alive, or the only one is not. -/
theorem Played.over_iff [Arithmetic] {draws : ℕ → ℕ} {clientIds : List ℕ} (hne : clientIds ≠ [])
    (hmax : clientIds.length ≤ bombdMaxPlayers) (h : Played (start draws clientIds) s) :
    s.matchOver = true ↔ s.players.countP (·.alive) ≤ if clientIds.length = 1 then 0 else 1 := by
  have hlen : s.server.bombd.session.players.length = clientIds.length := h.length hmax
  have hpos := List.length_pos_of_ne_nil hne
  rw [h.matchOver,BombSession.matchOver,hlen,h.countAlive]
  simp only [Bool.or_eq_true,Bool.and_eq_true,decide_eq_true_eq]
  split <;> omega

theorem Played.winner [Arithmetic] {draws : ℕ → ℕ} {clientIds : List ℕ} (hne : clientIds ≠ [])
    (hmax : clientIds.length ≤ bombdMaxPlayers) (h : Played (start draws clientIds) s) (hover : s.matchOver = true) :
    (s.winnerId = 0 ∧ ∀ i, ¬s.Living i) ∨ ∃ i, clientIds[i]? = some s.winnerId ∧ ∀ j, s.Living j ↔ j = i := by
  have hfew := (h.over_iff hne hmax).mp hover
  have hlen : s.server.bombd.session.players.length = clientIds.length := h.length hmax
  have hcount : s.players.countP (·.alive) ≤ 1 := hfew.trans (by split <;> omega)
  have hwinner := h.winnerId
  unfold BombSession.winner at hwinner
  rw [hlen,h.countAlive] at hwinner
  cases hfind : s.players.find? (·.alive) with
  | none =>
    have hdead := List.find?_eq_none.mp hfind
    refine Or.inl ⟨?_,fun i ⟨p,hp,halive⟩ => hdead p (List.mem_of_getElem? hp) halive⟩
    have hnobody : s.server.bombd.session.players.find? (·.alive) = none := hfind
    rw [hwinner,hnobody]
    split <;> rfl
  | some p =>
    have halive := List.find?_some hfind
    obtain ⟨i,hi⟩ := List.mem_iff_getElem?.mp (List.mem_of_find?_eq_some hfind)
    have hsome : 0 < s.players.countP (·.alive) := List.countP_pos_iff.mpr ⟨p,List.mem_of_getElem? hi,halive⟩
    have hmany : 1 < clientIds.length := by
      have hpos := List.length_pos_of_ne_nil hne
      by_contra hone
      rw [if_pos (by omega)] at hfew
      omega
    have hfirst : s.server.bombd.session.players.find? (·.alive) = some p := hfind
    rw [if_pos ⟨hmany,hcount⟩,hfirst] at hwinner
    refine Or.inr ⟨i,?_,fun j => ⟨fun ⟨q,hq,hlives⟩ => ?_,fun hj => hj ▸ ⟨p,hi,halive⟩⟩⟩
    · rw [hwinner]
      exact h.playerId hmax hi
    · exact unique_of_countP hcount hq hi hlives halive

/-- How the player of slot `i` was eliminated: in one iteration, by a lost connection or on
a burning tile. He was alive up to then, and nothing about him has changed since. -/
structure Elimination [Arithmetic] (bits : ℚ → UInt32) (normalize : Vector2 → Vector2) (s₀ : Match) (iterations : List Arrivals) (i : ℕ)
    (p : BombPlayer) (n : ℕ) (arrivals : Arrivals) (t : Match) : Prop where
  during : iterations[n]? = some arrivals
  after : Execution.run (iterate bits normalize) s₀ (iterations.take (n + 1)) = some t
  body : t.players[i]? = some p
  cause : p.playerId ∈ arrivals.disconnected ∨ { p with alive := true }.burning t.server.bombd.world = true
  living : ∀ m u, Execution.run (iterate bits normalize) s₀ (iterations.take m) = some u → (u.Living i ↔ m ≤ n)

theorem eliminated [Arithmetic] {s₀ : Match} {iterations : List Arrivals} {i : ℕ} {p : BombPlayer}
    (hrun : Execution.run (iterate bits normalize) s₀ iterations = some s) (h₀ : s₀.Living i)
    (hp : s.players[i]? = some p) (hdead : p.alive = false) :
    ∃ n arrivals t, Elimination bits normalize s₀ iterations i p n arrivals t := by
  have hgone : ¬s.Living i := by
    rintro ⟨q,hq,halive⟩
    obtain rfl : p = q := Option.some.inj (hp.symm.trans hq)
    exact absurd (hdead.symm.trans halive) Bool.noConfusion
  obtain ⟨n,arrivals,t,u,hn,ht,hu,hsplit⟩ :=
    Execution.run_until (P := fun s : Match => s.Living i) (fun _ _ _ hstep => living_back hstep) hrun h₀ hgone
  have htake : Execution.run (iterate bits normalize) s₀ (iterations.take (n + 1)) = some u :=
    (Execution.run_take_succ hn).mpr ⟨t,ht,hu⟩
  obtain ⟨q,hq,halive⟩ := (hsplit n t ht).mpr (Nat.le_refl n)
  obtain ⟨r,hr,hfate⟩ := Slotwise.get (iterate_iterates hu).fate hq
  have hlost : r.alive = false := by
    by_contra hlives
    exact Nat.not_succ_le_self n ((hsplit (n + 1) u htake).mp ⟨r,hr,Bool.not_eq_false _ ▸ hlives⟩)
  -- from there on the slot is frozen
  obtain ⟨v,hv,hrest⟩ := Execution.run_append.mp (show Execution.run (iterate bits normalize) s₀
    (iterations.take (n + 1) ++ iterations.drop (n + 1)) = some s from (List.take_append_drop _ iterations).symm ▸ hrun)
  obtain rfl : u = v := Option.some.inj (htake.symm.trans hv)
  have hfrozen : List.Forall₂ Ages u.players s.players :=
    Execution.run_invariant (I := fun v : Match => List.Forall₂ Ages u.players v.players)
      (fun _ _ _ hages hstep => Slotwise.trans hages (iterate_ages hstep) fun _ _ _ => Ages.trans) hrest
      (Slotwise.refl Ages.refl _)
  obtain ⟨r',hr',hages⟩ := Slotwise.get hfrozen hr
  obtain rfl : p = r' := Option.some.inj (hp.symm.trans hr')
  obtain rfl := hages.dead hlost
  exact ⟨n,arrivals,u,hn,htake,hr,hfate.ages.playerId ▸ hfate.cause halive hlost,hsplit⟩

/-- Every run of the loop: it ends in the iteration that leaves one player alive at most,
or none of a single one. The winner is then the one who is alive, and has been in every
state. Every other player has been eliminated once and for all. -/
theorem match_decided [Arithmetic] (draws : ℕ → ℕ) {clientIds : List ℕ} (hne : clientIds ≠ [])
    (hmax : clientIds.length ≤ bombdMaxPlayers) {iterations : List Arrivals}
    (hrun : Execution.run (iterate bits normalize) (start draws clientIds) iterations = some s) :
    (s.matchOver = true ↔ s.players.countP (·.alive) ≤ if clientIds.length = 1 then 0 else 1) ∧
    (s.matchOver = true → (s.winnerId = 0 ∧ ∀ i, ¬s.Living i) ∨ ∃ i, clientIds[i]? = some s.winnerId ∧
      (∀ j, s.Living j ↔ j = i) ∧ ∀ n t, Execution.run (iterate bits normalize) (start draws clientIds)
        (iterations.take n) = some t → t.Living i) ∧
    ∀ i p, s.players[i]? = some p → p.alive = false →
      ∃ n arrivals t, Elimination bits normalize (start draws clientIds) iterations i p n arrivals t := by
  have hplayed := run_played hrun
  refine ⟨hplayed.over_iff hne hmax,fun hover => ?_,fun i p hp hdead => ?_⟩
  · refine (hplayed.winner hne hmax hover).imp_right fun ⟨i,hi,hone⟩ => ⟨i,hi,hone,fun n t ht => ?_⟩
    by_contra hdead
    obtain ⟨u,hu,hrest⟩ := Execution.run_append.mp (show Execution.run (iterate bits normalize) (start draws clientIds)
      (iterations.take n ++ iterations.drop n) = some s from (List.take_append_drop n iterations).symm ▸ hrun)
    obtain rfl : t = u := Option.some.inj (ht.symm.trans hu)
    exact Execution.run_invariant (I := fun v : Match => ¬v.Living i)
      (fun _ _ _ hgone hstep hlives => hgone (living_back hstep hlives)) hrest hdead ((hone i).mpr rfl)
  · obtain ⟨q,hq,-⟩ := Slotwise.get_back hplayed.ages hp
    exact eliminated hrun ⟨q,hq,(start_alive draws clientIds (List.mem_of_getElem? hq)).2⟩ hp hdead

attribute [local instance] Arithmetic.binary32

/-- The second of two players loses his connection. -/
theorem match_decided_two : ∃ s, Execution.run (iterate (fun _ => 0) id) (start (fun _ => 0) [7,9]) [⟨[],[9]⟩] = some s ∧
    s.matchOver = true ∧ s.winnerId = 7 ∧
    (s.matchOver = true ↔ s.players.countP (·.alive) ≤ if [7,9].length = 1 then 0 else 1) := by
  obtain ⟨s,hs,hover⟩ := Execution.exists_of_run_any (iterate (fun _ => 0) id) (start (fun _ => 0) [7,9]) [⟨[],[9]⟩]
    (fun s => s.matchOver && s.winnerId == 7) (by decide +kernel)
  obtain ⟨hover,hwinner⟩ := (Bool.and_eq_true _ _).mp hover
  exact ⟨s,hs,hover,beq_iff_eq.mp hwinner,(match_decided (fun _ => 0) (by decide) (by decide) hs).1⟩

end Match
end CoreStack.Bomberman
