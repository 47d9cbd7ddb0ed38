import CoreStack.Bomberman.Match
import CoreStack.Bomberman.Survival
import CoreStack.Lib.Checked

/-! # A client follows the match

The packets bombd sends over TCP arrive in their order. Datagrams with explosions come in
between, and any of them may be lost or repeated.
-/
namespace CoreStack.Bomberman
open BattleRoyale Checked Protocol Region Tables Utils

/-! ## Delivery -/

/-- What a client receives when it has been sent the packets, on a system that grants it every
`malloc`. A message of the application is longer than a packet, and nothing is said about what
follows it. -/
inductive Delivered : List Bytes → List ((ℕ → Bool) × Client.AppMessage) → Prop
  | done : Delivered [] []
  | packet {memory : ℕ → Bool} {message : Client.AppMessage} {packet : Bytes} {sent : List Bytes}
      {received : List ((ℕ → Bool) × Client.AppMessage)} : (∀ n, memory n = true) →
      message.bytes.take packetSize = packet → Delivered sent received →
      Delivered (packet :: sent) ((memory,message) :: received)
  | explosion {memory : ℕ → Bool} {message : Client.AppMessage} {sent : List Bytes}
      {received : List ((ℕ → Bool) × Client.AppMessage)} :
      Protocol.readBombPacketTag message.bytes = some BombPacketType.explosion.code → Delivered sent received →
      Delivered sent ((memory,message) :: received)

theorem Delivered.split (first : List Bytes) {rest : List Bytes} {received : List ((ℕ → Bool) × Client.AppMessage)}
    (h : Delivered (first ++ rest) received) :
    ∃ before after, received = before ++ after ∧ Delivered first before ∧ Delivered rest after := by
  generalize hsent : first ++ rest = sent at h
  induction h generalizing first with
  | done =>
    obtain ⟨rfl,rfl⟩ := List.append_eq_nil_iff.mp hsent
    exact ⟨[],[],rfl,.done,.done⟩
  | @packet memory message packet sent received hmemory hbytes hd ih =>
    cases first with
    | nil =>
      obtain rfl : rest = packet :: sent := hsent
      exact ⟨[],_,rfl,.done,.packet hmemory hbytes hd⟩
    | cons head first =>
      obtain ⟨rfl,htail⟩ := List.cons.inj hsent
      obtain ⟨before,after,rfl,hbefore,hafter⟩ := ih first htail
      exact ⟨_ :: before,after,rfl,.packet hmemory hbytes hbefore,hafter⟩
  | explosion htag _ ih =>
    obtain ⟨before,after,rfl,hbefore,hafter⟩ := ih first hsent
    exact ⟨_ :: before,after,rfl,.explosion htag hbefore,hafter⟩

def ClientEvent.isDeath : ClientEvent → Bool
  | .playerDied => true
  | _ => false

def ClientEvent.isWin : ClientEvent → Bool
  | .matchWon => true
  | _ => false

namespace Client

/-! ## Reading a packet -/

section Read
variable {c : Client} {memory : ℕ → Bool} {message : AppMessage} {type : BombPacketType} {net : Bytes}

theorem tag_carried (h : message.bytes.take packetSize = framed type net) :
    Protocol.readBombPacketTag message.bytes = some type.code := by
  rw [← List.take_append_drop packetSize message.bytes,h,framed,List.append_assoc]
  exact readBombPacketTag_eq _ _

theorem unpackStruct_carried {P : Type*} (h : message.bytes.take packetSize = framed type net) (read : Bytes → P) :
    unpackStruct net.length read message.bytes = some (read net) := by
  obtain ⟨data,hdata,hread⟩ := Option.map_eq_some_iff.mp (unpackStruct_framed type net read)
  rw [← List.take_append_drop packetSize message.bytes,h,unpackStruct,load_extend hdata,Option.map_some,hread]

theorem poll_roster {roster : RosterPayload} (h : message.bytes.take packetSize = framed .roster roster.net) :
    c.networkPoll? memory message = some (c.applyRoster roster) := by
  have hread := unpackStruct_carried h RosterPayload.read
  rw [length_roster,roster_round] at hread
  rw [networkPoll?,tag_carried h,Option.bind_some,if_pos rfl,unpackRoster,hread,Option.map_some]

theorem poll_mapInit {payload : MapInitPayload} (h : message.bytes.take packetSize = framed .mapInit payload.net) :
    c.networkPoll? memory message = c.applyMapInit? memory payload := by
  have hread := unpackStruct_carried h MapInitPayload.read
  rw [length_mapInit,mapInit_round] at hread
  rw [networkPoll?,tag_carried h,Option.bind_some,if_neg (by decide),if_pos rfl,unpackMapInit,hread,Option.bind_some]

theorem poll_tileUpdate {payload : TileUpdatePayload}
    (h : message.bytes.take packetSize = framed .tileUpdate payload.net) :
    c.networkPoll? memory message = c.applyTileUpdate? payload := by
  have hread := unpackStruct_carried h TileUpdatePayload.read
  rw [length_tileUpdate,tileUpdate_round] at hread
  rw [networkPoll?,tag_carried h,Option.bind_some,if_neg (by decide),if_neg (by decide),if_pos rfl,unpackTileUpdate,hread,
    Option.bind_some]

theorem poll_state {payload : StatePayload} (h : message.bytes.take packetSize = framed .state payload.net) :
    c.networkPoll? memory message = c.applyState? (payload.seen freshState) := by
  have hread := unpackState_framed payload freshState
  have hlonger : unpackState message.bytes freshState = some (payload.seen freshState) := by
    rw [← List.take_append_drop packetSize message.bytes,h]
    exact unpackState_extend hread _
  rw [networkPoll?,tag_carried h,Option.bind_some,if_neg (by decide),if_neg (by decide),if_neg (by decide),if_pos rfl,
    hlonger,Option.bind_some]

theorem poll_gameOver {payload : GameOverPayload} (h : message.bytes.take packetSize = framed .gameOver payload.net) :
    c.networkPoll? memory message = some (c.applyGameOver payload) := by
  have hread := unpackStruct_carried h GameOverPayload.read
  rw [length_gameOver,gameOver_round] at hread
  rw [networkPoll?,tag_carried h,Option.bind_some,if_neg (by decide),if_neg (by decide),if_neg (by decide),
    if_neg (by decide),if_neg (by decide),if_pos rfl,unpackGameOver,hread,Option.map_some]

theorem poll_explosion (c : Client) (memory : ℕ → Bool)
    (h : Protocol.readBombPacketTag message.bytes = some BombPacketType.explosion.code) :
    ∃ payload, c.networkPoll? memory message = some (c.applyExplosion payload) := by
  obtain ⟨payload,hread⟩ := unpackStruct_isSome 24 ExplosionPayload.read message (by decide)
  refine ⟨payload,?_⟩
  rw [networkPoll?,h,Option.bind_some,if_neg (by decide),if_neg (by decide),if_neg (by decide),if_neg (by decide),if_pos rfl,
    unpackExplosion,hread,Option.map_some]

end Read
/-! ## Slots -/

/-- The players of the roster sit in the first slots, in its order. -/
structure Seats (ids : List ℕ) (c : Client) : Prop where
  slotUsed : ∀ i : Fin bombdMaxPlayers, c.slotUsed i = decide (i.val < ids.length)
  playerIds : ∀ i : Fin bombdMaxPlayers, i.val < ids.length → c.playerIds i = UInt32.ofNat (ids.getD i 0)
  playerCount : c.playerCount = ids.length

structure Distinct (ids : List ℕ) : Prop where
  nodup : ids.Nodup
  small : ∀ id ∈ ids, id < 4294967296

theorem getD_take {ids : List ℕ} {i k : ℕ} (h : i < k) : (ids.take k).getD i 0 = ids.getD i 0 := by
  rw [List.getD_eq_getElem?_getD,List.getD_eq_getElem?_getD,List.getElem?_take_of_lt h]

theorem Distinct.inj {ids : List ℕ} (h : Distinct ids) {i j : ℕ} (hi : i < ids.length) (hj : j < ids.length)
    (heq : UInt32.ofNat (ids.getD i 0) = UInt32.ofNat (ids.getD j 0)) : i = j := by
  rw [List.getD_eq_getElem?_getD,List.getD_eq_getElem?_getD,List.getElem?_eq_getElem hi,List.getElem?_eq_getElem hj,
    Option.getD_some,Option.getD_some] at heq
  have hnat := congrArg UInt32.toNat heq
  rw [UInt32.toNat_ofNat_of_lt' (h.small _ (List.getElem_mem hi)),
    UInt32.toNat_ofNat_of_lt' (h.small _ (List.getElem_mem hj))] at hnat
  exact (h.nodup.getElem_inj_iff).mp hnat

section Slots
variable {ids : List ℕ} {c : Client}

theorem findOrAddSlot_seated (hids : Distinct ids) (h : c.Seats ids) {i : Fin bombdMaxPlayers} (hi : i.val < ids.length) :
    c.findOrAddSlot (UInt32.ofNat (ids.getD i 0)) = (c,(i.val : ℤ)) := by
  have hfind : (List.finRange bombdMaxPlayers).find? (fun j => c.slotUsed j &&
      c.playerIds j == UInt32.ofNat (ids.getD i 0)) = some i := by
    refine Indices.find?_finRange ?_ fun j hj => ?_
    · rw [h.slotUsed,h.playerIds i hi,beq_self_eq_true,Bool.and_true]
      exact decide_eq_true hi
    · have hlt : j.val < ids.length := Nat.lt_trans hj hi
      rw [h.playerIds j hlt,Bool.and_eq_false_iff]
      exact Or.inr (beq_eq_false_iff_ne.mpr fun heq => Nat.ne_of_lt hj (hids.inj hlt hi heq))
  rw [findOrAddSlot,hfind]

theorem findOrAddSlot_next (hids : Distinct ids) {k : Fin bombdMaxPlayers} (hk : k.val < ids.length)
    (h : c.Seats (ids.take k)) : c.findOrAddSlot (UInt32.ofNat (ids.getD k 0)) =
      ({ c with
          slotUsed := Function.update c.slotUsed k true
          playerIds := Function.update c.playerIds k (UInt32.ofNat (ids.getD k 0))
          alive := Function.update c.alive k true
          players := Function.update c.players k PlayerView.create
          playerCount := if c.playerCount ≤ k.val then k.val + 1 else c.playerCount },(k.val : ℤ)) := by
  have hlen : (ids.take k.val).length = k.val := List.length_take_of_le hk.le
  have hnone : (List.finRange bombdMaxPlayers).find? (fun j => c.slotUsed j &&
      c.playerIds j == UInt32.ofNat (ids.getD k 0)) = none := by
    refine Indices.find?_finRange_none fun j => ?_
    rw [h.slotUsed,hlen]
    by_cases hj : j.val < k.val
    · rw [h.playerIds j (hlen.symm ▸ hj),getD_take hj,Bool.and_eq_false_iff]
      exact Or.inr (beq_eq_false_iff_ne.mpr fun heq => Nat.ne_of_lt hj (hids.inj (hj.trans hk) hk heq))
    · rw [decide_eq_false hj,Bool.false_and]
  have hfree : (List.finRange bombdMaxPlayers).find? (fun j => !c.slotUsed j) = some k := by
    refine Indices.find?_finRange ?_ fun j hj => ?_
    · rw [h.slotUsed,hlen,decide_eq_false (Nat.lt_irrefl _),Bool.not_false]
    · rw [h.slotUsed,hlen,decide_eq_true (show j.val < k.val from hj),Bool.not_true]
  rw [findOrAddSlot,hnone]
  dsimp only
  rw [hfree]

theorem seats_next (hids : Distinct ids) {k : Fin bombdMaxPlayers}
    (hk : k.val < ids.length) (h : c.Seats (ids.take k)) :
    (c.findOrAddSlot (UInt32.ofNat (ids.getD k 0))).1.Seats (ids.take (k + 1)) := by
  have hlen : (ids.take k.val).length = k.val := List.length_take_of_le hk.le
  have hlen' : (ids.take (k.val + 1)).length = k.val + 1 := List.length_take_of_le hk
  rw [findOrAddSlot_next hids hk h]
  constructor
  · intro i
    dsimp only
    rw [Function.update_apply,hlen']
    split
    · next heq => exact (decide_eq_true (by rw [heq]; exact Nat.lt_succ_self _)).symm
    · next hne =>
      have hval : i.val ≠ k.val := fun heq => hne (Fin.ext heq)
      rw [h.slotUsed,hlen,decide_eq_decide]
      omega
  · intro i hi
    rw [hlen'] at hi
    dsimp only
    rw [Function.update_apply,getD_take hi]
    split
    · next heq => rw [heq]
    · next hne =>
      have hval : i.val < k.val := Nat.lt_of_le_of_ne (Nat.le_of_lt_succ hi) fun heq => hne (Fin.ext heq)
      rw [h.playerIds i (hlen.symm ▸ hval),getD_take hval]
  · dsimp only
    rw [h.playerCount,hlen,if_pos (le_refl _),hlen']
    rfl

theorem applyRoster_seats (hids : Distinct ids) (hmax : ids.length ≤ bombdMaxPlayers) (h : c.Seats []) :
    (c.applyRoster (rosterPayload ids)).Seats ids ∧
    (∀ i : Fin bombdMaxPlayers, i.val < ids.length → (c.applyRoster (rosterPayload ids)).alive i = true) ∧
    ∃ players playerIds slotUsed alive playerCount, c.applyRoster (rosterPayload ids) = { c with
      players := players, playerIds := playerIds, slotUsed := slotUsed, alive := alive, playerCount := playerCount } := by
  have hcount : (rosterPayload ids).count.toNat = ids.length := by
    refine UInt32.toNat_ofNat_of_lt' (Nat.lt_of_le_of_lt hmax ?_)
    decide
  have hloop := Indices.foldl_finRange (n := bombdMaxPlayers)
    (I := fun k (d : Client) => d.Seats (ids.take k) ∧
      (∀ i : Fin bombdMaxPlayers, i.val < k → i.val < ids.length → d.alive i = true) ∧
      ∃ players playerIds slotUsed alive playerCount, d = { c with
        players := players, playerIds := playerIds, slotUsed := slotUsed, alive := alive, playerCount := playerCount })
    (f := fun d i => if i.val < (rosterPayload ids).count.toNat then (d.findOrAddSlot ((rosterPayload ids).ids i)).1 else d)
    (fun i d ⟨hseats,halive,hrest⟩ => ?_) (b := c) ⟨List.take_zero ▸ h,fun i hi => absurd hi (Nat.not_lt_zero _),_,_,_,_,_,rfl⟩
  · obtain ⟨hseats,halive,hrest⟩ := hloop
    rw [List.take_of_length_le hmax] at hseats
    exact ⟨hseats,fun i hi => halive i i.isLt hi,hrest⟩
  · rw [hcount]
    split
    · next hi =>
      have hnext := seats_next hids hi hseats
      have heq := findOrAddSlot_next hids hi hseats
      refine ⟨hnext,fun j hj hjlen => ?_,?_⟩
      · change (d.findOrAddSlot (UInt32.ofNat (ids.getD i 0))).1.alive j = true
        rw [heq]
        dsimp only
        rw [Function.update_apply]
        split
        · rfl
        · next hne =>
          exact halive j (Nat.lt_of_le_of_ne (Nat.le_of_lt_succ hj) fun hval => hne (Fin.ext hval)) hjlen
      · obtain ⟨players,playerIds,slotUsed,alive,playerCount,rfl⟩ := hrest
        exact ⟨_,_,_,_,_,congrArg Prod.fst heq⟩
    · next hi =>
      have hlen := Nat.le_of_not_lt hi
      refine ⟨?_,fun j hj hjlen => halive j (by omega) hjlen,hrest⟩
      rw [List.take_of_length_le (Nat.le_succ_of_le hlen)]
      rwa [List.take_of_length_le hlen] at hseats

end Slots

/-! ## The state -/

end Client

def Protocol.PlayerStateEntry.view (e : Protocol.PlayerStateEntry) : PlayerView :=
  ⟨(e.x,e.y),e.direction.toInt32.toInt,e.isMoving != 0,e.numBombs.toInt32.toInt,e.remainingBombs.toInt32.toInt,
    e.numFires.toInt32.toInt⟩

namespace Client

def deaths (c : Client) : ℕ := c.events.countP ClientEvent.isDeath

def wins (c : Client) : ℕ := c.events.countP ClientEvent.isWin

/-- A state packet has room for eight players. -/
def shownPlayers (ids : List ℕ) : ℕ := min ids.length 8

structure Fits (ids : List ℕ) (payload : StatePayload) : Prop where
  playerCount : payload.playerCount.toNat = ids.length
  playerIds : ∀ i : Fin bombdMaxPlayers, i.val < ids.length → (payload.players i).playerId = UInt32.ofNat (ids.getD i 0)

/-- The client shows the players and the bombs of a payload as far as the packet holds them. -/
structure Depicts (ids : List ℕ) (payload : StatePayload) (c : Client) : Prop where
  players : ∀ i : Fin bombdMaxPlayers, i.val < shownPlayers ids →
    c.players i = (payload.players i).view ∧ c.alive i = ((payload.players i).alive != 0)
  bombs : c.bombs.queued = ((List.finRange bombdMaxBombs).map payload.bombs).take (min payload.bombCount.toNat 16)

/-- The death of the local player has been announced once if he is dead. -/
structure Mourns (ids : List ℕ) (c : Client) : Prop where
  own : ∀ i : Fin bombdMaxPlayers, i.val < shownPlayers ids → UInt32.ofNat (ids.getD i 0) = c.localId →
    c.deaths = (!c.alive i).toNat
  nobody : (∀ i : Fin bombdMaxPlayers, i.val < shownPlayers ids → UInt32.ofNat (ids.getD i 0) ≠ c.localId) → c.deaths = 0

/-- Nothing else has changed but players, bombs and the camera. -/
structure Kept (c d : Client) : Prop where
  localId : d.localId = c.localId
  gameOver : d.gameOver = c.gameOver
  winnerId : d.winnerId = c.winnerId
  wins : d.wins = c.wins
  map : d.map = c.map
  mapSize : d.mapSize = c.mapSize

theorem Kept.refl (c : Client) : Kept c c := ⟨rfl,rfl,rfl,rfl,rfl,rfl⟩

section State
variable {ids : List ℕ} {c : Client}

theorem applyEntry?_seated (hids : Distinct ids) (h : c.Seats ids) {i : Fin bombdMaxPlayers} (hi : i.val < ids.length)
    {entry : PlayerStateEntry} (hid : entry.playerId = UInt32.ofNat (ids.getD i 0)) :
    c.applyEntry? entry = some
      (let died := c.alive i && !(entry.alive != 0) && entry.playerId == c.localId
      { c with
        players := Function.update c.players i entry.view
        events := if died then c.events ++ [.playerDied] else c.events
        cameraPos := if died then (entry.x,entry.y) else c.cameraPos
        alive := Function.update c.alive i (entry.alive != 0) }) := by
  unfold applyEntry?
  rw [hid,findOrAddSlot_seated hids h hi]
  dsimp only
  rw [if_neg (Int.not_lt.mpr (Int.natCast_nonneg _)),cell?_natCast i.isLt,Option.map_some]
  rfl

/-- One entry of a payload in which the dead have stayed dead. -/
theorem applyEntry?_mourns (hids : Distinct ids) (h : c.Seats ids) (hmourns : c.Mourns ids) {i : Fin bombdMaxPlayers}
    (hi : i.val < shownPlayers ids) {entry : PlayerStateEntry} (hid : entry.playerId = UInt32.ofNat (ids.getD i 0))
    (hdead : c.alive i = false → entry.alive = 0) :
    ∃ d, c.applyEntry? entry = some d ∧ d.Seats ids ∧ d.Mourns ids ∧ Kept c d ∧
      d.players = Function.update c.players i entry.view ∧ d.alive = Function.update c.alive i (entry.alive != 0) := by
  have hlen : i.val < ids.length := hi.trans_le (min_le_left _ _)
  refine ⟨_,applyEntry?_seated hids h hlen hid,⟨h.slotUsed,h.playerIds,h.playerCount⟩,?_,?_,rfl,rfl⟩
  · rw [hid]
    constructor
    · intro j hj hown
      have hold := hmourns.own j hj hown
      dsimp only [deaths] at hold hown ⊢
      rw [Function.update_apply]
      by_cases heq : j = i
      · subst heq
        rw [if_pos rfl,hown,beq_self_eq_true,Bool.and_true]
        cases halive : c.alive j with
        | false =>
          rw [halive] at hold
          rw [hdead halive]
          exact hold
        | true =>
          rw [halive] at hold
          cases hnow : entry.alive != 0 with
          | false => rw [Bool.not_false,Bool.and_true,if_pos rfl,List.countP_append,hold]; rfl
          | true => exact hold
      · have hother : ¬UInt32.ofNat (ids.getD i 0) = c.localId := fun hsame =>
          heq (Fin.ext (hids.inj (hj.trans_le (min_le_left _ _)) hlen (hown.trans hsame.symm)))
        rw [if_neg heq,beq_eq_false_iff_ne.mpr hother,Bool.and_false,if_neg Bool.false_ne_true]
        exact hold
    · intro hnobody
      have hold := hmourns.nobody hnobody
      dsimp only [deaths] at hold hnobody ⊢
      rw [beq_eq_false_iff_ne.mpr (hnobody i hi),Bool.and_false,if_neg Bool.false_ne_true]
      exact hold
  · refine ⟨rfl,rfl,rfl,?_,rfl,rfl⟩
    dsimp only [wins]
    split
    · rw [List.countP_append]
      rfl
    · rfl

theorem Kept.trans {c d e : Client} (h : Kept c d) (h' : Kept d e) : Kept c e :=
  ⟨h'.localId.trans h.localId,h'.gameOver.trans h.gameOver,h'.winnerId.trans h.winnerId,h'.wins.trans h.wins,
    h'.map.trans h.map,h'.mapSize.trans h.mapSize⟩

theorem bombs_queued (bombs : Fin bombdMaxBombs → BombStateEntry) (count : ℕ) :
    ((List.finRange bombdMaxBombs).foldl (fun q i => if i.val < count then (q.enqueue (bombs i)).1 else q)
      (Queue.init : Queue BombStateEntry 500)).queued = ((List.finRange bombdMaxBombs).map bombs).take count := by
  have hloop := Indices.foldl_finRange (n := bombdMaxBombs)
    (I := fun k (q : Queue BombStateEntry 500) =>
      q.head = 0 ∧ q.items = ((List.finRange bombdMaxBombs).map bombs).take (min k count))
    (f := fun q i => if i.val < count then (q.enqueue (bombs i)).1 else q)
    (fun i q ⟨hhead,hitems⟩ => ?_) (b := Queue.init) ⟨rfl,by rw [Nat.zero_min]; rfl⟩
  · obtain ⟨hhead,hitems⟩ := hloop
    rw [Queue.queued_of_head hhead,hitems]
    refine (List.take_eq_take_iff).mpr ?_
    rw [List.length_map,List.length_finRange]
    omega
  · split
    · next hi =>
      have hlen : q.items.length ≤ i.val := by
        rw [hitems,List.length_take]
        omega
      have hroom : q.rear < 500 := by
        have hbound := i.isLt
        unfold bombdMaxBombs at hbound
        unfold Queue.rear
        omega
      refine ⟨(Queue.enqueue_head q _).trans hhead,?_⟩
      have hget : ((List.finRange bombdMaxBombs).map bombs)[i.val]? = some (bombs i) := by
        rw [List.getElem?_map,List.getElem?_eq_getElem (by rw [List.length_finRange]; exact i.isLt),List.getElem_finRange]
        rfl
      rw [Queue.enqueue_items hroom,hitems,Nat.min_eq_left hi.le,Nat.min_eq_left hi,List.take_add_one,hget]
      rfl
    · next hi =>
      refine ⟨hhead,?_⟩
      rw [hitems,Nat.min_eq_right (Nat.le_of_not_lt hi),Nat.min_eq_right (Nat.le_succ_of_le (Nat.le_of_not_lt hi))]

theorem clampCount_toNat (limit count : UInt32) : (clampCount limit count).toNat = min count.toNat limit.toNat := by
  unfold clampCount
  split
  · next h => exact (Nat.min_eq_right (UInt32.lt_iff_toNat_lt.mp h).le).symm
  · next h => exact (Nat.min_eq_left (UInt32.le_iff_toNat_le.mp (UInt32.not_lt.mp h))).symm

/-- A state packet: the client shows the payload, and if the local player has died the
client says so. -/
theorem applyState?_depicts (hids : Distinct ids) (h : c.Seats ids)
    (hmourns : c.Mourns ids) {payload : StatePayload} (hfits : Fits ids payload)
    (hdead : ∀ i : Fin bombdMaxPlayers, i.val < shownPlayers ids → c.alive i = false → (payload.players i).alive = 0) :
    ∃ d, c.applyState? (payload.seen freshState) = some d ∧ d.Seats ids ∧ d.Mourns ids ∧ d.Depicts ids payload ∧
      Kept c d := by
  have hcount : (payload.seen freshState).playerCount.toNat = shownPlayers ids := by
    have hseen : (payload.seen freshState).playerCount = clampCount statePacketMaxPlayers payload.playerCount := rfl
    rw [hseen,clampCount_toNat,hfits.playerCount]
    rfl
  have hentry : ∀ i : Fin bombdMaxPlayers, i.val < shownPlayers ids →
      (payload.seen freshState).players i = payload.players i := by
    intro i hi
    rw [← hcount] at hi
    exact if_pos hi
  have hloop := Indices.foldlM_finRange (n := bombdMaxPlayers)
    (I := fun k (d : Client) => d.Seats ids ∧ d.Mourns ids ∧ Kept c d ∧
      (∀ i : Fin bombdMaxPlayers, i.val < k → i.val < shownPlayers ids →
        d.players i = (payload.players i).view ∧ d.alive i = ((payload.players i).alive != 0)) ∧
      ∀ i : Fin bombdMaxPlayers, k ≤ i.val → d.alive i = c.alive i)
    (f := fun c i => if i.val < (payload.seen freshState).playerCount.toNat then
      c.applyEntry? ((payload.seen freshState).players i) else some c)
    (fun i d ⟨hseats,hmourned,hkept,hshown,hlater⟩ => ?_)
    (b := c) ⟨h,hmourns,.refl c,fun i hi => absurd hi (Nat.not_lt_zero _),fun _ _ => rfl⟩
  · obtain ⟨d,hd,hseats,hmourned,hkept,hshown,-⟩ := hloop
    have happly : c.applyState? (payload.seen freshState) = some { d with
        bombs := (List.finRange bombdMaxBombs).foldl (fun q i =>
          if i.val < (payload.seen freshState).bombCount.toNat then (q.enqueue ((payload.seen freshState).bombs i)).1 else q)
          Queue.init } := by
      rw [applyState?,hd]
      rfl
    refine ⟨_,happly,⟨hseats.slotUsed,hseats.playerIds,hseats.playerCount⟩,
      ⟨hmourned.own,hmourned.nobody⟩,⟨fun i hi => hshown i i.isLt hi,?_⟩,
      ⟨hkept.localId,hkept.gameOver,hkept.winnerId,hkept.wins,hkept.map,hkept.mapSize⟩⟩
    dsimp only
    rw [bombs_queued]
    have hbombs : (payload.seen freshState).bombCount.toNat = min payload.bombCount.toNat 16 :=
      clampCount_toNat statePacketMaxBombs payload.bombCount
    rw [hbombs]
    refine List.ext_getElem? fun k => ?_
    rw [List.getElem?_take,List.getElem?_take]
    split
    · next hk =>
      rw [List.getElem?_map,List.getElem?_map]
      cases hget : (List.finRange bombdMaxBombs)[k]? with
      | none => rfl
      | some j =>
        obtain ⟨hlt,heq⟩ := List.getElem?_eq_some_iff.mp hget
        rw [List.getElem_finRange] at heq
        have hj : j.val < (payload.seen freshState).bombCount.toNat := by
          rw [hbombs,← heq]
          exact hk
        exact congrArg some (if_pos hj)
    · rfl
  · rw [hcount]
    split
    · next hi =>
      have hlen : i.val < ids.length := hi.trans_le (min_le_left _ _)
      rw [hentry i hi]
      obtain ⟨e,he,hseats',hmourned',hkept',hplayers,halive⟩ := applyEntry?_mourns hids hseats hmourned hi
        (hfits.playerIds i hlen) fun hgone => hdead i hi (by rw [← hlater i (Nat.le_refl _)]; exact hgone)
      refine ⟨e,he,hseats',hmourned',hkept.trans hkept',fun j hj hjshown => ?_,fun j hj => ?_⟩
      · rw [hplayers,halive,Function.update_apply,Function.update_apply]
        by_cases heq : j = i
        · rw [if_pos heq,if_pos heq,heq]
          exact ⟨rfl,rfl⟩
        · rw [if_neg heq,if_neg heq]
          exact hshown j (Nat.lt_of_le_of_ne (Nat.le_of_lt_succ hj) fun hval => heq (Fin.ext hval)) hjshown
      · have hne : j ≠ i := fun heq => Nat.not_succ_le_self _ (heq ▸ hj)
        rw [halive,Function.update_of_ne hne]
        exact hlater j (Nat.le_of_succ_le hj)
    · next hi =>
      exact ⟨d,rfl,hseats,hmourned,hkept,fun j hj hjshown => hshown j (by omega) hjshown,
        fun j hj => hlater j (Nat.le_of_succ_le hj)⟩

end State

/-! ## The other packets -/

theorem applyMapInit?_granted {c : Client} (h : c.Sound) {memory : ℕ → Bool} (hmemory : ∀ n, memory n = true)
    (payload : MapInitPayload) (hpos : 0 ≤ payload.mapSize.toInt32.toInt) :
    ∃ t, c.applyMapInit? memory payload =
      some { c with mapSize := payload.mapSize.toInt32.toInt, map := some t, hasMap := true } := by
  have hall : (List.range payload.mapSize.toInt32.toInt.toNat).all (fun i => memory (i + 1)) = true :=
    List.all_eq_true.mpr fun i _ => hmemory (i + 1)
  have hlt := payload.mapSize.toInt32.toInt_lt
  unfold applyMapInit?
  rw [mapFree?_eq h,Option.bind_some]
  dsimp only
  rw [allocates_nonneg hpos hlt (by decide),hmemory 0,if_pos rfl,fillRows_eq payload hpos hlt (Nat.le_refl _),if_pos hall]
  exact ⟨_,rfl⟩

/-- What a match has made of a client so far, when all the packets have arrived. -/
structure Follows (bits : ℚ → UInt32) (ids : List ℕ) (localId : UInt32) (state : Option Broadcast.StatePayload)
    (c : Client) : Prop where
  seats : c.Seats ids
  mourns : c.Mourns ids
  fresh : state = none → ∀ i : Fin bombdMaxPlayers, i.val < ids.length → c.alive i = true
  depicts : ∀ payload, state = some payload → c.Depicts ids (payload.wire bits)
  localId : c.localId = localId
  gameOver : c.gameOver = false
  wins : c.wins = 0
  sound : c.Sound
  map : c.map.isSome = true

section Follows
variable {bits : ℚ → UInt32} {ids : List ℕ} {localId : UInt32} {state : Option Broadcast.StatePayload} {c : Client}

theorem Follows.explosion (h : c.Follows bits ids localId state) (payload : ExplosionPayload) :
    (c.applyExplosion payload).Follows bits ids localId state := by
  have hdeaths : (c.applyExplosion payload).deaths = c.deaths := List.countP_append
  have hwins : (c.applyExplosion payload).wins = c.wins := List.countP_append
  exact ⟨⟨h.seats.slotUsed,h.seats.playerIds,h.seats.playerCount⟩,
    ⟨fun i hi hown => hdeaths.trans (h.mourns.own i hi hown),fun hnobody => hdeaths.trans (h.mourns.nobody hnobody)⟩,
    h.fresh,fun p hp => ⟨(h.depicts p hp).players,(h.depicts p hp).bombs⟩,h.localId,h.gameOver,hwins.trans h.wins,
    sound_of_eq h.sound rfl rfl,h.map⟩

/-- A tile update with coordinates below the bound of the packet. -/
theorem Follows.tileUpdate (h : c.Follows bits ids localId state) {payload : TileUpdatePayload}
    (hsmall : payload.x.toNat < 2147483648 ∧ payload.y.toNat < 2147483648) :
    ∃ d, c.applyTileUpdate? payload = some d ∧ d.Follows bits ids localId state := by
  obtain ⟨d,hd⟩ := (applyTileUpdate?_isSome h.sound payload).mpr fun _ _ _ => hsmall
  have hsound := applyTileUpdate?_sound h.sound hd
  refine ⟨d,hd,?_⟩
  rcases applyTileUpdate?_cases hd with ⟨rfl,-⟩ | ⟨t,t',-,-,-,rfl⟩
  · exact h
  · exact ⟨⟨h.seats.slotUsed,h.seats.playerIds,h.seats.playerCount⟩,⟨h.mourns.own,h.mourns.nobody⟩,h.fresh,
      fun p hp => ⟨(h.depicts p hp).players,(h.depicts p hp).bombs⟩,h.localId,h.gameOver,h.wins,hsound,rfl⟩

end Follows

/-! ## Runs of the client -/

theorem run_explosions {I : Client → Prop} (hkeep : ∀ c payload, I c → I (c.applyExplosion payload))
    {received : List ((ℕ → Bool) × AppMessage)} (h : Delivered [] received) {c : Client} (hc : I c) :
    ∃ d, Execution.run poll c received = some d ∧ I d := by
  generalize hsent : ([] : List Bytes) = sent at h
  induction h generalizing c with
  | done => exact ⟨c,rfl,hc⟩
  | packet _ _ _ _ => cases hsent
  | @explosion memory message sent received htag _ ih =>
    obtain ⟨payload,hpoll⟩ := poll_explosion c memory htag
    obtain ⟨d,hd,hi⟩ := ih (hkeep c payload hc) hsent
    exact ⟨d,Execution.run_cons.mpr ⟨_,hpoll,hd⟩,hi⟩

/-- One packet brings the client from `I` to `J`, which explosions keep. -/
theorem run_packet {I J : Client → Prop} (hkeep : ∀ c payload, I c → I (c.applyExplosion payload))
    (hkeep' : ∀ c payload, J c → J (c.applyExplosion payload)) {packet : Bytes}
    (hstep : ∀ (c : Client) (memory : ℕ → Bool) (message : AppMessage), I c → (∀ n, memory n = true) →
      message.bytes.take packetSize = packet → ∃ d, c.networkPoll? memory message = some d ∧ J d)
    {received : List ((ℕ → Bool) × AppMessage)} (h : Delivered [packet] received) {c : Client} (hc : I c) :
    ∃ d, Execution.run poll c received = some d ∧ J d := by
  generalize hsent : [packet] = sent at h
  induction h generalizing c with
  | done => cases hsent
  | @packet memory message packet' sent received hmemory hbytes hrest _ =>
    obtain ⟨rfl,rfl⟩ := List.cons.inj hsent
    obtain ⟨d,hd,hj⟩ := hstep c memory message hc hmemory hbytes
    obtain ⟨e,he,hj⟩ := run_explosions hkeep' hrest hj
    exact ⟨e,Execution.run_cons.mpr ⟨d,hd,he⟩,hj⟩
  | @explosion memory message sent received htag _ ih =>
    obtain ⟨payload,hpoll⟩ := poll_explosion c memory htag
    obtain ⟨d,hd,hj⟩ := ih (hkeep c payload hc) hsent
    exact ⟨d,Execution.run_cons.mpr ⟨_,hpoll,hd⟩,hj⟩

theorem run_tileUpdates {bits : ℚ → UInt32} {ids : List ℕ} {localId : UInt32} {state : Option Broadcast.StatePayload}
    {updates : List TileUpdatePayload} (hsmall : ∀ u ∈ updates, u.x.toNat < 2147483648 ∧ u.y.toNat < 2147483648)
    {received : List ((ℕ → Bool) × AppMessage)}
    (h : Delivered (updates.map fun u => framed .tileUpdate u.net) received) {c : Client}
    (hc : c.Follows bits ids localId state) :
    ∃ d, Execution.run poll c received = some d ∧ d.Follows bits ids localId state := by
  induction updates generalizing received c with
  | nil => exact run_explosions (fun _ payload hf => hf.explosion payload) h hc
  | cons u updates ih =>
    obtain ⟨hu,hupdates⟩ := List.forall_mem_cons.mp hsmall
    obtain ⟨before,after,rfl,hbefore,hafter⟩ := Delivered.split [framed .tileUpdate u.net] h
    obtain ⟨d,hd,hf⟩ := run_packet (I := Follows bits ids localId state) (J := Follows bits ids localId state)
      (fun _ payload hf => hf.explosion payload) (fun _ payload hf => hf.explosion payload)
      (fun c memory message hf _ hbytes => poll_tileUpdate (c := c) hbytes ▸ hf.tileUpdate hu) hbefore hc
    obtain ⟨e,he,hf⟩ := ih hupdates hafter hf
    exact ⟨e,Execution.run_append.mpr ⟨d,hd,he⟩,hf⟩

end Client

/-! ## What the server sends -/

theorem packRoster_sent (roster : RosterPayload) :
    (packRoster sendBuffer roster).toList = [framed .roster roster.net] := by
  rw [packRoster,packStruct_eq length_sendBuffer .roster (by rw [length_roster]; decide)]
  rfl

theorem packMapInit_sent (payload : MapInitPayload) :
    (packMapInit sendBuffer payload).toList = [framed .mapInit payload.net] := by
  rw [packMapInit,packStruct_eq length_sendBuffer .mapInit (by rw [length_mapInit]; decide)]
  rfl

theorem packTileUpdate_sent (payload : TileUpdatePayload) :
    (packTileUpdate sendBuffer payload).toList = [framed .tileUpdate payload.net] := by
  rw [packTileUpdate,packStruct_eq length_sendBuffer .tileUpdate (by rw [length_tileUpdate]; decide)]
  rfl

theorem packState_sent (payload : StatePayload) :
    (packState sendBuffer payload).toList = [framed .state payload.net] := by
  rw [packState_eq payload length_sendBuffer]
  rfl

theorem packGameOver_sent (payload : GameOverPayload) :
    (packGameOver sendBuffer payload).toList = [framed .gameOver payload.net] := by
  rw [packGameOver,packStruct_eq length_sendBuffer .gameOver (by rw [length_gameOver]; decide)]
  rfl

/-- The loop over the map sends tile updates with coordinates of the packet's map. -/
theorem diffTiles_sent (map : Grid) {cells : List (ℕ × ℕ)}
    (hcells : ∀ cell ∈ cells, cell.1 < bombdMaxMapDim ∧ cell.2 < bombdMaxMapDim) (r : Snapshot × List Bytes) :
    ∃ updates : List TileUpdatePayload, (∀ u ∈ updates, u.x.toNat < 2147483648 ∧ u.y.toNat < 2147483648) ∧
      (cells.foldl (diffTile map) r).2 = r.2 ++ updates.map fun u => framed .tileUpdate u.net := by
  induction cells generalizing r with
  | nil => exact ⟨[],fun u hu => absurd hu List.not_mem_nil,(List.append_nil _).symm⟩
  | cons cell cells ih =>
    obtain ⟨⟨hx,hy⟩,hcells⟩ := List.forall_mem_cons.mp hcells
    obtain ⟨updates,hsmall,hsent⟩ := ih hcells (diffTile map r cell)
    rw [List.foldl_cons]
    by_cases hsame : (map cell.1 cell.2).code = r.1 cell
    · have hnone : diffTile map r cell = r := if_pos hsame
      rw [hnone] at hsent ⊢
      exact ⟨updates,hsmall,hsent⟩
    · have hone : (diffTile map r cell).2 =
          broadcastTileUpdate r.2 cell.1 cell.2 (map cell.1 cell.2).code := congrArg Prod.snd (if_neg hsame)
      refine ⟨⟨UInt32.ofNat cell.1,UInt32.ofNat cell.2,(map cell.1 cell.2).code.toUInt32⟩ :: updates,?_,?_⟩
      · refine List.forall_mem_cons.mpr ⟨?_,hsmall⟩
        unfold bombdMaxMapDim at hx hy
        dsimp only
        rw [UInt32.toNat_ofNat',UInt32.toNat_ofNat']
        omega
      · rw [hsent,hone,broadcastTileUpdate,packTileUpdate_sent,List.append_assoc]
        rfl

namespace Match
variable {bits : ℚ → UInt32} {normalize : Vector2 → Vector2} {s t : Match} {arrivals : Arrivals}

theorem start_sent [Arithmetic] (draws : ℕ → ℕ) (clientIds : List ℕ) : (start draws clientIds).server.sent =
    [framed .roster (rosterPayload clientIds).net,framed .mapInit (mapInit (initSession draws clientIds).world).net] := by
  unfold start Server.init
  dsimp only
  rw [packRoster_sent,packMapInit_sent]
  rfl

/-- Step (3) sends tile updates and then, if there is anything to say, the state. -/
theorem broadcast_sent (bits : ℚ → UInt32) (s : Match) (ticked : Bombd) :
    ∃ updates : List TileUpdatePayload, (∀ u ∈ updates, u.x.toNat < 2147483648 ∧ u.y.toNat < 2147483648) ∧
      ((s.broadcast bits ticked).state = s.state ∧ (s.broadcast bits ticked).server.sent =
        s.server.sent ++ updates.map (fun u => framed .tileUpdate u.net) ∨
      (s.broadcast bits ticked).state = some (statePayload ticked) ∧ (s.broadcast bits ticked).server.sent =
        s.server.sent ++ (updates.map (fun u => framed .tileUpdate u.net) ++
          [framed .state ((statePayload ticked).wire bits).net])) := by
  have hcells : ∀ cell ∈ sentCells ticked.world.mapSize, cell.1 < bombdMaxMapDim ∧ cell.2 < bombdMaxMapDim := by
    intro cell hcell
    obtain ⟨hx,hy⟩ := mem_sentCells.mp hcell
    exact ⟨hx.trans_le (min_le_right _ _),hy.trans_le (min_le_right _ _)⟩
  obtain ⟨updates,hsmall,hsent⟩ := diffTiles_sent ticked.world.map hcells (s.server.prevMap,s.server.sent)
  refine ⟨updates,hsmall,?_⟩
  unfold broadcast
  dsimp only
  split
  · refine Or.inr ⟨rfl,?_⟩
    dsimp only
    rw [packState_sent,← List.append_assoc]
    exact congrArg (· ++ _) hsent
  · exact Or.inl ⟨rfl,hsent⟩

/-- The client that has all the packets of `s` follows it, whatever explosions came between. -/
def Followed (bits : ℚ → UInt32) (clientIds : List ℕ) (localId : UInt32) (tiles : ℕ → ℕ → Tile) (s : Match) : Prop :=
  ∀ received, Delivered s.server.sent received → ∃ c, Execution.run Client.poll (Client.start localId tiles) received =
    some c ∧ c.Follows bits clientIds localId s.state

theorem start_followed [Arithmetic] (bits : ℚ → UInt32) (draws : ℕ → ℕ) {clientIds : List ℕ} (hids : Client.Distinct clientIds)
    (hmax : clientIds.length ≤ bombdMaxPlayers) (localId : UInt32) (tiles : ℕ → ℕ → Tile) :
    Followed bits clientIds localId tiles (start draws clientIds) := by
  intro received h
  rw [start_sent] at h
  obtain ⟨before,after,rfl,hroster,hmap⟩ := Delivered.split [framed .roster (rosterPayload clientIds).net] h
  have hnobody : Client.shownPlayers [] = 0 := rfl
  have hempty : (Client.start localId tiles).Follows bits [] localId none := by
    refine ⟨⟨fun i => rfl,fun i hi => absurd hi (Nat.not_lt_zero _),rfl⟩,⟨fun i hi => ?_,fun _ => rfl⟩,
      fun _ i hi => absurd hi (Nat.not_lt_zero _),fun _ hstate => absurd hstate (Option.some_ne_none _).symm,rfl,rfl,rfl,
      Client.sound_start localId tiles,rfl⟩
    rw [hnobody] at hi
    exact absurd hi (Nat.not_lt_zero _)
  obtain ⟨c,hc,hfollows⟩ := Client.run_packet (I := Client.Follows bits [] localId none)
    (J := Client.Follows bits clientIds localId none) (fun _ payload hf => hf.explosion payload)
    (fun _ payload hf => hf.explosion payload) (fun c memory message hf _ hbytes => by
      obtain ⟨hseats,halive,players,playerIds,slotUsed,alive,playerCount,heq⟩ :=
        Client.applyRoster_seats hids hmax hf.seats
      refine ⟨_,Client.poll_roster hbytes,hseats,⟨fun i hi _ => ?_,fun _ => ?_⟩,fun _ => halive,
        fun _ hstate => absurd hstate (Option.some_ne_none _).symm,?_,?_,?_,?_,?_⟩
      · rw [halive i (hi.trans_le (min_le_left _ _)),heq]
        exact hf.mourns.nobody fun j hj => absurd hj (Nat.not_lt_zero _)
      · rw [heq]
        exact hf.mourns.nobody fun j hj => absurd hj (Nat.not_lt_zero _)
      · rw [heq]
        exact hf.localId
      · rw [heq]
        exact hf.gameOver
      · rw [heq]
        exact hf.wins
      · rw [heq]
        exact Client.sound_of_eq hf.sound rfl rfl
      · rw [heq]
        exact hf.map) hroster hempty
  obtain ⟨d,hd,hfollows⟩ := Client.run_packet (I := Client.Follows bits clientIds localId none)
    (J := Client.Follows bits clientIds localId none) (fun _ payload hf => hf.explosion payload)
    (fun _ payload hf => hf.explosion payload) (fun c memory message hf hmemory hbytes => by
      have hsize := toInt_ofNat (mapSize_small draws clientIds)
      obtain ⟨t,ht⟩ := Client.applyMapInit?_granted hf.sound hmemory (mapInit (initSession draws clientIds).world)
        (hsize ▸ Int.natCast_nonneg _)
      refine ⟨_,(Client.poll_mapInit hbytes).trans ht,⟨hf.seats.slotUsed,hf.seats.playerIds,hf.seats.playerCount⟩,
        ⟨hf.mourns.own,hf.mourns.nobody⟩,hf.fresh,fun _ hstate => absurd hstate (Option.some_ne_none _).symm,hf.localId,hf.gameOver,hf.wins,
        Client.applyMapInit?_sound hf.sound ht,rfl⟩) hmap hfollows
  exact ⟨d,Execution.run_append.mpr ⟨c,hc,hd⟩,hfollows⟩

theorem statePayload_entry {b : Bombd} {i : Fin bombdMaxPlayers} {p : BombPlayer}
    (hp : b.session.players[i.val]? = some p) : (statePayload b).players i = playerEntry p := by
  unfold statePayload
  dsimp only
  rw [hp]
  rfl

theorem playerEntry_dead (p : BombPlayer) : (playerEntry p).alive = 0 ↔ p.alive = false := by
  unfold playerEntry
  cases p.alive with
  | false => exact ⟨fun _ => rfl,fun _ => rfl⟩
  | true => exact ⟨fun h => (nomatch h),fun h => (nomatch h)⟩

/-- The payload that was built last knows no dead player who is alive now. -/
def Remembers (s : Match) : Prop := ∀ payload, s.state = some payload → ∀ (i : Fin bombdMaxPlayers) (p : BombPlayer),
  s.players[i.val]? = some p → (payload.players i).alive = 0 → p.alive = false

/-- After an iteration the payload is the old one or that of the state reached. -/
theorem Iterates.state_cases [Arithmetic] (h : Iterates bits normalize arrivals s t) :
    ∃ updates : List TileUpdatePayload, (∀ u ∈ updates, u.x.toNat < 2147483648 ∧ u.y.toNat < 2147483648) ∧
      (t.state = s.state ∧ t.server.sent = s.server.sent ++ updates.map (fun u => framed .tileUpdate u.net) ∨
      t.state = some (statePayload t.server.bombd) ∧ t.server.sent = s.server.sent ++
        (updates.map (fun u => framed .tileUpdate u.net) ++
          [framed .state ((statePayload t.server.bombd).wire bits).net])) := by
  have hpayload : statePayload t.server.bombd = statePayload (s.ticked normalize arrivals) := by
    rw [h.bombd]
    rfl
  obtain ⟨updates,hsmall,hcases⟩ := broadcast_sent bits s (s.ticked normalize arrivals)
  refine ⟨updates,hsmall,?_⟩
  rw [hpayload,h.state,h.server]
  exact hcases

theorem Iterates.remembers [Arithmetic] (h : Iterates bits normalize arrivals s t) (hs : s.Remembers) : t.Remembers := by
  intro payload hpayload i q hq hdead
  obtain ⟨p,hp,hfate⟩ := Slotwise.get_back h.fate hq
  obtain ⟨-,-,⟨hsame,-⟩ | ⟨hnew,-⟩⟩ := h.state_cases
  · have hgone := hs payload (hsame ▸ hpayload) i p hp hdead
    rw [hfate.ages.dead hgone]
    exact hgone
  · obtain rfl : payload = statePayload t.server.bombd := Option.some.inj (hpayload.symm.trans hnew)
    rw [statePayload_entry hq] at hdead
    exact (playerEntry_dead q).mp hdead

theorem Played.fits [Arithmetic] {draws : ℕ → ℕ} {clientIds : List ℕ} (hmax : clientIds.length ≤ bombdMaxPlayers)
    (h : Played (start draws clientIds) s) : Client.Fits clientIds ((statePayload s.server.bombd).wire bits) := by
  have hlen : s.server.bombd.session.players.length = clientIds.length := h.length hmax
  constructor
  · have hcount : ((statePayload s.server.bombd).wire bits).playerCount =
        UInt32.ofNat s.server.bombd.session.players.length := rfl
    rw [hcount,hlen]
    refine UInt32.toNat_ofNat_of_lt' (Nat.lt_of_le_of_lt hmax ?_)
    decide
  · intro i hi
    have hlt : i.val < s.players.length := hlen.symm ▸ hi
    have hp := List.getElem?_eq_getElem hlt
    have hid := h.playerId hmax hp
    have hentry := statePayload_entry (b := s.server.bombd) (i := i) hp
    rw [List.getD_eq_getElem?_getD,hid]
    exact congrArg Broadcast.PlayerStateEntry.playerId hentry

theorem iterate_followed [Arithmetic] {draws : ℕ → ℕ} {clientIds : List ℕ} (hids : Client.Distinct clientIds)
    (hmax : clientIds.length ≤ bombdMaxPlayers) {localId : UInt32} {tiles : ℕ → ℕ → Tile}
    (hplayed : Played (start draws clientIds) s) (hs : s.Remembers) (h : Followed bits clientIds localId tiles s)
    (ht : s.iterate bits normalize arrivals = some t) : Followed bits clientIds localId tiles t := by
  have hiter := iterate_iterates ht
  have hplayed' := played_iterate s arrivals t hplayed ht
  obtain ⟨updates,hsmall,⟨hstate,hsent⟩ | ⟨hstate,hsent⟩⟩ := hiter.state_cases
  · intro received hreceived
    rw [hsent] at hreceived
    obtain ⟨before,after,rfl,hbefore,hafter⟩ := Delivered.split _ hreceived
    obtain ⟨c,hc,hfollows⟩ := h before hbefore
    obtain ⟨d,hd,hfollows⟩ := Client.run_tileUpdates hsmall hafter hfollows
    rw [hstate]
    exact ⟨d,Execution.run_append.mpr ⟨c,hc,hd⟩,hfollows⟩
  · intro received hreceived
    rw [hsent] at hreceived
    obtain ⟨before,after,rfl,hbefore,hafter⟩ := Delivered.split _ hreceived
    obtain ⟨middle,last,rfl,hmiddle,hlast⟩ := Delivered.split _ hafter
    obtain ⟨c,hc,hfollows⟩ := h before hbefore
    obtain ⟨d,hd,hfollows⟩ := Client.run_tileUpdates hsmall hmiddle hfollows
    obtain ⟨e,he,hfollows⟩ := Client.run_packet (I := Client.Follows bits clientIds localId s.state)
      (J := Client.Follows bits clientIds localId t.state) (fun _ payload hf => hf.explosion payload)
      (fun _ payload hf => hf.explosion payload) (fun c memory message hf _ hbytes => by
        have hdead : ∀ i : Fin bombdMaxPlayers, i.val < Client.shownPlayers clientIds → c.alive i = false →
            (((statePayload t.server.bombd).wire bits).players i).alive = 0 := by
          intro i hi hgone
          have hlen : i.val < clientIds.length := hi.trans_le (min_le_left _ _)
          cases hold : s.state with
          | none => exact absurd ((hf.fresh hold i hlen).symm.trans hgone) Bool.noConfusion
          | some payload =>
            have hshown := ((hf.depicts payload hold).players i hi).2
            have hzero : (payload.players i).alive = 0 := by
              have hne := hshown.symm.trans hgone
              exact bne_eq_false_iff_eq.mp hne
            have hlt : i.val < s.players.length := (hplayed.length hmax).symm ▸ hlen
            obtain ⟨q,hq,hages⟩ := Slotwise.get (iterate_ages ht) (List.getElem?_eq_getElem hlt)
            have hlost := hs payload hold i _ (List.getElem?_eq_getElem hlt) hzero
            have hq' : q.alive = false := by
              rw [hages.dead hlost]
              exact hlost
            have hentry := congrArg Broadcast.PlayerStateEntry.alive (statePayload_entry (b := t.server.bombd) (i := i) hq)
            exact hentry.trans ((playerEntry_dead q).mpr hq')
        obtain ⟨d,hd,hseats,hmourns,hdepicts,hkept⟩ :=
          Client.applyState?_depicts hids hf.seats hf.mourns (hplayed'.fits hmax) hdead
        refine ⟨d,(Client.poll_state hbytes).trans hd,hseats,hmourns,fun hnone => ?_,fun payload hpayload => ?_,
          hkept.localId.trans hf.localId,hkept.gameOver.trans hf.gameOver,hkept.wins.trans hf.wins,
          Client.sound_of_eq hf.sound hkept.map hkept.mapSize,hkept.map ▸ hf.map⟩
        · rw [hstate] at hnone
          cases hnone
        · obtain rfl : payload = statePayload t.server.bombd := Option.some.inj (hpayload.symm.trans hstate)
          exact hdepicts) hlast hfollows
    exact ⟨e,Execution.run_append.mpr ⟨c,hc,Execution.run_append.mpr ⟨d,hd,he⟩⟩,hfollows⟩

end Match

/-! ## The map -/

theorem unpackStruct_extend {P : Type*} {size : ℕ} {packet : Bytes} (h : tagSize + size ≤ packet.length)
    (read : Bytes → P) (rest : Bytes) : unpackStruct size read (packet ++ rest) = unpackStruct size read packet := by
  obtain ⟨net,hnet⟩ := load_isSome h
  rw [unpackStruct,unpackStruct,hnet,load_extend hnet]

theorem networkPoll_extend (m : ClientMap) {packet : Bytes} (h : packet.length = packetSize) (rest : Bytes) :
    networkPoll m (packet ++ rest) = networkPoll m packet := by
  have htag : Protocol.readBombPacketTag (packet ++ rest) = Protocol.readBombPacketTag packet := by
    have hfit : 0 + tagSize ≤ packet.length := by
      rw [h]
      decide
    obtain ⟨net,hnet⟩ := load_isSome hfit
    rw [Protocol.readBombPacketTag,Protocol.readBombPacketTag,hnet,load_extend hnet]
  have hmap : ∀ old, unpackMapInit (packet ++ rest) old = unpackMapInit packet old :=
    fun _ => unpackStruct_extend (by rw [h]; decide) _ rest
  have htile : ∀ old, unpackTileUpdate (packet ++ rest) old = unpackTileUpdate packet old :=
    fun _ => unpackStruct_extend (by rw [h]; decide) _ rest
  unfold networkPoll
  rw [htag]
  simp only [hmap,htile]

theorem networkPoll_other (m : ClientMap) {buffer : Bytes} {tag : UInt32}
    (h : Protocol.readBombPacketTag buffer = some tag) (hmap : tag ≠ BombPacketType.mapInit.code)
    (htile : tag ≠ BombPacketType.tileUpdate.code) : networkPoll m buffer = m := by
  unfold networkPoll
  rw [h]
  dsimp only
  rw [if_neg hmap,if_neg htile]

theorem networkPoll_framed (m : ClientMap) {type : BombPacketType} (net : Bytes)
    (hmap : type.code ≠ BombPacketType.mapInit.code) (htile : type.code ≠ BombPacketType.tileUpdate.code) :
    networkPoll m (framed type net) = m := networkPoll_other m (readBombPacketTag_eq _ _) hmap htile

theorem Delivered.map {sent : List Bytes} {received : List ((ℕ → Bool) × Client.AppMessage)} (h : Delivered sent received)
    (m : ClientMap) : received.foldl (fun m r => networkPoll m r.2.bytes) m = sent.foldl networkPoll m := by
  induction h generalizing m with
  | done => rfl
  | @packet memory message packet sent received _ hbytes _ ih =>
    have hlen : packet.length = packetSize := by
      rw [← hbytes,List.length_take,message.sized]
      decide
    rw [List.foldl_cons,List.foldl_cons,ih,← networkPoll_extend m hlen (message.bytes.drop packetSize),← hbytes,
      List.take_append_drop]
  | explosion htag _ ih => rw [List.foldl_cons,ih,networkPoll_other m htag (by decide) (by decide)]

theorem handlePacket_confined [Arithmetic] {base : World} {s : Bombd} (h : Confined base (fun c => base.at c ≠ .wall) s.world)
    (msgBuffer : List UInt8) : Confined base (fun c => base.at c ≠ .wall) (handlePacket s msgBuffer).world := by
  unfold handlePacket
  dsimp only
  split
  · exact step_confined s (.move _ _ _ _) _ h (show Bombd.step id s _ = some _ from rfl)
  · split
    · exact step_confined s (.place _) _ h (show Bombd.step id s _ = some _ from rfl)
    · exact h

theorem drain_confined [Arithmetic] {base : World} {s : Bombd} (h : Confined base (fun c => base.at c ≠ .wall) s.world)
    (arrivals : Arrivals) : Confined base (fun c => base.at c ≠ .wall) (s.drain arrivals).world := by
  have hmessages : ∀ (messages : List (List UInt8)) (s : Bombd), Confined base (fun c => base.at c ≠ .wall) s.world →
      Confined base (fun c => base.at c ≠ .wall) (messages.foldl handlePacket s).world := by
    intro messages
    induction messages with
    | nil => exact fun _ h => h
    | cons msgBuffer messages ih => exact fun s h => ih _ (handlePacket_confined h msgBuffer)
  have hgone : ∀ (disconnected : List ℕ) (s : Bombd), Confined base (fun c => base.at c ≠ .wall) s.world →
      Confined base (fun c => base.at c ≠ .wall) (disconnected.foldl applyDisconnect s).world := by
    intro disconnected
    induction disconnected with
    | nil => exact fun _ h => h
    | cons playerId disconnected ih =>
      exact fun s h => ih _ (step_confined s (.disconnect playerId) _ h (show Bombd.step id s _ = some _ from rfl))
  exact hgone _ _ (hmessages _ _ h)

namespace Match
variable {bits : ℚ → UInt32} {normalize : Vector2 → Vector2} {s t : Match} {arrivals : Arrivals}

theorem start_server [Arithmetic] (draws : ℕ → ℕ) (clientIds : List ℕ) : (start draws clientIds).server =
    { Server.init draws clientIds with
      sent := framed .roster (rosterPayload clientIds).net :: (Server.init draws clientIds).sent } := by
  unfold start
  dsimp only
  rw [packRoster_sent,List.singleton_append]

theorem start_synced [Arithmetic] (draws : ℕ → ℕ) (clientIds : List ℕ) (m : ClientMap) :
    (start draws clientIds).server.Synced (initSession draws clientIds).world m := by
  have hinit := serverInit_synced draws clientIds m (mapSize_small draws clientIds)
  rw [start_server]
  generalize Server.init draws clientIds = server at hinit
  refine ⟨hinit.confined,?_,hinit.snapshot,hinit.walls⟩
  rw [List.foldl_cons,networkPoll_framed m _ (by decide) (by decide)]
  exact hinit.follows

theorem Iterates.synced [Arithmetic] {base : World} (hsize : base.mapSize < 2147483648) {m : ClientMap}
    (h : Iterates bits normalize arrivals s t) (hs : s.server.Synced base m) : t.server.Synced base m := by
  have hconfined : Confined base (fun c => base.at c ≠ .wall) (s.ticked normalize arrivals).world :=
    tickSession_confined (drain_confined hs.confined arrivals) (floor_free base) normalize tickSeconds
  have hdiff := diffAndBroadcastMap_synced hsize (hs.bombd hconfined)
  rw [h.server]
  unfold broadcast
  generalize diffAndBroadcastMap _ = server at hdiff ⊢
  dsimp only
  split
  · refine ⟨hconfined,?_,hdiff.snapshot,hdiff.walls⟩
    dsimp only
    rw [packState_sent,List.foldl_append,List.foldl_cons,List.foldl_nil,
      networkPoll_framed _ _ (by decide) (by decide)]
    exact hdiff.follows
  · exact hdiff

/-! ## Whole matches -/

/-- What is known of a running match and the client of one player. -/
structure Kept [Arithmetic] (bits : ℚ → UInt32) (draws : ℕ → ℕ) (clientIds : List ℕ) (localId : UInt32) (tiles : ℕ → ℕ → Tile)
    (m : ClientMap) (s : Match) : Prop where
  played : Played (start draws clientIds) s
  remembers : s.Remembers
  followed : Followed bits clientIds localId tiles s
  synced : s.server.Synced (initSession draws clientIds).world m

theorem run_kept [Arithmetic] {draws : ℕ → ℕ} {clientIds : List ℕ} (hids : Client.Distinct clientIds)
    (hmax : clientIds.length ≤ bombdMaxPlayers) (localId : UInt32) (tiles : ℕ → ℕ → Tile) (m : ClientMap)
    {iterations : List Arrivals}
    (hrun : Execution.run (iterate bits normalize) (start draws clientIds) iterations = some s) :
    Kept bits draws clientIds localId tiles m s := by
  refine Execution.run_invariant (fun s arrivals t hs ht => ?_) hrun
    ⟨start_played draws clientIds,fun _ hstate => absurd hstate (Option.some_ne_none _).symm,
      start_followed bits draws hids hmax localId tiles,start_synced draws clientIds m⟩
  have hiter := iterate_iterates ht
  exact ⟨played_iterate s arrivals t hs.played ht,hiter.remembers hs.remembers,
    iterate_followed hids hmax hs.played hs.remembers hs.followed ht,hiter.synced (mapSize_small draws clientIds) hs.synced⟩

/-- What the client of one player shows of a match. -/
structure ShownBy (bits : ℚ → UInt32) (clientIds : List ℕ) (s : Match) (c : Client) : Prop where
  seats : c.Seats clientIds
  mourns : c.Mourns clientIds
  depicts : ∀ payload, s.state = some payload → c.Depicts clientIds (payload.wire bits)
  mapSize : c.mapSize = s.server.bombd.world.mapSize
  tiles : ∀ i j : ℕ, i < s.server.bombd.world.mapSize → j < s.server.bombd.world.mapSize → i < bombdMaxMapDim →
    j < bombdMaxMapDim → (c.map.bind fun t => read? t i j) = some (some (s.server.shown i j))

theorem Kept.shownBy [Arithmetic] {draws : ℕ → ℕ} {clientIds : List ℕ} {localId : UInt32} {tiles : ℕ → ℕ → Tile}
    (h : Kept bits draws clientIds localId tiles ⟨(calcMapSize 10 + 2 : ℕ),some fun i j => some (tiles i j)⟩ s)
    {received : List ((ℕ → Bool) × Client.AppMessage)} (hreceived : Delivered s.server.sent received) :
    ∃ c, Execution.run Client.poll (Client.start localId tiles) received = some c ∧ s.ShownBy bits clientIds c ∧
      c.Follows bits clientIds localId s.state := by
  obtain ⟨c,hc,hfollows⟩ := h.followed received hreceived
  have hshows := Client.run_shows (Client.sound_start localId tiles) (Client.shows_start localId tiles) hc
  rw [hreceived.map] at hshows
  obtain ⟨hsize,hread⟩ := hshows
  obtain ⟨t,ht⟩ := Option.isSome_iff_exists.mp hfollows.map
  obtain ⟨map,hmap,hread⟩ := hread t ht
  obtain ⟨hms,map',hmap',hnear,-⟩ := h.synced.follows
  obtain rfl : map = map' := Option.some.inj (hmap.symm.trans hmap')
  have hsame := h.synced.confined.walls.mapSize
  have hmapSize : c.mapSize = s.server.bombd.world.mapSize := by rw [hsize,hms,hsame]
  refine ⟨c,hc,⟨hfollows.seats,hfollows.mourns,hfollows.depicts,hmapSize,fun i j hi hj hdim hdim' => ?_⟩,hfollows⟩
  have hcell : (i,j) ∈ sentCells (initSession draws clientIds).world.mapSize := by
    rw [mem_sentCells,← hsame]
    exact ⟨lt_min hi hdim,lt_min hj hdim'⟩
  rw [ht,Option.bind_some,hread i j (by rw [hmapSize]; exact Int.ofNat_lt.mpr hi)
    (by rw [hmapSize]; exact Int.ofNat_lt.mpr hj),hnear i j hdim hdim',h.synced.snapshot (i,j) hcell,Tile.ofCode_code]

/-- Explosions and the end of the match change nothing of it. -/
theorem ShownBy.beside {clientIds : List ℕ} {c : Client} (h : s.ShownBy bits clientIds c)
    {explodes : Queue ShownExplosion 500} {events : List ClientEvent} (gameOver : Bool) (winnerId : UInt32)
    (hdeaths : events.countP ClientEvent.isDeath = c.deaths) : s.ShownBy bits clientIds
      { c with explodes := explodes, events := events, gameOver := gameOver, winnerId := winnerId } where
  seats := ⟨h.seats.slotUsed,h.seats.playerIds,h.seats.playerCount⟩
  mourns := ⟨fun i hi hown => hdeaths.trans (h.mourns.own i hi hown),fun hnobody => hdeaths.trans (h.mourns.nobody hnobody)⟩
  depicts payload hstate := ⟨(h.depicts payload hstate).players,(h.depicts payload hstate).bombs⟩
  mapSize := h.mapSize
  tiles := h.tiles

structure Concluded (localId winner : UInt32) (c : Client) : Prop where
  gameOver : c.gameOver = true
  winnerId : c.winnerId = winner
  wins : c.wins = if winner ≠ 0 ∧ winner = localId then 1 else 0

/-- Whatever happens in a match, and however the explosions are delivered: a client that has
received the packets sent so far has survived, every player of the roster has his slot, and
it shows the payload that was built last and the map as of the last diff, as far as the
packets have room for them. It has announced the death of its player once if he is dead, and
once the match has ended the winner, and its victory if the player is the winner. -/
theorem client_follows_match [Arithmetic] (draws : ℕ → ℕ) {clientIds : List ℕ} (hids : Client.Distinct clientIds)
    (hmax : clientIds.length ≤ bombdMaxPlayers) {iterations : List Arrivals}
    (hrun : Execution.run (iterate bits normalize) (start draws clientIds) iterations = some s) (localId : UInt32)
    (tiles : ℕ → ℕ → Tile) {received : List ((ℕ → Bool) × Client.AppMessage)} :
    (Delivered s.server.sent received → ∃ c, Execution.run Client.poll (Client.start localId tiles) received = some c ∧
      s.ShownBy bits clientIds c ∧ c.gameOver = false ∧ c.wins = 0) ∧
    (Delivered s.packets received → ∃ c, Execution.run Client.poll (Client.start localId tiles) received = some c ∧
      s.ShownBy bits clientIds c ∧ Concluded localId (UInt32.ofNat s.winnerId) c) := by
  have hkept := run_kept hids hmax localId tiles ⟨(calcMapSize 10 + 2 : ℕ),some fun i j => some (tiles i j)⟩ hrun
  constructor
  · intro hreceived
    obtain ⟨c,hc,hshown,hfollows⟩ := hkept.shownBy hreceived
    exact ⟨c,hc,hshown,hfollows.gameOver,hfollows.wins⟩
  · intro hreceived
    rw [packets,packGameOver_sent] at hreceived
    obtain ⟨before,after,rfl,hbefore,hafter⟩ := Delivered.split _ hreceived
    obtain ⟨c,hc,hshown,hfollows⟩ := hkept.shownBy hbefore
    have hexploded : ∀ (d : Client) (payload : ExplosionPayload),
        (d.applyExplosion payload).events.countP ClientEvent.isDeath = d.deaths ∧
        (d.applyExplosion payload).wins = d.wins := fun d payload => ⟨List.countP_append,List.countP_append⟩
    obtain ⟨d,hd,hshown,hended⟩ := Client.run_packet
      (I := fun d => s.ShownBy bits clientIds d ∧ d.localId = localId ∧ d.wins = 0)
      (J := fun d => s.ShownBy bits clientIds d ∧ Concluded localId (UInt32.ofNat s.winnerId) d)
      (fun d payload ⟨hshown,hid,hwins⟩ =>
        ⟨hshown.beside d.gameOver d.winnerId (hexploded d payload).1,hid,(hexploded d payload).2.trans hwins⟩)
      (fun d payload ⟨hshown,hended⟩ => ⟨hshown.beside d.gameOver d.winnerId (hexploded d payload).1,
        hended.gameOver,hended.winnerId,(hexploded d payload).2.trans hended.wins⟩)
      (fun d memory message ⟨hshown,hid,hwins⟩ _ hbytes => by
        refine ⟨_,Client.poll_gameOver hbytes,hshown.beside true _ ?_,rfl,rfl,?_⟩
        · dsimp only
          split
          · exact List.countP_append
          · rfl
        · dsimp only [Client.wins,Client.applyGameOver] at hwins ⊢
          rw [hid]
          by_cases hown : UInt32.ofNat s.winnerId ≠ 0 ∧ UInt32.ofNat s.winnerId = localId
          · have htest : (UInt32.ofNat s.winnerId != 0 && UInt32.ofNat s.winnerId == localId) = true := by
              simpa using hown
            rw [if_pos htest,if_pos hown,List.countP_append,hwins]
            rfl
          · have htest : ¬(UInt32.ofNat s.winnerId != 0 && UInt32.ofNat s.winnerId == localId) = true := by
              simpa using hown
            rw [if_neg htest,if_neg hown]
            exact hwins) hafter ⟨hshown,hfollows.localId,hfollows.wins⟩
    exact ⟨d,Execution.run_append.mpr ⟨c,hc,hd⟩,hshown,hended⟩

def delivery (sent : List Bytes) : List ((ℕ → Bool) × Client.AppMessage) :=
  sent.map fun packet => (fun _ => true,⟨(packet ++ List.replicate 2048 0).take 2048,by
    rw [List.length_take,List.length_append,List.length_replicate]
    omega⟩)

theorem delivery_delivered {sent : List Bytes} (h : ∀ packet ∈ sent, packet.length = packetSize) :
    Delivered sent (delivery sent) := by
  induction sent with
  | nil => exact .done
  | cons packet sent ih =>
    obtain ⟨hpacket,hsent⟩ := List.forall_mem_cons.mp h
    refine .packet (fun _ => rfl) ?_ (ih hsent)
    have hmin : min packetSize 2048 = packet.length := by rw [hpacket]; rfl
    rw [List.take_take,hmin,List.take_left]

attribute [local instance] Arithmetic.binary32

/-- The client of the player who is left when the other one has lost his connection. -/
theorem client_follows_match_two : ∃ s c,
    Execution.run (iterate (fun _ => 0) id) (start (fun _ => 0) [7,9]) [⟨[],[9]⟩] = some s ∧ s.winnerId = 7 ∧
    Execution.run Client.poll (Client.start 7 fun _ _ => .empty) (delivery s.packets) = some c ∧
    s.ShownBy (fun _ => 0) [7,9] c ∧ Concluded 7 7 c := by
  obtain ⟨s,hs,htest⟩ := Execution.exists_of_run_any (iterate (fun _ => 0) id) (start (fun _ => 0) [7,9]) [⟨[],[9]⟩]
    (fun s => s.winnerId == 7 && s.packets.all fun packet => packet.length == packetSize) (by decide +kernel)
  obtain ⟨hwinner,hlengths⟩ := (Bool.and_eq_true _ _).mp htest
  obtain ⟨c,hc,hshown,hended⟩ := (client_follows_match (fun _ => 0) ⟨by decide,by decide⟩ (by decide) hs 7
    (fun _ _ => .empty)).2 (delivery_delivered fun packet hpacket => beq_iff_eq.mp (List.all_eq_true.mp hlengths packet hpacket))
  have hseven : s.winnerId = 7 := beq_iff_eq.mp hwinner
  rw [hseven] at hended
  exact ⟨s,c,hs,hseven,hc,hshown,hended⟩

end Match
end CoreStack.Bomberman
