import CoreStack.Tetrisd.Frames
import CoreStack.Tetrisu.Input
import CoreStack.Tetrisu.Renderer
import CoreStack.Utils.EventBus

/-! # The game loop of a terminal (`tetrisu/main.c`)

Each round sends what was typed, takes what has arrived and draws. The room sends its frames to
all terminals; a terminal shows the last board that is its own.
-/
namespace CoreStack.Tetrisu
open Tetris Tetrisd Hypertext Utils Execution Latest

/-! ## What the room sends -/

/-- `roster.ids` has `MAX_LOBBY_SIZE` places. -/
def rosterPayload? (ids : List ℕ) : Option RosterPayload :=
  if h : ids.length ≤ maxLobbySize then
    some ⟨BitVec.ofNat 32 ids.length,ids.map (BitVec.ofNat 32) ++ List.replicate (maxLobbySize - ids.length) 0,by
      rw [BitVec.toNat_ofNat,List.length_append,List.length_map,List.length_replicate]
      exact le_trans (Nat.mod_le _ _) (Nat.le_add_right _ _)⟩
  else none

/-- The bytes of a frame. The `next_type` of a snapshot is not initialised. -/
def Sends (bytes : List UInt8) : Frame → Prop
  | .roster ids => ∃ payload tm, rosterPayload? ids = some payload ∧ Encodes (reqCreateRoster 0 tm payload .zero) bytes
  | .attack source target lines => ∃ tm, Encodes (reqCreateAttack (BitVec.ofNat 32 source) tm
      ⟨BitVec.ofNat 32 source,BitVec.ofNat 32 target,BitVec.ofNat 32 lines⟩ .zero) bytes
  | .state playerId s => ∃ tm next, Encodes (reqCreateState (BitVec.ofNat 32 playerId) tm
      ((buildStatePayload s).words next) .zero) bytes

/-! ## What a terminal does -/

def maxLobbyPlayers : ℕ := 2

def eventAttackGenerated : ℕ := 0

def eventCount : ℕ := 1

inductive Listener
  | onAttackGenerated
  deriving DecidableEq

def Listener.hear (attack : AttackPayload) : Listener → Option KillFeed → Option KillFeed
  | .onAttackGenerated, feed => feed.bind fun k => k.addKillFeed? attack.sourcePlayer attack.targetPlayer attack.lines

structure Client where
  player : GameState
  lobby : Roster
  bus : EventBus Listener
  feed : KillFeed

/-- What an uninitialised payload holds. -/
structure Stale where
  state : Hypertext.StatePayload
  attack : AttackPayload

/-- A message in the queue, read into payloads that are not initialised. -/
structure Arrival where
  bytes : List UInt8
  stale : Stale

/-- What one round of the game loop finds at the keyboard and in the queue. -/
structure Round where
  polls : List (Option Char)
  arrived : List Arrival

namespace Client

/-- Before the first round, with the id the server assigned. -/
def start? (rand : ℕ → ℕ) (playerId pick : ℕ) : Option Client :=
  ((EventBus.start.init eventCount).listen? pick eventAttackGenerated .onAttackGenerated).map fun bus =>
    ⟨{ startGame rand with playerId := playerId },[],bus,.start⟩

def onState? (c : Client) (incoming : Tetris.StatePayload) : Option Client :=
  if incoming.playerId = c.player.playerId then
    (applyStatePayload incoming c.player).map fun player => { c with player := player }
  else some c

def onRoster (c : Client) (incoming : RosterPayload) : Client :=
  { c with lobby := (incoming.ids.take (min incoming.count.toNat maxLobbyPlayers)).map fun id => ⟨id.toNat,false⟩ }

def onAttack? (c : Client) (incoming : AttackPayload) : Option Client :=
  (EventBus.trigger? (fun listener s => some (s.1,listener.hear incoming s.2)) eventAttackGenerated (c.bus,some c.feed)).bind
    fun s => s.2.map fun feed => { c with bus := s.1, feed := feed }

/-- A decoder that leaves its text or its array has no defined result, nor has a code outside its
enumeration. -/
def receive? (c : Client) (stale : Stale) (req : Request) : Option Client :=
  match req.method with
  | .state => (payloadDecodeState req.body stale.state).toOption.bind fun incoming => c.onState? (.ofWords incoming)
  | .roster => (payloadDecodeRoster req.body ⟨0,[0, 0],by decide⟩).toOption.map c.onRoster
  | .attack => c.onAttack? (payloadDecodeAttack req.body stale.attack)
  | _ => some c

def handle? (c : Client) (m : Arrival) : Option Client :=
  match parseBuffer m.bytes with
  | .error .malformed => some c
  | .error .overrun => none
  | .ok parsed => c.receive? m.stale (reqExtractInfo parsed)

/-- `q` ends the game until a snapshot says otherwise. -/
def typed (c : Client) (polls : List (Option Char)) : Client :=
  { c with player := { c.player with gameOver := c.player.gameOver || (processInputs polls).2 } }

/-- One round: the client after it and the picture. -/
def iterate? (fuel : ℕ) (c : Client) (round : Round) : Option (Client × List Char) := do
  let c ← round.arrived.foldlM handle? (c.typed round.polls)
  let text ← drawBoard? fuel c.player c.feed
  return (c,text)

end Client

/-- What the game loop leaves: the rounds it did not begin, the requests it sent, each in the name
of a player, and the pictures. -/
structure Played where
  client : Client
  left : List Round
  sent : List (ℕ × PlayerAction)
  screens : List (List Char)

def Client.gameLoop? (fuel : ℕ) (c : Client) : List Round → Option Played
  | [] => some ⟨c,[],[],[]⟩
  | round :: rounds =>
    if c.player.gameOver then some ⟨c,round :: rounds,[],[]⟩
    else do
      let (next,text) ← c.iterate? fuel round
      let later ← next.gameLoop? fuel rounds
      return { later with
        sent := (processInputs round.polls).1.map (c.player.playerId,·) ++ later.sent
        screens := text :: later.screens }

/-- What is said about the winner after the game. -/
def verdict (player : GameState) : List Char :=
  if player.winnerId = 0 then "\n*** No survivors. Match ended with no winner. ***\n".toList
  else if player.winnerId = player.playerId then
    print (format "\n*** CONGRATULATIONS! You won as P%u! ***\n".toList) [BitVec.ofNat 32 player.winnerId]
  else print (format "\n*** Winner: P%u ***\n".toList) [BitVec.ofNat 32 player.winnerId]

/-! ## What a terminal shows -/

/-- The entry a frame makes in the kill feed. -/
def entry? : Frame → Option KillFeedEntry
  | .attack source target lines => some ⟨BitVec.ofNat 32 source,BitVec.ofNat 32 target,BitVec.ofNat 32 lines⟩
  | _ => none

def roster? : Frame → Option (List ℕ)
  | .roster ids => some ids
  | _ => none

/-- The terminal holds the snapshot of this state; its player may have typed `q` since. -/
def Mirrored (s player : GameState) : Prop :=
  ∃ old mirror quits, applyStatePayload (buildStatePayload s) old = some mirror ∧
    player = { mirror with gameOver := mirror.gameOver || quits }

/-- A terminal that has taken these frames. -/
structure Client.Shows (id : ℕ) (c : Client) (seen : List Frame) : Prop where
  listens : ∃ lists, c.bus.Holds lists ∧ c.bus.numEvents = eventCount ∧
    (lists eventAttackGenerated).map Prod.snd = [.onAttackGenerated]
  playerId : c.player.playerId = id
  lobby : ∀ ids, latest roster? seen = some ids → c.lobby = ids.map fun id => ⟨id,false⟩
  feed : c.feed.Records (seen.filterMap entry?)
  board : ∀ s, latest (Frame.board? id) seen = some s → Mirrored s c.player
  drawable : Drawable c.player
  top : -5 ≤ c.player.current.y

/-- A frame of a room whose numbers fit the fields of its request. -/
def Fits : Frame → Prop
  | .roster ids => ids.length ≤ maxLobbySize ∧ ∀ id ∈ ids, id < 4294967296
  | .attack .. => True
  | .state playerId s => s.playerId = playerId ∧ s.IntSized ∧ Named s ∧
    ∃ rand target moves p, run Play.step (Play.start rand playerId target) moves = some p ∧ p.state = s

variable {id : ℕ} {c : Client} {seen : List Frame} {bytes : List UInt8} {stale : Stale}

theorem Client.handle?_of_conveys {method : MethodHTTTP} {sender : Word} {body : List Char}
    (h : Conveys bytes method sender body) (c : Client) (stale : Stale) :
    c.handle? ⟨bytes,stale⟩ = c.receive? stale ⟨method,sender.toNat,body⟩ := by
  obtain ⟨parsed,hparsed,hinfo⟩ := h
  rw [Client.handle?]
  dsimp only
  rw [hparsed,← hinfo]

theorem handle?_attack {source target lines : ℕ} (h : Sends bytes (.attack source target lines)) (c : Client) (stale : Stale) :
    c.handle? ⟨bytes,stale⟩ = c.onAttack? ⟨BitVec.ofNat 32 source,BitVec.ofNat 32 target,BitVec.ofNat 32 lines⟩ := by
  obtain ⟨tm,hbytes⟩ := h
  rw [c.handle?_of_conveys ((arrived_attack _ tm _).conveys hbytes),Client.receive?]
  dsimp only
  rw [payloadDecodeAttack_encode]

theorem handle?_state {playerId : ℕ} {s : GameState} (hs : s.Sized) (h : Sends bytes (.state playerId s)) (c : Client)
    (stale : Stale) : c.handle? ⟨bytes,stale⟩ = c.onState? (buildStatePayload s) := by
  obtain ⟨tm,next,hbytes⟩ := h
  have hlegal := words_cellsLegal hs next
  rw [c.handle?_of_conveys ((arrived_state _ tm hlegal).conveys hbytes),Client.receive?]
  dsimp only
  rw [payloadDecodeState_encode hlegal,Except.toOption,Option.bind_some,ofWords_words hs]

theorem handle?_roster {ids : List ℕ} (hlen : ids.length ≤ maxLobbySize) (hids : ∀ id ∈ ids, id < 4294967296)
    (h : Sends bytes (.roster ids)) (c : Client) (stale : Stale) :
    c.handle? ⟨bytes,stale⟩ = some { c with lobby := ids.map fun id => ⟨id,false⟩ } := by
  obtain ⟨payload,tm,hpayload,hbytes⟩ := h
  rw [rosterPayload?,dif_pos hlen] at hpayload
  cases hpayload
  have hcount : (BitVec.ofNat 32 ids.length).toNat = ids.length :=
    toNat_ofNat_word (lt_of_le_of_lt hlen (by decide))
  have hle : (BitVec.ofNat 32 ids.length).toNat ≤ maxLobbySize := hcount.trans_le hlen
  obtain ⟨read,hread,hreadCount,hreadIds⟩ := payloadDecodeRoster_encode ⟨BitVec.ofNat 32 ids.length,_,_⟩
    ⟨0,[0, 0],by decide⟩ hle
  rw [c.handle?_of_conveys ((arrived_roster _ tm hle).conveys hbytes),Client.receive?]
  dsimp only
  rw [hread,Except.toOption,Option.map_some,Client.onRoster,hreadCount,hreadIds]
  dsimp only
  have htake : (ids.map (BitVec.ofNat 32) ++ List.replicate (maxLobbySize - ids.length) 0).take ids.length =
      ids.map (BitVec.ofNat 32) := List.take_left' (List.length_map _)
  have hmin : min ids.length maxLobbyPlayers = (ids.map (BitVec.ofNat 32)).length := by
    rw [List.length_map]
    exact Nat.min_eq_left hlen
  rw [hcount,htake,hmin,List.take_left' rfl,List.map_map]
  refine congrArg some (congrArg (Client.mk c.player · c.bus c.feed) (List.map_congr_left fun id hid => ?_))
  change RosterEntry.mk (BitVec.ofNat 32 id).toNat false = ⟨id,false⟩
  rw [toNat_ofNat_word (hids id hid)]

/-! ## One more frame -/

theorem Looks.drawable {s t : GameState} (h : Looks s t) (hs : Drawable s) : Drawable t := by
  refine ⟨h.current ▸ hs.typed,h.heldType ▸ hs.held,fun k hk => ?_⟩
  rw [h.next k hk]
  exact hs.next k hk

theorem Client.Shows.attack (h : c.Shows id seen) {source target lines : ℕ}
    (hsend : Sends bytes (.attack source target lines)) (stale : Stale) :
    ∃ c', c.handle? ⟨bytes,stale⟩ = some c' ∧ c'.Shows id (seen ++ [.attack source target lines]) := by
  obtain ⟨lists,hholds,hevents,hlist⟩ := h.listens
  obtain ⟨feed,hadd,hrecords⟩ := h.feed.add ⟨BitVec.ofNat 32 source,BitVec.ofNat 32 target,BitVec.ofNat 32 lines⟩
  have htrigger := hholds.trigger (i := eventAttackGenerated) (by rw [hevents]; decide)
    (fun listener => listener.hear ⟨BitVec.ofNat 32 source,BitVec.ofNat 32 target,BitVec.ofNat 32 lines⟩) (some c.feed)
  rw [hlist,List.foldl_cons,List.foldl_nil,Listener.hear,Option.bind_some,hadd] at htrigger
  refine ⟨{ c with feed := feed },?_,h.listens,h.playerId,?_,?_,?_,h.drawable,h.top⟩
  · rw [handle?_attack hsend,Client.onAttack?,htrigger]
    rfl
  · intro ids hids
    rw [latest_concat] at hids
    exact h.lobby ids hids
  · rw [List.filterMap_append]
    exact hrecords
  · intro s hs
    rw [latest_concat] at hs
    exact h.board s hs

theorem Client.Shows.roster (h : c.Shows id seen) {ids : List ℕ} (hlen : ids.length ≤ maxLobbySize)
    (hids : ∀ id ∈ ids, id < 4294967296) (hsend : Sends bytes (.roster ids)) (stale : Stale) :
    ∃ c', c.handle? ⟨bytes,stale⟩ = some c' ∧ c'.Shows id (seen ++ [.roster ids]) := by
  refine ⟨_,handle?_roster hlen hids hsend c stale,h.listens,h.playerId,?_,?_,?_,h.drawable,h.top⟩
  · intro others hothers
    rw [latest_concat] at hothers
    cases hothers
    rfl
  · rw [List.filterMap_append,List.filterMap_cons_none rfl,List.filterMap_nil,List.append_nil]
    exact h.feed
  · intro s hs
    rw [latest_concat] at hs
    exact h.board s hs

theorem Client.Shows.state (h : c.Shows id seen) {playerId : ℕ} {s : GameState} (hfits : Fits (.state playerId s))
    (hsend : Sends bytes (.state playerId s)) (stale : Stale) :
    ∃ c', c.handle? ⟨bytes,stale⟩ = some c' ∧ c'.Shows id (seen ++ [.state playerId s]) := by
  obtain ⟨hname,hcounted,hnamed,rand,target,moves,p,hr,rfl⟩ := hfits
  have hlobby : ∀ ids, latest roster? (seen ++ [.state playerId p.state]) = some ids →
      c.lobby = ids.map fun id => ⟨id,false⟩ := by
    intro ids hids
    rw [latest_concat] at hids
    exact h.lobby ids hids
  have hfeed : c.feed.Records ((seen ++ [Frame.state playerId p.state]).filterMap entry?) := by
    rw [List.filterMap_append,List.filterMap_cons_none rfl,List.filterMap_nil,List.append_nil]
    exact h.feed
  rw [handle?_state (Play.run_sized hr hnamed) hsend,Client.onState?]
  have hsender : (buildStatePayload p.state).playerId = playerId := hname
  rw [hsender,h.playerId]
  by_cases hmine : playerId = id
  · -- the snapshot overwrites whatever was there
    obtain ⟨mirror,hmirror,hmirrors,hlooks⟩ := looks_of_mirror hr hcounted c.player
    rw [if_pos hmine,hmirror]
    refine ⟨_,rfl,h.listens,?_,hlobby,hfeed,?_,hlooks.drawable (Play.run_drawable hr),?_⟩
    · exact hmirrors.playerId.trans (hname.trans hmine)
    · intro s hs
      have hboard : (Frame.state playerId p.state).board? id = some p.state := if_pos hmine
      rw [latest_concat,hboard] at hs
      cases hs
      exact ⟨c.player,mirror,false,hmirror,by rw [Bool.or_false]⟩
    · dsimp only
      rw [hlooks.current]
      exact (Play.run_near hr).top
  · rw [if_neg hmine]
    refine ⟨c,rfl,h.listens,h.playerId,hlobby,hfeed,?_,h.drawable,h.top⟩
    intro s hs
    have hboard : (Frame.state playerId p.state).board? id = none := if_neg hmine
    rw [latest_concat,hboard] at hs
    exact h.board s hs

theorem Client.Shows.frame (h : c.Shows id seen) {f : Frame} (hfits : Fits f) (hsend : Sends bytes f) (stale : Stale) :
    ∃ c', c.handle? ⟨bytes,stale⟩ = some c' ∧ c'.Shows id (seen ++ [f]) := by
  cases f with
  | roster ids => exact h.roster hfits.1 hfits.2 hsend stale
  | attack source target lines => exact h.attack hsend stale
  | state playerId s => exact h.state hfits hsend stale

theorem Client.Shows.drain {frames : List Frame} {arrived : List Arrival}
    (hsend : List.Forall₂ (fun f m => Sends m.bytes f) frames arrived) (hfits : ∀ f ∈ frames, Fits f)
    (h : c.Shows id seen) : ∃ c', arrived.foldlM Client.handle? c = some c' ∧ c'.Shows id (seen ++ frames) := by
  induction hsend generalizing c seen with
  | nil => exact ⟨c,rfl,by rwa [List.append_nil]⟩
  | @cons f m frames arrived hf _ ih =>
    obtain ⟨hfit,hrest⟩ := List.forall_mem_cons.mp hfits
    obtain ⟨c₁,hc₁,h₁⟩ := h.frame hfit hf m.stale
    obtain ⟨c₂,hc₂,h₂⟩ := ih hrest h₁
    refine ⟨c₂,?_,?_⟩
    · rw [List.foldlM_cons,hc₁]
      exact hc₂
    · rwa [List.append_assoc] at h₂

/-! ## One round -/

theorem Client.Shows.typed (h : c.Shows id seen) (polls : List (Option Char)) : (c.typed polls).Shows id seen := by
  refine ⟨h.listens,h.playerId,h.lobby,h.feed,fun s hs => ?_,?_,h.top⟩
  · obtain ⟨old,mirror,quits,hmirror,hplayer⟩ := h.board s hs
    refine ⟨old,mirror,quits || (processInputs polls).2,hmirror,?_⟩
    rw [Client.typed,hplayer,Bool.or_assoc]
  · exact ⟨h.drawable.typed,h.drawable.held,h.drawable.next⟩

theorem Client.Shows.drawn (h : c.Shows id seen) {fuel : ℕ} (hf : 25 < fuel) :
    ∃ text, drawBoard? fuel c.player c.feed = some text := by
  refine h.drawable.draws h.feed (lt_of_le_of_lt ?_ hf)
  have htop := h.top
  have hheight : boardHeight = 20 := rfl
  omega

theorem Client.Shows.iterate (h : c.Shows id seen) {fuel : ℕ} (hf : 25 < fuel) {frames : List Frame} {round : Round}
    (hsend : List.Forall₂ (fun f m => Sends m.bytes f) frames round.arrived) (hfits : ∀ f ∈ frames, Fits f) :
    ∃ c' text, c.iterate? fuel round = some (c',text) ∧ c'.Shows id (seen ++ frames) ∧
      drawBoard? fuel c'.player c'.feed = some text := by
  obtain ⟨c',hc',hshows⟩ := (h.typed round.polls).drain hsend hfits
  obtain ⟨text,htext⟩ := hshows.drawn hf
  refine ⟨c',text,?_,hshows,htext⟩
  rw [Client.iterate?,hc',Option.bind_eq_bind,Option.bind_some,htext]
  rfl

/-! ## The game loop -/

/-- Each round brings the messages of one batch of frames. -/
def Brings (batches : List (List Frame)) (rounds : List Round) : Prop :=
  List.Forall₂ (fun frames round => List.Forall₂ (fun f m => Sends m.bytes f) frames round.arrived) batches rounds

/-- What the game loop of a player has made of its first `k` rounds, when the client `c` had taken
the frames `seen`. -/
structure Played.Follows (fuel id : ℕ) (c : Client) (batches : List (List Frame)) (rounds : List Round) (seen : List Frame)
    (g : Played) (k : ℕ) : Prop where
  idle : k = 0 → g.client = c
  bound : k ≤ rounds.length
  length : g.screens.length = k
  left : g.left = rounds.drop k
  ended : g.left ≠ [] → g.client.player.gameOver = true
  sent : g.sent = ((rounds.take k).flatMap fun r => (processInputs r.polls).1).map (id,·)
  shows : g.client.Shows id (seen ++ (batches.take k).flatten)
  screen : 0 < k → ∃ text, g.screens.getLast? = some text ∧ drawBoard? fuel g.client.player g.client.feed = some text

/-- The loop ends with its rounds or with the game, and never leaves an array. -/
theorem Client.Shows.gameLoop {fuel : ℕ} (hf : 25 < fuel) {batches : List (List Frame)} {rounds : List Round}
    (hsend : Brings batches rounds) (hfits : ∀ f ∈ batches.flatten, Fits f) (h : c.Shows id seen) :
    ∃ g k, c.gameLoop? fuel rounds = some g ∧ g.Follows fuel id c batches rounds seen k := by
  unfold Brings at hsend
  induction hsend generalizing c seen with
  | nil =>
    refine ⟨⟨c,[],[],[]⟩,0,rfl,fun _ => rfl,le_rfl,rfl,rfl,fun hne => absurd rfl hne,rfl,?_,fun h0 => absurd h0 (lt_irrefl 0)⟩
    rwa [List.take_nil,List.flatten_nil,List.append_nil]
  | @cons frames round batches rounds hround hrest ih =>
    rw [Client.gameLoop?]
    cases hover : c.player.gameOver with
    | true =>
      rw [if_pos rfl]
      refine ⟨_,0,rfl,fun _ => rfl,Nat.zero_le _,rfl,rfl,fun _ => hover,rfl,?_,fun h0 => absurd h0 (lt_irrefl 0)⟩
      rwa [List.take_zero,List.flatten_nil,List.append_nil]
    | false =>
      rw [if_neg Bool.false_ne_true]
      have hsplit := List.forall_mem_append.mp (List.flatten_cons ▸ hfits)
      obtain ⟨c₁,text,hc₁,h₁,htext⟩ := h.iterate hf hround hsplit.1
      obtain ⟨g,k,hg,hfollows⟩ := ih hsplit.2 h₁
      let played : Played := { g with
        sent := (processInputs round.polls).1.map (c.player.playerId,·) ++ g.sent
        screens := text :: g.screens }
      refine ⟨played,k + 1,?_,fun h0 => absurd h0 (Nat.succ_ne_zero k),Nat.succ_le_succ hfollows.bound,
        congrArg (· + 1) hfollows.length,hfollows.left,hfollows.ended,?_,?_,fun _ => ?_⟩
      · rw [hc₁,Option.bind_eq_bind,Option.bind_some]
        dsimp only
        rw [hg]
        rfl
      · change _ ++ g.sent = _
        rw [hfollows.sent,h.playerId,List.take_succ_cons,List.flatMap_cons,List.map_append]
      · have hshows := hfollows.shows
        rw [List.append_assoc,← List.flatten_cons,← List.take_succ_cons] at hshows
        exact hshows
      · change ∃ last, (text :: g.screens).getLast? = some last ∧ _
        rw [List.getLast?_cons]
        rcases Nat.eq_zero_or_pos k with hk | hk
        · -- nothing was drawn later
          have hnil : g.screens = [] := List.length_eq_zero_iff.mp (hfollows.length.trans hk)
          refine ⟨text,by rw [hnil]; rfl,?_⟩
          change drawBoard? fuel g.client.player g.client.feed = some text
          rw [hfollows.idle hk]
          exact htext
        · obtain ⟨last,hlast,hdraw⟩ := hfollows.screen hk
          exact ⟨last,by rw [hlast]; rfl,hdraw⟩

/-! ## The room and its terminals -/

/-- The counters that only the length of a match bounds, and the winner's id from the master. -/
structure Counted (s : GameState) : Prop where
  counters : s.IntSized
  combo : IsInt s.combo
  winnerId : s.winnerId < 4294967296

theorem Client.start_shows (rand : ℕ → ℕ) (playerId pick : ℕ) :
    ∃ c, Client.start? rand playerId pick = some c ∧ c.Shows playerId [] := by
  have hinit : ((EventBus.start : EventBus Listener).init eventCount).Holds fun _ => [] := EventBus.holds_init eventCount
  obtain ⟨bus,p,hlisten,hevents,hholds⟩ := hinit.listen (i := eventAttackGenerated) (by decide) pick .onAttackGenerated
  have hr : run Play.step (Play.start rand playerId 0) [] = some (Play.start rand playerId 0) := rfl
  have hdrawable := Play.run_drawable hr
  refine ⟨_,by rw [Client.start?,hlisten]; rfl,⟨_,hholds,hevents,?_⟩,rfl,?_,KillFeed.records_start,?_,?_,?_⟩
  · rw [Function.update_self]
    rfl
  · intro ids hids
    cases hids
  · intro s hs
    cases hs
  · exact ⟨hdrawable.typed,hdrawable.held,hdrawable.next⟩
  · exact (Play.run_near hr).top

theorem fits_of_logged {rand : ℕ → ℕ → ℕ} {ids : List ℕ} {s : LoopRun × List Frame} (h : LoopRun.Logged rand ids s)
    (hlen : ids.length ≤ maxLobbySize) (hids : ∀ id ∈ ids, id < 4294967296)
    (hcounted : ∀ id t, .state id t ∈ s.2 → Counted t) {f : Frame} (hf : f ∈ s.2) : Fits f := by
  cases f with
  | roster others =>
    obtain ⟨rest,hrest,hnot⟩ := h.opens
    rw [hrest] at hf
    rcases List.mem_cons.mp hf with hsame | hmem
    · cases hsame
      exact ⟨hlen,hids⟩
    · exact absurd hmem (hnot others)
  | attack source target lines => trivial
  | state id t =>
    have hcount := hcounted id t hf
    obtain ⟨hname,htarget,i,target,moves,p,hi,hr,hp⟩ := h.boards id t hf
    refine ⟨hname,hcount.counters,⟨hcount.combo,?_,?_,hcount.winnerId⟩,rand i,target,moves,p,hr,hp⟩
    · exact hname ▸ hids id (List.mem_of_getElem? hi)
    · rcases List.mem_cons.mp htarget with hzero | hmem
      · rw [hzero]
        decide
      · exact hids _ hmem

theorem Mirrored.looks {playerId : ℕ} {s player : GameState} (h : Mirrored s player) (hfits : Fits (.state playerId s)) :
    Looks s player ∧ (s.gameOver = true → player.gameOver = true) ∧ verdict player = verdict s := by
  obtain ⟨old,mirror,quits,hmirror,rfl⟩ := h
  obtain ⟨-,hcounted,-,rand,target,moves,p,hr,rfl⟩ := hfits
  obtain ⟨mirror',hmirror',hmirrors,hlooks⟩ := looks_of_mirror hr hcounted old
  obtain rfl : mirror = mirror' := Option.some.inj (hmirror.symm.trans hmirror')
  refine ⟨⟨hlooks.board,hlooks.current,hlooks.heldType,hlooks.next,hlooks.pendingGarbage,hlooks.level,hlooks.score,
    hlooks.linesCleared,hlooks.tSpins,hlooks.tetrises,hlooks.b2b,hlooks.combo,hlooks.targetPlayerId,hlooks.targetMode⟩,?_,?_⟩
  · intro hover
    rw [hmirrors.gameOver,hover]
    rfl
  · unfold verdict
    dsimp only
    rw [hmirrors.winnerId,hmirrors.playerId]

instance (z : ℤ) : Decidable (IsInt z) := inferInstanceAs (Decidable (_ ∧ _))

instance (s : GameState) : Decidable (Counted s) :=
  decidable_of_iff ((IsInt s.score ∧ IsInt s.level ∧ IsInt s.linesCleared ∧ IsInt s.tSpins ∧ IsInt s.tetrises) ∧
      IsInt s.combo ∧ s.winnerId < 4294967296)
    ⟨fun ⟨⟨h1,h2,h3,h4,h5⟩,h6,h7⟩ => ⟨⟨h1,h2,h3,h4,h5⟩,h6,h7⟩,fun ⟨⟨h1,h2,h3,h4,h5⟩,h6,h7⟩ => ⟨⟨h1,h2,h3,h4,h5⟩,h6,h7⟩⟩

theorem exists_sends {f : Frame} (h : Fits f) : ∃ bytes, Sends bytes f := by
  let tm : Tm := ⟨0,0,0,0,0,0,0⟩
  cases f with
  | roster ids =>
    have hcount : (BitVec.ofNat 32 ids.length).toNat ≤ maxLobbySize := by
      rw [toNat_ofNat_word (lt_of_le_of_lt h.1 (by decide))]
      exact h.1
    obtain ⟨payload,hpayload,hle⟩ : ∃ payload, rosterPayload? ids = some payload ∧ payload.count.toNat ≤ maxLobbySize :=
      ⟨_,dif_pos h.1,hcount⟩
    obtain ⟨bytes,hbytes⟩ := (arrived_roster 0 tm hle).exists
    exact ⟨bytes,payload,tm,hpayload,hbytes⟩
  | attack source target lines =>
    obtain ⟨bytes,hbytes⟩ := (arrived_attack (BitVec.ofNat 32 source) tm _).exists
    exact ⟨bytes,tm,hbytes⟩
  | state playerId s =>
    obtain ⟨-,-,hnamed,rand,target,moves,p,hr,rfl⟩ := h
    obtain ⟨bytes,hbytes⟩ := (arrived_state (BitVec.ofNat 32 playerId) tm
      (words_cellsLegal (Play.run_sized hr hnamed) 0)).exists
    exact ⟨bytes,tm,0,hbytes⟩

theorem exists_arrivals {frames : List Frame} (h : ∀ f ∈ frames, Fits f) (stale : Stale) :
    ∃ arrived : List Arrival, List.Forall₂ (fun f m => Sends m.bytes f) frames arrived := by
  induction frames with
  | nil => exact ⟨[],.nil⟩
  | cons f frames ih =>
    obtain ⟨hf,hrest⟩ := List.forall_mem_cons.mp h
    obtain ⟨bytes,hbytes⟩ := exists_sends hf
    obtain ⟨arrived,harrived⟩ := ih hrest
    exact ⟨⟨bytes,stale⟩ :: arrived,.cons hbytes harrived⟩

/-- Whatever frames of a room reach a terminal in their order, every one of them is understood. The
terminal runs until its game is over, without leaving an array, asks in its player's name for
what was typed, and draws the last board of its player that it has seen, a board of the room's
game. A terminal that has seen the last one pushed shows the slot as it is, and when the worker is
done the game is over there too, with the same verdict. -/
theorem terminal_follows_room (w : Worker) (rand : ℕ → ℕ → ℕ) {ids : List ℕ} (hn : ids.Nodup)
    (hlen : ids.length ≤ maxLobbySize) (hids : ∀ id ∈ ids, id < 4294967296) {labels : List (HubRecv × Input)}
    {s : LoopRun × List Frame} (hr : run LoopRun.broadcasts (LoopRun.start w rand ids,[.roster ids]) labels = some s)
    (hcounted : ∀ id t, .state id t ∈ s.2 → Counted t) {i id : ℕ} (hi : ids[i]? = some id) {batches : List (List Frame)}
    {rounds : List Round} (hsend : Brings batches rounds) (hseen : batches.flatten.Sublist s.2) (draws : ℕ → ℕ)
    (pick fuel : ℕ) (hf : 25 < fuel) :
    ∃ c g k, Client.start? draws id pick = some c ∧ c.gameLoop? fuel rounds = some g ∧
      g.Follows fuel id c batches rounds [] k ∧
      (∀ t, latest (Frame.board? id) (batches.take k).flatten = some t → Board.Of rand ids id t ∧
        drawBoard? fuel g.client.player g.client.feed = drawBoard? fuel t g.client.feed) ∧
      (latest (Frame.board? id) (batches.take k).flatten = latest (Frame.board? id) s.2 →
        ∀ p, s.1.worker.session.players[i]? = some p →
          (s.1.worker.pc ≠ .exited → p.dirty = false → Mirrored p.state g.client.player) ∧
          (s.1.worker.pc = .exited → p.active = true → Mirrored p.state g.client.player ∧
            g.client.player.gameOver = true ∧ verdict g.client.player = verdict p.state ∧
            p.state.winnerId = s.1.worker.winnerId)) := by
  have hlogged := LoopRun.run_logged hn hr
  have hbase : run LoopRun.step (LoopRun.start w rand ids) labels = some s.1 :=
    logged_base (show run (logged (fun r l => r.worker.frames l.1 l.2) LoopRun.step) (LoopRun.start w rand ids,[.roster ids])
      labels = some s from hr)
  have hfits : ∀ f ∈ s.2, Fits f := fun f hf => fits_of_logged hlogged hlen hids hcounted hf
  obtain ⟨c,hc,hshows⟩ := Client.start_shows draws id pick
  obtain ⟨g,k,hg,hfollows⟩ := hshows.gameLoop hf hsend fun f hmem => hfits f (hseen.subset hmem)
  have hboard : ∀ t, latest (Frame.board? id) (batches.take k).flatten = some t →
      Frame.state id t ∈ s.2 ∧ Mirrored t g.client.player := by
    intro t ht
    refine ⟨?_,hfollows.shows.board t (by rwa [List.nil_append])⟩
    obtain ⟨f,hmem,hf⟩ := mem_of_latest ht
    rw [← Frame.board?_eq_some.mp hf]
    exact hseen.subset ((List.take_sublist k batches).flatten.subset hmem)
  refine ⟨c,g,k,hc,hg,hfollows,fun t ht => ?_,fun hlast p hp => ?_⟩
  · obtain ⟨hmem,hmirrored⟩ := hboard t ht
    exact ⟨hlogged.boards id t hmem,(hmirrored.looks (hfits _ hmem)).1.drawBoard fuel g.client.feed⟩
  · have hpushed := hlogged.pushed i id hi
    -- the last board pushed has the snapshot of the slot
    have hcurrent : s.1.pushed i = some (buildStatePayload p.state) → ∃ t,
        latest (Frame.board? id) (batches.take k).flatten = some t ∧ buildStatePayload t = buildStatePayload p.state := by
      intro h
      rw [h,← hlast] at hpushed
      exact Option.map_eq_some_iff.mp hpushed
    have hmirror : s.1.pushed i = some (buildStatePayload p.state) → Mirrored p.state g.client.player := by
      intro h
      obtain ⟨t,ht,hsame⟩ := hcurrent h
      obtain ⟨-,old,mirror,quits,hmirror,hplayer⟩ := hboard t ht
      exact ⟨old,mirror,quits,hsame ▸ hmirror,hplayer⟩
    refine ⟨fun hx hd => hmirror ((LoopRun.run_synced hbase).clean hx i p hp hd),fun hx ha => ?_⟩
    obtain ⟨hsent,hover,hwinner⟩ := LoopRun.run_told hbase hx i p hp ha
    obtain ⟨t,ht,hsame⟩ := hcurrent hsent
    obtain ⟨hmem,hmirrored⟩ := hboard t ht
    obtain ⟨-,hended,hverdict⟩ := hmirrored.looks (hfits _ hmem)
    have hover' : t.gameOver.toNat = p.state.gameOver.toNat := congrArg Tetris.StatePayload.gameOver hsame
    have hwinner' : t.winnerId = p.state.winnerId := congrArg Tetris.StatePayload.winnerId hsame
    have hid' : t.playerId = p.state.playerId := congrArg Tetris.StatePayload.playerId hsame
    refine ⟨hmirror hsent,hended ?_,?_,hwinner⟩
    · rw [hover] at hover'
      exact Bool.toNat_eq_one.mp hover'
    · rw [hverdict,verdict,verdict,hwinner',hid']

/-- Whether a frame is sent within the bounds of its counters. -/
def countedFrame : Frame → Bool
  | .state _ t => decide (Counted t)
  | _ => true

/-- One round of the first player's terminal, after the first push pass. -/
theorem terminal_follows_room_push :
    ∃ (s : LoopRun × List Frame) (g : Played) (text : List Char) (p : PlayerSlot),
      run LoopRun.broadcasts (LoopRun.start (Worker.init 1) (fun _ i => i) [1, 2],[.roster [1, 2]])
        [(.empty,.clientsDone), (.empty,.recv), (.empty,.tick fun _ i => i), (.empty,.report), (.empty,.report),
          (.empty,.report), (.empty,.route 0), (.empty,.route 0), (.empty,.route 0), (.empty,.push)] = some s ∧
      s.2.length = 3 ∧ g.screens = [text] ∧ s.1.worker.session.players[0]? = some p ∧ Mirrored p.state g.client.player := by
  obtain ⟨s,hr,ht⟩ := exists_of_run_any LoopRun.broadcasts
    (LoopRun.start (Worker.init 1) (fun _ i => i) [1, 2],[.roster [1, 2]])
    [(.empty,.clientsDone), (.empty,.recv), (.empty,.tick fun _ i => i), (.empty,.report), (.empty,.report),
      (.empty,.report), (.empty,.route 0), (.empty,.route 0), (.empty,.route 0), (.empty,.push)]
    (fun s : LoopRun × List Frame => s.1.worker.pc == .drainClients 0 && (s.2.length == 3 &&
      (s.2.all countedFrame && (s.1.worker.session.players[0]?).any fun p => !p.dirty))) (by decide +kernel)
  obtain ⟨hpc,ht⟩ := Bool.and_eq_true_iff.mp ht
  obtain ⟨hlen,ht⟩ := Bool.and_eq_true_iff.mp ht
  obtain ⟨hcounted,ht⟩ := Bool.and_eq_true_iff.mp ht
  obtain ⟨p,hp,hclean⟩ := (Option.any_eq_true _ _).mp ht
  have hpc : s.1.worker.pc ≠ .exited := by
    rw [show s.1.worker.pc = .drainClients 0 from beq_iff_eq.mp hpc]
    decide
  have hcounted : ∀ id t, Frame.state id t ∈ s.2 → Counted t :=
    fun id t hmem => of_decide_eq_true (List.all_eq_true.mp hcounted _ hmem)
  have hids : ∀ id ∈ [1, 2], id < 4294967296 := by decide
  have hlogged := LoopRun.run_logged (by decide) hr
  obtain ⟨arrived,harrived⟩ := exists_arrivals (fun f hf => fits_of_logged hlogged (by decide) hids hcounted hf)
    ⟨default,⟨0,0,0⟩⟩
  have hsend : Brings [s.2] [⟨[],arrived⟩] := .cons harrived .nil
  have hseen : [s.2].flatten.Sublist s.2 := by
    rw [List.flatten_cons,List.flatten_nil,List.append_nil]
  obtain ⟨c,g,k,hc,-,hfollows,-,hshown⟩ := terminal_follows_room (Worker.init 1) (fun _ i => i) (by decide) (by decide) hids hr
    hcounted (i := 0) rfl hsend hseen (fun i => i) 0 26 (by decide)
  have hk : k = 1 := by
    refine le_antisymm hfollows.bound (Nat.one_le_iff_ne_zero.mpr fun hk => ?_)
    -- the terminal would not have begun with its game over
    have hended := hfollows.ended (by rw [hfollows.left,hk]; exact List.cons_ne_nil _ _)
    obtain ⟨bus,-,rfl⟩ := Option.map_eq_some_iff.mp hc
    rw [hfollows.idle hk] at hended
    have hfresh : (startGame fun i => i).gameOver = false := by decide +kernel
    exact Bool.false_ne_true (hfresh.symm.trans hended)
  obtain ⟨text,htext⟩ := List.length_eq_one_iff.mp (hfollows.length.trans hk)
  refine ⟨s,g,text,p,hr,beq_iff_eq.mp hlen,htext,hp,(hshown ?_ p hp).1 hpc (by simpa using hclean)⟩
  rw [hk,List.take_succ_cons,List.take_zero,List.flatten_cons,List.flatten_nil,List.append_nil]

end CoreStack.Tetrisu
