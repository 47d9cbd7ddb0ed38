import CoreStack.BattleRoyale.Uplink
import CoreStack.Tetrisd.Commands
import CoreStack.Tetrisu.Input

/-! # From the keyboards to the boards

The requests of all terminals of a room come through their connections and the queue of its
server. The room plays each board by what it reads of its player.
-/
namespace CoreStack.Tetrisu
open Tetris Tetrisd Hypertext Utils Execution BattleRoyale

/-- A request as it is sent at some time of day, with the initial vector if one could be drawn. -/
structure Sent (playerId : ℕ) where
  action : PlayerAction
  iv : Option Iv
  bytes : List UInt8
  encodes : ∃ tm, Encodes (sendAction (BitVec.ofNat 32 playerId) tm action) bytes

/-- A terminal with the keys pressed in each round of its game loop, and what it has sent of them. -/
structure Terminal where
  client : Endpoint
  keyboard : List (List Press)
  rounds : List (List (Option Char))
  polled : List.Forall₂ Polled keyboard rounds
  sent : List (Sent client.id)
  asks : sent.map (·.action) <+: requests rounds

/-- `brclient_send_msg` takes `MAX_APP_PAYLOAD_LEN` bytes of the buffer. -/
def Terminal.sender (t : Terminal) : Sender := ⟨t.client,t.sent.map fun s => (s.iv,s.bytes.take maxAppPayloadLen)⟩

/-- What a content asks for. -/
def readAction (content : Bytes) : PlayerAction :=
  match readAppMsg 0 content with
  | some (.action _ a) => a
  | _ => .none

theorem readAppMsg_congr {buffer content : Bytes} (h : cString buffer = cString content) (stale : ℕ) :
    readAppMsg stale buffer = readAppMsg stale content := by
  rw [readAppMsg,readAppMsg,parseBuffer,parseBuffer,h]

theorem Sent.ends {playerId : ℕ} (s : Sent playerId) : 0 ∈ s.bytes.take maxAppPayloadLen := by
  obtain ⟨tm,h⟩ := s.encodes
  exact (sendAction_ends h).2

theorem Sent.sized {playerId : ℕ} (s : Sent playerId) : (s.bytes.take maxAppPayloadLen).length = maxAppPayloadLen := by
  obtain ⟨tm,h⟩ := s.encodes
  rw [List.length_take,(sendAction_ends h).1]
  rfl

theorem Sent.read {playerId : ℕ} (hid : playerId < 4294967296) (s : Sent playerId) (stale : ℕ) :
    readAppMsg stale (s.bytes.take maxAppPayloadLen) = some (.action playerId s.action) := by
  obtain ⟨tm,h⟩ := s.encodes
  rw [← readAppMsg_congr (cString_of_take rfl s.ends),readAppMsg_sendAction h,Tetris.toNat_ofNat_word hid]

theorem Sent.readAction {playerId : ℕ} (hid : playerId < 4294967296) (s : Sent playerId) :
    Tetrisu.readAction (s.bytes.take maxAppPayloadLen) = s.action := by
  rw [Tetrisu.readAction,s.read hid]

variable {cipher : Cipher} {clients : List Endpoint} {terminals : List Terminal}

theorem Sent.opened (hideal : cipher.Ideal) {client : Endpoint} (hregistered : getFromList clients client.id = some client)
    (hid : client.id < 4294967296) (s : Sent client.id) (iv : Iv) :
    ∃ msg, (brclientSendMsg cipher (some iv) client (s.bytes.take maxAppPayloadLen)).frame.message.bind
        (acceptMessage cipher.toOpenSSL clients) = some msg ∧
      readAppMsg 0 msg.msgContent = some (.action client.id s.action) := by
  obtain ⟨ct,tag,msg,-,-,hopens,hcontent⟩ := acceptMessage_payload hideal iv s.sized hregistered hid
  refine ⟨msg,hopens,?_⟩
  rw [hcontent,← s.read hid 0]
  exact readAppMsg_congr (cString_of_take (take_copyInto s.sized) s.ends) 0

/-- The buffers that were handed over ask for what the terminals sent. -/
theorem asked_of_carries (hids : ∀ t ∈ terminals, t.client.id < 4294967296) {buffers : List Bytes} {got : List (ℕ × Bytes)}
    (hgot : Carries (terminals.map Terminal.sender) buffers got) {messages : List AppMsg}
    (hread : List.Forall₂ (fun m buffer => ∃ stale, readAppMsg stale buffer = some m) messages buffers) :
    (messages.filterMap fun m => (Input.client m fun _ => 0).asked) = got.map fun g => (g.1,readAction g.2) := by
  have hcontents : ∀ g ∈ got, 0 ∈ g.2 ∧ ∀ stale, readAppMsg stale g.2 = some (.action g.1 (readAction g.2)) := by
    intro g hg
    obtain ⟨s,hs,hsame⟩ := hgot.known g hg
    have hmem := (hgot.ordered s hs).subset (List.mem_filterMap.mpr ⟨g,hg,if_pos hsame.symm⟩)
    obtain ⟨t,ht,rfl⟩ := List.mem_map.mp hs
    obtain ⟨m,hm,hcontent⟩ := List.mem_map.mp hmem
    obtain ⟨u,-,rfl⟩ := List.mem_map.mp hm
    have hcontent : u.bytes.take maxAppPayloadLen = g.2 := hcontent
    have hid : g.1 = t.client.id := hsame.symm
    rw [← hcontent,hid]
    exact ⟨u.ends,fun stale => by rw [u.read (hids t ht),u.readAction (hids t ht)]⟩
  have hwhole := hgot.whole
  clear hgot
  induction hwhole generalizing messages with
  | nil =>
    cases hread
    rfl
  | @cons buffer g buffers got hbuffer _ ih =>
    obtain ⟨hg,hrest⟩ := List.forall_mem_cons.mp hcontents
    obtain ⟨m,messages,⟨stale,hm⟩,hlater,rfl⟩ := List.forall₂_cons_right_iff.mp hread
    rw [readAppMsg_congr (hbuffer.2 hg.1),hg.2,Option.some_inj] at hm
    subst hm
    rw [List.map_cons,← ih hlater hrest]
    exact List.filterMap_cons_some rfl

theorem asksOf_terminal {t : Terminal} (ht : t ∈ terminals) (hid : t.client.id < 4294967296) {buffers : List Bytes}
    {got : List (ℕ × Bytes)} (hgot : Carries (terminals.map Terminal.sender) buffers got) :
    (asksOf t.client.id (got.map fun g => (g.1,readAction g.2))).Sublist
      (t.keyboard.flatMap fun presses => (Press.typed presses).1) := by
  have hmine := (hgot.ordered t.sender (List.mem_map.mpr ⟨t,ht,rfl⟩)).map readAction
  have hactions : (t.sender.sends.map (·.2)).map readAction = t.sent.map (·.action) := by
    rw [Terminal.sender,List.map_map,List.map_map]
    exact List.map_congr_left fun s _ => s.readAction hid
  have hasks : asksOf t.client.id (got.map fun g => (g.1,readAction g.2)) =
      (got.filterMap fun g => if g.1 = t.sender.client.id then some g.2 else none).map readAction := by
    rw [asksOf,List.filterMap_map,List.map_filterMap]
    refine List.filterMap_congr fun g _ => ?_
    change (if g.1 = t.client.id then some (readAction g.2) else none) = (if g.1 = t.client.id then some g.2 else none).map readAction
    split <;> rfl
  rw [hasks]
  rw [hactions] at hmine
  rw [← requests_polled t.polled]
  exact hmine.trans t.asks.sublist

theorem asksOf_stranger {id : ℕ} (hid : ∀ t ∈ terminals, t.client.id ≠ id) {buffers : List Bytes} {got : List (ℕ × Bytes)}
    (hgot : Carries (terminals.map Terminal.sender) buffers got) :
    asksOf id (got.map fun g => (g.1,readAction g.2)) = [] := by
  refine List.filterMap_eq_nil_iff.mpr fun q hq => if_neg ?_
  obtain ⟨g,hg,rfl⟩ := List.mem_map.mp hq
  obtain ⟨s,hs,hsame⟩ := hgot.known g hg
  obtain ⟨t,ht,rfl⟩ := List.mem_map.mp hs
  exact fun h => hid t ht (hsame.trans h)

/-- From the keyboards through encryption, partial transfers and the queue to the boards: every board
of a room is a game of its own player. Its actions are what the room read of this player's
requests, in that order and none left out, and nothing but what he typed. -/
theorem keys_play_board (hideal : cipher.Ideal)
    (hclients : ∀ t ∈ terminals, getFromList clients t.client.id = some t.client ∧ t.client.id < 4294967296)
    (hnames : (terminals.map (·.client.id)).Nodup) {connections : ℕ → Connection} {ls : List Traffic}
    (hserved : Served cipher clients (terminals.map Terminal.sender) connections ls) (w : Worker) (rand : ℕ → ℕ → ℕ)
    {ids : List ℕ} (hn : ids.Nodup) {labels : List (HubRecv × Input)} {r : LoopRun}
    (hr : run LoopRun.step (LoopRun.start w rand ids) labels = some r)
    (hread : List.Forall₂ (fun m buffer => ∃ stale, readAppMsg stale buffer = some m)
      (labels.filterMap fun l => appMsg? l.2) (Inbox.run (acceptMessage cipher.toOpenSSL clients) ls).handed)
    (i : ℕ) (p : PlayerSlot) (hp : r.worker.session.players[i]? = some p) :
    ∃ target moves q, run Play.step (Play.start (rand i) p.playerId target) moves = some q ∧ q.state = p.state ∧
      moves.filterMap Move.act? = asksOf p.playerId (labels.filterMap fun l => l.2.asked) ∧
      (∀ t ∈ terminals, t.client.id = p.playerId → (moves.filterMap Move.act?).Sublist
        (t.keyboard.flatMap fun presses => (Press.typed presses).1)) ∧
      ((∀ t ∈ terminals, t.client.id ≠ p.playerId) → moves.filterMap Move.act? = []) := by
  obtain ⟨target,moves,q,hq,hs,hacts⟩ := (LoopRun.run_obeys hn (LoopRun.start_obeys w rand ids) hr).games i p hp
  rw [List.nil_append] at hacts
  have henrolled : ∀ s ∈ terminals.map Terminal.sender, s.Enrolled clients := by
    intro s hs
    obtain ⟨t,ht,rfl⟩ := List.mem_map.mp hs
    obtain ⟨hregistered,hid⟩ := hclients t ht
    refine ⟨hregistered,hid,fun m hm => ?_⟩
    obtain ⟨u,-,rfl⟩ := List.mem_map.mp hm
    exact u.sized
  have hids : ((terminals.map Terminal.sender).map (·.client.id)).Nodup := by
    rw [List.map_map]
    exact hnames
  obtain ⟨got,hgot,-⟩ := hserved.carries hideal henrolled hids
  have hasked := asked_of_carries (fun t ht => (hclients t ht).2) hgot.left hread
  rw [← asked_eq_appMsg] at hasked
  refine ⟨target,moves,q,hq,hs,hacts,fun t ht hid => ?_,fun hstranger => ?_⟩
  · rw [hacts,hasked,← hid]
    exact asksOf_terminal ht (hclients t ht).2 hgot.left
  · rw [hacts,hasked]
    exact asksOf_stranger hstranger hgot.left

/-- What two players ask for, the first one twice. -/
def threeAsks : List (HubRecv × Input) :=
  [(.empty,.client (.action 1 .hardDrop) fun _ => 0), (.empty,.client (.action 2 .hold) fun _ => 0),
    (.empty,.client (.action 1 .moveLeft) fun _ => 0), (.empty,.clientsDone)]

/-- The first player types a space and an arrow, the second one an h in between. -/
theorem keys_play_board_drop :
    ∃ (r : LoopRun) (p p' : PlayerSlot),
      run LoopRun.step (LoopRun.start (Worker.init 1) (fun _ i => i) [1, 2]) threeAsks = some r ∧
      r.worker.session.players[0]? = some p ∧ r.worker.session.players[1]? = some p' ∧
      (∃ target moves q, run Play.step (Play.start (fun i => i) 1 target) moves = some q ∧ q.state = p.state ∧
        moves.filterMap Move.act? = [.hardDrop,.moveLeft]) ∧
      ∃ target moves q, run Play.step (Play.start (fun i => i) 2 target) moves = some q ∧ q.state = p'.state ∧
        moves.filterMap Move.act? = [.hold] := by
  have hencodes : ∀ (playerId : ℕ) (a : PlayerAction), ∃ bytes,
      Encodes (sendAction (BitVec.ofNat 32 playerId) ⟨4,1,0,1970,0,0,0⟩ a) bytes :=
    fun playerId a => (arrived_action (BitVec.ofNat 32 playerId) ⟨4,1,0,1970,0,0,0⟩ ⟨actionNumber a⟩).exists
  obtain ⟨dropBytes,hdrop⟩ := hencodes 1 .hardDrop
  obtain ⟨holdBytes,hhold⟩ := hencodes 2 .hold
  obtain ⟨leftBytes,hleft⟩ := hencodes 1 .moveLeft
  let drop : Sent firstSender.client.id := ⟨.hardDrop,some lettersVector.iv,dropBytes,_,hdrop⟩
  let hold : Sent secondSender.client.id := ⟨.hold,some lettersVector.iv,holdBytes,_,hhold⟩
  let left : Sent firstSender.client.id := ⟨.moveLeft,some lettersVector.iv,leftBytes,_,hleft⟩
  let first : Terminal := ⟨firstSender.client,[[.key ' '],[.arrow 'D']],[[some ' ',none],[some escapeKey,some '[',some 'D',none]],
    .cons ⟨by decide,[],rfl⟩ (.cons ⟨by decide,[],rfl⟩ .nil),[drop,left],List.prefix_rfl⟩
  let second : Terminal := ⟨secondSender.client,[[.key 'h']],[[some 'h',none]],.cons ⟨by decide,[],rfl⟩ .nil,[hold],
    List.prefix_rfl⟩
  have hclients : ∀ t ∈ [first,second], getFromList [firstSender.client,secondSender.client] t.client.id = some t.client ∧
      t.client.id < 4294967296 :=
    List.forall_mem_cons.mpr ⟨⟨rfl,show (1 : ℕ) < 4294967296 by decide⟩,
      List.forall_mem_singleton.mpr ⟨rfl,show (2 : ℕ) < 4294967296 by decide⟩⟩
  obtain ⟨⟨hfirst,hid⟩,hothers⟩ := List.forall_mem_cons.mp hclients
  obtain ⟨hsecond,hid'⟩ := List.forall_mem_singleton.mp hothers
  obtain ⟨dropMsg,hdropOpens,hdropRead⟩ := drop.opened lettersVector.ideal hfirst hid lettersVector.iv
  obtain ⟨holdMsg,hholdOpens,hholdRead⟩ := hold.opened lettersVector.ideal hsecond hid' lettersVector.iv
  obtain ⟨leftMsg,hleftOpens,hleftRead⟩ := left.opened lettersVector.ideal hfirst hid lettersVector.iv
  generalize hdropFrame : (brclientSendMsg lettersVector.cipher (some lettersVector.iv) first.client
    (drop.bytes.take maxAppPayloadLen)).frame = dropFrame at hdropOpens
  generalize hholdFrame : (brclientSendMsg lettersVector.cipher (some lettersVector.iv) second.client
    (hold.bytes.take maxAppPayloadLen)).frame = holdFrame at hholdOpens
  generalize hleftFrame : (brclientSendMsg lettersVector.cipher (some lettersVector.iv) first.client
    (left.bytes.take maxAppPayloadLen)).frame = leftFrame at hleftOpens
  have hfirstFrames : first.sender.frames lettersVector.cipher = [dropFrame,leftFrame] := by
    rw [← hdropFrame,← hleftFrame]
    rfl
  have hsecondFrames : second.sender.frames lettersVector.cipher = [holdFrame] := by
    rw [← hholdFrame]
    rfl
  have hserved : Served lettersVector.cipher [firstSender.client,secondSender.client] ([first,second].map Terminal.sender)
      (fun _ => .lasting 2 dropFrame) ([(0,dropFrame),(1,holdFrame),(0,leftFrame)].flatMap fun a => [.tcp a.1 a.2,.get]) := by
    refine .of_two _ (by simp) ?_ ?_ ⟨le_refl 2,one_le_two⟩
    · rw [hfirstFrames]
      exact List.prefix_rfl
    · rw [hsecondFrames]
      exact List.prefix_rfl
  have hhanded := (Inbox.foldl_promptly [(0,dropFrame),(1,holdFrame),(0,leftFrame)]
    (.cons hdropOpens (.cons hholdOpens (.cons hleftOpens .nil))) .init rfl).2
  obtain ⟨r,hr,ht⟩ := exists_of_run_any LoopRun.step (LoopRun.start (Worker.init 1) (fun _ i => i) [1, 2]) threeAsks
    (fun r : LoopRun => (r.worker.session.players[0]?).any (fun p => p.playerId == 1) &&
      (r.worker.session.players[1]?).any fun p => p.playerId == 2) (by decide +kernel)
  obtain ⟨hone,htwo⟩ := Bool.and_eq_true_iff.mp ht
  obtain ⟨p,hp,hone⟩ := (Option.any_eq_true _ _).mp hone
  obtain ⟨p',hp',htwo⟩ := (Option.any_eq_true _ _).mp htwo
  have hplays := keys_play_board lettersVector.ideal hclients (show [1, 2].Nodup by decide) hserved (Worker.init 1) (fun _ i => i)
    (show [1, 2].Nodup by decide) hr
    (hhanded ▸ .cons ⟨0,hdropRead⟩ (.cons ⟨0,hholdRead⟩ (.cons ⟨0,hleftRead⟩ .nil)))
  obtain ⟨target,moves,q,hq,hs,hacts,-⟩ := hplays 0 p hp
  obtain ⟨target',moves',q',hq',hs',hacts',-⟩ := hplays 1 p' hp'
  rw [beq_iff_eq.mp hone] at hq hacts
  rw [beq_iff_eq.mp htwo] at hq' hacts'
  exact ⟨r,p,p',hr,hp,hp',⟨target,moves,q,hq,hs,hacts⟩,target',moves',q',hq',hs',hacts'⟩

end CoreStack.Tetrisu
