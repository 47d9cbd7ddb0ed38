import CoreStack.BattleRoyale.Server
import CoreStack.Bomberman.Packets
import CoreStack.Tetrisd.Dispatch

/-! # Who a client may act for

A message that decrypts under the key of a client carries that client's id as its
source. `brserver_get_app_msg` hands on the content alone, and both daemons act for
the player the content names.
-/
namespace CoreStack.Senders
open BattleRoyale Lib Utils

/-! ## From the socket to the application -/

/-- The queued message still names the client it came from. -/
theorem receivedFrom_sourceId {ssl : OpenSSL} {clients : List Endpoint} {a : ℕ} {msg : Message}
    (h : ReceivedFrom ssl clients a msg) : msg.sourceId = a := by
  obtain ⟨raw,sender,henc,hsender,rfl,haccept⟩ := h
  rcases acceptMessage_cases haccept with ⟨happ,-⟩ | ⟨_,plain,hplain,-,-,rfl⟩
  · rw [henc] at happ
    cases happ
  · exact (getFromList_id hsender).symm

theorem brserverGetAppMsg_content {q q' : MessageQueue} {msg : Message} {buffer : Bytes}
    (hq : q.peek = some msg) (hget : brserverGetAppMsg q = some (buffer,q')) : buffer = msg.msgContent := by
  simp only [brserverGetAppMsg,hq,Option.map_some,Option.some.injEq,Prod.mk.injEq] at hget
  exact hget.1.symm

/-! ## Two messages under a known key -/

/-- One ciphertext with its tag, as OpenSSL computes them under the key. -/
structure KnownAnswer where
  key : Bytes
  iv : Bytes
  ct : Bytes
  tag : Bytes
  plain : Bytes
  plain_length : plain.length ≤ ct.length
  fits : (iv ++ ct ++ tag).length ≤ msgContentLength

namespace KnownAnswer
variable (k : KnownAnswer)

def ssl : OpenSSL where
  hmac key data := if key = k.key.take hmacKeyLen ∧ data = k.iv ++ k.ct then some k.tag else none
  decryptCbc key iv ct :=
    if key = k.key.drop hmacKeyLen ∧ iv = k.iv ∧ ct = k.ct then some k.plain else none
  decryptCbc_length := by
    intro key iv ct plain h
    split_ifs at h with hin
    cases h
    rw [hin.2.2]
    exact k.plain_length

def token : Bytes := k.iv ++ k.ct ++ k.tag

def message (a : ℕ) : Message where
  sourceId := a
  msgLen := k.token.length
  msgType := .appEnc
  msgContent := k.token ++ List.replicate (msgContentLength - k.token.length) 0
  sized := by
    have h : k.token.length ≤ msgContentLength := k.fits
    rw [List.length_append,List.length_replicate]
    omega

/-- The message as the listener queues it. -/
def opened (a : ℕ) : Message := (k.message a).decrypted k.plain (by
  have hplain := k.plain_length
  have htoken := k.fits
  rw [(k.message a).sized]
  simp only [List.length_append] at htoken
  omega)

variable {k} {a : ℕ}

theorem known : getFromList [⟨a,k.key⟩] (k.message a).sourceId = some ⟨a,k.key⟩ := by
  simp [getFromList,message]

theorem accepted (h : decryptMessage k.ssl (k.message a) k.key = some k.plain) :
    acceptMessage k.ssl [⟨a,k.key⟩] (k.message a) = some (k.opened a) :=
  acceptMessage_enc rfl known h

theorem received (h : decryptMessage k.ssl (k.message a) k.key = some k.plain) :
    ReceivedFrom k.ssl [⟨a,k.key⟩] a (k.opened a) :=
  ⟨k.message a,⟨a,k.key⟩,rfl,known,rfl,accepted h⟩

theorem queued (h : decryptMessage k.ssl (k.message a) k.key = some k.plain) :
    (gameStateRecv k.ssl [⟨a,k.key⟩] .init (k.message a)).peek = some (k.opened a) := by
  rw [gameStateRecv,accepted h]
  rfl

theorem handed (h : decryptMessage k.ssl (k.message a) k.key = some k.plain) :
    ∃ q', brserverGetAppMsg (gameStateRecv k.ssl [⟨a,k.key⟩] .init (k.message a)) =
      some ((k.opened a).msgContent,q') := by
  rw [brserverGetAppMsg,queued h]
  exact ⟨_,rfl⟩

end KnownAnswer

def sessionKey : Bytes :=
  [1,2,3,4,5,6,7,8,9,10,11,12,13,14,15,16,17,18,19,20,21,22,23,24,25,26,27,28,29,30,31,32]

def initialVector : Bytes := [100,101,102,103,104,105,106,107,108,109,110,111,112,113,114,115]

/-- `ACTION / HTTTP`, `Player-Id: 2`, a blank line and `{action-id: 10}`. -/
def quitForTwo : KnownAnswer where
  key := sessionKey
  iv := initialVector
  ct := [219,248,251,133,45,26,101,25,88,178,243,59,17,158,209,204,104,69,62,130,44,186,53,199,215,48,66,
    206,253,143,207,77,147,158,171,171,23,214,227,95,129,235,20,99,210,146,111,83,224,179,207,107,46,213,
    233,12,124,69,188,197,250,206,167,239]
  tag := [53,119,127,29,26,219,79,93,91,243,241,59,62,153,47,0,142,27,141,186,39,218,125,7,218,168,64,194,
    209,179,109,127]
  plain := [65,67,84,73,79,78,32,47,32,72,84,84,84,80,13,10,80,108,97,121,101,114,45,73,100,58,32,50,13,10,
    13,10,123,97,99,116,105,111,110,45,105,100,58,32,49,48,125,0]
  plain_length := by decide
  fits := by decide

/-- A `PACKET_MOVE` for player 2 to the left and up. -/
def moveForTwo : KnownAnswer where
  key := sessionKey
  iv := initialVector
  ct := [188,96,223,43,11,20,161,224,183,192,110,183,197,210,142,96,160,126,80,64,15,187,93,100,21,213,3,12,
    238,41,228,140]
  tag := [227,135,186,234,68,220,38,155,147,101,142,223,47,126,156,209,58,236,220,153,240,244,233,223,86,1,
    99,24,236,135,208,14]
  plain := [0,0,0,0,0,0,0,2,255,255,255,255,0,0,0,1,0,0,0,0]
  plain_length := by decide
  fits := by decide

theorem quitForTwo_decrypts (a : ℕ) :
    decryptMessage quitForTwo.ssl (quitForTwo.message a) quitForTwo.key = some quitForTwo.plain := by
  -- the source plays no part in the decryption
  change decryptMessage quitForTwo.ssl (quitForTwo.message 0) sessionKey = some quitForTwo.plain
  decide +kernel

theorem moveForTwo_decrypts (a : ℕ) :
    decryptMessage moveForTwo.ssl (moveForTwo.message a) moveForTwo.key = some moveForTwo.plain := by
  change decryptMessage moveForTwo.ssl (moveForTwo.message 0) sessionKey = some moveForTwo.plain
  decide +kernel

/-- The request the parser reads from it; the rest of the ciphertext is behind the NUL. -/
theorem quitForTwo_parses (a : ℕ) : Hypertext.parseBuffer (quitForTwo.opened a).msgContent =
    .ok ⟨"ACTION".toList,"/".toList,"HTTTP".toList,[⟨"Player-Id".toList,"2".toList⟩],"\x7baction-id: 10\x7d".toList⟩ := by
  change Hypertext.parseBuffer (quitForTwo.opened 0).msgContent = _
  decide +kernel

/-! ## Both daemons -/

/-- A message from client `a` leaves the slots of all others alone, in every state of a match of
`ids`, exactly when its content does not name one of them. -/
theorem spares_others_iff [Bomberman.Arithmetic] (ssl : OpenSSL) (clients : List Endpoint) (a : ℕ) (msg : Message)
    (q q' : MessageQueue) (buffer : Bytes) (hfrom : ReceivedFrom ssl clients a msg) (hq : q.peek = some msg)
    (hget : brserverGetAppMsg q = some (buffer,q')) (ids : List ℕ) :
    (Tetrisd.SparesOthers a ids buffer ↔ Tetrisd.KeepsTo msg.sourceId ids msg.msgContent) ∧
    (Bomberman.SparesOthers a ids buffer ↔
      ∀ id, Bomberman.addressee msg.msgContent = some id → id = msg.sourceId ∨ id ∉ ids) := by
  rw [brserverGetAppMsg_content hq hget,receivedFrom_sourceId hfrom]
  exact ⟨Tetrisd.sparesOthers_iff a ids _,Bomberman.sparesOthers_iff a ids _⟩

attribute [local instance] Bomberman.Arithmetic.binary32

theorem spares_others_quit :
    ReceivedFrom quitForTwo.ssl [⟨2,sessionKey⟩] 2 (quitForTwo.opened 2) ∧
    Tetrisd.SparesOthers 2 [1,2] (quitForTwo.opened 2).msgContent ∧
    Bomberman.SparesOthers 2 [1,2] (quitForTwo.opened 2).msgContent := by
  have hdec := quitForTwo_decrypts 2
  obtain ⟨q',hget⟩ := KnownAnswer.handed hdec
  have h := spares_others_iff quitForTwo.ssl [⟨2,sessionKey⟩] 2 (quitForTwo.opened 2) _ q' _
    (KnownAnswer.received hdec) (KnownAnswer.queued hdec) hget [1,2]
  refine ⟨KnownAnswer.received hdec,h.1.mpr ⟨?_,?_⟩,h.2.mpr ?_⟩
  · rw [quitForTwo_parses]
    intro h
    cases h
  · intro parsed hparsed _
    rw [quitForTwo_parses] at hparsed
    cases hparsed
    exact .inl (by decide +kernel)
  · have hnone : Bomberman.addressee (quitForTwo.opened 2).msgContent = none := by decide +kernel
    intro id hid
    rw [hnone] at hid
    cases hid

/-- A running match of players 1 and 2. -/
def duel : Tetrisd.Worker :=
  { Tetrisd.Worker.init 1 with
    pc := .drainClients 0
    session := Tetrisd.initSession (fun _ _ => 0) [1,2] }

/-- Client 1 makes player 2 quit the one match and turn round in the other. -/
theorem client_one_acts_for_two :
    ReceivedFrom quitForTwo.ssl [⟨1,sessionKey⟩] 1 (quitForTwo.opened 1) ∧
    duel.session.players.map (fun p => (p.playerId,p.active)) = [(1,true),(2,true)] ∧
    (Tetrisd.dispatch duel 0 0 (fun _ => 0) (quitForTwo.opened 1).msgContent).map
      (fun e => e.worker.session.players.map fun p => (p.playerId,p.active)) = some [(1,true),(2,false)] ∧
    ReceivedFrom moveForTwo.ssl [⟨1,sessionKey⟩] 1 (moveForTwo.opened 1) ∧
    (Bomberman.openField 0 [1,2]).session.players.map (fun p => (p.playerId,p.moveDx)) = [(1,1),(2,1)] ∧
    (Bomberman.handlePacket (Bomberman.openField 0 [1,2]) (moveForTwo.opened 1).msgContent).session.players.map
      (fun p => (p.playerId,p.moveDx)) = [(1,1),(2,-1)] := by
  refine ⟨KnownAnswer.received (quitForTwo_decrypts 1),by decide +kernel,by decide +kernel,
    KnownAnswer.received (moveForTwo_decrypts 1),by decide +kernel,by decide +kernel⟩

end CoreStack.Senders
