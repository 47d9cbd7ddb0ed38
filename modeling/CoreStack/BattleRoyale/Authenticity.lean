import CoreStack.BattleRoyale.Payload

/-! # Whose messages reach the application of the server

The listener trusts the type a sender wrote into its message. A message of type
`MSG_APP_ENC` is enqueued only if its tag verifies under the key of the client it
names; a message of type `MSG_APP` is enqueued as it is.
-/
namespace CoreStack.BattleRoyale
open Utils
variable {cipher : Cipher} {clients : List Endpoint}

/-- Nobody without the key makes a tag: what carries the right tag under the key of a
client was tagged by `session_encrypt`, which is called by `encrypt_message` alone. -/
def Unforgeable (cipher : Cipher) (clients : List Endpoint) (frame : Frame) : Prop :=
  ∀ client ∈ clients, ∀ data tag, frame.msgContent.take frame.msgLen.toNat = data ++ tag →
    cipher.hmac (client.sesskey.take hmacKeyLen) data = some tag →
    ∃ (iv : Iv) (plain ct : Bytes), plain.length ≤ maxAppPayloadLen ∧
      cipher.encryptCbc (client.sesskey.drop hmacKeyLen) iv.1 plain = some ct ∧ data = iv.1 ++ ct

/-- The frame is what `encrypt_message` made of a message of type `MSG_APP_ENC` under the
key of a listed client, and the enqueued message names that client. -/
def Authentic (cipher : Cipher) (clients : List Endpoint) (frame : Frame) (msg : Message) : Prop :=
  ∃ client ∈ clients, msg.sourceId = client.id ∧
    ∃ rand base content sent, base.msgType = .appEnc ∧
      encryptMessage cipher rand base client.sesskey content = some sent ∧ frame.message = some sent

theorem sessionDecrypt_tag {ssl : OpenSSL} {key token plain : Bytes} (h : sessionDecrypt ssl key token = some plain) :
    ∃ data tag, token = data ++ tag ∧ ssl.hmac (key.take hmacKeyLen) data = some tag := by
  unfold sessionDecrypt at h
  dsimp only at h
  split at h
  · cases h
  · split at h
    · cases h
    · next computed hcomputed =>
      split at h
      · cases h
      · next heq =>
        exact ⟨_,_,(List.take_append_drop _ _).symm,hcomputed.trans (congrArg some (not_not.mp heq))⟩

theorem decryptMessage_some {ssl : OpenSSL} {msg : Message} {sesskey plain : Bytes}
    (h : decryptMessage ssl msg sesskey = some plain) :
    msg.msgLen ≤ msgContentLength ∧ sessionDecrypt ssl sesskey (msg.msgContent.take msg.msgLen) = some plain := by
  unfold decryptMessage at h
  split at h
  · cases h
  · next hlen => exact ⟨Nat.le_of_not_lt hlen,h⟩

theorem decrypted_was_encrypted {frame : Frame} {raw : Message} {client : Endpoint} {plain : Bytes}
    (hraw : frame.message = some raw) (hforge : Unforgeable cipher clients frame) (hclient : client ∈ clients)
    (hplain : decryptMessage cipher.toOpenSSL raw client.sesskey = some plain) :
    ∃ rand content, encryptMessage cipher rand raw client.sesskey content = some raw := by
  obtain ⟨hlen,hdec⟩ := decryptMessage_some hplain
  obtain ⟨data,tag,htoken,htag⟩ := sessionDecrypt_tag hdec
  obtain ⟨type,-,rfl⟩ := Option.map_eq_some_iff.mp hraw
  obtain ⟨iv,content,ct,hcontent,hct,rfl⟩ := hforge client hclient data tag htoken htag
  have hsession : sessionEncrypt cipher (some iv) client.sesskey content = some (iv.1 ++ ct ++ tag) :=
    sessionEncrypt_eq_some.mpr ⟨iv,ct,tag,rfl,hct,htag,rfl⟩
  refine ⟨some iv,content,encryptMessage_eq_some.mpr ⟨hcontent,_,hsession,rfl,?_,rfl,?_⟩⟩
  · rw [← htoken,List.length_take,frame.sized]
    exact (Nat.min_eq_left hlen).symm
  · rw [← htoken]
    have hsize : (frame.msgContent.take frame.msgLen.toNat).length = frame.msgLen.toNat := by
      rw [List.length_take,frame.sized]
      exact Nat.min_eq_left hlen
    rw [copyInto,hsize,List.take_append_drop]

/-- What the listener accepts is authentic or was sent as plain text. -/
theorem accepted_cases {frame : Frame} {msg : Message} (hforge : Unforgeable cipher clients frame)
    (hmsg : frame.message.bind (acceptMessage cipher.toOpenSSL clients) = some msg) :
    Authentic cipher clients frame msg ∨ frame.msgType = MessageType.app.code := by
  obtain ⟨raw,hraw,haccept⟩ := Option.bind_eq_some_iff.mp hmsg
  rcases acceptMessage_cases haccept with ⟨happ,-⟩ | ⟨sender,plain,hplain,henc,hsender,rfl⟩
  · right
    obtain ⟨type,htype,rfl⟩ := Option.map_eq_some_iff.mp hraw
    cases happ
    exact MessageType.code_of_ofCode htype
  · left
    have hmem : sender ∈ clients := List.mem_of_find?_eq_some hsender
    obtain ⟨rand,content,hsent⟩ := decrypted_was_encrypted hraw hforge hmem hplain
    exact ⟨sender,hmem,(getFromList_id hsender).symm,rand,raw,content,raw,henc,hsent,hraw⟩

variable (cipher clients)

theorem plain_accepted {frame : Frame} (happ : frame.msgType = MessageType.app.code) :
    ∃ msg, frame.message.bind (acceptMessage cipher.toOpenSSL clients) = some msg ∧
      ¬Authentic cipher clients frame msg := by
  let raw : Message := ⟨frame.sourceId.toNat,frame.msgLen.toNat,.app,frame.msgContent,frame.sized⟩
  have hraw : frame.message = some raw := by
    rw [Frame.message,happ,MessageType.ofCode_code]
    rfl
  refine ⟨raw,by rw [hraw]; rfl,?_⟩
  rintro ⟨client,-,-,rand,base,content,sent,hbase,hsent,hframe⟩
  obtain ⟨-,-,-,-,-,htype,-⟩ := encryptMessage_eq_some.mp hsent
  rw [hraw] at hframe
  cases hframe
  rw [hbase] at htype
  cases htype

variable {cipher clients}

/-- Every message the server enqueues is authentic exactly when no message of type
`MSG_APP` comes in, over TCP or UDP, while the queue has room. -/
theorem enqueued_authentic_iff (ls : List Traffic)
    (hforge : ∀ t ∈ ls, ∀ frame, t.frame = some frame → Unforgeable cipher clients frame) :
    (∀ frame msg, (frame,msg) ∈ (Inbox.run (acceptMessage cipher.toOpenSSL clients) ls).accepted →
      Authentic cipher clients frame msg) ↔
    ∀ n t frame, ls[n]? = some t → t.frame = some frame → frame.msgType = MessageType.app.code →
      (Inbox.run (acceptMessage cipher.toOpenSSL clients) (ls.take n)).queue.full = true := by
  constructor
  · intro h n t frame ht hframe happ
    cases hroom : (Inbox.run (acceptMessage cipher.toOpenSSL clients) (ls.take n)).queue.full with
    | true => rfl
    | false =>
      obtain ⟨msg,hmsg,hforged⟩ := plain_accepted cipher clients happ
      exact absurd (h frame msg ((Inbox.mem_accepted_iff ls frame msg).mpr ⟨n,t,ht,hframe,hroom,hmsg⟩)) hforged
  · intro h frame msg hmem
    obtain ⟨n,t,ht,hframe,hroom,hmsg⟩ := (Inbox.mem_accepted_iff ls frame msg).mp hmem
    rcases accepted_cases (hforge t (List.mem_of_getElem? ht) frame hframe) hmsg with hauth | happ
    · exact hauth
    · rw [h n t frame ht hframe happ] at hroom
      cases hroom

/-! ## A listed client and a stranger -/

theorem TestVector.sent_unforgeable (v : TestVector) (hlen : v.plain.length = maxAppPayloadLen) :
    Unforgeable v.cipher [v.client] v.sent.frame := by
  obtain ⟨out,ct,tag,hout,hct,htag,-,hmsgLen,-,hcontent⟩ :=
    encrypt_payload v.ideal v.iv hlen (Message.blank v.client.id .appEnc) v.client.sesskey
  have hsent : v.sent = out := by
    simp only [sent,brclientSendMsg,hout,Option.getD_some]
  intro client hclient data tag' htoken htag'
  cases List.mem_singleton.mp hclient
  have hwhole : v.sent.frame.msgContent.take v.sent.frame.msgLen.toNat = v.iv.1 ++ ct ++ tag := by
    rw [hsent,Message.frame,hmsgLen,← hcontent]
    exact List.take_of_length_le (Nat.le_of_eq out.sized)
  have htagLen : tag.length = tag'.length := by
    rw [v.cipher.hmac_length _ _ _ htag,v.cipher.hmac_length _ _ _ htag']
  have hparts := List.append_inj' (htoken.symm.trans hwhole) htagLen.symm
  exact ⟨v.iv,v.plain,ct,Nat.le_of_eq hlen,hct,hparts.1⟩

theorem letters_authentic :
    (∀ frame msg, (frame,msg) ∈ (Inbox.run (acceptMessage lettersVector.cipher.toOpenSSL [lettersVector.client])
        [.tcp 0 lettersVector.sent.frame,.get]).accepted →
      Authentic lettersVector.cipher [lettersVector.client] frame msg) ↔
    ∀ n t frame, [Traffic.tcp 0 lettersVector.sent.frame,.get][n]? = some t → t.frame = some frame →
      frame.msgType = MessageType.app.code →
      (Inbox.run (acceptMessage lettersVector.cipher.toOpenSSL [lettersVector.client])
        ([Traffic.tcp 0 lettersVector.sent.frame,.get].take n)).queue.full = true := by
  refine enqueued_authentic_iff [.tcp 0 lettersVector.sent.frame,.get] ?_
  intro t ht frame hframe
  rcases List.mem_cons.mp ht with rfl | ht
  · rw [← Option.some.inj hframe]
    exact lettersVector.sent_unforgeable List.length_replicate
  · cases List.mem_singleton.mp ht
    cases hframe

/-- A datagram anyone can send: plain text in the name of client 1. -/
def strangersDatagram : Frame where
  sourceId := 1
  msgLen := 0
  msgType := MessageType.app.code
  msgContent := List.replicate msgContentLength 65
  sized := List.length_replicate

theorem strangersDatagram_unforgeable (v : TestVector) : Unforgeable v.cipher [v.client] strangersDatagram := by
  intro client _ data tag htoken htag
  have hnone : data ++ tag = [] := htoken.symm
  have hlen := v.cipher.hmac_length _ _ _ htag
  rw [(List.append_eq_nil_iff.mp hnone).2] at hlen
  cases hlen

/-- The datagram is enqueued with nothing behind it but its own word. -/
theorem strangersDatagram_enqueued :
    Unforgeable lettersVector.cipher [lettersVector.client] strangersDatagram ∧
    ¬∀ frame msg, (frame,msg) ∈ (Inbox.run (acceptMessage lettersVector.cipher.toOpenSSL [lettersVector.client])
        [.udp strangersDatagram]).accepted →
      Authentic lettersVector.cipher [lettersVector.client] frame msg := by
  refine ⟨strangersDatagram_unforgeable lettersVector,?_⟩
  intro h
  obtain ⟨msg,hmsg,hforged⟩ := plain_accepted lettersVector.cipher [lettersVector.client]
    (show strangersDatagram.msgType = MessageType.app.code from rfl)
  exact hforged (h _ _ ((Inbox.mem_accepted_iff _ _ _).mpr ⟨0,_,rfl,rfl,rfl,hmsg⟩))

end CoreStack.BattleRoyale
