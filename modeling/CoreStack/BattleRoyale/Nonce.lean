import CoreStack.BattleRoyale.Handshake

/-! # The nonce of an honest handshake

The client prints its nonce as text over the certificate it has received. Behind a zero
byte of the nonce the certificate shows through, and the server signs what it sees.
-/
namespace CoreStack.BattleRoyale

/-! ## The server's side (`server_lobby_state`) -/

structure Signer where
  sign : Bytes → Bytes
  sign_length : ∀ msg, msg.length = nonceLen → (sign msg).length ≤ msgContentLength
  decryptBlock : Bytes → UInt32 → Option Bytes

structure Host where
  selfId : UInt32
  newId : UInt32
  certText : Bytes
  fits : certText.length ≤ msgContentLength
  leftover : Bytes
  leftover_length : leftover.length = msgContentLength

def Host.certMessage (host : Host) : Frame where
  sourceId := host.selfId
  msgLen := UInt32.ofNat host.certText.length
  msgType := MessageType.cert.code
  msgContent := copyInto host.leftover host.certText
  sized := by
    rw [length_copyInto (by rw [host.leftover_length]; exact host.fits)]
    exact host.leftover_length

/-- The server's loops stop when a call fails. A stream of this many bytes is used up
after as many calls. -/
def lobbyAwait (awaited : MessageType) : ℕ → Bytes → Frame → Option (Frame × Bytes)
  | 0, _, _ => none
  | calls + 1, stream, msg =>
    let r := receiveMessageTcp stream msg
    if r.ok = false then none
    else if r.msg.msgType = awaited.code then some (r.msg,r.stream)
    else lobbyAwait awaited calls r.stream r.msg

/-- The signature is copied over the start of the message that asked for it. -/
def authReply (signer : Signer) (selfId : UInt32) (msg : Frame) : Frame where
  sourceId := selfId
  msgLen := UInt32.ofNat (signer.sign (msg.msgContent.take nonceLen)).length
  msgType := MessageType.auth.code
  msgContent := copyInto msg.msgContent (signer.sign (msg.msgContent.take nonceLen))
  sized := by
    have hnonce : (msg.msgContent.take nonceLen).length = nonceLen := by
      rw [List.length_take,msg.sized]
      rfl
    rw [length_copyInto (by rw [msg.sized]; exact signer.sign_length _ hnonce)]
    exact msg.sized

/-- `server_lobby_state` for one client, with the places where a message is used. -/
def lobbyHandshakeUses (signer : Signer) (host : Host) (stream : Bytes) : List Use × (List Bytes × Option Bytes) :=
  let hello := htonl host.newId ++ host.certMessage.encode
  match lobbyAwait .auth (stream.length + 1) stream host.certMessage with
  | none => ([],([hello],none))
  | some (msg,stream) =>
    let reply := authReply signer host.selfId msg
    match lobbyAwait .key (stream.length + 1) stream reply with
    | none => ([],([hello,reply.encode],none))
    | some (msg,_) =>
      ([(.rsaDecryptBlock,msg)],([hello,reply.encode],
        (signer.decryptBlock msg.msgContent msg.msgLen).filter fun sesskey => sesskey.length == 32))

/-- What the server sends on a connection, and the session key it ends with. -/
def lobbyHandshake (signer : Signer) (host : Host) (stream : Bytes) : List Bytes × Option Bytes :=
  (lobbyHandshakeUses signer host stream).2

def signedBytes (host : Host) (stream : Bytes) : Option Bytes :=
  (lobbyAwait .auth (stream.length + 1) stream host.certMessage).map fun p => p.1.msgContent.take nonceLen

/-! ## What the server signs -/

/-- Behind every zero byte of the nonce stands what the certificate has there too. -/
def Survives (nonce content : Bytes) : Prop :=
  ∀ i j, i < j → j < nonce.length → nonce[i]? = some 0 → nonce[j]? = content[j]?

theorem printText_no_zero {content nonce behind : Bytes} (hzero : 0 ∉ nonce) (hlen : nonce.length = nonceLen) :
    (printText content (nonce ++ behind)).take nonceLen = nonce := by
  have htext : (nonce ++ behind).takeWhile (· ≠ 0) = nonce ++ behind.takeWhile (· ≠ 0) := by
    apply List.takeWhile_append_of_pos
    intro b hb
    exact decide_eq_true fun h => hzero (h ▸ hb)
  have hshort : nonce.length ≤ msgContentLength - 1 := by
    rw [hlen]
    decide
  rw [printText,htext,List.take_append,List.take_of_length_le hshort,copyInto,List.append_assoc,List.append_assoc]
  exact List.take_left' hlen

/-- The text ends at the first zero byte; what lay behind it stays. -/
theorem printText_zero {content before after behind : Bytes} (hzero : 0 ∉ before)
    (hlen : (before ++ 0 :: after).length = nonceLen) :
    (printText content (before ++ 0 :: after ++ behind)).take nonceLen =
      before ++ 0 :: (content.drop (before.length + 1)).take after.length := by
  have htext : (before ++ 0 :: after ++ behind).takeWhile (· ≠ 0) = before := by
    rw [List.append_assoc,List.takeWhile_append_of_pos]
    · simp
    · intro b hb
      exact decide_eq_true fun h => hzero (h ▸ hb)
  have hsum : before.length + 1 + after.length = nonceLen := by
    rw [← hlen,List.length_append,List.length_cons]
    omega
  have hshort : before.length ≤ msgContentLength - 1 := by
    have hnonce : nonceLen ≤ msgContentLength - 1 := by decide
    omega
  have hfront : (before ++ [0]).length = before.length + 1 := by rw [List.length_append,List.length_singleton]
  rw [printText,htext,List.take_of_length_le hshort,copyInto,hfront,← hsum,List.take_append,hfront,
    Nat.add_sub_cancel_left,List.take_of_length_le (by rw [hfront]; omega),List.append_assoc]
  rfl

theorem survives_zero_iff {content before after : Bytes} (hzero : 0 ∉ before) :
    Survives (before ++ 0 :: after) content ↔ after = (content.drop (before.length + 1)).take after.length := by
  have hget : ∀ n, (before ++ 0 :: after)[before.length + 1 + n]? = after[n]? := by
    intro n
    rw [List.getElem?_append_right (by omega),Nat.add_assoc,Nat.add_sub_cancel_left,Nat.add_comm 1 n]
    rfl
  constructor
  · intro h
    apply List.ext_getElem?
    intro n
    by_cases hn : n < after.length
    · have hlt : before.length + 1 + n < (before ++ 0 :: after).length := by
        rw [List.length_append,List.length_cons]
        omega
      have hbyte := h before.length (before.length + 1 + n) (by omega) hlt (by simp)
      rw [hget] at hbyte
      rw [hbyte,List.getElem?_take_of_lt hn,List.getElem?_drop]
    · rw [List.getElem?_eq_none (by omega),List.getElem?_take_eq_none (by omega)]
  · intro h i j hij hj hi
    -- no zero stands before the first one
    have hafter : before.length ≤ i := by
      by_contra hlt
      rw [List.getElem?_append_left (by omega)] at hi
      exact hzero (List.mem_of_getElem? hi)
    obtain ⟨n,rfl⟩ : ∃ n, j = before.length + 1 + n := ⟨j - (before.length + 1),by omega⟩
    have hn : n < after.length := by
      rw [List.length_append,List.length_cons] at hj
      omega
    rw [hget,h,List.getElem?_take_of_lt hn,List.getElem?_drop]

/-- The bytes signed are the nonce exactly when the nonce survives the certificate. -/
theorem printText_eq_iff (content behind : Bytes) {nonce : Bytes} (hlen : nonce.length = nonceLen) :
    (printText content (nonce ++ behind)).take nonceLen = nonce ↔ Survives nonce content := by
  by_cases hmem : 0 ∈ nonce
  · obtain ⟨before,after,rfl,hzero⟩ := List.eq_append_cons_of_mem hmem
    rw [printText_zero hzero hlen,survives_zero_iff hzero,List.append_cancel_left_eq,List.cons.injEq]
    constructor
    · rintro ⟨-,h⟩
      exact h.symm
    · intro h
      exact ⟨rfl,h.symm⟩
  · refine iff_of_true (printText_no_zero hmem hlen) ?_
    intro i j _ _ hi
    exact absurd (List.mem_of_getElem? hi) hmem

/-! ## Both ends together -/

/-- A reliable connection: each end reads what the other sends. -/
structure Conversation {Cert PubKey : Type} (pki : Pki Cert PubKey) (env : JoinEnv) (signer : Signer) (host : Host)
    (calls : ℕ) (up down : Bytes) (sent : List Frame) (e : JoinEnd) : Prop where
  served : (lobbyHandshake signer host up).1.flatten = down
  joined : brclientJoin pki env calls down = some (sent,e)
  carried : sent.flatMap Frame.encode = up

/-- The client has the certificate of the server, whose signatures are good for the
signed bytes and for no others. -/
structure Honest {Cert PubKey : Type} (pki : Pki Cert PubKey) (signer : Signer) (host : Host) (cert : Cert)
    (pubKey : PubKey) : Prop where
  loads : pki.loadCertBytes host.certMessage.msgContent host.certMessage.msgLen = some cert
  key : pki.getPubkey cert = some pubKey
  verifies : ∀ msg msg' sig sigLen, msg.length = nonceLen → sig.take sigLen.toNat = signer.sign msg →
    (pki.verifyPss pubKey sig sigLen msg' = true ↔ msg = msg')

def JoinEnd.authenticated (e : JoinEnd) : Prop := e ≠ .noId ∧ e ≠ .unauthenticated

section Together
variable {Cert PubKey : Type} {pki : Pki Cert PubKey} {env : JoinEnv} {signer : Signer} {host : Host}

theorem awaitMessage_encode {awaited : MessageType} {calls : ℕ} {msg stale : Frame} {rest : Bytes} {r : Frame × Bytes}
    (htype : msg.msgType = awaited.code) (h : awaitMessage awaited calls (msg.encode ++ rest) stale = some r) :
    r = (msg,rest) := by
  cases calls with
  | zero => cases h
  | succ calls =>
    simp only [awaitMessage,receive_encode,htype,if_true,Option.some.injEq] at h
    exact h.symm

theorem lobbyAwait_encode {awaited : MessageType} {msg : Frame} (htype : msg.msgType = awaited.code) (calls : ℕ)
    (stale : Frame) (rest : Bytes) : lobbyAwait awaited (calls + 1) (msg.encode ++ rest) stale = some (msg,rest) := by
  simp only [lobbyAwait,receive_encode,htype,Bool.true_eq_false,if_false,if_true]

theorem lobbyHandshake_hello (signer : Signer) (host : Host) (up : Bytes) :
    ∃ rest, (lobbyHandshake signer host up).1.flatten = htonl host.newId ++ (host.certMessage.encode ++ rest) := by
  unfold lobbyHandshake lobbyHandshakeUses
  dsimp only
  split
  · exact ⟨[],by simp⟩
  · next msg s _ =>
    refine ⟨(authReply signer host.selfId msg).encode,?_⟩
    split <;> simp

theorem lobbyHandshake_reply {msg : Frame} (htype : msg.msgType = MessageType.auth.code) (rest : Bytes) :
    (lobbyHandshake signer host (msg.encode ++ rest)).1.flatten =
      htonl host.newId ++ (host.certMessage.encode ++ (authReply signer host.selfId msg).encode) := by
  unfold lobbyHandshake lobbyHandshakeUses
  dsimp only
  rw [lobbyAwait_encode htype]
  dsimp only
  split <;> simp

theorem keyExchange_authenticated (id : UInt32) (cert : Option Cert) (msg : Frame) :
    (keyExchange pki env id cert msg).2.authenticated := by
  unfold keyExchange
  split
  · exact ⟨by decide,by decide⟩
  · split
    · exact ⟨by decide,by decide⟩
    · split
      · exact ⟨by decide,by decide⟩
      · split
        · dsimp only
          split
          · exact ⟨by decide,by decide⟩
          · exact ⟨by decide,by decide⟩
        · exact ⟨by decide,by decide⟩

/-- A join after the server's greeting: its nonce is the first message sent, and it gets
on if the signature in the answer is accepted. -/
theorem join_after_hello {calls : ℕ} {rest : Bytes} {sent : List Frame} {e : JoinEnd}
    (h : brclientJoin pki env calls (htonl host.newId ++ (host.certMessage.encode ++ rest)) = some (sent,e)) :
    (∃ more, sent = nonceMessage env host.newId host.certMessage :: more) ∧
    ∃ msg s, awaitMessage .auth calls rest (nonceMessage env host.newId host.certMessage) = some (msg,s) ∧
      (e.authenticated ↔ verifyMessagePss pki
        (pki.loadCertBytes host.certMessage.msgContent host.certMessage.msgLen) msg.msgContent msg.msgLen
        env.nonce = true) := by
  rcases brclientJoin_cases pki h with ⟨hread,-⟩ | ⟨source,s,certMsg,s',msg,s'',hread,hcert,hauth,hr⟩
  · rw [readBytes_append (length_htonl _)] at hread
    cases hread
  · rw [readBytes_append (length_htonl _)] at hread
    cases hread
    cases awaitMessage_encode rfl hcert
    rw [ntohl_htonl] at hauth hr
    split at hr
    · next hverify =>
      obtain ⟨rfl,rfl⟩ := Prod.mk.inj hr
      exact ⟨⟨_,rfl⟩,msg,s'',hauth,iff_of_true (keyExchange_authenticated _ _ _) hverify⟩
    · next hverify =>
      obtain ⟨rfl,rfl⟩ := Prod.mk.inj hr
      exact ⟨⟨_,rfl⟩,msg,s'',hauth,iff_of_false (fun hauthenticated => hauthenticated.2 rfl) hverify⟩

/-- How every conversation goes: the server signs what the client printed, and the join
gets on if that signature is accepted. -/
theorem Conversation.course {calls : ℕ} {up down : Bytes} {sent : List Frame} {e : JoinEnd}
    (h : Conversation pki env signer host calls up down sent e) :
    signedBytes host up = some ((nonceMessage env host.newId host.certMessage).msgContent.take nonceLen) ∧
      (e.authenticated ↔
        verifyMessagePss pki (pki.loadCertBytes host.certMessage.msgContent host.certMessage.msgLen)
          (authReply signer host.selfId (nonceMessage env host.newId host.certMessage)).msgContent
          (authReply signer host.selfId (nonceMessage env host.newId host.certMessage)).msgLen env.nonce = true) := by
  obtain ⟨rest,hrest⟩ := lobbyHandshake_hello signer host up
  have hjoin := h.joined
  rw [← h.served,hrest] at hjoin
  obtain ⟨⟨more,hsent⟩,msg,s,hauth,hiff⟩ := join_after_hello hjoin
  have hup : up = (nonceMessage env host.newId host.certMessage).encode ++ more.flatMap Frame.encode := by
    rw [← h.carried,hsent,List.flatMap_cons]
  constructor
  · rw [signedBytes,hup,lobbyAwait_encode rfl]
    rfl
  · rw [hup,lobbyHandshake_reply rfl] at hrest
    have hreply := List.append_cancel_left (List.append_cancel_left hrest)
    rw [← hreply,← List.append_nil (Frame.encode _)] at hauth
    cases awaitMessage_encode rfl hauth
    exact hiff

theorem authReply_signature (msg : Frame) :
    (authReply signer host.selfId msg).msgContent.take (authReply signer host.selfId msg).msgLen.toNat =
      signer.sign (msg.msgContent.take nonceLen) := by
  have hnonce : (msg.msgContent.take nonceLen).length = nonceLen := by
    rw [List.length_take,msg.sized]
    rfl
  have hsmall : (signer.sign (msg.msgContent.take nonceLen)).length < 4294967296 :=
    Nat.lt_of_le_of_lt (signer.sign_length _ hnonce) (by decide)
  have hlen : (authReply signer host.selfId msg).msgLen.toNat = (signer.sign (msg.msgContent.take nonceLen)).length := by
    rw [authReply,UInt32.toNat_ofNat',Nat.mod_eq_of_lt hsmall]
  rw [hlen]
  exact List.take_left

/-- In an honest handshake the server signs the client's nonce and the client goes on to
the key exchange exactly when the nonce survives being printed over the certificate. -/
theorem honest_handshake_iff {cert : Cert} {pubKey : PubKey} (hhonest : Honest pki signer host cert pubKey)
    {calls : ℕ} {up down : Bytes} {sent : List Frame} {e : JoinEnd}
    (h : Conversation pki env signer host calls up down sent e) :
    (signedBytes host up = some env.nonce ∧ e.authenticated) ↔
      Survives env.nonce host.certMessage.msgContent := by
  obtain ⟨hsigned,hauth⟩ := h.course
  have hprinted := printText_eq_iff host.certMessage.msgContent env.behind env.nonce_length
  have hsize : ((nonceMessage env host.newId host.certMessage).msgContent.take nonceLen).length = nonceLen := by
    rw [List.length_take,(nonceMessage env host.newId host.certMessage).sized]
    rfl
  have hverify : e.authenticated ↔ (nonceMessage env host.newId host.certMessage).msgContent.take nonceLen = env.nonce := by
    rw [hauth,hhonest.loads,verifyMessagePss,Option.bind_some,hhonest.key]
    exact hhonest.verifies _ _ _ _ hsize (authReply_signature _)
  rw [hsigned,hverify,Option.some.injEq,and_self]
  exact hprinted

variable (pki env signer host)

theorem exists_conversation : ∃ up down sent e, Conversation pki env signer host 1 up down sent e := by
  let asked := nonceMessage env (ntohl (htonl host.newId)) host.certMessage
  let reply := authReply signer host.selfId asked
  have hcert : awaitMessage .cert 1 (host.certMessage.encode ++ (reply.encode ++ [])) env.stale =
      some (host.certMessage,reply.encode ++ []) := by
    simp only [awaitMessage,receive_encode]
    rfl
  have hauth : awaitMessage .auth 1 (reply.encode ++ []) asked = some (reply,[]) := by
    simp only [awaitMessage,receive_encode]
    rfl
  obtain ⟨⟨sent,e⟩,hjoin⟩ := brclientJoin_returns pki (readBytes_append (length_htonl host.newId)) hcert hauth
  obtain ⟨⟨more,rfl⟩,-⟩ := join_after_hello hjoin
  refine ⟨_,_,_,e,?_,hjoin,rfl⟩
  rw [List.flatMap_cons,lobbyHandshake_reply rfl,List.append_nil,← ntohl_htonl host.newId]

end Together

/-! ## Two nonces under one certificate -/

theorem strangerSign_injective : Function.Injective strangerSign := by
  have hsig : strangerSig.head? = some 131 := by decide +kernel
  have htorn : tornSig.head? = some 151 := by decide +kernel
  have hhead : ∀ msg, strangerSign msg = strangerSig ∧ msg = strangerNonce ∨ strangerSign msg = tornSig ∧ msg = tornNonce ∨
      strangerSign msg = 0 :: msg := by
    intro msg
    unfold strangerSign
    split
    · next h => exact Or.inl ⟨rfl,h⟩
    · split
      · next h => exact Or.inr (Or.inl ⟨rfl,h⟩)
      · exact Or.inr (Or.inr rfl)
  intro msg msg' heq
  have hfirst := congrArg List.head? heq
  rcases hhead msg with ⟨h,hm⟩ | ⟨h,hm⟩ | h <;> rcases hhead msg' with ⟨h',hm'⟩ | ⟨h',hm'⟩ | h'
  all_goals rw [h,h'] at hfirst heq
  · rw [hm,hm']
  · rw [hsig,htorn] at hfirst
    exact absurd (Option.some.inj hfirst) (by decide)
  · rw [hsig,List.head?_cons] at hfirst
    exact absurd (Option.some.inj hfirst) (by decide)
  · rw [hsig,htorn] at hfirst
    exact absurd (Option.some.inj hfirst) (by decide)
  · rw [hm,hm']
  · rw [htorn,List.head?_cons] at hfirst
    exact absurd (Option.some.inj hfirst) (by decide)
  · rw [hsig,List.head?_cons] at hfirst
    exact absurd (Option.some.inj hfirst) (by decide)
  · rw [htorn,List.head?_cons] at hfirst
    exact absurd (Option.some.inj hfirst) (by decide)
  · exact (List.cons.inj heq).2

def strangerSigner : Signer where
  sign := strangerSign
  sign_length msg hlen := by
    unfold strangerSign
    split
    · decide +kernel
    · split
      · decide +kernel
      · rw [List.length_cons,hlen]
        decide
  decryptBlock data len :=
    if data.take len.toNat = strangerEncKey then some ((List.range 32).map fun i => UInt8.ofNat (i + 1)) else none

def strangerHost : Host where
  selfId := 0
  newId := 1
  certText := strangerPem
  fits := by decide +kernel
  leftover := List.replicate msgContentLength 0
  leftover_length := length_zeros

theorem stranger_honest : Honest strangerPki strangerSigner strangerHost .stranger .stranger where
  loads := by decide +kernel
  key := rfl
  verifies msg msg' sig sigLen _ hsig := by
    refine decide_eq_true_iff.trans ?_
    rw [hsig]
    exact ⟨fun h => strangerSign_injective h.2,fun h => ⟨rfl,congrArg strangerSign h⟩⟩

theorem stranger_handshake_iff :
    ∃ up down sent e, Conversation strangerPki strangerEnv strangerSigner strangerHost 1 up down sent e ∧
      ((signedBytes strangerHost up = some strangerEnv.nonce ∧ e.authenticated) ↔
        Survives strangerEnv.nonce strangerHost.certMessage.msgContent) := by
  obtain ⟨up,down,sent,e,h⟩ := exists_conversation strangerPki strangerEnv strangerSigner strangerHost
  exact ⟨up,down,sent,e,h,honest_handshake_iff stranger_honest h⟩

def tornEnv : JoinEnv := { strangerEnv with nonce := [1,0,3,4,5,6,7,8], nonce_length := rfl }

theorem tornEnv_not_survives : ¬Survives tornEnv.nonce strangerHost.certMessage.msgContent := by
  intro h
  have hbyte := h 1 2 (by decide) (by decide) (by decide)
  revert hbyte
  decide +kernel

/-- The server signs one byte of the nonce, the zero and six bytes of its own certificate;
the client turns it down. -/
theorem torn_handshake_fails :
    Honest strangerPki strangerSigner strangerHost .stranger .stranger ∧
    ∃ up down sent e, Conversation strangerPki tornEnv strangerSigner strangerHost 1 up down sent e ∧
      ¬(signedBytes strangerHost up = some tornEnv.nonce ∧ e.authenticated) := by
  obtain ⟨up,down,sent,e,h⟩ := exists_conversation strangerPki tornEnv strangerSigner strangerHost
  refine ⟨stranger_honest,up,down,sent,e,h,?_⟩
  rintro ⟨hsigned,-⟩
  rw [h.course.1,Option.some.injEq] at hsigned
  exact tornEnv_not_survives ((printText_eq_iff _ _ tornEnv.nonce_length).mp hsigned)

end CoreStack.BattleRoyale
