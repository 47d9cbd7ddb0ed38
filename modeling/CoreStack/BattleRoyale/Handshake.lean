import CoreStack.BattleRoyale.Framing

/-! # The handshake (`brclient_join` of `client.c`, `server_lobby_state` of `server.c`)

The client's side starts when the room has accepted its connection. The peer is the
stream of bytes it sends before it closes; `none` is a client that is still waiting
after so many receive calls.
-/
namespace CoreStack.BattleRoyale

def nonceLen : ℕ := 8

/-- The public-key side of OpenSSL. A buffer comes with the length the message names. -/
structure Pki (Cert PubKey : Type) where
  loadCertBytes : Bytes → UInt32 → Option Cert
  getPubkey : Cert → Option PubKey
  /-- Public key, signature with its length, message. -/
  verifyPss : PubKey → Bytes → UInt32 → Bytes → Bool
  encryptBlock : PubKey → Bytes → Option Bytes
  /-- The chain check of a certificate against one trusted certificate. -/
  verifyChain : Cert → Cert → Bool

/-- What the client does not get from its peer. The message is not initialised; the text
of the nonce runs on into the memory behind it. -/
structure JoinEnv where
  stale : Frame
  nonce : Bytes
  nonce_length : nonce.length = nonceLen
  behind : Bytes
  sesskey : Option Bytes
  udpPrepared : Bool
  udpConnected : Bool

/-- Where `brclient_join` returns. -/
inductive JoinEnd
  | noId
  | unauthenticated
  | noPubkey
  | noSesskey
  | notEncrypted
  | noUdp
  | joined
  deriving DecidableEq, Repr

def JoinEnd.returned : JoinEnd → Int
  | .joined => 0
  | _ => -1

/-- A place where `msg_content` is used with `msg_len` as its length. -/
inductive Place
  | loadCertBytes
  | verifyMessagePss
  | rsaDecryptBlock
  | sessionDecrypt
  deriving DecidableEq, Repr

abbrev Use := Place × Frame

variable {Cert PubKey : Type} (pki : Pki Cert PubKey)

/-- Would check a certificate against the one of the CA. No function calls it. -/
def verifyServerCert (serverCert : Cert) (caCert : Option Cert) : Bool :=
  match caCert with
  | none => false
  | some ca => pki.verifyChain ca serverCert

def verifyMessagePss (cert : Option Cert) (sig : Bytes) (sigLen : UInt32) (msg : Bytes) : Bool :=
  match cert.bind pki.getPubkey with
  | none => false
  | some pubKey => pki.verifyPss pubKey sig sigLen msg

/-- `do receive_message_tcp(..); while (msg.msg_type != awaited)`: the result of the call
is not looked at. -/
def awaitMessage (awaited : MessageType) : ℕ → Bytes → Frame → Option (Frame × Bytes)
  | 0, _, _ => none
  | calls + 1, stream, msg =>
    let r := receiveMessageTcp stream msg
    if r.msg.msgType = awaited.code then some (r.msg,r.stream) else awaitMessage awaited calls r.stream r.msg

/-- `snprintf(content, 2048, "%s", memory)`. -/
def printText (content memory : Bytes) : Bytes :=
  copyInto content ((memory.takeWhile (· ≠ 0)).take (msgContentLength - 1) ++ [0])

theorem length_printText {content : Bytes} (h : content.length = msgContentLength) (memory : Bytes) :
    (printText content memory).length = msgContentLength := by
  rw [printText,length_copyInto,h]
  rw [List.length_append,List.length_take,h,List.length_singleton]
  unfold msgContentLength
  omega

/-- The nonce is printed into the message the certificate came in. -/
def nonceMessage (env : JoinEnv) (id : UInt32) (msg : Frame) : Frame where
  sourceId := id
  msgLen := msg.msgLen
  msgType := MessageType.auth.code
  msgContent := printText msg.msgContent (env.nonce ++ env.behind)
  sized := length_printText msg.sized _

def keyMessage (id : UInt32) (msg : Frame) (encKey : Bytes) (h : encKey.length ≤ msg.msgContent.length) : Frame where
  sourceId := id
  msgLen := UInt32.ofNat encKey.length
  msgType := MessageType.key.code
  msgContent := copyInto msg.msgContent encKey
  sized := (length_copyInto h).trans msg.sized

def keyExchange (env : JoinEnv) (id : UInt32) (cert : Option Cert) (msg : Frame) : List Frame × JoinEnd :=
  match cert.bind pki.getPubkey with
  | none => ([],.noPubkey)
  | some pubKey =>
    match env.sesskey with
    | none => ([],.noSesskey)
    | some sesskey =>
      match pki.encryptBlock pubKey sesskey with
      | none => ([],.notEncrypted)
      | some encKey =>
        if h : encKey.length ≤ msg.msgContent.length then
          ([keyMessage id msg encKey h],if env.udpPrepared && env.udpConnected then .joined else .noUdp)
        else ([],.notEncrypted)

/-- `brclient_join` with the places where a message is used. `calls` bounds the receive calls of
each loop; a client that still waits has used what it received before. -/
def brclientJoinUses (env : JoinEnv) (calls : ℕ) (stream : Bytes) : List Use × Option (List Frame × JoinEnd) :=
  match readBytes 4 stream with
  | none => ([],some ([],.noId))
  | some (source,stream) =>
    let id := ntohl source
    match awaitMessage .cert calls stream env.stale with
    | none => ([],none)
    | some (certMsg,stream) =>
      let cert := pki.loadCertBytes certMsg.msgContent certMsg.msgLen
      let sent := nonceMessage env id certMsg
      match awaitMessage .auth calls stream sent with
      | none => ([(.loadCertBytes,certMsg)],none)
      | some (msg,_) =>
        ([(.loadCertBytes,certMsg),(.verifyMessagePss,msg)],
          if verifyMessagePss pki cert msg.msgContent msg.msgLen env.nonce then
            let r := keyExchange pki env id cert msg
            some (sent :: r.1,r.2)
          else some ([sent],.unauthenticated))

/-- What the client sends, and where it returns. -/
def brclientJoin (env : JoinEnv) (calls : ℕ) (stream : Bytes) : Option (List Frame × JoinEnd) :=
  (brclientJoinUses pki env calls stream).2

def presentedCert (env : JoinEnv) (calls : ℕ) (stream : Bytes) : Option Cert :=
  (readBytes 4 stream).bind fun p =>
    (awaitMessage .cert calls p.2 env.stale).bind fun q => pki.loadCertBytes q.1.msgContent q.1.msgLen

/-! ## When the client stops waiting -/

/-- The type in the header of the `k`-th message of the stream, once it has arrived. -/
def typeAt (stream : Bytes) (k : ℕ) : Option UInt32 :=
  if frameLength * k + headerLength ≤ stream.length then
    some (ntohl ((stream.drop (frameLength * k + 8)).take 4))
  else none

theorem typeAt_drop (stream : Bytes) (k : ℕ) : typeAt (stream.drop frameLength) k = typeAt stream (k + 1) := by
  have hlen : frameLength * k + headerLength ≤ (stream.drop frameLength).length ↔
      frameLength * (k + 1) + headerLength ≤ stream.length := by
    rw [List.length_drop,Nat.mul_succ]
    unfold headerLength
    omega
  have hoffset : frameLength + (frameLength * k + 8) = frameLength * (k + 1) + 8 := by
    rw [Nat.mul_succ]
    omega
  unfold typeAt
  simp only [hlen,List.drop_drop,hoffset]

theorem typeAt_none {stream : Bytes} {k j : ℕ} (h : typeAt stream k = none) (hkj : k ≤ j) : typeAt stream j = none := by
  unfold typeAt at h ⊢
  split at h
  · cases h
  · next hlen =>
    have hmul : frameLength * k ≤ frameLength * j := Nat.mul_le_mul_left _ hkj
    rw [if_neg (by omega)]

theorem typeAt_short {stream : Bytes} (h : stream.length < headerLength) : typeAt stream 0 = none := by
  rw [typeAt,if_neg (by omega)]

theorem receive_type (stream : Bytes) (msg : Frame) :
    (receiveMessageTcp stream msg).msg.msgType = (typeAt stream 0).getD msg.msgType := by
  unfold receiveMessageTcp
  dsimp only
  split
  · next hsource =>
    have hshort := readBytes_eq_none.mp hsource
    rw [typeAt_short (Nat.lt_trans hshort (by decide))]
    rfl
  · next source s₁ hsource =>
    obtain ⟨hl₁,rfl⟩ := readBytes_eq_some hsource
    split
    · next hlength =>
      have hshort := readBytes_eq_none.mp hlength
      rw [typeAt_short (by rw [List.length_append,headerLength]; omega)]
      rfl
    · next length s₂ hlength =>
      obtain ⟨hl₂,rfl⟩ := readBytes_eq_some hlength
      split
      · next htype =>
        have hshort := readBytes_eq_none.mp htype
        rw [typeAt_short (by rw [List.length_append,List.length_append,headerLength]; omega)]
        rfl
      · next type s₃ htype =>
        obtain ⟨hl₃,rfl⟩ := readBytes_eq_some htype
        have hskip : (source ++ (length ++ (type ++ s₃))).drop 8 = type ++ s₃ := by
          rw [← List.append_assoc]
          exact List.drop_left' (by rw [List.length_append,hl₁,hl₂])
        have hfull : frameLength * 0 + headerLength ≤ (source ++ (length ++ (type ++ s₃))).length := by
          simp only [List.length_append,headerLength]
          omega
        have hread : typeAt (source ++ (length ++ (type ++ s₃))) 0 = some (ntohl type) := by
          rw [typeAt,if_pos hfull,Nat.mul_zero,Nat.zero_add,hskip,List.take_left' hl₃]
        rw [hread,Option.getD_some]
        split <;> rfl

/-- The loop can stop: the header awaited arrives, or no header does and the message
already has the awaited type. -/
def Stops (awaited : MessageType) (stream : Bytes) (type : UInt32) : Prop :=
  typeAt stream 0 = none ∧ type = awaited.code ∨ ∃ k, typeAt stream k = some awaited.code

/-- Where the loop leaves the stream: behind the first message of the awaited type. -/
theorem awaitMessage_stream {awaited : MessageType} {calls : ℕ} {stream rest : Bytes} {msg out : Frame}
    (h : awaitMessage awaited calls stream msg = some (out,rest)) :
    typeAt stream 0 = none ∧ msg.msgType = awaited.code ∧ rest = [] ∨
    ∃ k, typeAt stream k = some awaited.code ∧ (∀ j < k, typeAt stream j ≠ some awaited.code) ∧
      rest = stream.drop (frameLength * (k + 1)) := by
  induction calls generalizing stream msg with
  | zero => cases h
  | succ calls ih =>
    unfold awaitMessage at h
    dsimp only at h
    rw [receive_type,receive_stream] at h
    split at h
    · next htype =>
      cases h
      cases hfirst : typeAt stream 0 with
      | none =>
        rw [hfirst,Option.getD_none] at htype
        left
        refine ⟨rfl,htype,List.drop_eq_nil_of_le ?_⟩
        unfold typeAt at hfirst
        split at hfirst
        · cases hfirst
        · next hlen =>
          unfold headerLength at hlen
          unfold frameLength
          omega
      | some type =>
        rw [hfirst,Option.getD_some] at htype
        exact Or.inr ⟨0,by rw [hfirst,htype],fun j hj => absurd hj (Nat.not_lt_zero j),rfl⟩
    · next htype =>
      right
      rcases ih h with ⟨-,hsame,-⟩ | ⟨k,hk,hbefore,hrest⟩
      · rw [receive_type] at hsame
        exact absurd hsame htype
      · refine ⟨k + 1,by rw [← typeAt_drop]; exact hk,?_,?_⟩
        · intro j hj
          cases j with
          | zero =>
            intro hzero
            rw [hzero,Option.getD_some] at htype
            exact htype rfl
          | succ j =>
            rw [← typeAt_drop]
            exact hbefore j (Nat.lt_of_succ_lt_succ hj)
        · rw [hrest,List.drop_drop,Nat.mul_succ frameLength (k + 1),Nat.add_comm]

theorem awaitMessage_returns_iff (awaited : MessageType) (stream : Bytes) (msg : Frame) :
    (∃ calls r, awaitMessage awaited calls stream msg = some r) ↔ Stops awaited stream msg.msgType := by
  constructor
  · rintro ⟨calls,⟨out,rest⟩,h⟩
    rcases awaitMessage_stream h with ⟨hnone,htype,-⟩ | ⟨k,hk,-,-⟩
    · exact Or.inl ⟨hnone,htype⟩
    · exact Or.inr ⟨k,hk⟩
  · rintro (⟨hnone,htype⟩ | ⟨k,hk⟩)
    · refine ⟨1,_,if_pos ?_⟩
      rw [receive_type,hnone,Option.getD_none]
      exact htype
    · -- by induction on how many messages come before the awaited one
      induction k generalizing stream msg with
      | zero =>
        refine ⟨1,_,if_pos ?_⟩
        rw [receive_type,hk,Option.getD_some]
      | succ k ih =>
        by_cases hstop : (receiveMessageTcp stream msg).msg.msgType = awaited.code
        · exact ⟨1,_,if_pos hstop⟩
        · obtain ⟨calls,r,hr⟩ := ih (receiveMessageTcp stream msg).stream (receiveMessageTcp stream msg).msg
            (by rw [receive_stream,typeAt_drop]; exact hk)
          exact ⟨calls + 1,r,(if_neg hstop).trans hr⟩

theorem awaitMessage_more {awaited : MessageType} {calls more : ℕ} {stream : Bytes} {msg : Frame} {r : Frame × Bytes}
    (h : awaitMessage awaited calls stream msg = some r) (hle : calls ≤ more) :
    awaitMessage awaited more stream msg = some r := by
  induction calls generalizing stream msg more with
  | zero => cases h
  | succ calls ih =>
    obtain ⟨more,rfl⟩ : ∃ n, more = n + 1 := ⟨more - 1,by omega⟩
    unfold awaitMessage at h ⊢
    dsimp only at h ⊢
    split at h
    · next hstop =>
      rw [if_pos hstop]
      exact h
    · next hstop =>
      rw [if_neg hstop]
      exact ih h (Nat.le_of_succ_le_succ hle)

/-- The bytes after which the client returns: no id comes, or no header at all while the
message happens to have the type awaited, or after the first certificate there comes no
further header or one of type `MSG_AUTH`. -/
def Ends (staleType : UInt32) (stream : Bytes) : Prop :=
  stream.length < 4 ∨
  typeAt (stream.drop 4) 0 = none ∧ staleType = MessageType.cert.code ∨
  ∃ k, typeAt (stream.drop 4) k = some MessageType.cert.code ∧
    (∀ j < k, typeAt (stream.drop 4) j ≠ some MessageType.cert.code) ∧
    (typeAt (stream.drop 4) (k + 1) = none ∨
      ∃ j, k < j ∧ typeAt (stream.drop 4) j = some MessageType.auth.code)

theorem typeAt_drop_mul (stream : Bytes) (n k : ℕ) :
    typeAt (stream.drop (frameLength * n)) k = typeAt stream (n + k) := by
  induction n generalizing k with
  | zero => simp
  | succ n ih =>
    rw [Nat.mul_succ,← List.drop_drop,typeAt_drop,ih]
    congr 1
    omega

/-- The second loop, which starts with the client's own message of type `MSG_AUTH`. -/
theorem stops_auth_iff (stream : Bytes) (k : ℕ) :
    Stops .auth (stream.drop (frameLength * (k + 1))) MessageType.auth.code ↔
    typeAt stream (k + 1) = none ∨ ∃ j, k < j ∧ typeAt stream j = some MessageType.auth.code := by
  simp only [Stops,typeAt_drop_mul,and_true,Nat.add_zero]
  refine or_congr_right ⟨?_,?_⟩
  · rintro ⟨i,hi⟩
    exact ⟨k + 1 + i,by omega,hi⟩
  · rintro ⟨j,hj,hauth⟩
    exact ⟨j - (k + 1),by rwa [Nat.add_sub_cancel' hj]⟩

theorem brclientJoin_cases {env : JoinEnv} {calls : ℕ} {stream : Bytes} {r : List Frame × JoinEnd}
    (h : brclientJoin pki env calls stream = some r) :
    readBytes 4 stream = none ∧ r = ([],.noId) ∨
    ∃ source s certMsg s' msg s'', readBytes 4 stream = some (source,s) ∧
      awaitMessage .cert calls s env.stale = some (certMsg,s') ∧
      awaitMessage .auth calls s' (nonceMessage env (ntohl source) certMsg) = some (msg,s'') ∧
      r = if verifyMessagePss pki (pki.loadCertBytes certMsg.msgContent certMsg.msgLen) msg.msgContent msg.msgLen
          env.nonce then
        (nonceMessage env (ntohl source) certMsg ::
          (keyExchange pki env (ntohl source) (pki.loadCertBytes certMsg.msgContent certMsg.msgLen) msg).1,
          (keyExchange pki env (ntohl source) (pki.loadCertBytes certMsg.msgContent certMsg.msgLen) msg).2)
        else ([nonceMessage env (ntohl source) certMsg],.unauthenticated) := by
  unfold brclientJoin brclientJoinUses at h
  split at h
  · next hread =>
    cases h
    exact Or.inl ⟨hread,rfl⟩
  · next source s hread =>
    right
    dsimp only at h
    split at h
    · cases h
    · next certMsg s' hcert =>
      split at h
      · cases h
      · next msg s'' hauth =>
        refine ⟨source,s,certMsg,s',msg,s'',hread,hcert,hauth,?_⟩
        dsimp only at h
        split at h
        · next hverify =>
          rw [if_pos hverify]
          exact (Option.some.inj h).symm
        · next hverify =>
          rw [if_neg hverify]
          exact (Option.some.inj h).symm

theorem brclientJoin_returns {env : JoinEnv} {calls : ℕ} {stream source s s' : Bytes} {certMsg : Frame}
    {r : Frame × Bytes} (hread : readBytes 4 stream = some (source,s))
    (hcert : awaitMessage .cert calls s env.stale = some (certMsg,s'))
    (hauth : awaitMessage .auth calls s' (nonceMessage env (ntohl source) certMsg) = some r) :
    ∃ out, brclientJoin pki env calls stream = some out := by
  unfold brclientJoin brclientJoinUses
  rw [hread]
  dsimp only
  rw [hcert]
  dsimp only
  rw [hauth]
  dsimp only
  split
  · exact ⟨_,rfl⟩
  · exact ⟨_,rfl⟩

theorem ends_of_returns {env : JoinEnv} {calls : ℕ} {stream : Bytes} {r : List Frame × JoinEnd}
    (h : brclientJoin pki env calls stream = some r) : Ends env.stale.msgType stream := by
  rcases brclientJoin_cases pki h with ⟨hread,-⟩ | ⟨source,s,certMsg,s',msg,s'',hread,hcert,hauth,-⟩
  · exact Or.inl (readBytes_eq_none.mp hread)
  · right
    obtain ⟨hsource,rfl⟩ := readBytes_eq_some hread
    rw [List.drop_left' hsource]
    rcases awaitMessage_stream hcert with ⟨hnone,hstale,-⟩ | ⟨k,hk,hfirst,rfl⟩
    · exact Or.inl ⟨hnone,hstale⟩
    · have hstops := (awaitMessage_returns_iff _ _ _).mp ⟨calls,_,hauth⟩
      exact Or.inr ⟨k,hk,hfirst,(stops_auth_iff s k).mp hstops⟩

/-- `brclient_join` returns on a stream that ends exactly when the headers in the stream
let both loops stop. -/
theorem join_returns_iff (env : JoinEnv) (stream : Bytes) :
    (∃ calls r, brclientJoin pki env calls stream = some r) ↔ Ends env.stale.msgType stream := by
  constructor
  · rintro ⟨calls,r,h⟩
    exact ends_of_returns pki h
  · intro h
    cases hread : readBytes 4 stream with
    | none =>
      refine ⟨0,([],.noId),?_⟩
      unfold brclientJoin brclientJoinUses
      rw [hread]
    | some p =>
      obtain ⟨source,s⟩ := p
      obtain ⟨hsource,rfl⟩ := readBytes_eq_some hread
      have hlong : ¬(source ++ s).length < 4 := by
        rw [List.length_append]
        omega
      simp only [Ends,hlong,false_or,List.drop_left' hsource] at h
      have hcert : Stops .cert s env.stale.msgType := by
        rcases h with h | ⟨k,hk,-,-⟩
        · exact Or.inl h
        · exact Or.inr ⟨k,hk⟩
      obtain ⟨c₁,⟨certMsg,s'⟩,hcert⟩ := (awaitMessage_returns_iff _ _ _).mpr hcert
      have hauth : Stops .auth s' (nonceMessage env (ntohl source) certMsg).msgType := by
        rcases awaitMessage_stream hcert with ⟨-,-,rfl⟩ | ⟨k,hk,hfirst,rfl⟩
        · exact Or.inl ⟨rfl,rfl⟩
        · refine (stops_auth_iff s k).mpr ?_
          rcases h with ⟨hnone,-⟩ | ⟨k',hk',hfirst',hrest⟩
          · rw [typeAt_none hnone (Nat.zero_le k)] at hk
            cases hk
          · obtain rfl : k = k' := by
              rcases Nat.lt_trichotomy k k' with hlt | heq | hgt
              · exact absurd hk (hfirst' k hlt)
              · exact heq
              · exact absurd hk' (hfirst k' hgt)
            exact hrest
      obtain ⟨c₂,r,hauth⟩ := (awaitMessage_returns_iff _ _ _).mpr hauth
      exact ⟨max c₁ c₂,brclientJoin_returns pki hread (awaitMessage_more hcert (Nat.le_max_left _ _))
        (awaitMessage_more hauth (Nat.le_max_right _ _))⟩

/-! ## Who the client joins -/

/-- Only a return from the very end is a success. -/
theorem returned_eq_zero {e : JoinEnd} (h : e.returned = 0) : e = .joined := by
  cases e <;> first | rfl | exact absurd h (by decide)

theorem joined_verified {env : JoinEnv} {calls : ℕ} {stream : Bytes} {sent : List Frame} {e : JoinEnd}
    (h : brclientJoin pki env calls stream = some (sent,e)) (he : e.returned = 0) :
    ∃ cert pubKey sig sigLen, presentedCert pki env calls stream = some cert ∧ pki.getPubkey cert = some pubKey ∧
      pki.verifyPss pubKey sig sigLen env.nonce = true := by
  have hjoined := returned_eq_zero he
  rcases brclientJoin_cases pki h with ⟨-,hr⟩ | ⟨source,s,certMsg,s',msg,s'',hread,hcert,-,hr⟩
  · cases hr
    cases hjoined
  · split at hr
    · next hverify =>
      unfold verifyMessagePss at hverify
      split at hverify
      · cases hverify
      · next pubKey hkey =>
        obtain ⟨cert,hload,hpub⟩ := Option.bind_eq_some_iff.mp hkey
        refine ⟨cert,pubKey,msg.msgContent,msg.msgLen,?_,hpub,hverify⟩
        simp only [presentedCert,hread,Option.bind_some,hcert,hload]
    · cases hr
      cases hjoined

/-- A client that joined has a peer who holds the private key of the certificate it showed.
`holds` is what the peer can sign with. -/
theorem joined_holds_presented {env : JoinEnv} {holds : PubKey → Prop}
    (hideal : ∀ pubKey sig sigLen, pki.verifyPss pubKey sig sigLen env.nonce = true → holds pubKey)
    {calls : ℕ} {stream : Bytes} {sent : List Frame} {e : JoinEnd}
    (h : brclientJoin pki env calls stream = some (sent,e)) (he : e.returned = 0) :
    ∃ cert pubKey, presentedCert pki env calls stream = some cert ∧ pki.getPubkey cert = some pubKey ∧
      holds pubKey := by
  obtain ⟨cert,pubKey,sig,sigLen,hcert,hpub,hverify⟩ := joined_verified pki h he
  exact ⟨cert,pubKey,hcert,hpub,hideal pubKey sig sigLen hverify⟩

/-! ## A peer with a certificate of its own -/

inductive Party
  | project
  | stranger
  deriving DecidableEq, Repr

/-- A certificate somebody signed for themselves, in PEM. -/
def strangerPem : Bytes :=
  List.flatMap (bytesOf 50) [
    0x2d2d2d2d2d424547494e2043455254494649434154452d2d2d2d2d0a4d494943416a43434157756741774942416749555554,
    0x4472673434464d4d4d5a5041756e7a63737044596e72387a73774451594a4b6f5a496876634e4151454c0a42514177457a45,
    0x524d4138474131554541777749633352795957356e5a5849774868634e4d6a59784d5445344d4463314f5455335768634e4d,
    0x7a59784d5445310a4d4463314f545533576a41544d52457744775944565151444441687a64484a68626d646c636a43426e7a,
    0x414e42676b71686b6947397730424151454641414f420a6a51417767596b43675945416f712f73617534377930336d2f5637,
    0x64434d525246626b3465593973374854547534314d54654733536339465633375a2b64466f0a5a7549444f4772646a73792b,
    0x6d3874353165446b456539686c36555553784b68634271764b7a52417073786b46566234724d30454d6c3361504270346c41,
    0x56570a2b54704350786a74446a3446795a612f38632b4d3832792f51396444463368737a7777374830516957684570346232,
    0x796f35714e2f394d434177454141614e540a4d464577485159445652304f42425945464c725a5270456d5375365432584e49,
    0x65487661704d644b482b64424d42384741315564497751594d426141464c725a0a5270456d5375365432584e496548766170,
    0x4d644b482b64424d41384741315564457745422f7751464d414d42416638774451594a4b6f5a496876634e4151454c0a4251,
    0x41446759454151394145485a6e566a494e6749356e41646253755348756c6f30703338566a4e67346c382b32356f64534b68,
    0x326c43436c4662686f3877700a71737079556a6f34317647354a6c766241566d5a3034306b4549416871684f38347865516e,
    0x6c5139436376445634794339546c7545684d45665a454e63757a770a48514a585139376b7a4f39752f38522b49616e2b4774,
    0x477a51397548756c386167556d326b505a6b436550584a4a4b537078413d0a2d2d2d2d2d454e442043455254494649434154] ++
  bytesOf 7 0x452d2d2d2d2d0a

def strangerNonce : Bytes := [11,22,33,44,55,66,77,88]

def strangerSig : Bytes :=
  List.flatMap (bytesOf 50) [
    0x83ce81981b074a7c2e246603619dc8baa404ddf34eb9fdca40bf2c92f7c5fa1a39e78acaa87c573b256a0b69d89820d87a74,
    0xef87964df89db124465e00c549d326b6b5fcc951f6fb79107a3a1dbb864f18a38af08b5e5e653ba439750a1fc8ba5a770764] ++
  bytesOf 28 0x2d5182806b52aa3148bf8b3a83a024965a3720ece7b128d8897a9ee7

/-- A nonce that was printed over the certificate and stopped at its second byte. -/
def tornNonce : Bytes := [1,0,45,45,45,66,69,71]

def tornSig : Bytes :=
  List.flatMap (bytesOf 50) [
    0x97ca4448196fcf1160d150c6a7d904a220c2d27182e094c8b4520d03baf6531e161ec1b1d4634aff8438d8e4f3db54ef6589,
    0xca781a6c847c6b9aaac897adf212a91fa523c0351562511f4360e740ec02d2f94e4a30af72302fe9852c0a3aa10e992f1ba7] ++
  bytesOf 28 0x1cb37d65c84b51ae8a547d8be2fce943c57285b9b1838f40eef1aac7

def strangerSign (msg : Bytes) : Bytes :=
  if msg = strangerNonce then strangerSig else if msg = tornNonce then tornSig else 0 :: msg

def strangerEncKey : Bytes :=
  List.flatMap (bytesOf 50) [
    0x3e584833860f1c111a34f4e9a604e08919d0489b7f99c4facc98aa8293586798fcf164031b92a6382bb073ba3181917af7f2,
    0xf591a8e15785fab9c115bf819d773c08574271adfd3728fc1f826241e46afbcc48c8fd930bd5e12a150c8d0db20fa61a0267] ++
  bytesOf 28 0xdea4414cdb24950e79080989d03253c3d80ac48e8c00f5a6b92e6918

def strangerPki : Pki Party Party where
  loadCertBytes data len := if data.take len.toNat = strangerPem then some .stranger else none
  getPubkey := some
  verifyPss pubKey sig sigLen msg :=
    decide (pubKey = .stranger ∧ sig.take sigLen.toNat = strangerSign msg)
  encryptBlock pubKey plain :=
    if pubKey = .stranger ∧ plain = (List.range 32).map (fun i => UInt8.ofNat (i + 1)) then some strangerEncKey
    else none
  verifyChain ca cert := decide (ca = .project ∧ cert = .project)

def strangerEnv : JoinEnv where
  stale := startMessage
  nonce := strangerNonce
  nonce_length := rfl
  behind := [0]
  sesskey := some ((List.range 32).map fun i => UInt8.ofNat (i + 1))
  udpPrepared := true
  udpConnected := true

def padded (text : Bytes) : Bytes := (text ++ List.replicate msgContentLength 0).take msgContentLength

theorem length_padded (text : Bytes) : (padded text).length = msgContentLength := by
  rw [padded,List.length_take,List.length_append,List.length_replicate]
  exact Nat.min_eq_left (Nat.le_add_left _ _)

def strangerStream : Bytes :=
  htonl 1 ++ Frame.encode ⟨0,757,MessageType.cert.code,padded strangerPem,length_padded _⟩ ++
    Frame.encode ⟨0,128,MessageType.auth.code,padded strangerSig,length_padded _⟩

theorem stranger_joined : (brclientJoin strangerPki strangerEnv 1 strangerStream).map (·.2) = some .joined := by
  decide +kernel

theorem strangerPki_ideal (nonce : Bytes) :
    ∀ pubKey sig sigLen, strangerPki.verifyPss pubKey sig sigLen nonce = true → pubKey = .stranger := by
  intro pubKey sig sigLen h
  exact (of_decide_eq_true h).1

theorem stranger_holds_presented :
    ∃ sent, brclientJoin strangerPki strangerEnv 1 strangerStream = some (sent,.joined) ∧
      ∃ cert pubKey, presentedCert strangerPki strangerEnv 1 strangerStream = some cert ∧
        strangerPki.getPubkey cert = some pubKey ∧ pubKey = .stranger := by
  obtain ⟨⟨sent,e⟩,hjoin,rfl⟩ := Option.map_eq_some_iff.mp stranger_joined
  exact ⟨sent,hjoin,joined_holds_presented strangerPki (strangerPki_ideal _) hjoin (by rfl)⟩

/-- The client joins a peer who holds the key of no certificate of the project. -/
theorem stranger_not_certified :
    (∀ pubKey sig sigLen, strangerPki.verifyPss pubKey sig sigLen strangerEnv.nonce = true → pubKey = .stranger) ∧
    (∃ sent e, brclientJoin strangerPki strangerEnv 1 strangerStream = some (sent,e) ∧ e.returned = 0) ∧
    ¬∃ cert pubKey, verifyServerCert strangerPki cert (some .project) = true ∧
      strangerPki.getPubkey cert = some pubKey ∧ pubKey = .stranger := by
  refine ⟨strangerPki_ideal _,?_,?_⟩
  · obtain ⟨⟨sent,e⟩,hjoin,rfl⟩ := Option.map_eq_some_iff.mp stranger_joined
    exact ⟨sent,_,hjoin,rfl⟩
  · rintro ⟨cert,pubKey,hchain,hpub,rfl⟩
    obtain ⟨-,rfl⟩ := of_decide_eq_true hchain
    cases hpub

/-! ## A server that goes away -/

def hangingStream : Bytes := htonl 1 ++ startMessage.encode

theorem hangingStream_not_ends (staleType : UInt32) : ¬Ends staleType hangingStream := by
  have hdrop : hangingStream.drop 4 = startMessage.encode := List.drop_left' (length_htonl 1)
  have hfirst : typeAt startMessage.encode 0 = some MessageType.start.code := by decide +kernel
  have hsecond : typeAt startMessage.encode 1 = none := by decide +kernel
  rintro (hshort | ⟨hnone,-⟩ | ⟨k,hk,-,-⟩)
  · revert hshort
    decide +kernel
  · rw [hdrop,hfirst] at hnone
    cases hnone
  · rw [hdrop] at hk
    cases k with
    | zero =>
      rw [hfirst] at hk
      exact absurd hk (by decide)
    | succ k =>
      rw [typeAt_none hsecond (Nat.le_add_left 1 k)] at hk
      cases hk

/-- However often it calls, the client waits for a certificate that never comes. -/
theorem join_hangs : ¬∃ calls r, brclientJoin strangerPki strangerEnv calls hangingStream = some r := by
  rintro ⟨calls,r,h⟩
  exact hangingStream_not_ends _ (ends_of_returns strangerPki h)

end CoreStack.BattleRoyale
