import CoreStack.BattleRoyale.Authenticity
import CoreStack.BattleRoyale.Nonce

/-! # Lengths from the wire

`msg_len` is a word of the peer. The handshakes and `decrypt_message` use `msg_content`
with `msg_len` as its length.
-/
namespace CoreStack.BattleRoyale
section Places
variable {Cert PubKey : Type} (pki : Pki Cert PubKey) (signer : Signer) (ssl : OpenSSL)

/-- `decrypt_message` on a message as it was received. -/
def decryptMessageUses (frame : Frame) (sesskey : Bytes) : List Use × Option Bytes :=
  match frame.message with
  | none => ([],none)
  | some msg =>
    if msgContentLength < msg.msgLen then ([],none)
    else ([(.sessionDecrypt,frame)],sessionDecrypt ssl sesskey (msg.msgContent.take msg.msgLen))

theorem decryptMessageUses_result (frame : Frame) (sesskey : Bytes) :
    (decryptMessageUses ssl frame sesskey).2 = frame.message.bind fun msg => decryptMessage ssl msg sesskey := by
  rw [decryptMessageUses]
  cases frame.message with
  | none => rfl
  | some msg =>
    dsimp only [Option.bind_some]
    rw [decryptMessage]
    split
    · rfl
    · rfl

/-! ## What is used where -/

theorem awaitMessage_type {awaited : MessageType} {calls : ℕ} {stream rest : Bytes} {msg out : Frame}
    (h : awaitMessage awaited calls stream msg = some (out,rest)) : out.msgType = awaited.code := by
  induction calls generalizing stream msg with
  | zero => cases h
  | succ calls ih =>
    rw [awaitMessage] at h
    split at h
    · next htype =>
      cases h
      exact htype
    · exact ih h

theorem lobbyAwait_type {awaited : MessageType} {calls : ℕ} {stream rest : Bytes} {msg out : Frame}
    (h : lobbyAwait awaited calls stream msg = some (out,rest)) : out.msgType = awaited.code := by
  induction calls generalizing stream msg with
  | zero => cases h
  | succ calls ih =>
    rw [lobbyAwait] at h
    split at h
    · cases h
    · split at h
      · next htype =>
        cases h
        exact htype
      · exact ih h

theorem brclientJoinUses_type {env : JoinEnv} {calls : ℕ} {stream : Bytes} {use : Use}
    (h : use ∈ (brclientJoinUses pki env calls stream).1) :
    use.2.msgType = MessageType.cert.code ∨ use.2.msgType = MessageType.auth.code := by
  rw [brclientJoinUses] at h
  cases hread : readBytes 4 stream with
  | none =>
    rw [hread] at h
    cases h
  | some p =>
    obtain ⟨source,s⟩ := p
    rw [hread] at h
    dsimp only at h
    cases hcert : awaitMessage .cert calls s env.stale with
    | none =>
      rw [hcert] at h
      cases h
    | some q =>
      obtain ⟨certMsg,s⟩ := q
      have htype := awaitMessage_type hcert
      rw [hcert] at h
      dsimp only at h
      cases hauth : awaitMessage .auth calls s (nonceMessage env (ntohl source) certMsg) with
      | none =>
        rw [hauth] at h
        cases List.mem_singleton.mp h
        exact Or.inl htype
      | some r =>
        obtain ⟨msg,s⟩ := r
        rw [hauth] at h
        rcases List.mem_cons.mp h with rfl | h
        · exact Or.inl htype
        · cases List.mem_singleton.mp h
          exact Or.inr (awaitMessage_type hauth)

theorem lobbyHandshakeUses_type {host : Host} {stream : Bytes} {use : Use}
    (h : use ∈ (lobbyHandshakeUses signer host stream).1) : use.2.msgType = MessageType.key.code := by
  rw [lobbyHandshakeUses] at h
  dsimp only at h
  cases hauth : lobbyAwait .auth (stream.length + 1) stream host.certMessage with
  | none =>
    rw [hauth] at h
    cases h
  | some p =>
    obtain ⟨msg,s⟩ := p
    rw [hauth] at h
    dsimp only at h
    cases hkey : lobbyAwait .key (s.length + 1) s (authReply signer host.selfId msg) with
    | none =>
      rw [hkey] at h
      cases h
    | some q =>
      obtain ⟨msg,s⟩ := q
      rw [hkey] at h
      cases List.mem_singleton.mp h
      exact lobbyAwait_type hkey

theorem decryptMessageUses_length {frame : Frame} {sesskey : Bytes} {use : Use}
    (h : use ∈ (decryptMessageUses ssl frame sesskey).1) : use.2.msgLen.toNat ≤ msgContentLength := by
  rw [decryptMessageUses] at h
  cases hmsg : frame.message with
  | none =>
    rw [hmsg] at h
    cases h
  | some msg =>
    rw [hmsg] at h
    dsimp only at h
    split at h
    · cases h
    · next hlen =>
      cases List.mem_singleton.mp h
      obtain ⟨type,-,rfl⟩ := Option.map_eq_some_iff.mp hmsg
      exact Nat.le_of_not_lt hlen

structure WithinContent (msg : Frame) : Prop where
  join : ∀ env calls stream place, (place,msg) ∈ (brclientJoinUses pki env calls stream).1 →
    msg.msgLen.toNat ≤ msgContentLength
  lobby : ∀ host stream place, (place,msg) ∈ (lobbyHandshakeUses signer host stream).1 →
    msg.msgLen.toNat ≤ msgContentLength
  decrypt : ∀ sesskey place, (place,msg) ∈ (decryptMessageUses ssl msg sesskey).1 →
    msg.msgLen.toNat ≤ msgContentLength

/-! ## A peer sends the message where it is used -/

def emptyMessage (type : MessageType) : Frame := ⟨0,0,type.code,List.replicate msgContentLength 0,length_zeros⟩

def plainEnv : JoinEnv := ⟨emptyMessage .start,[1,2,3,4,5,6,7,8],rfl,[0],none,true,true⟩

theorem awaitMessage_first {awaited : MessageType} {msg : Frame} (htype : msg.msgType = awaited.code) (calls : ℕ)
    (stale : Frame) (rest : Bytes) : awaitMessage awaited (calls + 1) (msg.encode ++ rest) stale = some (msg,rest) := by
  rw [awaitMessage,receive_encode]
  exact if_pos htype

theorem cert_used {msg : Frame} (htype : msg.msgType = MessageType.cert.code) :
    (.loadCertBytes,msg) ∈ (brclientJoinUses pki plainEnv 1 (htonl 0 ++ (msg.encode ++ []))).1 := by
  rw [brclientJoinUses,readBytes_append (length_htonl 0)]
  dsimp only
  rw [awaitMessage_first htype]
  dsimp only
  split
  · exact List.mem_cons_self
  · exact List.mem_cons_self

theorem auth_used {msg : Frame} (htype : msg.msgType = MessageType.auth.code) :
    (.verifyMessagePss,msg) ∈
      (brclientJoinUses pki plainEnv 1 (htonl 0 ++ ((emptyMessage .cert).encode ++ (msg.encode ++ [])))).1 := by
  rw [brclientJoinUses,readBytes_append (length_htonl 0)]
  dsimp only
  rw [awaitMessage_first rfl]
  dsimp only
  rw [awaitMessage_first htype]
  exact List.mem_cons_of_mem _ List.mem_cons_self

theorem key_used (host : Host) {msg : Frame} (htype : msg.msgType = MessageType.key.code) :
    (.rsaDecryptBlock,msg) ∈
      (lobbyHandshakeUses signer host ((emptyMessage .auth).encode ++ (msg.encode ++ []))).1 := by
  rw [lobbyHandshakeUses]
  dsimp only
  rw [lobbyAwait_encode rfl]
  dsimp only
  rw [lobbyAwait_encode htype]
  exact List.mem_cons_self

/-- A message is never used beyond its content exactly if its length is not beyond it, or
its type is none of the handshakes'. -/
theorem within_content_iff (msg : Frame) : WithinContent pki signer ssl msg ↔
    msg.msgLen.toNat ≤ msgContentLength ∨ (msg.msgType ≠ MessageType.cert.code ∧
      msg.msgType ≠ MessageType.auth.code ∧ msg.msgType ≠ MessageType.key.code) := by
  constructor
  · intro h
    by_cases hlen : msg.msgLen.toNat ≤ msgContentLength
    · exact Or.inl hlen
    · refine Or.inr ⟨fun htype => ?_,fun htype => ?_,fun htype => ?_⟩
      · exact hlen (h.join _ _ _ _ (cert_used pki htype))
      · exact hlen (h.join _ _ _ _ (auth_used pki htype))
      · exact hlen (h.lobby _ _ _ (key_used signer ⟨0,1,[],Nat.zero_le _,_,length_zeros⟩ htype))
  · rintro (hlen | ⟨hcert,hauth,hkey⟩)
    · exact ⟨fun _ _ _ _ _ => hlen,fun _ _ _ _ => hlen,fun _ _ _ => hlen⟩
    · refine ⟨fun env calls stream place h => ?_,fun host stream place h => ?_,fun sesskey place h => ?_⟩
      · rcases brclientJoinUses_type pki h with htype | htype
        · exact absurd htype hcert
        · exact absurd htype hauth
      · exact absurd (lobbyHandshakeUses_type signer h) hkey
      · exact decryptMessageUses_length ssl h

end Places

def longCert : Frame := ⟨0,2049,MessageType.cert.code,List.replicate msgContentLength 0,length_zeros⟩

theorem longCert_beyond :
    (Place.loadCertBytes,longCert) ∈
      (brclientJoinUses strangerPki strangerEnv 1 (htonl 0 ++ (longCert.encode ++ []))).1 ∧
    msgContentLength < longCert.msgLen.toNat ∧
    ¬WithinContent strangerPki strangerSigner lettersVector.cipher.toOpenSSL longCert := by
  have hused : (Place.loadCertBytes,longCert) ∈
      (brclientJoinUses strangerPki strangerEnv 1 (htonl 0 ++ (longCert.encode ++ []))).1 := by
    rw [brclientJoinUses,readBytes_append (length_htonl 0)]
    dsimp only
    rw [awaitMessage_first rfl]
    dsimp only
    split
    · exact List.mem_cons_self
    · exact List.mem_cons_self
  have hlong : msgContentLength < longCert.msgLen.toNat := by decide
  exact ⟨hused,hlong,fun h => absurd (h.join _ _ _ _ hused) (Nat.not_le.mpr hlong)⟩

end CoreStack.BattleRoyale
