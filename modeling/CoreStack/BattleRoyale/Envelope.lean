import CoreStack.BattleRoyale.Authenticity
import Mathlib.Data.Int.Notation

/-! # Encrypting a message and decrypting it again (`crypto.c`)

`decrypt_message` with its result, the output buffer and the length it stores.
-/
namespace CoreStack.BattleRoyale
variable {cipher : Cipher}

/-- What the caller holds of `out` and `out_len` is kept if the message is refused. -/
def decryptInto (ssl : OpenSSL) (msg : Message) (sesskey out : Bytes) (outLen : ℕ) : ℤ × Bytes × ℕ :=
  match decryptMessage ssl msg sesskey with
  | none => (-1,out,outLen)
  | some decrypted => (0,copyInto (List.replicate msgContentLength 0) decrypted,decrypted.length)

theorem sessionDecrypt_checked {ssl : OpenSSL} {key token plain : Bytes}
    (h : sessionDecrypt ssl key token = some plain) :
    aesIvLen + aesBlock + hmacLen ≤ token.length ∧
    ssl.hmac (key.take hmacKeyLen) (token.take (token.length - hmacLen)) = some (token.drop (token.length - hmacLen)) := by
  unfold sessionDecrypt at h
  dsimp only at h
  split at h
  · cases h
  · next hlong =>
    have hle := Nat.le_of_not_lt hlong
    have hsplit : aesIvLen + (token.length - aesIvLen - hmacLen) = token.length - hmacLen := by omega
    rw [hsplit] at h
    split at h
    · cases h
    · next computed hcomputed =>
      split at h
      · cases h
      · next heq => exact ⟨hle,hcomputed.trans (congrArg some (not_not.mp heq))⟩

theorem decryptInto_some {ssl : OpenSSL} {msg : Message} {sesskey plain : Bytes}
    (h : decryptMessage ssl msg sesskey = some plain) (out : Bytes) (outLen : ℕ) :
    decryptInto ssl msg sesskey out outLen =
      (0,plain ++ List.replicate (msgContentLength - plain.length) 0,plain.length) := by
  rw [decryptInto,h]
  dsimp only
  rw [copyInto,List.drop_replicate]

/-- Encryption writes the token into the content and its length, nothing else. -/
theorem encryptMessage_writes {rand : Option Iv} {msg out : Message} {sesskey content : Bytes}
    (h : encryptMessage cipher rand msg sesskey content = some out) :
    out.msgLen ≤ msgContentLength ∧ out.sourceId = msg.sourceId ∧ out.msgType = msg.msgType ∧
    out.msgContent.drop out.msgLen = msg.msgContent.drop out.msgLen := by
  obtain ⟨hlen,token,htoken,hsource,hmsgLen,htype,hcontent⟩ := encryptMessage_eq_some.mp h
  rw [hmsgLen]
  refine ⟨sessionEncrypt_length htoken hlen,hsource,htype,?_⟩
  rw [hcontent,copyInto,List.drop_left]

theorem exists_encryptMessage (hideal : cipher.Ideal) (iv : Iv) (msg : Message) (sesskey : Bytes) {content : Bytes}
    (hlen : content.length ≤ maxAppPayloadLen) : ∃ out, encryptMessage cipher (some iv) msg sesskey content = some out := by
  obtain ⟨ct,hct,-⟩ := hideal.encrypts (sesskey.drop hmacKeyLen) iv.1 content
  obtain ⟨tag,htag⟩ := hideal.tags (sesskey.take hmacKeyLen) (iv.1 ++ ct)
  have htoken : sessionEncrypt cipher (some iv) sesskey content = some (iv.1 ++ ct ++ tag) :=
    sessionEncrypt_eq_some.mpr ⟨iv,ct,tag,rfl,hct,htag,rfl⟩
  have hfits := sessionEncrypt_length htoken hlen
  refine ⟨⟨msg.sourceId,(iv.1 ++ ct ++ tag).length,msg.msgType,copyInto msg.msgContent (iv.1 ++ ct ++ tag),?_⟩,
    encryptMessage_eq_some.mpr ⟨hlen,_,htoken,rfl,rfl,rfl,rfl⟩⟩
  rw [length_copyInto (by rw [msg.sized]; exact hfits),msg.sized]

/-- What is encrypted is decrypted to the content and zeros, and what is decrypted has the right
tag and a length of a token. -/
theorem encrypt_then_decrypt (hideal : cipher.Ideal) :
    (∀ (iv : Iv) (msg : Message) (sesskey content : Bytes), content.length ≤ maxAppPayloadLen →
      ∃ sent, encryptMessage cipher (some iv) msg sesskey content = some sent ∧
        (sent.msgLen ≤ msgContentLength ∧ sent.sourceId = msg.sourceId ∧ sent.msgType = msg.msgType ∧
          sent.msgContent.drop sent.msgLen = msg.msgContent.drop sent.msgLen) ∧
        ∀ out outLen, decryptInto cipher.toOpenSSL sent sesskey out outLen =
          (0,content ++ List.replicate (msgContentLength - content.length) 0,content.length)) ∧
    ∀ (msg : Message) (sesskey out : Bytes) (outLen : ℕ),
      (decryptInto cipher.toOpenSSL msg sesskey out outLen).1 = 0 →
      64 ≤ msg.msgLen ∧ msg.msgLen ≤ msgContentLength ∧
      cipher.hmac (sesskey.take hmacKeyLen) ((msg.msgContent.take msg.msgLen).take (msg.msgLen - hmacLen)) =
        some ((msg.msgContent.take msg.msgLen).drop (msg.msgLen - hmacLen)) := by
  constructor
  · intro iv msg sesskey content hlen
    obtain ⟨sent,hsent⟩ := exists_encryptMessage hideal iv msg sesskey hlen
    exact ⟨sent,hsent,encryptMessage_writes hsent,decryptInto_some (decryptMessage_encryptMessage hideal hsent)⟩
  · intro msg sesskey out outLen h
    cases hplain : decryptMessage cipher.toOpenSSL msg sesskey with
    | none =>
      rw [decryptInto,hplain] at h
      cases h
    | some plain =>
      obtain ⟨hfits,hdec⟩ := decryptMessage_some hplain
      have hsize : (msg.msgContent.take msg.msgLen).length = msg.msgLen := by
        rw [List.length_take,msg.sized]
        exact Nat.min_eq_left hfits
      have hchecked := sessionDecrypt_checked hdec
      rw [hsize] at hchecked
      exact ⟨hchecked.1,hfits,hchecked.2⟩

theorem letters_then_decrypt :
    lettersVector.cipher.Ideal ∧ lettersVector.plain.length ≤ maxAppPayloadLen ∧
    ∃ sent, encryptMessage lettersVector.cipher (some lettersVector.iv) (Message.blank 1 .appEnc) lettersVector.key
        lettersVector.plain = some sent ∧
      decryptInto lettersVector.cipher.toOpenSSL sent lettersVector.key [] 0 =
        (0,lettersVector.plain ++ List.replicate (msgContentLength - lettersVector.plain.length) 0,
          lettersVector.plain.length) := by
  have hlen : lettersVector.plain.length ≤ maxAppPayloadLen := Nat.le_of_eq List.length_replicate
  obtain ⟨sent,hsent,-,hdec⟩ := (encrypt_then_decrypt lettersVector.ideal).1 lettersVector.iv (Message.blank 1 .appEnc)
    lettersVector.key lettersVector.plain hlen
  exact ⟨lettersVector.ideal,hlen,sent,hsent,hdec [] 0⟩

end CoreStack.BattleRoyale
