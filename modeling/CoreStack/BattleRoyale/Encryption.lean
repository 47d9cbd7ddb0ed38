import CoreStack.BattleRoyale.Server
import CoreStack.BattleRoyale.Framing

/-! # Encrypted messages between client and server (`crypto.c`, `client.c`, `server.c`)

Both ends encrypt with `encrypt_message` and open what they read in place. The
messages that pass go through a queue to the application.
-/
namespace CoreStack.BattleRoyale
open Utils

def maxAppPayloadLen : ℕ := 1984

/-- The primitives with the encrypting side. PKCS7 fills up to the next whole block and
SHA-256 has 32 bytes. -/
structure Cipher extends OpenSSL where
  /-- AES-128-CBC of key, initial vector and plaintext. -/
  encryptCbc : Bytes → Bytes → Bytes → Option Bytes
  encryptCbc_length : ∀ key iv plain ct, encryptCbc key iv plain = some ct →
    ct.length = (plain.length / aesBlock + 1) * aesBlock
  hmac_length : ∀ key data tag, hmac key data = some tag → tag.length = hmacLen

/-- The primitives never fail and decryption undoes encryption. -/
structure Cipher.Ideal (cipher : Cipher) : Prop where
  encrypts : ∀ key iv plain, ∃ ct, cipher.encryptCbc key iv plain = some ct ∧
    cipher.decryptCbc key iv ct = some plain
  tags : ∀ key data, ∃ tag, cipher.hmac key data = some tag

abbrev Iv := { iv : Bytes // iv.length = aesIvLen }

variable (cipher : Cipher)

def sessionEncrypt (rand : Option Iv) (key plain : Bytes) : Option Bytes :=
  let hmacKey := key.take hmacKeyLen
  let aesKey := key.drop hmacKeyLen
  match rand with
  | none => none
  | some iv =>
    match cipher.encryptCbc aesKey iv.1 plain with
    | none => none
    | some ct =>
      match cipher.hmac hmacKey (iv.1 ++ ct) with
      | none => none
      | some tag => some (iv.1 ++ ct ++ tag)

variable {cipher}

theorem sessionEncrypt_eq_some {rand : Option Iv} {key plain token : Bytes} :
    sessionEncrypt cipher rand key plain = some token ↔
    ∃ iv ct tag, rand = some iv ∧ cipher.encryptCbc (key.drop hmacKeyLen) iv.1 plain = some ct ∧
      cipher.hmac (key.take hmacKeyLen) (iv.1 ++ ct) = some tag ∧ token = iv.1 ++ ct ++ tag := by
  constructor
  · intro h
    unfold sessionEncrypt at h
    dsimp only at h
    split at h
    · cases h
    · next iv =>
      split at h
      · cases h
      · next ct hct =>
        split at h
        · cases h
        · next tag htag =>
          cases h
          exact ⟨iv,ct,tag,rfl,hct,htag,rfl⟩
  · rintro ⟨iv,ct,tag,rfl,hct,htag,rfl⟩
    simp only [sessionEncrypt,hct,htag]

theorem sessionEncrypt_length {rand : Option Iv} {key plain token : Bytes}
    (h : sessionEncrypt cipher rand key plain = some token) (hplain : plain.length ≤ maxAppPayloadLen) :
    token.length ≤ msgContentLength := by
  obtain ⟨iv,ct,tag,rfl,hct,htag,rfl⟩ := sessionEncrypt_eq_some.mp h
  have hiv := iv.2
  have hlen := cipher.encryptCbc_length _ _ _ _ hct
  have hmac := cipher.hmac_length _ _ _ htag
  simp only [List.length_append,hiv,hlen,hmac,aesIvLen,aesBlock,hmacLen,maxAppPayloadLen,msgContentLength] at hplain ⊢
  omega

variable (cipher)

/-- `none` leaves the message as it was. -/
def encryptMessage (rand : Option Iv) (msg : Message) (sesskey content : Bytes) : Option Message :=
  if hlen : maxAppPayloadLen < content.length then none
  else
    match h : sessionEncrypt cipher rand sesskey content with
    | none => none
    | some token => some { msg with
        msgLen := token.length
        msgContent := copyInto msg.msgContent token
        sized := by
          have hfits := sessionEncrypt_length h (Nat.le_of_not_lt hlen)
          rw [length_copyInto (by rw [msg.sized]; exact hfits),msg.sized] }

def Message.blank (sourceId : ℕ) (msgType : MessageType) : Message where
  sourceId := sourceId
  msgLen := 0
  msgType := msgType
  msgContent := List.replicate msgContentLength 0
  sized := length_zeros

/-- The result of the encryption is not looked at: a failure sends the blank message. -/
def brclientSendMsg (rand : Option Iv) (client : Endpoint) (content : Bytes) : Message :=
  let msg := Message.blank client.id .appEnc
  (encryptMessage cipher rand msg client.sesskey content).getD msg

def brserverSendToTarget (rand : Option Iv) (clients : List Endpoint) (selfId targetId : ℕ) (content : Bytes) :
    Option Message :=
  (getFromList clients targetId).map fun target =>
    let msg := Message.blank selfId .appEnc
    (encryptMessage cipher rand msg target.sesskey content).getD msg

/-- `client_game_state` opens everything with the client's own key. -/
def clientAccept (ssl : OpenSSL) (sesskey : Bytes) (msg : Message) : Option Message :=
  match msg.msgType with
  | .app => some msg
  | .appEnc =>
    match h : decryptMessage ssl msg sesskey with
    | none => none
    | some plain => some (msg.decrypted plain (decryptMessage_length h))
  | _ => none

variable {cipher}

theorem encryptMessage_eq_some {rand : Option Iv} {msg out : Message} {sesskey content : Bytes} :
    encryptMessage cipher rand msg sesskey content = some out ↔
    content.length ≤ maxAppPayloadLen ∧ ∃ token, sessionEncrypt cipher rand sesskey content = some token ∧
      out.sourceId = msg.sourceId ∧ out.msgLen = token.length ∧ out.msgType = msg.msgType ∧
      out.msgContent = copyInto msg.msgContent token := by
  constructor
  · intro h
    unfold encryptMessage at h
    split at h
    · cases h
    · next hlen =>
      split at h
      · cases h
      · next token htoken =>
        cases h
        exact ⟨Nat.le_of_not_lt hlen,token,htoken,rfl,rfl,rfl,rfl⟩
  · rintro ⟨hlen,token,htoken,hsource,hmsgLen,htype,hcontent⟩
    unfold encryptMessage
    rw [dif_neg (Nat.not_lt.mpr hlen)]
    split
    · next h =>
      rw [h] at htoken
      cases htoken
    · next token' h =>
      rw [h] at htoken
      cases htoken
      cases out
      simp_all

/-! ## Opening what was encrypted -/

theorem sessionDecrypt_sessionEncrypt (hideal : cipher.Ideal) {rand : Option Iv} {key plain token : Bytes}
    (h : sessionEncrypt cipher rand key plain = some token) : sessionDecrypt cipher.toOpenSSL key token = some plain := by
  obtain ⟨iv,ct,tag,rfl,hct,htag,rfl⟩ := sessionEncrypt_eq_some.mp h
  have hiv : iv.1.length = aesIvLen := iv.2
  have hlen := cipher.encryptCbc_length _ _ _ _ hct
  have hmac := cipher.hmac_length _ _ _ htag
  have hplain : cipher.decryptCbc (key.drop hmacKeyLen) iv.1 ct = some plain := by
    obtain ⟨ct',hct',hdec⟩ := hideal.encrypts (key.drop hmacKeyLen) iv.1 plain
    rw [hct] at hct'
    cases hct'
    exact hdec
  have hlong : ¬(iv.1 ++ ct ++ tag).length < aesIvLen + aesBlock + hmacLen := by
    rw [List.length_append,List.length_append,hiv,hmac,hlen]
    have hblock : aesBlock ≤ (plain.length / aesBlock + 1) * aesBlock := Nat.le_mul_of_pos_left _ (Nat.succ_pos _)
    omega
  have hctLen : (iv.1 ++ ct ++ tag).length - aesIvLen - hmacLen = ct.length := by
    rw [List.length_append,List.length_append,hiv,hmac]
    omega
  have hsum : (iv.1 ++ ct).length = aesIvLen + ct.length := by rw [List.length_append,hiv]
  have hhead : (iv.1 ++ ct ++ tag).take (aesIvLen + ct.length) = iv.1 ++ ct := List.take_left' hsum
  have htail : (iv.1 ++ ct ++ tag).drop (aesIvLen + ct.length) = tag := List.drop_left' hsum
  have hfirst : (iv.1 ++ ct ++ tag).take aesIvLen = iv.1 := by
    rw [List.append_assoc,List.take_left' hiv]
  have hmiddle : ((iv.1 ++ ct ++ tag).drop aesIvLen).take ct.length = ct := by
    rw [List.append_assoc,List.drop_left' hiv,List.take_left]
  unfold sessionDecrypt
  dsimp only
  rw [if_neg hlong,hctLen,hhead,htag]
  dsimp only
  rw [htail,if_neg (not_not.mpr rfl),hfirst,hmiddle,hplain]

theorem decryptMessage_encryptMessage (hideal : cipher.Ideal) {rand : Option Iv} {msg out : Message}
    {sesskey content : Bytes} (h : encryptMessage cipher rand msg sesskey content = some out) :
    decryptMessage cipher.toOpenSSL out sesskey = some content := by
  obtain ⟨hlen,token,htoken,-,hmsgLen,-,hcontent⟩ := encryptMessage_eq_some.mp h
  have hfits := sessionEncrypt_length htoken hlen
  unfold decryptMessage
  rw [if_neg (by rw [hmsgLen]; exact Nat.not_lt.mpr hfits),hmsgLen,hcontent,copyInto,List.take_left]
  exact sessionDecrypt_sessionEncrypt hideal htoken

end CoreStack.BattleRoyale
