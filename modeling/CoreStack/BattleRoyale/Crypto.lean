import CoreStack.BattleRoyale.Message

/-! # Session encryption (`crypto.c`)

The primitives of OpenSSL are a parameter. What the code relies on is that CBC
decryption never yields more bytes than it was given.
-/
namespace CoreStack.BattleRoyale

def aesIvLen : ℕ := 16
def aesBlock : ℕ := 16
def hmacKeyLen : ℕ := 16
def hmacLen : ℕ := 32

structure OpenSSL where
  /-- HMAC-SHA256 of the data under the key. -/
  hmac : Bytes → Bytes → Option Bytes
  /-- AES-128-CBC of key, initial vector and ciphertext, with the padding taken off. -/
  decryptCbc : Bytes → Bytes → Bytes → Option Bytes
  decryptCbc_length : ∀ key iv ct plain, decryptCbc key iv ct = some plain → plain.length ≤ ct.length

variable (ssl : OpenSSL)

/-- The tag over initial vector and ciphertext is verified before anything is decrypted. -/
def sessionDecrypt (key token : Bytes) : Option Bytes :=
  let hmacKey := key.take hmacKeyLen
  let aesKey := key.drop hmacKeyLen
  if token.length < aesIvLen + aesBlock + hmacLen then none
  else
    let ctLen := token.length - aesIvLen - hmacLen
    let iv := token.take aesIvLen
    let ct := (token.drop aesIvLen).take ctLen
    let hmacReceived := token.drop (aesIvLen + ctLen)
    match ssl.hmac hmacKey (token.take (aesIvLen + ctLen)) with
    | none => none
    | some hmacComputed => if hmacComputed ≠ hmacReceived then none else ssl.decryptCbc aesKey iv ct

def decryptMessage (msg : Message) (sesskey : Bytes) : Option Bytes :=
  if msgContentLength < msg.msgLen then none
  else sessionDecrypt ssl sesskey (msg.msgContent.take msg.msgLen)

variable {ssl}

theorem sessionDecrypt_length {key token plain : Bytes} (h : sessionDecrypt ssl key token = some plain) :
    plain.length ≤ token.length := by
  unfold sessionDecrypt at h
  dsimp only at h
  split at h
  · cases h
  · split at h
    · cases h
    · split at h
      · cases h
      · have hlen := ssl.decryptCbc_length _ _ _ _ h
        simp only [List.length_take,List.length_drop] at hlen
        omega

theorem decryptMessage_length {msg : Message} {sesskey plain : Bytes}
    (h : decryptMessage ssl msg sesskey = some plain) : plain.length ≤ msg.msgContent.length := by
  unfold decryptMessage at h
  split at h
  · cases h
  · have hlen := sessionDecrypt_length h
    rw [List.length_take] at hlen
    exact Nat.le_trans hlen (Nat.min_le_right _ _)

end CoreStack.BattleRoyale
