import CoreStack.BattleRoyale.Inbox

/-! # The buffer the application gets

A full payload of 1984 bytes is encrypted to a token that fills the whole content.
The receiver decrypts in place, so the end of the token stays behind the payload.
-/
namespace CoreStack.BattleRoyale
open Utils

section Buffers
variable {cipher : Cipher}

/-- The buffer holds the content and nothing but zero bytes after it. -/
def Clean (content buffer : Bytes) : Prop :=
  buffer = content ++ List.replicate (msgContentLength - content.length) 0

instance (content buffer : Bytes) : Decidable (Clean content buffer) := inferInstanceAs (Decidable (_ = _))

/-- The last two blocks of the ciphertext and the tag are zero throughout. -/
def ZeroTail (cipher : Cipher) (sesskey : Bytes) (iv : Iv) (content : Bytes) : Prop :=
  ∃ ct tag, cipher.encryptCbc (sesskey.drop hmacKeyLen) iv.1 content = some ct ∧
    cipher.hmac (sesskey.take hmacKeyLen) (iv.1 ++ ct) = some tag ∧
    (∀ b ∈ ct.drop (content.length - aesIvLen), b = 0) ∧ ∀ b ∈ tag, b = 0

theorem encrypt_payload (hideal : cipher.Ideal) (iv : Iv) {content : Bytes} (hlen : content.length = maxAppPayloadLen)
    (msg : Message) (sesskey : Bytes) :
    ∃ out ct tag, encryptMessage cipher (some iv) msg sesskey content = some out ∧
      cipher.encryptCbc (sesskey.drop hmacKeyLen) iv.1 content = some ct ∧
      cipher.hmac (sesskey.take hmacKeyLen) (iv.1 ++ ct) = some tag ∧
      out.sourceId = msg.sourceId ∧ out.msgLen = msgContentLength ∧ out.msgType = msg.msgType ∧
      out.msgContent = iv.1 ++ ct ++ tag := by
  obtain ⟨ct,hct,-⟩ := hideal.encrypts (sesskey.drop hmacKeyLen) iv.1 content
  obtain ⟨tag,htag⟩ := hideal.tags (sesskey.take hmacKeyLen) (iv.1 ++ ct)
  have htoken : sessionEncrypt cipher (some iv) sesskey content = some (iv.1 ++ ct ++ tag) :=
    sessionEncrypt_eq_some.mpr ⟨iv,ct,tag,rfl,hct,htag,rfl⟩
  have hsize : (iv.1 ++ ct ++ tag).length = msgContentLength := by
    rw [List.length_append,List.length_append,iv.2,cipher.encryptCbc_length _ _ _ _ hct,
      cipher.hmac_length _ _ _ htag,hlen]
    rfl
  have hwhole : copyInto msg.msgContent (iv.1 ++ ct ++ tag) = iv.1 ++ ct ++ tag := by
    rw [copyInto,hsize,← msg.sized,List.drop_length,List.append_nil]
  let out : Message := ⟨msg.sourceId,msgContentLength,msg.msgType,iv.1 ++ ct ++ tag,hsize⟩
  refine ⟨out,ct,tag,?_,hct,htag,rfl,rfl,rfl,rfl⟩
  exact encryptMessage_eq_some.mpr
    ⟨Nat.le_of_eq hlen,iv.1 ++ ct ++ tag,htoken,rfl,hsize.symm,rfl,hwhole.symm⟩

/-- What stands behind the payload after decryption in place is the end of the token. -/
theorem opened_clean_iff {iv : Iv} {content ct tag sesskey : Bytes} (hlen : content.length = maxAppPayloadLen)
    (hct : cipher.encryptCbc (sesskey.drop hmacKeyLen) iv.1 content = some ct)
    (htag : cipher.hmac (sesskey.take hmacKeyLen) (iv.1 ++ ct) = some tag) :
    Clean content (copyInto (iv.1 ++ ct ++ tag) content) ↔ ZeroTail cipher sesskey iv content := by
  have hctLen : ct.length = 2000 := by
    rw [cipher.encryptCbc_length _ _ _ _ hct,hlen]
    rfl
  have htagLen : tag.length = 32 := cipher.hmac_length _ _ _ htag
  have hdrop : (iv.1 ++ ct ++ tag).drop content.length = ct.drop (content.length - aesIvLen) ++ tag := by
    have hsplit : content.length = iv.1.length + (content.length - aesIvLen) := by
      rw [iv.2,hlen]
      rfl
    have hinside : content.length - aesIvLen ≤ ct.length := by
      rw [hlen,hctLen]
      decide
    nth_rewrite 1 [hsplit]
    rw [List.append_assoc,List.drop_length_add_append,List.drop_append_of_le_length hinside]
  have htail : (ct.drop (content.length - aesIvLen) ++ tag).length = msgContentLength - content.length := by
    rw [List.length_append,List.length_drop,hctLen,htagLen,hlen]
    rfl
  have hclean : Clean content (copyInto (iv.1 ++ ct ++ tag) content) ↔
      ∀ b ∈ ct.drop (content.length - aesIvLen) ++ tag, b = 0 := by
    unfold Clean copyInto
    rw [hdrop,List.append_cancel_left_eq,List.eq_replicate_iff]
    exact and_iff_right htail
  rw [hclean]
  constructor
  · intro h
    exact ⟨ct,tag,hct,htag,fun b hb => h b (List.mem_append_left _ hb),fun b hb => h b (List.mem_append_right _ hb)⟩
  · rintro ⟨ct',tag',hct',htag',hzero,hzero'⟩ b hb
    rw [hct] at hct'
    cases hct'
    rw [htag] at htag'
    cases htag'
    rcases List.mem_append.mp hb with hb | hb
    · exact hzero b hb
    · exact hzero' b hb

theorem clientAccept_enc {ssl : OpenSSL} {sesskey plain : Bytes} {raw : Message} (henc : raw.msgType = .appEnc)
    (hplain : decryptMessage ssl raw sesskey = some plain) :
    clientAccept ssl sesskey raw = some (raw.decrypted plain (decryptMessage_length hplain)) := by
  simp only [clientAccept,henc]
  split
  · next h =>
    rw [h] at hplain
    cases hplain
  · next p h =>
    rw [h] at hplain
    cases hplain
    rfl

theorem payload_opened (hideal : cipher.Ideal) {iv : Iv} {content sesskey : Bytes}
    (hlen : content.length = maxAppPayloadLen) {blank sent : Message} (hid : blank.sourceId < 4294967296)
    (hsent : encryptMessage cipher (some iv) blank sesskey content = some sent) {accept : Message → Option Message}
    (haccept : ∀ h, accept sent = some (sent.decrypted content h)) :
    ∃ ct tag msg, cipher.encryptCbc (sesskey.drop hmacKeyLen) iv.1 content = some ct ∧
      cipher.hmac (sesskey.take hmacKeyLen) (iv.1 ++ ct) = some tag ∧
      sent.frame.message.bind accept = some msg ∧ msg.msgContent = copyInto (iv.1 ++ ct ++ tag) content := by
  obtain ⟨out,ct,tag,hout,hct,htag,hsource,hmsgLen,-,hcontent⟩ := encrypt_payload hideal iv hlen blank sesskey
  rw [hsent] at hout
  cases hout
  have hfits : content.length ≤ sent.msgContent.length := by
    rw [sent.sized,hlen]
    decide
  have hmessage : sent.frame.message = some sent :=
    Message.message_frame (by rw [hsource]; exact hid) (by rw [hmsgLen]; decide)
  refine ⟨ct,tag,sent.decrypted content hfits,hct,htag,?_,?_⟩
  · rw [hmessage,Option.bind_some,haccept hfits]
  · rw [← hcontent]
    rfl

theorem acceptMessage_payload (hideal : cipher.Ideal) (iv : Iv) {content : Bytes}
    (hlen : content.length = maxAppPayloadLen) {clients : List Endpoint} {client : Endpoint}
    (hregistered : getFromList clients client.id = some client) (hid : client.id < 4294967296) :
    ∃ ct tag msg, cipher.encryptCbc (client.sesskey.drop hmacKeyLen) iv.1 content = some ct ∧
      cipher.hmac (client.sesskey.take hmacKeyLen) (iv.1 ++ ct) = some tag ∧
      (brclientSendMsg cipher (some iv) client content).frame.message.bind
        (acceptMessage cipher.toOpenSSL clients) = some msg ∧
      msg.msgContent = copyInto (iv.1 ++ ct ++ tag) content := by
  obtain ⟨sent,-,-,hsent,-,-,hsource,-,htype,-⟩ :=
    encrypt_payload hideal iv hlen (Message.blank client.id .appEnc) client.sesskey
  have hmade : brclientSendMsg cipher (some iv) client content = sent := by
    simp only [brclientSendMsg,hsent,Option.getD_some]
  rw [hmade]
  refine payload_opened hideal hlen hid hsent ?_
  intro h
  exact acceptMessage_enc htype (by rw [hsource]; exact hregistered) (decryptMessage_encryptMessage hideal hsent)

theorem clientAccept_payload (hideal : cipher.Ideal) (iv : Iv) {content : Bytes}
    (hlen : content.length = maxAppPayloadLen) {clients : List Endpoint} {client : Endpoint}
    (hregistered : getFromList clients client.id = some client) {selfId : ℕ} (hself : selfId < 4294967296)
    {sent : Message} (hsent : brserverSendToTarget cipher (some iv) clients selfId client.id content = some sent) :
    ∃ ct tag msg, cipher.encryptCbc (client.sesskey.drop hmacKeyLen) iv.1 content = some ct ∧
      cipher.hmac (client.sesskey.take hmacKeyLen) (iv.1 ++ ct) = some tag ∧
      sent.frame.message.bind (clientAccept cipher.toOpenSSL client.sesskey) = some msg ∧
      msg.msgContent = copyInto (iv.1 ++ ct ++ tag) content := by
  obtain ⟨out,-,-,hout,-,-,-,-,htype,-⟩ :=
    encrypt_payload hideal iv hlen (Message.blank selfId .appEnc) client.sesskey
  simp only [brserverSendToTarget,hregistered,Option.map_some,hout,Option.getD_some,Option.some.injEq] at hsent
  rw [← hsent]
  refine payload_opened hideal hlen hself hout ?_
  intro h
  exact clientAccept_enc htype (decryptMessage_encryptMessage hideal hout)

theorem handed_opened {accept : Message → Option Message} {frame : Frame} {msg opened : Message} {buffer : Bytes}
    (hopened : frame.message.bind accept = some opened) {ls : List Traffic} {k : ℕ}
    (haccepted : (Inbox.run accept ls).accepted[k]? = some (frame,msg))
    (hhanded : (Inbox.run accept ls).handed[k]? = some buffer) : buffer = opened.msgContent := by
  obtain ⟨-,-,-,-,-,hmem⟩ := (Inbox.mem_accepted_iff ls frame msg).mp (List.mem_of_getElem? haccepted)
  rw [hopened] at hmem
  cases hmem
  exact Inbox.handed_eq haccepted hhanded

/-- A payload reaches the application clean, in either direction, exactly when the end
of its token is zero. -/
theorem app_payload_clean_iff (hideal : cipher.Ideal) (iv : Iv) {content : Bytes}
    (hlen : content.length = maxAppPayloadLen) {clients : List Endpoint} {client : Endpoint}
    (hregistered : getFromList clients client.id = some client) (hid : client.id < 4294967296)
    {selfId : ℕ} (hself : selfId < 4294967296) (ls : List Traffic) (k : ℕ) (msg : Message) (buffer : Bytes) :
    ((Inbox.run (acceptMessage cipher.toOpenSSL clients) ls).accepted[k]? =
        some ((brclientSendMsg cipher (some iv) client content).frame,msg) →
      (Inbox.run (acceptMessage cipher.toOpenSSL clients) ls).handed[k]? = some buffer →
      (Clean content buffer ↔ ZeroTail cipher client.sesskey iv content)) ∧
    ∀ sent, brserverSendToTarget cipher (some iv) clients selfId client.id content = some sent →
      (Inbox.run (clientAccept cipher.toOpenSSL client.sesskey) ls).accepted[k]? = some (sent.frame,msg) →
      (Inbox.run (clientAccept cipher.toOpenSSL client.sesskey) ls).handed[k]? = some buffer →
      (Clean content buffer ↔ ZeroTail cipher client.sesskey iv content) := by
  constructor
  · intro haccepted hhanded
    obtain ⟨ct,tag,opened,hct,htag,hopened,hcontent⟩ := acceptMessage_payload hideal iv hlen hregistered hid
    rw [handed_opened hopened haccepted hhanded,hcontent]
    exact opened_clean_iff hlen hct htag
  · intro sent hsent haccepted hhanded
    obtain ⟨ct,tag,opened,hct,htag,hopened,hcontent⟩ := clientAccept_payload hideal iv hlen hregistered hself hsent
    rw [handed_opened hopened haccepted hhanded,hcontent]
    exact opened_clean_iff hlen hct htag

theorem run_one {accept : Message → Option Message} {frame : Frame} {msg : Message}
    (h : frame.message.bind accept = some msg) (i : ℕ) :
    (Inbox.run accept [.tcp i frame,.get]).accepted = [(frame,msg)] ∧
    (Inbox.run accept [.tcp i frame,.get]).handed = [msg.msgContent] := by
  simp only [Inbox.run,List.foldl_cons,List.foldl_nil,Inbox.step,Inbox.recv,h]
  exact ⟨rfl,rfl⟩

end Buffers

/-! ## A payload under a known key -/

/-- PKCS7: as many bytes as are missing to a whole block, each telling how many. -/
def pad (plain : Bytes) : Bytes :=
  plain ++ List.replicate (aesBlock - plain.length % aesBlock) (UInt8.ofNat (aesBlock - plain.length % aesBlock))

def unpad (padded : Bytes) : Bytes := padded.take (padded.length - (padded.getLastD 0).toNat)

/-- One message as OpenSSL encrypts it. The ciphertext does not end like padded text. -/
structure TestVector where
  key : Bytes
  iv : Iv
  plain : Bytes
  ct : Bytes
  tag : Bytes
  ct_length : ct.length = (plain.length / aesBlock + 1) * aesBlock
  tag_length : tag.length = hmacLen
  no_padding : aesBlock < (ct.getLastD 0).toNat

theorem pad_last_toNat (plain : Bytes) :
    ((pad plain).getLastD 0).toNat = aesBlock - plain.length % aesBlock := by
  have hpos : aesBlock - plain.length % aesBlock ≠ 0 := by
    have := Nat.mod_lt plain.length (show 0 < aesBlock by decide)
    omega
  obtain ⟨n,hn⟩ := Nat.exists_eq_succ_of_ne_zero hpos
  have hlast : (pad plain).getLastD 0 = UInt8.ofNat (aesBlock - plain.length % aesBlock) := by
    rw [pad,hn,List.replicate_succ',← List.append_assoc,List.getLastD_concat]
  rw [hlast,UInt8.toNat_ofNat']
  unfold aesBlock
  omega

theorem length_pad (plain : Bytes) : (pad plain).length = (plain.length / aesBlock + 1) * aesBlock := by
  simp only [pad,List.length_append,List.length_replicate,aesBlock]
  omega

theorem unpad_pad (plain : Bytes) : unpad (pad plain) = plain := by
  have hlen : (pad plain).length - (aesBlock - plain.length % aesBlock) = plain.length := by
    simp only [pad,List.length_append,List.length_replicate]
    omega
  rw [unpad,pad_last_toNat,hlen]
  exact List.take_left

namespace TestVector
variable (v : TestVector)

/-- The primitives, right about this message; everything else is only padded. -/
def cipher : Cipher where
  hmac key data :=
    if key = v.key.take hmacKeyLen ∧ data = v.iv.1 ++ v.ct then some v.tag
    else some (List.replicate hmacLen 0)
  decryptCbc key iv ct :=
    if key = v.key.drop hmacKeyLen ∧ iv = v.iv.1 ∧ ct = v.ct then some v.plain else some (unpad ct)
  decryptCbc_length := by
    intro key iv ct plain h
    split at h
    · next hin =>
      cases h
      rw [hin.2.2,v.ct_length]
      unfold aesBlock
      omega
    · cases h
      rw [unpad,List.length_take]
      exact Nat.min_le_right _ _
  encryptCbc key iv plain :=
    if key = v.key.drop hmacKeyLen ∧ iv = v.iv.1 ∧ plain = v.plain then some v.ct else some (pad plain)
  encryptCbc_length := by
    intro key iv plain ct h
    split at h
    · next hin =>
      cases h
      rw [hin.2.2,v.ct_length]
    · cases h
      exact length_pad plain
  hmac_length := by
    intro key data tag h
    split at h
    · cases h
      exact v.tag_length
    · cases h
      exact List.length_replicate

theorem pad_ne (plain : Bytes) : pad plain ≠ v.ct := by
  intro h
  have hlast := v.no_padding
  rw [← h,pad_last_toNat] at hlast
  omega

theorem ideal : v.cipher.Ideal where
  encrypts key iv plain := by
    by_cases hin : key = v.key.drop hmacKeyLen ∧ iv = v.iv.1 ∧ plain = v.plain
    · refine ⟨v.ct,if_pos hin,?_⟩
      rw [hin.2.2]
      exact if_pos ⟨hin.1,hin.2.1,rfl⟩
    · refine ⟨pad plain,if_neg hin,?_⟩
      have hout : ¬(key = v.key.drop hmacKeyLen ∧ iv = v.iv.1 ∧ pad plain = v.ct) := fun h => v.pad_ne plain h.2.2
      exact (if_neg hout).trans (congrArg some (unpad_pad plain))
  tags key data := by
    by_cases hin : key = v.key.take hmacKeyLen ∧ data = v.iv.1 ++ v.ct
    · exact ⟨v.tag,if_pos hin⟩
    · exact ⟨_,if_neg hin⟩

theorem encrypts : v.cipher.encryptCbc (v.key.drop hmacKeyLen) v.iv.1 v.plain = some v.ct := if_pos ⟨rfl,rfl,rfl⟩

theorem tags : v.cipher.hmac (v.key.take hmacKeyLen) (v.iv.1 ++ v.ct) = some v.tag := if_pos ⟨rfl,rfl⟩

def client : Endpoint := ⟨1,v.key⟩

theorem registered : getFromList [v.client] v.client.id = some v.client := rfl

def sent : Message := brclientSendMsg v.cipher (some v.iv) v.client v.plain

/-- The plaintext over the start of its own token. -/
def buffer : Bytes := copyInto (v.iv.1 ++ v.ct ++ v.tag) v.plain

theorem handed (hlen : v.plain.length = maxAppPayloadLen) :
    ∃ msg, (Inbox.run (acceptMessage v.cipher.toOpenSSL [v.client]) [.tcp 0 v.sent.frame,.get]).accepted =
        [(v.sent.frame,msg)] ∧
      (Inbox.run (acceptMessage v.cipher.toOpenSSL [v.client]) [.tcp 0 v.sent.frame,.get]).handed = [v.buffer] := by
  obtain ⟨ct,tag,msg,hct,htag,hmsg,hcontent⟩ :=
    acceptMessage_payload v.ideal v.iv hlen v.registered (show (1 : ℕ) < 4294967296 by decide)
  rw [client,v.encrypts] at hct
  cases hct
  rw [client,v.tags] at htag
  cases htag
  have hrun := run_one hmsg 0
  rw [hcontent] at hrun
  exact ⟨msg,hrun⟩

end TestVector

def lettersKey : Bytes := (List.range 32).map fun i => UInt8.ofNat (i + 1)

def lettersIv : Bytes := bytesOf 16 0xa0a1a2a3a4a5a6a7a8a9aaabacadaeaf

def lettersCt : Bytes :=
  List.flatMap (bytesOf 50) [
    0x25457ece7577b585442a41bbf11e12a46a0d6d673fb5e76615040eb1d1ed1eb1cf865fa3b812d8aa8d24838b18b2e3b04b13,
    0x04dcea06972db29f10d01da352e06f767a44cf469285d1ba5a839c6823d1a790a03912834a90e64dece3a863b1da8508e0ae,
    0x5bb9fa2331a2ed5857932ee10f32b58b5ca19cf11c6c6163737d9ad0e3ad754c9203fcf5ec927225fba6248b94dd372cf714,
    0x5d4fc4fd2262e7b7f14cfcecd8af730049464d8de1007cbbaff7b973d71efc183ee63c2dd79838d0eef29597f196f2da6f05,
    0x1f19ae5ef4c2b1928753abd40c708f23e582bc7bc7610c73489dc0b2c57fb71ea37045c92e180f6cab54d975ad34d9d4ae22,
    0x92e97f75f9bcd99c920e1c36d00e26d78fef41b4f71b0691d9eeaf1f3752a24c0b7a1e37d4c9086001112b751bc85d0ae91a,
    0x600f092a8649508a0b3bf66ede77490e4f0d38c912f2fb60b3675087f2f30a37903bed2f2048e5d318b99d8e09ab4be7c73b,
    0x0e5c4bb810b8f059f6ab3c7491d67a80303702f765f83d5d37285ea73e9d4a15c8f16738b9c0f42081d601516e1543871f9f,
    0x6d8b0e6ae50d7f3de2be5d3685b1636ea42c82f3d967617b5bd92d9deff61316b851c944658a31231ea6074d353d846f39b5,
    0xa78b4e477d5c68c7ffe248e0667b1bfaf63c736ef4e7c78cbeaf3f055a37ee6c84800faeefbe27bd3e8aca15338ad9119252,
    0x2d23ca1ba258ef33bdec125945562762b7c318c34200542d7c17b768719d31f1e0d647100c87586b23d5277dd2073a4c8342,
    0xa7e32031a1a49b1f156141decd3f955b38036b48d13f79864a0ddda39381f2e6211701eb63a26ce70b6dd9ffb8e3f8af18ee,
    0xba26ce1a0fa20a94bd0718b8afb3375349e07c017330121e8e1fdf8d36dffe06287224aa07d6821af05bce927a26315d49a3,
    0x72671bb564725b95d6f62158767cd1f8dfb824a632d41831d8af4a21191a7a3cf4601b39ac9cb9014c16b4541dff073d5969,
    0x0bb24774e0da5b43c65e9337a42f30645c2227956facaa3cdffe74659ea43cf1f9f11c7472cbc08f8dcc9f7dd3b0301540d5,
    0x763358534095ff9ce77d419e802f20f8de2eea5fa52f93e2de8be6e1ec1052323692c0a63f6d349ba798e6bf10ead9fec932,
    0x26bd5860cb737fbb1267f8af8e6a3972421dfa74ea3783853fd691a3b460bccb9bf3d7ba0b5596c5a87a262c06ff77afaa43,
    0x0e5c69219fff3fe2046bd464d2b0c837f7abdadf087a0449f06c00313900b69231b0252dac43b77ad91609223abe6d906aa1,
    0x851aa9bb5d58f2c3f8b75adb20e82246a73ff2c33964db3d3c398a59c53afd6e037b3f3a855e86999176afac543c60634b2f,
    0x7759f8909d75f7efbdae9d75254b5483b2a6fe1e72a454db0ed2a3084b7bdbd9a0353aa1e2f1135dcd8a54cd11cb3e169779,
    0x78ac470010e96e10a0be249165e44e1ac92214d5f73761ae739835672b435c7ed7d7c588233771bf2ba0aa9ce16aee429528,
    0x2759fdc82205533f860375a260bc02cbae601da12f602e89daa6649cc18fe209a1c272e18100119af21ce72ad41bd1662317,
    0xcaca5993b548cc4137c6b63730dc5753c55226a09d4b69cd5a24ca9ec5e6f9edd810a51f671cd5216743bab548a45ddabab2,
    0x4536272db2235b62588f87c1c2f2adece138c433e643a83228c80f613cf538eb57e4523639910b59dd4fea77e88661f7a04c,
    0xdef04ee5291c538ab9f4ef227e6822c80b7af707dcf23920d974bc2f43732face326741f2e4bee94b9cacdb15f899db9e6cb,
    0xf7061027dd2736140ecd77f9e0cf6bc2776b436327dcd3c17672d9fbd594177b4dbd4ce65082bd318c251946164eb6a24f25,
    0x4c8be703f877ac88f57a49d60a0075fab37c67b8a3a2d4ca49b6c6e186e3beb3151fb11ac17e39028c6e69f8775a14e8af8a,
    0x55631fe36941f012e9464fd3a633c27ce13953c358d596181a2c2c2bed358378cb79f21eed4bba69d9c30fcc87329bbd7a1c,
    0xd1ec48367c4bbb62f893bb4f2505a16708f51dcc90d576699198af0b22b9dedaaa0a23391ed76ffdaf3c23758e69dc59b0ad,
    0xcf590c2a196da345ea747358d970a3449b461e0398b9f66a6590f559c67f1b1f2dc6c5ce1d838bdcfbf60da512741bdf4b8d,
    0xc77355d463ad5624b8cbf13b3e65086cb6f9f4a45141a927499472855e1e5169bbcc80b2aa8bad85d33f3ccbe4135a6f2e1e,
    0xa0727d9b74077bca3213a750e5485cd4f5924b8603d854c8b4bf3aebe8e4c94f35cf073466b5c799d880c15104e46dc1f5e3,
    0x3e9e1a8c8b633e66a02ab49f5226cf1ba10f63e5f65417f711d6cf9bf095a9ec6087a81926a3e0d0a517249ce263024c296e,
    0x89a633dcee62c152dcc0365a63724bfbeb7344cee8e994bc499ed76df642e553592dab5b1f622a0bd1f412cdb0c68bed980f,
    0x0b05baf1278ccb81e75e8f56901cb70ff4cf009b4f71d2b0141e6cbe9e13914ea27994310326b15602dea403d6fda26e439b,
    0x4192b927e16b30818aeb69c55824e9bbad4ff9132115a07144c4d4dd78ab3314b93242cc2ccf1949ff0f66fb6ddbe7129285,
    0xb8fecaee2b5655655065a68085c9ac0d76716c168262df1decae8f05681eee34dab39645062292c801dcf51d5ea26a78c404,
    0x3fe849e8213100bcca34b0f31ba5403ac91f66c5d5913deda43cd16fe30b5ffd7601066cf88ead5edbff73268e054ebdafd1,
    0x152c9908d0c128162eb4b950b3ed37dafed6259f479381c849c6d4d766cfa486d4a488be4c88886aeb819093ecaee20f7c88,
    0xc352b006ba0c93ede0b170c782abe4b16ae6c86b1811eb7228f4effa90a4c7433264ea72eaf9266348986f380d82a61fb316]

def lettersTag : Bytes := bytesOf 32 0xae2433cd23bb8b666b544b4cab60173149655d09956ef29e405d11b8a528daea

theorem length_lettersCt : lettersCt.length = 2000 := by decide +kernel

theorem lettersCt_last : lettersCt.getLastD 0 = 22 := by decide +kernel

def lettersVector : TestVector where
  key := lettersKey
  iv := ⟨lettersIv,by decide +kernel⟩
  plain := List.replicate maxAppPayloadLen 65
  ct := lettersCt
  tag := lettersTag
  ct_length := by rw [length_lettersCt,List.length_replicate]; rfl
  tag_length := by decide +kernel
  no_padding := by rw [lettersCt_last]; decide

theorem lettersBuffer_not_clean : ¬Clean lettersVector.plain lettersVector.buffer := by decide +kernel

theorem letters_clean_iff :
    ∃ msg, (Inbox.run (acceptMessage lettersVector.cipher.toOpenSSL [lettersVector.client])
        [.tcp 0 lettersVector.sent.frame,.get]).accepted = [(lettersVector.sent.frame,msg)] ∧
      (Inbox.run (acceptMessage lettersVector.cipher.toOpenSSL [lettersVector.client])
        [.tcp 0 lettersVector.sent.frame,.get]).handed = [lettersVector.buffer] ∧
      (Clean lettersVector.plain lettersVector.buffer ↔
        ZeroTail lettersVector.cipher lettersVector.client.sesskey lettersVector.iv lettersVector.plain) := by
  obtain ⟨msg,haccepted,hhanded⟩ := lettersVector.handed List.length_replicate
  refine ⟨msg,haccepted,hhanded,?_⟩
  exact (app_payload_clean_iff lettersVector.ideal lettersVector.iv List.length_replicate lettersVector.registered
    (show (1 : ℕ) < 4294967296 by decide) (show (0 : ℕ) < 4294967296 by decide)
    [.tcp 0 lettersVector.sent.frame,.get] 0 msg lettersVector.buffer).1
    (congrArg (·[0]?) haccepted) (congrArg (·[0]?) hhanded)

/-- Behind the 1984 letters stand 32 bytes of ciphertext and the tag. -/
theorem letters_handed_with_token :
    lettersVector.cipher.Ideal ∧ lettersVector.plain.length = maxAppPayloadLen ∧
    getFromList [lettersVector.client] lettersVector.client.id = some lettersVector.client ∧
    (Inbox.run (acceptMessage lettersVector.cipher.toOpenSSL [lettersVector.client])
      [.tcp 0 (brclientSendMsg lettersVector.cipher (some lettersVector.iv) lettersVector.client
        lettersVector.plain).frame,.get]).handed = [lettersVector.buffer] ∧
    ¬Clean lettersVector.plain lettersVector.buffer := by
  obtain ⟨msg,-,hhanded⟩ := lettersVector.handed List.length_replicate
  exact ⟨lettersVector.ideal,List.length_replicate,lettersVector.registered,hhanded,lettersBuffer_not_clean⟩

end CoreStack.BattleRoyale
