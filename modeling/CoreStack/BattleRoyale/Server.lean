import CoreStack.BattleRoyale.Crypto

/-! # What reaches the application (`server.c`)

`server_game_state` takes a message off a socket and may queue it for the
application; `brserver_get_app_msg` hands the application the content of the
oldest one.
-/
namespace CoreStack.BattleRoyale
open Utils
variable (ssl : OpenSSL)

def Message.decrypted (msg : Message) (plain : Bytes) (h : plain.length ≤ msg.msgContent.length) : Message where
  sourceId := msg.sourceId
  msgLen := plain.length
  msgType := .app
  msgContent := copyInto msg.msgContent plain
  sized := (length_copyInto h).trans msg.sized

/-- The message the listener puts in the queue, if it does not drop what it read. -/
def acceptMessage (clients : List Endpoint) (msg : Message) : Option Message :=
  match msg.msgType with
  | .app => some msg
  | .appEnc =>
    (getFromList clients msg.sourceId).bind fun sender =>
      match h : decryptMessage ssl msg sender.sesskey with
      | none => none
      | some plain => some (msg.decrypted plain (decryptMessage_length h))
  | _ => none

variable {ssl}

theorem acceptMessage_enc {clients : List Endpoint} {raw : Message} {sender : Endpoint}
    {plain : Bytes} (henc : raw.msgType = .appEnc) (hsender : getFromList clients raw.sourceId = some sender)
    (hplain : decryptMessage ssl raw sender.sesskey = some plain) :
    acceptMessage ssl clients raw = some (raw.decrypted plain (decryptMessage_length hplain)) := by
  simp only [acceptMessage,henc,hsender,Option.bind_some]
  split
  · next h =>
    rw [h] at hplain
    cases hplain
  · next p h =>
    rw [h] at hplain
    cases hplain
    rfl

theorem acceptMessage_cases {clients : List Endpoint} {raw msg : Message}
    (h : acceptMessage ssl clients raw = some msg) :
    raw.msgType = .app ∧ msg = raw ∨
    ∃ sender plain, ∃ hplain : decryptMessage ssl raw sender.sesskey = some plain, raw.msgType = .appEnc ∧
      getFromList clients raw.sourceId = some sender ∧ msg = raw.decrypted plain (decryptMessage_length hplain) := by
  unfold acceptMessage at h
  split at h
  · next htype =>
    cases h
    exact Or.inl ⟨htype,rfl⟩
  · next htype =>
    obtain ⟨sender,hsender,h⟩ := Option.bind_eq_some_iff.mp h
    split at h
    · cases h
    · next plain hplain =>
      cases h
      exact Or.inr ⟨sender,plain,hplain,htype,hsender,rfl⟩
  · cases h

variable (ssl)

/-- One message read from a socket; a full queue loses it. -/
def gameStateRecv (clients : List Endpoint) (serverMessages : MessageQueue) (msg : Message) : MessageQueue :=
  match acceptMessage ssl clients msg with
  | none => serverMessages
  | some msg => (serverMessages.enqueue msg).1

def brserverGetAppMsg (serverMessages : MessageQueue) : Option (Bytes × MessageQueue) :=
  serverMessages.peek.map fun msg => (msg.msgContent,serverMessages.dequeue.1)

def ReceivedFrom (clients : List Endpoint) (a : ℕ) (msg : Message) : Prop :=
  ∃ raw sender, raw.msgType = .appEnc ∧ getFromList clients raw.sourceId = some sender ∧ sender.id = a ∧
    acceptMessage ssl clients raw = some msg

end CoreStack.BattleRoyale
