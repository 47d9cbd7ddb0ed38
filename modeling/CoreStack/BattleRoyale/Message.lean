import CoreStack.Utils.Queue

/-! # Messages and clients of libbattleroyale (`message.h`, `clientll.c`) -/
namespace CoreStack.BattleRoyale
open Utils

abbrev Bytes := List UInt8

def bytesOf : ℕ → ℕ → Bytes
  | 0, _ => []
  | n + 1, x => UInt8.ofNat (x >>> (8 * n)) :: bytesOf n x

def msgContentLength : ℕ := 2048

theorem length_zeros : (List.replicate msgContentLength (0 : UInt8)).length = msgContentLength := List.length_replicate

inductive MessageType
  | cert
  | auth
  | key
  | join
  | leave
  | start
  | «end»
  | app
  | appEnc
  deriving DecidableEq, Repr

/-- The content is always sent whole, whatever part of it `msg_len` says is used. -/
structure Message where
  sourceId : ℕ
  msgLen : ℕ
  msgType : MessageType
  msgContent : Bytes
  sized : msgContent.length = msgContentLength

abbrev MessageQueue := Queue Message 500

def copyInto (dst src : Bytes) : Bytes := src ++ dst.drop src.length

theorem length_copyInto {dst src : Bytes} (h : src.length ≤ dst.length) :
    (copyInto dst src).length = dst.length := by
  simp only [copyInto,List.length_append,List.length_drop]
  omega

/-! ## Clients -/

structure Endpoint where
  id : ℕ
  sesskey : Bytes

def getFromList (clients : List Endpoint) (id : ℕ) : Option Endpoint := clients.find? (·.id == id)

theorem getFromList_id {clients : List Endpoint} {id : ℕ} {client : Endpoint}
    (h : getFromList clients id = some client) : client.id = id := by
  simpa using List.find?_some h

end CoreStack.BattleRoyale
