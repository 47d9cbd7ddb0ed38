import CoreStack.BattleRoyale.Message
import CoreStack.Lib.Interleaving

/-! # Messages on the wire (`message.c`)

A message goes out as three words and its content, with one `send_bytes` each.
The stream is what has arrived and was not read yet; when a read finds too little
of it the connection has ended.
-/
namespace CoreStack.BattleRoyale
open Interleaving

def MessageType.code : MessageType → UInt32
  | .cert => 0
  | .auth => 1
  | .key => 2
  | .join => 3
  | .leave => 4
  | .start => 5
  | .end => 6
  | .app => 7
  | .appEnc => 8

/-- A `Message` as it lies in memory. A peer chooses every word of it. -/
structure Frame where
  sourceId : UInt32
  msgLen : UInt32
  msgType : UInt32
  msgContent : Bytes
  sized : msgContent.length = msgContentLength
  deriving DecidableEq

def headerLength : ℕ := 12
def frameLength : ℕ := 2060

def htonl (word : UInt32) : Bytes :=
  [UInt8.ofNat (word.toNat / 16777216),UInt8.ofNat (word.toNat / 65536),UInt8.ofNat (word.toNat / 256),
    UInt8.ofNat word.toNat]

def ntohl (bytes : Bytes) : UInt32 := UInt32.ofNat (bytes.foldl (fun n b => 256 * n + b.toNat) 0)

@[simp] theorem length_htonl (word : UInt32) : (htonl word).length = 4 := rfl

@[simp] theorem ntohl_htonl (word : UInt32) : ntohl (htonl word) = word := by
  apply UInt32.toNat_inj.mp
  have hword := word.toNat_lt
  simp only [ntohl,htonl,List.foldl_cons,List.foldl_nil,UInt8.toNat_ofNat',UInt32.toNat_ofNat']
  omega

theorem htonl_ntohl {bytes : Bytes} (h : bytes.length = 4) : htonl (ntohl bytes) = bytes := by
  obtain ⟨a,b,c,d,rfl⟩ : ∃ a b c d, bytes = [a,b,c,d] := by
    match bytes, h with
    | [a,b,c,d], _ => exact ⟨a,b,c,d,rfl⟩
  have ha := a.toNat_lt
  have hb := b.toNat_lt
  have hc := c.toNat_lt
  have hd := d.toNat_lt
  simp only [ntohl,htonl,List.foldl_cons,List.foldl_nil,UInt32.toNat_ofNat',List.cons.injEq,and_true]
  refine ⟨?_,?_,?_,?_⟩ <;> apply UInt8.toNat_inj.mp <;> rw [UInt8.toNat_ofNat'] <;> omega

/-! ## Sending and receiving -/

/-- The buffers of the four `send_bytes` calls. -/
def sendMessageTcp (msg : Frame) : List Bytes :=
  [htonl msg.sourceId,htonl msg.msgLen,htonl msg.msgType,msg.msgContent]

def Frame.encode (msg : Frame) : Bytes := (sendMessageTcp msg).flatten

/-- `none` when the stream ends too early; the bytes read until then are lost. -/
def readBytes (length : ℕ) (stream : Bytes) : Option (Bytes × Bytes) :=
  if length ≤ stream.length then some (stream.take length,stream.drop length) else none

structure Received where
  ok : Bool
  msg : Frame
  stream : Bytes

/-- Each field is written as soon as it is read, so a failed call may leave some
of them changed. -/
def receiveMessageTcp (stream : Bytes) (msg : Frame) : Received :=
  match readBytes 4 stream with
  | none => ⟨false,msg,[]⟩
  | some (source,stream) =>
    let msg := { msg with sourceId := ntohl source }
    match readBytes 4 stream with
    | none => ⟨false,msg,[]⟩
    | some (length,stream) =>
      let msg := { msg with msgLen := ntohl length }
      match readBytes 4 stream with
      | none => ⟨false,msg,[]⟩
      | some (type,stream) =>
        let msg := { msg with msgType := ntohl type }
        if h : msgContentLength ≤ stream.length then
          ⟨true,{ msg with
            msgContent := stream.take msgContentLength
            sized := by rw [List.length_take,Nat.min_eq_left h] },stream.drop msgContentLength⟩
        else ⟨false,msg,[]⟩

def receives : ℕ → Bytes → Frame → List (Option Frame)
  | 0, _, _ => []
  | n + 1, stream, msg =>
    let r := receiveMessageTcp stream msg
    (if r.ok then some r.msg else none) :: receives n r.stream r.msg

@[simp] theorem length_encode (msg : Frame) : msg.encode.length = frameLength := by
  have h := msg.sized
  simp only [Frame.encode,sendMessageTcp,List.flatten_cons,List.flatten_nil,List.length_append,length_htonl,
    List.length_nil,h,msgContentLength,frameLength]

theorem length_encodes (msgs : List Frame) : (msgs.flatMap Frame.encode).length = frameLength * msgs.length := by
  rw [List.length_flatMap,List.map_congr_left fun msg _ => length_encode msg,List.map_const',List.sum_replicate_nat]
  exact Nat.mul_comm _ _

theorem readBytes_append {length : ℕ} {bytes rest : Bytes} (h : bytes.length = length) :
    readBytes length (bytes ++ rest) = some (bytes,rest) := by
  subst h
  simp [readBytes]

theorem receive_encode (msg stale : Frame) (rest : Bytes) :
    receiveMessageTcp (msg.encode ++ rest) stale = ⟨true,msg,rest⟩ := by
  have hsized := msg.sized
  have hfits : msgContentLength ≤ (msg.msgContent ++ rest).length := by
    rw [List.length_append]
    omega
  simp only [Frame.encode,sendMessageTcp,List.flatten_cons,List.flatten_nil,List.append_nil,List.append_assoc,
    receiveMessageTcp]
  rw [readBytes_append (length_htonl _)]
  dsimp only
  rw [readBytes_append (length_htonl _)]
  dsimp only
  rw [readBytes_append (length_htonl _)]
  dsimp only
  rw [dif_pos hfits]
  simp only [ntohl_htonl,List.take_left' hsized,List.drop_left' hsized]

theorem readBytes_eq_none {length : ℕ} {stream : Bytes} : readBytes length stream = none ↔ stream.length < length := by
  simp [readBytes]

theorem readBytes_eq_some {length : ℕ} {stream bytes rest : Bytes} (h : readBytes length stream = some (bytes,rest)) :
    bytes.length = length ∧ stream = bytes ++ rest := by
  unfold readBytes at h
  split at h
  · next hle =>
    cases h
    exact ⟨by rw [List.length_take,Nat.min_eq_left hle],(List.take_append_drop _ _).symm⟩
  · cases h

theorem receive_short {stream : Bytes} (h : stream.length < frameLength) (stale : Frame) :
    (receiveMessageTcp stream stale).ok = false ∧ (receiveMessageTcp stream stale).stream = [] := by
  unfold receiveMessageTcp
  dsimp only
  split
  · exact ⟨rfl,rfl⟩
  · next source s₁ hsource =>
    obtain ⟨hl₁,rfl⟩ := readBytes_eq_some hsource
    split
    · exact ⟨rfl,rfl⟩
    · next length s₂ hlength =>
      obtain ⟨hl₂,rfl⟩ := readBytes_eq_some hlength
      split
      · exact ⟨rfl,rfl⟩
      · next type s₃ htype =>
        obtain ⟨hl₃,rfl⟩ := readBytes_eq_some htype
        have hshort : ¬msgContentLength ≤ s₃.length := by
          simp only [List.length_append,frameLength,msgContentLength] at h ⊢
          omega
        rw [dif_neg hshort]
        exact ⟨rfl,rfl⟩

theorem exists_encode {stream : Bytes} (h : frameLength ≤ stream.length) :
    ∃ msg : Frame, stream = msg.encode ++ stream.drop frameLength := by
  have hsource : (stream.take 4).length = 4 := by
    rw [List.length_take]
    unfold frameLength at h
    omega
  have hlength : ((stream.drop 4).take 4).length = 4 := by
    rw [List.length_take,List.length_drop]
    unfold frameLength at h
    omega
  have htype : ((stream.drop 8).take 4).length = 4 := by
    rw [List.length_take,List.length_drop]
    unfold frameLength at h
    omega
  have hcontent : ((stream.drop 12).take msgContentLength).length = msgContentLength := by
    rw [List.length_take,List.length_drop]
    unfold frameLength at h
    unfold msgContentLength
    omega
  refine ⟨⟨ntohl (stream.take 4),ntohl ((stream.drop 4).take 4),ntohl ((stream.drop 8).take 4),
    (stream.drop 12).take msgContentLength,hcontent⟩,?_⟩
  simp only [Frame.encode,sendMessageTcp,List.flatten_cons,List.flatten_nil,List.append_nil,List.append_assoc,
    htonl_ntohl hsource,htonl_ntohl hlength,htonl_ntohl htype]
  have h₄ : (stream.drop 12).take msgContentLength ++ stream.drop frameLength = stream.drop 12 := by
    have hdrop := List.take_append_drop msgContentLength (stream.drop 12)
    rwa [List.drop_drop] at hdrop
  have h₃ : (stream.drop 8).take 4 ++ stream.drop 12 = stream.drop 8 := by
    have hdrop := List.take_append_drop 4 (stream.drop 8)
    rwa [List.drop_drop] at hdrop
  have h₂ : (stream.drop 4).take 4 ++ stream.drop 8 = stream.drop 4 := by
    have hdrop := List.take_append_drop 4 (stream.drop 4)
    rwa [List.drop_drop] at hdrop
  rw [h₄,h₃,h₂,List.take_append_drop]

theorem receive_stream (stream : Bytes) (stale : Frame) :
    (receiveMessageTcp stream stale).stream = stream.drop frameLength := by
  by_cases h : frameLength ≤ stream.length
  · obtain ⟨msg,hmsg⟩ := exists_encode h
    rw [hmsg,receive_encode,List.drop_left' (length_encode msg)]
  · have hshort : stream.length < frameLength := by omega
    rw [(receive_short hshort stale).2,List.drop_eq_nil_of_le (Nat.le_of_lt hshort)]

/-- A call that succeeds has taken exactly the bytes of the message it returns. -/
theorem receive_ok {stream : Bytes} {stale : Frame} (h : (receiveMessageTcp stream stale).ok = true) :
    stream = (receiveMessageTcp stream stale).msg.encode ++ stream.drop frameLength := by
  by_cases hlen : frameLength ≤ stream.length
  · obtain ⟨msg,hmsg⟩ := exists_encode hlen
    have hrecv : receiveMessageTcp stream stale = ⟨true,msg,stream.drop frameLength⟩ := by
      rw [hmsg,receive_encode,List.drop_left' (length_encode msg)]
    rw [hrecv]
    exact hmsg
  · rw [(receive_short (by omega) stale).1] at h
    cases h

/-! ## Two threads on one socket -/

/-- The calls return these messages and then find the end of the stream. -/
def Delivers (stream : Bytes) (msgs : List Frame) : Prop :=
  ∀ stale n, receives (msgs.length + n) stream stale = msgs.map some ++ List.replicate n none

theorem delivers_nil : Delivers [] [] := by
  intro stale n
  induction n generalizing stale with
  | zero => rfl
  | succ n ih =>
    have hshort := receive_short (show ([] : Bytes).length < frameLength by decide) stale
    have hrest := ih (receiveMessageTcp [] stale).msg
    simp only [List.length_nil,Nat.zero_add,List.map_nil,List.nil_append] at hrest ⊢
    simp only [receives,hshort.1,hshort.2,hrest,List.replicate_succ,Bool.false_eq_true,if_false]

theorem delivers_encode (msg : Frame) {stream : Bytes} {msgs : List Frame} (h : Delivers stream msgs) :
    Delivers (msg.encode ++ stream) (msg :: msgs) := by
  intro stale n
  rw [List.length_cons,Nat.add_right_comm,receives]
  simp only [receive_encode,if_true,h msg n,List.map_cons,List.cons_append]

/-- Whatever is sent by one call after the other arrives as it was sent. -/
theorem delivers_sequence (msgs : List Frame) : Delivers (msgs.flatMap Frame.encode) msgs := by
  induction msgs with
  | nil => exact delivers_nil
  | cons msg msgs ih => exact delivers_encode msg ih

theorem delivers_take {stream : Bytes} {msg : Frame} {msgs : List Frame} (h : Delivers stream (msg :: msgs)) :
    stream.take frameLength = msg.encode := by
  have hfirst := h msg 0
  simp only [List.length_cons,receives,List.map_cons,List.cons_append,List.cons.injEq] at hfirst
  have hone := hfirst.1
  split at hone
  · next hok =>
    have hstream := receive_ok hok
    rw [Option.some.inj hone] at hstream
    rw [hstream,List.take_left' (length_encode msg)]
  · cases hone

def uniform (byte : UInt8) (type : MessageType) : Frame where
  sourceId := ntohl (List.replicate 4 byte)
  msgLen := ntohl (List.replicate 4 byte)
  msgType := type.code
  msgContent := List.replicate msgContentLength byte
  sized := List.length_replicate

theorem uniform_take (byte : UInt8) (type : MessageType) :
    (uniform byte type).encode.take 16 =
      List.replicate 8 byte ++ htonl type.code ++ List.replicate 4 byte := by
  have hword : htonl (ntohl (List.replicate 4 byte)) = List.replicate 4 byte := htonl_ntohl rfl
  have hcontent : List.replicate msgContentLength byte = List.replicate 4 byte ++ List.replicate 2044 byte := by
    rw [List.replicate_append_replicate]
    rfl
  simp only [uniform,Frame.encode,sendMessageTcp,hword,hcontent]
  rfl

/-- The other thread cuts in after the first, second or third word of a message. -/
theorem cut_in {k : ℕ} (hk : 0 < k) (hk' : k < 4) (rest : List Bool) {msgs : List Frame} :
    let stream := (weave (List.replicate k true ++ false :: rest) (sendMessageTcp (uniform 1 .start))
      (sendMessageTcp (uniform 2 .app))).flatten
    ¬Delivers stream (uniform 1 .start :: msgs) ∧ ¬Delivers stream (uniform 2 .app :: msgs) := by
  have hone : htonl (uniform 1 .start).sourceId = [1,1,1,1] := by decide
  have hlen : htonl (uniform 1 .start).msgLen = [1,1,1,1] := by decide
  have htype : htonl (uniform 1 .start).msgType = [0,0,0,5] := by decide
  have htwo : htonl (uniform 2 .app).sourceId = [2,2,2,2] := by decide
  have hcode : htonl MessageType.start.code = [0,0,0,5] := by decide
  have htake : ∀ (stream : Bytes) (msg : Frame), Delivers stream (msg :: msgs) →
      stream.take 16 = msg.encode.take 16 := by
    intro stream msg h
    rw [← delivers_take h,List.take_take]
    rfl
  refine ⟨fun h => ?_,fun h => ?_⟩
  all_goals
    have hbytes := htake _ _ h
    rw [uniform_take] at hbytes
    obtain rfl | rfl | rfl : k = 1 ∨ k = 2 ∨ k = 3 := by omega
    all_goals
      simp [weave,sendMessageTcp,List.replicate,hone,hlen,htype,htwo,hcode] at hbytes

/-- The schedules of two calls under which every two messages arrive whole: one call
sends everything before the other begins. -/
theorem two_senders_intact_iff {s : List Bool} (hs : Schedules s 4 4) :
    (∀ m₁ m₂ : Frame,
      let stream := (weave s (sendMessageTcp m₁) (sendMessageTcp m₂)).flatten
      Delivers stream [m₁,m₂] ∨ Delivers stream [m₂,m₁]) ↔ Sequential s 4 4 := by
  constructor
  · intro h
    rcases schedules_lead hs with hseq | ⟨k,rest,hk,rfl⟩
    · exact Or.inl hseq
    · by_cases hpos : 0 < k
      · have hcut := h (uniform 1 .start) (uniform 2 .app)
        rcases hcut with hcut | hcut
        · exact absurd hcut (cut_in hpos hk rest).1
        · exact absurd hcut (cut_in hpos hk rest).2
      · -- the second thread begins: change places
        obtain rfl : k = 0 := by omega
        apply sequential_swap
        rcases schedules_lead (schedules_swap hs) with hseq | ⟨k,rest',hk,hs'⟩
        · exact Or.inl hseq
        · have hpos : 0 < k := by
            rcases Nat.eq_zero_or_pos k with rfl | hpos
            · simp at hs'
            · exact hpos
          have hcut := h (uniform 2 .app) (uniform 1 .start)
          dsimp only at hcut
          rw [← weave_swap,hs'] at hcut
          rcases hcut with hcut | hcut
          · exact absurd hcut (cut_in hpos hk rest').2
          · exact absurd hcut (cut_in hpos hk rest').1
  · intro h m₁ m₂
    dsimp only
    have h₁ := delivers_sequence [m₁,m₂]
    have h₂ := delivers_sequence [m₂,m₁]
    simp only [List.flatMap_cons,List.flatMap_nil,List.append_nil,Frame.encode] at h₁ h₂
    have hseq : Sequential s (sendMessageTcp m₁).length (sendMessageTcp m₂).length := h
    rcases weave_sequential hseq with hw | hw
    · left
      rw [hw,List.flatten_append]
      exact h₁
    · right
      rw [hw,List.flatten_append]
      exact h₂

theorem two_senders_intact_main_first :
    Schedules [false,false,false,false,true,true,true,true] 4 4 ∧
    ((∀ m₁ m₂ : Frame,
      let stream := (weave [false,false,false,false,true,true,true,true] (sendMessageTcp m₁)
        (sendMessageTcp m₂)).flatten
      Delivers stream [m₁,m₂] ∨ Delivers stream [m₂,m₁]) ↔
      Sequential [false,false,false,false,true,true,true,true] 4 4) :=
  ⟨by decide,two_senders_intact_iff (by decide)⟩

/-- What the listener broadcasts when the game starts. -/
def startMessage : Frame where
  sourceId := 0
  msgLen := 0
  msgType := MessageType.start.code
  msgContent := List.replicate msgContentLength 0
  sized := length_zeros

/-- What `brserver_send_to_all` makes of a text of the main thread. -/
def rosterMessage : Frame where
  sourceId := 0
  msgLen := 0
  msgType := MessageType.app.code
  msgContent := List.replicate msgContentLength 82
  sized := List.length_replicate

/-- The roster's first word lands between the first two words of the start message. -/
theorem start_and_roster_torn :
    Schedules [true,false,true,true,true,false,false,false] 4 4 ∧
    ¬(Delivers (weave [true,false,true,true,true,false,false,false] (sendMessageTcp startMessage)
        (sendMessageTcp rosterMessage)).flatten [startMessage,rosterMessage] ∨
      Delivers (weave [true,false,true,true,true,false,false,false] (sendMessageTcp startMessage)
        (sendMessageTcp rosterMessage)).flatten [rosterMessage,startMessage]) := by
  refine ⟨by decide,?_⟩
  rintro (h | h)
  · have hbytes := congrArg (List.take 16) (delivers_take h)
    revert hbytes
    decide +kernel
  · have hbytes := congrArg (List.take 16) (delivers_take h)
    revert hbytes
    decide +kernel

end CoreStack.BattleRoyale
