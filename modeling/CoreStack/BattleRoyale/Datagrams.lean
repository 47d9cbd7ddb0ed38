import CoreStack.BattleRoyale.Framing

/-! # Messages over UDP (`message.c`)

A datagram is the memory of a `Message`. `recvfrom` writes what has arrived over the
beginning of a buffer on the stack, and the whole buffer is copied to the caller.
-/
namespace CoreStack.BattleRoyale

/-- `unsigned char message_bytes[sizeof(Message)]`. -/
abbrev Memory := { bytes : Bytes // bytes.length = frameLength }

/-- A word as the host stores it, lowest byte first. -/
def hostWord (bytes : Bytes) : UInt32 := ntohl bytes.reverse

def Frame.ofMemory (memory : Memory) : Frame where
  sourceId := hostWord (memory.1.take 4)
  msgLen := hostWord ((memory.1.drop 4).take 4)
  msgType := hostWord ((memory.1.drop 8).take 4)
  msgContent := memory.1.drop headerLength
  sized := by
    rw [List.length_drop,memory.2]
    rfl

/-- The buffer after `recvfrom`: a longer datagram is cut off. -/
def received (datagram : Bytes) (stack : Memory) : Memory :=
  ⟨copyInto stack.1 (datagram.take frameLength),by
    rw [length_copyInto (by rw [stack.2]; exact List.length_take_le _ _),stack.2]⟩

/-- `none` is a failed `recvfrom`. How long the datagram was is not looked at. -/
def receiveMessageUdp (datagram : Option Bytes) (stack : Memory) (msg : Frame) : Bool × Frame :=
  match datagram with
  | none => (false,msg)
  | some datagram => (true,Frame.ofMemory (received datagram stack))

theorem received_val (datagram : Bytes) (stack : Memory) :
    (received datagram stack).1 = copyInto stack.1 (datagram.take frameLength) := rfl

theorem received_full {datagram : Bytes} (h : frameLength ≤ datagram.length) (stack : Memory) :
    (received datagram stack).1 = datagram.take frameLength := by
  have hlen : (datagram.take frameLength).length = frameLength := by
    rw [List.length_take,Nat.min_eq_left h]
  have hrest : stack.1.drop frameLength = [] := List.drop_eq_nil_of_le (Nat.le_of_eq stack.2)
  rw [received_val,copyInto,hlen,hrest,List.append_nil]

theorem received_short {datagram : Bytes} (h : datagram.length < frameLength) (stack : Memory) {k : ℕ}
    (hk : datagram.length ≤ k) : (received datagram stack).1.drop k = stack.1.drop k := by
  obtain ⟨j,rfl⟩ := Nat.exists_eq_add_of_le hk
  rw [received_val,List.take_of_length_le (Nat.le_of_lt h),copyInto,← List.drop_drop,List.drop_left,List.drop_drop]

/-- The result does not depend on what was in the two memories. -/
def Determined (datagram : Bytes) : Prop :=
  ∀ (stack stack' : Memory) (msg msg' : Frame),
    receiveMessageUdp (some datagram) stack msg = receiveMessageUdp (some datagram) stack' msg'

def filledMemory (byte : UInt8) : Memory := ⟨List.replicate frameLength byte,List.length_replicate⟩

theorem determined_iff (datagram : Bytes) : Determined datagram ↔ frameLength ≤ datagram.length := by
  constructor
  · intro h
    by_contra hshort
    have hlt := Nat.lt_of_not_le hshort
    have hsame := congrArg (·.2.msgContent) (h (filledMemory 0) (filledMemory 1) (.ofMemory (filledMemory 0))
      (.ofMemory (filledMemory 0)))
    -- behind the datagram and the three words
    have hrest := congrArg (List.drop (max headerLength datagram.length - headerLength)) hsame
    have hsum : headerLength + (max headerLength datagram.length - headerLength) = max headerLength datagram.length :=
      Nat.add_sub_cancel' (Nat.le_max_left _ _)
    simp only [receiveMessageUdp,Frame.ofMemory,List.drop_drop,hsum] at hrest
    rw [received_short hlt _ (Nat.le_max_right _ _),received_short hlt _ (Nat.le_max_right _ _),filledMemory,filledMemory,
      List.drop_replicate,List.drop_replicate] at hrest
    have hpos : 0 < frameLength - max headerLength datagram.length := by
      have hheader : headerLength < frameLength := by decide
      omega
    obtain ⟨m,hm⟩ := Nat.exists_eq_add_one_of_ne_zero (Nat.ne_of_gt hpos)
    rw [hm,List.replicate_succ,List.replicate_succ] at hrest
    exact absurd (List.cons.inj hrest).1 (by decide)
  · intro h stack stack' msg msg'
    have hbytes : received datagram stack = received datagram stack' := by
      apply Subtype.ext
      rw [received_full h,received_full h]
    rw [receiveMessageUdp,receiveMessageUdp,hbytes]

/-- Four bytes set the source. Type, length and content of the message are those of an earlier packet. -/
theorem four_bytes_undetermined : ([7,0,0,0] : Bytes).length < frameLength ∧
    (receiveMessageUdp (some [7,0,0,0]) (filledMemory 0) (.ofMemory (filledMemory 0))).2.msgType = 0 ∧
    (receiveMessageUdp (some [7,0,0,0]) (filledMemory 1) (.ofMemory (filledMemory 0))).2.msgType = 16843009 ∧
    ¬Determined [7,0,0,0] := by
  have hzero : (receiveMessageUdp (some [7,0,0,0]) (filledMemory 0) (.ofMemory (filledMemory 0))).2.msgType = 0 := by
    decide +kernel
  have hone : (receiveMessageUdp (some [7,0,0,0]) (filledMemory 1) (.ofMemory (filledMemory 0))).2.msgType =
      16843009 := by decide +kernel
  refine ⟨by decide,hzero,hone,fun h => ?_⟩
  have hsame := congrArg (·.2.msgType) (h (filledMemory 0) (filledMemory 1) (.ofMemory (filledMemory 0))
    (.ofMemory (filledMemory 0)))
  rw [hzero,hone] at hsame
  exact absurd hsame (by decide)

end CoreStack.BattleRoyale
