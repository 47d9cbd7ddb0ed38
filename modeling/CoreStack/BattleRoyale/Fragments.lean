import CoreStack.BattleRoyale.Framing

/-! # Partial transfers (`message.c`)

`send` and `recv` move as many bytes as the kernel decides, at least one while the
connection holds. The loops around them hide this: what goes over the wire and what is
read from it do not depend on it.
-/
namespace CoreStack.BattleRoyale

/-- How many of the offered bytes the kernel moves in its call number `i`. -/
def transferred (splits : ℕ → ℕ) (i offered : ℕ) : ℕ := min (splits i + 1) offered

theorem transferred_le (splits : ℕ → ℕ) (i offered : ℕ) : transferred splits i offered ≤ offered := Nat.min_le_right _ _

theorem transferred_eq_zero_iff {splits : ℕ → ℕ} {i offered : ℕ} : transferred splits i offered = 0 ↔ offered = 0 := by
  unfold transferred
  omega

/-! ## Sending -/

/-- The connection takes `room` more bytes before it ends. -/
structure Channel where
  wire : Bytes
  room : ℕ
  calls : ℕ

variable (splits : ℕ → ℕ)

/-- `send_bytes` with `buf` still to be sent. -/
def sendBytes (buf : Bytes) (c : Channel) : Bool × Channel :=
  if buf = [] then (true,c)
  else
    let m := transferred splits c.calls (min buf.length c.room)
    if m = 0 then (false,{ c with calls := c.calls + 1 })
    else sendBytes (buf.drop m) ⟨c.wire ++ buf.take m,c.room - m,c.calls + 1⟩
termination_by buf.length
decreasing_by
  have hle := transferred_le splits c.calls (min buf.length c.room)
  rw [List.length_drop]
  omega

def sendBuffers : List Bytes → Channel → Bool × Channel
  | [], c => (true,c)
  | buf :: bufs, c =>
    match sendBytes splits buf c with
    | (false,c) => (false,c)
    | (true,c) => sendBuffers bufs c

def sendAll : List Frame → Channel → Channel
  | [], c => c
  | msg :: msgs, c => sendAll msgs (sendBuffers splits (sendMessageTcp msg) c).2

/-! ## Receiving -/

/-- All that will ever arrive and was not read yet. -/
structure Socket where
  stream : Bytes
  calls : ℕ

/-- The loop of `read_bytes` with `buf` read so far. -/
def recvBytes (length : ℕ) (buf : Bytes) (s : Socket) : Option Bytes × Socket :=
  if buf.length < length then
    let n := transferred splits s.calls (min (length - buf.length) s.stream.length)
    if n = 0 then (none,{ s with calls := s.calls + 1 })
    else recvBytes length (buf ++ s.stream.take n) ⟨s.stream.drop n,s.calls + 1⟩
  else (some buf,s)
termination_by length - buf.length
decreasing_by
  have hle := transferred_le splits s.calls (min (length - buf.length) s.stream.length)
  rw [List.length_append,List.length_take]
  omega

/-- `receive_message_tcp` on the socket itself. -/
def recvMessage (s : Socket) (msg : Frame) : Bool × Frame × Socket :=
  match recvBytes splits 4 [] s with
  | (none,s) => (false,msg,s)
  | (some source,s) =>
    let msg := { msg with sourceId := ntohl source }
    match recvBytes splits 4 [] s with
    | (none,s) => (false,msg,s)
    | (some length,s) =>
      let msg := { msg with msgLen := ntohl length }
      match recvBytes splits 4 [] s with
      | (none,s) => (false,msg,s)
      | (some type,s) =>
        let msg := { msg with msgType := ntohl type }
        match recvBytes splits msgContentLength [] s with
        | (none,s) => (false,msg,s)
        | (some content,s) =>
          if h : content.length = msgContentLength then
            (true,{ msg with msgContent := content, sized := h },s)
          else (false,msg,s)

def recvAll : ℕ → Socket → Frame → List (Option Frame)
  | 0, _, _ => []
  | n + 1, s, msg =>
    let r := recvMessage splits s msg
    (if r.1 then some r.2.1 else none) :: recvAll n r.2.2 r.2.1

/-! ## What the loops do -/

theorem sendBytes_eq (buf : Bytes) (c : Channel) :
    ∃ calls, sendBytes splits buf c =
      (decide (buf.length ≤ c.room),⟨c.wire ++ buf.take c.room,c.room - buf.length,calls⟩) := by
  induction hn : buf.length using Nat.strongRecOn generalizing buf c with
  | ind n ih =>
    rw [sendBytes]
    by_cases hbuf : buf = []
    · subst hbuf
      refine ⟨c.calls,?_⟩
      rw [if_pos rfl,← hn,List.length_nil,decide_eq_true (Nat.zero_le _),List.take_nil,List.append_nil,Nat.sub_zero]
    · have hpos := List.length_pos_iff.mpr hbuf
      generalize hm : transferred splits c.calls (min buf.length c.room) = m
      have hle : m ≤ min buf.length c.room := hm ▸ transferred_le _ _ _
      rw [if_neg hbuf]
      dsimp only
      by_cases hzero : m = 0
      · -- there is no room
        rw [hzero,transferred_eq_zero_iff] at hm
        have hroom : c.room = 0 := by omega
        have hfail : ¬n ≤ c.room := by omega
        refine ⟨c.calls + 1,?_⟩
        rw [if_pos hzero,decide_eq_false hfail,hroom,List.take_zero,List.append_nil,Nat.zero_sub]
      · have hlen : (buf.drop m).length = n - m := by rw [List.length_drop,hn]
        obtain ⟨calls,hcalls⟩ := ih (n - m) (by omega) (buf.drop m)
          ⟨c.wire ++ buf.take m,c.room - m,c.calls + 1⟩ hlen
        have hwire : buf.take m ++ (buf.drop m).take (c.room - m) = buf.take c.room := by
          rw [← List.take_add,Nat.add_sub_cancel' (by omega)]
        have hok : (n - m ≤ c.room - m) = (n ≤ c.room) := by
          apply propext
          omega
        have hrest : c.room - m - (n - m) = c.room - n := by omega
        refine ⟨calls,?_⟩
        rw [if_neg hzero,hcalls,List.append_assoc,hwire,hrest]
        simp only [hok]

theorem sendBuffers_eq (bufs : List Bytes) (c : Channel) :
    ∃ calls, sendBuffers splits bufs c =
      (decide (bufs.flatten.length ≤ c.room),
        ⟨c.wire ++ bufs.flatten.take c.room,c.room - bufs.flatten.length,calls⟩) := by
  induction bufs generalizing c with
  | nil =>
    refine ⟨c.calls,?_⟩
    rw [sendBuffers,List.flatten_nil,List.length_nil,decide_eq_true (Nat.zero_le _),List.take_nil,List.append_nil,
      Nat.sub_zero]
  | cons buf bufs ih =>
    obtain ⟨calls,hcalls⟩ := sendBytes_eq splits buf c
    rw [sendBuffers,hcalls,List.flatten_cons,List.length_append]
    by_cases hroom : buf.length ≤ c.room
    · rw [decide_eq_true hroom]
      dsimp only
      obtain ⟨calls',hcalls'⟩ := ih ⟨c.wire ++ buf.take c.room,c.room - buf.length,calls⟩
      have hwire : buf.take c.room ++ bufs.flatten.take (c.room - buf.length) = (buf ++ bufs.flatten).take c.room :=
        List.take_append.symm
      have hok : (bufs.flatten.length ≤ c.room - buf.length) = (buf.length + bufs.flatten.length ≤ c.room) := by
        apply propext
        omega
      refine ⟨calls',?_⟩
      rw [hcalls',List.append_assoc,hwire,Nat.sub_sub]
      simp only [hok]
    · have hfail : ¬buf.length + bufs.flatten.length ≤ c.room := by omega
      refine ⟨calls,?_⟩
      rw [decide_eq_false hroom,decide_eq_false hfail]
      dsimp only
      rw [List.take_append_of_le_length (by omega),Nat.sub_eq_zero_of_le (by omega),Nat.sub_eq_zero_of_le (by omega)]

/-- However the kernel splits, the wire carries the messages until its end. -/
theorem sendAll_wire (msgs : List Frame) (c : Channel) :
    (sendAll splits msgs c).wire = c.wire ++ (msgs.flatMap Frame.encode).take c.room := by
  induction msgs generalizing c with
  | nil => rw [sendAll,List.flatMap_nil,List.take_nil,List.append_nil]
  | cons msg msgs ih =>
    obtain ⟨calls,hcalls⟩ := sendBuffers_eq splits (sendMessageTcp msg) c
    rw [sendAll,ih,hcalls,List.flatMap_cons,List.take_append,List.append_assoc]
    rfl

theorem recvBytes_eq (length : ℕ) (buf : Bytes) (s : Socket) (hbuf : buf.length ≤ length) :
    ∃ calls, recvBytes splits length buf s =
      match readBytes (length - buf.length) s.stream with
      | some (bytes,rest) => (some (buf ++ bytes),⟨rest,calls⟩)
      | none => (none,⟨[],calls⟩) := by
  induction hn : length - buf.length using Nat.strongRecOn generalizing buf s with
  | ind n ih =>
    rw [recvBytes]
    by_cases hlt : buf.length < length
    · generalize hm : transferred splits s.calls (min (length - buf.length) s.stream.length) = m
      have hle : m ≤ min (length - buf.length) s.stream.length := hm ▸ transferred_le _ _ _
      rw [if_pos hlt]
      dsimp only
      by_cases hzero : m = 0
      · -- the stream has ended
        rw [hzero,transferred_eq_zero_iff] at hm
        have hend : s.stream.length = 0 := by omega
        have hfail : ¬n ≤ s.stream.length := by omega
        refine ⟨s.calls + 1,?_⟩
        rw [if_pos hzero,readBytes,if_neg hfail,List.length_eq_zero_iff.mp hend]
      · have hlen : (buf ++ s.stream.take m).length = buf.length + m := by
          rw [List.length_append,List.length_take,Nat.min_eq_left (by omega)]
        obtain ⟨calls,hcalls⟩ := ih (n - m) (by omega) (buf ++ s.stream.take m) ⟨s.stream.drop m,s.calls + 1⟩
          (by omega) (by omega)
        refine ⟨calls,?_⟩
        rw [if_neg hzero,hcalls,readBytes,readBytes,List.length_drop]
        by_cases hfull : n ≤ s.stream.length
        · have htake : s.stream.take m ++ (s.stream.drop m).take (n - m) = s.stream.take n := by
            rw [← List.take_add,Nat.add_sub_cancel' (by omega)]
          rw [if_pos hfull,if_pos (by omega)]
          dsimp only
          rw [List.append_assoc,htake,List.drop_drop,Nat.add_sub_cancel' (by omega)]
        · rw [if_neg hfull,if_neg (by omega)]
    · have hdone : n = 0 := by omega
      refine ⟨s.calls,?_⟩
      rw [if_neg hlt,hdone,readBytes,if_pos (Nat.zero_le _)]
      dsimp only
      rw [List.take_zero,List.append_nil,List.drop_zero]

theorem recvBytes_nil (length : ℕ) (s : Socket) :
    ∃ calls, recvBytes splits length [] s =
      match readBytes length s.stream with
      | some (bytes,rest) => (some bytes,⟨rest,calls⟩)
      | none => (none,⟨[],calls⟩) :=
  recvBytes_eq splits length [] s (Nat.zero_le _)

/-- A call reads the same as if the kernel never split anything. -/
theorem recvMessage_eq (s : Socket) (msg : Frame) :
    ∃ calls, recvMessage splits s msg =
      ((receiveMessageTcp s.stream msg).ok,(receiveMessageTcp s.stream msg).msg,
        ⟨(receiveMessageTcp s.stream msg).stream,calls⟩) := by
  obtain ⟨calls,hsource⟩ := recvBytes_nil splits 4 s
  rw [recvMessage,receiveMessageTcp,hsource]
  cases readBytes 4 s.stream with
  | none => exact ⟨calls,rfl⟩
  | some r =>
    obtain ⟨source,stream⟩ := r
    dsimp only
    obtain ⟨calls,hlength⟩ := recvBytes_nil splits 4 ⟨stream,calls⟩
    rw [hlength]
    dsimp only
    cases readBytes 4 stream with
    | none => exact ⟨calls,rfl⟩
    | some r =>
      obtain ⟨length,stream⟩ := r
      dsimp only
      obtain ⟨calls,htype⟩ := recvBytes_nil splits 4 ⟨stream,calls⟩
      rw [htype]
      dsimp only
      cases readBytes 4 stream with
      | none => exact ⟨calls,rfl⟩
      | some r =>
        obtain ⟨type,stream⟩ := r
        dsimp only
        obtain ⟨calls,hcontent⟩ := recvBytes_nil splits msgContentLength ⟨stream,calls⟩
        rw [hcontent,readBytes]
        dsimp only
        by_cases hfits : msgContentLength ≤ stream.length
        · have hlen : (stream.take msgContentLength).length = msgContentLength := by
            rw [List.length_take,Nat.min_eq_left hfits]
          rw [if_pos hfits,dif_pos hfits]
          dsimp only
          rw [dif_pos hlen]
          exact ⟨calls,rfl⟩
        · rw [if_neg hfits,dif_neg hfits]
          exact ⟨calls,rfl⟩

theorem recvAll_eq (n : ℕ) (s : Socket) (msg : Frame) : recvAll splits n s msg = receives n s.stream msg := by
  induction n generalizing s msg with
  | zero => rfl
  | succ n ih =>
    obtain ⟨calls,hcalls⟩ := recvMessage_eq splits s msg
    rw [recvAll,receives,hcalls]
    dsimp only
    rw [ih]

/-! ## What arrives -/

theorem delivers_short {stream : Bytes} (h : stream.length < frameLength) : Delivers stream [] := by
  intro stale n
  cases n with
  | zero => rfl
  | succ n =>
    obtain ⟨hfail,hend⟩ := receive_short h stale
    have hrest := delivers_nil (receiveMessageTcp stream stale).msg n
    rw [List.length_nil,Nat.zero_add] at hrest ⊢
    rw [receives,hfail,hend,hrest]
    rfl

/-- From the beginning of a sequence of messages come those that are whole. -/
theorem delivers_whole (msgs : List Frame) (m : ℕ) :
    Delivers ((msgs.flatMap Frame.encode).take m)
      (msgs.take (((msgs.flatMap Frame.encode).take m).length / frameLength)) := by
  have hpos : 0 < frameLength := by decide
  induction msgs generalizing m with
  | nil =>
    rw [List.flatMap_nil,List.take_nil,List.take_nil]
    exact delivers_nil
  | cons msg msgs ih =>
    rw [List.flatMap_cons]
    by_cases hm : m < frameLength
    · have hlen : ((msg.encode ++ msgs.flatMap Frame.encode).take m).length < frameLength :=
        Nat.lt_of_le_of_lt (List.length_take_le _ _) hm
      rw [Nat.div_eq_of_lt hlen]
      exact delivers_short hlen
    · obtain ⟨k,rfl⟩ := Nat.exists_eq_add_of_le (Nat.le_of_not_lt hm)
      have htake : (msg.encode ++ msgs.flatMap Frame.encode).take (frameLength + k) =
          msg.encode ++ (msgs.flatMap Frame.encode).take k := by
        rw [← length_encode msg,List.take_length_add_append]
      rw [htake,List.length_append,length_encode,Nat.add_div_left _ hpos,List.take_succ_cons]
      exact delivers_encode msg (ih k)

/-- However the kernel splits sending and receiving and wherever the stream ends, what arrives
is a beginning of the messages, and the receiver gets those that arrived whole, in order, and
fails from then on. -/
theorem framing_survives_fragmentation (sendSplits recvSplits : ℕ → ℕ) (msgs : List Frame) (room k n : ℕ)
    (stale : Frame) :
    let arrived := (sendAll sendSplits msgs ⟨[],room,0⟩).wire.take k
    let whole := msgs.take (arrived.length / frameLength)
    arrived <+: msgs.flatMap Frame.encode ∧
    recvAll recvSplits (whole.length + n) ⟨arrived,0⟩ stale = whole.map some ++ List.replicate n none := by
  dsimp only
  rw [recvAll_eq,sendAll_wire,List.nil_append,List.take_take]
  exact ⟨List.take_prefix _ _,delivers_whole msgs (min k room) stale n⟩

end CoreStack.BattleRoyale
