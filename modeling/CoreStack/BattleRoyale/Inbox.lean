import Mathlib.Data.List.Induction
import CoreStack.BattleRoyale.Encryption

/-! # From the socket to the application

The listener puts what it accepts in a queue; `brserver_get_app_msg` and
`brclient_get_app_msg` take the content of the oldest message out again. The two
ends differ only in how they accept a message.
-/
namespace CoreStack.BattleRoyale
open Utils

def MessageType.ofCode (code : UInt32) : Option MessageType :=
  match code.toNat with
  | 0 => some .cert
  | 1 => some .auth
  | 2 => some .key
  | 3 => some .join
  | 4 => some .leave
  | 5 => some .start
  | 6 => some .end
  | 7 => some .app
  | 8 => some .appEnc
  | _ => none

@[simp] theorem MessageType.ofCode_code (type : MessageType) : MessageType.ofCode type.code = some type := by
  cases type <;> rfl

theorem MessageType.code_of_ofCode {code : UInt32} {type : MessageType} (h : MessageType.ofCode code = some type) :
    code = type.code := by
  apply UInt32.toNat_inj.mp
  unfold MessageType.ofCode at h
  split at h <;> simp_all <;> subst h <;> rfl

/-- A frame of an unknown type is no message for anyone. -/
def Frame.message (frame : Frame) : Option Message :=
  (MessageType.ofCode frame.msgType).map fun type =>
    ⟨frame.sourceId.toNat,frame.msgLen.toNat,type,frame.msgContent,frame.sized⟩

def Message.frame (msg : Message) : Frame :=
  ⟨UInt32.ofNat msg.sourceId,UInt32.ofNat msg.msgLen,msg.msgType.code,msg.msgContent,msg.sized⟩

theorem Message.message_frame {msg : Message} (hid : msg.sourceId < 4294967296) (hlen : msg.msgLen < 4294967296) :
    msg.frame.message = some msg := by
  simp only [Frame.message,Message.frame,MessageType.ofCode_code,Option.map_some,UInt32.toNat_ofNat']
  rw [Nat.mod_eq_of_lt hid,Nat.mod_eq_of_lt hlen]

inductive Traffic
  | tcp (connection : ℕ) (frame : Frame)
  | udp (frame : Frame)
  | get

def Traffic.frame : Traffic → Option Frame
  | .tcp _ frame => some frame
  | .udp frame => some frame
  | .get => none

/-- `accepted` lists the frames whose message was enqueued, `handed` the buffers given to
the application. -/
structure Inbox where
  queue : MessageQueue
  accepted : List (Frame × Message)
  handed : List Bytes

namespace Inbox

def init : Inbox := ⟨.init,[],[]⟩

def recv (accept : Message → Option Message) (s : Inbox) (frame : Frame) : Inbox :=
  match frame.message.bind accept with
  | none => s
  | some msg =>
    let r := s.queue.enqueue msg
    { s with queue := r.1, accepted := if r.2 then s.accepted ++ [(frame,msg)] else s.accepted }

def get (s : Inbox) : Inbox :=
  match brserverGetAppMsg s.queue with
  | none => s
  | some (buffer,queue) => { s with queue := queue, handed := s.handed ++ [buffer] }

def step (accept : Message → Option Message) (s : Inbox) : Traffic → Inbox
  | .tcp _ frame => s.recv accept frame
  | .udp frame => s.recv accept frame
  | .get => s.get

def run (accept : Message → Option Message) (ls : List Traffic) : Inbox := ls.foldl (step accept) init

variable {accept : Message → Option Message}

variable (accept)

theorem recv_cases (s : Inbox) (frame : Frame) :
    s.recv accept frame = s ∧ (s.queue.full = true ∨ frame.message.bind accept = none) ∨
    ∃ msg, s.queue.full = false ∧ frame.message.bind accept = some msg ∧
      (s.recv accept frame).queue.queued = s.queue.queued ++ [msg] ∧
      (s.recv accept frame).accepted = s.accepted ++ [(frame,msg)] ∧
      (s.recv accept frame).handed = s.handed := by
  unfold recv
  cases hacc : frame.message.bind accept with
  | none => exact Or.inl ⟨rfl,Or.inr rfl⟩
  | some msg =>
    cases hfull : s.queue.full with
    | true =>
      left
      have hno := (Queue.full_iff s.queue).mp hfull
      refine ⟨?_,Or.inl rfl⟩
      simp only [Queue.enqueue,dif_neg hno,Bool.false_eq_true,if_false]
    | false =>
      right
      refine ⟨msg,rfl,rfl,Queue.enqueue_queued hfull msg,?_,rfl⟩
      have hyes : s.queue.items.length < 500 := by
        have hlt := mt (Queue.full_iff s.queue).mpr
        rw [hfull] at hlt
        exact not_not.mp (hlt Bool.false_ne_true)
      simp only [Queue.enqueue,dif_pos hyes,if_true]

theorem get_cases (s : Inbox) :
    s.get = s ∨
    ∃ msg rest, s.queue.queued = msg :: rest ∧ s.get.queue.queued = rest ∧ s.get.accepted = s.accepted ∧
      s.get.handed = s.handed ++ [msg.msgContent] := by
  unfold get brserverGetAppMsg
  rw [Queue.peek_eq]
  cases hq : s.queue.queued with
  | nil => exact Or.inl rfl
  | cons msg rest =>
    right
    refine ⟨msg,rest,rfl,?_,rfl,rfl⟩
    have hdeq := Queue.dequeue_queued s.queue
    rw [hq] at hdeq
    exact hdeq

/-- Handed over, then still queued: together what was accepted, in that order. -/
def InOrder (s : Inbox) : Prop :=
  s.handed ++ s.queue.queued.map (·.msgContent) = s.accepted.map (·.2.msgContent)

theorem recv_inOrder {s : Inbox} (frame : Frame) (h : s.InOrder) : (s.recv accept frame).InOrder := by
  rcases recv_cases accept s frame with ⟨heq,-⟩ | ⟨msg,-,-,hq,ha,hh⟩
  · rw [heq]
    exact h
  · unfold InOrder at h ⊢
    rw [hq,ha,hh,List.map_append,List.map_append,← List.append_assoc,h]
    rfl

theorem get_inOrder {s : Inbox} (h : s.InOrder) : s.get.InOrder := by
  rcases get_cases s with heq | ⟨msg,rest,hqueued,hq,ha,hh⟩
  · rw [heq]
    exact h
  · unfold InOrder at h ⊢
    rw [hqueued] at h
    rw [hq,ha,hh,← h]
    simp

theorem step_inOrder {s : Inbox} (t : Traffic) (h : s.InOrder) : (step accept s t).InOrder := by
  cases t with
  | tcp i f => exact recv_inOrder accept f h
  | udp f => exact recv_inOrder accept f h
  | get => exact get_inOrder h

theorem run_append (ls : List Traffic) (t : Traffic) : run accept (ls ++ [t]) = step accept (run accept ls) t := by
  simp [run]

theorem run_inOrder (ls : List Traffic) : (run accept ls).InOrder := by
  induction ls using List.reverseRecOn with
  | nil => rfl
  | append_singleton ls t ih =>
    rw [run_append]
    exact step_inOrder accept t ih

theorem recv_accepted (s : Inbox) (f frame : Frame) (msg : Message) :
    (frame,msg) ∈ (s.recv accept f).accepted ↔
    (frame,msg) ∈ s.accepted ∨ f = frame ∧ s.queue.full = false ∧ frame.message.bind accept = some msg := by
  rcases recv_cases accept s f with ⟨heq,hno⟩ | ⟨msg',hroom,hacc,-,ha,-⟩
  · rw [heq]
    constructor
    · exact Or.inl
    · rintro (h | ⟨rfl,hroom,hacc⟩)
      · exact h
      · rcases hno with hfull | hnone
        · rw [hfull] at hroom
          cases hroom
        · rw [hnone] at hacc
          cases hacc
  · rw [ha,List.mem_append,List.mem_singleton,Prod.mk.injEq]
    constructor
    · rintro (h | ⟨rfl,rfl⟩)
      · exact Or.inl h
      · exact Or.inr ⟨rfl,hroom,hacc⟩
    · rintro (h | ⟨rfl,-,hacc'⟩)
      · exact Or.inl h
      · rw [hacc] at hacc'
        cases hacc'
        exact Or.inr ⟨rfl,rfl⟩

theorem step_accepted (s : Inbox) (t : Traffic) (frame : Frame) (msg : Message) :
    (frame,msg) ∈ (step accept s t).accepted ↔
    (frame,msg) ∈ s.accepted ∨ t.frame = some frame ∧ s.queue.full = false ∧ frame.message.bind accept = some msg := by
  cases t with
  | tcp i f => simpa only [step,Traffic.frame,Option.some.injEq] using recv_accepted accept s f frame msg
  | udp f => simpa only [step,Traffic.frame,Option.some.injEq] using recv_accepted accept s f frame msg
  | get =>
    have hsame : s.get.accepted = s.accepted := by
      rcases get_cases s with heq | ⟨-,-,-,-,ha,-⟩
      · rw [heq]
      · exact ha
    simp [step,hsame,Traffic.frame]

variable {accept}

/-- The buffer of the `k`-th call is the content of the `k`-th message accepted. -/
theorem handed_eq {ls : List Traffic} {k : ℕ} {frame : Frame} {msg : Message} {buffer : Bytes}
    (haccepted : (run accept ls).accepted[k]? = some (frame,msg)) (hhanded : (run accept ls).handed[k]? = some buffer) :
    buffer = msg.msgContent := by
  have horder := run_inOrder accept ls
  have hlt : k < (run accept ls).handed.length := (List.getElem?_eq_some_iff.mp hhanded).1
  have hk := congrArg (·[k]?) horder
  simp only [List.getElem?_append_left hlt,hhanded,List.getElem?_map,haccepted,Option.map_some,Option.some.injEq] at hk
  exact hk

theorem mem_accepted_iff (ls : List Traffic) (frame : Frame) (msg : Message) :
    (frame,msg) ∈ (run accept ls).accepted ↔
    ∃ n t, ls[n]? = some t ∧ t.frame = some frame ∧ (run accept (ls.take n)).queue.full = false ∧
      frame.message.bind accept = some msg := by
  induction ls using List.reverseRecOn with
  | nil => simp [run,init]
  | append_singleton ls t ih =>
    have hold : ∀ n, n < ls.length → (ls ++ [t]).take n = ls.take n := by
      intro n hn
      exact List.take_append_of_le_length (Nat.le_of_lt hn)
    have hlast : (ls ++ [t]).take ls.length = ls := List.take_left
    rw [run_append]
    constructor
    · intro hmem
      have hcase : (frame,msg) ∈ (run accept ls).accepted ∨
          t.frame = some frame ∧ (run accept ls).queue.full = false ∧ frame.message.bind accept = some msg := by
        exact (step_accepted accept (run accept ls) t frame msg).mp hmem
      rcases hcase with hmem | ⟨hframe,hroom,hacc⟩
      · obtain ⟨n,t',hn,hframe,hroom,hacc⟩ := ih.mp hmem
        have hlt := (List.getElem?_eq_some_iff.mp hn).1
        exact ⟨n,t',by rw [List.getElem?_append_left hlt,hn],hframe,by rw [hold n hlt]; exact hroom,hacc⟩
      · exact ⟨ls.length,t,by simp,hframe,by rw [hlast]; exact hroom,hacc⟩
    · rintro ⟨n,t',hn,hframe,hroom,hacc⟩
      apply (step_accepted accept (run accept ls) t frame msg).mpr
      rcases Nat.lt_or_ge n ls.length with hlt | hge
      · left
        rw [hold n hlt] at hroom
        rw [List.getElem?_append_left hlt] at hn
        exact ih.mpr ⟨n,t',hn,hframe,hroom,hacc⟩
      · right
        obtain rfl : n = ls.length := by
          have hlt := (List.getElem?_eq_some_iff.mp hn).1
          rw [List.length_append,List.length_singleton] at hlt
          omega
        rw [List.getElem?_append_right (Nat.le_refl _),Nat.sub_self] at hn
        cases hn
        rw [hlast] at hroom
        exact ⟨hframe,hroom,hacc⟩

/-- A message that is taken out as soon as it has come leaves the queue as it was in the beginning. -/
theorem foldl_promptly (arrivals : List (ℕ × Frame)) {msgs : List Message}
    (h : List.Forall₂ (fun a msg => a.2.message.bind accept = some msg) arrivals msgs) (s : Inbox) (hs : s.queue = .init) :
    ((arrivals.flatMap fun a => [Traffic.tcp a.1 a.2,.get]).foldl (step accept) s).queue = .init ∧
    ((arrivals.flatMap fun a => [Traffic.tcp a.1 a.2,.get]).foldl (step accept) s).handed =
      s.handed ++ msgs.map (·.msgContent) := by
  induction h generalizing s with
  | nil => exact ⟨hs,(List.append_nil _).symm⟩
  | @cons a msg arrivals msgs ha _ ih =>
    obtain ⟨queue,accepted,handed⟩ := s
    obtain rfl : queue = .init := hs
    have hone : [Traffic.tcp a.1 a.2,.get].foldl (step accept) ⟨.init,accepted,handed⟩ =
        ⟨.init,accepted ++ [(a.2,msg)],handed ++ [msg.msgContent]⟩ := by
      simp only [List.foldl_cons,List.foldl_nil,step,recv,ha]
      rfl
    have hrest := ih ⟨.init,accepted ++ [(a.2,msg)],handed ++ [msg.msgContent]⟩ rfl
    rw [List.flatMap_cons,List.foldl_append,hone]
    exact ⟨hrest.1,hrest.2.trans (List.append_assoc _ _ _)⟩

theorem step_rear_le (s : Inbox) (t : Traffic) : (step accept s t).queue.rear ≤ s.queue.rear + t.frame.toList.length := by
  have hrecv : ∀ frame, (s.recv accept frame).queue.rear ≤ s.queue.rear + 1 := by
    intro frame
    unfold recv
    split
    · exact Nat.le_succ _
    · exact s.queue.rear_enqueue_le _
  cases t with
  | tcp i frame => exact hrecv frame
  | udp frame => exact hrecv frame
  | get =>
    change s.get.queue.rear ≤ s.queue.rear
    unfold get brserverGetAppMsg
    cases s.queue.peek with
    | none => exact Nat.le_refl _
    | some msg => exact s.queue.rear_dequeue_le

theorem run_rear_le (ls : List Traffic) : (run accept ls).queue.rear ≤ (ls.filterMap Traffic.frame).length := by
  induction ls using List.reverseRecOn with
  | nil => exact Nat.zero_le _
  | append_singleton ls t ih =>
    rw [run_append,List.filterMap_append,List.length_append]
    refine Nat.le_trans (step_rear_le _ t) (Nat.add_le_add ih (Nat.le_of_eq ?_))
    cases t <;> rfl

/-- The queue has room as long as fewer messages have come than it has cells. -/
theorem run_not_full {ls : List Traffic} (h : (ls.filterMap Traffic.frame).length < 500) (n : ℕ) :
    (run accept (ls.take n)).queue.full = false := by
  have hfew := ((List.take_sublist n ls).filterMap Traffic.frame).length_le
  have hrear : (run accept (ls.take n)).queue.rear ≤ ((ls.take n).filterMap Traffic.frame).length := run_rear_le _
  exact beq_eq_false_iff_ne.mpr (by omega)

end Inbox
end CoreStack.BattleRoyale
