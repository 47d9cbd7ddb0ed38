import Mathlib.Data.List.Forall2
import Mathlib.Data.List.ReduceOption
import Mathlib.Data.List.TakeWhile
import CoreStack.BattleRoyale.Fragments
import CoreStack.BattleRoyale.Payload
import CoreStack.Utils.CString

/-! # From the clients to the application of the server

Every client encrypts under its own key and sends over its own connection; one listener reads
them all and fills one queue. What the application gets of a client are contents of that client,
in the order they were sent.
-/
namespace CoreStack.BattleRoyale
open Utils

/-- A client with what it sends: each content with the initial vector, if one could be drawn. -/
structure Sender where
  client : Endpoint
  sends : List (Option Iv × Bytes)

/-- How the kernel splits the transfers of a connection, how many bytes it takes and how many have
arrived, and the receive calls so far, the first of which finds `stale` in its message. -/
structure Connection where
  sendSplits : ℕ → ℕ
  recvSplits : ℕ → ℕ
  room : ℕ
  arrived : ℕ
  calls : ℕ
  stale : Frame

def Connection.received (k : Connection) (msgs : List Frame) : List Frame :=
  (recvAll k.recvSplits k.calls ⟨(sendAll k.sendSplits msgs ⟨[],k.room,0⟩).wire.take k.arrived,0⟩ k.stale).reduceOption

def Traffic.tcp? : Traffic → Option (ℕ × Frame)
  | .tcp i frame => some (i,frame)
  | _ => none

section Connections

theorem receives_more (n m : ℕ) (stream : Bytes) (msg : Frame) : receives n stream msg <+: receives (n + m) stream msg := by
  induction n generalizing stream msg with
  | zero => exact List.nil_prefix
  | succ n ih =>
    rw [Nat.add_right_comm]
    exact List.cons_prefix_cons.mpr ⟨rfl,ih _ _⟩

theorem reduceOption_map_some (msgs : List Frame) : (msgs.map some).reduceOption = msgs := by
  change (msgs.map some).filterMap id = msgs
  rw [List.filterMap_map]
  exact List.filterMap_some

/-- Whatever the kernel does, the messages come in the order they were sent. -/
theorem Connection.received_ordered (k : Connection) (msgs : List Frame) : k.received msgs <+: msgs := by
  have hwire := sendAll_wire k.sendSplits msgs ⟨[],k.room,0⟩
  rw [List.nil_append] at hwire
  rw [Connection.received,recvAll_eq,hwire,List.take_take]
  generalize hwhole : msgs.take (((msgs.flatMap Frame.encode).take (min k.arrived k.room)).length / frameLength) = whole
  have hdelivers := delivers_whole msgs (min k.arrived k.room) k.stale k.calls
  rw [hwhole] at hdelivers
  have hprefix := receives_more k.calls whole.length ((msgs.flatMap Frame.encode).take (min k.arrived k.room)) k.stale
  rw [Nat.add_comm,hdelivers] at hprefix
  have hmessages : _ <+: (whole.map some ++ List.replicate k.calls none).reduceOption := hprefix.filterMap id
  rw [List.reduceOption_append,reduceOption_map_some,List.reduceOption_replicate_none,List.append_nil] at hmessages
  exact hmessages.trans (hwhole ▸ List.take_prefix _ _)

theorem Connection.received_all (k : Connection) {msgs : List Frame} (hroom : (msgs.flatMap Frame.encode).length ≤ k.room)
    (harrived : (msgs.flatMap Frame.encode).length ≤ k.arrived) (hcalls : msgs.length ≤ k.calls) : k.received msgs = msgs := by
  have hwire := sendAll_wire k.sendSplits msgs ⟨[],k.room,0⟩
  obtain ⟨n,hn⟩ := Nat.exists_eq_add_of_le hcalls
  rw [List.nil_append,List.take_of_length_le hroom] at hwire
  rw [Connection.received,recvAll_eq,hwire,List.take_of_length_le harrived,hn,delivers_sequence msgs,
    List.reduceOption_append,reduceOption_map_some,List.reduceOption_replicate_none,List.append_nil]

end Connections

/-! ## What the listener accepts -/

variable {cipher : Cipher} {clients : List Endpoint}

/-- Registered under an id that is its own, with contents of the size `brclient_send_msg` takes. -/
structure Sender.Enrolled (clients : List Endpoint) (s : Sender) : Prop where
  registered : getFromList clients s.client.id = some s.client
  id : s.client.id < 4294967296
  sized : ∀ m ∈ s.sends, m.2.length = maxAppPayloadLen

variable (cipher) in
def Sender.frames (s : Sender) : List Frame := s.sends.map fun m => (brclientSendMsg cipher m.1 s.client m.2).frame

theorem sourceId_brclientSendMsg (rand : Option Iv) (client : Endpoint) (content : Bytes) :
    (brclientSendMsg cipher rand client content).frame.sourceId = UInt32.ofNat client.id := by
  have hsource : (brclientSendMsg cipher rand client content).sourceId = client.id := by
    rw [brclientSendMsg]
    cases h : encryptMessage cipher rand (Message.blank client.id .appEnc) client.sesskey content with
    | none => rfl
    | some out => exact (encryptMessage_eq_some.mp h).2.choose_spec.2.1
  exact congrArg UInt32.ofNat hsource

/-- A message that could not be encrypted is dropped. -/
theorem acceptMessage_blank {client : Endpoint} (hid : client.id < 4294967296) (content : Bytes) :
    (brclientSendMsg cipher none client content).frame.message.bind (acceptMessage cipher.toOpenSSL clients) = none := by
  have hencrypt : encryptMessage cipher none (Message.blank client.id .appEnc) client.sesskey content = none := by
    refine Option.eq_none_iff_forall_ne_some.mpr fun out hout => ?_
    obtain ⟨-,token,htoken,-⟩ := encryptMessage_eq_some.mp hout
    cases htoken
  have hmade : brclientSendMsg cipher none client content = Message.blank client.id .appEnc := by
    simp only [brclientSendMsg,hencrypt,Option.getD_none]
  have hmessage : (Message.blank client.id .appEnc).frame.message = some (Message.blank client.id .appEnc) :=
    Message.message_frame hid (Nat.zero_lt_succ _)
  rw [hmade,hmessage,Option.bind_some]
  refine Option.eq_none_iff_forall_ne_some.mpr fun msg hmsg => ?_
  rcases acceptMessage_cases hmsg with ⟨htype,-⟩ | ⟨sender,plain,hplain,-⟩
  · cases htype
  · have hshort : decryptMessage cipher.toOpenSSL (Message.blank client.id .appEnc) sender.sesskey = none := rfl
    rw [hshort] at hplain
    cases hplain

theorem take_copyInto {token content : Bytes} {n : ℕ} (h : content.length = n) : (copyInto token content).take n = content := by
  subst h
  exact List.take_left

theorem Sender.Enrolled.content (hideal : cipher.Ideal) {s : Sender} (hs : s.Enrolled clients) {m : Option Iv × Bytes}
    (hm : m ∈ s.sends) {msg : Message}
    (h : (brclientSendMsg cipher m.1 s.client m.2).frame.message.bind (acceptMessage cipher.toOpenSSL clients) = some msg) :
    msg.msgContent.take maxAppPayloadLen = m.2 := by
  obtain ⟨rand,content⟩ := m
  have hlen := hs.sized _ hm
  dsimp only at h hlen ⊢
  cases rand with
  | none =>
    rw [acceptMessage_blank hs.id] at h
    cases h
  | some iv =>
    obtain ⟨ct,tag,opened,-,-,hopened,hcontent⟩ := acceptMessage_payload hideal iv hlen hs.registered hs.id
    rw [h] at hopened
    cases hopened
    rw [hcontent]
    exact take_copyInto hlen

/-- The listener has read these connections, in any order, one message at a time. What comes by UDP
is none of its clients'. -/
structure Served (cipher : Cipher) (clients : List Endpoint) (senders : List Sender) (connections : ℕ → Connection)
    (ls : List Traffic) : Prop where
  listed : ∀ a ∈ ls.filterMap Traffic.tcp?, a.1 < senders.length
  read : ∀ j s, senders[j]? = some s →
    ((ls.filterMap Traffic.tcp?).filterMap fun a => if a.1 = j then some a.2 else none) <+:
      (connections j).received (s.frames cipher)
  udp : ∀ frame, .udp frame ∈ ls → frame.message.bind (acceptMessage cipher.toOpenSSL clients) = none

theorem Inbox.accepted_sublist {accept : Message → Option Message} {ls : List Traffic}
    (hudp : ∀ frame, .udp frame ∈ ls → frame.message.bind accept = none) :
    ((run accept ls).accepted.map Prod.fst).Sublist ((ls.filterMap Traffic.tcp?).map Prod.snd) := by
  induction ls using List.reverseRecOn with
  | nil => exact .refl _
  | append_singleton ls t ih =>
    have ih := ih fun frame hmem => hudp frame (List.mem_append_left _ hmem)
    rw [run_append,List.filterMap_append,List.map_append]
    cases t with
    | get =>
      have hsame : (run accept ls).get.accepted = (run accept ls).accepted := by
        rcases get_cases (run accept ls) with heq | ⟨-,-,-,-,ha,-⟩
        · rw [heq]
        · exact ha
      rw [step,hsame]
      exact ih.trans (List.sublist_append_left _ _)
    | udp frame =>
      have hnone := hudp frame (List.mem_append_right _ List.mem_cons_self)
      rw [step,recv,hnone]
      exact ih.trans (List.sublist_append_left _ _)
    | tcp i frame =>
      rcases recv_cases accept (run accept ls) frame with ⟨heq,-⟩ | ⟨msg,-,-,-,ha,-⟩
      · rw [step,heq]
        exact ih.trans (List.sublist_append_left _ _)
      · rw [step,ha,List.map_append]
        exact ih.append (.refl _)

/-- With room in the queue everything the listener opens is kept. -/
theorem Inbox.accepted_all {accept : Message → Option Message} {ls : List Traffic}
    (hroom : ∀ n, (run accept (ls.take n)).queue.full = false)
    (hudp : ∀ frame, .udp frame ∈ ls → frame.message.bind accept = none)
    (hopens : ∀ a ∈ ls.filterMap Traffic.tcp?, ∃ msg, a.2.message.bind accept = some msg) :
    (run accept ls).accepted.length = (ls.filterMap Traffic.tcp?).length := by
  induction ls using List.reverseRecOn with
  | nil => rfl
  | append_singleton ls t ih =>
    rw [List.filterMap_append] at hopens
    obtain ⟨hbefore,hlast⟩ := List.forall_mem_append.mp hopens
    have ih := ih (fun n => ?_) (fun frame hmem => hudp frame (List.mem_append_left _ hmem)) hbefore
    · rw [run_append,List.filterMap_append,List.length_append,← ih]
      cases t with
      | get =>
        rcases get_cases (run accept ls) with heq | ⟨-,-,-,-,ha,-⟩
        · rw [step,heq]
          rfl
        · rw [step,ha]
          rfl
      | udp frame =>
        rw [step,recv,hudp frame (List.mem_append_right _ List.mem_cons_self)]
        rfl
      | tcp i frame =>
        obtain ⟨msg,hmsg⟩ := hlast (i,frame) List.mem_cons_self
        have hfree := hroom ls.length
        rw [List.take_left] at hfree
        rcases recv_cases accept (run accept ls) frame with ⟨-,hfull | hnone⟩ | ⟨_,-,-,-,ha,-⟩
        · rw [hfree] at hfull
          cases hfull
        · rw [hmsg] at hnone
          cases hnone
        · rw [step,ha,List.length_append]
          rfl
    · rcases Nat.le_total n ls.length with hle | hge
      · have h := hroom n
        rwa [List.take_append_of_le_length hle] at h
      · have h := hroom ls.length
        rwa [List.take_left,← List.take_of_length_le hge] at h

section Senders
variable {senders : List Sender} {connections : ℕ → Connection} {ls : List Traffic}

theorem Served.mem_frames (h : Served cipher clients senders connections ls) {a : ℕ × Frame}
    (ha : a ∈ ls.filterMap Traffic.tcp?) : ∃ s, senders[a.1]? = some s ∧ a.2 ∈ s.frames cipher := by
  have hs := List.getElem?_eq_getElem (h.listed a ha)
  refine ⟨_,hs,((connections a.1).received_ordered _).subset ((h.read a.1 _ hs).subset ?_)⟩
  exact List.mem_filterMap.mpr ⟨a,ha,if_pos rfl⟩

theorem Sender.sourceId_of_mem {s : Sender} {frame : Frame} (h : frame ∈ s.frames cipher) :
    frame.sourceId = UInt32.ofNat s.client.id := by
  obtain ⟨m,-,rfl⟩ := List.mem_map.mp h
  exact sourceId_brclientSendMsg m.1 s.client m.2

theorem Served.sourceId (h : Served cipher clients senders connections ls) (henrolled : ∀ s ∈ senders, s.Enrolled clients)
    (hids : (senders.map (·.client.id)).Nodup) {a : ℕ × Frame} (ha : a ∈ ls.filterMap Traffic.tcp?) {j : ℕ} {s : Sender}
    (hs : senders[j]? = some s) : a.2.sourceId.toNat = s.client.id ↔ a.1 = j := by
  obtain ⟨u,hu,hmem⟩ := h.mem_frames ha
  have hid := (henrolled u (List.mem_of_getElem? hu)).id
  rw [Sender.sourceId_of_mem hmem,UInt32.toNat_ofNat',Nat.mod_eq_of_lt hid]
  constructor
  · intro hsame
    have hget : (senders.map (·.client.id))[a.1]? = (senders.map (·.client.id))[j]? := by
      rw [List.getElem?_map,List.getElem?_map,hu,hs,Option.map_some,Option.map_some,hsame]
    have hlt : a.1 < (senders.map (·.client.id)).length := by
      rw [List.length_map]
      exact h.listed a ha
    exact (List.getElem?_inj hlt hids).mp hget
  · rintro rfl
    rw [hu] at hs
    cases hs
    rfl

theorem Served.accepted (h : Served cipher clients senders connections ls) (henrolled : ∀ s ∈ senders, s.Enrolled clients)
    (hids : (senders.map (·.client.id)).Nodup) {j : ℕ} {s : Sender} (hs : senders[j]? = some s) :
    (((Inbox.run (acceptMessage cipher.toOpenSSL clients) ls).accepted.map Prod.fst).filter fun frame =>
      frame.sourceId.toNat = s.client.id).Sublist (s.frames cipher) := by
  have hall := (Inbox.accepted_sublist h.udp).filter fun frame => frame.sourceId.toNat = s.client.id
  have hmine : (((ls.filterMap Traffic.tcp?).map Prod.snd).filter fun frame => frame.sourceId.toNat = s.client.id) =
      (ls.filterMap Traffic.tcp?).filterMap fun a => if a.1 = j then some a.2 else none := by
    rw [← List.filterMap_eq_filter,List.filterMap_map]
    refine List.filterMap_congr fun a ha => ?_
    have hiff := h.sourceId henrolled hids ha hs
    by_cases hj : a.1 = j
    · rw [if_pos hj]
      exact (Option.guard_eq_some_iff).mpr ⟨rfl,by simpa using hiff.mpr hj⟩
    · rw [if_neg hj]
      exact Option.guard_eq_none_iff.mpr (by simpa using mt hiff.mp hj)
  rw [hmine] at hall
  exact hall.trans ((h.read j s hs).sublist.trans ((connections j).received_ordered _).sublist)

theorem cString_of_take {buffer content : Bytes} {n : ℕ} (h : buffer.take n = content) (hzero : 0 ∈ content) :
    cString buffer = cString content := by
  subst h
  have hmem : (0 : UInt8) ∈ buffer := List.mem_of_mem_take hzero
  have htake : (buffer.take n).takeWhile (· != 0) = buffer.takeWhile (· != 0) := by
    conv_rhs => rw [← List.take_append_drop n buffer]
    rw [List.takeWhile_append,if_neg]
    intro hlen
    have hall := List.takeWhile_eq_self_iff.mp ((List.takeWhile_prefix (· != 0)).eq_of_length hlen) 0 hzero
    exact absurd hall (by decide)
  rw [cString,cString,if_pos hmem,if_pos hzero,htake]

/-- Whose contents stand in these buffers, by the ids of the clients: of each client some of what it
sent, in that order. The string in a content is the one in its buffer. -/
structure Carries (senders : List Sender) (buffers : List Bytes) (got : List (ℕ × Bytes)) : Prop where
  whole : List.Forall₂ (fun buffer g => buffer.take maxAppPayloadLen = g.2 ∧ (0 ∈ g.2 → cString buffer = cString g.2))
    buffers got
  known : ∀ g ∈ got, ∃ s ∈ senders, s.client.id = g.1
  ordered : ∀ s ∈ senders,
    (got.filterMap fun g => if g.1 = s.client.id then some g.2 else none).Sublist (s.sends.map (·.2))

theorem Carries.left {buffers later : List Bytes} {got : List (ℕ × Bytes)} (h : Carries senders (buffers ++ later) got) :
    Carries senders buffers (got.take buffers.length) := by
  refine ⟨?_,fun g hg => h.known g (List.mem_of_mem_take hg),fun s hs => ?_⟩
  · have htake := List.forall₂_take buffers.length h.whole
    rwa [List.take_left] at htake
  · exact ((List.take_sublist _ _).filterMap _).trans (h.ordered s hs)

theorem Served.carries (h : Served cipher clients senders connections ls) (hideal : cipher.Ideal)
    (henrolled : ∀ s ∈ senders, s.Enrolled clients) (hids : (senders.map (·.client.id)).Nodup) :
    ∃ got, Carries senders ((Inbox.run (acceptMessage cipher.toOpenSSL clients) ls).handed ++
        (Inbox.run (acceptMessage cipher.toOpenSSL clients) ls).queue.queued.map (·.msgContent)) got ∧
      got.length = (Inbox.run (acceptMessage cipher.toOpenSSL clients) ls).accepted.length := by
  have horder := Inbox.run_inOrder (acceptMessage cipher.toOpenSSL clients) ls
  unfold Inbox.InOrder at horder
  generalize hinbox : Inbox.run (acceptMessage cipher.toOpenSSL clients) ls = inbox at horder ⊢
  -- each accepted message is one its client sent
  have hsent : ∀ a ∈ inbox.accepted, ∃ s ∈ senders, s.client.id = a.1.sourceId.toNat ∧ a.1 ∈ s.frames cipher := by
    intro a ha
    have hmem := (Inbox.accepted_sublist h.udp).subset (List.mem_map.mpr ⟨a,hinbox ▸ ha,rfl⟩)
    obtain ⟨b,hb,hba⟩ := List.mem_map.mp hmem
    obtain ⟨s,hs,hframe⟩ := h.mem_frames hb
    refine ⟨s,List.mem_of_getElem? hs,?_,hba ▸ hframe⟩
    rw [← hba]
    exact ((h.sourceId henrolled hids hb hs).mpr rfl).symm
  refine ⟨inbox.accepted.map fun a => (a.1.sourceId.toNat,a.2.msgContent.take maxAppPayloadLen),⟨?_,?_,?_⟩,List.length_map _⟩
  · rw [horder,List.forall₂_map_left_iff,List.forall₂_map_right_iff,List.forall₂_same]
    exact fun a _ => ⟨rfl,cString_of_take rfl⟩
  · intro g hg
    obtain ⟨a,ha,rfl⟩ := List.mem_map.mp hg
    obtain ⟨s,hs,hid,-⟩ := hsent a ha
    exact ⟨s,hs,hid⟩
  · intro s hs
    obtain ⟨j,hj⟩ := List.getElem?_of_mem hs
    have hsub := h.accepted henrolled hids hj
    rw [hinbox,Sender.frames] at hsub
    obtain ⟨kept,hkept,hframes⟩ := List.sublist_map_iff.mp hsub
    have hpairs : List.Forall₂ (fun (a : Frame × Message) m => a.1 = (brclientSendMsg cipher m.1 s.client m.2).frame)
        (inbox.accepted.filter fun a => a.1.sourceId.toNat = s.client.id) kept := by
      have hsame : List.Forall₂ Eq ((inbox.accepted.filter fun a => a.1.sourceId.toNat = s.client.id).map Prod.fst)
          (kept.map fun m => (brclientSendMsg cipher m.1 s.client m.2).frame) := by
        rw [List.forall₂_eq_eq_eq,← hframes,List.filter_map]
        rfl
      exact List.forall₂_map_right_iff.mp (List.forall₂_map_left_iff.mp hsame)
    have hcontents : ((inbox.accepted.filter fun a => a.1.sourceId.toNat = s.client.id).map fun a =>
        a.2.msgContent.take maxAppPayloadLen) = kept.map (·.2) := by
      rw [← List.forall₂_eq_eq_eq,List.forall₂_map_left_iff,List.forall₂_map_right_iff]
      refine (List.forall₂_iff_zip.mpr ⟨hpairs.length_eq,fun {a m} hmem => ?_⟩)
      have hframe := (List.forall₂_iff_zip.mp hpairs).2 hmem
      obtain ⟨ha,hm⟩ := List.of_mem_zip hmem
      have hopens := (Inbox.mem_accepted_iff ls a.1 a.2).mp (hinbox ▸ (List.mem_filter.mp ha).1)
      obtain ⟨-,-,-,-,-,hopens⟩ := hopens
      rw [hframe] at hopens
      exact (henrolled s hs).content hideal (hkept.subset hm) hopens
    have hmine : (inbox.accepted.map fun a => (a.1.sourceId.toNat,a.2.msgContent.take maxAppPayloadLen)).filterMap
        (fun g => if g.1 = s.client.id then some g.2 else none) = kept.map (·.2) := by
      rw [← hcontents,List.filterMap_map,← List.filterMap_eq_map,← List.filterMap_eq_filter,List.filterMap_filterMap]
      refine List.filterMap_congr fun a _ => ?_
      by_cases hid : a.1.sourceId.toNat = s.client.id
      · simp [hid]
      · simp [hid,Option.guard]
    rw [hmine]
    exact hkept.map _

theorem Served.accepted_all (h : Served cipher clients senders connections ls) (hideal : cipher.Ideal)
    (henrolled : ∀ s ∈ senders, s.Enrolled clients)
    (hroom : ∀ n, (Inbox.run (acceptMessage cipher.toOpenSSL clients) (ls.take n)).queue.full = false)
    (hrand : ∀ s ∈ senders, ∀ m ∈ s.sends, m.1 ≠ none) :
    (Inbox.run (acceptMessage cipher.toOpenSSL clients) ls).accepted.length = (ls.filterMap Traffic.tcp?).length := by
  refine Inbox.accepted_all hroom h.udp fun a ha => ?_
  obtain ⟨s,hs,hframe⟩ := h.mem_frames ha
  have hs := List.mem_of_getElem? hs
  obtain ⟨⟨rand,content⟩,hm,hframe⟩ := List.mem_map.mp hframe
  obtain ⟨iv,rfl⟩ := Option.ne_none_iff_exists'.mp (hrand s hs _ hm)
  have henrolled := henrolled s hs
  obtain ⟨-,-,msg,-,-,hopens,-⟩ := acceptMessage_payload hideal iv (henrolled.sized _ hm) henrolled.registered henrolled.id
  exact ⟨msg,hframe ▸ hopens⟩

/-- What the application has got and will get from the queue are contents of the clients: of each
client some of what it sent, in that order, whatever the kernel splits and in whichever order
the connections are read. A string in a content is the string the application reads. While
the queue has room and initial vectors can be drawn, nothing that was read is lost. -/
theorem uplink_in_order (hideal : cipher.Ideal) (henrolled : ∀ s ∈ senders, s.Enrolled clients)
    (hids : (senders.map (·.client.id)).Nodup) (h : Served cipher clients senders connections ls) :
    ∃ got, Carries senders ((Inbox.run (acceptMessage cipher.toOpenSSL clients) ls).handed ++
        (Inbox.run (acceptMessage cipher.toOpenSSL clients) ls).queue.queued.map (·.msgContent)) got ∧
      ((∀ n, (Inbox.run (acceptMessage cipher.toOpenSSL clients) (ls.take n)).queue.full = false) →
        (∀ s ∈ senders, ∀ m ∈ s.sends, m.1 ≠ none) → got.length = (ls.filterMap Traffic.tcp?).length) := by
  obtain ⟨got,hgot,hlength⟩ := h.carries hideal henrolled hids
  exact ⟨got,hgot,fun hroom hrand => hlength.trans (h.accepted_all hideal henrolled hroom hrand)⟩

end Senders

/-- A connection that brings `n` messages byte by byte. -/
def Connection.lasting (n : ℕ) (stale : Frame) : Connection :=
  ⟨fun _ => 0,fun _ => 0,frameLength * n,frameLength * n,n,stale⟩

theorem Connection.received_lasting {n : ℕ} (stale : Frame) {msgs : List Frame} (h : msgs.length ≤ n) :
    (lasting n stale).received msgs = msgs := by
  have hlength : (msgs.flatMap Frame.encode).length ≤ frameLength * n := by
    rw [length_encodes]
    exact Nat.mul_le_mul_left _ h
  exact (lasting n stale).received_all hlength hlength h

/-- Connections that last, read by nobody else. -/
theorem Served.of_lasting {cipher : Cipher} {clients : List Endpoint} {senders : List Sender} {arrivals : List (ℕ × Frame)}
    (stale : Frame) {n : ℕ} (hlisted : ∀ a ∈ arrivals, a.1 < senders.length)
    (hread : ∀ j s, senders[j]? = some s →
      (arrivals.filterMap fun a => if a.1 = j then some a.2 else none) <+: s.frames cipher)
    (hfew : ∀ s ∈ senders, s.sends.length ≤ n) :
    Served cipher clients senders (fun _ => .lasting n stale) (arrivals.flatMap fun a => [Traffic.tcp a.1 a.2,.get]) := by
  have htcp : (arrivals.flatMap fun a => [Traffic.tcp a.1 a.2,.get]).filterMap Traffic.tcp? = arrivals := by
    rw [List.filterMap_flatMap]
    exact List.flatMap_singleton' arrivals
  refine ⟨?_,?_,?_⟩
  · rwa [htcp]
  · intro j s hs
    have hlength : (s.frames cipher).length ≤ n := by
      rw [Sender.frames,List.length_map]
      exact hfew s (List.mem_of_getElem? hs)
    rw [htcp,Connection.received_lasting stale hlength]
    exact hread j s hs
  · intro frame hmem
    obtain ⟨a,-,ha⟩ := List.mem_flatMap.mp hmem
    simp at ha

/-- Two of them. -/
theorem Served.of_two {cipher : Cipher} {clients : List Endpoint} {first second : Sender} {arrivals : List (ℕ × Frame)}
    (stale : Frame) {n : ℕ} (hlisted : ∀ a ∈ arrivals, a.1 < 2)
    (hfirst : (arrivals.filterMap fun a => if a.1 = 0 then some a.2 else none) <+: first.frames cipher)
    (hsecond : (arrivals.filterMap fun a => if a.1 = 1 then some a.2 else none) <+: second.frames cipher)
    (hfew : first.sends.length ≤ n ∧ second.sends.length ≤ n) :
    Served cipher clients [first,second] (fun _ => .lasting n stale)
      (arrivals.flatMap fun a => [Traffic.tcp a.1 a.2,.get]) := by
  refine .of_lasting stale hlisted (fun j s hs => ?_) (List.forall_mem_cons.mpr ⟨hfew.1,List.forall_mem_singleton.mpr hfew.2⟩)
  rcases j with _ | _ | j
  · cases hs
    exact hfirst
  · cases hs
    exact hsecond
  · cases hs

def letters (letter : UInt8) : Option Iv × Bytes := (some lettersVector.iv,List.replicate maxAppPayloadLen letter)

def firstSender : Sender := ⟨lettersVector.client,[letters 65,letters 67]⟩

def secondSender : Sender := ⟨⟨2,lettersVector.key.reverse⟩,[letters 66]⟩

def Sender.frame (s : Sender) (letter : UInt8) : Frame :=
  (brclientSendMsg lettersVector.cipher (letters letter).1 s.client (letters letter).2).frame

def lettersRead : List (ℕ × Frame) := [(0,firstSender.frame 65),(1,secondSender.frame 66),(0,firstSender.frame 67)]

/-- Two messages of one client with one of another between them, sent and received byte by byte. -/
theorem uplink_in_order_letters :
    ∃ got, Carries [firstSender,secondSender] ((Inbox.run
          (acceptMessage lettersVector.cipher.toOpenSSL [firstSender.client,secondSender.client])
          (lettersRead.flatMap fun a => [Traffic.tcp a.1 a.2,.get])).handed ++
        (Inbox.run (acceptMessage lettersVector.cipher.toOpenSSL [firstSender.client,secondSender.client])
          (lettersRead.flatMap fun a => [Traffic.tcp a.1 a.2,.get])).queue.queued.map (·.msgContent)) got ∧
      got.length = 3 := by
  have hserved : Served lettersVector.cipher [firstSender.client,secondSender.client] [firstSender,secondSender]
      (fun _ => .lasting 2 (firstSender.frame 65)) (lettersRead.flatMap fun a => [Traffic.tcp a.1 a.2,.get]) :=
    .of_two _ (by simp [lettersRead]) List.prefix_rfl List.prefix_rfl ⟨Nat.le_refl 2,Nat.le_succ 1⟩
  have henrolled : ∀ s ∈ [firstSender,secondSender], s.Enrolled [firstSender.client,secondSender.client] := by
    have hsized : ∀ letter, (letters letter).2.length = maxAppPayloadLen := fun _ => List.length_replicate
    refine List.forall_mem_cons.mpr ⟨⟨rfl,by decide,?_⟩,List.forall_mem_singleton.mpr ⟨rfl,by decide,?_⟩⟩
    · simp [firstSender,hsized]
    · simp [secondSender,hsized]
  obtain ⟨got,hgot,hall⟩ := uplink_in_order lettersVector.ideal henrolled (by decide) hserved
  refine ⟨got,hgot,(hall (Inbox.run_not_full (by decide)) ?_).trans rfl⟩
  have hdrawn : ∀ letter, (letters letter).1 ≠ none := fun _ => Option.some_ne_none _
  exact List.forall_mem_cons.mpr ⟨List.forall_mem_cons.mpr ⟨hdrawn 65,List.forall_mem_singleton.mpr (hdrawn 67)⟩,
    List.forall_mem_singleton.mpr (List.forall_mem_singleton.mpr (hdrawn 66))⟩

end CoreStack.BattleRoyale
