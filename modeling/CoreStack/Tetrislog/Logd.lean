import CoreStack.Tetrislog.LogClient
import Mathlib.Algebra.BigOperators.Group.Finset.Basic
import Mathlib.Algebra.BigOperators.Intervals
import Mathlib.Data.Int.ModEq

/-! # Gap tracking of `tetrislogd` (`tetrislogd/main.c`)

`memory` is what the cells of `trackers` held before `main` used them.
-/
namespace CoreStack.Tetrislog
open BattleRoyale

def maxTrackedSenders : ℕ := 32

structure SenderTracker where
  pid : UInt32
  lastSeq : UInt32
  seen : Bool
  deriving DecidableEq

section Daemon
variable (memory : ℕ → UInt32)

/-- The cells in use, and the index of the sender's cell if there is one. -/
def findTracker (trackers : List SenderTracker) (pid : UInt32) : List SenderTracker × Option ℕ :=
  match trackers.findIdx? (·.pid == pid) with
  | some i => (trackers,some i)
  | none =>
    if trackers.length < maxTrackedSenders then
      (trackers ++ [⟨pid,memory trackers.length,false⟩],some trackers.length)
    else (trackers,none)

structure Logd where
  trackers : List SenderTracker
  channelDroppedTotal : UInt32
  channelDroppedPeriod : UInt32

def Logd.init : Logd := ⟨[],0,0⟩

/-- What a record adds to the counters. -/
def SenderTracker.gap (t : SenderTracker) (seq : UInt32) : UInt32 :=
  if t.seen ∧ seq ≠ t.lastSeq + 1 ∧ t.lastSeq < seq then seq - t.lastSeq - 1 else 0

def Logd.track (d : Logd) (record : LogRecord) : Logd :=
  match findTracker memory d.trackers record.pid with
  | (trackers,none) => { d with trackers := trackers }
  | (trackers,some i) =>
    match trackers[i]? with
    | none => { d with trackers := trackers }
    | some t =>
      { trackers := trackers.set i { t with lastSeq := record.seq, seen := true }
        channelDroppedTotal := d.channelDroppedTotal + t.gap record.seq
        channelDroppedPeriod := d.channelDroppedPeriod + t.gap record.seq }

inductive LogdEvent
  | datagram (bytes : Bytes)
  | summary

/-- `recvfrom` into a buffer of `LOG_WIRE_SIZE` bytes; only a full one is looked at. -/
def LogdEvent.received : LogdEvent → Option WireBuffer
  | .datagram bytes =>
    if h : (bytes.take logWireSize).length = logWireSize then some ⟨bytes.take logWireSize,h⟩ else none
  | .summary => none

def Logd.event (d : Logd) (e : LogdEvent) : Logd :=
  match e with
  | .datagram bytes =>
    match (LogdEvent.datagram bytes).received with
    | some buffer => d.track memory (unpackLogRecord buffer)
    | none => d
  | .summary => { d with channelDroppedPeriod := 0 }

def Logd.run (d : Logd) (events : List LogdEvent) : Logd := events.foldl (Logd.event memory) d

/-! ## The numbers of one process -/

/-- The sequence numbers that arrive from one process, in order. -/
def seqs (records : List LogRecord) (pid : UInt32) : List UInt32 :=
  (records.filter (·.pid == pid)).map (·.seq)

/-- Last minus first plus one minus how many there are. -/
def missing (seqs : List UInt32) : ℤ :=
  match seqs.head?, seqs.getLast? with
  | some first, some last => last.toNat - first.toNat + 1 - seqs.length
  | _, _ => 0

def processes (records : List LogRecord) : Finset UInt32 := (records.map (·.pid)).toFinset

/-- Each process's records arrive in increasing order, at most 32 processes send. -/
structure Orderly (records : List LogRecord) : Prop where
  few : (processes records).card ≤ maxTrackedSenders
  increasing : ∀ pid, ((seqs records pid).map UInt32.toNat).Pairwise (· < ·)

theorem seqs_concat_self (records : List LogRecord) (r : LogRecord) :
    seqs (records ++ [r]) r.pid = seqs records r.pid ++ [r.seq] := by
  simp [seqs]

theorem seqs_concat_other {records : List LogRecord} {r : LogRecord} {pid : UInt32} (h : r.pid ≠ pid) :
    seqs (records ++ [r]) pid = seqs records pid := by
  simp [seqs,h]

theorem seqs_eq_nil {records : List LogRecord} {pid : UInt32} (h : pid ∉ processes records) :
    seqs records pid = [] := by
  rw [processes,List.mem_toFinset,List.mem_map] at h
  rw [seqs,List.map_eq_nil_iff,List.filter_eq_nil_iff]
  intro r hr hpid
  exact h ⟨r,hr,by simpa using hpid⟩

theorem missing_singleton (s : UInt32) : missing [s] = 0 := by
  simp [missing]

/-- A later number adds what lies between it and the last one. -/
theorem missing_concat {l : List UInt32} {last : UInt32} (h : l.getLast? = some last) (s : UInt32) :
    missing (l ++ [s]) = missing l + (s.toNat - last.toNat - 1) := by
  cases l with
  | nil => cases h
  | cons first l =>
    unfold missing
    rw [h,List.getLast?_concat,List.cons_append,List.head?_cons,List.head?_cons]
    simp only [List.length_cons,List.length_append,List.length_nil]
    omega

theorem processes_concat (records : List LogRecord) (r : LogRecord) :
    processes (records ++ [r]) = insert r.pid (processes records) := by
  simp only [processes,List.map_append,List.toFinset_append,List.map_cons,List.map_nil]
  rw [Finset.union_comm]
  rfl

theorem orderly_init {records : List LogRecord} {r : LogRecord} (h : Orderly (records ++ [r])) : Orderly records := by
  constructor
  · refine le_trans (Finset.card_le_card ?_) h.few
    rw [processes_concat]
    exact Finset.subset_insert _ _
  · intro pid
    refine (h.increasing pid).sublist (List.Sublist.map _ ?_)
    exact ((List.sublist_append_left records [r]).filter _).map _

theorem last_lt {records : List LogRecord} {r : LogRecord} (h : Orderly (records ++ [r])) {last : UInt32}
    (hlast : (seqs records r.pid).getLast? = some last) : last.toNat < r.seq.toNat := by
  have hinc := h.increasing r.pid
  rw [seqs_concat_self,List.map_append,List.pairwise_append] at hinc
  exact hinc.2.2 _ (List.mem_map_of_mem (List.mem_of_getLast? hlast)) _ (by simp)

/-! ## The table -/

theorem findTracker_known {pre post : List SenderTracker} {t : SenderTracker} {pid : UInt32} (ht : t.pid = pid)
    (hpre : pid ∉ pre.map (·.pid)) :
    findTracker memory (pre ++ t :: post) pid = (pre ++ t :: post,some pre.length) := by
  have hnone : pre.findIdx? (·.pid == pid) = none := by
    rw [List.findIdx?_eq_none_iff]
    intro u hu
    rw [beq_eq_false_iff_ne]
    rintro rfl
    exact hpre (List.mem_map_of_mem hu)
  have hfind : (pre ++ t :: post).findIdx? (·.pid == pid) = some pre.length := by
    rw [List.findIdx?_append,hnone,List.findIdx?_cons]
    simp [ht]
  rw [findTracker,hfind]

theorem track_known {d : Logd} {pre post : List SenderTracker} {t : SenderTracker} {r : LogRecord}
    (hd : d.trackers = pre ++ t :: post) (ht : t.pid = r.pid) (hpre : r.pid ∉ pre.map (·.pid)) :
    d.track memory r =
      ⟨pre ++ ⟨r.pid,r.seq,true⟩ :: post,d.channelDroppedTotal + t.gap r.seq,d.channelDroppedPeriod + t.gap r.seq⟩ := by
  unfold Logd.track
  rw [hd,findTracker_known memory ht hpre]
  dsimp only
  rw [List.getElem?_append_right (Nat.le_refl _),Nat.sub_self,List.getElem?_cons_zero]
  simp [ht]

theorem track_new {d : Logd} {r : LogRecord} (hnew : r.pid ∉ d.trackers.map (·.pid))
    (hroom : d.trackers.length < maxTrackedSenders) :
    d.track memory r = ⟨d.trackers ++ [⟨r.pid,r.seq,true⟩],d.channelDroppedTotal,d.channelDroppedPeriod⟩ := by
  have hnone : d.trackers.findIdx? (·.pid == r.pid) = none := by
    rw [List.findIdx?_eq_none_iff]
    intro u hu
    rw [beq_eq_false_iff_ne]
    intro h
    exact hnew (h ▸ List.mem_map_of_mem hu)
  unfold Logd.track
  rw [findTracker,hnone]
  dsimp only
  rw [if_pos hroom]
  dsimp only
  rw [List.getElem?_append_right (Nat.le_refl _),Nat.sub_self,List.getElem?_cons_zero]
  simp [SenderTracker.gap]

/-- What the daemon knows after the records `records`. -/
structure Tracked (d : Logd) (records : List LogRecord) : Prop where
  nodup : (d.trackers.map (·.pid)).Nodup
  pids : ∀ pid, pid ∈ d.trackers.map (·.pid) ↔ pid ∈ processes records
  last : ∀ t ∈ d.trackers, t.seen = true ∧ (seqs records t.pid).getLast? = some t.lastSeq
  total : (d.channelDroppedTotal.toNat : ℤ) ≡ ∑ pid ∈ processes records, missing (seqs records pid) [ZMOD 4294967296]

theorem init_tracked : Tracked Logd.init [] := by
  constructor
  · exact List.nodup_nil
  · exact fun _ => by simp [Logd.init,processes]
  · exact fun t ht => absurd ht List.not_mem_nil
  · rfl

theorem gap_eq {t : SenderTracker} {s : UInt32} (hseen : t.seen = true) (h : t.lastSeq.toNat < s.toNat) :
    ((t.gap s).toNat : ℤ) = s.toNat - t.lastSeq.toNat - 1 := by
  have hlt : t.lastSeq < s := UInt32.lt_iff_toNat_lt.mpr h
  have hs := s.toNat_lt
  unfold SenderTracker.gap
  by_cases hsucc : s = t.lastSeq + 1
  · rw [if_neg (by simp [hsucc])]
    have hnat : s.toNat = t.lastSeq.toNat + 1 := by
      have hadd := congrArg UInt32.toNat hsucc
      rw [UInt32.toNat_add] at hadd
      have hone : (1 : UInt32).toNat = 1 := rfl
      omega
    rw [hnat]
    simp
  · rw [if_pos ⟨hseen,hsucc,hlt⟩]
    have hle : t.lastSeq ≤ s := UInt32.le_iff_toNat_le.mpr h.le
    have hsub : (s - t.lastSeq).toNat = s.toNat - t.lastSeq.toNat := UInt32.toNat_sub_of_le _ _ hle
    have hone : 1 ≤ s - t.lastSeq := by
      rw [UInt32.le_iff_toNat_le,hsub]
      exact Nat.sub_pos_of_lt h
    rw [UInt32.toNat_sub_of_le _ _ hone,hsub]
    have h1 : (1 : UInt32).toNat = 1 := rfl
    omega

theorem toNat_add_modEq {a b : UInt32} {x y : ℤ} (ha : (a.toNat : ℤ) ≡ x [ZMOD 4294967296])
    (hb : (b.toNat : ℤ) = y) : ((a + b).toNat : ℤ) ≡ x + y [ZMOD 4294967296] := by
  rw [UInt32.toNat_add]
  push_cast
  refine (Int.mod_modEq _ _).trans ?_
  rw [hb]
  exact ha.add_right y

theorem track_known_tracked {d : Logd} {records : List LogRecord} {r : LogRecord} (h : Tracked d records)
    (hord : Orderly (records ++ [r])) (hknown : r.pid ∈ d.trackers.map (·.pid)) :
    Tracked (d.track memory r) (records ++ [r]) := by
  obtain ⟨t,ht,hpid⟩ := List.mem_map.mp hknown
  obtain ⟨pre,post,hd⟩ := List.append_of_mem ht
  obtain ⟨hseen,hlast⟩ := h.last t ht
  rw [hpid] at hlast
  have hnodup := h.nodup
  rw [hd,List.map_append,List.map_cons,hpid] at hnodup
  have hsplit := List.nodup_append.mp hnodup
  have hpre : r.pid ∉ pre.map (·.pid) := fun hmem => hsplit.2.2 _ hmem _ List.mem_cons_self rfl
  have hpost : r.pid ∉ post.map (·.pid) := (List.nodup_cons.mp hsplit.2.1).1
  have hsame : processes (records ++ [r]) = processes records := by
    rw [processes_concat,Finset.insert_eq_self]
    exact (h.pids _).mp hknown
  rw [track_known memory hd hpid hpre]
  constructor
  · rwa [List.map_append,List.map_cons]
  · intro pid
    rw [hsame,← h.pids,hd,List.map_append,List.map_append,List.map_cons,List.map_cons,hpid]
  · -- only the cell of this process has changed
    have hother : ∀ u ∈ pre ++ post, u.seen = true ∧ (seqs (records ++ [r]) u.pid).getLast? = some u.lastSeq := by
      intro u hu
      have hne : r.pid ≠ u.pid := by
        intro heq
        rcases List.mem_append.mp hu with hu | hu
        · exact hpre (heq ▸ List.mem_map_of_mem hu)
        · exact hpost (heq ▸ List.mem_map_of_mem hu)
      rw [seqs_concat_other hne]
      apply h.last
      rw [hd]
      rcases List.mem_append.mp hu with hu | hu
      · exact List.mem_append_left _ hu
      · exact List.mem_append_right _ (List.mem_cons_of_mem _ hu)
    intro u hu
    rcases List.mem_append.mp hu with hu | hu
    · exact hother u (List.mem_append_left _ hu)
    · rcases List.mem_cons.mp hu with rfl | hu
      · exact ⟨rfl,by rw [seqs_concat_self,List.getLast?_concat]⟩
      · exact hother u (List.mem_append_right _ hu)
  · have hmem : r.pid ∈ processes records := (h.pids _).mp hknown
    have hgap := gap_eq hseen (last_lt hord hlast)
    have hsum : ∑ pid ∈ processes (records ++ [r]), missing (seqs (records ++ [r]) pid) =
        ∑ pid ∈ processes records, missing (seqs records pid) + (r.seq.toNat - t.lastSeq.toNat - 1) := by
      rw [hsame,← Finset.add_sum_erase _ _ hmem,← Finset.add_sum_erase _ _ hmem,seqs_concat_self,
        missing_concat hlast]
      have hrest : ∑ pid ∈ (processes records).erase r.pid, missing (seqs (records ++ [r]) pid) =
          ∑ pid ∈ (processes records).erase r.pid, missing (seqs records pid) :=
        Finset.sum_congr rfl fun pid hp => by rw [seqs_concat_other (Finset.ne_of_mem_erase hp).symm]
      rw [hrest]
      omega
    rw [hsum]
    exact toNat_add_modEq h.total hgap

/-- The first record of a process takes a cell and counts nothing. -/
theorem track_new_tracked {d : Logd} {records : List LogRecord} {r : LogRecord} (h : Tracked d records)
    (hord : Orderly (records ++ [r])) (hnew : r.pid ∉ d.trackers.map (·.pid)) :
    Tracked (d.track memory r) (records ++ [r]) := by
  have hfresh : r.pid ∉ processes records := fun hmem => hnew ((h.pids _).mpr hmem)
  have hcells : d.trackers.length = (processes records).card := by
    have hset : (d.trackers.map (·.pid)).toFinset = processes records := by
      ext pid
      rw [List.mem_toFinset,h.pids]
    rw [← hset,List.toFinset_card_of_nodup h.nodup,List.length_map]
  have hroom : d.trackers.length < maxTrackedSenders := by
    have hfew := hord.few
    rw [processes_concat,Finset.card_insert_of_notMem hfresh] at hfew
    omega
  rw [track_new memory hnew hroom]
  constructor
  · rw [List.map_append,List.map_singleton,← List.concat_eq_append]
    exact h.nodup.concat hnew
  · intro pid
    rw [processes_concat,Finset.mem_insert,← h.pids,List.map_append,List.map_singleton,List.mem_append,
      List.mem_singleton,or_comm]
  · intro u hu
    rcases List.mem_append.mp hu with hu | hu
    · have hne : r.pid ≠ u.pid := by
        rintro heq
        exact hnew (heq ▸ List.mem_map_of_mem hu)
      rw [seqs_concat_other hne]
      exact h.last u hu
    · rw [List.mem_singleton.mp hu,seqs_concat_self]
      exact ⟨rfl,List.getLast?_concat⟩
  · have hsum : ∑ pid ∈ processes (records ++ [r]), missing (seqs (records ++ [r]) pid) =
        ∑ pid ∈ processes records, missing (seqs records pid) := by
      rw [processes_concat,Finset.sum_insert hfresh,seqs_concat_self,seqs_eq_nil hfresh,List.nil_append,
        missing_singleton,zero_add]
      refine Finset.sum_congr rfl fun pid hp => ?_
      rw [seqs_concat_other]
      rintro rfl
      exact hfresh hp
    rw [hsum]
    exact h.total

theorem track_tracked {d : Logd} {records : List LogRecord} {r : LogRecord} (h : Tracked d records)
    (hord : Orderly (records ++ [r])) : Tracked (d.track memory r) (records ++ [r]) := by
  by_cases hknown : r.pid ∈ d.trackers.map (·.pid)
  · exact track_known_tracked memory h hord hknown
  · exact track_new_tracked memory h hord hknown

/-! ## A run of the daemon -/

/-- The full datagrams among the events are the packed records. -/
def Delivers (events : List LogdEvent) (records : List LogRecord) : Prop :=
  events.filterMap LogdEvent.received = records.map packLogRecord

theorem track_congr (d : Logd) {r r' : LogRecord} (hpid : r.pid = r'.pid) (hseq : r.seq = r'.seq) :
    d.track memory r = d.track memory r' := by
  unfold Logd.track
  rw [hpid,hseq]

theorem event_received {d : Logd} {e : LogdEvent} {r : LogRecord} (h : e.received = some (packLogRecord r)) :
    d.event memory e = d.track memory r := by
  cases e with
  | summary => cases h
  | datagram bytes =>
    unfold Logd.event
    dsimp only
    rw [h]
    exact track_congr memory d (unpack_pack r).1 (unpack_pack r).2

theorem event_ignored {d : Logd} {e : LogdEvent} {records : List LogRecord} (h : e.received = none)
    (ht : Tracked d records) : Tracked (d.event memory e) records := by
  cases e with
  | summary => exact ⟨ht.nodup,ht.pids,ht.last,ht.total⟩
  | datagram bytes =>
    unfold Logd.event
    dsimp only
    rw [h]
    exact ht

theorem run_tracked {events : List LogdEvent} {records : List LogRecord} (hdel : Delivers events records)
    (hord : Orderly records) : Tracked (Logd.run memory Logd.init events) records := by
  induction events using List.reverseRecOn generalizing records with
  | nil =>
    have hnil : records = [] := List.map_eq_nil_iff.mp hdel.symm
    rw [hnil]
    exact init_tracked
  | append_singleton events e ih =>
    unfold Delivers at hdel
    rw [List.filterMap_append] at hdel
    have hrun : Logd.run memory Logd.init (events ++ [e]) = (Logd.run memory Logd.init events).event memory e := by
      simp [Logd.run]
    rw [hrun]
    cases he : e.received with
    | none =>
      have hrest : events.filterMap LogdEvent.received = records.map packLogRecord := by
        simpa [he] using hdel
      exact event_ignored memory he (ih hrest hord)
    | some buffer =>
      have hlast : events.filterMap LogdEvent.received ++ [buffer] = records.map packLogRecord := by
        simpa [he] using hdel
      obtain ⟨before,after,rfl,hbefore,hafter⟩ := List.map_eq_append_iff.mp hlast.symm
      obtain ⟨r,rfl,hr⟩ := List.map_eq_singleton_iff.mp hafter
      rw [event_received memory (hr ▸ he)]
      exact track_tracked memory (ih hbefore.symm (orderly_init hord)) hord

end Daemon

theorem received_pack (record : LogRecord) :
    (LogdEvent.datagram (packLogRecord record).bytes).received = some (packLogRecord record) := by
  have htake : (packLogRecord record).bytes.take logWireSize = (packLogRecord record).bytes :=
    List.take_of_length_le (packLogRecord record).sized.le
  unfold LogdEvent.received
  dsimp only
  rw [dif_pos (by rw [htake]; exact (packLogRecord record).sized)]
  simp only [htake]

theorem delivers_pack (records : List LogRecord) :
    Delivers (records.map fun r => .datagram (packLogRecord r).bytes) records := by
  rw [Delivers,List.filterMap_map]
  exact List.filterMap_eq_map_iff_forall_eq_some.mpr fun r _ => received_pack r

/-! ## Both ends -/

/-- What an initialised client has done with the records of its calls. -/
structure Complete (l : Logger) (calls : List LogCall) : Prop where
  order : l.sent.Sublist l.pushed
  pushes : l.pushed.length = calls.countP LogCall.pushes
  count : UInt32.ofNat l.pushed.length =
    UInt32.ofNat l.sent.length + l.client.droppedQueueFull + UInt32.ofNat l.client.queue.queued.length

/-- No record is lost at either end without being counted, and nothing else is counted. -/
theorem log_records_accounted :
    (∀ sock sourceName nextSeq calls, (logClientInit sock sourceName).2 = true →
      Complete ((Logger.start (logClientInit sock sourceName).1 nextSeq).calls calls) calls) ∧
    ∀ memory events records, Delivers events records → Orderly records →
      ((Logd.run memory Logd.init events).channelDroppedTotal.toNat : ℤ) ≡
        ∑ pid ∈ processes records, missing (seqs records pid) [ZMOD 4294967296] := by
  constructor
  · intro sock sourceName nextSeq calls hinit
    have hacc := calls_accounted (init_accounted sock sourceName nextSeq) calls
    have hpushed := calls_pushed (l := Logger.start (logClientInit sock sourceName).1 nextSeq)
      (of_decide_eq_true hinit) calls
    rw [Logger.start,List.length_nil,Nat.zero_add] at hpushed
    exact ⟨(List.sublist_append_left _ _).trans hacc.order,hpushed,hacc.count⟩
  · intro memory events records hdel hord
    exact (run_tracked memory hdel hord).total

/-- One record is pushed and lost by `sendto`; the daemon gets the records 0 and 3 of a process and
misses two. -/
theorem log_records_accounted_gap :
    Complete ((Logger.start (logClientInit 3 none).1 0).calls [.push ⟨0,0⟩ 7 .info none,.drain 16 fun _ => false])
      [.push ⟨0,0⟩ 7 .info none,.drain 16 fun _ => false] ∧
    ((Logd.run (fun _ => 0) Logd.init ([(buildLogRecord 0 ⟨0,0⟩ 7 .info none none).1,
        (buildLogRecord 3 ⟨0,0⟩ 7 .info none none).1].map fun r => .datagram (packLogRecord r).bytes)).channelDroppedTotal.toNat : ℤ) ≡
      2 [ZMOD 4294967296] := by
  constructor
  · exact log_records_accounted.1 3 none 0 _ rfl
  · have hord : Orderly [(buildLogRecord 0 ⟨0,0⟩ 7 .info none none).1,(buildLogRecord 3 ⟨0,0⟩ 7 .info none none).1] := by
      constructor
      · decide
      · intro pid
        by_cases hpid : 7 = pid <;> simp [seqs,buildLogRecord,hpid]
    exact log_records_accounted.2 (fun _ => 0) _ _ (delivers_pack _) hord

end CoreStack.Tetrislog
