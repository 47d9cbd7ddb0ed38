import CoreStack.Tetrisd.Locality
import CoreStack.Tetrisd.Trace

/-! # Player ids across rooms

`spawn_room` reserves `MAX_LOBBY_SIZE` ids a room, the accept loop takes one id a
connection. Ids are unique as long as only the first `MAX_LOBBY_SIZE` connections
of a room complete their handshake.
-/
namespace CoreStack.Tetrisd

def RoomObs.addedId : RoomObs → Option ℕ
  | .added id => some id
  | _ => none

def Obs.addedId : Obs → Option ℕ
  | .room _ o => o.addedId
  | .master _ => none

/-- Connections of this room that are no longer in their handshake. -/
def Server.settled (s : Server) : ℕ := if s.pending.isSome then s.accepted - 1 else s.accepted

/-- The `k`-th id of the `w`-th room. -/
def roomId (w k : ℕ) : ℕ := (1 + w * maxLobbySize + k) % 4294967296

/-- The accept loop of room `w` hands out consecutive ids from the room's base. -/
structure Server.Issues (w : ℕ) (s : Server) (obs : List RoomObs) : Prop where
  next : s.nextId = roomId w s.accepted
  pending : ∀ id, s.pending = some id → 1 ≤ s.accepted ∧ id = roomId w (s.accepted - 1)
  added : ∀ id ∈ obs.filterMap RoomObs.addedId, ∃ k, k < s.settled ∧ k < maxLobbySize ∧ id = roomId w k
  nodup : (obs.filterMap RoomObs.addedId).Nodup

theorem roomId_inj {w w' k k' : ℕ} (hw : w < 2147483648) (hw' : w' < 2147483648) (hk : k < maxLobbySize)
    (hk' : k' < maxLobbySize) (h : roomId w k = roomId w' k') : w = w' ∧ k = k' := by
  simp only [roomId,maxLobbySize] at *
  omega

theorem roomId_ne {w k k' : ℕ} (hk : k < maxLobbySize) (hk' : k' < maxLobbySize) (h : k ≠ k') :
    roomId w k ≠ roomId w k' := by
  simp only [roomId,maxLobbySize] at *
  omega

theorem Server.init_issues (w : ℕ) : (Server.init ((1 + w * maxLobbySize) % 4294967296)).Issues w [] :=
  ⟨rfl,fun _ h => (by cases h),fun _ h => (by cases h),List.nodup_nil⟩

theorem Server.Issues.accept {w : ℕ} {s t : Server} {obs : List RoomObs} (h : s.Issues w obs)
    (ht : s.accept = some t) : t.Issues w obs := by
  unfold Server.accept at ht
  split at ht
  · rename_i hc
    have hn : s.pending = none := by simpa using (Bool.and_eq_true_iff.mp hc).2
    cases ht
    refine ⟨?_,?_,?_,h.nodup⟩
    · simp only [h.next,roomId]
      omega
    · intro id hid
      cases hid
      exact ⟨Nat.le_add_left 1 _,h.next⟩
    · have hset : s.settled = s.accepted := by simp [Server.settled,hn]
      intro id hid
      obtain ⟨k,hk,hk2,he⟩ := h.added id hid
      rw [hset] at hk
      exact ⟨k,Nat.lt_of_lt_of_le hk (by simp [Server.settled]),hk2,he⟩
  · cases ht

theorem Server.Issues.finish {w : ℕ} {s : Server} {obs : List RoomObs} (h : s.Issues w obs) {ok : Bool}
    {r : Server × List RoomObs} (hg : ok = true → s.accepted ≤ maxLobbySize) (hr : s.finish ok = some r) :
    r.1.Issues w (obs ++ r.2) := by
  unfold Server.finish at hr
  obtain ⟨id,hp,hr⟩ := Option.map_eq_some_iff.mp hr
  obtain ⟨h1,hid⟩ := h.pending id hp
  have hset : s.settled = s.accepted - 1 := by simp [Server.settled,hp]
  have hadded : ∀ id' ∈ obs.filterMap RoomObs.addedId,
      ∃ k, k < s.accepted - 1 ∧ k < maxLobbySize ∧ id' = roomId w k :=
    fun id' hi => hset ▸ h.added id' hi
  cases ok with
  | false =>
    rw [if_neg Bool.false_ne_true] at hr
    subst hr
    simp only [List.append_nil]
    refine ⟨h.next,fun _ h => (by cases h),?_,h.nodup⟩
    intro id' hi
    obtain ⟨k,hk,hk2,he⟩ := hadded id' hi
    exact ⟨k,by simp only [Server.settled,Option.isSome_none,Bool.false_eq_true,↓reduceIte]; omega,hk2,he⟩
  | true =>
    rw [if_pos rfl] at hr
    subst hr
    have hlt : s.accepted - 1 < maxLobbySize := by
      have := hg rfl
      omega
    refine ⟨h.next,fun _ h => (by cases h),?_,?_⟩
    · intro id' hi
      simp only [Server.settled,Option.isSome_none,Bool.false_eq_true,↓reduceIte]
      simp only [List.filterMap_append,List.mem_append,List.filterMap_cons,RoomObs.addedId,
        List.filterMap_nil,List.mem_singleton] at hi
      rcases hi with hi | rfl
      · obtain ⟨k,hk,hk2,he⟩ := hadded id' hi
        exact ⟨k,by omega,hk2,he⟩
      · exact ⟨s.accepted - 1,by omega,hlt,hid⟩
    · rw [List.filterMap_append]
      refine List.nodup_append.mpr ⟨h.nodup,List.nodup_singleton id,?_⟩
      intro id' hi b hb
      rw [List.mem_singleton.mp hb,hid]
      obtain ⟨k,hk,hk2,rfl⟩ := hadded id' hi
      exact roomId_ne hk2 hlt (by omega)

theorem Worker.Step.issues {serial : ℕ} {hub : HubRecv} {wk : Worker} {input : Input} {e : Effect}
    (hs : Worker.Step serial hub wk input e) {w : ℕ} {obs : List RoomObs} (h : wk.server.Issues w obs) :
    e.worker.server.Issues w (obs ++ e.obs) := by
  obtain ⟨hn,ha,hp,-⟩ := hs.server
  have hnone : e.obs.filterMap RoomObs.addedId = [] := by
    refine List.filterMap_eq_nil_iff.mpr ?_
    intro o ho
    have hsrc := hs.source ho
    cases o with
    | added id => exact hsrc.elim
    | _ => rfl
  have hset : e.worker.server.settled = wk.server.settled := by simp [Server.settled,hp,ha]
  refine ⟨by rw [hn,ha]; exact h.next,by rw [hp,ha]; exact h.pending,?_,?_⟩
  · rw [List.filterMap_append,hnone,List.append_nil,hset]
    exact h.added
  · rw [List.filterMap_append,hnone,List.append_nil]
    exact h.nodup

/-- A handshake is completed only by one of the first `MAX_LOBBY_SIZE` connections of the room. -/
def System.inReserve (s : System) : Label → Bool
  | .handshake w true => (s.workers w).server.accepted ≤ maxLobbySize
  | _ => true

def System.Issued (s : System) : Prop :=
  ∀ w, w < s.master.roomSeq → (s.workers w).server.Issues w (roomLog w s.log)

theorem System.step_issued (s : System) (l : Label) (t : System) (hs : s.Sound) (h : s.Issued)
    (hg : s.inReserve l = true) (ht : s.step l = some t) : t.Issued := by
  refine System.local_step ht hs (fun w wk obs => wk.server.Issues w obs) Server.init_issues ?_ h
  intro w wk obs hw hi hm
  cases hm with
  | connect ha =>
    rw [List.append_nil]
    exact hi.accept ha
  | handshake hf =>
    refine hi.finish (fun hok => ?_) hf
    subst hok
    exact of_decide_eq_true hg
  | worker hr hst => exact hst.issues hi
  | crash =>
    rw [List.append_nil]
    exact hi

theorem mem_addedId {w id : ℕ} {log : List Obs} (h : Obs.room w (.added id) ∈ log) :
    id ∈ (roomLog w log).filterMap RoomObs.addedId :=
  List.mem_filterMap.mpr ⟨_,mem_roomLog.mpr h,rfl⟩

theorem Obs.addedId_eq_some {o : Obs} {id : ℕ} (h : o.addedId = some id) : ∃ w, o = .room w (.added id) := by
  cases o with
  | master o => cases h
  | room w o =>
    cases o with
    | added id' =>
      cases h
      exact ⟨w,rfl⟩
    | _ => cases h

/-- Ids of one room differ by their number in the room, ids of two rooms by the room. -/
theorem System.Issued.nodup {s : System} (h : s.Issued) (hs : s.Sound) (hlt : s.master.roomSeq < 2147483648) :
    (s.log.filterMap Obs.addedId).Nodup := by
  refine List.pairwise_filterMap.mpr ?_
  rw [List.pairwise_iff_getElem]
  intro i j hi hj hij id hid id' hid' he
  subst he
  obtain ⟨w,ho⟩ := Obs.addedId_eq_some hid
  obtain ⟨w',ho'⟩ := Obs.addedId_eq_some hid'
  have hmem : Obs.room w (.added id) ∈ s.log := ho ▸ List.getElem_mem hi
  have hmem' : Obs.room w' (.added id) ∈ s.log := ho' ▸ List.getElem_mem hj
  have hw := hs.born hmem
  have hw' := hs.born hmem'
  obtain ⟨k,-,hk,hidk⟩ := (h w hw).added id (mem_addedId hmem)
  obtain ⟨k',-,hk',hidk'⟩ := (h w' hw').added id (mem_addedId hmem')
  obtain ⟨rfl,-⟩ := roomId_inj (hw.trans hlt) (hw'.trans hlt) hk hk'
    (hidk.symm.trans hidk')
  -- both in one room: its own log already has them apart
  have hnd := (h w hw).nodup
  unfold roomLog at hnd
  rw [List.filterMap_filterMap] at hnd
  have hpair := List.pairwise_iff_getElem.mp (List.pairwise_filterMap.mp hnd) i j hi hj hij
  exact hpair id (by simp [ho,RoomObs.addedId]) id (by simp [ho',RoomObs.addedId]) rfl

/-- No two clients ever added to any room share an id. -/
theorem added_ids_unique (roomSize : ℕ) (ls : List Label) (s : System)
    (hr : Execution.run (Execution.guarded System.inReserve System.step) (.init roomSize) ls = some s)
    (hlt : s.master.roomSeq < 2147483648) : (s.log.filterMap Obs.addedId).Nodup := by
  have hsound := Execution.guarded_base System.step_sound hr (System.init_sound roomSize)
  have hissued := Execution.guarded_invariant System.step_sound System.step_issued hr
    (System.init_sound roomSize) (fun w hw => (by cases hw))
  exact hissued.nodup hsound hlt

/-- Two rooms open their lobbies: two clients are dealt into the first, one into the second. -/
def twoLobbies : List Label :=
  [.accept 10 true,.accept 11 true,.accept 12 true,.worker 0 false (.boot true),.worker 1 false (.boot true)]

theorem added_ids_unique_twoLobbies :
    ∃ s, Execution.run (Execution.guarded System.inReserve System.step) (.init 2)
        (twoLobbies ++ joins 0 false ++ joins 0 true ++ joins 1 true) = some s ∧
      s.log.filterMap Obs.addedId = [2,3] ∧ s.master.roomSeq < 2147483648 ∧
      (s.log.filterMap Obs.addedId).Nodup := by
  obtain ⟨s,hs,ht⟩ := Execution.exists_of_run_any (Execution.guarded System.inReserve System.step) (.init 2)
    (twoLobbies ++ joins 0 false ++ joins 0 true ++ joins 1 true)
    (fun s => s.log.filterMap Obs.addedId == [2,3] && decide (s.master.roomSeq < 2147483648)) (by decide +kernel)
  simp only [Bool.and_eq_true,beq_iff_eq,decide_eq_true_eq] at ht
  exact ⟨s,hs,ht.1,ht.2,added_ids_unique 2 _ s hs ht.2⟩

/-- A failed handshake costs the first room an id; its second player takes the second room's first. -/
theorem added_ids_collide :
    ¬ ∀ (roomSize : ℕ) (ls : List Label) (s : System), Execution.run System.step (.init roomSize) ls = some s →
      s.master.roomSeq < 2147483648 → (s.log.filterMap Obs.addedId).Nodup := by
  intro h
  obtain ⟨s,hs,ht⟩ := Execution.exists_of_run_any System.step (.init 2)
    (twoLobbies ++ joins 0 false ++ joins 0 true ++ joins 0 true ++ joins 1 true)
    (fun s => decide (s.master.roomSeq < 2147483648) && !decide (s.log.filterMap Obs.addedId).Nodup)
    (by decide +kernel)
  simp only [Bool.and_eq_true,decide_eq_true_eq,Bool.not_eq_true',decide_eq_false_iff_not] at ht
  exact ht.2 (h 2 _ s hs ht.1)

end CoreStack.Tetrisd
