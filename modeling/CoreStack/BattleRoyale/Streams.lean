import CoreStack.BattleRoyale.Broadcast

/-! # Two broadcasts on the same sockets

A message goes out in four buffers. As long as no thread begins a message to a
client in the middle of one by the other thread, every stream is whole messages
and the beginning of at most one more.
-/
namespace CoreStack.BattleRoyale

namespace Cast

def midwayAt (c : Option Cast) (i : ℕ) : Bool := c.any (·.midway i)

def partAt (c : Option Cast) (i : ℕ) : Bytes := c.elim [] (·.part i)

theorem part_of_not_midway {c : Cast} {i : ℕ} (h : c.midway i = false) : c.part i = [] := by
  unfold part
  rw [h]
  rfl

theorem partAt_of_not_midway {c : Option Cast} {i : ℕ} (h : midwayAt c i = false) : partAt c i = [] := by
  cases c with
  | none => rfl
  | some c => exact part_of_not_midway h

theorem midway_iff {c : Cast} {i : ℕ} : c.midway i = true ↔ c.client = i ∧ 0 < c.done ∧ c.done < 4 := by
  simp [midway,and_assoc]

theorem not_midway_begin (frame : Frame) (client i : ℕ) : midway ⟨frame,client,0⟩ i = false := by
  simp [midway]

/-- What has gone out is the first `done` buffers, until the message is complete. -/
theorem part_client {c : Cast} (h : c.done < 4) : c.part c.client = ((sendMessageTcp c.frame).take c.done).flatten := by
  unfold part
  split
  · rfl
  · next hno =>
    have hzero : c.done = 0 := by
      by_contra hne
      exact hno (midway_iff.mpr ⟨rfl,Nat.pos_of_ne_zero hne,h⟩)
    rw [hzero]
    rfl

theorem length_part_lt (c : Cast) (i : ℕ) : (c.part i).length < frameLength := by
  unfold part
  split
  · next h =>
    obtain ⟨-,-,hlt⟩ := midway_iff.mp h
    obtain ⟨frame,client,done⟩ := c
    have hcases : done = 0 ∨ done = 1 ∨ done = 2 ∨ done = 3 := by
      dsimp only at hlt
      omega
    rcases hcases with rfl | rfl | rfl | rfl <;>
      simp [sendMessageTcp,frameLength]
  · decide

theorem length_partAt_lt (c : Option Cast) (i : ℕ) : (partAt c i).length < frameLength := by
  cases c with
  | none => exact Nat.zero_lt_succ _
  | some c => exact length_part_lt c i

def Apart (c c' : Option Cast) : Prop := ∀ i, midwayAt c i = true → midwayAt c' i = false

theorem Apart.symm {c c' : Option Cast} (h : Apart c c') : Apart c' c := by
  intro i hi
  cases hm : midwayAt c i with
  | false => rfl
  | true =>
    rw [h i hm] at hi
    cases hi

theorem Apart.part_comm {c c' : Option Cast} (h : Apart c c') (i : ℕ) :
    partAt c i ++ partAt c' i = partAt c' i ++ partAt c i := by
  cases hm : midwayAt c i with
  | false => rw [partAt_of_not_midway hm,List.nil_append,List.append_nil]
  | true => rw [partAt_of_not_midway (h i hm),List.nil_append,List.append_nil]

theorem Apart.length_lt {c c' : Option Cast} (h : Apart c c') (i : ℕ) :
    (partAt c i ++ partAt c' i).length < frameLength := by
  cases hm : midwayAt c i with
  | false =>
    rw [partAt_of_not_midway hm,List.nil_append]
    exact length_partAt_lt c' i
  | true =>
    rw [partAt_of_not_midway (h i hm),List.append_nil]
    exact length_partAt_lt c i

end Cast

/-- Every stream is whole messages and what the two broadcasts have begun. -/
def Streams (ended : Prop) (c c' : Option Cast) (clients : List Peer) : Prop :=
  ∀ (i : ℕ) (p : Peer), clients[i]? = some p → ∃ wire, p.Wire ended (Cast.partAt c i ++ Cast.partAt c' i) wire

theorem Streams.symm {ended : Prop} {c c' : Option Cast} {clients : List Peer} (h : Streams ended c c' clients)
    (hapart : Cast.Apart c c') : Streams ended c' c clients := by
  intro i p hp
  obtain ⟨wire,hwire⟩ := h i p hp
  rw [hapart.part_comm i] at hwire
  exact ⟨wire,hwire⟩

theorem Peer.Wire.write {ended : Prop} {c : Cast} {p : Peer} {wire : List Frame} {buffer : Bytes}
    (hbuffer : (sendMessageTcp c.frame)[c.done]? = some buffer) (hlt : c.done < 4)
    (h : p.Wire ended (c.part c.client) wire) (happ : c.frame.isApp = true → p.started = true ∧ ¬ended)
    (hend : c.frame.isEnd = true → ended) :
    ∃ wire', (if c.done = 3 then (p.push buffer).complete c.frame else p.push buffer).Wire ended
      (Cast.part { c with done := c.done + 1 } c.client) wire' := by
  have hpush := h.push buffer
  have htake : (sendMessageTcp c.frame).take (c.done + 1) = (sendMessageTcp c.frame).take c.done ++ [buffer] := by
    rw [List.take_add_one,hbuffer,Option.toList_some]
  have hpart : c.part c.client ++ buffer = ((sendMessageTcp c.frame).take (c.done + 1)).flatten := by
    rw [Cast.part_client hlt,htake]
    simp
  rw [hpart] at hpush
  split
  · next hthree =>
    have hwhole : ((sendMessageTcp c.frame).take (c.done + 1)).flatten = c.frame.encode := by
      rw [hthree]
      rfl
    have hnone : Cast.midway { c with done := c.done + 1 } c.client = false := by
      simp [Cast.midway,hthree]
    rw [hwhole] at hpush
    rw [Cast.part_of_not_midway hnone]
    exact ⟨_,hpush.complete happ hend⟩
  · next hthree =>
    have hlt' : c.done + 1 < 4 := by omega
    have hnext := Cast.part_client (c := { c with done := c.done + 1 }) hlt'
    rw [hnext]
    exact ⟨wire,hpush⟩

/-- A step of one broadcast keeps every stream in order when it does not begin a message in
the middle of one of the other. -/
theorem Streams.step {ended : Prop} {c : Cast} {c' : Option Cast} {clients : List Peer}
    (h : Streams ended (some c) c' clients) (hapart : Cast.Apart (some c) c')
    (hclear : c.done = 0 → Cast.midwayAt c' c.client = false)
    (happ : c.frame.isApp = true → ¬ended ∧ ∀ p, clients[c.client]? = some p → c.done < 4 → p.started = true)
    (hend : c.frame.isEnd = true → ended) :
    Streams ended (c.step clients).2 c' (c.step clients).1 ∧ Cast.Apart (c.step clients).2 c' := by
  rcases c.step_cases clients with ⟨buffer,hbuffer,hlt,heq⟩ | ⟨hdone,heq⟩
  · have hother : Cast.midwayAt c' c.client = false := by
      rcases Nat.eq_zero_or_pos c.done with hzero | hpos
      · exact hclear hzero
      · exact hapart c.client (Cast.midway_iff.mpr ⟨rfl,hpos,hlt⟩)
    rw [heq]
    constructor
    · intro i q hq
      rw [List.getElem?_modify] at hq
      obtain ⟨p,hp,rfl⟩ := Option.map_eq_some_iff.mp hq
      obtain ⟨wire,hwire⟩ := h i p hp
      dsimp only
      split
      · next hi =>
        subst hi
        rw [Cast.partAt_of_not_midway hother,List.append_nil] at hwire
        obtain ⟨wire',hnew⟩ := hwire.write hbuffer hlt (fun hf => ⟨(happ hf).2 p hp hlt,(happ hf).1⟩) hend
        rw [Cast.partAt_of_not_midway hother,List.append_nil]
        exact ⟨wire',hnew⟩
      · next hi =>
        have hold : c.midway i = false := by simp [Cast.midway,hi]
        have hnew : Cast.midway { c with done := c.done + 1 } i = false := by simp [Cast.midway,hi]
        have hsame : Cast.partAt (some { c with done := c.done + 1 }) i = Cast.partAt (some c) i :=
          (Cast.part_of_not_midway hnew).trans (Cast.part_of_not_midway hold).symm
        rw [hsame]
        exact ⟨wire,hwire⟩
    · intro i hi
      obtain ⟨hclient,-,-⟩ := Cast.midway_iff.mp hi
      dsimp only at hclient
      rw [← hclient]
      exact hother
  · have hold : ∀ i, Cast.midwayAt (some c) i = false := by
      intro i
      have hno : ¬c.done < 4 := by omega
      simp [Cast.midwayAt,Cast.midway,hno]
    have hnew : ∀ i, Cast.midwayAt (c.step clients).2 i = false := by
      intro i
      rw [heq]
      dsimp only
      split
      · exact Cast.not_midway_begin _ _ i
      · rfl
    refine ⟨?_,?_⟩
    · intro i p hp
      rw [heq] at hp
      rw [Cast.partAt_of_not_midway (hnew i),← Cast.partAt_of_not_midway (hold i)]
      exact h i p hp
    · intro i hi
      rw [hnew i] at hi
      cases hi

end CoreStack.BattleRoyale
