import CoreStack.Tetris.Targeting
import CoreStack.Lib.Cycling

/-! # Cycling through the opponents

`cycle_manual_target` searches the roster in a circle from behind the current target,
so one call after the other walks through the living opponents in roster order.
-/
namespace CoreStack.Tetris

def opponents (r : Roster) (playerId : ℕ) : Roster := r.filter (·.opponentOf playerId)

/-- Where the search starts: behind the target, or at the front when it is not there. -/
def searchStart (r : Roster) (target : ℕ) : ℕ :=
  match r.findIdx? (·.id == target) with
  | some i => i + 1
  | none => 0

/-- The living opponents up to the target's entry. -/
def passed (r : Roster) (playerId target : ℕ) : ℕ :=
  (r.take (searchStart r target)).countP (·.opponentOf playerId)

theorem searchStart_le (r : Roster) (target : ℕ) : searchStart r target ≤ r.length := by
  unfold searchStart
  split
  · rename_i i hi
    exact (List.findIdx?_eq_some_iff_findIdx_eq.mp hi).1
  · exact Nat.zero_le _

theorem cycleOrder_rotate (r : Roster) (target : ℕ) :
    (cycleOrder r target).filterMap (r[·]?) = r.rotate (searchStart r target) := by
  rw [← Cycling.filterMap_mod]
  unfold cycleOrder searchStart
  dsimp only
  rw [List.filterMap_map]
  refine List.filterMap_congr fun k hk => ?_
  have hlt := List.mem_range.mp hk
  rw [Function.comp_apply]
  congr 1
  cases r.findIdx? (·.id == target) with
  | some i =>
    dsimp only
    have hz : ((i : ℤ) + ((k + 1 + r.length : ℕ) : ℤ)) % (r.length : ℤ) = ((k + (i + 1)) % r.length : ℕ) := by
      rw [← Nat.add_mod_right (k + (i + 1)) r.length]
      push_cast
      congr 1
      omega
    rw [hz,Int.toNat_natCast]
  | none =>
    dsimp only
    have hz : ((-1 : ℤ) + ((k + 1 + r.length : ℕ) : ℤ)) % (r.length : ℤ) = ((k + 0) % r.length : ℕ) := by
      rw [← Nat.add_mod_right (k + 0) r.length]
      push_cast
      congr 1
      omega
    rw [hz,Int.toNat_natCast]

/-- One call: the target becomes the opponent whose number is the count passed. -/
theorem cycleManualTarget_eq {s : GameState} {r : Roster} (h : 1 < r.length) :
    cycleManualTarget s r =
      match (opponents r s.playerId)[passed r s.playerId s.targetPlayerId % (opponents r s.playerId).length]? with
      | some e => { s with targetPlayerId := e.id }
      | none => s := by
  unfold cycleManualTarget
  rw [if_neg (not_le.mpr h),cycleOrder_rotate,Cycling.find?_rotate (searchStart_le r s.targetPlayerId)]
  rfl

theorem cycleManualTarget_playerId (s : GameState) (r : Roster) : (cycleManualTarget s r).playerId = s.playerId := by
  unfold cycleManualTarget
  split
  · rfl
  · split <;> rfl

theorem passed_target {r : Roster} (hn : (r.map RosterEntry.id).Nodup) {playerId j : ℕ} {e : RosterEntry}
    (he : (opponents r playerId)[j]? = some e) : passed r playerId e.id = j + 1 := by
  have hm : e ∈ r := (List.mem_filter.mp (List.mem_of_getElem? he)).1
  have hfind : ∃ i, r.findIdx? (·.id == e.id) = some i ∧ r[i]? = some e := by
    cases hf : r.findIdx? (·.id == e.id) with
    | none => simpa using List.findIdx?_eq_none_iff.mp hf e hm
    | some i =>
      obtain ⟨hlt,hi,-⟩ := List.findIdx?_eq_some_iff_getElem.mp hf
      have hid : r[i].id = e.id := by simpa using hi
      have heq : r[i] = e := List.inj_on_of_nodup_map hn (List.getElem_mem hlt) hm hid
      exact ⟨i,rfl,by rw [List.getElem?_eq_getElem hlt,heq]⟩
  obtain ⟨i,hf,hi⟩ := hfind
  unfold passed searchStart
  rw [hf]
  exact Cycling.count_behind (List.Nodup.of_map _ hn) hi he

/-- Call after call the count goes on by one, modulo the number of opponents, and the
target is the opponent with the number the count had before. -/
theorem cycle_iterate {s : GameState} {r : Roster} (hn : (r.map RosterEntry.id).Nodup) (h : 1 < r.length)
    (hm : 0 < (opponents r s.playerId).length) (n : ℕ) :
    ((cycleManualTarget · r)^[n] s).playerId = s.playerId ∧
    passed r s.playerId ((cycleManualTarget · r)^[n] s).targetPlayerId % (opponents r s.playerId).length =
      (passed r s.playerId s.targetPlayerId + n) % (opponents r s.playerId).length ∧
    ((opponents r s.playerId).map RosterEntry.id)[(passed r s.playerId s.targetPlayerId + n) %
      (opponents r s.playerId).length]? = some ((cycleManualTarget · r)^[n + 1] s).targetPlayerId := by
  have hcall : ∀ t : GameState, t.playerId = s.playerId → ∃ e,
      (opponents r s.playerId)[passed r s.playerId t.targetPlayerId % (opponents r s.playerId).length]? = some e ∧
      (cycleManualTarget t r).targetPlayerId = e.id := by
    intro t ht
    have he := List.getElem?_eq_getElem (Nat.mod_lt (passed r s.playerId t.targetPlayerId) hm)
    refine ⟨_,he,?_⟩
    rw [cycleManualTarget_eq h,ht,he]
  induction n with
  | zero =>
    obtain ⟨e,he,ht⟩ := hcall s rfl
    refine ⟨rfl,rfl,?_⟩
    rw [Nat.add_zero,List.getElem?_map,he,Option.map_some,Function.iterate_succ_apply',Function.iterate_zero_apply,ht]
  | succ n ih =>
    obtain ⟨hid,hcount,-⟩ := ih
    obtain ⟨e,he,ht⟩ := hcall _ hid
    have hid' : ((cycleManualTarget · r)^[n + 1] s).playerId = s.playerId := by
      rw [Function.iterate_succ_apply',cycleManualTarget_playerId,hid]
    have hcount' : passed r s.playerId ((cycleManualTarget · r)^[n + 1] s).targetPlayerId %
        (opponents r s.playerId).length =
        (passed r s.playerId s.targetPlayerId + (n + 1)) % (opponents r s.playerId).length := by
      rw [Function.iterate_succ_apply',ht,passed_target hn he,hcount,Nat.mod_add_mod,Nat.add_assoc]
    obtain ⟨e',he',ht'⟩ := hcall _ hid'
    refine ⟨hid',hcount',?_⟩
    rw [← hcount',List.getElem?_map,he',Option.map_some,Function.iterate_succ_apply' _ (n + 1),ht']

theorem one_lt_length {r : Roster} {playerId : ℕ} (ha : ∃ e ∈ r, e.id = playerId)
    (hm : 0 < (opponents r playerId).length) : 1 < r.length := by
  obtain ⟨a,ham,hid⟩ := ha
  obtain ⟨e,he⟩ := List.exists_mem_of_length_pos hm
  obtain ⟨hem,ho⟩ := List.mem_filter.mp he
  have hne : e ≠ a := by
    rintro rfl
    simp [RosterEntry.opponentOf,hid] at ho
  by_contra hle
  obtain ⟨b,rfl⟩ | rfl : (∃ b, r = [b]) ∨ r = [] := by
    rcases r with _ | ⟨b,_ | ⟨c,r⟩⟩
    · exact .inr rfl
    · exact .inl ⟨b,rfl⟩
    · simp at hle
  · exact hne ((List.mem_singleton.mp hem).trans (List.mem_singleton.mp ham).symm)
  · cases ham

theorem mem_opponents {r : Roster} {playerId id : ℕ} : id ∈ (opponents r playerId).map RosterEntry.id ↔
    ∃ e ∈ r, e.id = id ∧ id ≠ playerId ∧ e.eliminated = false := by
  simp only [opponents,List.mem_map,List.mem_filter,RosterEntry.opponentOf,Bool.and_eq_true,bne_iff_ne,
    Bool.not_eq_true']
  constructor
  · rintro ⟨e,⟨hm,hne,hel⟩,rfl⟩
    exact ⟨e,hm,rfl,hne,hel⟩
  · rintro ⟨e,hm,rfl,hne,hel⟩
    exact ⟨e,⟨hm,hne,hel⟩,rfl⟩

/-- As many calls as there are living opponents select each of them once, in roster
order from behind the first target on and around the end; without one nothing changes. -/
theorem cycleManualTarget_visits (s : GameState) (r : Roster) (hn : (r.map RosterEntry.id).Nodup)
    (ha : ∃ e ∈ r, e.id = s.playerId) :
    (List.range (opponents r s.playerId).length).map
        (fun n => ((cycleManualTarget · r)^[n + 1] s).targetPlayerId) =
      ((opponents r s.playerId).map RosterEntry.id).rotate (passed r s.playerId s.targetPlayerId) ∧
    ((opponents r s.playerId).map RosterEntry.id).Nodup ∧
    (∀ id, id ∈ (opponents r s.playerId).map RosterEntry.id ↔
      ∃ e ∈ r, e.id = id ∧ id ≠ s.playerId ∧ e.eliminated = false) ∧
    (opponents r s.playerId = [] → cycleManualTarget s r = s) := by
  refine ⟨?_,?_,fun _ => mem_opponents,?_⟩
  · apply List.ext_getElem?
    intro n
    by_cases hlt : n < (opponents r s.playerId).length
    · have hm : 0 < (opponents r s.playerId).length := by omega
      have hlen : ((opponents r s.playerId).map RosterEntry.id).length = (opponents r s.playerId).length :=
        List.length_map _
      obtain ⟨-,-,ht⟩ := cycle_iterate hn (one_lt_length ha hm) hm n
      rw [List.getElem?_map,List.getElem?_range hlt,Option.map_some,← ht,
        List.getElem?_rotate (by rw [hlen]; exact hlt),hlen,Nat.add_comm n]
    · rw [List.getElem?_eq_none (by simpa using hlt),List.getElem?_eq_none (by simpa using hlt)]
  · exact (hn.sublist (List.filter_sublist.map _))
  · intro h0
    by_cases h : 1 < r.length
    · rw [cycleManualTarget_eq h,h0]
      rfl
    · exact if_pos (not_lt.mp h)

/-- Two opponents left of three, the target among them: two calls and around. -/
theorem cycleManualTarget_visits_two :
    let s := { startGame (fun _ => 0) with playerId := 2, targetPlayerId := 4 }
    let r : Roster := [⟨1,false⟩, ⟨2,false⟩, ⟨3,true⟩, ⟨4,false⟩]
    (List.range 2).map (fun n => ((cycleManualTarget · r)^[n + 1] s).targetPlayerId) = [1, 4] :=
  (cycleManualTarget_visits { startGame (fun _ => 0) with playerId := 2, targetPlayerId := 4 }
    [⟨1,false⟩, ⟨2,false⟩, ⟨3,true⟩, ⟨4,false⟩] (by decide) ⟨_,List.mem_cons_of_mem _ List.mem_cons_self,rfl⟩).1

end CoreStack.Tetris
