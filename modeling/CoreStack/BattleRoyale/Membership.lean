import CoreStack.BattleRoyale.ClientList
import Mathlib.Data.List.Basic

/-! # The clients in order of their addition

Whatever is added and removed, the nodes hold the members in the order they came, and
every reader sees these. Sockets are set aside: `free_sockets` does nothing here.
-/
namespace CoreStack.BattleRoyale
open Chains
namespace ClientLinkedList
variable {list : ClientLinkedList} {cells : List (ℕ × ClientEndpoint)}

/-! ## The readers -/

theorem Holds.getFromList? (h : list.Holds cells) (id : UInt32) :
    list.getFromList? id = some (((cells.map Prod.snd).find? (·.id == id)).elim (-1,none) fun client => (0,some client)) := by
  have hfind : find? list.memory.nodes (·.id == id) list.fuel list.head = some ((cells.map Prod.snd).find? (·.id == id)) :=
    h.chain.find? (Nat.le_of_lt h.lt_fuel)
  unfold ClientLinkedList.getFromList?
  cases cells with
  | nil =>
    have hhead : list.head = none := h.chain
    rw [hhead]
    rfl
  | cons c cells =>
    have hhead := h.chain.1
    rw [hhead] at hfind ⊢
    dsimp only
    rw [hfind]
    rfl

/-- From node `i` on the loop writes the ids that are left. -/
theorem idLoop?_eq {nodes : Heap (Node ClientEndpoint)} {cells : List (ℕ × ClientEndpoint)} {fuel p i : ℕ}
    {ids : List UInt32} (h : Chain nodes (some p) cells) (hfuel : cells.length ≤ fuel)
    (hroom : ids.length = i + cells.length) :
    idLoop? nodes fuel p i ids = some (ids.take i ++ cells.map (·.2.id)) := by
  induction cells generalizing p i ids fuel with
  | nil => cases h
  | cons c cells ih =>
    obtain ⟨hlink,next,hcell,hrest⟩ := h
    cases hlink
    rw [List.length_cons] at hfuel hroom
    obtain ⟨fuel,rfl⟩ : ∃ n, fuel = n + 1 := ⟨fuel - 1,by omega⟩
    have htake : (ids.set i c.2.id).take (i + 1) = ids.take i ++ [c.2.id] := by
      rw [List.take_add_one,List.getElem?_set_self (by omega),List.take_set_of_le (Nat.le_refl i)]
      rfl
    rw [idLoop?,hcell,Option.bind_some,if_pos (by omega),List.map_cons]
    cases cells with
    | nil =>
      have hnext : next = none := hrest
      rw [List.length_nil] at hroom
      rw [hnext,List.map_nil,← htake,List.take_of_length_le (by rw [List.length_set]; omega)]
    | cons d cells =>
      have hnext := hrest.1
      rw [hnext] at hrest ⊢
      dsimp only
      rw [ih hrest (by omega) (by rw [List.length_set]; omega),htake,List.append_assoc]
      rfl

theorem Holds.getIdArray? (h : list.Holds cells) (garbage : ℕ → UInt32) :
    list.getIdArray? garbage = some (if cells = [] then (-1,none) else (0,some (cells.map (·.2.id)))) := by
  unfold ClientLinkedList.getIdArray?
  cases cells with
  | nil =>
    have hhead : list.head = none := h.chain
    rw [hhead]
    rfl
  | cons c cells =>
    have hchain := h.chain
    have hhead := hchain.1
    rw [hhead] at hchain ⊢
    dsimp only
    rw [idLoop?_eq hchain (Nat.le_of_lt h.lt_fuel) (by simp [h.count]),if_neg (List.cons_ne_nil _ _)]
    rfl

theorem writeIds_eq {nodes : Heap (Node ClientEndpoint)} {head : Option ℕ} {cells : List (ℕ × ClientEndpoint)}
    (h : Chain nodes head cells) (clientIds : ℕ → UInt32) {k : ℕ} (hk : k ≤ cells.length) :
    ∃ link, Chain nodes link (cells.drop k) ∧
      (List.range k).foldlM (writeId? nodes) (head,clientIds) =
        some (link,fun i => (((cells.take k).map (·.2.id))[i]?).getD (clientIds i)) := by
  induction k with
  | zero => exact ⟨head,h,rfl⟩
  | succ k ih =>
    obtain ⟨link,hchain,hloop⟩ := ih (by omega)
    rw [List.drop_eq_getElem_cons (by omega)] at hchain
    obtain ⟨hlink,next,hcell,hrest⟩ := hchain
    refine ⟨next,hrest,?_⟩
    have hwritten : Function.update (fun i => (((cells.take k).map (·.2.id))[i]?).getD (clientIds i)) k cells[k].2.id =
        fun i => (((cells.take (k + 1)).map (·.2.id))[i]?).getD (clientIds i) := by
      funext i
      rcases Nat.lt_trichotomy i k with hlt | heq | hgt
      · rw [Function.update_of_ne (by omega)]
        simp [hlt,Nat.lt_succ_of_lt hlt]
      · subst heq
        rw [Function.update_self]
        simp [hk]
      · rw [Function.update_of_ne (by omega)]
        have hbefore : ((cells.take k).map (·.2.id)).length ≤ i := by
          rw [List.length_map,List.length_take]
          omega
        have hafter : ((cells.take (k + 1)).map (·.2.id)).length ≤ i := by
          rw [List.length_map,List.length_take]
          omega
        rw [List.getElem?_eq_none hbefore,List.getElem?_eq_none hafter]
    rw [List.range_succ,List.foldlM_append,hloop,Option.bind_eq_bind,Option.bind_some,List.foldlM_cons,writeId?]
    dsimp only
    rw [hlink]
    dsimp only
    rw [hcell,Option.map_some]
    exact congrArg (fun written => some (next,written)) hwritten

theorem Holds.brserverClientInfo? (h : list.Holds cells) (clientIds : ℕ → UInt32) :
    list.brserverClientInfo? clientIds =
      some (list.count,fun i => ((cells.map (·.2.id))[i]?).getD (clientIds i)) := by
  obtain ⟨link,-,hloop⟩ := writeIds_eq h.chain clientIds (Nat.le_refl _)
  rw [List.take_length] at hloop
  rw [ClientLinkedList.brserverClientInfo?,h.count,hloop]
  rfl

/-! ## The calls -/

/-- `pick` is the address `malloc` would like. -/
inductive ListCall
  | add (client : ClientEndpoint) (pick : ℕ)
  | remove (id : UInt32)

def call? (list : ClientLinkedList) : ListCall → Option ClientLinkedList
  | .add client pick => (list.addToList? pick client).map Prod.fst
  | .remove id => (list.removeFromList? (fun memory _ => some (memory,0)) id).map Prod.fst

/-- What a call does to the members: a full list lets nobody in, and the first client with the
id goes. -/
def ListCall.apply (members : List ClientEndpoint) : ListCall → List ClientEndpoint
  | .add client _ => if members.length = 4294967295 then members else members ++ [client]
  | .remove id => members.eraseP (·.id == id)

theorem eraseP_absent {id : UInt32} (habsent : ∀ c ∈ cells, c.2.id ≠ id) :
    (cells.map Prod.snd).eraseP (·.id == id) = cells.map Prod.snd := by
  refine List.eraseP_of_forall_not fun client hmem => ?_
  obtain ⟨c,hc,rfl⟩ := List.mem_map.mp hmem
  exact fun htest => habsent c hc (beq_iff_eq.mp htest)

theorem eraseP_first {pre post : List (ℕ × ClientEndpoint)} {p : ℕ} {c : ClientEndpoint} {id : UInt32}
    (hpre : ∀ x ∈ pre, x.2.id ≠ id) (hid : c.id = id) :
    ((pre ++ (p,c) :: post).map Prod.snd).eraseP (·.id == id) = (pre ++ post).map Prod.snd := by
  rw [List.map_append,List.map_cons,List.eraseP_append_right _ (fun client hmem => ?_)]
  · dsimp only
    rw [List.eraseP_cons_of_pos (p := fun client : ClientEndpoint => client.id == id) (beq_iff_eq.mpr hid),
      List.map_append]
  obtain ⟨x,hx,rfl⟩ := List.mem_map.mp hmem
  exact fun htest => hpre x hx (beq_iff_eq.mp htest)

theorem Holds.remove (h : list.Holds cells) (id : UInt32) :
    ∃ list' cells', list.call? (.remove id) = some list' ∧ list'.Holds cells' ∧
      cells'.map Prod.snd = (cells.map Prod.snd).eraseP (·.id == id) := by
  rcases first_cases cells id with habsent | ⟨pre,p,c,post,rfl,hpre,hid⟩
  · refine ⟨list,cells,?_,h,(eraseP_absent habsent).symm⟩
    rw [call?,h.remove_absent _ habsent]
    rfl
  · rw [eraseP_first hpre hid]
    have hcount := h.count_sub (by rw [List.length_append,List.length_cons]; omega)
    rcases List.eq_nil_or_concat pre with rfl | ⟨pre,⟨q,d⟩,rfl⟩
    · rw [List.nil_append] at h
      obtain ⟨next,hcell,hrest,hremove⟩ := h.remove_head (fun memory _ => some (memory,0)) hid
      refine ⟨_,post,by rw [call?,hremove]; rfl,⟨hrest.frame fun a ha => ?_,by simpa using hcount⟩,rfl⟩
      exact Heap.free_of_ne _ (h.chain.head_apart a ha)
    · rw [List.concat_eq_append] at *
      have hassoc : pre ++ [(q,d)] ++ (p,c) :: post = pre ++ (q,d) :: (p,c) :: post := by simp
      rw [hassoc] at h
      obtain ⟨next,hcell,hremove⟩ := h.remove_interior (fun memory _ => some (memory,0)) hpre hid
      refine ⟨_,pre ++ (q,d) :: post,by rw [call?,hremove]; rfl,⟨h.chain.unlink hcell d,?_⟩,by simp⟩
      rw [hassoc] at hcount
      simpa using hcount

theorem Holds.call (h : list.Holds cells) (c : ListCall) :
    ∃ list' cells', list.call? c = some list' ∧ list'.Holds cells' ∧
      cells'.map Prod.snd = c.apply (cells.map Prod.snd) := by
  cases c with
  | add client pick =>
    by_cases hfull : list.count = 0xFFFFFFFF
    · refine ⟨list,cells,?_,h,?_⟩
      · rw [call?,addToList?,if_pos hfull]
        rfl
      · rw [ListCall.apply,List.length_map,if_pos (h.full.mp hfull)]
    · obtain ⟨list',p,hadd,h'⟩ := h.add hfull pick client
      refine ⟨list',_,by rw [call?,hadd]; rfl,h',?_⟩
      rw [ListCall.apply,List.length_map,if_neg (mt h.full.mpr hfull),List.map_append]
      rfl
  | remove id => exact h.remove id

theorem Holds.run (h : list.Holds cells) (calls : List ListCall) :
    ∃ list' cells', Execution.run call? list calls = some list' ∧ list'.Holds cells' ∧
      cells'.map Prod.snd = calls.foldl ListCall.apply (cells.map Prod.snd) := by
  induction calls generalizing list cells with
  | nil => exact ⟨list,cells,rfl,h,rfl⟩
  | cons c calls ih =>
    obtain ⟨list₁,cells₁,hcall,h₁,hmembers₁⟩ := h.call c
    obtain ⟨list₂,cells₂,hrun,h₂,hmembers₂⟩ := ih h₁
    exact ⟨list₂,cells₂,Execution.run_cons.mpr ⟨list₁,hcall,hrun⟩,h₂,by rw [hmembers₂,hmembers₁,List.foldl_cons]⟩

/-- After any calls the nodes hold the members in order, and all readers agree on them. -/
theorem clients_in_order (memory : ServerMemory) (calls : List ListCall) :
    ∃ list cells members, members = calls.foldl ListCall.apply [] ∧
      Execution.run call? (initaliseList memory) calls = some list ∧
      Chain list.memory.nodes list.head cells ∧ cells.map Prod.snd = members ∧ list.count.toNat = cells.length ∧
      (∀ id, list.getFromList? id =
        some ((members.find? (·.id == id)).elim (-1,none) fun client => (0,some client))) ∧
      (∀ clientIds, list.brserverClientInfo? clientIds =
        some (list.count,fun i => ((members.map (·.id))[i]?).getD (clientIds i))) ∧
      ∀ garbage, list.getIdArray? garbage = some (if members = [] then (-1,none) else (0,some (members.map (·.id)))) := by
  obtain ⟨list,cells,hrun,h,hmembers⟩ := (holds_initaliseList memory).run calls
  have hids : cells.map (·.2.id) = (cells.map Prod.snd).map (·.id) := (List.map_map).symm
  refine ⟨list,cells,cells.map Prod.snd,hmembers,hrun,h.chain,rfl,h.count,h.getFromList?,?_,?_⟩
  · intro clientIds
    rw [h.brserverClientInfo?,hids]
  · intro garbage
    rw [h.getIdArray?,hids]
    simp only [List.map_eq_nil_iff]

end ClientLinkedList
end CoreStack.BattleRoyale
