import Mathlib.Tactic.Common
import Mathlib.Data.List.Basic
import Mathlib.Logic.Function.Basic

/-! # Regions of memory with records in them

A region is a list of cells and an array a function on its indices. An access that
leaves one of them fails. Records of one size are stored and loaded one behind the
other by a loop that keeps an offset.
-/
namespace Region
variable {B E : Type*} {m : ℕ}

def store (region : List B) (offset : ℕ) (data : List B) : Option (List B) :=
  if offset + data.length ≤ region.length then
    some (region.take offset ++ data ++ region.drop (offset + data.length))
  else none

def load (region : List B) (offset length : ℕ) : Option (List B) :=
  if offset + length ≤ region.length then some ((region.drop offset).take length) else none

def cell (array : Fin m → E) (i : ℕ) : Option E := if h : i < m then some (array ⟨i,h⟩) else none

def setCell (array : Fin m → E) (i : ℕ) (e : E) : Option (Fin m → E) :=
  if h : i < m then some (Function.update array ⟨i,h⟩ e) else none

/-- The loop over `n` records from index `i` on, with the offset of the next one. -/
def storeRecords (encode : E → List B) (array : Fin m → E) : ℕ → ℕ → List B × ℕ → Option (List B × ℕ)
  | 0, _, r => some r
  | n + 1, i, (region,offset) =>
    (cell array i).bind fun e => (store region offset (encode e)).bind fun region =>
      storeRecords encode array n (i + 1) (region,offset + (encode e).length)

def loadRecords (decode : List B → E) (size : ℕ) (region : List B) :
    ℕ → ℕ → (Fin m → E) × ℕ → Option ((Fin m → E) × ℕ)
  | 0, _, r => some r
  | n + 1, i, (array,offset) =>
    (load region offset size).bind fun data => (setCell array i (decode data)).bind fun array =>
      loadRecords decode size region n (i + 1) (array,offset + size)

def records (encode : E → List B) (array : Fin m → E) : ℕ → ℕ → List B
  | 0, _ => []
  | n + 1, i => ((cell array i).map encode).getD [] ++ records encode array n (i + 1)

/-! ## One access -/

theorem store_append (pre : List B) {rest data : List B} (h : data.length ≤ rest.length) :
    store (pre ++ rest) pre.length data = some (pre ++ (data ++ rest.drop data.length)) := by
  have hfit : pre.length + data.length ≤ (pre ++ rest).length := by
    rw [List.length_append]
    omega
  rw [store,if_pos hfit,List.take_left,List.drop_append,List.append_assoc]
  simp

theorem load_append (pre data rest : List B) :
    load (pre ++ (data ++ rest)) pre.length data.length = some data := by
  have hfit : pre.length + data.length ≤ (pre ++ (data ++ rest)).length := by
    simp only [List.length_append]
    omega
  rw [load,if_pos hfit,List.drop_left,List.take_left]

theorem store_eq (pre : List B) {region rest data : List B} {offset : ℕ} (hregion : region = pre ++ rest)
    (hoffset : offset = pre.length) (h : data.length ≤ rest.length) :
    store region offset data = some (pre ++ data ++ rest.drop data.length) := by
  rw [hregion,hoffset,store_append pre h,List.append_assoc]

theorem load_eq (pre data : List B) {region rest : List B} {offset length : ℕ} (hregion : region = pre ++ (data ++ rest))
    (hoffset : offset = pre.length) (hlength : length = data.length) : load region offset length = some data := by
  rw [hregion,hoffset,hlength,load_append]

theorem load_isSome {region : List B} {offset length : ℕ} (h : offset + length ≤ region.length) :
    ∃ data, load region offset length = some data := ⟨_,if_pos h⟩

/-- What is loaded from a region is loaded from every longer one. -/
theorem load_extend {region data : List B} {offset length : ℕ} (h : load region offset length = some data) (rest : List B) :
    load (region ++ rest) offset length = some data := by
  unfold load at h
  split at h
  · next hfit =>
    have hlonger : offset + length ≤ (region ++ rest).length := Nat.le_trans hfit (by rw [List.length_append]; omega)
    rw [load,if_pos hlonger,List.drop_append_of_le_length (by omega),List.take_append_of_le_length (by
      rw [List.length_drop]
      omega)]
    exact h
  · cases h

theorem loadRecords_extend {decode : List B → E} {size : ℕ} {region : List B} (rest : List B) {n i : ℕ}
    {r r' : (Fin m → E) × ℕ} (h : loadRecords decode size region n i r = some r') :
    loadRecords decode size (region ++ rest) n i r = some r' := by
  induction n generalizing i r with
  | zero => exact h
  | succ n ih =>
    obtain ⟨data,hdata,h⟩ := Option.bind_eq_some_iff.mp h
    obtain ⟨array,harray,h⟩ := Option.bind_eq_some_iff.mp h
    rw [loadRecords,load_extend hdata rest,Option.bind_some,harray,Option.bind_some]
    exact ih h

theorem cell_eq {array : Fin m → E} {i : ℕ} (h : i < m) : cell array i = some (array ⟨i,h⟩) := dif_pos h

theorem setCell_eq {array : Fin m → E} {i : ℕ} (h : i < m) (e : E) :
    setCell array i e = some (Function.update array ⟨i,h⟩ e) := dif_pos h

/-! ## Loops over records -/

section Records
variable {encode : E → List B} {decode : List B → E} {size : ℕ}

theorem length_records (hsize : ∀ e, (encode e).length = size) {array : Fin m → E} {n i : ℕ} (h : i + n ≤ m) :
    (records encode array n i).length = n * size := by
  induction n generalizing i with
  | zero => rw [Nat.zero_mul]; rfl
  | succ n ih =>
    have hrest := ih (i := i + 1) (by omega)
    rw [records,cell_eq (by omega),Option.map_some,Option.getD_some,List.length_append,hsize,hrest,Nat.succ_mul,
      Nat.add_comm]

/-- Records that fit are written behind what is there and nowhere else. -/
theorem storeRecords_append (hsize : ∀ e, (encode e).length = size) {array : Fin m → E} {n i : ℕ} (hi : i + n ≤ m)
    (pre : List B) {rest : List B} (hfit : n * size ≤ rest.length) :
    storeRecords encode array n i (pre ++ rest,pre.length) =
      some (pre ++ (records encode array n i ++ rest.drop (n * size)),pre.length + n * size) := by
  induction n generalizing i pre rest with
  | zero =>
    rw [storeRecords,records,Nat.zero_mul]
    rfl
  | succ n ih =>
    rw [Nat.succ_mul] at hfit
    have hhead : (encode (array ⟨i,by omega⟩)).length ≤ rest.length := by
      rw [hsize]
      omega
    have hdrop : n * size ≤ (rest.drop (encode (array ⟨i,by omega⟩)).length).length := by
      rw [List.length_drop,hsize]
      omega
    have htail := ih (i := i + 1) (by omega) (pre ++ encode (array ⟨i,by omega⟩)) hdrop
    rw [List.length_append,List.append_assoc] at htail
    rw [storeRecords,cell_eq (by omega),Option.bind_some,store_append pre hhead,Option.bind_some,htail,records,
      cell_eq (by omega),Option.map_some,Option.getD_some,List.drop_drop,hsize,Nat.succ_mul]
    simp only [List.append_assoc,Nat.add_assoc,Nat.add_comm size]

theorem storeRecords_eq (hsize : ∀ e, (encode e).length = size) {array : Fin m → E} {n : ℕ} (hn : n ≤ m)
    (pre : List B) {region rest : List B} {offset : ℕ} (hregion : region = pre ++ rest) (hoffset : offset = pre.length)
    (hfit : n * size ≤ rest.length) :
    storeRecords encode array n 0 (region,offset) =
      some (pre ++ records encode array n 0 ++ rest.drop (n * size),offset + n * size) := by
  rw [hregion,hoffset,storeRecords_append hsize (by omega) pre hfit,List.append_assoc]

theorem loadRecords_records (hsize : ∀ e, (encode e).length = size) (hround : ∀ e, decode (encode e) = e)
    {array : Fin m → E} (old : Fin m → E) {n i : ℕ} (hi : i + n ≤ m) (pre rest : List B) :
    loadRecords decode size (pre ++ (records encode array n i ++ rest)) n i (old,pre.length) =
      some (fun j => if i ≤ j.val ∧ j.val < i + n then array j else old j,pre.length + n * size) := by
  induction n generalizing i old pre with
  | zero =>
    rw [loadRecords,Nat.zero_mul]
    have hnone : (fun j : Fin m => if i ≤ j.val ∧ j.val < i + 0 then array j else old j) = old := by
      funext j
      rw [if_neg (by omega)]
    rw [hnone]
    rfl
  | succ n ih =>
    have hrecords : records encode array (n + 1) i = encode (array ⟨i,by omega⟩) ++ records encode array n (i + 1) := by
      rw [records,cell_eq (by omega)]
      rfl
    have htail := ih (Function.update old ⟨i,by omega⟩ (array ⟨i,by omega⟩)) (i := i + 1) (by omega)
      (pre ++ encode (array ⟨i,by omega⟩))
    rw [List.length_append,hsize,List.append_assoc] at htail
    have hload := load_append pre (encode (array ⟨i,by omega⟩)) (records encode array n (i + 1) ++ rest)
    rw [hsize] at hload
    rw [hrecords,List.append_assoc,loadRecords,hload,Option.bind_some,setCell_eq (by omega),Option.bind_some,hround,htail]
    have hcells : (fun j : Fin m => if i + 1 ≤ j.val ∧ j.val < i + 1 + n then array j
        else Function.update old ⟨i,by omega⟩ (array ⟨i,by omega⟩) j) =
        fun j => if i ≤ j.val ∧ j.val < i + (n + 1) then array j else old j := by
      funext j
      by_cases hj : j.val = i
      · have heq : j = ⟨i,by omega⟩ := Fin.ext hj
        rw [if_neg (by omega),if_pos (by omega),heq,Function.update_self]
      · have hne : j ≠ ⟨i,by omega⟩ := fun h => hj (congrArg Fin.val h)
        rw [Function.update_of_ne hne]
        have hrange : (i + 1 ≤ j.val ∧ j.val < i + 1 + n) ↔ (i ≤ j.val ∧ j.val < i + (n + 1)) := by omega
        simp only [hrange]
    rw [hcells,Nat.succ_mul,Nat.add_assoc,Nat.add_comm size]

theorem loadRecords_eq (hsize : ∀ e, (encode e).length = size) (hround : ∀ e, decode (encode e) = e)
    {array : Fin m → E} (old : Fin m → E) {n : ℕ} (hn : n ≤ m) (pre : List B) {region body rest : List B} {offset : ℕ}
    (hbody : body = records encode array n 0) (hregion : region = pre ++ (body ++ rest)) (hoffset : offset = pre.length) :
    loadRecords decode size region n 0 (old,offset) =
      some (fun j => if j.val < n then array j else old j,offset + n * size) := by
  have hcells : (fun j : Fin m => if 0 ≤ j.val ∧ j.val < 0 + n then array j else old j) =
      fun j => if j.val < n then array j else old j := by
    funext j
    simp only [Nat.zero_le,true_and,Nat.zero_add]
  rw [hregion,hbody,hoffset,loadRecords_records hsize hround old (by omega),hcells]

/-- Whatever the region holds, records inside of it are loaded into the array. -/
theorem loadRecords_isSome (decode : List B → E) (old : Fin m → E) {region : List B} {n i offset : ℕ} (hi : i + n ≤ m)
    (hfit : offset + n * size ≤ region.length) :
    ∃ array, loadRecords decode size region n i (old,offset) = some (array,offset + n * size) := by
  induction n generalizing i old offset with
  | zero => exact ⟨old,by rw [loadRecords,Nat.zero_mul]; rfl⟩
  | succ n ih =>
    rw [Nat.succ_mul] at hfit
    have hhead : offset + size ≤ region.length := by omega
    have htail : offset + size + n * size ≤ region.length := by omega
    obtain ⟨data,hdata⟩ := load_isSome hhead
    obtain ⟨array,harray⟩ := ih (Function.update old ⟨i,by omega⟩ (decode data)) (i := i + 1) (by omega) htail
    refine ⟨array,?_⟩
    rw [loadRecords,hdata,Option.bind_some,setCell_eq (by omega),Option.bind_some,harray,Nat.succ_mul,Nat.add_assoc,
      Nat.add_comm size]

end Records
end Region
