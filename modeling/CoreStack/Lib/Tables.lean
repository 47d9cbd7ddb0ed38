import Mathlib.Data.List.Basic
import Mathlib.Tactic.Common

/-! # Rows behind a table of pointers

A table lists the rows its pointers lead to; `none` is a null pointer. An access that
leaves the table or a row, or goes through a null pointer, fails.
-/
namespace Tables
variable {α : Type*}

abbrev Table (α : Type*) := List (Option (List α))

def read? (t : Table α) (i j : ℕ) : Option α := t[i]?.join.bind fun row => row[j]?

def write? (t : Table α) (i j : ℕ) (a : α) : Option (Table α) :=
  t[i]?.join.bind fun row => if j < row.length then some (t.set i (some (row.set j a))) else none

def setRow? (t : Table α) (i : ℕ) (row : Option (List α)) : Option (Table α) :=
  if i < t.length then some (t.set i row) else none

structure Square (n : ℕ) (t : Table α) : Prop where
  length : t.length = n
  rows : ∀ r ∈ t, ∃ row, r = some row ∧ row.length = n

variable {n : ℕ} {t : Table α}

theorem Square.row (h : Square n t) {i : ℕ} (hi : i < n) : ∃ row, t[i]? = some (some row) ∧ row.length = n := by
  have hlt : i < t.length := h.length ▸ hi
  obtain ⟨row,hrow,hlen⟩ := h.rows _ (List.getElem_mem hlt)
  exact ⟨row,by rw [List.getElem?_eq_getElem hlt,hrow],hlen⟩

theorem Square.write (h : Square n t) {i j : ℕ} (hi : i < n) (hj : j < n) (a : α) :
    ∃ t', write? t i j a = some t' ∧ Square n t' := by
  obtain ⟨row,hrow,hlen⟩ := h.row hi
  refine ⟨_,by rw [write?,hrow,Option.join_some,Option.bind_some,if_pos (hlen ▸ hj)],?_,?_⟩
  · rw [List.length_set,h.length]
  · intro r hr
    rcases List.mem_or_eq_of_mem_set hr with hr | rfl
    · exact h.rows r hr
    · exact ⟨_,rfl,by rw [List.length_set,hlen]⟩

/-- Exactly the cells of the square can be written. -/
theorem Square.write_isSome (h : Square n t) (i j : ℕ) (a : α) :
    (∃ t', write? t i j a = some t') ↔ i < n ∧ j < n := by
  constructor
  · rintro ⟨t',ht⟩
    obtain ⟨row,hrow,hwrite⟩ := Option.bind_eq_some_iff.mp ht
    rw [Option.join_eq_some_iff] at hrow
    obtain ⟨hlt,hget⟩ := List.getElem?_eq_some_iff.mp hrow
    obtain ⟨row',heq,hlen⟩ := h.rows _ (List.getElem_mem hlt)
    rw [hget,Option.some_inj] at heq
    subst heq
    split at hwrite
    · next hj => exact ⟨h.length ▸ hlt,hlen ▸ hj⟩
    · cases hwrite
  · rintro ⟨hi,hj⟩
    obtain ⟨t',ht,-⟩ := h.write hi hj a
    exact ⟨t',ht⟩

theorem read_write {t t' : Table α} {i j : ℕ} {a : α} (h : write? t i j a = some t') (k l : ℕ) :
    read? t' k l = if k = i ∧ l = j then some a else read? t k l := by
  obtain ⟨row,hrow,hwrite⟩ := Option.bind_eq_some_iff.mp h
  rw [Option.join_eq_some_iff] at hrow
  split at hwrite
  · next hj =>
    cases hwrite
    obtain ⟨hlt,-⟩ := List.getElem?_eq_some_iff.mp hrow
    unfold read?
    by_cases hk : k = i
    · subst hk
      rw [List.getElem?_set_self hlt,hrow,Option.join_some,Option.join_some,Option.bind_some,Option.bind_some]
      by_cases hl : l = j
      · subst hl
        rw [if_pos ⟨rfl,rfl⟩,List.getElem?_set_self hj]
      · rw [if_neg (fun hkl => hl hkl.2),List.getElem?_set_ne (Ne.symm hl)]
    · rw [if_neg (fun hkl => hk hkl.1),List.getElem?_set_ne (Ne.symm hk)]
  · cases hwrite

/-! ## Filling -/

theorem read_filled {n m i j : ℕ} (f : ℕ → ℕ → α) (hi : i < n) (hj : j < m) :
    read? ((List.range n).map fun i => some ((List.range m).map (f i))) i j = some (f i j) := by
  simp only [read?,List.getElem?_map,List.getElem?_range hi,Option.map_some,Option.join_some,Option.bind_some,
    List.getElem?_range hj]

theorem square_filled (n : ℕ) (f : ℕ → ℕ → α) :
    Square n ((List.range n).map fun i => some ((List.range n).map (f i))) where
  length := by rw [List.length_map,List.length_range]
  rows := by
    intro r hr
    obtain ⟨i,-,rfl⟩ := List.mem_map.mp hr
    exact ⟨_,rfl,by rw [List.length_map,List.length_range]⟩

/-- The loop that fills the first `k` cells of a row. -/
theorem foldlM_write {i k : ℕ} {row : List α} (f : ℕ → α) (hrow : t[i]? = some (some row)) (hk : k ≤ row.length) :
    (List.range k).foldlM (fun t j => write? t i j (f j)) t =
      some (t.set i (some ((List.range k).map f ++ row.drop k))) := by
  obtain ⟨hlt,hget⟩ := List.getElem?_eq_some_iff.mp hrow
  induction k with
  | zero =>
    rw [List.range_zero,List.foldlM_nil,List.map_nil,List.nil_append,List.drop_zero,← hget,List.set_getElem_self]
    rfl
  | succ k ih =>
    rw [List.range_succ,List.foldlM_append,ih (by omega)]
    have hset : (t.set i (some ((List.range k).map f ++ row.drop k)))[i]? =
        some (some ((List.range k).map f ++ row.drop k)) := List.getElem?_set_self hlt
    have hlen : k < ((List.range k).map f ++ row.drop k).length := by
      simp only [List.length_append,List.length_map,List.length_range,List.length_drop]
      omega
    have hnext : ((List.range k).map f ++ row.drop k).set k (f k) =
        (List.range k ++ [k]).map f ++ row.drop (k + 1) := by
      rw [List.set_append_right _ _ (by simp),List.length_map,List.length_range,Nat.sub_self,
        List.drop_eq_getElem_cons (by omega),List.set_cons_zero,List.map_append,List.append_assoc]
      rfl
    rw [Option.bind_eq_bind,Option.bind_some,List.foldlM_cons,write?,hset,Option.join_some,Option.bind_some,
      if_pos hlen,List.set_set,hnext]
    rfl

theorem foldlM_write_null {i k : ℕ} (f : ℕ → α) (hrow : t[i]? = some none) (hk : 0 < k) :
    (List.range k).foldlM (fun t j => write? t i j (f j)) t = none := by
  obtain ⟨k,rfl⟩ := Nat.exists_eq_succ_of_ne_zero (Nat.ne_of_gt hk)
  rw [List.range_succ_eq_map,List.foldlM_cons,write?,hrow]
  rfl

end Tables
