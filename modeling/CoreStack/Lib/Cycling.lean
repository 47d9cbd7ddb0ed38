import Mathlib.Tactic.Common
import Mathlib.Data.List.Rotate

/-! # Searching a list in a circle

A search that starts behind an entry and wraps around finds the next marked entry in
the order of the list. How many marked entries stand before the start says which one.
-/
namespace Cycling
variable {α : Type*} {marked : α → Bool}

theorem filter_rotate {l : List α} {k : ℕ} (hk : k ≤ l.length) :
    (l.rotate k).filter marked = (l.filter marked).rotate ((l.take k).countP marked) := by
  have hs : l.filter marked = (l.take k).filter marked ++ (l.drop k).filter marked := by
    rw [← List.filter_append,List.take_append_drop]
  rw [List.rotate_eq_drop_append_take hk,List.filter_append,hs,List.countP_eq_length_filter,
    List.rotate_append_length_eq]

/-- The search finds the marked entry whose number is the count before the start. -/
theorem find?_rotate {l : List α} {k : ℕ} (hk : k ≤ l.length) :
    (l.rotate k).find? marked =
      (l.filter marked)[(l.take k).countP marked % (l.filter marked).length]? := by
  rw [← List.head?_filter,filter_rotate hk,← List.rotate_mod]
  rcases Nat.eq_zero_or_pos (l.filter marked).length with h0 | hpos
  · rw [List.eq_nil_of_length_eq_zero h0]
    rfl
  · exact List.head?_rotate (Nat.mod_lt _ hpos)

theorem getElem?_filter {l : List α} {i : ℕ} {x : α} (hi : l[i]? = some x) (hx : marked x = true) :
    (l.filter marked)[(l.take i).countP marked]? = some x := by
  obtain ⟨hlt,rfl⟩ := List.getElem?_eq_some_iff.mp hi
  have hs : l.filter marked = (l.take i).filter marked ++ l[i] :: (l.drop (i + 1)).filter marked := by
    rw [← List.filter_cons_of_pos hx,← List.filter_append,← List.drop_eq_getElem_cons hlt,List.take_append_drop]
  rw [hs,List.countP_eq_length_filter,List.getElem?_append_right le_rfl,Nat.sub_self]
  rfl

theorem count_behind {l : List α} (hn : l.Nodup) {i j : ℕ} {x : α} (hi : l[i]? = some x)
    (hj : (l.filter marked)[j]? = some x) : (l.take (i + 1)).countP marked = j + 1 := by
  have hx : marked x = true := (List.mem_filter.mp (List.mem_of_getElem? hj)).2
  have hnum := getElem?_filter hi hx
  have hlt := (List.getElem?_eq_some_iff.mp hnum).1
  have he : (l.take i).countP marked = j := (List.getElem?_inj hlt (hn.filter marked)).mp (hnum.trans hj.symm)
  rw [List.take_add_one,hi,List.countP_append,he]
  simp [hx]

theorem filterMap_range_getElem? (l : List α) : (List.range l.length).filterMap (l[·]?) = l := by
  induction l with
  | nil => rfl
  | cons x l ih =>
    rw [List.length_cons,List.range_succ_eq_map,List.filterMap_cons,List.filterMap_map]
    exact congrArg (x :: ·) ih

theorem filterMap_mod (l : List α) (k : ℕ) :
    (List.range l.length).filterMap (fun n => l[(n + k) % l.length]?) = l.rotate k := by
  conv_rhs => rw [← filterMap_range_getElem? (l.rotate k)]
  rw [List.length_rotate]
  refine List.filterMap_congr fun n hm => ?_
  exact (List.getElem?_rotate (List.mem_range.mp hm)).symm

end Cycling
