import Mathlib.Tactic.Common
import Mathlib.Algebra.BigOperators.Group.List.Basic
import Mathlib.Algebra.GroupWithZero.Nat

/-! # Compacting a list in place

A scan from the end removes every marked entry, moves what stands before it one place
on and puts a blank at the front, so the length stays and the scan looks at the same
place again. What is left are the unmarked entries in their order behind the blanks.
-/
namespace Compaction
variable {α : Type*} (marked : α → Bool) (blank : α)

/-- `n` entries are still to be scanned; a removal keeps `n`, so the fuel counts both. -/
def scan : ℕ → ℕ → List α → ℕ → List α × ℕ
  | 0, _, xs, removed => (xs,removed)
  | _ + 1, 0, xs, removed => (xs,removed)
  | fuel + 1, n + 1, xs, removed =>
    match xs[n]? with
    | some x =>
      if marked x then scan fuel (n + 1) (blank :: xs.eraseIdx n) (removed + 1)
      else scan fuel n xs removed
    | none => (xs,removed)

/-- The blanks stand before the unmarked entries. -/
def compacted (xs : List α) : List α :=
  List.replicate (xs.countP marked) blank ++ xs.filter (!marked ·)

variable {marked blank}

theorem compacted_snoc_unmarked {xs : List α} {x : α} (hx : marked x = false) :
    compacted marked blank (xs ++ [x]) = compacted marked blank xs ++ [x] := by
  simp [compacted,hx]

theorem compacted_snoc_marked {xs : List α} {x : α} (hb : marked blank = false) (hx : marked x = true) :
    compacted marked blank (xs ++ [x]) = compacted marked blank (blank :: xs) := by
  have hr : List.replicate (xs.countP marked + 1) blank = List.replicate (xs.countP marked) blank ++ [blank] :=
    List.replicate_succ'
  simp [compacted,hx,hb,hr]

theorem take_succ_eq {xs : List α} {n : ℕ} {x : α} (hx : xs[n]? = some x) : xs.take (n + 1) = xs.take n ++ [x] := by
  rw [List.take_add_one,hx]
  rfl

theorem take_removed {xs : List α} {n : ℕ} (hn : n < xs.length) :
    (blank :: xs.eraseIdx n).take (n + 1) = blank :: xs.take n := by
  rw [List.take_succ_cons,List.eraseIdx_eq_take_drop_succ,List.take_left' (by simp; omega)]

theorem drop_removed {xs : List α} {n : ℕ} (hn : n < xs.length) :
    (blank :: xs.eraseIdx n).drop (n + 1) = xs.drop (n + 1) := by
  rw [List.drop_succ_cons,List.eraseIdx_eq_take_drop_succ]
  exact List.drop_left' (by simp; omega)

/-- With fuel for every entry and every removal the scan compacts what it looks at. -/
theorem scan_eq (hb : marked blank = false) (fuel n : ℕ) (xs : List α) (removed : ℕ) (hn : n ≤ xs.length)
    (hf : n + (xs.take n).countP marked ≤ fuel) :
    scan marked blank fuel n xs removed =
      (compacted marked blank (xs.take n) ++ xs.drop n,removed + (xs.take n).countP marked) := by
  induction fuel generalizing n xs removed with
  | zero =>
    have hn : n = 0 := by omega
    subst hn
    simp [scan,compacted]
  | succ fuel ih =>
    cases n with
    | zero => simp [scan,compacted]
    | succ n =>
      have hlt : n < xs.length := hn
      have hx : xs[n]? = some xs[n] := List.getElem?_eq_getElem hlt
      have ht := take_succ_eq hx
      simp only [scan,hx]
      split
      · rename_i hm
        have hc : (xs.take (n + 1)).countP marked = (xs.take n).countP marked + 1 := by
          rw [ht,List.countP_append]
          simp [hm]
        have hc' : ((blank :: xs.eraseIdx n).take (n + 1)).countP marked = (xs.take n).countP marked := by
          rw [take_removed hlt]
          simp [hb]
        have hl : n + 1 ≤ (blank :: xs.eraseIdx n).length := by
          rw [List.length_cons,List.length_eraseIdx_of_lt hlt]
          omega
        rw [ih (n + 1) _ (removed + 1) hl (by omega),hc',hc,take_removed hlt,drop_removed hlt,ht,
          compacted_snoc_marked hb hm]
        congr 1
        omega
      · rename_i hm
        have hm : marked xs[n] = false := by simpa using hm
        have hc : (xs.take (n + 1)).countP marked = (xs.take n).countP marked := by
          rw [ht,List.countP_append]
          simp [hm]
        rw [ih n xs removed (by omega) (by omega),hc,ht,compacted_snoc_unmarked hm,
          List.drop_eq_getElem_cons hlt]
        simp

theorem scan_whole (hb : marked blank = false) (fuel : ℕ) (xs : List α) (removed : ℕ)
    (hf : 2 * xs.length ≤ fuel) :
    scan marked blank fuel xs.length xs removed = (compacted marked blank xs,removed + xs.countP marked) := by
  have hc : (xs.take xs.length).countP marked ≤ xs.length := by
    rw [List.take_length]
    exact List.countP_le_length
  rw [scan_eq hb fuel xs.length xs removed (Nat.le_refl _) (by omega)]
  simp

/-- A weight that blanks do not have is kept by the unmarked entries. -/
theorem sum_compacted (weight : α → ℕ) (h0 : weight blank = 0) {w : ℕ} (xs : List α)
    (hw : ∀ x ∈ xs, marked x = true → weight x = w) :
    ((compacted marked blank xs).map weight).sum + w * xs.countP marked = (xs.map weight).sum := by
  induction xs with
  | nil => simp [compacted]
  | cons x xs ih =>
    have h := ih fun y hy => hw y (by simp [hy])
    simp only [compacted,List.map_append,List.map_replicate,h0,List.sum_append,List.sum_replicate,nsmul_zero,
      zero_add] at h ⊢
    cases hx : marked x with
    | true =>
      have hx' := hw x (by simp) hx
      simp only [List.countP_cons,hx,↓reduceIte,List.filter_cons,Bool.not_true,Bool.false_eq_true,List.map_cons,
        List.sum_cons,hx',Nat.mul_succ]
      omega
    | false =>
      simp only [List.countP_cons,hx,Bool.false_eq_true,↓reduceIte,List.filter_cons,Bool.not_false,List.map_cons,
        List.sum_cons,Nat.add_zero]
      omega

end Compaction
