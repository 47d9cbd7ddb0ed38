import Mathlib.Algebra.Group.Int.Defs
import Mathlib.Data.List.FinRange
import Mathlib.Tactic.Common

/-! # Checked accesses and loops with checked steps

A step that may fail is given beside the plain step it checks. A loop of steps whose
checks all pass does what the plain loop does.
-/
namespace Checked
variable {α β : Type*}

/-- The cell of an array behind an index, if there is one. -/
def cell? (n : ℕ) (i : ℤ) : Option (Fin n) :=
  if h : 0 ≤ i ∧ i < n then some ⟨i.toNat,by omega⟩ else none

theorem cell?_natCast {n i : ℕ} (h : i < n) : cell? n i = some ⟨i,h⟩ := by
  rw [cell?,dif_pos ⟨Int.natCast_nonneg i,Int.ofNat_lt.mpr h⟩]
  rfl

/-- The loop may stop early: what comes after the first hit is not checked. -/
theorem anyM_of_some {f : α → Option Bool} {test : α → Bool} (l : List α) (h : ∀ a ∈ l, f a = some (test a)) :
    l.anyM f = some (l.any test) := by
  induction l with
  | nil => rfl
  | cons a l ih =>
    obtain ⟨ha,hl⟩ := List.forall_mem_cons.mp h
    rw [List.anyM,ha,Option.bind_eq_bind,Option.bind_some,List.any_cons]
    cases test a with
    | true => rfl
    | false => exact ih hl

theorem mapM_of_some {f : α → Option β} {g : α → β} (l : List α) (h : ∀ a ∈ l, f a = some (g a)) :
    l.mapM f = some (l.map g) := by
  induction l with
  | nil => rfl
  | cons a l ih =>
    obtain ⟨ha,hl⟩ := List.forall_mem_cons.mp h
    rw [List.mapM_cons,ha,ih hl]
    rfl

/-- The checks pass in all states with an invariant that the steps keep. -/
theorem foldlM_of_some {f : β → α → Option β} {step : β → α → β} {I : β → Prop} (l : List α) {b : β}
    (h : ∀ a ∈ l, ∀ b, I b → f b a = some (step b a) ∧ I (step b a)) (hb : I b) :
    l.foldlM f b = some (l.foldl step b) := by
  induction l generalizing b with
  | nil => rfl
  | cons a l ih =>
    obtain ⟨ha,hl⟩ := List.forall_mem_cons.mp h
    obtain ⟨hstep,hnext⟩ := ha b hb
    rw [List.foldlM_cons,hstep,Option.bind_eq_bind,Option.bind_some,List.foldl_cons]
    exact ih hl hnext

end Checked

/-! ## Loops over the indices of an array

What a loop `for (i = 0; i < n; i++)` keeps, stated with the number of indices done so far,
and the index its search ends at.
-/
namespace Indices
variable {β : Type*} {n : ℕ}

/-- The loop over the indices from `k` on. -/
theorem foldlM_from {I : ℕ → β → Prop} {f : β → Fin n → Option β}
    (hstep : ∀ (i : Fin n) b, I i b → ∃ b', f b i = some b' ∧ I (i + 1) b') {l : List (Fin n)} {k : ℕ}
    (hl : ∀ j i, l[j]? = some i → i.val = k + j) {b : β} (hb : I k b) :
    ∃ b', l.foldlM f b = some b' ∧ I (k + l.length) b' := by
  induction l generalizing k b with
  | nil => exact ⟨b,rfl,hb⟩
  | cons i l ih =>
    obtain rfl : i.val = k := hl 0 i rfl
    obtain ⟨b₁,hf,hb₁⟩ := hstep i b hb
    obtain ⟨b₂,hrest,hb₂⟩ := ih (fun j i' hj => (hl (j + 1) i' hj).trans (by omega)) hb₁
    refine ⟨b₂,?_,?_⟩
    · rw [List.foldlM_cons,hf]
      exact hrest
    · rw [List.length_cons,Nat.add_comm l.length,← Nat.add_assoc]
      exact hb₂

theorem foldlM_finRange {I : ℕ → β → Prop} {f : β → Fin n → Option β}
    (hstep : ∀ (i : Fin n) b, I i b → ∃ b', f b i = some b' ∧ I (i + 1) b') {b : β} (hb : I 0 b) :
    ∃ b', (List.finRange n).foldlM f b = some b' ∧ I n b' := by
  have hindex : ∀ j i, (List.finRange n)[j]? = some i → i.val = 0 + j := by
    intro j i hj
    obtain ⟨hlt,hget⟩ := List.getElem?_eq_some_iff.mp hj
    rw [List.getElem_finRange] at hget
    rw [← hget,Nat.zero_add]
    rfl
  obtain ⟨b',hf,hb'⟩ := foldlM_from hstep hindex hb
  rw [List.length_finRange,Nat.zero_add] at hb'
  exact ⟨b',hf,hb'⟩

theorem foldl_finRange {I : ℕ → β → Prop} {f : β → Fin n → β} (hstep : ∀ (i : Fin n) b, I i b → I (i + 1) (f b i))
    {b : β} (hb : I 0 b) : I n ((List.finRange n).foldl f b) := by
  obtain ⟨b',hf,hb'⟩ := foldlM_finRange (f := fun b i => some (f b i)) (fun i b hb => ⟨_,rfl,hstep i b hb⟩) hb
  rw [Checked.foldlM_of_some (I := fun _ => True) _ (fun _ _ _ _ => ⟨rfl,trivial⟩) trivial,Option.some_inj] at hf
  exact hf ▸ hb'

theorem find?_finRange {test : Fin n → Bool} {i : Fin n} (hi : test i = true) (hbefore : ∀ j < i, test j = false) :
    (List.finRange n).find? test = some i := by
  cases h : (List.finRange n).find? test with
  | none => exact absurd hi (List.find?_eq_none.mp h i (List.mem_finRange i))
  | some j =>
    obtain ⟨hj,a,b,hsplit,hnot⟩ := List.find?_eq_some_iff_append.mp h
    have hsorted : (a ++ j :: b).Pairwise (· < ·) := hsplit ▸ List.pairwise_lt_finRange n
    have hmem : i ∈ a ++ j :: b := hsplit ▸ List.mem_finRange i
    rcases List.mem_append.mp hmem with ha | hb
    · exact absurd hi (by simpa using hnot i ha)
    · rcases List.mem_cons.mp hb with rfl | hb
      · rfl
      · have hlt : j < i := List.rel_of_pairwise_cons (List.pairwise_append.mp hsorted).2.1 hb
        exact absurd hj (by rw [hbefore j hlt]; exact Bool.false_ne_true)

theorem find?_finRange_none {test : Fin n → Bool} (h : ∀ i, test i = false) : (List.finRange n).find? test = none :=
  List.find?_eq_none.mpr fun i _ => by rw [h i]; exact Bool.false_ne_true

end Indices
