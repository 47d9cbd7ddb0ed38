import Mathlib.Data.List.Forall2
import Mathlib.Tactic.Common

/-! # Lists of slots

What a list of slots becomes when one slot is rewritten, or each of them.
-/

/-! ## Relations between lists slot by slot

A list of slots and the list it becomes are related if each slot is related to what it
becomes. The lists are as long as each other.
-/
namespace Slotwise
variable {α S X : Type*} {R : α → α → Prop} {l l' l'' : List α}

theorem refl (h : ∀ a, R a a) (l : List α) : List.Forall₂ R l l := List.forall₂_same.mpr fun a _ => h a

theorem trans {P Q : α → α → Prop} (h₁ : List.Forall₂ P l l') (h₂ : List.Forall₂ Q l' l'')
    (h : ∀ a b c, P a b → Q b c → R a c) : List.Forall₂ R l l'' := by
  induction h₁ generalizing l'' with
  | nil =>
    cases h₂
    exact .nil
  | cons hab _ ih =>
    cases h₂ with
    | cons hbc hrest => exact .cons (h _ _ _ hab hbc) (ih hrest)

theorem set (hrefl : ∀ a, R a a) {i : ℕ} {a b : α} (ha : l[i]? = some a) (h : R a b) : List.Forall₂ R l (l.set i b) := by
  induction l generalizing i with
  | nil => cases ha
  | cons c l ih =>
    cases i with
    | zero =>
      obtain rfl : c = a := Option.some.inj ha
      exact .cons h (refl hrefl l)
    | succ i => exact .cons (hrefl c) (ih ha)

theorem get (h : List.Forall₂ R l l') {i : ℕ} {a : α} (ha : l[i]? = some a) : ∃ b, l'[i]? = some b ∧ R a b := by
  induction h generalizing i with
  | nil => cases ha
  | cons hab _ ih =>
    cases i with
    | zero =>
      cases ha
      exact ⟨_,rfl,hab⟩
    | succ i => exact ih ha

theorem get_back (h : List.Forall₂ R l l') {i : ℕ} {b : α} (hb : l'[i]? = some b) : ∃ a, l[i]? = some a ∧ R a b :=
  get h.flip hb

theorem foldl (slots : S → List α) (hrefl : ∀ a, R a a) (htrans : ∀ a b c, R a b → R b c → R a c) {step : S → X → S}
    (xs : List X) (h : ∀ x ∈ xs, ∀ s, List.Forall₂ R (slots s) (slots (step s x))) (s : S) :
    List.Forall₂ R (slots s) (slots (xs.foldl step s)) := by
  induction xs generalizing s with
  | nil => exact refl hrefl _
  | cons x xs ih =>
    obtain ⟨hx,hxs⟩ := List.forall_mem_cons.mp h
    exact trans (hx s) (ih hxs _) htrans

end Slotwise

/-! ## Replacing one entry of a list

What does not tell the new entry from the old one does not notice. When the entries
belong to owners, a change spares the others if only entries of its owner are touched.
-/
namespace CoreStack.Lib
variable {α β ι : Type*} {owner : α → ι} {a : ι} {xs ys : List α}

/-! ### An entry that looks the same -/

theorem map_set_of_eq {f : α → β} {i : ℕ} {x y : α} (hx : xs[i]? = some x) (hf : f y = f x) :
    (xs.set i y).map f = xs.map f := by
  obtain ⟨hi,rfl⟩ := List.getElem?_eq_some_iff.mp hx
  rw [List.map_set,hf]
  apply List.ext_getElem?
  intro j
  by_cases hj : i = j
  · subst hj
    simp [hi]
  · rw [List.getElem?_set_ne hj]

theorem countP_set_of_eq {f : α → Bool} {i : ℕ} {x y : α} (hx : xs[i]? = some x) (hf : f y = f x) :
    (xs.set i y).countP f = xs.countP f := by
  have h := congrArg (List.countP id) (map_set_of_eq hx hf)
  simpa only [List.countP_map,Function.id_comp] using h

theorem countP_drop_set_of_eq {f : α → Bool} {i : ℕ} {x y : α} (hx : xs[i]? = some x) (hf : f y = f x) (n : ℕ) :
    ((xs.set i y).drop n).countP f = (xs.drop n).countP f := by
  rw [List.drop_set]
  split
  · rfl
  · rename_i hni
    refine countP_set_of_eq ?_ hf
    rw [List.getElem?_drop,Nat.add_sub_cancel' (Nat.not_lt.mp hni)]
    exact hx

theorem countP_drop_eq {i : ℕ} {x : α} (hx : xs[i]? = some x) (f : α → Bool) :
    (xs.drop i).countP f = (xs.drop (i + 1)).countP f + if f x then 1 else 0 := by
  obtain ⟨hi,rfl⟩ := List.getElem?_eq_some_iff.mp hx
  rw [List.drop_eq_getElem_cons hi,List.countP_cons]

/-! ### Owners -/

/-- Every entry of an owner other than `a` is still in its place. -/
def Spares (owner : α → ι) (a : ι) (xs ys : List α) : Prop :=
  ∀ (i : ℕ) (x : α), xs[i]? = some x → owner x ≠ a → ys[i]? = some x

theorem Spares.refl (owner : α → ι) (a : ι) (xs : List α) : Spares owner a xs xs := fun _ _ hx _ => hx

theorem Spares.set {i : ℕ} {x : α} (hx : xs[i]? = some x) (hown : owner x = a) (y : α) :
    Spares owner a xs (xs.set i y) := by
  intro j z hz hne
  have hij : i ≠ j := by
    rintro rfl
    rw [hx] at hz
    cases hz
    exact hne hown
  rwa [List.getElem?_set_ne hij]

theorem not_spares_set {i : ℕ} {x y : α} (hx : xs[i]? = some x) (hown : owner x ≠ a) (hy : y ≠ x) :
    ¬Spares owner a xs (xs.set i y) := by
  intro h
  have hi : i < xs.length := (List.getElem?_eq_some_iff.mp hx).1
  have hkept := h i x hx hown
  rw [List.getElem?_set_self hi] at hkept
  exact hy (Option.some.inj hkept)

end CoreStack.Lib
