import Mathlib.Data.List.Count

/-! # Two sequences of appends to one stream

A schedule says which of two writers makes the next append; `true` is the first.
-/
namespace Interleaving
variable {α : Type*}

def weave : List Bool → List α → List α → List α
  | true :: s, x :: xs, ys => x :: weave s xs ys
  | false :: s, xs, y :: ys => y :: weave s xs ys
  | _, _, _ => []

/-- Every append of both writers is made once. -/
def Schedules (s : List Bool) (m n : ℕ) : Prop := s.count true = m ∧ s.count false = n

instance (s : List Bool) (m n : ℕ) : Decidable (Schedules s m n) := inferInstanceAs (Decidable (_ ∧ _))

/-- One writer is done before the other begins. -/
def Sequential (s : List Bool) (m n : ℕ) : Prop :=
  s = List.replicate m true ++ List.replicate n false ∨ s = List.replicate n false ++ List.replicate m true

instance (s : List Bool) (m n : ℕ) : Decidable (Sequential s m n) := inferInstanceAs (Decidable (_ ∨ _))

theorem weave_swap (s : List Bool) (xs ys : List α) : weave (s.map not) ys xs = weave s xs ys := by
  induction s generalizing xs ys with
  | nil => rfl
  | cons b s ih =>
    cases b with
    | true =>
      cases xs with
      | nil => rfl
      | cons x xs => simp only [List.map_cons,Bool.not_true,weave,ih]
    | false =>
      cases ys with
      | nil => rfl
      | cons y ys => simp only [List.map_cons,Bool.not_false,weave,ih]

theorem weave_replicate_true (s : List Bool) (xs zs ys : List α) :
    weave (List.replicate xs.length true ++ s) (xs ++ zs) ys = xs ++ weave s zs ys := by
  induction xs with
  | nil => rfl
  | cons x xs ih => simp only [List.length_cons,List.replicate_succ,List.cons_append,weave,ih]

theorem weave_replicate_false (s : List Bool) (xs ys zs : List α) :
    weave (List.replicate ys.length false ++ s) xs (ys ++ zs) = ys ++ weave s xs zs := by
  induction ys with
  | nil => rfl
  | cons y ys ih => simp only [List.length_cons,List.replicate_succ,List.cons_append,weave,ih]

/-- A sequential schedule appends one sequence after the other. -/
theorem weave_sequential {s : List Bool} {xs ys : List α} (h : Sequential s xs.length ys.length) :
    weave s xs ys = xs ++ ys ∨ weave s xs ys = ys ++ xs := by
  rcases h with rfl | rfl
  · left
    have hfirst := weave_replicate_true (List.replicate ys.length false) xs [] ys
    have hsecond := weave_replicate_false [] ([] : List α) ys []
    simp only [List.append_nil,weave] at hfirst hsecond
    rw [hfirst,hsecond]
  · right
    have hfirst := weave_replicate_false (List.replicate xs.length true) xs ys []
    have hsecond := weave_replicate_true [] xs [] ([] : List α)
    simp only [List.append_nil,weave] at hfirst hsecond
    rw [hfirst,hsecond]

theorem schedules_swap {s : List Bool} {m n : ℕ} (h : Schedules s m n) : Schedules (s.map not) n m := by
  have hinj : Function.Injective not := Bool.involutive_not.injective
  constructor
  · rw [← Bool.not_false,List.count_map_of_injective s not hinj]
    exact h.2
  · rw [← Bool.not_true,List.count_map_of_injective s not hinj]
    exact h.1

theorem sequential_swap {s : List Bool} {m n : ℕ} (h : Sequential (s.map not) n m) : Sequential s m n := by
  have hs : s = (s.map not).map not := by
    rw [List.map_map,Bool.involutive_not.comp_self,List.map_id]
  rcases h with h | h
  · right
    rw [hs,h]
    simp
  · left
    rw [hs,h]
    simp

/-- The schedule gives the first writer its first `k` appends, then the other cuts in. -/
theorem schedules_lead {s : List Bool} {m n : ℕ} (h : Schedules s m n) :
    s = List.replicate m true ++ List.replicate n false ∨
    ∃ k rest, k < m ∧ s = List.replicate k true ++ false :: rest := by
  induction s generalizing m with
  | nil =>
    obtain ⟨rfl,rfl⟩ := h
    exact Or.inl rfl
  | cons b s ih =>
    cases b with
    | true =>
      obtain ⟨rfl,rfl⟩ := h
      rcases ih (m := s.count true) ⟨rfl,by simp⟩ with hs | ⟨k,rest,hk,hs⟩
      · left
        nth_rewrite 1 [hs]
        simp [List.replicate_succ]
      · right
        refine ⟨k + 1,rest,by simpa using hk,?_⟩
        rw [hs,List.replicate_succ,List.cons_append]
    | false =>
      cases m with
      | zero =>
        left
        have hnone : ∀ b ∈ s, b = false := by
          intro b hb
          have hcount : s.count true = 0 := by simpa using h.1
          cases b with
          | true => exact absurd hb (List.count_eq_zero.mp hcount)
          | false => rfl
        have hlen : s.length + 1 = n := by
          rw [← h.2,List.count_cons_self,List.eq_replicate_of_mem hnone,List.count_replicate_self,
            List.length_replicate]
        rw [List.eq_replicate_of_mem hnone,← hlen]
        simp [List.replicate_succ]
      | succ m => exact Or.inr ⟨0,s,Nat.succ_pos m,rfl⟩

end Interleaving
