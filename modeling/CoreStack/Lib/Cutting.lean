import Mathlib.Data.List.Infix

/-! # Cutting a sequence at a delimiter

A sequence is cut where the delimiter occurs for the first time. When no proper end
of the delimiter is a beginning of it, two occurrences never overlap, and the piece
in front is told by the delimiter not occurring in it.
-/
namespace Cutting
variable {α : Type*} {delim s before after before' after' : List α}

/-- The delimiter occurs behind `before` and nowhere earlier. -/
structure Cut (delim s before after : List α) : Prop where
  split : s = before ++ (delim ++ after)
  first : ∀ k, k < before.length → ¬delim <+: s.drop k

def Unbordered (delim : List α) : Prop :=
  delim ≠ [] ∧ ∀ k, k < delim.length → 0 < k → ¬delim.drop k <+: delim

instance [DecidableEq α] (delim : List α) : Decidable (Unbordered delim) := inferInstanceAs (Decidable (_ ∧ _))

theorem Cut.occurs (h : Cut delim s before after) : delim <+: s.drop before.length := by
  rw [h.split,List.drop_left]
  exact List.prefix_append delim after

theorem Cut.length (h : Cut delim s before after) : s.length = before.length + delim.length + after.length := by
  rw [h.split,List.length_append,List.length_append,Nat.add_assoc]

theorem Cut.unique (h : Cut delim s before after) (h' : Cut delim s before' after') :
    before = before' ∧ after = after' := by
  have hlen : before.length = before'.length := by
    apply Nat.le_antisymm
    · exact Nat.le_of_not_lt fun hlt => h.first _ hlt h'.occurs
    · exact Nat.le_of_not_lt fun hlt => h'.first _ hlt h.occurs
  obtain ⟨hb,ha⟩ := List.append_inj (h.split.symm.trans h'.split) hlen
  exact ⟨hb,List.append_cancel_left ha⟩

theorem Cut.not_infix (h : Cut delim s before after) (hne : delim ≠ []) : ¬delim <:+: before := by
  rintro ⟨u,v,huv⟩
  have hpos := List.length_pos_iff.mpr hne
  have hlen : before.length = u.length + delim.length + v.length := by
    rw [← huv,List.length_append,List.length_append]
  apply h.first u.length (by omega)
  rw [h.split,← huv,List.append_assoc,List.append_assoc,List.drop_left]
  exact List.prefix_append _ _

/-- An occurrence that ends within a piece lies in the piece. -/
theorem infix_of_occurs {k : ℕ} (h : delim <+: (before ++ after).drop k) (hk : k + delim.length ≤ before.length) :
    delim <:+: before := by
  have hle : delim.length ≤ (before.drop k).length := by
    rw [List.length_drop]
    omega
  rw [List.drop_append_of_le_length (by omega)] at h
  exact (List.prefix_of_prefix_length_le h (List.prefix_append _ _) hle).isInfix.trans (List.drop_suffix k before).isInfix

theorem Unbordered.apart (hd : Unbordered delim) {i j : ℕ} (hi : delim <+: s.drop i) (hj : delim <+: s.drop j)
    (hij : i < j) : i + delim.length ≤ j := by
  by_contra hlt
  have hstep : s.drop j = (s.drop i).drop (j - i) := by
    rw [List.drop_drop]
    congr 1
    omega
  have hend : delim.drop (j - i) <+: s.drop j := by
    rw [hstep]
    exact hi.drop (j - i)
  apply hd.2 (j - i) (by omega) (by omega)
  exact List.prefix_of_prefix_length_le hend hj (by rw [List.length_drop]; exact Nat.sub_le _ _)

theorem cut_iff (hd : Unbordered delim) :
    Cut delim s before after ↔ s = before ++ (delim ++ after) ∧ ¬delim <:+: before := by
  constructor
  · intro h
    exact ⟨h.split,h.not_infix hd.1⟩
  · rintro ⟨hs,hno⟩
    refine ⟨hs,fun k hk hocc => hno ?_⟩
    have hcut : delim <+: s.drop before.length := by
      rw [hs,List.drop_left]
      exact List.prefix_append delim after
    have hapart := hd.apart hocc hcut hk
    rw [hs] at hocc
    exact infix_of_occurs hocc hapart

/-- The cut of what follows one more element, unless the delimiter starts there. -/
theorem Cut.cons {a : α} (h : Cut delim s before after) (ha : ¬delim <+: a :: s) :
    Cut delim (a :: s) (a :: before) after where
  split := by rw [h.split,List.cons_append]
  first k hk := by
    cases k with
    | zero => exact ha
    | succ k => exact h.first k (Nat.lt_of_succ_lt_succ hk)

theorem cut_nil (after : List α) : Cut delim (delim ++ after) [] after :=
  ⟨rfl,fun _ hk => absurd hk (Nat.not_lt_zero _)⟩

theorem exists_cut (h : delim <:+: s) : ∃ before after, Cut delim s before after := by
  induction s with
  | nil =>
    rw [List.infix_nil.mp h]
    exact ⟨[],[],cut_nil []⟩
  | cons a s ih =>
    by_cases ha : delim <+: a :: s
    · obtain ⟨after,hs⟩ := ha
      rw [← hs]
      exact ⟨[],after,cut_nil after⟩
    · obtain ⟨before,after,hcut⟩ := ih ((List.infix_cons_iff.mp h).resolve_left ha)
      exact ⟨a :: before,after,hcut.cons ha⟩

/-- Cut at every delimiter, each piece is followed by one. -/
theorem exists_pieces (hd : Unbordered delim) (s : List α) :
    ∃ pieces : List (List α), pieces.flatMap (· ++ delim) = s ++ delim ∧ ∀ piece ∈ pieces, ¬delim <:+: piece := by
  induction hn : s.length using Nat.strong_induction_on generalizing s with
  | _ n ih =>
    by_cases h : delim <:+: s
    · obtain ⟨before,after,hcut⟩ := exists_cut h
      have hpos := List.length_pos_iff.mpr hd.1
      have hlen := hcut.length
      obtain ⟨pieces,hjoin,hfree⟩ := ih after.length (by omega) after rfl
      refine ⟨before :: pieces,?_,List.forall_mem_cons.mpr ⟨hcut.not_infix hd.1,hfree⟩⟩
      rw [List.flatMap_cons,hjoin,hcut.split]
      simp only [List.append_assoc]
    · refine ⟨[s],?_,List.forall_mem_singleton.mpr h⟩
      rw [List.flatMap_singleton]

end Cutting
