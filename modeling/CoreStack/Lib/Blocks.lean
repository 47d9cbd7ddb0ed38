import Mathlib.Tactic.Common
import Mathlib.Data.List.Basic

/-! # Lists tiled by blocks of one length

A tape that only ever grows by whole blocks keeps its blocks aligned: every
complete block of a prefix of the tape is one of the blocks it was tiled with.
-/
namespace Blocks
variable {α : Type*} {n : ℕ} {P : List α → Prop}

/-- The list is a concatenation of blocks of length `n`, each with the property. -/
def Tiled (n : ℕ) (P : List α → Prop) (xs : List α) : Prop :=
  ∃ bs : List (List α), xs = bs.flatten ∧ ∀ b ∈ bs, b.length = n ∧ P b

/-- Block `j` of a list cut into consecutive blocks. -/
def block (n j : ℕ) (xs : List α) : List α := (xs.drop (n * j)).take n

theorem Tiled.single {b : List α} (hl : b.length = n) (hb : P b) : Tiled n P b :=
  ⟨[b],by simp,by simpa using ⟨hl,hb⟩⟩

theorem Tiled.append {xs ys : List α} (hx : Tiled n P xs) (hy : Tiled n P ys) : Tiled n P (xs ++ ys) := by
  obtain ⟨bs,rfl,hb⟩ := hx
  obtain ⟨cs,rfl,hc⟩ := hy
  refine ⟨bs ++ cs,by simp,?_⟩
  intro b hm
  rcases List.mem_append.mp hm with hm | hm
  · exact hb b hm
  · exact hc b hm

theorem block_flatten {bs : List (List α)} (hl : ∀ b ∈ bs, b.length = n) {j : ℕ} (hj : j < bs.length) :
    block n j bs.flatten = bs[j] := by
  induction bs generalizing j with
  | nil => simp at hj
  | cons b bs ih =>
    have hb : b.length = n := hl b (by simp)
    cases j with
    | zero => simp [block,← hb]
    | succ j =>
      have h := ih (fun c hc => hl c (by simp [hc])) (by simpa using hj)
      have hn : n * (j + 1) = b.length + n * j := by
        rw [hb,Nat.mul_succ,Nat.add_comm]
      simpa [block,hn,List.drop_length_add_append] using h

theorem flatten_length {bs : List (List α)} (hl : ∀ b ∈ bs, b.length = n) :
    bs.flatten.length = n * bs.length := by
  induction bs with
  | nil => simp
  | cons b bs ih =>
    have h := ih fun c hc => hl c (by simp [hc])
    rw [List.flatten_cons,List.length_append,h,hl b (by simp),List.length_cons,Nat.mul_succ,Nat.add_comm]

theorem Tiled.block {xs : List α} (h : Tiled n P xs) (hn : 0 < n) {j : ℕ} (hj : n * (j + 1) ≤ xs.length) :
    P (Blocks.block n j xs) := by
  obtain ⟨bs,rfl,hb⟩ := h
  have hl : ∀ b ∈ bs, b.length = n := fun b hm => (hb b hm).1
  rw [flatten_length hl] at hj
  have hj : j < bs.length := Nat.le_of_mul_le_mul_left hj hn
  rw [block_flatten hl hj]
  exact (hb _ (List.getElem_mem hj)).2

theorem block_of_prefix {xs ys : List α} (h : xs <+: ys) {j : ℕ} (hj : n * (j + 1) ≤ xs.length) :
    block n j xs = block n j ys := by
  obtain ⟨zs,rfl⟩ := h
  have h1 : n * j + n ≤ xs.length := by
    rw [← Nat.mul_succ]
    exact hj
  unfold block
  rw [List.drop_append_of_le_length (by omega),List.take_append_of_le_length (by simp; omega)]

theorem Tiled.forall_mem {xs : List α} {Q : α → Prop} (h : Tiled n P xs) (hP : ∀ b, P b → ∀ a ∈ b, Q a) :
    ∀ a ∈ xs, Q a := by
  obtain ⟨bs,rfl,hb⟩ := h
  intro a ha
  obtain ⟨b,hm,ha⟩ := List.mem_flatten.mp ha
  exact hP b (hb b hm).2 a ha

end Blocks
