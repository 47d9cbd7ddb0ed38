import Mathlib.Data.List.Basic
import Mathlib.Data.Nat.ModEq
import Mathlib.Logic.Function.Basic
import Mathlib.Tactic.Common

/-! # What was written last

A later entry overrides an earlier one: in a log, in the cells of a ring, and where events
mark cells and wipe them.
-/

/-! ## What a log says last

Of the entries of a log some carry a value of interest.
-/
namespace Latest
variable {α E V : Type*} {f : E → Option V} {log more : List E}

/-- The value of the last entry that carries one. -/
def latest (f : E → Option V) (log : List E) : Option V := (log.filterMap f).getLast?

theorem latest_nil : latest f [] = none := rfl

theorem latest_append : latest f (log ++ more) = (latest f more).or (latest f log) := by
  rw [latest,List.filterMap_append,List.getLast?_append]
  rfl

theorem latest_singleton (e : E) : latest f [e] = f e := by
  unfold latest
  cases h : f e with
  | none => rw [List.filterMap_cons_none h]; rfl
  | some v => rw [List.filterMap_cons_some h]; rfl

theorem latest_concat (e : E) : latest f (log ++ [e]) = (f e).or (latest f log) := by
  rw [latest_append,latest_singleton]

theorem latest_append_of_none (h : ∀ e ∈ more, f e = none) : latest f (log ++ more) = latest f log := by
  have hnil : more.filterMap f = [] := List.filterMap_eq_nil_iff.mpr h
  rw [latest,List.filterMap_append,hnil,List.append_nil]
  rfl

theorem mem_of_latest {v : V} (h : latest f log = some v) : ∃ e ∈ log, f e = some v :=
  List.mem_filterMap.mp (List.mem_of_getLast? h)

/-- The values found in a list in which one place alone can have one. -/
theorem filterMap_slot {g : α → Option V} {slots : List α} {i : ℕ} {a : α} (ha : slots[i]? = some a)
    (honly : ∀ j b, slots[j]? = some b → g b ≠ none → j = i) : slots.filterMap g = (g a).toList := by
  induction slots generalizing i with
  | nil => cases ha
  | cons b slots ih =>
    cases i with
    | zero =>
      obtain rfl : b = a := Option.some.inj ha
      have hrest : slots.filterMap g = [] := by
        refine List.filterMap_eq_nil_iff.mpr fun c hc => ?_
        obtain ⟨j,hj⟩ := List.getElem?_of_mem hc
        by_contra hne
        exact absurd (honly (j + 1) c hj hne) (Nat.succ_ne_zero j)
      cases hb : g b with
      | none => rw [List.filterMap_cons_none hb,hrest]; rfl
      | some v => rw [List.filterMap_cons_some hb,hrest]; rfl
    | succ i =>
      have hb : g b = none := by
        by_contra hne
        exact absurd (honly 0 b rfl hne).symm (Nat.succ_ne_zero i)
      rw [List.filterMap_cons_none hb]
      exact ih ha fun j c hj hne => Nat.succ.inj (honly (j + 1) c hj hne)

/-- Entries written slot by slot, of which one slot's alone can carry a value. -/
theorem latest_slots {g : α → Option E} {slots : List α} {i : ℕ} {a : α} (ha : slots[i]? = some a)
    (honly : ∀ j b, slots[j]? = some b → (g b).bind f ≠ none → j = i) : latest f (slots.filterMap g) = (g a).bind f := by
  have hone : slots.filterMap (fun b => (g b).bind f) = ((g a).bind f).toList := filterMap_slot ha honly
  rw [latest,List.filterMap_filterMap,hone]
  cases (g a).bind f with
  | none => rfl
  | some v => rfl

end Latest

/-! ## Cells written in rotation

Values go into `n` cells one after another, and from cell `n - 1` on to cell `0`. The
value written as number `j` stays in cell `j % n` until `n` more have been written.
-/
namespace Rings
variable {α : Type*} {n : ℕ} [NeZero n]

/-- The cells hold the last `n` of the values written. -/
def Keeps (cells : Fin n → α) (written : List α) : Prop :=
  ∀ j (h : j < written.length), written.length ≤ j + n → cells (Fin.ofNat n j) = written[j]

omit [NeZero n] in
theorem mod_ne_of_lt {i j : ℕ} (hij : i < j) (hj : j < i + n) : i % n ≠ j % n := by
  intro h
  have hdvd : n ∣ j - i := (Nat.modEq_iff_dvd' (Nat.le_of_lt hij)).mp h
  have hle := Nat.le_of_dvd (Nat.sub_pos_of_lt hij) hdvd
  omega

theorem keeps_nil (cells : Fin n → α) : Keeps cells [] := by
  intro j h
  exact absurd h (Nat.not_lt_zero j)

theorem Keeps.push {cells : Fin n → α} {written : List α} (h : Keeps cells written) (value : α) :
    Keeps (Function.update cells (Fin.ofNat n written.length) value) (written ++ [value]) := by
  intro j hj hn
  rw [List.length_append,List.length_singleton] at hj hn
  rcases Nat.lt_or_ge j written.length with hold | hge
  · have hne : Fin.ofNat n j ≠ Fin.ofNat n written.length := by
      intro he
      exact mod_ne_of_lt hold (by omega) (congrArg Fin.val he)
    rw [Function.update_of_ne hne,List.getElem_append_left hold]
    exact h j hold (by omega)
  · have hlast : j = written.length := by omega
    subst hlast
    rw [Function.update_self,List.getElem_concat_length rfl]

/-- The last `k` values, read from their cells. -/
theorem Keeps.latest {cells : Fin n → α} {written : List α} (h : Keeps cells written) {k : ℕ} (hk : k ≤ n)
    (hlen : k ≤ written.length) :
    (List.range k).map (fun i => cells (Fin.ofNat n (written.length - k + i))) = written.drop (written.length - k) := by
  refine List.ext_getElem (by simp; omega) fun i hi _ => ?_
  rw [List.length_map,List.length_range] at hi
  rw [List.getElem_map,List.getElem_range,List.getElem_drop]
  exact h _ (by omega) (by omega)

end Rings

/-! ## Cells that events mark and wipe

Each event first wipes some cells and then marks some. Whether a cell is marked in the
end is decided by the last event that marks it.
-/
namespace Marking
variable {C E : Type*} (wipes marks : E → C → Prop)

/-- The cell is marked by an event, or from the start, and wiped by none after that. -/
def Remains (marked : C → Prop) (events : List E) (c : C) : Prop :=
  (marked c ∧ ∀ e ∈ events, ¬wipes e c) ∨
    ∃ before e after, events = before ++ e :: after ∧ marks e c ∧ ∀ q ∈ after, ¬wipes q c

variable {wipes marks}

theorem remains_nil {marked : C → Prop} {c : C} : Remains wipes marks marked [] c ↔ marked c := by
  constructor
  · rintro (⟨h,-⟩ | ⟨before,e,after,h,-⟩)
    · exact h
    · exact absurd h (by simp)
  · intro h
    exact Or.inl ⟨h,by simp⟩

theorem remains_cons {marked : C → Prop} {e : E} {events : List E} {c : C} :
    Remains wipes marks marked (e :: events) c ↔
      Remains wipes marks (fun c => marks e c ∨ (marked c ∧ ¬wipes e c)) events c := by
  constructor
  · rintro (⟨hc,hkept⟩ | ⟨before,m,after,heq,hm,hkept⟩)
    · have hrest : ∀ q ∈ events, ¬wipes q c := fun q hq => hkept q (List.mem_cons_of_mem e hq)
      exact Or.inl ⟨Or.inr ⟨hc,hkept e List.mem_cons_self⟩,hrest⟩
    · cases before with
      | nil =>
        obtain ⟨rfl,rfl⟩ := List.cons.inj heq
        exact Or.inl ⟨Or.inl hm,hkept⟩
      | cons b before =>
        obtain ⟨-,htail⟩ := List.cons.inj heq
        exact Or.inr ⟨before,m,after,htail,hm,hkept⟩
  · rintro (⟨hm | ⟨hc,he⟩,hkept⟩ | ⟨before,m,after,rfl,hm,hkept⟩)
    · exact Or.inr ⟨[],e,events,rfl,hm,hkept⟩
    · refine Or.inl ⟨hc,fun q hq => ?_⟩
      rcases List.mem_cons.mp hq with rfl | hq
      · exact he
      · exact hkept q hq
    · exact Or.inr ⟨e :: before,m,after,rfl,hm,hkept⟩

theorem remains_congr {marked marked' : C → Prop} (h : ∀ c, marked c ↔ marked' c) {events : List E} {c : C} :
    Remains wipes marks marked events c ↔ Remains wipes marks marked' events c := by
  rw [funext fun c => propext (h c)]

end Marking
