import Mathlib.Tactic.Common

/-! # Finite executions of a partial labelled step function

A step function says which labels are enabled in a state and where they lead.
Guarding a step function restricts its executions to those all of whose steps
meet a condition on the state they are taken from.
-/
namespace Execution
variable {S L : Type*}

def run (step : S → L → Option S) : S → List L → Option S
  | s, [] => some s
  | s, l :: ls => (step s l).bind fun t => run step t ls

@[simp] theorem run_nil (step : S → L → Option S) (s : S) : run step s [] = some s := rfl

theorem run_cons {step : S → L → Option S} {s u : S} {l : L} {ls : List L} :
    run step s (l :: ls) = some u ↔ ∃ t, step s l = some t ∧ run step t ls = some u := by
  simp [run,Option.bind_eq_some_iff]

/-- What holds initially and is kept by every step holds at the end of every run. -/
theorem run_invariant {step : S → L → Option S} {I : S → Prop}
    (hstep : ∀ s l t, I s → step s l = some t → I t) {s u : S} {ls : List L}
    (hr : run step s ls = some u) (hs : I s) : I u := by
  induction ls generalizing s with
  | nil =>
    cases hr
    exact hs
  | cons l ls ih =>
    obtain ⟨t,ht,hr⟩ := run_cons.mp hr
    exact ih hr (hstep s l t hs ht)

/-- A step that is always enabled where an invariant holds, and keeps it, never gets stuck. -/
theorem run_total {step : S → L → Option S} {I : S → Prop}
    (hstep : ∀ s l, I s → ∃ t, step s l = some t ∧ I t) {s : S} (hs : I s) (ls : List L) :
    ∃ u, run step s ls = some u ∧ I u := by
  induction ls generalizing s with
  | nil => exact ⟨s,rfl,hs⟩
  | cons l ls ih =>
    obtain ⟨t,ht,hi⟩ := hstep s l hs
    obtain ⟨u,hu,hi⟩ := ih hi
    exact ⟨u,run_cons.mpr ⟨t,ht,hu⟩,hi⟩

def guarded (guard : S → L → Bool) (step : S → L → Option S) (s : S) (l : L) : Option S :=
  if guard s l then step s l else none

theorem guarded_eq_some {guard : S → L → Bool} {step : S → L → Option S} {s t : S} {l : L} :
    guarded guard step s l = some t ↔ guard s l = true ∧ step s l = some t := by
  unfold guarded
  split <;> simp_all

theorem guarded_base {guard : S → L → Bool} {step : S → L → Option S} {I : S → Prop}
    (hI : ∀ s l t, I s → step s l = some t → I t) {s u : S} {ls : List L}
    (hr : run (guarded guard step) s ls = some u) (hi : I s) : I u := by
  refine run_invariant ?_ hr hi
  intro s l t hs ht
  exact hI s l t hs (guarded_eq_some.mp ht).2

/-- A guarded run may use an invariant of the unguarded system at every step. -/
theorem guarded_invariant {guard : S → L → Bool} {step : S → L → Option S} {I J : S → Prop}
    (hI : ∀ s l t, I s → step s l = some t → I t)
    (hJ : ∀ s l t, I s → J s → guard s l = true → step s l = some t → J t)
    {s u : S} {ls : List L} (hr : run (guarded guard step) s ls = some u) (hi : I s) (hj : J s) : J u := by
  have h := run_invariant (I := fun s => I s ∧ J s) ?_ hr ⟨hi,hj⟩
  · exact h.2
  · intro s l t hs ht
    obtain ⟨hg,ht⟩ := guarded_eq_some.mp ht
    exact ⟨hI s l t hs.1 ht,hJ s l t hs.1 hs.2 hg ht⟩

theorem run_append {step : S → L → Option S} {s u : S} {ls ls' : List L} :
    run step s (ls ++ ls') = some u ↔ ∃ t, run step s ls = some t ∧ run step t ls' = some u := by
  induction ls generalizing s with
  | nil => simp
  | cons l ls ih =>
    rw [List.cons_append,run_cons]
    constructor
    · rintro ⟨t,ht,hr⟩
      obtain ⟨v,hv,hr⟩ := ih.mp hr
      exact ⟨v,run_cons.mpr ⟨t,ht,hv⟩,hr⟩
    · rintro ⟨v,hv,hr⟩
      obtain ⟨t,ht,hv⟩ := run_cons.mp hv
      exact ⟨t,ht,ih.mpr ⟨v,hv,hr⟩⟩

theorem run_take_succ {step : S → L → Option S} {s u : S} {ls : List L} {n : ℕ} {l : L} (hl : ls[n]? = some l) :
    run step s (ls.take (n + 1)) = some u ↔ ∃ t, run step s (ls.take n) = some t ∧ step t l = some u := by
  rw [List.take_add_one,hl,Option.toList_some,run_append]
  simp [run]

/-- When a condition on states and labels is exactly what keeps a property, the property
holds all along a run if and only if every step of the run meets the condition. -/
theorem safe_iff {meets : S → L → Prop} {step : S → L → Option S} {I P : S → Prop}
    (hI : ∀ s l t, I s → step s l = some t → I t)
    (hkeep : ∀ s l t, I s → P s → meets s l → step s l = some t → P t)
    (hbreak : ∀ s l t, I s → P s → step s l = some t → P t → meets s l)
    {s : S} (hi : I s) (hp : P s) (ls : List L) :
    (∀ n t, run step s (ls.take n) = some t → P t) ↔
    ∀ n t l u, run step s (ls.take n) = some t → ls[n]? = some l → step t l = some u → meets t l := by
  constructor
  · intro h n t l u ht hl hu
    exact hbreak t l u (run_invariant hI ht hi) (h n t ht) hu (h (n + 1) u ((run_take_succ hl).mpr ⟨t,ht,hu⟩))
  · intro h n
    induction n with
    | zero =>
      rintro t ht
      cases ht
      exact hp
    | succ n ih =>
      intro u hu
      cases hl : ls[n]? with
      | none =>
        rw [List.take_add_one,hl] at hu
        exact ih u (by simpa using hu)
      | some l =>
        obtain ⟨t,ht,hu⟩ := (run_take_succ hl).mp hu
        exact hkeep t l u (run_invariant hI ht hi) (ih t ht) (h n t l u ht hl hu) hu

theorem safe_iff_guard {guard : S → L → Bool} {step : S → L → Option S} {I P : S → Prop}
    (hI : ∀ s l t, I s → step s l = some t → I t)
    (hkeep : ∀ s l t, I s → P s → guard s l = true → step s l = some t → P t)
    (hbreak : ∀ s l t, I s → P s → guard s l = false → step s l = some t → ¬P t)
    {s : S} (hi : I s) (hp : P s) (ls : List L) :
    (∀ n t, run step s (ls.take n) = some t → P t) ↔
    ∀ n t l u, run step s (ls.take n) = some t → ls[n]? = some l → step t l = some u → guard t l = true := by
  refine safe_iff hI hkeep (fun s l t hi hp ht hpt => ?_) hi hp ls
  cases hg : guard s l with
  | true => rfl
  | false => exact absurd hpt (hbreak s l t hi hp hg ht)

/-- When a condition is exactly what enables a step, a run gets through if and only if every
step it comes to meets the condition. -/
theorem defined_iff {meets : S → L → Prop} {step : S → L → Option S} {I : S → Prop}
    (hI : ∀ s l t, I s → step s l = some t → I t) (hstep : ∀ s l, I s → ((∃ t, step s l = some t) ↔ meets s l))
    {s : S} (hi : I s) (ls : List L) :
    (∃ u, run step s ls = some u) ↔
      ∀ n t l, run step s (ls.take n) = some t → ls[n]? = some l → meets t l := by
  induction ls generalizing s with
  | nil => simp
  | cons l ls ih =>
    constructor
    · rintro ⟨u,hu⟩ n t l' ht hl
      obtain ⟨v,hv,hu⟩ := run_cons.mp hu
      cases n with
      | zero =>
        cases ht
        cases hl
        exact (hstep _ _ hi).mp ⟨v,hv⟩
      | succ n =>
        obtain ⟨v',hv',ht⟩ := run_cons.mp ht
        rw [hv,Option.some_inj] at hv'
        subst hv'
        exact (ih (hI _ _ _ hi hv)).mp ⟨u,hu⟩ n t l' ht hl
    · intro h
      obtain ⟨v,hv⟩ := (hstep s l hi).mpr (h 0 s l rfl rfl)
      obtain ⟨u,hu⟩ := (ih (hI _ _ _ hi hv)).mpr fun n t l' ht hl => h (n + 1) t l' (run_cons.mpr ⟨v,hv,ht⟩) hl
      exact ⟨u,run_cons.mpr ⟨v,hv,hu⟩⟩

/-- A property that is never won back holds up to one step, which loses it, and not after it. -/
theorem run_until {step : S → L → Option S} {P : S → Prop} (hback : ∀ s l t, step s l = some t → P t → P s)
    {s u : S} {ls : List L} (hr : run step s ls = some u) (hs : P s) (hu : ¬P u) :
    ∃ n l t v, ls[n]? = some l ∧ run step s (ls.take n) = some t ∧ step t l = some v ∧
      ∀ m w, run step s (ls.take m) = some w → (P w ↔ m ≤ n) := by
  have hlost := fun t ls' (ht : ¬P t) w (hw : run step t ls' = some w) =>
    run_invariant (I := fun s => ¬P s) (fun s l t hs ht hp => hs (hback s l t ht hp)) hw ht
  induction ls generalizing s with
  | nil =>
    cases hr
    exact absurd hs hu
  | cons l ls ih =>
    obtain ⟨t,ht,hr⟩ := run_cons.mp hr
    by_cases hp : P t
    · obtain ⟨n,l',t',v,hl,ht',hv,hsplit⟩ := ih hr hp
      refine ⟨n + 1,l',t',v,hl,run_cons.mpr ⟨t,ht,ht'⟩,hv,fun m w hw => ?_⟩
      cases m with
      | zero =>
        cases hw
        exact iff_of_true hs (Nat.zero_le _)
      | succ m =>
        obtain ⟨t₁,ht₁,hw⟩ := run_cons.mp hw
        obtain rfl : t = t₁ := Option.some.inj (ht.symm.trans ht₁)
        rw [hsplit m w hw,Nat.add_le_add_iff_right]
    · refine ⟨0,l,s,t,rfl,rfl,ht,fun m w hw => ?_⟩
      cases m with
      | zero =>
        cases hw
        exact iff_of_true hs (Nat.le_refl 0)
      | succ m =>
        obtain ⟨t₁,ht₁,hw⟩ := run_cons.mp hw
        obtain rfl : t = t₁ := Option.some.inj (ht.symm.trans ht₁)
        exact iff_of_false (hlost t _ hp w hw) (Nat.not_succ_le_zero m)

/-! ## Runs that keep a log -/

section Log
variable {E : Type*} (events : S → L → List E)

/-- The step with what it does written to the end of a log. -/
def logged (step : S → L → Option S) (s : S × List E) (l : L) : Option (S × List E) :=
  (step s.1 l).map fun t => (t,s.2 ++ events s.1 l)

variable {events}

theorem logged_eq_some {step : S → L → Option S} {s t : S × List E} {l : L} :
    logged events step s l = some t ↔ step s.1 l = some t.1 ∧ t.2 = s.2 ++ events s.1 l := by
  rw [logged,Option.map_eq_some_iff]
  constructor
  · rintro ⟨u,hu,rfl⟩
    exact ⟨hu,rfl⟩
  · rintro ⟨hu,hlog⟩
    exact ⟨t.1,hu,Prod.ext rfl hlog.symm⟩

theorem logged_base {step : S → L → Option S} {s u : S × List E} {ls : List L}
    (hr : run (logged events step) s ls = some u) : run step s.1 ls = some u.1 := by
  induction ls generalizing s with
  | nil =>
    cases hr
    rfl
  | cons l ls ih =>
    obtain ⟨t,ht,hr⟩ := run_cons.mp hr
    exact run_cons.mpr ⟨t.1,(logged_eq_some.mp ht).1,ih hr⟩

end Log

theorem exists_of_run_any (step : S → L → Option S) (s : S) (ls : List L) (test : S → Bool)
    (h : (run step s ls).any test = true) : ∃ u, run step s ls = some u ∧ test u = true := by
  cases hr : run step s ls with
  | none => simp [hr] at h
  | some u => exact ⟨u,rfl,by simpa [hr] using h⟩

end Execution
