import Mathlib.Tactic.Common
import Mathlib.Logic.Function.Iterate

/-! # While loops

A loop ends in the first iterate of its body that fails its test. A variant bounds the
number of iterations, and a loop that follows another one step by step ends with it.
-/
namespace Looping
variable {S T : Type*}

/-- `while (test(s)) s = body(s);`, unless `fuel` tests do not suffice. -/
def while? (test : S → Bool) (body : S → S) : ℕ → S → Option S
  | 0, _ => none
  | fuel + 1, s => if test s then while? test body fuel (body s) else some s

structure Exit (test : S → Bool) (body : S → S) (n : ℕ) (s t : S) : Prop where
  eq : t = body^[n] s
  before : ∀ i < n, test (body^[i] s) = true
  last : test t = false

variable {test : S → Bool} {body : S → S} {test' : T → Bool} {body' : T → T}

theorem Exit.zero {s : S} (h : test s = false) : Exit test body 0 s s :=
  ⟨rfl,fun i hi => absurd hi (Nat.not_lt_zero i),h⟩

theorem Exit.succ {n : ℕ} {s t : S} (h : test s = true) (he : Exit test body n (body s) t) :
    Exit test body (n + 1) s t where
  eq := by rw [Function.iterate_succ_apply]; exact he.eq
  before := by
    intro i hi
    cases i with
    | zero => exact h
    | succ i =>
      rw [Function.iterate_succ_apply]
      exact he.before i (by omega)
  last := he.last

theorem Exit.tail {n : ℕ} {s t : S} (h : Exit test body (n + 1) s t) :
    test s = true ∧ Exit test body n (body s) t := by
  refine ⟨h.before 0 (Nat.succ_pos n),h.eq,?_,h.last⟩
  intro i hi
  exact h.before (i + 1) (by omega)

theorem Exit.while?_eq {n : ℕ} {s t : S} (h : Exit test body n s t) {fuel : ℕ} (hf : n < fuel) :
    while? test body fuel s = some t := by
  induction n generalizing s fuel with
  | zero =>
    obtain ⟨fuel,rfl⟩ := Nat.exists_eq_add_of_lt hf
    have hs : t = s := h.eq
    rw [Nat.zero_add,while?,if_neg (by rw [← hs,h.last]; decide),hs]
  | succ n ih =>
    obtain ⟨ht,he⟩ := h.tail
    obtain ⟨k,rfl⟩ := Nat.exists_eq_add_of_lt hf
    rw [while?,if_pos ht]
    exact ih he (by omega)

/-- What every iteration lowers bounds their number. -/
theorem exists_exit {I : S → Prop} (variant : S → ℕ)
    (hstep : ∀ s, I s → test s = true → I (body s) ∧ variant (body s) < variant s) {s : S} (hs : I s) :
    ∃ n t, n ≤ variant s ∧ Exit test body n s t ∧ I t := by
  induction hv : variant s using Nat.strongRecOn generalizing s with
  | ind v ih =>
    cases ht : test s with
    | false => exact ⟨0,s,Nat.zero_le _,.zero ht,hs⟩
    | true =>
      obtain ⟨hi,hlt⟩ := hstep s hs ht
      obtain ⟨n,t,hn,he,hit⟩ := ih _ (hv ▸ hlt) hi rfl
      exact ⟨n + 1,t,by omega,he.succ ht,hit⟩

/-- Two loops whose states stay related end after equally many iterations. -/
theorem Exit.follow {R : S → T → Prop} (htest : ∀ s t, R s t → test s = test' t)
    (hbody : ∀ s t, R s t → test s = true → R (body s) (body' t)) {n : ℕ} {s s' : S} {t : T}
    (h : Exit test body n s s') (hr : R s t) : ∃ t', Exit test' body' n t t' ∧ R s' t' := by
  induction n generalizing s t with
  | zero =>
    have hs : s' = s := h.eq
    subst hs
    exact ⟨t,.zero (by rw [← htest _ t hr]; exact h.last),hr⟩
  | succ n ih =>
    obtain ⟨ht,he⟩ := h.tail
    obtain ⟨t',he',hr'⟩ := ih he (hbody s t hr ht)
    exact ⟨t',he'.succ (by rw [← htest s t hr]; exact ht),hr'⟩

end Looping
