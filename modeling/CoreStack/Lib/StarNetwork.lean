import Mathlib.Algebra.Order.BigOperators.Group.Finset
import Mathlib.Algebra.BigOperators.Group.Finset.Piecewise
import Mathlib.Algebra.Order.Group.Nat

/-! # A hub with numbered spokes and one reliable queue per direction

Messages wait oldest first. A node pushes to its own upward queue, the hub
delivers addressed messages downwards, and either side takes from the front.
The counts over all spokes say how many messages of a kind are in flight.
-/
namespace Star
variable {M : Type*}

structure Link (M : Type*) where
  up : List M
  down : List M

abbrev Net (M : Type*) := ℕ → Link M

def Net.empty : Net M := fun _ => ⟨[],[]⟩

def Net.push (net : Net M) (i : ℕ) (ms : List M) : Net M :=
  Function.update net i { net i with up := (net i).up ++ ms }

def Net.dropUp (net : Net M) (i : ℕ) : Net M :=
  Function.update net i { net i with up := (net i).up.tail }

def Net.dropDown (net : Net M) (i : ℕ) : Net M :=
  Function.update net i { net i with down := (net i).down.tail }

/-- The messages of an output list that go to spoke `i`, in order. -/
def addressed (outs : List (ℕ × M)) (i : ℕ) : List M := (outs.filter (·.1 == i)).map (·.2)

def Net.deliver (net : Net M) (outs : List (ℕ × M)) : Net M := fun i =>
  { net i with down := (net i).down ++ addressed outs i }

theorem Net.push_up (net : Net M) (i j : ℕ) (ms : List M) :
    (net.push i ms j).up = if j = i then (net j).up ++ ms else (net j).up := by
  unfold push
  by_cases h : j = i
  · subst h; simp
  · simp [h]

@[simp] theorem Net.push_down (net : Net M) (i j : ℕ) (ms : List M) :
    (net.push i ms j).down = (net j).down := by
  unfold push
  by_cases h : j = i
  · subst h; simp
  · simp [h]

theorem Net.dropUp_up (net : Net M) (i j : ℕ) :
    (net.dropUp i j).up = if j = i then (net j).up.tail else (net j).up := by
  unfold dropUp
  by_cases h : j = i
  · subst h; simp
  · simp [h]

@[simp] theorem Net.dropUp_down (net : Net M) (i j : ℕ) : (net.dropUp i j).down = (net j).down := by
  unfold dropUp
  by_cases h : j = i
  · subst h; simp
  · simp [h]

@[simp] theorem Net.dropDown_up (net : Net M) (i j : ℕ) : (net.dropDown i j).up = (net j).up := by
  unfold dropDown
  by_cases h : j = i
  · subst h; simp
  · simp [h]

theorem Net.dropDown_down (net : Net M) (i j : ℕ) :
    (net.dropDown i j).down = if j = i then (net j).down.tail else (net j).down := by
  unfold dropDown
  by_cases h : j = i
  · subst h; simp
  · simp [h]

theorem Net.dropUp_suffix (net : Net M) (i j : ℕ) : (net.dropUp i j).up <:+ (net j).up := by
  rw [dropUp_up]
  split
  · exact List.tail_suffix _
  · exact List.suffix_rfl

theorem Net.dropDown_suffix (net : Net M) (i j : ℕ) : (net.dropDown i j).down <:+ (net j).down := by
  rw [dropDown_down]
  split
  · exact List.tail_suffix _
  · exact List.suffix_rfl

@[simp] theorem Net.deliver_up (net : Net M) (outs : List (ℕ × M)) (i : ℕ) :
    (net.deliver outs i).up = (net i).up := rfl

@[simp] theorem Net.deliver_down (net : Net M) (outs : List (ℕ × M)) (i : ℕ) :
    (net.deliver outs i).down = (net i).down ++ addressed outs i := rfl

@[simp] theorem addressed_nil (i : ℕ) : addressed ([] : List (ℕ × M)) i = [] := rfl

theorem addressed_cons (o : ℕ × M) (outs : List (ℕ × M)) (i : ℕ) :
    addressed (o :: outs) i = if o.1 = i then o.2 :: addressed outs i else addressed outs i := by
  by_cases h : o.1 = i <;> simp [addressed,h]

theorem mem_addressed {outs : List (ℕ × M)} {i : ℕ} {m : M} :
    m ∈ addressed outs i ↔ (i,m) ∈ outs := by
  simp [addressed]

def Net.upCount (net : Net M) (n : ℕ) (p : M → Bool) : ℕ := ∑ i ∈ Finset.range n, (net i).up.countP p

def Net.downCount (net : Net M) (n : ℕ) (p : M → Bool) : ℕ := ∑ i ∈ Finset.range n, (net i).down.countP p

private theorem sum_range_single {f g : ℕ → ℕ} {n i : ℕ} (hi : i < n) (hne : ∀ j, j ≠ i → g j = f j) :
    ∑ j ∈ Finset.range n, g j + f i = ∑ j ∈ Finset.range n, f j + g i := by
  have hm : i ∈ Finset.range n := Finset.mem_range.mpr hi
  rw [← Finset.add_sum_erase _ g hm,← Finset.add_sum_erase _ f hm]
  have he : ∑ j ∈ (Finset.range n).erase i, g j = ∑ j ∈ (Finset.range n).erase i, f j :=
    Finset.sum_congr rfl fun j hj => hne j (Finset.ne_of_mem_erase hj)
  omega

@[simp] theorem Net.upCount_push (net : Net M) {n i : ℕ} (hi : i < n) (ms : List M) (p : M → Bool) :
    (net.push i ms).upCount n p = net.upCount n p + ms.countP p := by
  have h := sum_range_single (f := fun j => (net j).up.countP p)
    (g := fun j => (net.push i ms j).up.countP p) hi (fun j hj => by simp only [push_up,if_neg hj])
  simp only [push_up,↓reduceIte,List.countP_append] at h
  simp only [upCount,push_up]
  omega

@[simp] theorem Net.downCount_push (net : Net M) (n i : ℕ) (ms : List M) (p : M → Bool) :
    (net.push i ms).downCount n p = net.downCount n p := by
  simp [downCount]

theorem Net.upCount_dropUp (net : Net M) {n i : ℕ} (hi : i < n) {m : M} {rest : List M}
    (hu : (net i).up = m :: rest) (p : M → Bool) :
    (net.dropUp i).upCount n p + (if p m then 1 else 0) = net.upCount n p := by
  have h := sum_range_single (f := fun j => (net j).up.countP p)
    (g := fun j => (net.dropUp i j).up.countP p) hi (fun j hj => by simp only [dropUp_up,if_neg hj])
  simp only [dropUp_up,↓reduceIte,hu,List.tail_cons,List.countP_cons] at h
  simp only [upCount,dropUp_up]
  omega

theorem Net.downCount_dropDown (net : Net M) {n i : ℕ} (hi : i < n) {m : M} {rest : List M}
    (hd : (net i).down = m :: rest) (p : M → Bool) :
    (net.dropDown i).downCount n p + (if p m then 1 else 0) = net.downCount n p := by
  have h := sum_range_single (f := fun j => (net j).down.countP p)
    (g := fun j => (net.dropDown i j).down.countP p) hi (fun j hj => by simp only [dropDown_down,if_neg hj])
  simp only [dropDown_down,↓reduceIte,hd,List.tail_cons,List.countP_cons] at h
  simp only [downCount,dropDown_down]
  omega

@[simp] theorem Net.upCount_deliver (net : Net M) (n : ℕ) (outs : List (ℕ × M)) (p : M → Bool) :
    (net.deliver outs).upCount n p = net.upCount n p := rfl

theorem sum_addressed_le (outs : List (ℕ × M)) (n : ℕ) (p : M → Bool) :
    ∑ i ∈ Finset.range n, (addressed outs i).countP p ≤ outs.countP (fun o => p o.2) := by
  induction outs with
  | nil => simp
  | cons o outs ih =>
    have hc : ∀ i, (addressed (o :: outs) i).countP p =
        (addressed outs i).countP p + if i = o.1 then (if p o.2 then 1 else 0) else 0 := by
      intro i
      rw [addressed_cons]
      by_cases h : o.1 = i
      · subst h; simp [List.countP_cons]
      · simp [h,Ne.symm h]
    simp only [hc,Finset.sum_add_distrib,Finset.sum_ite_eq',List.countP_cons]
    split <;> omega

theorem Net.downCount_deliver_le (net : Net M) (n : ℕ) (outs : List (ℕ × M)) (p : M → Bool) :
    (net.deliver outs).downCount n p ≤ net.downCount n p + outs.countP (fun o => p o.2) := by
  have h := sum_addressed_le outs n p
  simp only [downCount,deliver_down,List.countP_append,Finset.sum_add_distrib]
  omega

theorem Net.upCount_extend (net : Net M) {n k : ℕ} (h : n ≤ k) (he : ∀ i, ¬i < n → (net i).up = [])
    (p : M → Bool) : net.upCount k p = net.upCount n p := by
  refine (Finset.sum_subset (Finset.range_mono h) ?_).symm
  intro i _ hi
  rw [he i (fun hlt => hi (Finset.mem_range.mpr hlt))]
  rfl

theorem Net.downCount_extend (net : Net M) {n k : ℕ} (h : n ≤ k) (he : ∀ i, ¬i < n → (net i).down = [])
    (p : M → Bool) : net.downCount k p = net.downCount n p := by
  refine (Finset.sum_subset (Finset.range_mono h) ?_).symm
  intro i _ hi
  rw [he i (fun hlt => hi (Finset.mem_range.mpr hlt))]
  rfl

end Star
