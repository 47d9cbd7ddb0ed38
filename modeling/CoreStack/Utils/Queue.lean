import Mathlib.Tactic.Common

/-! # The bounded queue of `DEFINE_QUEUE` (`utils/queue.h`)

The cells written so far are `items[0..rear)`. `head` stands for `front + 1`, the
first cell that is still queued. A cell is not written again before the queue has
run empty, so the queue is full once `rear` has reached `MAX_SIZE`.
-/
namespace CoreStack.Utils
variable {α : Type*} {maxSize : ℕ}

structure Queue (α : Type*) (maxSize : ℕ) where
  items : List α
  head : ℕ
  bounded : items.length ≤ maxSize
  head_le : head ≤ items.length

namespace Queue

def init : Queue α maxSize := ⟨[],0,Nat.zero_le _,Nat.le_refl _⟩

def rear (q : Queue α maxSize) : ℕ := q.items.length

def empty (q : Queue α maxSize) : Bool := q.head == q.rear

def full (q : Queue α maxSize) : Bool := q.rear == maxSize

def enqueue (q : Queue α maxSize) (value : α) : Queue α maxSize × Bool :=
  if h : q.items.length < maxSize then
    (⟨q.items ++ [value],q.head,by rw [List.length_append]; exact h,
      Nat.le_trans q.head_le (by simp)⟩,true)
  else (q,false)

/-- `none` is the null pointer of an empty queue. -/
def peek (q : Queue α maxSize) : Option α := q.items[q.head]?

/-- The queue starts over once its last item is taken. -/
def dequeue (q : Queue α maxSize) : Queue α maxSize × Bool :=
  if h : q.head < q.items.length then
    if q.head + 1 = q.items.length then (init,true) else (⟨q.items,q.head + 1,q.bounded,h⟩,true)
  else (q,false)

/-- What waits in the queue, oldest first. -/
def queued (q : Queue α maxSize) : List α := q.items.drop q.head

def write (q : Queue α maxSize) (i : ℕ) (value : α) : Queue α maxSize :=
  ⟨q.items.set i value,q.head,by simpa using q.bounded,by simpa using q.head_le⟩

/-- The last queued cell is given up: `--rear`. -/
def shrink (q : Queue α maxSize) : Queue α maxSize :=
  if h : q.head < q.items.length then
    ⟨q.items.dropLast,q.head,by rw [List.length_dropLast]; exact Nat.le_trans (Nat.sub_le _ _) q.bounded,
      by rw [List.length_dropLast]; exact Nat.le_sub_one_of_lt h⟩
  else q

/-- The last cell is copied over cell `i`: `items[i] = items[rear - 1]`. -/
def overwrite (q : Queue α maxSize) (i : ℕ) : Queue α maxSize :=
  match q.items.getLast? with
  | some last => q.write i last
  | none => q

theorem full_iff (q : Queue α maxSize) : q.full = true ↔ ¬q.items.length < maxSize := by
  have h := q.bounded
  simp only [full,rear,beq_iff_eq]
  omega

theorem empty_iff (q : Queue α maxSize) : q.empty = true ↔ q.queued = [] := by
  have hle := q.head_le
  rw [empty,beq_iff_eq,queued,List.drop_eq_nil_iff,rear]
  omega

theorem take_head_length (q : Queue α maxSize) : (q.items.take q.head).length = q.head := by
  rw [List.length_take]
  exact Nat.min_eq_left q.head_le

theorem take_head_append (q : Queue α maxSize) : q.items.take q.head ++ q.queued = q.items :=
  List.take_append_drop _ _

theorem queued_eq {q : Queue α maxSize} {pre rest : List α} (hitems : q.items = pre ++ rest)
    (hhead : q.head = pre.length) : q.queued = rest := by
  unfold queued
  rw [hitems,hhead]
  exact List.drop_left

theorem queued_of_head {q : Queue α maxSize} (h : q.head = 0) : q.queued = q.items := by
  rw [queued,h,List.drop_zero]

theorem rear_enqueue_le (q : Queue α maxSize) (value : α) : (q.enqueue value).1.rear ≤ q.rear + 1 := by
  unfold enqueue
  split
  · exact Nat.le_of_eq List.length_append
  · exact Nat.le_succ _

theorem rear_dequeue_le (q : Queue α maxSize) : q.dequeue.1.rear ≤ q.rear := by
  unfold dequeue
  split
  · split
    · exact Nat.zero_le _
    · exact Nat.le_refl _
  · exact Nat.le_refl _

theorem enqueue_items {q : Queue α maxSize} (h : q.rear < maxSize) (value : α) :
    (q.enqueue value).1.items = q.items ++ [value] := by
  unfold enqueue
  unfold rear at h
  rw [dif_pos h]

theorem enqueue_queued {q : Queue α maxSize} (h : q.full = false) (value : α) :
    (q.enqueue value).1.queued = q.queued ++ [value] := by
  have hlt : q.items.length < maxSize := by
    have hfull := mt (full_iff q).mpr
    rw [h] at hfull
    exact not_not.mp (hfull Bool.false_ne_true)
  unfold enqueue queued
  rw [dif_pos hlt]
  exact List.drop_append_of_le_length q.head_le

theorem enqueue_spec (q : Queue α maxSize) (value : α) :
    (q.enqueue value).2 = true ∧ (q.enqueue value).1.queued = q.queued ++ [value] ∨
    (q.enqueue value).2 = false := by
  cases hfull : q.full with
  | false =>
    have hlt := not_not.mp (mt (full_iff q).mpr (by rw [hfull]; exact Bool.false_ne_true))
    refine Or.inl ⟨?_,enqueue_queued hfull value⟩
    rw [enqueue,dif_pos hlt]
  | true =>
    refine Or.inr ?_
    rw [enqueue,dif_neg ((full_iff q).mp hfull)]

theorem enqueue_cases (q : Queue α maxSize) (value : α) :
    (q.enqueue value).1.items = q.items ++ [value] ∨ (q.enqueue value).1.items = q.items ∧ q.items.length = maxSize := by
  unfold enqueue
  split
  · exact Or.inl rfl
  · next h => exact Or.inr ⟨rfl,Nat.le_antisymm q.bounded (Nat.le_of_not_lt h)⟩

theorem enqueue_head (q : Queue α maxSize) (value : α) : (q.enqueue value).1.head = q.head := by
  unfold enqueue
  split <;> rfl

theorem mem_enqueue_queued {q : Queue α maxSize} {value x : α} (hx : x ∈ (q.enqueue value).1.queued) :
    x ∈ q.queued ∨ x = value := by
  unfold queued at hx ⊢
  rw [enqueue_head] at hx
  rcases enqueue_cases q value with hitems | ⟨hitems,-⟩
  · rw [hitems,List.drop_append_of_le_length q.head_le,List.mem_append,List.mem_singleton] at hx
    exact hx
  · rw [hitems] at hx
    exact Or.inl hx

theorem peek_eq (q : Queue α maxSize) : q.peek = q.queued.head? := by
  simp [peek,queued]

theorem dequeue_queued (q : Queue α maxSize) : q.dequeue.1.queued = q.queued.tail := by
  unfold dequeue
  split
  · next h =>
    split
    · next hlast =>
      have htail : q.queued.tail = [] := by
        rw [queued,List.tail_drop]
        exact List.drop_eq_nil_of_le (Nat.le_of_eq hlast.symm)
      rw [htail]
      rfl
    · simp [queued]
  · next h =>
    have hnil : q.queued = [] := List.drop_eq_nil_of_le (Nat.le_of_not_lt h)
    simp [hnil]

theorem dequeue_ok (q : Queue α maxSize) : q.dequeue.2 = !q.queued.isEmpty := by
  unfold dequeue
  split
  · next h =>
    have hne : q.queued ≠ [] := by
      rw [queued,ne_eq,List.drop_eq_nil_iff]
      exact Nat.not_le_of_lt h
    rw [List.isEmpty_eq_false_iff.mpr hne]
    split <;> rfl
  · next h =>
    have hnil : q.queued = [] := List.drop_eq_nil_of_le (Nat.le_of_not_lt h)
    rw [hnil]
    rfl

@[simp] theorem write_items (q : Queue α maxSize) (i : ℕ) (value : α) :
    (q.write i value).items = q.items.set i value := rfl

@[simp] theorem write_head (q : Queue α maxSize) (i : ℕ) (value : α) : (q.write i value).head = q.head := rfl

@[simp] theorem overwrite_head (q : Queue α maxSize) (i : ℕ) : (q.overwrite i).head = q.head := by
  unfold overwrite
  split <;> rfl

@[simp] theorem shrink_head (q : Queue α maxSize) : q.shrink.head = q.head := by
  unfold shrink
  split <;> rfl

theorem overwrite_items {q : Queue α maxSize} {last : α} (h : q.items.getLast? = some last) (i : ℕ) :
    (q.overwrite i).items = q.items.set i last := by
  unfold overwrite
  rw [h]
  rfl

theorem shrink_items {q : Queue α maxSize} (h : q.head < q.items.length) : q.shrink.items = q.items.dropLast := by
  unfold shrink
  rw [dif_pos h]

theorem overwrite_subset (q : Queue α maxSize) (i : ℕ) : (q.overwrite i).items ⊆ q.items := by
  unfold overwrite
  split
  · next last hlast =>
    intro x hx
    rcases List.mem_or_eq_of_mem_set hx with hx | rfl
    · exact hx
    · exact List.mem_of_getLast? hlast
  · exact List.Subset.refl _

theorem shrink_subset (q : Queue α maxSize) : q.shrink.items ⊆ q.items := by
  unfold shrink
  split
  · exact List.dropLast_subset _
  · exact List.Subset.refl _

/-- Cell `i` is the last one: it keeps its value and is given up. -/
theorem overwrite_last {q : Queue α maxSize} {pre : List α} {x : α} (h : q.items = pre ++ [x])
    (hh : q.head ≤ pre.length) :
    (q.overwrite pre.length).items[pre.length]? = some x ∧ (q.overwrite pre.length).shrink.items = pre := by
  have hlast : q.items.getLast? = some x := by simp [h]
  have hitems : (q.overwrite pre.length).items = pre ++ [x] := by
    rw [overwrite_items hlast]
    simp [h]
  refine ⟨by simp [hitems],?_⟩
  rw [shrink_items (by rw [overwrite_head,hitems,List.length_append]; exact Nat.lt_succ_of_le hh),hitems]
  simp

theorem overwrite_mid {q : Queue α maxSize} {pre mid : List α} {x last : α}
    (h : q.items = pre ++ x :: (mid ++ [last])) (hh : q.head ≤ pre.length) :
    (q.overwrite pre.length).items[pre.length]? = some last ∧
    (q.overwrite pre.length).shrink.items = pre ++ last :: mid := by
  have hlast : q.items.getLast? = some last := by
    rw [h,← List.cons_append,← List.append_assoc,List.getLast?_concat]
  have hitems : (q.overwrite pre.length).items = pre ++ last :: mid ++ [last] := by
    rw [overwrite_items hlast]
    simp [h]
  have hlt : (q.overwrite pre.length).head < (q.overwrite pre.length).items.length := by
    rw [overwrite_head,hitems]
    simp only [List.length_append,List.length_cons]
    omega
  refine ⟨by simp [hitems],?_⟩
  rw [shrink_items hlt,hitems,List.dropLast_concat]

/-- However many cells follow cell `i`, the same values remain after it. -/
theorem overwrite_rest {q : Queue α maxSize} {pre rest : List α} {x : α} (h : q.items = pre ++ x :: rest)
    (hh : q.head ≤ pre.length) :
    ∃ rest', (q.overwrite pre.length).shrink.items = pre ++ rest' ∧ rest'.Perm rest := by
  rcases List.eq_nil_or_concat rest with rfl | ⟨mid,last,rfl⟩
  · exact ⟨[],by rw [(overwrite_last h hh).2,List.append_nil],.refl _⟩
  · rw [List.concat_eq_append] at *
    exact ⟨last :: mid,(overwrite_mid h hh).2,(List.perm_append_singleton last mid).symm⟩

end Queue
end CoreStack.Utils
