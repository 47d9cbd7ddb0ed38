import CoreStack.Lib.Checked
import CoreStack.Lib.Execution
import CoreStack.Utils.Queue
import Mathlib.Logic.Function.Basic

/-! # The memory of a queue

`DEFINE_QUEUE` as it is written, over an array that holds anything at first and with
two indices of type `int`. An access outside the array yields `none`.
-/
namespace CoreStack.Utils
open Checked (cell? cell?_natCast)
variable {α : Type*} {maxSize : ℕ}

structure RawQueue (α : Type*) (maxSize : ℕ) where
  items : Fin maxSize → α
  front : ℤ
  rear : ℤ

namespace RawQueue

/-- The memory keeps what it held. -/
def init (q : RawQueue α maxSize) : RawQueue α maxSize := { q with front := -1, rear := 0 }

def empty (q : RawQueue α maxSize) : Bool := q.front == q.rear - 1

def full (q : RawQueue α maxSize) : Bool := q.rear == maxSize

def enqueue? (q : RawQueue α maxSize) (value : α) : Option (RawQueue α maxSize × Bool) :=
  if q.full then some (q,false)
  else (cell? maxSize q.rear).map fun i =>
    ({ q with items := Function.update q.items i value, rear := q.rear + 1 },true)

def dequeue (q : RawQueue α maxSize) : RawQueue α maxSize × Bool :=
  if q.empty then (q,false)
  else if q.front + 1 == q.rear - 1 then ({ q with front := -1, rear := 0 },true)
  else ({ q with front := q.front + 1 },true)

/-- The value behind the pointer `peek` returns, and `some none` for a null pointer. -/
def peek? (q : RawQueue α maxSize) : Option (Option α) :=
  if q.empty then some none
  else (cell? maxSize (q.front + 1)).map fun i => some (q.items i)

/-- The memory holds the cells of `s`: what lies behind `rear` does not matter. -/
structure Holds (q : RawQueue α maxSize) (s : Queue α maxSize) : Prop where
  front : q.front = (s.head : ℤ) - 1
  rear : q.rear = s.rear
  items : ∀ i (h : i < s.items.length), q.items ⟨i,Nat.lt_of_lt_of_le h s.bounded⟩ = s.items[i]

theorem Holds.init (q : RawQueue α maxSize) : q.init.Holds Queue.init where
  front := rfl
  rear := rfl
  items := by
    intro i h
    exact absurd h (Nat.not_lt_zero i)

variable {q : RawQueue α maxSize} {s : Queue α maxSize}

theorem Holds.empty_eq (h : q.Holds s) : q.empty = s.empty := by
  have hr := s.head_le
  rw [Bool.eq_iff_iff,empty,Queue.empty,beq_iff_eq,beq_iff_eq,h.front,h.rear]
  omega

theorem Holds.head_lt (h : q.Holds s) (he : q.empty = false) : s.head < s.items.length := by
  have hne := h.empty_eq ▸ he
  rw [Queue.empty,beq_eq_false_iff_ne,Queue.rear] at hne
  exact Nat.lt_of_le_of_ne s.head_le hne

theorem Holds.full_eq (h : q.Holds s) : q.full = s.full := by
  rw [Bool.eq_iff_iff,full,Queue.full,beq_iff_eq,beq_iff_eq,h.rear]
  exact Int.natCast_inj

theorem Holds.peek? (h : q.Holds s) : q.peek? = some s.peek := by
  unfold RawQueue.peek?
  cases he : q.empty with
  | true =>
    have hnil := (Queue.empty_iff s).mp (h.empty_eq ▸ he)
    rw [if_pos rfl,Queue.peek_eq,hnil]
    rfl
  | false =>
    have hlt := h.head_lt he
    have hfront : q.front + 1 = (s.head : ℤ) := by rw [h.front]; omega
    rw [if_neg Bool.false_ne_true,hfront,cell?_natCast (Nat.lt_of_lt_of_le hlt s.bounded),Option.map_some,
      h.items s.head hlt,Queue.peek,List.getElem?_eq_getElem hlt]

theorem Holds.enqueue? (h : q.Holds s) (value : α) :
    ∃ q', q.enqueue? value = some (q',(s.enqueue value).2) ∧ q'.Holds (s.enqueue value).1 := by
  unfold RawQueue.enqueue? Queue.enqueue
  rw [h.full_eq]
  cases hf : s.full with
  | true =>
    have hlt := (Queue.full_iff s).mp hf
    exact ⟨q,by rw [if_pos rfl,dif_neg hlt],by rw [dif_neg hlt]; exact h⟩
  | false =>
    have hlt : s.items.length < maxSize := by
      by_contra hge
      rw [(Queue.full_iff s).mpr hge] at hf
      exact Bool.false_ne_true hf.symm
    rw [if_neg Bool.false_ne_true,dif_pos hlt,h.rear,Queue.rear,cell?_natCast hlt]
    refine ⟨_,rfl,h.front,?_,?_⟩
    · simp [Queue.rear]
    · intro i hi
      rcases Nat.lt_or_ge i s.items.length with hold | hge
      · rw [List.getElem_append_left hold,← h.items i hold]
        exact Function.update_of_ne (by rw [ne_eq,Fin.mk.injEq]; exact Nat.ne_of_lt hold) _ _
      · have hlast : i = s.items.length := by
          simp only [List.length_append,List.length_singleton] at hi
          omega
        subst hlast
        rw [List.getElem_concat_length rfl]
        exact Function.update_self _ _ _

theorem Holds.dequeue (h : q.Holds s) : q.dequeue.2 = s.dequeue.2 ∧ q.dequeue.1.Holds s.dequeue.1 := by
  unfold RawQueue.dequeue Queue.dequeue
  have hle := s.head_le
  cases he : q.empty with
  | true =>
    have heq : s.head = s.items.length := by
      have hs := h.empty_eq ▸ he
      rwa [Queue.empty,beq_iff_eq] at hs
    rw [if_pos rfl,dif_neg (by omega)]
    exact ⟨rfl,h⟩
  | false =>
    have hlt := h.head_lt he
    have hlast : (q.front + 1 == q.rear - 1) = decide (s.head + 1 = s.items.length) := by
      rw [Bool.eq_iff_iff,beq_iff_eq,decide_eq_true_iff,h.front,h.rear,Queue.rear]
      omega
    rw [if_neg Bool.false_ne_true,dif_pos hlt,hlast]
    by_cases hl : s.head + 1 = s.items.length
    · rw [decide_eq_true hl,if_pos rfl,if_pos hl]
      exact ⟨rfl,Holds.init q⟩
    · rw [decide_eq_false hl,if_neg Bool.false_ne_true,if_neg hl]
      refine ⟨rfl,?_,h.rear,h.items⟩
      show q.front + 1 = ((s.head + 1 : ℕ) : ℤ) - 1
      rw [h.front]
      omega

end RawQueue

/-! ## Runs of a queue -/

inductive QueueCall (α : Type*)
  | enqueue (value : α)
  | dequeue
  | peek

/-- A queue in use: the values that were accepted, and what `peek` showed just before each
item was taken. -/
structure QueueUse (α : Type*) (maxSize : ℕ) where
  queue : RawQueue α maxSize
  entered : List α
  left : List (Option α)

namespace QueueUse

def start (memory : RawQueue α maxSize) : QueueUse α maxSize := ⟨memory.init,[],[]⟩

def call? (u : QueueUse α maxSize) : QueueCall α → Option (QueueUse α maxSize)
  | .enqueue value => (u.queue.enqueue? value).map fun r =>
    ⟨r.1,if r.2 then u.entered ++ [value] else u.entered,u.left⟩
  | .dequeue => u.queue.peek?.map fun seen =>
    ⟨u.queue.dequeue.1,u.entered,if u.queue.dequeue.2 then u.left ++ [seen] else u.left⟩
  | .peek => u.queue.peek?.map fun _ => u

/-- How many values are in the queue. -/
def stored (u : QueueUse α maxSize) : ℕ := u.entered.length - u.left.length

/-- The queue `s` lies in the memory, and what it holds is what entered and has not left. -/
structure Serves (u : QueueUse α maxSize) (s : Queue α maxSize) : Prop where
  holds : u.queue.Holds s
  served : u.entered.map some = u.left ++ s.queued.map some

theorem serves_start (memory : RawQueue α maxSize) : (start memory).Serves Queue.init where
  holds := RawQueue.Holds.init memory
  served := rfl

theorem Serves.enqueue {u : QueueUse α maxSize} {s : Queue α maxSize} (h : u.Serves s) (value : α) :
    ∃ t, u.call? (.enqueue value) = some t ∧ t.Serves (s.enqueue value).1 := by
  obtain ⟨q,hq,hholds⟩ := h.holds.enqueue? value
  refine ⟨_,by rw [call?,hq]; rfl,hholds,?_⟩
  rcases Queue.enqueue_spec s value with ⟨hok,hqueued⟩ | hno
  · simp only [hok,hqueued,if_true,List.map_append,h.served,List.append_assoc]
  · have hkept : (s.enqueue value).1 = s := by
      unfold Queue.enqueue at hno ⊢
      split at hno
      · exact absurd hno.symm Bool.false_ne_true
      · next hfull => rw [dif_neg hfull]
    simp only [hno,hkept,Bool.false_eq_true,if_false,h.served]

theorem Serves.dequeue {u : QueueUse α maxSize} {s : Queue α maxSize} (h : u.Serves s) :
    ∃ t, u.call? .dequeue = some t ∧ t.Serves s.dequeue.1 := by
  refine ⟨_,by rw [call?,h.holds.peek?]; rfl,h.holds.dequeue.2,?_⟩
  rw [h.holds.dequeue.1,Queue.dequeue_queued,Queue.peek_eq,h.served,Queue.dequeue_ok]
  cases s.queued with
  | nil => rfl
  | cons x rest => simp

theorem Serves.call? {u : QueueUse α maxSize} {s : Queue α maxSize} (h : u.Serves s) (c : QueueCall α) :
    ∃ t, u.call? c = some t ∧ ∃ s', t.Serves s' := by
  cases c with
  | enqueue value =>
    obtain ⟨t,ht,hs⟩ := h.enqueue value
    exact ⟨t,ht,_,hs⟩
  | dequeue =>
    obtain ⟨t,ht,hs⟩ := h.dequeue
    exact ⟨t,ht,_,hs⟩
  | peek => exact ⟨u,by rw [QueueUse.call?,h.holds.peek?]; rfl,s,h⟩

theorem serves_run (memory : RawQueue α maxSize) (calls : List (QueueCall α)) :
    ∃ u, Execution.run call? (start memory) calls = some u ∧ ∃ s, u.Serves s :=
  Execution.run_total (I := fun u => ∃ s, Serves u s) (fun _ c ⟨_,hs⟩ => hs.call? c) ⟨_,serves_start memory⟩ calls

theorem indices_bounded (memory : RawQueue α maxSize) (calls : List (QueueCall α)) {u : QueueUse α maxSize}
    (hu : Execution.run call? (start memory) calls = some u) :
    -1 ≤ u.queue.front ∧ u.queue.front < u.queue.rear ∧ u.queue.rear ≤ maxSize := by
  obtain ⟨t,ht,s,h⟩ := serves_run memory calls
  rw [hu,Option.some_inj] at ht
  subst ht
  have hle := s.head_le
  have hmax := s.bounded
  rw [h.holds.front,h.holds.rear,Queue.rear]
  omega

theorem Serves.all_left_iff {u : QueueUse α maxSize} {s : Queue α maxSize} (h : u.Serves s) :
    u.left = u.entered.map some ↔ s.queued = [] := by
  rw [h.served,List.self_eq_append_right,List.map_eq_nil_iff]

theorem Serves.stored_eq {u : QueueUse α maxSize} {s : Queue α maxSize} (h : u.Serves s) :
    u.stored = s.queued.length := by
  have hlen := congrArg List.length h.served
  rw [List.length_map,List.length_append,List.length_map] at hlen
  rw [stored,hlen,Nat.add_sub_cancel_left]

/-- The items leave in the order they entered, and only an empty queue has none to show or to
take. -/
theorem fifo (memory : RawQueue α maxSize) (calls : List (QueueCall α)) :
    ∃ u, Execution.run call? (start memory) calls = some u ∧
      u.left <+: u.entered.map some ∧
      u.queue.peek? ≠ none ∧
      (u.queue.peek? = some none ↔ u.left = u.entered.map some) ∧
      (u.queue.dequeue.2 = false ↔ u.left = u.entered.map some) := by
  obtain ⟨u,hu,s,h⟩ := serves_run memory calls
  refine ⟨u,hu,⟨_,h.served.symm⟩,?_,?_,?_⟩
  · rw [h.holds.peek?]
    exact Option.some_ne_none _
  · rw [h.holds.peek?,h.all_left_iff,Queue.peek_eq,Option.some_inj,List.head?_eq_none_iff]
  · rw [h.holds.dequeue.1,h.all_left_iff,Queue.dequeue_ok]
    cases s.queued <;> simp

/-- A call is refused only while `MAX_SIZE` values wait, unless some have been taken since
the queue was last empty. -/
theorem Serves.refused_iff {u : QueueUse α maxSize} {s : Queue α maxSize} (h : u.Serves s) (value : α) :
    ((u.queue.enqueue? value).map Prod.snd = some false → u.stored = maxSize) ↔
      u.queue.full = false ∨ u.queue.front = -1 := by
  obtain ⟨q,hq,-⟩ := h.holds.enqueue? value
  have hle := s.head_le
  rw [hq,Option.map_some,Option.some_inj,h.stored_eq,Queue.queued,List.length_drop,h.holds.full_eq,h.holds.front]
  cases hf : s.full with
  | false =>
    have hlt := mt (Queue.full_iff s).mpr (by rw [hf]; exact Bool.false_ne_true)
    rw [Queue.enqueue,dif_pos (not_not.mp hlt)]
    simp
  | true =>
    have hge := (Queue.full_iff s).mp hf
    have hmax := s.bounded
    rw [Queue.enqueue,dif_neg hge]
    simp only [forall_const,Bool.true_eq_false,false_or]
    omega

theorem refuses_only_full_iff (memory : RawQueue α maxSize) (calls : List (QueueCall α)) :
    (∃ u, Execution.run call? (start memory) calls = some u) ∧
    ((∀ n u value, Execution.run call? (start memory) (calls.take n) = some u → calls[n]? = some (.enqueue value) →
        (u.queue.enqueue? value).map Prod.snd = some false → u.stored = maxSize) ↔
      ∀ n u value, Execution.run call? (start memory) (calls.take n) = some u → calls[n]? = some (.enqueue value) →
        u.queue.full = false ∨ u.queue.front = -1) := by
  obtain ⟨u,hu,-⟩ := serves_run memory calls
  refine ⟨⟨u,hu⟩,?_⟩
  have hiff : ∀ n u value, Execution.run call? (start memory) (calls.take n) = some u →
      (((u.queue.enqueue? value).map Prod.snd = some false → u.stored = maxSize) ↔
        u.queue.full = false ∨ u.queue.front = -1) := by
    intro n u value hr
    obtain ⟨t,ht,s,hs⟩ := serves_run memory (calls.take n)
    rw [hr,Option.some_inj] at ht
    exact (ht ▸ hs).refused_iff value
  constructor
  · intro h n u value hr hc
    exact (hiff n u value hr).mp (h n u value hr hc)
  · intro h n u value hr hc
    exact (hiff n u value hr).mpr (h n u value hr hc)

/-- Three calls after which one value waits in a queue for two, and no other is let in. -/
theorem refused_with_one_stored :
    ¬∀ (maxSize : ℕ) (memory : RawQueue ℕ maxSize) (calls : List (QueueCall ℕ)) (n : ℕ) (u : QueueUse ℕ maxSize)
      (value : ℕ), Execution.run call? (start memory) (calls.take n) = some u → calls[n]? = some (.enqueue value) →
        (u.queue.enqueue? value).map Prod.snd = some false → u.stored = maxSize := by
  intro h
  have hone := h 2 ⟨fun _ => 0,0,0⟩ [.enqueue 7,.enqueue 8,.dequeue,.enqueue 9] 3 _ 9 rfl rfl rfl
  exact absurd hone (by decide)

/-- Between two calls that leave the queue in use only `enqueue` moves `rear`, once for each value let in. -/
theorem Serves.rear_call {u t : QueueUse α maxSize} {s : Queue α maxSize} (h : u.Serves s) {c : QueueCall α}
    (hc : u.call? c = some t) (hbusy : t.stored ≠ 0) :
    (t.entered.length : ℤ) - t.queue.rear = u.entered.length - u.queue.rear := by
  cases c with
  | peek =>
    rw [QueueUse.call?,h.holds.peek?] at hc
    cases hc
    rfl
  | enqueue value =>
    obtain ⟨q,hq,hholds⟩ := h.holds.enqueue? value
    rw [QueueUse.call?,hq] at hc
    cases hc
    have hrear : (q.rear : ℤ) = _ := hholds.rear
    simp only [hrear,h.holds.rear,Queue.rear,Queue.enqueue]
    split
    · simp only [if_true,List.length_append,List.length_singleton]
      omega
    · simp only [Bool.false_eq_true,if_false]
  | dequeue =>
    obtain ⟨v,hv,hs⟩ := h.dequeue
    rw [hc,Option.some_inj] at hv
    subst hv
    rw [hs.stored_eq] at hbusy
    have hitems : s.dequeue.1.rear = s.rear := by
      unfold Queue.dequeue at hbusy ⊢
      split at hbusy
      · split at hbusy
        · exact absurd rfl hbusy
        · next hlt hlast => rw [dif_pos hlt,if_neg hlast]; rfl
      · next hge => rw [dif_neg hge]
    have hentered : t.entered = u.entered := by
      rw [QueueUse.call?,h.holds.peek?] at hc
      cases hc
      rfl
    rw [hentered,hs.holds.rear,h.holds.rear,hitems]

theorem Serves.entered_le {u t : QueueUse α maxSize} {s : Queue α maxSize} (h : u.Serves s)
    {calls : List (QueueCall α)} (hr : Execution.run QueueUse.call? u calls = some t)
    (hbusy : ∀ n v, Execution.run QueueUse.call? u (calls.take n) = some v → v.stored ≠ 0) :
    t.entered.length ≤ u.entered.length + maxSize := by
  have hkept : (t.entered.length : ℤ) - t.queue.rear = u.entered.length - u.queue.rear ∧ ∃ s', t.Serves s' := by
    induction calls generalizing u s with
    | nil =>
      cases hr
      exact ⟨rfl,s,h⟩
    | cons c calls ih =>
      obtain ⟨v,hv,hr⟩ := Execution.run_cons.mp hr
      have hnext : ∀ n w, Execution.run QueueUse.call? v (calls.take n) = some w → w.stored ≠ 0 := by
        intro n w hw
        exact hbusy (n + 1) w (Execution.run_cons.mpr ⟨v,hv,hw⟩)
      obtain ⟨v',hv',s',hs'⟩ := h.call? c
      rw [hv,Option.some_inj] at hv'
      subst hv'
      obtain ⟨hrest,hserves⟩ := ih hs' hr hnext
      exact ⟨hrest.trans (h.rear_call hv (hnext 0 v rfl)),hserves⟩
  obtain ⟨hkept,s',hs'⟩ := hkept
  have hle := s'.bounded
  rw [hs'.holds.rear,h.holds.rear,Queue.rear,Queue.rear] at hkept
  omega

end QueueUse
end CoreStack.Utils
