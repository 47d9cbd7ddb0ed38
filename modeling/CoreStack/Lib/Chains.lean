import Mathlib.Data.List.Nodup
import Mathlib.Data.List.Perm.Subperm
import Mathlib.Logic.Function.Basic
import Mathlib.Tactic.Common

/-! # Singly linked chains in memory

A node holds a value and the address of the next node. A chain is read off the memory from
a first link; it is changed by relinking one node. The walks along a chain are loops with
fuel, and fail when they come to an address without a node.
-/
namespace Chains
variable {C V : Type*}

/-! ## Memory -/

/-- Cells by address. Those from `bound` on are not in use. -/
structure Heap (C : Type*) where
  cell : ℕ → Option C
  bound : ℕ
  unused : ∀ p, bound ≤ p → cell p = none

namespace Heap

def empty : Heap C := ⟨fun _ => none,0,fun _ _ => rfl⟩

/-- The address an allocation yields: any one it picks that is not in use. -/
def fresh (heap : Heap C) (pick : ℕ) : ℕ := if (heap.cell pick).isNone then pick else heap.bound

theorem cell_fresh (heap : Heap C) (pick : ℕ) : heap.cell (heap.fresh pick) = none := by
  unfold fresh
  split
  · next h => exact Option.isNone_iff_eq_none.mp h
  · exact heap.unused _ (Nat.le_refl _)

def write (heap : Heap C) (p : ℕ) (c : C) : Heap C where
  cell := Function.update heap.cell p (some c)
  bound := max heap.bound (p + 1)
  unused := by
    intro q hq
    rw [Function.update_of_ne (by omega)]
    exact heap.unused q (by omega)

def free (heap : Heap C) (p : ℕ) : Heap C where
  cell := Function.update heap.cell p none
  bound := heap.bound
  unused := by
    intro q hq
    by_cases h : q = p
    · rw [h,Function.update_self]
    · rw [Function.update_of_ne h]
      exact heap.unused q hq

@[simp] theorem write_self (heap : Heap C) (p : ℕ) (c : C) : (heap.write p c).cell p = some c :=
  Function.update_self _ _ _

theorem write_of_ne (heap : Heap C) {p q : ℕ} (h : q ≠ p) (c : C) : (heap.write p c).cell q = heap.cell q :=
  Function.update_of_ne h _ _

@[simp] theorem free_self (heap : Heap C) (p : ℕ) : (heap.free p).cell p = none := Function.update_self _ _ _

theorem free_of_ne (heap : Heap C) {p q : ℕ} (h : q ≠ p) : (heap.free p).cell q = heap.cell q :=
  Function.update_of_ne h _ _

end Heap

/-! ## Chains -/

structure Node (V : Type*) where
  next : Option ℕ
  value : V

/-- The nodes from a link on, each with its address and its value. -/
def Chain (heap : Heap (Node V)) : Option ℕ → List (ℕ × V) → Prop
  | link, [] => link = none
  | link, (p,v) :: cells => link = some p ∧ ∃ next, heap.cell p = some ⟨next,v⟩ ∧ Chain heap next cells

variable {heap heap' : Heap (Node V)} {link : Option ℕ}

theorem Chain.unique {cells cells' : List (ℕ × V)} (h : Chain heap link cells) (h' : Chain heap link cells') :
    cells = cells' := by
  induction cells generalizing link cells' with
  | nil =>
    cases cells' with
    | nil => rfl
    | cons c cells' => exact absurd (h.symm.trans h'.1) (by simp)
  | cons c cells ih =>
    obtain ⟨p,v⟩ := c
    obtain ⟨hlink,next,hp,hrest⟩ := h
    cases cells' with
    | nil => exact absurd (hlink.symm.trans h') (by simp)
    | cons c' cells' =>
      obtain ⟨p',v'⟩ := c'
      obtain ⟨hlink',next',hp',hrest'⟩ := h'
      rw [hlink,Option.some_inj] at hlink'
      subst hlink'
      rw [hp,Option.some_inj,Node.mk.injEq] at hp'
      obtain ⟨rfl,rfl⟩ := hp'
      rw [ih hrest hrest']

theorem Chain.suffix {pre cells : List (ℕ × V)} (h : Chain heap link (pre ++ cells)) :
    ∃ link', Chain heap link' cells := by
  induction pre generalizing link with
  | nil => exact ⟨link,h⟩
  | cons c pre ih =>
    obtain ⟨-,next,-,hrest⟩ := h
    exact ih hrest

/-- A link into a chain leads to a node, which does not lie behind any given one. -/
theorem Chain.first {pre post : List (ℕ × V)} {q : ℕ} {w : V} (h : Chain heap link (pre ++ (q,w) :: post)) :
    ∃ p v next, link = some p ∧ (p,v) ∈ pre ++ [(q,w)] ∧ heap.cell p = some ⟨next,v⟩ := by
  cases pre with
  | nil =>
    obtain ⟨hlink,next,hcell,-⟩ := h
    exact ⟨q,w,next,hlink,List.mem_cons_self,hcell⟩
  | cons c pre =>
    obtain ⟨hlink,next,hcell,-⟩ := h
    exact ⟨c.1,c.2,next,hlink,List.mem_cons_self,hcell⟩

theorem Chain.cell_of_mem {cells : List (ℕ × V)} (h : Chain heap link cells) {p : ℕ} {v : V} (hmem : (p,v) ∈ cells) :
    ∃ next, heap.cell p = some ⟨next,v⟩ := by
  obtain ⟨pre,post,rfl⟩ := List.append_of_mem hmem
  obtain ⟨_,-,next,hp,-⟩ := h.suffix
  exact ⟨next,hp⟩

/-- No node comes twice, or the chain would not end. -/
theorem Chain.nodup {cells : List (ℕ × V)} (h : Chain heap link cells) : (cells.map Prod.fst).Nodup := by
  induction cells generalizing link with
  | nil => exact List.nodup_nil
  | cons c cells ih =>
    obtain ⟨p,v⟩ := c
    have hwhole := h
    obtain ⟨hlink,next,hp,hrest⟩ := h
    refine List.nodup_cons.mpr ⟨?_,ih hrest⟩
    intro hmem
    obtain ⟨⟨q,w⟩,hcell,rfl⟩ := List.mem_map.mp hmem
    obtain ⟨pre,post,hsplit⟩ := List.append_of_mem hcell
    rw [hsplit] at hrest
    obtain ⟨link',hagain⟩ := hrest.suffix
    have hsame : link' = link := hagain.1.trans hlink.symm
    have hlen := congrArg List.length ((hsame ▸ hagain).unique hwhole)
    rw [hsplit] at hlen
    simp only [List.length_cons,List.length_append] at hlen
    omega

theorem Chain.frame {cells : List (ℕ × V)} (h : Chain heap link cells)
    (heq : ∀ p ∈ cells.map Prod.fst, heap'.cell p = heap.cell p) : Chain heap' link cells := by
  induction cells generalizing link with
  | nil => exact h
  | cons c cells ih =>
    obtain ⟨hlink,next,hp,hrest⟩ := h
    refine ⟨hlink,next,?_,ih hrest fun p hmem => heq p (List.mem_cons_of_mem _ hmem)⟩
    rw [heq _ List.mem_cons_self,hp]

/-- One node gets another link and value, and those behind it are another chain. -/
theorem Chain.relink {pre post post' : List (ℕ × V)} {q : ℕ} {w w' : V} {next : Option ℕ}
    (h : Chain heap link (pre ++ (q,w) :: post)) (hpre : ∀ p ∈ pre.map Prod.fst, heap'.cell p = heap.cell p)
    (hq : heap'.cell q = some ⟨next,w'⟩) (hpost : Chain heap' next post') :
    Chain heap' link (pre ++ (q,w') :: post') := by
  induction pre generalizing link with
  | nil => exact ⟨h.1,next,hq,hpost⟩
  | cons c pre ih =>
    obtain ⟨hlink,next',hp,hrest⟩ := h
    refine ⟨hlink,next',?_,ih hrest fun p hmem => hpre p (List.mem_cons_of_mem _ hmem)⟩
    rw [hpre _ List.mem_cons_self,hp]

/-- The addresses around a node of a chain are different from its own. -/
theorem Chain.apart {pre post : List (ℕ × V)} {q : ℕ} {w : V} (h : Chain heap link (pre ++ (q,w) :: post)) :
    (∀ p ∈ pre.map Prod.fst, p ≠ q) ∧ ∀ p ∈ post.map Prod.fst, p ≠ q := by
  have hnodup := h.nodup
  rw [List.map_append,List.map_cons,List.nodup_append] at hnodup
  obtain ⟨-,hcons,hdisjoint⟩ := hnodup
  constructor
  · intro p hmem
    exact hdisjoint p hmem q List.mem_cons_self
  · rintro p hmem rfl
    exact (List.nodup_cons.mp hcons).1 hmem

theorem Chain.head_apart {post : List (ℕ × V)} {q : ℕ} {w : V} (h : Chain heap link ((q,w) :: post)) :
    ∀ p ∈ post.map Prod.fst, p ≠ q := by
  rintro p hmem rfl
  exact (List.nodup_cons.mp h.nodup).1 hmem

theorem Chain.append {pre : List (ℕ × V)} {q p : ℕ} {w : V} (h : Chain heap link (pre ++ [(q,w)]))
    (hp : heap.cell p = none) (v : V) :
    Chain ((heap.write q ⟨some p,w⟩).write p ⟨none,v⟩) link (pre ++ [(q,w),(p,v)]) := by
  have hother : ∀ a u, (a,u) ∈ pre ++ [(q,w)] → a ≠ p := by
    rintro a u hmem rfl
    obtain ⟨next,hcell⟩ := h.cell_of_mem hmem
    rw [hp] at hcell
    cases hcell
  have hqp : q ≠ p := hother q w (List.mem_append_right _ List.mem_cons_self)
  refine h.relink ?_ (by rw [Heap.write_of_ne _ hqp,Heap.write_self]) ⟨rfl,none,Heap.write_self _ _ _,rfl⟩
  intro a hmem
  obtain ⟨⟨a,u⟩,hcell,rfl⟩ := List.mem_map.mp hmem
  rw [Heap.write_of_ne _ (hother a u (List.mem_append_left _ hcell)),Heap.write_of_ne _ (h.apart.1 a hmem)]

/-- The node behind `q` is passed over and given up. -/
theorem Chain.unlink {pre post : List (ℕ × V)} {q p : ℕ} {w v : V} {next : Option ℕ}
    (h : Chain heap link (pre ++ (q,w) :: (p,v) :: post)) (hp : heap.cell p = some ⟨next,v⟩) (w' : V) :
    Chain ((heap.write q ⟨next,w'⟩).free p) link (pre ++ (q,w') :: post) := by
  have hassoc : pre ++ (q,w) :: (p,v) :: post = (pre ++ [(q,w)]) ++ (p,v) :: post := by simp
  obtain ⟨hbefore,hafter⟩ := (hassoc ▸ h).apart
  obtain ⟨hpre,hpost⟩ := h.apart
  have hqp : q ≠ p := hbefore q (by simp)
  refine h.relink ?_ (by rw [Heap.free_of_ne _ hqp,Heap.write_self]) ?_
  · intro a hmem
    rw [Heap.free_of_ne _ (hbefore a (by simp at hmem ⊢; exact Or.inl hmem)),Heap.write_of_ne _ (hpre a hmem)]
  · obtain ⟨_,-,next',hp',hrest⟩ := (hassoc ▸ h).suffix
    rw [hp,Option.some_inj,Node.mk.injEq] at hp'
    obtain ⟨rfl,-⟩ := hp'
    refine hrest.frame fun a hmem => ?_
    rw [Heap.free_of_ne _ (hafter a hmem),Heap.write_of_ne _ (hpost a (List.mem_cons_of_mem _ hmem))]

/-! ## Walks -/

/-- `while (p->next != NULL) p = p->next;` -/
def last? (heap : Heap (Node V)) : ℕ → ℕ → Option ℕ
  | 0, _ => none
  | fuel + 1, p => (heap.cell p).bind fun node =>
    match node.next with
    | none => some p
    | some q => last? heap fuel q

/-- The node in front of the first one that passes the test; the one at `p` is not tested. -/
def before? (heap : Heap (Node V)) (test : V → Bool) : ℕ → ℕ → Option (Option ℕ)
  | 0, _ => none
  | fuel + 1, p => (heap.cell p).bind fun node =>
    match node.next with
    | none => some none
    | some q => (heap.cell q).bind fun following =>
      if test following.value then some (some p) else before? heap test fuel q

def find? (heap : Heap (Node V)) (test : V → Bool) : ℕ → Option ℕ → Option (Option V)
  | _, none => some none
  | 0, some _ => none
  | fuel + 1, some p => (heap.cell p).bind fun node =>
    if test node.value then some (some node.value) else find? heap test fuel node.next

theorem Chain.last? {pre : List (ℕ × V)} {p q : ℕ} {w : V} {fuel : ℕ} (h : Chain heap (some p) (pre ++ [(q,w)]))
    (hfuel : pre.length < fuel) : last? heap fuel p = some q := by
  induction pre generalizing p fuel with
  | nil =>
    obtain ⟨fuel,rfl⟩ := Nat.exists_eq_add_of_lt hfuel
    obtain ⟨hlink,next,hcell,hend⟩ := h
    cases hlink
    cases hend
    rw [Chains.last?,hcell,Option.bind_some]
  | cons c pre ih =>
    obtain ⟨fuel,rfl⟩ := Nat.exists_eq_add_of_lt hfuel
    obtain ⟨hlink,next,hcell,hrest⟩ := h
    cases hlink
    obtain ⟨x,-,-,rfl,-⟩ := hrest.first
    rw [Chains.last?,hcell,Option.bind_some]
    exact ih hrest (by rw [List.length_cons]; omega)

section Search
variable {test : V → Bool}

theorem Chain.before_found {pre post : List (ℕ × V)} {p q x : ℕ} {w u : V} {fuel : ℕ}
    (h : Chain heap (some p) (pre ++ (q,w) :: (x,u) :: post)) (hfuel : pre.length < fuel)
    (hpre : ∀ c ∈ pre ++ [(q,w)], test c.2 = false) (hu : test u = true) : before? heap test fuel p = some (some q) := by
  induction pre generalizing p fuel with
  | nil =>
    obtain ⟨fuel,rfl⟩ := Nat.exists_eq_add_of_lt hfuel
    obtain ⟨hlink,next,hcell,hnext,next',hcell',-⟩ := h
    cases hlink
    subst hnext
    rw [before?,hcell,Option.bind_some]
    dsimp only
    rw [hcell',Option.bind_some,if_pos hu]
  | cons c pre ih =>
    obtain ⟨fuel,rfl⟩ := Nat.exists_eq_add_of_lt hfuel
    obtain ⟨hlink,next,hcell,hrest⟩ := h
    cases hlink
    have hlater : ∀ c ∈ pre ++ [(q,w)], test c.2 = false := fun c hc => hpre c (List.mem_cons_of_mem _ hc)
    obtain ⟨y,z,next',rfl,hmem,hcell'⟩ := hrest.first
    rw [before?,hcell,Option.bind_some]
    dsimp only
    rw [hcell',Option.bind_some,if_neg (by rw [hlater (y,z) hmem]; exact Bool.false_ne_true)]
    exact ih hrest (by rw [List.length_cons]; omega) hlater

theorem Chain.before_none {cells : List (ℕ × V)} {p : ℕ} {fuel : ℕ} (h : Chain heap (some p) cells)
    (hfuel : cells.length ≤ fuel) (htest : ∀ c ∈ cells, test c.2 = false) : before? heap test fuel p = some none := by
  induction cells generalizing p fuel with
  | nil => cases h
  | cons c cells ih =>
    obtain ⟨hlink,next,hcell,hrest⟩ := h
    cases hlink
    obtain ⟨fuel,rfl⟩ := Nat.exists_eq_add_of_lt hfuel
    rw [before?,hcell,Option.bind_some]
    cases cells with
    | nil =>
      cases hrest
      rfl
    | cons d cells =>
      have hwhole := hrest
      obtain ⟨hlink,next',hcell',-⟩ := hrest
      subst hlink
      dsimp only
      rw [hcell',Option.bind_some,if_neg (by rw [htest d (by simp)]; exact Bool.false_ne_true)]
      exact ih hwhole (Nat.le_add_right _ _) fun c hc => htest c (List.mem_cons_of_mem _ hc)

theorem Chain.find? {cells : List (ℕ × V)} {fuel : ℕ} (h : Chain heap link cells) (hfuel : cells.length ≤ fuel) :
    find? heap test fuel link = some ((cells.map Prod.snd).find? test) := by
  induction cells generalizing link fuel with
  | nil =>
    cases h
    cases fuel <;> rfl
  | cons c cells ih =>
    obtain ⟨hlink,next,hcell,hrest⟩ := h
    subst hlink
    obtain ⟨fuel,rfl⟩ := Nat.exists_eq_add_of_lt hfuel
    rw [Chains.find?,hcell,Option.bind_some,List.map_cons,List.find?_cons]
    dsimp only
    cases test c.2 with
    | true => rfl
    | false => exact ih hrest (Nat.le_add_right _ _)

end Search

/-! ## Whole chains -/

theorem Chain.length_le {cells : List (ℕ × V)} (h : Chain heap link cells) : cells.length ≤ heap.bound := by
  have hbelow : cells.map Prod.fst ⊆ List.range heap.bound := by
    intro p hp
    obtain ⟨⟨q,v⟩,hmem,rfl⟩ := List.mem_map.mp hp
    obtain ⟨next,hcell⟩ := h.cell_of_mem hmem
    by_contra hout
    rw [heap.unused q (Nat.le_of_not_lt fun hlt => hout (List.mem_range.mpr hlt))] at hcell
    cases hcell
  have hlen := (h.nodup.subperm hbelow).length_le
  rwa [List.length_map,List.length_range] at hlen

/-- `while (p) { next = p->next; free(p); p = next; }` -/
def release? : ℕ → Option ℕ → Heap (Node V) → Option (Heap (Node V))
  | _, none, heap => some heap
  | 0, some _, _ => none
  | fuel + 1, some p, heap => (heap.cell p).bind fun node => release? fuel node.next (heap.free p)

theorem Chain.release? {cells : List (ℕ × V)} {fuel : ℕ} (h : Chain heap link cells) (hfuel : cells.length ≤ fuel) :
    ∃ heap', release? fuel link heap = some heap' ∧ heap'.bound = heap.bound ∧
      (∀ p ∈ cells.map Prod.fst, heap'.cell p = none) ∧ ∀ p ∉ cells.map Prod.fst, heap'.cell p = heap.cell p := by
  induction cells generalizing heap link fuel with
  | nil =>
    cases h
    exact ⟨heap,by cases fuel <;> rfl,rfl,fun p hp => absurd hp List.not_mem_nil,fun _ _ => rfl⟩
  | cons c cells ih =>
    obtain ⟨fuel,rfl⟩ := Nat.exists_eq_add_of_lt hfuel
    have hapart := h.head_apart
    obtain ⟨hlink,next,hcell,hrest⟩ := h
    subst hlink
    have hleft : Chain (heap.free c.1) next cells :=
      hrest.frame fun p hp => Heap.free_of_ne _ (hapart p hp)
    obtain ⟨heap',hrelease,hbound,hgone,hkept⟩ := ih hleft (Nat.le_add_right _ _)
    refine ⟨heap',?_,hbound,?_,?_⟩
    · rw [Chains.release?,hcell,Option.bind_some]
      exact hrelease
    · refine List.forall_mem_cons.mpr ⟨?_,hgone⟩
      rw [hkept c.1 fun hmem => hapart c.1 hmem rfl,Heap.free_self]
    · intro p hp
      rw [List.map_cons,List.mem_cons,not_or] at hp
      rw [hkept p hp.2,Heap.free_of_ne _ hp.1]

end Chains
