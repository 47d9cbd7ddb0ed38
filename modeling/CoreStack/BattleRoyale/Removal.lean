import CoreStack.BattleRoyale.ClientList

/-! # The sockets of a removed client

`remove_from_list` closes the sockets of the client it removes when that is the head of the
list. Further back it closes those of the client in front.
-/
namespace CoreStack.BattleRoyale
open Chains
namespace ClientLinkedList

structure HasOpen (memory : ServerMemory) (client : ClientEndpoint) (a : ℕ) (socks : Sockets) : Prop where
  points : client.socks = some a
  cell : memory.sockets.cell a = some socks
  opened : ∀ fd ∈ socks.fds, 0 < fd ∧ memory.opened fd = true

/-- A list in which every client has its own open sockets. -/
structure OwnSockets (list : ClientLinkedList) (cells : List (ℕ × ClientEndpoint)) : Prop extends list.Holds cells where
  opened : ∀ x ∈ cells, ∃ a socks, HasOpen list.memory x.2 a socks
  own : cells.Pairwise fun x y => ∀ a s b t, HasOpen list.memory x.2 a s → HasOpen list.memory y.2 b t →
    a ≠ b ∧ ∀ fd ∈ s.fds, fd ∉ t.fds

structure Removed (list list' : ClientLinkedList) (pre : List (ℕ × ClientEndpoint)) (p : ℕ) (c : ClientEndpoint)
    (post : List (ℕ × ClientEndpoint)) : Prop where
  nodes : list'.Holds (pre ++ post)
  node : list'.memory.nodes.cell p = none
  closed : ∃ a socks, HasOpen list.memory c a socks ∧
    list'.memory.sockets.cell a = none ∧ (∀ b, b ≠ a → list'.memory.sockets.cell b = list.memory.sockets.cell b) ∧
    (∀ fd ∈ socks.fds, list'.memory.opened fd = false) ∧
    ∀ fd, fd ∉ socks.fds → list'.memory.opened fd = list.memory.opened fd
  kept : ∀ x ∈ pre ++ post, ∀ a socks, HasOpen list.memory x.2 a socks → HasOpen list'.memory x.2 a socks

/-- The first client with the id is removed and nothing else happens; without one nothing does. -/
def RemovesOnly (list : ClientLinkedList) (cells : List (ℕ × ClientEndpoint)) (id : UInt32) : Prop :=
  ((∀ x ∈ cells, x.2.id ≠ id) → list.removeFromList? freeSockets? id = some (list,-1)) ∧
  ∀ pre p c post, cells = pre ++ (p,c) :: post → (∀ x ∈ pre, x.2.id ≠ id) → c.id = id →
    ∃ list', list.removeFromList? freeSockets? id = some (list',0) ∧ Removed list list' pre p c post

/-- Open sockets are closed and freed, and the pointer in the node is cleared. -/
theorem freeSockets?_eq {memory : ServerMemory} {p a : ℕ} {next : Option ℕ} {client : ClientEndpoint} {socks : Sockets}
    (hp : memory.nodes.cell p = some ⟨next,client⟩) (h : HasOpen memory client a socks) :
    freeSockets? memory p = some (⟨memory.nodes.write p ⟨next,{ client with socks := none }⟩,
      (memory.sockets.write a ⟨-1,-1,-1⟩).free a,fun fd => memory.opened fd && !socks.fds.contains fd⟩,0) := by
  have hcheck : checkSockets socks = true := by
    have htcp := (h.opened socks.tcp (by simp [Sockets.fds])).1
    have huni := (h.opened socks.udpUni (by simp [Sockets.fds])).1
    have hbroad := (h.opened socks.udpBroad (by simp [Sockets.fds])).1
    rw [checkSockets,decide_eq_true htcp,decide_eq_true huni,decide_eq_true hbroad]
    rfl
  rw [freeSockets?,hp,Option.bind_some,h.points,Option.bind_some,closeSockets?,h.cell,Option.map_some,if_pos hcheck]
  rfl

variable {list : ClientLinkedList} {cells : List (ℕ × ClientEndpoint)} {id : UInt32}

theorem HasOpen.kept {memory : ServerMemory} {nodes : Heap (Node ClientEndpoint)} {d : ClientEndpoint} {a b : ℕ}
    {s t : Sockets} (hd : HasOpen memory d b t) (hab : b ≠ a) (hfds : ∀ fd ∈ t.fds, fd ∉ s.fds) :
    HasOpen ⟨nodes,(memory.sockets.write a ⟨-1,-1,-1⟩).free a,fun fd => memory.opened fd && !s.fds.contains fd⟩ d b t where
  points := hd.points
  cell := by
    dsimp only
    rw [Heap.free_of_ne _ hab,Heap.write_of_ne _ hab,hd.cell]
  opened := by
    intro fd hfd
    obtain ⟨hpos,hopen⟩ := hd.opened fd hfd
    have hout : s.fds.contains fd = false := by simpa using hfds fd hfd
    refine ⟨hpos,?_⟩
    dsimp only
    rw [hopen,hout]
    rfl

/-- The head goes with its own sockets. -/
theorem OwnSockets.remove_head {p : ℕ} {c : ClientEndpoint} {post : List (ℕ × ClientEndpoint)}
    (h : list.OwnSockets ((p,c) :: post)) (hid : c.id = id) :
    ∃ list', list.removeFromList? freeSockets? id = some (list',0) ∧ Removed list list' [] p c post := by
  obtain ⟨next,hcell,hrest,hremove⟩ := h.toHolds.remove_head freeSockets? hid
  obtain ⟨a,s,hc⟩ := h.opened (p,c) List.mem_cons_self
  have hapart := h.chain.head_apart
  refine ⟨_,by rw [hremove,freeSockets?_eq hcell hc]; rfl,?_⟩
  constructor
  · refine ⟨hrest.frame fun q hq => ?_,?_⟩
    · rw [Heap.free_of_ne _ (hapart q hq),Heap.write_of_ne _ (hapart q hq)]
    · have hcount := h.toHolds.count_sub (by simp)
      simpa using hcount
  · exact Heap.free_self _ _
  · refine ⟨a,s,hc,Heap.free_self _ _,?_,?_,?_⟩
    · intro b hb
      dsimp only
      rw [Heap.free_of_ne _ hb,Heap.write_of_ne _ hb]
    · intro fd hfd
      simp [hfd]
    · intro fd hfd
      simp [hfd]
  · intro x hx b t hd
    obtain ⟨hab,hfds⟩ := (List.pairwise_cons.mp h.own).1 x hx a s b t hc hd
    exact hd.kept (Ne.symm hab) fun fd hfd hin => hfds fd hin hfd

/-- Behind the head the client in front loses its sockets. -/
theorem OwnSockets.remove_interior {pre post : List (ℕ × ClientEndpoint)} {p q : ℕ} {c d : ClientEndpoint}
    (h : list.OwnSockets (pre ++ (q,d) :: (p,c) :: post)) (hbefore : ∀ x ∈ pre ++ [(q,d)], x.2.id ≠ id)
    (hid : c.id = id) :
    ∃ list' a s, list.removeFromList? freeSockets? id = some (list',0) ∧ HasOpen list.memory d a s ∧
      list'.Holds (pre ++ (q,{ d with socks := none }) :: post) ∧ list'.memory.sockets.cell a = none ∧
      ∀ fd ∈ s.fds, list'.memory.opened fd = false := by
  obtain ⟨next,hcell,hremove⟩ := h.toHolds.remove_interior freeSockets? hbefore hid
  obtain ⟨a,s,hd⟩ := h.opened (q,d) (by simp)
  have hd' : HasOpen { list.memory with nodes := list.memory.nodes.write q ⟨next,d⟩ } d a s :=
    ⟨hd.points,hd.cell,hd.opened⟩
  have hfreed := freeSockets?_eq (Heap.write_self _ _ _) hd'
  refine ⟨_,a,s,by rw [hremove,hfreed]; rfl,hd,⟨?_,?_⟩,Heap.free_self _ _,?_⟩
  · have hqp : q ≠ p := by
      have hassoc : pre ++ (q,d) :: (p,c) :: post = pre ++ [(q,d)] ++ (p,c) :: post := by simp
      exact (hassoc ▸ h.chain).apart.1 q (by simp)
    refine (h.chain.unlink hcell { d with socks := none }).frame fun b _ => ?_
    dsimp only
    by_cases hbp : b = p
    · rw [hbp,Heap.free_self,Heap.free_self]
    · rw [Heap.free_of_ne _ hbp,Heap.free_of_ne _ hbp]
      by_cases hbq : b = q
      · rw [hbq,Heap.write_self,Heap.write_self]
      · rw [Heap.write_of_ne _ hbq,Heap.write_of_ne _ hbq,Heap.write_of_ne _ hbq]
  · have hcount := h.toHolds.count_sub (by rw [List.length_append,List.length_cons]; omega)
    simpa using hcount
  · intro fd hfd
    simp [hfd]

theorem OwnSockets.not_removesOnly {pre post : List (ℕ × ClientEndpoint)} {p q : ℕ} {c d : ClientEndpoint}
    (h : list.OwnSockets (pre ++ (q,d) :: (p,c) :: post)) (hbefore : ∀ x ∈ pre ++ [(q,d)], x.2.id ≠ id)
    (hid : c.id = id) : ¬RemovesOnly list (pre ++ (q,d) :: (p,c) :: post) id := by
  intro hremoves
  obtain ⟨list',hremove,hremoved⟩ := hremoves.2 (pre ++ [(q,d)]) p c post (by simp) hbefore hid
  obtain ⟨list'',a,s,hremove',hd,hholds,-,-⟩ := h.remove_interior hbefore hid
  rw [hremove,Option.some_inj,Prod.mk.injEq] at hremove'
  obtain ⟨rfl,-⟩ := hremove'
  obtain ⟨next,hcell⟩ := hremoved.nodes.chain.cell_of_mem (p := q) (v := d) (by simp)
  obtain ⟨next',hcell'⟩ := hholds.chain.cell_of_mem (p := q) (v := { d with socks := none }) (by simp)
  rw [hcell,Option.some_inj,Node.mk.injEq] at hcell'
  have hnull : d.socks = none := congrArg ClientEndpoint.socks hcell'.2
  rw [hd.points] at hnull
  cases hnull

/-- Only the first client of the list can be removed without harm to another. -/
theorem removes_only_iff (h : list.OwnSockets cells) (id : UInt32) :
    RemovesOnly list cells id ↔ (∀ x ∈ cells, x.2.id ≠ id) ∨ ∃ x, cells.head? = some x ∧ x.2.id = id := by
  constructor
  · intro hremoves
    rcases first_cases cells id with habsent | ⟨pre,p,c,post,rfl,hpre,hid⟩
    · exact Or.inl habsent
    · rcases List.eq_nil_or_concat pre with rfl | ⟨pre,⟨q,d⟩,rfl⟩
      · exact Or.inr ⟨(p,c),rfl,hid⟩
      · have hassoc : pre.concat (q,d) ++ (p,c) :: post = pre ++ (q,d) :: (p,c) :: post := by simp
        rw [hassoc] at h hremoves
        rw [List.concat_eq_append] at hpre
        exact absurd hremoves (h.not_removesOnly hpre hid)
  · rintro (habsent | ⟨⟨p,c⟩,hhead,hid⟩)
    · refine ⟨h.toHolds.remove_absent freeSockets?,?_⟩
      rintro pre p c post rfl - hid
      exact absurd hid (habsent (p,c) (by simp))
    · obtain ⟨post,rfl⟩ : ∃ post, cells = (p,c) :: post := by
        cases cells with
        | nil => cases hhead
        | cons x post =>
          rw [List.head?_cons,Option.some_inj] at hhead
          exact ⟨post,by rw [hhead]⟩
      refine ⟨fun habsent => absurd hid (habsent (p,c) List.mem_cons_self),?_⟩
      intro pre p' c' post' hsplit hpre hid'
      cases pre with
      | nil =>
        cases hsplit
        exact h.remove_head hid
      | cons x pre =>
        rw [List.cons_append,List.cons.injEq] at hsplit
        exact absurd hid (hsplit.1 ▸ hpre x List.mem_cons_self)

/-! ## Two clients -/

def twoClients : ClientLinkedList where
  memory :=
    { nodes := (Heap.empty.write 1 ⟨some 2,⟨7,.lobby,some 10,some 100⟩⟩).write 2 ⟨none,⟨8,.lobby,some 20,some 200⟩⟩
      sockets := (Heap.empty.write 10 ⟨3,4,5⟩).write 20 ⟨6,7,8⟩
      opened := fun fd => decide (3 ≤ fd) && decide (fd ≤ 8) }
  head := some 1
  count := 2

def twoCells : List (ℕ × ClientEndpoint) := [(1,⟨7,.lobby,some 10,some 100⟩),(2,⟨8,.lobby,some 20,some 200⟩)]

theorem own_twoClients : twoClients.OwnSockets twoCells where
  chain := ⟨rfl,some 2,rfl,rfl,none,rfl,rfl⟩
  count := rfl
  opened := by
    intro x hx
    rcases List.mem_pair.mp hx with rfl | rfl
    · exact ⟨10,⟨3,4,5⟩,rfl,rfl,by decide⟩
    · exact ⟨20,⟨6,7,8⟩,rfl,rfl,by decide⟩
  own := by
    refine List.pairwise_pair.mpr fun a s b t hs ht => ?_
    have ha := hs.points
    have hb := ht.points
    cases ha
    cases hb
    have hcell := hs.cell
    have hcell' := ht.cell
    cases hcell
    cases hcell'
    decide

theorem head_removed_alone : RemovesOnly twoClients twoCells 7 :=
  (removes_only_iff own_twoClients 7).mpr (Or.inr ⟨_,rfl,rfl⟩)

/-- Removing client 8 takes the sockets of client 7. -/
theorem second_takes_first_along :
    ¬∀ (list : ClientLinkedList) (cells : List (ℕ × ClientEndpoint)), list.OwnSockets cells →
      ∀ id, RemovesOnly list cells id := by
  intro h
  have hown : twoClients.OwnSockets ([] ++ (1,⟨7,.lobby,some 10,some 100⟩) :: [(2,⟨8,.lobby,some 20,some 200⟩)]) :=
    own_twoClients
  exact hown.not_removesOnly (by decide) rfl (h twoClients twoCells own_twoClients 8)

end ClientLinkedList
end CoreStack.BattleRoyale
