import CoreStack.BattleRoyale.Broadcast
import CoreStack.Lib.Chains
import CoreStack.Lib.Execution
import Mathlib.Data.Int.Notation

/-! # The linked list of clients in memory (`clientll.c`)

`malloc` yields any address that is not in use. An access to other memory, and a loop that
does not end within `count + 1` rounds, yield `none`.
-/
namespace CoreStack.BattleRoyale
open Chains

structure Sockets where
  tcp : ℤ
  udpUni : ℤ
  udpBroad : ℤ
  deriving DecidableEq

structure ClientEndpoint where
  id : UInt32
  state : EndpointState
  socks : Option ℕ
  sesskey : Option ℕ
  deriving DecidableEq

/-- The nodes, the `Sockets` structs and the open file descriptors. -/
structure ServerMemory where
  nodes : Heap (Node ClientEndpoint)
  sockets : Heap Sockets
  opened : ℤ → Bool

/-! ## Sockets (`common.c`) -/

def checkSockets (socks : Sockets) : Bool := decide (0 < socks.tcp) && decide (0 < socks.udpUni) && decide (0 < socks.udpBroad)

def Sockets.fds (socks : Sockets) : List ℤ := [socks.tcp,socks.udpUni,socks.udpBroad]

def closeSockets? (memory : ServerMemory) (socks : ℕ) : Option (ServerMemory × ℤ) :=
  (memory.sockets.cell socks).map fun s =>
    if checkSockets s then
      ({ memory with
          sockets := memory.sockets.write socks ⟨-1,-1,-1⟩
          opened := fun fd => memory.opened fd && !s.fds.contains fd },0)
    else (memory,-1)

/-- The pointer is the one in the client at node `p`. -/
def freeSockets? (memory : ServerMemory) (p : ℕ) : Option (ServerMemory × ℤ) :=
  (memory.nodes.cell p).bind fun node => node.value.socks.bind fun socks =>
    (closeSockets? memory socks).map fun r =>
      if r.2 ≠ 0 then (r.1,-1)
      else ({ r.1 with
          sockets := r.1.sockets.free socks
          nodes := r.1.nodes.write p ⟨node.next,{ node.value with socks := none }⟩ },0)

/-! ## The list -/

structure ClientLinkedList where
  memory : ServerMemory
  head : Option ℕ
  count : UInt32

namespace ClientLinkedList

def initaliseList (memory : ServerMemory) : ClientLinkedList := ⟨memory,none,0⟩

def fuel (list : ClientLinkedList) : ℕ := list.count.toNat + 1

def addToList? (list : ClientLinkedList) (pick : ℕ) (client : ClientEndpoint) : Option (ClientLinkedList × ℤ) :=
  let nodes := list.memory.nodes
  let slot := nodes.fresh pick
  if list.count = 0xFFFFFFFF then some (list,-1)
  else match list.head with
    | none =>
      some (⟨{ list.memory with nodes := nodes.write slot ⟨none,client⟩ },some slot,list.count + 1⟩,0)
    | some head =>
      (last? nodes list.fuel head).bind fun lastSlot => (nodes.cell lastSlot).map fun node =>
        (⟨{ list.memory with nodes := (nodes.write lastSlot ⟨some slot,node.value⟩).write slot ⟨none,client⟩ },
          list.head,list.count + 1⟩,0)

/-- `free(node)` after `free_sockets`, whose result is not looked at. -/
def giveUp (freed : Option (ServerMemory × ℤ)) (node : ℕ) (head : Option ℕ) (count : UInt32) : Option (ClientLinkedList × ℤ) :=
  freed.map fun r => (⟨{ r.1 with nodes := r.1.nodes.free node },head,count - 1⟩,0)

/-- The interior case calls `free_sockets` for `checking`, the node in front. -/
def removeFromList? (freeSockets : ServerMemory → ℕ → Option (ServerMemory × ℤ)) (list : ClientLinkedList) (id : UInt32) :
    Option (ClientLinkedList × ℤ) :=
  let nodes := list.memory.nodes
  match list.head with
  | none => some (list,-1)
  | some head =>
    (nodes.cell head).bind fun node =>
      if node.value.id = id then giveUp (freeSockets list.memory head) head node.next list.count
      else (before? nodes (·.id == id) list.fuel head).bind fun found =>
        match found with
        | none => some (list,-1)
        | some checking =>
          (nodes.cell checking).bind fun node => node.next.bind fun removedNode =>
            (nodes.cell removedNode).bind fun removed =>
              giveUp (freeSockets { list.memory with nodes := nodes.write checking ⟨removed.next,node.value⟩ } checking)
                removedNode list.head list.count

/-! ## The readers -/

def getFromList? (list : ClientLinkedList) (id : UInt32) : Option (ℤ × Option ClientEndpoint) :=
  match list.head with
  | none => some (-1,none)
  | some _ => (find? list.memory.nodes (·.id == id) list.fuel list.head).map fun found =>
    found.elim (-1,none) fun client => (0,some client)

def idLoop? (nodes : Heap (Node ClientEndpoint)) : ℕ → ℕ → ℕ → List UInt32 → Option (List UInt32)
  | 0, _, _, _ => none
  | fuel + 1, p, i, ids => (nodes.cell p).bind fun node =>
    if i < ids.length then
      match node.next with
      | none => some (ids.set i node.value.id)
      | some q => idLoop? nodes fuel q (i + 1) (ids.set i node.value.id)
    else none

/-- The array holds `garbage` at first. -/
def getIdArray? (list : ClientLinkedList) (garbage : ℕ → UInt32) : Option (ℤ × Option (List UInt32)) :=
  match list.head with
  | none => some (-1,none)
  | some head =>
    (idLoop? list.memory.nodes list.fuel head 0 ((List.range list.count.toNat).map garbage)).map fun ids => (0,some ids)

/-- One round of the loop of `brserver_client_info`. -/
def writeId? (nodes : Heap (Node ClientEndpoint)) (r : Option ℕ × (ℕ → UInt32)) (i : ℕ) :
    Option (Option ℕ × (ℕ → UInt32)) :=
  match r.1 with
  | none => some r
  | some client => (nodes.cell client).map fun node => (node.next,Function.update r.2 i node.value.id)

def brserverClientInfo? (list : ClientLinkedList) (clientIds : ℕ → UInt32) : Option (UInt32 × (ℕ → UInt32)) :=
  ((List.range list.count.toNat).foldlM (writeId? list.memory.nodes) (list.head,clientIds)).map fun r => (list.count,r.2)

/-! ## What the memory holds -/

structure Holds (list : ClientLinkedList) (cells : List (ℕ × ClientEndpoint)) : Prop where
  chain : Chain list.memory.nodes list.head cells
  count : list.count.toNat = cells.length

theorem holds_initaliseList (memory : ServerMemory) : (initaliseList memory).Holds [] := ⟨rfl,rfl⟩

variable {list : ClientLinkedList} {cells : List (ℕ × ClientEndpoint)}

theorem Holds.lt_fuel (h : list.Holds cells) : cells.length < list.fuel := by
  rw [fuel,h.count]
  exact Nat.lt_succ_self _

theorem Holds.count_add (h : list.Holds cells) (hroom : list.count ≠ 0xFFFFFFFF) :
    (list.count + 1).toNat = cells.length + 1 := by
  have hne : list.count.toNat ≠ 4294967295 := fun heq => hroom (UInt32.toNat_inj.mp heq)
  have hlt := list.count.toNat_lt
  have hone : (1 : UInt32).toNat = 1 := rfl
  rw [UInt32.toNat_add,hone,← h.count]
  omega

theorem Holds.count_sub (h : list.Holds cells) (hpos : 0 < cells.length) :
    (list.count - 1).toNat = cells.length - 1 := by
  have hle : 1 ≤ list.count := by
    rw [UInt32.le_iff_toNat_le,h.count]
    exact hpos
  rw [UInt32.toNat_sub_of_le _ _ hle,h.count]
  rfl

theorem Holds.full (h : list.Holds cells) : list.count = 0xFFFFFFFF ↔ cells.length = 4294967295 := by
  rw [← h.count,← UInt32.toNat_inj]
  rfl

theorem Holds.add (h : list.Holds cells) (hroom : list.count ≠ 0xFFFFFFFF) (pick : ℕ) (client : ClientEndpoint) :
    ∃ list' p, list.addToList? pick client = some (list',0) ∧ list'.Holds (cells ++ [(p,client)]) := by
  have hfresh := list.memory.nodes.cell_fresh pick
  have hcount := h.count_add hroom
  unfold addToList?
  dsimp only
  rw [if_neg hroom]
  rcases List.eq_nil_or_concat cells with rfl | ⟨pre,⟨q,w⟩,rfl⟩
  · have hhead : list.head = none := h.chain
    rw [hhead]
    exact ⟨_,list.memory.nodes.fresh pick,rfl,⟨rfl,none,Heap.write_self _ _ _,rfl⟩,hcount⟩
  · rw [List.concat_eq_append] at h hcount ⊢
    have hchain := h.chain
    obtain ⟨head,-,-,hhead,-⟩ := hchain.first
    obtain ⟨next,hq⟩ := hchain.cell_of_mem (p := q) (v := w) (by simp)
    have hlast : last? list.memory.nodes list.fuel head = some q := by
      rw [hhead] at hchain
      exact hchain.last? (Nat.lt_trans (by simp) h.lt_fuel)
    rw [hhead]
    dsimp only
    rw [hlast,Option.bind_some,hq,Option.map_some]
    refine ⟨_,list.memory.nodes.fresh pick,rfl,?_,?_⟩
    · rw [List.append_assoc]
      exact hhead ▸ hchain.append hfresh client
    · rw [List.length_append]
      exact hcount

section Remove
variable (freeSockets : ServerMemory → ℕ → Option (ServerMemory × ℤ)) {id : UInt32}

theorem Holds.remove_absent (h : list.Holds cells) (habsent : ∀ c ∈ cells, c.2.id ≠ id) :
    list.removeFromList? freeSockets id = some (list,-1) := by
  have hchain := h.chain
  have htest : ∀ c ∈ cells, (c.2.id == id) = false := fun c hc => beq_eq_false_iff_ne.mpr (habsent c hc)
  unfold removeFromList?
  dsimp only
  cases cells with
  | nil =>
    have hhead : list.head = none := hchain
    rw [hhead]
  | cons c cells =>
    obtain ⟨hhead,next,hcell,-⟩ := h.chain
    rw [hhead] at hchain
    rw [hhead]
    dsimp only
    rw [hcell,Option.bind_some]
    dsimp only
    rw [if_neg (habsent c List.mem_cons_self),hchain.before_none (Nat.le_of_lt h.lt_fuel) htest]
    rfl

theorem Holds.remove_head {p : ℕ} {c : ClientEndpoint} {post : List (ℕ × ClientEndpoint)}
    (h : list.Holds ((p,c) :: post)) (hid : c.id = id) :
    ∃ next, list.memory.nodes.cell p = some ⟨next,c⟩ ∧ Chain list.memory.nodes next post ∧
      list.removeFromList? freeSockets id = giveUp (freeSockets list.memory p) p next list.count := by
  obtain ⟨hhead,next,hcell,hrest⟩ := h.chain
  refine ⟨next,hcell,hrest,?_⟩
  unfold removeFromList?
  dsimp only
  rw [hhead]
  dsimp only
  rw [hcell,Option.bind_some]
  dsimp only
  rw [if_pos hid]

theorem Holds.remove_interior {p q : ℕ} {c d : ClientEndpoint} {pre post : List (ℕ × ClientEndpoint)}
    (h : list.Holds (pre ++ (q,d) :: (p,c) :: post)) (hbefore : ∀ x ∈ pre ++ [(q,d)], x.2.id ≠ id) (hid : c.id = id) :
    ∃ next, list.memory.nodes.cell p = some ⟨next,c⟩ ∧
      list.removeFromList? freeSockets id =
        giveUp (freeSockets { list.memory with nodes := list.memory.nodes.write q ⟨next,d⟩ } q) p list.head list.count := by
  have hchain := h.chain
  obtain ⟨-,-,-,hq,rfl,next,hp,-⟩ := hchain.suffix
  obtain ⟨head,e,link,hhead,hmem,hcell⟩ := hchain.first
  have hfound : before? list.memory.nodes (·.id == id) list.fuel head = some (some q) := by
    rw [hhead] at hchain
    refine hchain.before_found (Nat.lt_trans (by simp) h.lt_fuel) (fun x hx => ?_) (beq_iff_eq.mpr hid)
    exact beq_eq_false_iff_ne.mpr (hbefore x hx)
  refine ⟨next,hp,?_⟩
  unfold removeFromList?
  dsimp only
  rw [hhead]
  dsimp only
  rw [hcell,Option.bind_some,if_neg (hbefore (head,e) hmem),hfound,Option.bind_some]
  dsimp only
  rw [hq,Option.bind_some,Option.bind_some,hp,Option.bind_some]

end Remove

theorem first_cases (cells : List (ℕ × ClientEndpoint)) (id : UInt32) :
    (∀ c ∈ cells, c.2.id ≠ id) ∨ ∃ pre p c post, cells = pre ++ (p,c) :: post ∧ (∀ x ∈ pre, x.2.id ≠ id) ∧ c.id = id := by
  induction cells with
  | nil => exact Or.inl fun c hc => absurd hc (by simp)
  | cons x cells ih =>
    by_cases hx : x.2.id = id
    · exact Or.inr ⟨[],x.1,x.2,cells,rfl,fun y hy => absurd hy (by simp),hx⟩
    · rcases ih with habsent | ⟨pre,p,c,post,rfl,hpre,hid⟩
      · exact Or.inl (List.forall_mem_cons.mpr ⟨hx,habsent⟩)
      · exact Or.inr ⟨x :: pre,p,c,post,rfl,List.forall_mem_cons.mpr ⟨hx,hpre⟩,hid⟩

end ClientLinkedList
end CoreStack.BattleRoyale
