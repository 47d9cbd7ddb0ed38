import CoreStack.Lib.Chains
import CoreStack.Lib.Execution

/-! # The event bus in memory (`libeventbus.c`)

`malloc` yields any address that is not in use. An access to other memory or outside the
array of slots yields `none`. Listeners are compared by their addresses.
-/
namespace CoreStack.Utils
open Chains

/-- `slots` is `none` before `event_bus_init` and after `event_bus_free`. -/
structure EventBus (F : Type*) where
  nodes : Heap (Node F)
  slots : Option (List (Option ℕ))
  numEvents : ℕ

namespace EventBus
variable {F S : Type*}

def start : EventBus F := ⟨.empty,none,0⟩

def init (bus : EventBus F) (numEvents : ℕ) : EventBus F :=
  ⟨bus.nodes,some (List.replicate numEvents none),numEvents⟩

/-- The bound on the rounds of a walk. -/
def fuel (bus : EventBus F) : ℕ := bus.nodes.bound

/-- `event_bus.slots[event_type].head` -/
def head? (bus : EventBus F) (eventType : ℕ) : Option (Option ℕ) := bus.slots.bind fun slots => slots[eventType]?

def setHead? (bus : EventBus F) (eventType : ℕ) (link : Option ℕ) : Option (EventBus F) :=
  bus.slots.bind fun slots =>
    if eventType < slots.length then some { bus with slots := some (slots.set eventType link) } else none

/-- A new node goes in front. -/
def listen? (bus : EventBus F) (pick eventType : ℕ) (listener : F) : Option (EventBus F) :=
  let node := bus.nodes.fresh pick
  (bus.head? eventType).bind fun head =>
    { bus with nodes := bus.nodes.write node ⟨head,listener⟩ }.setHead? eventType (some node)

/-- Where `curr` points: to the head of a slot, or to the link in a node. -/
inductive Place
  | head (eventType : ℕ)
  | next (node : ℕ)

def load? (bus : EventBus F) : Place → Option (Option ℕ)
  | .head eventType => bus.head? eventType
  | .next node => (bus.nodes.cell node).map (·.next)

def store? (bus : EventBus F) (link : Option ℕ) : Place → Option (EventBus F)
  | .head eventType => bus.setHead? eventType link
  | .next node => (bus.nodes.cell node).map fun n => { bus with nodes := bus.nodes.write node ⟨link,n.value⟩ }

/-- Every test of `*curr` takes a round. -/
def unlinkLoop? [DecidableEq F] (bus : EventBus F) (listener : F) : ℕ → Place → Option (EventBus F)
  | 0, _ => none
  | fuel + 1, curr => (bus.load? curr).bind fun link =>
    match link with
    | none => some bus
    | some toFree => (bus.nodes.cell toFree).bind fun node =>
      if node.value = listener then
        (bus.store? node.next curr).map fun bus => { bus with nodes := bus.nodes.free toFree }
      else unlinkLoop? bus listener fuel (.next toFree)

def stopListening? [DecidableEq F] (bus : EventBus F) (eventType : ℕ) (listener : F) : Option (EventBus F) :=
  bus.unlinkLoop? listener (bus.fuel + 1) (.head eventType)

/-- The call of a listener may change the bus. The link to the next node is read after it. -/
def triggerLoop? (call : F → EventBus F × S → Option (EventBus F × S)) :
    ℕ → Option ℕ → EventBus F × S → Option (EventBus F × S)
  | _, none, s => some s
  | 0, some _, _ => none
  | fuel + 1, some p, s => (s.1.nodes.cell p).bind fun node => (call node.value s).bind fun s =>
    (s.1.nodes.cell p).bind fun node => triggerLoop? call fuel node.next s

def trigger? (call : F → EventBus F × S → Option (EventBus F × S)) (eventType : ℕ) (s : EventBus F × S) :
    Option (EventBus F × S) :=
  (s.1.head? eventType).bind fun head => triggerLoop? call s.1.fuel head s

def free? (bus : EventBus F) : Option (EventBus F) :=
  ((List.range bus.numEvents).foldlM (fun nodes i => (bus.head? i).bind fun head => release? bus.fuel head nodes)
    bus.nodes).map fun nodes => ⟨nodes,none,0⟩

/-! ## What the memory holds -/

/-- Event `i` has the listeners `lists i`, each with the address of its node. No node is
shared and there are no others. -/
structure Holds (bus : EventBus F) (lists : ℕ → List (ℕ × F)) : Prop where
  chains : ∃ heads, bus.slots = some heads ∧ heads.length = bus.numEvents ∧
    ∀ i head, heads[i]? = some head → Chain bus.nodes head (lists i)
  outside : ∀ i, bus.numEvents ≤ i → lists i = []
  apart : ∀ i j p, p ∈ (lists i).map Prod.fst → p ∈ (lists j).map Prod.fst → i = j
  owned : ∀ p node, bus.nodes.cell p = some node → ∃ i, p ∈ (lists i).map Prod.fst

theorem holds_init (numEvents : ℕ) : ((start : EventBus F).init numEvents).Holds fun _ => [] where
  chains := ⟨_,rfl,List.length_replicate,fun _ _ h =>
    List.eq_of_mem_replicate (List.mem_of_getElem? h)⟩
  outside _ _ := rfl
  apart _ _ _ h := absurd h List.not_mem_nil
  owned _ _ h := nomatch h

variable {bus : EventBus F} {lists : ℕ → List (ℕ × F)}

theorem Holds.head (h : bus.Holds lists) {i : ℕ} (hi : i < bus.numEvents) :
    ∃ head, bus.head? i = some head ∧ Chain bus.nodes head (lists i) := by
  obtain ⟨heads,hslots,hlen,hchain⟩ := h.chains
  have hget : heads[i]? = some heads[i] := List.getElem?_eq_getElem (hlen ▸ hi)
  exact ⟨heads[i],by rw [head?,hslots,Option.bind_some,hget],hchain i _ hget⟩

theorem Holds.head_outside (h : bus.Holds lists) {i : ℕ} (hi : bus.numEvents ≤ i) : bus.head? i = none := by
  obtain ⟨heads,hslots,hlen,-⟩ := h.chains
  rw [head?,hslots,Option.bind_some]
  exact List.getElem?_eq_none (hlen ▸ hi)

/-- The list of one event changes, and with it only its own nodes and a fresh one. -/
theorem Holds.update (h : bus.Holds lists) {i : ℕ} (hi : i < bus.numEvents) {bus' : EventBus F} {cells : List (ℕ × F)}
    {head : Option ℕ} (hslots : bus'.slots = bus.slots.map fun slots => slots.set i head)
    (hevents : bus'.numEvents = bus.numEvents) (hchain : Chain bus'.nodes head cells)
    (hkept : ∀ j ≠ i, ∀ p ∈ (lists j).map Prod.fst, bus'.nodes.cell p = bus.nodes.cell p ∧ p ∉ cells.map Prod.fst)
    (howned : ∀ p node, bus'.nodes.cell p = some node → p ∈ cells.map Prod.fst ∨ ∃ j ≠ i, p ∈ (lists j).map Prod.fst) :
    bus'.Holds (Function.update lists i cells) := by
  obtain ⟨heads,hheads,hlen,hchains⟩ := h.chains
  have hne : ∀ j ≠ i, Function.update lists i cells j = lists j := fun j hj => Function.update_of_ne hj _ _
  refine ⟨⟨heads.set i head,?_,?_,?_⟩,?_,?_,?_⟩
  · rw [hslots,hheads,Option.map_some]
  · rw [List.length_set,hlen,hevents]
  · intro j link hj
    by_cases hji : j = i
    · subst hji
      rw [List.getElem?_set_self (hlen ▸ hi),Option.some_inj] at hj
      rw [Function.update_self,← hj]
      exact hchain
    · rw [List.getElem?_set_ne (Ne.symm hji)] at hj
      rw [hne j hji]
      exact (hchains j link hj).frame fun p hp => (hkept j hji p hp).1
  · intro j hj
    rw [hevents] at hj
    rw [hne j (by omega)]
    exact h.outside j hj
  · intro j k p hj hk
    by_cases hji : j = i
    · subst hji
      by_contra hkj
      rw [Function.update_self] at hj
      rw [hne k (Ne.symm hkj)] at hk
      exact (hkept k (Ne.symm hkj) p hk).2 hj
    · rw [hne j hji] at hj
      by_cases hki : k = i
      · subst hki
        rw [Function.update_self] at hk
        exact absurd hk (hkept j hji p hj).2
      · rw [hne k hki] at hk
        exact h.apart j k p hj hk
  · intro p node hp
    rcases howned p node hp with hmem | ⟨j,hj,hmem⟩
    · exact ⟨i,by rwa [Function.update_self]⟩
    · exact ⟨j,by rwa [hne j hj]⟩

theorem Holds.setHead (h : bus.Holds lists) {i : ℕ} (hi : i < bus.numEvents) (nodes : Heap (Node F)) (link : Option ℕ) :
    ∃ bus', { bus with nodes := nodes }.setHead? i link = some bus' ∧ bus'.nodes = nodes ∧
      bus'.numEvents = bus.numEvents ∧ bus'.slots = bus.slots.map fun slots => slots.set i link := by
  obtain ⟨heads,hheads,hlen,-⟩ := h.chains
  refine ⟨⟨nodes,some (heads.set i link),bus.numEvents⟩,?_,rfl,rfl,by rw [hheads,Option.map_some]⟩
  rw [setHead?]
  dsimp only
  rw [hheads,Option.bind_some,if_pos (hlen ▸ hi)]

/-! ## Listening -/

theorem Holds.listen (h : bus.Holds lists) {i : ℕ} (hi : i < bus.numEvents) (pick : ℕ) (listener : F) :
    ∃ bus' p, bus.listen? pick i listener = some bus' ∧ bus'.numEvents = bus.numEvents ∧
      bus'.Holds (Function.update lists i ((p,listener) :: lists i)) := by
  obtain ⟨head,hhead,hchain⟩ := h.head hi
  have hfresh := bus.nodes.cell_fresh pick
  generalize hnode : bus.nodes.fresh pick = node at hfresh
  have hother : ∀ j, ∀ p ∈ (lists j).map Prod.fst, p ≠ node := by
    rintro j p hp rfl
    obtain ⟨⟨q,v⟩,hmem,rfl⟩ := List.mem_map.mp hp
    by_cases hj : j < bus.numEvents
    · obtain ⟨_,-,hj⟩ := h.head hj
      obtain ⟨next,hcell⟩ := hj.cell_of_mem hmem
      rw [hfresh] at hcell
      cases hcell
    · rw [h.outside j (by omega)] at hmem
      exact absurd hmem List.not_mem_nil
  obtain ⟨bus',hset,hnodes,hevents,hslots⟩ := h.setHead hi (bus.nodes.write node ⟨head,listener⟩) (some node)
  refine ⟨bus',node,?_,hevents,?_⟩
  · rw [listen?,hhead,hnode]
    exact hset
  · refine h.update hi hslots hevents ?_ ?_ ?_
    · rw [hnodes]
      exact ⟨rfl,head,Heap.write_self _ _ _,hchain.frame fun p hp => Heap.write_of_ne _ (hother i p hp) _⟩
    · intro j hj p hp
      rw [hnodes,Heap.write_of_ne _ (hother j p hp)]
      refine ⟨rfl,fun hmem => ?_⟩
      rcases List.mem_cons.mp hmem with hp' | hmem
      · exact hother j p hp hp'
      · exact hj (h.apart j i p hp hmem)
    · intro p n hp
      rw [hnodes] at hp
      by_cases hpn : p = node
      · exact Or.inl (List.mem_cons.mpr (Or.inl hpn))
      · rw [Heap.write_of_ne _ hpn] at hp
        obtain ⟨j,hj⟩ := h.owned p n hp
        by_cases hji : j = i
        · exact Or.inl (List.mem_cons_of_mem _ (hji ▸ hj))
        · exact Or.inr ⟨j,hji,hj⟩

/-! ## Leaving -/

/-- The walk of `curr` from a place: nothing happens without the listener, else the first
node with it is given up and the link to it led past it. -/
theorem unlinkLoop_chain [DecidableEq F] {curr : Place} {link : Option ℕ} {cells : List (ℕ × F)} (hcurr : bus.load? curr = some link)
    (hchain : Chain bus.nodes link cells) (listener : F) {fuel : ℕ} (hfuel : cells.length < fuel) :
    ((∀ c ∈ cells, c.2 ≠ listener) ∧ bus.unlinkLoop? listener fuel curr = some bus) ∨
    ∃ pre p post next, cells = pre ++ (p,listener) :: post ∧ (∀ c ∈ pre, c.2 ≠ listener) ∧
      bus.nodes.cell p = some ⟨next,listener⟩ ∧ Chain bus.nodes next post ∧
      bus.unlinkLoop? listener fuel curr =
        (bus.store? next (pre.getLast?.elim curr fun c => .next c.1)).map fun bus => { bus with nodes := bus.nodes.free p } := by
  induction cells generalizing curr link fuel with
  | nil =>
    obtain ⟨fuel,rfl⟩ := Nat.exists_eq_add_of_lt hfuel
    cases hchain
    refine Or.inl ⟨fun c hc => absurd hc List.not_mem_nil,?_⟩
    rw [unlinkLoop?,hcurr]
    rfl
  | cons c cells ih =>
    obtain ⟨p,v⟩ := c
    obtain ⟨fuel,rfl⟩ := Nat.exists_eq_add_of_lt hfuel
    obtain ⟨hlink,next,hcell,hrest⟩ := hchain
    subst hlink
    have hstep : bus.unlinkLoop? listener (((p,v) :: cells).length + fuel + 1) curr =
        if v = listener then (bus.store? next curr).map fun bus => { bus with nodes := bus.nodes.free p }
        else bus.unlinkLoop? listener (((p,v) :: cells).length + fuel) (.next p) := by
      rw [unlinkLoop?,hcurr,Option.bind_some]
      dsimp only
      rw [hcell,Option.bind_some]
    by_cases hv : v = listener
    · subst hv
      refine Or.inr ⟨[],p,cells,next,rfl,fun c hc => absurd hc List.not_mem_nil,hcell,hrest,?_⟩
      exact hstep.trans (if_pos rfl)
    · rw [if_neg hv] at hstep
      have hload : bus.load? (.next p) = some next := by
        rw [load?,hcell,Option.map_some]
      have hleft : cells.length < ((p,v) :: cells).length + fuel := by
        rw [List.length_cons]
        omega
      rcases ih hload hrest hleft with ⟨hnone,hrun⟩ | ⟨pre,q,post,link,rfl,hpre,hq,hpost,hrun⟩
      · exact Or.inl ⟨List.forall_mem_cons.mpr ⟨hv,hnone⟩,hstep.trans hrun⟩
      · refine Or.inr ⟨(p,v) :: pre,q,post,link,rfl,List.forall_mem_cons.mpr ⟨hv,hpre⟩,hq,hpost,?_⟩
        rw [hstep,hrun]
        cases pre with
        | nil => rfl
        | cons c pre => rfl

theorem Holds.lt_fuel (h : bus.Holds lists) (i : ℕ) : (lists i).length ≤ bus.fuel := by
  by_cases hi : i < bus.numEvents
  · obtain ⟨_,-,hchain⟩ := h.head hi
    exact hchain.length_le
  · rw [h.outside i (by omega)]
    exact Nat.zero_le _

theorem Holds.not_mem (h : bus.Holds lists) {i j p : ℕ} (hj : j ≠ i) (hp : p ∈ (lists j).map Prod.fst) :
    p ∉ (lists i).map Prod.fst := fun hmem => hj (h.apart j i p hp hmem)

/-- One node leaves the list of an event. Memory outside the list is not written. -/
theorem Holds.remove (h : bus.Holds lists) {i p : ℕ} (hi : i < bus.numEvents) {v : F} {pre post : List (ℕ × F)}
    (hlist : lists i = pre ++ (p,v) :: post) {bus' : EventBus F} {head : Option ℕ}
    (hslots : bus'.slots = bus.slots.map fun slots => slots.set i head) (hevents : bus'.numEvents = bus.numEvents)
    (hchain : Chain bus'.nodes head (pre ++ post)) (hgone : bus'.nodes.cell p = none)
    (hframe : ∀ q ∉ (lists i).map Prod.fst, bus'.nodes.cell q = bus.nodes.cell q) :
    bus'.Holds (Function.update lists i (pre ++ post)) := by
  have hkeys : ∀ q, q ∈ (lists i).map Prod.fst ↔ q = p ∨ q ∈ (pre ++ post).map Prod.fst := by
    intro q
    rw [hlist,List.map_append,List.map_append,List.map_cons,List.mem_append,List.mem_append,List.mem_cons]
    exact or_left_comm
  refine h.update hi hslots hevents hchain ?_ ?_
  · intro j hj q hq
    exact ⟨hframe q (h.not_mem hj hq),fun hmem => h.not_mem hj hq ((hkeys q).mpr (Or.inr hmem))⟩
  · intro q node hq
    by_cases hmem : q ∈ (lists i).map Prod.fst
    · refine Or.inl (((hkeys q).mp hmem).resolve_left ?_)
      rintro rfl
      rw [hgone] at hq
      cases hq
    · rw [hframe q hmem] at hq
      obtain ⟨j,hj⟩ := h.owned q node hq
      exact Or.inr ⟨j,fun hji => hmem (hji ▸ hj),hj⟩

theorem Holds.remove_first (h : bus.Holds lists) {i p : ℕ} (hi : i < bus.numEvents) {v : F} {post : List (ℕ × F)}
    (hlist : lists i = (p,v) :: post) {next : Option ℕ} (hnext : Chain bus.nodes next post) :
    ∃ bus', (bus.store? next (.head i)).map (fun bus => { bus with nodes := bus.nodes.free p }) = some bus' ∧
      bus'.numEvents = bus.numEvents ∧ bus'.nodes.cell p = none ∧ bus'.Holds (Function.update lists i post) := by
  obtain ⟨head,-,hchain⟩ := h.head hi
  rw [hlist] at hchain
  have hmem : p ∈ (lists i).map Prod.fst := by
    rw [hlist]
    exact List.mem_cons_self
  obtain ⟨bus₁,hset,hnodes,hevents,hslots⟩ := h.setHead hi bus.nodes next
  refine ⟨{ bus₁ with nodes := bus₁.nodes.free p },?_,hevents,Heap.free_self _ _,?_⟩
  · rw [store?]
    rw [hset,Option.map_some]
  · have hsplit : lists i = [] ++ (p,v) :: post := hlist
    refine h.remove hi hsplit hslots hevents ?_ (Heap.free_self _ _) ?_
    · rw [hnodes]
      exact hnext.frame fun q hq => Heap.free_of_ne _ (hchain.head_apart q hq)
    · intro q hq
      dsimp only
      rw [hnodes]
      refine Heap.free_of_ne _ ?_
      rintro rfl
      exact hq hmem

theorem Holds.remove_later (h : bus.Holds lists) {i p q : ℕ} (hi : i < bus.numEvents) {v w : F}
    {before post : List (ℕ × F)} (hlist : lists i = before ++ (q,w) :: (p,v) :: post) {next : Option ℕ}
    (hp : bus.nodes.cell p = some ⟨next,v⟩) :
    ∃ bus', (bus.store? next (.next q)).map (fun bus => { bus with nodes := bus.nodes.free p }) = some bus' ∧
      bus'.numEvents = bus.numEvents ∧ bus'.nodes.cell p = none ∧
      bus'.Holds (Function.update lists i (before ++ (q,w) :: post)) := by
  obtain ⟨heads,hheads,hlen,hchains⟩ := h.chains
  have hlt : i < heads.length := hlen ▸ hi
  have hchain := hchains i heads[i] (List.getElem?_eq_getElem hlt)
  rw [hlist] at hchain
  obtain ⟨link,hq⟩ := hchain.cell_of_mem (p := q) (v := w) (List.mem_append_right _ List.mem_cons_self)
  have hsplit : lists i = (before ++ [(q,w)]) ++ (p,v) :: post := by
    rw [hlist,List.append_assoc]
    rfl
  have hmem : ∀ r, r = p ∨ r = q → r ∈ (lists i).map Prod.fst := by
    rintro r (rfl | rfl)
    · exact List.mem_map.mpr ⟨_,hlist ▸ List.mem_append_right _ (List.mem_cons_of_mem _ List.mem_cons_self),rfl⟩
    · exact List.mem_map.mpr ⟨_,hlist ▸ List.mem_append_right _ List.mem_cons_self,rfl⟩
  have hsame : bus.slots = bus.slots.map fun slots => slots.set i heads[i] := by
    rw [hheads,Option.map_some,List.set_getElem_self]
  refine ⟨{ bus with nodes := (bus.nodes.write q ⟨next,w⟩).free p },?_,rfl,Heap.free_self _ _,?_⟩
  · rw [store?,hq]
    rfl
  · have hunlinked := hchain.unlink hp w
    have happend : before ++ (q,w) :: post = (before ++ [(q,w)]) ++ post := by
      rw [List.append_assoc]
      rfl
    rw [happend] at hunlinked ⊢
    refine h.remove hi hsplit hsame rfl hunlinked (Heap.free_self _ _) fun r hr => ?_
    rw [Heap.free_of_ne _ fun hrp => hr (hmem r (Or.inl hrp)),Heap.write_of_ne _ fun hrq => hr (hmem r (Or.inr hrq))]

/-- The newest of the registrations of a listener is taken back and its node given up. -/
theorem Holds.stop_cases [DecidableEq F] (h : bus.Holds lists) {i : ℕ} (hi : i < bus.numEvents) (listener : F) :
    ((∀ c ∈ lists i, c.2 ≠ listener) ∧ bus.stopListening? i listener = some bus) ∨
    ∃ bus' pre p post, bus.stopListening? i listener = some bus' ∧ bus'.numEvents = bus.numEvents ∧
      lists i = pre ++ (p,listener) :: post ∧ (∀ c ∈ pre, c.2 ≠ listener) ∧ bus'.nodes.cell p = none ∧
      bus'.Holds (Function.update lists i (pre ++ post)) := by
  obtain ⟨head,hhead,hchain⟩ := h.head hi
  have hcurr : bus.load? (.head i) = some head := hhead
  refine (unlinkLoop_chain hcurr hchain listener (Nat.lt_succ_of_le (h.lt_fuel i))).imp_right ?_
  rintro ⟨pre,p,post,next,hlist,hpre,hp,hpost,hrun⟩
  rcases List.eq_nil_or_concat pre with rfl | ⟨before,⟨q,w⟩,rfl⟩
  · obtain ⟨bus',hstop,hevents,hgone,hholds⟩ := h.remove_first hi hlist hpost
    exact ⟨bus',[],p,post,hrun.trans hstop,hevents,hlist,hpre,hgone,hholds⟩
  · rw [List.concat_eq_append] at hlist hpre hrun
    rw [List.getLast?_append,List.getLast?_singleton] at hrun
    have hsplit : lists i = before ++ (q,w) :: (p,listener) :: post := by
      rw [hlist,List.append_assoc]
      rfl
    obtain ⟨bus',hstop,hevents,hgone,hholds⟩ := h.remove_later hi hsplit hp
    refine ⟨bus',before ++ [(q,w)],p,post,hrun.trans hstop,hevents,hlist,hpre,hgone,?_⟩
    rw [List.append_assoc]
    exact hholds

theorem Holds.stop [DecidableEq F] (h : bus.Holds lists) {i : ℕ} (hi : i < bus.numEvents) (listener : F) :
    ∃ bus' cells, bus.stopListening? i listener = some bus' ∧ bus'.numEvents = bus.numEvents ∧
      cells.map Prod.snd = ((lists i).map Prod.snd).erase listener ∧ bus'.Holds (Function.update lists i cells) := by
  have habsent : ∀ cells : List (ℕ × F), (∀ c ∈ cells, c.2 ≠ listener) → listener ∉ cells.map Prod.snd := by
    intro cells hcells hmem
    obtain ⟨c,hc,hvalue⟩ := List.mem_map.mp hmem
    exact hcells c hc hvalue
  rcases h.stop_cases hi listener with ⟨hnone,hstop⟩ | ⟨bus',pre,p,post,hstop,hevents,hlist,hpre,-,hholds⟩
  · refine ⟨bus,lists i,hstop,rfl,(List.erase_of_not_mem (habsent _ hnone)).symm,?_⟩
    rw [Function.update_eq_self]
    exact h
  · refine ⟨bus',pre ++ post,hstop,hevents,?_,hholds⟩
    rw [hlist,List.map_append,List.map_append,List.map_cons,List.erase_append_right _ (habsent _ hpre),List.erase_cons_head]

/-! ## Triggering -/

theorem triggerLoop_chain {hear : F → S → S} {link : Option ℕ} {cells : List (ℕ × F)} (hchain : Chain bus.nodes link cells)
    {fuel : ℕ} (hfuel : cells.length ≤ fuel) (s : S) :
    triggerLoop? (fun listener s => some (s.1,hear listener s.2)) fuel link (bus,s) =
      some (bus,(cells.map Prod.snd).foldl (fun s listener => hear listener s) s) := by
  induction cells generalizing link fuel s with
  | nil =>
    cases hchain
    cases fuel <;> rfl
  | cons c cells ih =>
    obtain ⟨fuel,rfl⟩ := Nat.exists_eq_add_of_lt hfuel
    obtain ⟨hlink,next,hcell,hrest⟩ := hchain
    subst hlink
    rw [triggerLoop?,hcell,Option.bind_some,Option.bind_some,hcell,Option.bind_some]
    exact ih hrest (Nat.le_add_right _ _) _

theorem Holds.trigger (h : bus.Holds lists) {i : ℕ} (hi : i < bus.numEvents) (hear : F → S → S) (s : S) :
    trigger? (fun listener s => some (s.1,hear listener s.2)) i (bus,s) =
      some (bus,((lists i).map Prod.snd).foldl (fun s listener => hear listener s) s) := by
  obtain ⟨head,hhead,hchain⟩ := h.head hi
  rw [trigger?,hhead,Option.bind_some]
  exact triggerLoop_chain hchain (h.lt_fuel i) s

/-- The call of `listener` unregisters it, that of any other leaves the bus alone. -/
def leaving [DecidableEq F] (listener : F) (i : ℕ) (hear : F → S → S) (f : F) (s : EventBus F × S) :
    Option (EventBus F × S) :=
  if f = listener then (s.1.stopListening? i listener).map fun bus => (bus,s.2) else some (s.1,hear f s.2)

/-- Once the walk calls `listener`, it goes on from a node that has been given up. -/
theorem Holds.triggerLoop_leaving [DecidableEq F] (h : bus.Holds lists) {i : ℕ} (hi : i < bus.numEvents) (listener : F)
    (hear : F → S → S) {before cells : List (ℕ × F)} (hlist : lists i = before ++ cells)
    (hbefore : ∀ c ∈ before, c.2 ≠ listener) {link : Option ℕ} (hchain : Chain bus.nodes link cells) {fuel : ℕ}
    (hfuel : cells.length ≤ fuel) (s : S) :
    (∃ t, triggerLoop? (leaving listener i hear) fuel link (bus,s) = some t) ↔ ∀ c ∈ cells, c.2 ≠ listener := by
  induction cells generalizing before link fuel s with
  | nil =>
    cases hchain
    refine iff_of_true ⟨(bus,s),by cases fuel <;> rfl⟩ fun c hc => absurd hc List.not_mem_nil
  | cons c cells ih =>
    obtain ⟨p,v⟩ := c
    obtain ⟨fuel,rfl⟩ := Nat.exists_eq_add_of_lt hfuel
    obtain ⟨hlink,next,hcell,hrest⟩ := hchain
    subst hlink
    by_cases hv : v = listener
    · subst hv
      refine iff_of_false ?_ fun hall => hall (p,v) List.mem_cons_self rfl
      rcases h.stop_cases hi v with ⟨hnone,-⟩ | ⟨bus',pre,q,post,hstop,-,hlist',hpre,hgone,-⟩
      · exact absurd rfl (hnone (p,v) (hlist ▸ List.mem_append_right _ List.mem_cons_self))
      · -- the node that is given up is the one being called
        have hfirst : ∀ l : List (ℕ × F), (∀ c ∈ l, c.2 ≠ v) → ∀ (r : ℕ) (rest : List (ℕ × F)),
            (l ++ (r,v) :: rest).find? (fun c => decide (c.2 = v)) = some (r,v) := by
          intro l hl r rest
          rw [List.find?_append,List.find?_eq_none.mpr fun c hc => by simpa using hl c hc,Option.none_or,List.find?_cons,
            decide_eq_true rfl]
        have hqp : (p,v) = (q,v) := by
          rw [← Option.some_inj,← hfirst before hbefore p cells,← hlist,hlist',hfirst pre hpre]
        obtain rfl : p = q := congrArg Prod.fst hqp
        rintro ⟨t,ht⟩
        rw [triggerLoop?,hcell,Option.bind_some,leaving,if_pos rfl,hstop,Option.map_some,Option.bind_some,hgone] at ht
        cases ht
    · have hlist' : lists i = (before ++ [(p,v)]) ++ cells := by
        rw [hlist,List.append_assoc]
        rfl
      have hbefore' : ∀ c ∈ before ++ [(p,v)], c.2 ≠ listener :=
        List.forall_mem_append.mpr ⟨hbefore,List.forall_mem_singleton.mpr hv⟩
      rw [triggerLoop?,hcell,Option.bind_some,leaving,if_neg hv,Option.bind_some,hcell,Option.bind_some,
        List.forall_mem_cons,and_iff_right hv]
      exact ih hlist' hbefore' hrest (Nat.le_add_right _ _) _

theorem Holds.trigger_leaving [DecidableEq F] (h : bus.Holds lists) {i : ℕ} (hi : i < bus.numEvents) (listener : F)
    (hear : F → S → S) (s : S) :
    (∃ t, trigger? (leaving listener i hear) i (bus,s) = some t) ↔ listener ∉ (lists i).map Prod.snd := by
  obtain ⟨head,hhead,hchain⟩ := h.head hi
  have hloop := h.triggerLoop_leaving hi listener hear (List.nil_append (lists i)).symm (fun c hc => absurd hc List.not_mem_nil) hchain
    (h.lt_fuel i) s
  rw [trigger?,hhead,Option.bind_some]
  refine hloop.trans ⟨fun hall hmem => ?_,fun habsent c hc hvalue => habsent (List.mem_map.mpr ⟨c,hc,hvalue⟩)⟩
  obtain ⟨c,hc,hvalue⟩ := List.mem_map.mp hmem
  exact hall c hc hvalue

/-! ## Giving up the bus -/

/-- After the slots below `k` the nodes of their events are gone, and the others are still there. -/
structure Released (bus : EventBus F) (lists : ℕ → List (ℕ × F)) (k : ℕ) (nodes : Heap (Node F)) : Prop where
  gone : ∀ j < k, ∀ p ∈ (lists j).map Prod.fst, nodes.cell p = none
  kept : ∀ p, (∀ j < k, p ∉ (lists j).map Prod.fst) → nodes.cell p = bus.nodes.cell p

theorem Holds.release (h : bus.Holds lists) {k : ℕ} (hk : k ≤ bus.numEvents) :
    ∃ nodes, (List.range k).foldlM (fun nodes i => (bus.head? i).bind fun head => release? bus.fuel head nodes) bus.nodes =
      some nodes ∧ Released bus lists k nodes := by
  induction k with
  | zero => exact ⟨bus.nodes,rfl,fun _ hj => absurd hj (Nat.not_lt_zero _),fun _ _ => rfl⟩
  | succ k ih =>
    obtain ⟨nodes,hnodes,hreleased⟩ := ih (by omega)
    obtain ⟨head,hhead,hchain⟩ := h.head hk
    have hsame : ∀ p ∈ (lists k).map Prod.fst, nodes.cell p = bus.nodes.cell p := by
      refine fun p hp => hreleased.kept p fun j hj => ?_
      exact h.not_mem (by omega) hp
    obtain ⟨nodes',hrelease,-,hgone,hkept⟩ := (hchain.frame hsame).release? (h.lt_fuel k)
    refine ⟨nodes',?_,?_,?_⟩
    · rw [List.range_succ,List.foldlM_append,hnodes]
      change ((bus.head? k).bind fun head => release? bus.fuel head nodes).bind some = _
      rw [hhead,Option.bind_some,hrelease,Option.bind_some]
    · intro j hj p hp
      by_cases hjk : j = k
      · exact hgone p (hjk ▸ hp)
      · rw [hkept p (h.not_mem hjk hp)]
        exact hreleased.gone j (by omega) p hp
    · intro p hp
      rw [hkept p (hp k (Nat.lt_succ_self k))]
      exact hreleased.kept p fun j hj => hp j (by omega)

theorem Holds.free (h : bus.Holds lists) :
    ∃ bus', bus.free? = some bus' ∧ bus'.slots = none ∧ bus'.numEvents = 0 ∧ ∀ p, bus'.nodes.cell p = none := by
  obtain ⟨nodes,hnodes,hreleased⟩ := h.release (Nat.le_refl _)
  refine ⟨⟨nodes,none,0⟩,by rw [free?,hnodes,Option.map_some],rfl,rfl,fun p => ?_⟩
  by_cases hlisted : ∃ i < bus.numEvents, p ∈ (lists i).map Prod.fst
  · obtain ⟨i,hi,hp⟩ := hlisted
    exact hreleased.gone i hi p hp
  · rw [hreleased.kept p fun j hj hp => hlisted ⟨j,hj,hp⟩]
    cases hcell : bus.nodes.cell p with
    | none => rfl
    | some node =>
      obtain ⟨i,hi⟩ := h.owned p node hcell
      by_cases hlt : i < bus.numEvents
      · exact absurd ⟨i,hlt,hi⟩ hlisted
      · rw [h.outside i (by omega)] at hi
        exact absurd hi List.not_mem_nil

/-! ## Runs -/

inductive Command (F A : Type*)
  | listen (pick eventType : ℕ) (listener : F)
  | stopListening (eventType : ℕ) (listener : F)
  | trigger (eventType : ℕ) (args : A)

namespace Command
variable {A : Type*}

def eventType : Command F A → ℕ
  | .listen _ i _ => i
  | .stopListening i _ => i
  | .trigger i _ => i

/-- `hear` is what the listeners do to the rest of the program. -/
def step? [DecidableEq F] (hear : F → A → S → S) (s : EventBus F × S) : Command F A → Option (EventBus F × S)
  | .listen pick i listener => (s.1.listen? pick i listener).map fun bus => (bus,s.2)
  | .stopListening i listener => (s.1.stopListening? i listener).map fun bus => (bus,s.2)
  | .trigger i args => trigger? (fun listener s => some (s.1,hear listener args s.2)) i s

/-- What the bus is for: every event has its listeners, the newest first. -/
def perform [DecidableEq F] (hear : F → A → S → S) (r : (ℕ → List F) × S) : Command F A → (ℕ → List F) × S
  | .listen _ i listener => (Function.update r.1 i (listener :: r.1 i),r.2)
  | .stopListening i listener => (Function.update r.1 i ((r.1 i).erase listener),r.2)
  | .trigger i args => (r.1,(r.1 i).foldl (fun s listener => hear listener args s) r.2)

end Command

/-- The memory of a bus with `n` events and the registered listeners. -/
def Represents (n : ℕ) (s : EventBus F × S) (r : (ℕ → List F) × S) : Prop :=
  ∃ lists, s.1.Holds lists ∧ s.1.numEvents = n ∧ (∀ i, (lists i).map Prod.snd = r.1 i) ∧ s.2 = r.2

theorem map_update {lists : ℕ → List (ℕ × F)} {listeners : ℕ → List F} (h : ∀ i, (lists i).map Prod.snd = listeners i)
    (i : ℕ) {cells : List (ℕ × F)} {values : List F} (hcells : cells.map Prod.snd = values) (j : ℕ) :
    (Function.update lists i cells j).map Prod.snd = Function.update listeners i values j := by
  by_cases hj : j = i
  · rw [hj,Function.update_self,Function.update_self,hcells]
  · rw [Function.update_of_ne hj,Function.update_of_ne hj,h j]

section Runs
variable [DecidableEq F] {A : Type*} {n : ℕ} {s : EventBus F × S} {r : (ℕ → List F) × S}

theorem Represents.step (h : Represents n s r) (hear : F → A → S → S) {c : Command F A} (hc : c.eventType < n) :
    ∃ t, c.step? hear s = some t ∧ Represents n t (c.perform hear r) := by
  obtain ⟨bus,s⟩ := s
  obtain ⟨lists,hholds,rfl,hlists,rfl⟩ := h
  cases c with
  | listen pick i listener =>
    have hi : i < bus.numEvents := hc
    obtain ⟨bus',p,hlisten,hevents,hholds'⟩ := hholds.listen hi pick listener
    refine ⟨(bus',r.2),by rw [Command.step?,hlisten]; rfl,_,hholds',hevents,map_update hlists i ?_,rfl⟩
    rw [List.map_cons,hlists i]
  | stopListening i listener =>
    have hi : i < bus.numEvents := hc
    obtain ⟨bus',cells,hstop,hevents,hcells,hholds'⟩ := hholds.stop hi listener
    refine ⟨(bus',r.2),by rw [Command.step?,hstop]; rfl,_,hholds',hevents,map_update hlists i ?_,rfl⟩
    rw [hcells,hlists i]
  | trigger i args =>
    have hi : i < bus.numEvents := hc
    refine ⟨_,hholds.trigger hi (fun listener => hear listener args) r.2,lists,hholds,rfl,hlists,?_⟩
    rw [hlists i]
    rfl

theorem Represents.step_outside (h : Represents n s r) (hear : F → A → S → S) {c : Command F A} (hc : n ≤ c.eventType) :
    c.step? hear s = none := by
  obtain ⟨lists,hholds,rfl,-,-⟩ := h
  have hhead := hholds.head_outside hc
  cases c with
  | listen pick i listener =>
    have hnone : s.1.listen? pick i listener = none := by rw [listen?,show s.1.head? i = none from hhead]; rfl
    rw [Command.step?,hnone]
    rfl
  | stopListening i listener =>
    have hnone : s.1.stopListening? i listener = none := by
      rw [stopListening?,unlinkLoop?,load?,show s.1.head? i = none from hhead]
      rfl
    rw [Command.step?,hnone]
    rfl
  | trigger i args =>
    rw [Command.step?,trigger?,show s.1.head? i = none from hhead]
    rfl

theorem Represents.run (h : Represents n s r) (hear : F → A → S → S) {commands : List (Command F A)} {t : EventBus F × S}
    (hrun : Execution.run (Command.step? hear) s commands = some t) :
    (∀ c ∈ commands, c.eventType < n) ∧ Represents n t (commands.foldl (Command.perform hear) r) := by
  induction commands generalizing s r with
  | nil =>
    cases hrun
    exact ⟨fun c hc => absurd hc List.not_mem_nil,h⟩
  | cons c commands ih =>
    obtain ⟨u,hu,hrest⟩ := Execution.run_cons.mp hrun
    have hc : c.eventType < n := by
      by_contra hout
      rw [h.step_outside hear (Nat.le_of_not_lt hout)] at hu
      cases hu
    obtain ⟨u',hu',hnext⟩ := h.step hear hc
    obtain rfl : u = u' := Option.some.inj (hu.symm.trans hu')
    obtain ⟨hall,hrep⟩ := ih hnext hrest
    exact ⟨List.forall_mem_cons.mpr ⟨hc,hall⟩,hrep⟩

theorem Represents.run_total (h : Represents n s r) (hear : F → A → S → S) {commands : List (Command F A)}
    (hall : ∀ c ∈ commands, c.eventType < n) : ∃ t, Execution.run (Command.step? hear) s commands = some t := by
  induction commands generalizing s r with
  | nil => exact ⟨s,rfl⟩
  | cons c commands ih =>
    obtain ⟨hc,hall⟩ := List.forall_mem_cons.mp hall
    obtain ⟨u,hu,hnext⟩ := h.step hear hc
    obtain ⟨t,ht⟩ := ih hnext hall
    exact ⟨t,Execution.run_cons.mpr ⟨u,hu,ht⟩⟩

/-- Calls on a bus go through if and only if their events exist. The listeners are then those
registered and not taken back, every trigger has called each of them once, the newest first,
and one more trigger does so too, unless a listener unregisters itself on being called.
Giving up the bus leaves nothing allocated. -/
theorem bus_keeps_listeners (hear : F → A → S → S) (n : ℕ) (s : S) (commands : List (Command F A)) :
    ((∃ t, Execution.run (Command.step? hear) (start.init n,s) commands = some t) ↔ ∀ c ∈ commands, c.eventType < n) ∧
    ∀ bus t, Execution.run (Command.step? hear) (start.init n,s) commands = some (bus,t) →
      t = (commands.foldl (Command.perform hear) (fun _ => [],s)).2 ∧
      (∀ i < n, (∃ head cells, bus.head? i = some head ∧ Chain bus.nodes head cells ∧
          cells.map Prod.snd = (commands.foldl (Command.perform hear) (fun _ => [],s)).1 i) ∧
        ∀ (listener : F) (hear' : F → S → S), (∃ u, trigger? (leaving listener i hear') i (bus,t) = some u) ↔
          listener ∉ (commands.foldl (Command.perform hear) (fun _ => [],s)).1 i) ∧
      ∃ bus', bus.free? = some bus' ∧ ∀ p, bus'.nodes.cell p = none := by
  have hstart : Represents n ((start.init n : EventBus F),s) (fun _ => [],s) :=
    ⟨fun _ => [],holds_init n,rfl,fun _ => rfl,rfl⟩
  refine ⟨⟨fun ⟨t,ht⟩ => (hstart.run hear ht).1,hstart.run_total hear⟩,fun bus t hrun => ?_⟩
  obtain ⟨-,lists,hholds,hevents,hlists,hstate⟩ := hstart.run hear hrun
  obtain ⟨bus',hfree,-,-,hgone⟩ := hholds.free
  refine ⟨hstate,fun i hi => ⟨?_,fun listener hear' => ?_⟩,bus',hfree,hgone⟩
  · obtain ⟨head,hhead,hchain⟩ := hholds.head (hevents ▸ hi)
    exact ⟨head,lists i,hhead,hchain,hlists i⟩
  · rw [← hlists i]
    exact hholds.trigger_leaving (hevents ▸ hi) listener hear' t

end Runs
end EventBus
end CoreStack.Utils
