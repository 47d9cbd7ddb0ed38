import CoreStack.BattleRoyale.Payload
import CoreStack.Lib.Execution

/-! # Dropped connections (`server_game_state`, `brserver_get_disconnected`)

The poll loop of the listener gives up a connection whose receive fails. A buffer of
ids is there to tell the application, which takes the oldest one out at a time.
-/
namespace CoreStack.BattleRoyale
open Utils Execution

def maxTrackedDisconnects : ℕ := 64

structure Disconnected where
  ids : List ℕ
  count : ℕ
  sized : ids.length = maxTrackedDisconnects
  bounded : count ≤ maxTrackedDisconnects

namespace Disconnected

def init : Disconnected := ⟨List.replicate maxTrackedDisconnects 0,0,List.length_replicate,Nat.zero_le _⟩

/-- The loop that moves cell `i` to cell `i - 1`, for `i` from 1 to `k`. -/
def shift (ids : List ℕ) : ℕ → List ℕ
  | 0 => ids
  | k + 1 =>
    let ids := shift ids k
    ids.set k (ids.getD (k + 1) 0)

theorem length_shift (ids : List ℕ) (k : ℕ) : (shift ids k).length = ids.length := by
  induction k with
  | zero => rfl
  | succ k ih => rw [shift,List.length_set,ih]

def pending (d : Disconnected) : List ℕ := d.ids.take d.count

end Disconnected

/-- The oldest id and the buffer without it; `none` when the call returns 0. -/
def brserverGetDisconnected (d : Disconnected) : Option (ℕ × Disconnected) :=
  if 0 < d.count then
    some (d.ids.getD 0 0,⟨Disconnected.shift d.ids (d.count - 1),d.count - 1,
      by rw [Disconnected.length_shift]; exact d.sized,Nat.le_trans (Nat.sub_le _ _) d.bounded⟩)
  else none

namespace Disconnected

/-- After `k` rounds the first `k` cells hold what stood one place on. -/
theorem getElem?_shift (ids : List ℕ) {k : ℕ} (hk : k < ids.length) (i : ℕ) :
    (shift ids k)[i]? = if i < k then ids[i + 1]? else ids[i]? := by
  induction k generalizing i with
  | zero => rfl
  | succ k ih =>
    have hnext : (shift ids k).getD (k + 1) 0 = ids[k + 1] := by
      have hcell := ih (by omega) (k + 1)
      rw [if_neg (by omega),List.getElem?_eq_getElem hk] at hcell
      rw [List.getD_eq_getElem?_getD,hcell,Option.getD_some]
    rw [shift,hnext,List.getElem?_set,length_shift]
    by_cases hik : k = i
    · subst hik
      rw [if_pos rfl,if_pos (by omega),if_pos (by omega),List.getElem?_eq_getElem hk]
    · rw [if_neg hik,ih (by omega)]
      split
      · rw [if_pos (by omega)]
      · rw [if_neg (by omega)]

theorem get_pending (d : Disconnected) :
    (brserverGetDisconnected d).map (fun r => (r.1,r.2.pending)) = d.pending.head?.map fun id => (id,d.pending.tail) := by
  have hsized := d.sized
  have hbounded := d.bounded
  unfold brserverGetDisconnected pending
  split
  · next hpos =>
    have hlen : 0 < d.ids.length := by
      unfold maxTrackedDisconnects at hsized
      omega
    have hhead : (d.ids.take d.count).head? = some (d.ids.getD 0 0) := by
      rw [List.head?_take,if_neg (by omega),List.head?_eq_getElem?,List.getD_eq_getElem?_getD,
        List.getElem?_eq_getElem hlen,Option.getD_some]
    have htail : (shift d.ids (d.count - 1)).take (d.count - 1) = (d.ids.take d.count).tail := by
      apply List.ext_getElem?
      intro i
      rw [List.getElem?_tail,List.getElem?_take,List.getElem?_take]
      split
      · next hi => rw [getElem?_shift d.ids (by omega),if_pos hi,if_pos (by omega)]
      · rw [if_neg (by omega)]
    rw [hhead]
    dsimp only [Option.map_some]
    rw [htail]
  · next hzero =>
    have hnone : d.count = 0 := by omega
    simp [hnone]

end Disconnected

/-! ## The poll loop -/

inductive Revents
  | none
  | pollin
  | other
  deriving DecidableEq, Repr

/-- `scan` stands in the `for` loop with the results of `poll`, the index and the activity
left to find. -/
inductive WatchPc
  | entry
  | head
  | poll
  | scan (revents : List Revents) (i activity : ℕ)
  | udp
  deriving DecidableEq, Repr

/-- `listenFdTcp` holds the number of a connection or nothing, for a descriptor of -1.
Histories: `failed` lists the connections whose receive has failed with the id of their
client, in the order of the first failures, `returned` what the application was given. -/
structure Watch where
  clients : List Endpoint
  playing : Bool
  pc : WatchPc
  listenFdTcp : List (Option ℕ)
  clientIdsByPfd : List ℕ
  inbox : Inbox
  disconnected : Disconnected
  failed : List (ℕ × ℕ)
  returned : List ℕ

def Watch.init (clients : List Endpoint) : Watch where
  clients := clients
  playing := true
  pc := .entry
  listenFdTcp := []
  clientIdsByPfd := []
  inbox := .init
  disconnected := .init
  failed := []
  returned := []

/-- The first five are steps of the listener, the others calls of the main thread. `receive`
and `udp` come with the message or, where the call fails, with none. -/
inductive WatchAct
  | look
  | poll (revents : List Revents)
  | receive (frame : Option Frame)
  | udp (frame : Option Frame)
  | quiet
  | getDisconnected
  | getAppMsg
  | «end»

namespace Watch

/-- `poll` reports nothing for a descriptor of -1. -/
def polled (s : Watch) (revents : List Revents) : Bool :=
  revents.length == s.listenFdTcp.length && (revents.zip s.listenFdTcp).all fun q => q.2.isSome || q.1 == .none

def fail (s : Watch) (i : ℕ) : Watch :=
  let failed := match s.listenFdTcp.getD i none with
    | some connection =>
      if s.failed.any (·.1 == connection) then s.failed else s.failed ++ [(connection,s.clientIdsByPfd.getD i 0)]
    | none => s.failed
  { s with listenFdTcp := s.listenFdTcp.set i none, failed := failed }

def recv (ssl : OpenSSL) (s : Watch) (frame : Frame) : Watch :=
  { s with inbox := s.inbox.recv (acceptMessage ssl s.clients) frame }

def getDisconnected (s : Watch) : Watch :=
  match brserverGetDisconnected s.disconnected with
  | none => s
  | some (id,d) => { s with disconnected := d, returned := s.returned ++ [id] }

def step (ssl : OpenSSL) (s : Watch) (a : WatchAct) : Option Watch :=
  match a, s.pc with
  | .look, .entry =>
    -- the arrays are built anew on every entry, failed connections included
    if s.playing && !s.clients.isEmpty then
      some { s with
        pc := .head
        listenFdTcp := (List.range s.clients.length).map some
        clientIdsByPfd := s.clients.map (·.id) }
    else none
  | .look, .head => some { s with pc := if s.playing then .poll else .entry }
  | .poll revents, .poll =>
    if s.polled revents then some { s with pc := .scan revents 0 (revents.countP (· != .none)) } else none
  | .look, .scan revents i activity =>
    if i < s.clients.length ∧ 0 < activity then
      if revents[i]? = some .pollin then none else some { s with pc := .scan revents (i + 1) activity }
    else some { s with pc := .udp }
  | .receive frame, .scan revents i activity =>
    if i < s.clients.length ∧ 0 < activity ∧ revents[i]? = some .pollin then
      let s := { s with pc := .scan revents (i + 1) (activity - 1) }
      match frame with
      | none => some (s.fail i)
      | some frame => some (s.recv ssl frame)
    else none
  | .udp none, .udp => some { s with pc := .entry }
  | .udp (some frame), .udp => some { s.recv ssl frame with pc := .head }
  | .quiet, .udp => some { s with pc := .head }
  | .getDisconnected, _ => some s.getDisconnected
  | .getAppMsg, _ => some { s with inbox := s.inbox.get }
  | .end, _ => some { s with playing := false }
  | _, _ => none

/-- What the application has been given and what it would be given now are the ids of the
clients whose receive has failed, once each and in the order of the failures. -/
def Reported (s : Watch) : Prop :=
  s.failed.length ≤ s.returned.length + maxTrackedDisconnects →
    s.returned ++ s.disconnected.pending = s.failed.map (·.2)

/-! ## What a step can do -/

inductive Move (s : Watch) : WatchAct → Watch → Prop
  | outside {a : WatchAct} (pc : WatchPc) (fds : List (Option ℕ)) (ids : List ℕ) (inbox : Inbox)
    (hpc : ∀ revents i n, pc ≠ .scan revents i n) (ha : a ≠ .receive none) :
    Move s a { s with pc := pc, listenFdTcp := fds, clientIdsByPfd := ids, inbox := inbox }
  | poll (revents : List Revents) (n : ℕ) (h : s.polled revents = true) :
    Move s (.poll revents) { s with pc := .scan revents 0 n }
  | next {a : WatchAct} {revents : List Revents} {i n : ℕ} (n' : ℕ) (inbox : Inbox) (h : s.pc = .scan revents i n)
    (ha : a ≠ .receive none) : Move s a { s with pc := .scan revents (i + 1) n', inbox := inbox }
  | fail {revents : List Revents} {i n : ℕ} (n' : ℕ) (h : s.pc = .scan revents i n) (hin : revents[i]? = some .pollin) :
    Move s (.receive none) ({ s with pc := .scan revents (i + 1) n' }.fail i)
  | drain : Move s .getDisconnected s.getDisconnected
  | call {a : WatchAct} (inbox : Inbox) (playing : Bool) (ha : a ≠ .receive none) :
    Move s a { s with inbox := inbox, playing := playing }

theorem step_move {ssl : OpenSSL} {s t : Watch} {a : WatchAct} (h : s.step ssl a = some t) : s.Move a t := by
  unfold step at h
  split at h
  · split at h
    · cases h
      exact .outside .head _ _ s.inbox nofun nofun
    · cases h
  · cases h
    refine .outside _ s.listenFdTcp s.clientIdsByPfd s.inbox ?_ nofun
    intro revents i n
    split <;> exact WatchPc.noConfusion
  · split at h
    · next hpolled =>
      cases h
      exact .poll _ _ hpolled
    · cases h
  · next revents i n hpc =>
    split at h
    · split at h
      · cases h
      · cases h
        exact .next n s.inbox hpc nofun
    · cases h
      exact .outside .udp s.listenFdTcp s.clientIdsByPfd s.inbox nofun nofun
  · next frame revents i n hpc =>
    split at h
    · next hin =>
      split at h
      · cases h
        exact .fail (n - 1) hpc hin.2.2
      · cases h
        exact .next (n - 1) _ hpc nofun
    · cases h
  · cases h
    exact .outside .entry s.listenFdTcp s.clientIdsByPfd s.inbox nofun nofun
  · cases h
    exact .outside .head s.listenFdTcp s.clientIdsByPfd _ nofun nofun
  · cases h
    exact .outside .head s.listenFdTcp s.clientIdsByPfd s.inbox nofun nofun
  · cases h
    exact .drain
  · cases h
    exact .call _ s.playing nofun
  · cases h
    exact .call s.inbox false nofun
  · cases h

/-- Nothing ever enters the buffer: its writing half is missing. -/
structure Silent (s : Watch) : Prop where
  pending : s.disconnected.pending = []
  returned : s.returned = []

theorem getDisconnected_silent {s : Watch} (hs : s.Silent) : s.getDisconnected = s := by
  have hnone : brserverGetDisconnected s.disconnected = none := by
    have hget := s.disconnected.get_pending
    rw [hs.pending] at hget
    exact Option.map_eq_none_iff.mp hget
  unfold getDisconnected
  rw [hnone]

theorem step_silent {ssl : OpenSSL} {s t : Watch} {a : WatchAct} (hs : s.Silent) (h : s.step ssl a = some t) : t.Silent := by
  cases step_move h with
  | outside pc fds ids inbox hpc ha => exact ⟨hs.pending,hs.returned⟩
  | poll revents n hpolled => exact ⟨hs.pending,hs.returned⟩
  | next n' inbox hpc ha => exact ⟨hs.pending,hs.returned⟩
  | fail n' hpc hin => exact ⟨hs.pending,hs.returned⟩
  | drain =>
    rw [getDisconnected_silent hs]
    exact hs
  | call inbox playing ha => exact ⟨hs.pending,hs.returned⟩

/-- A descriptor that `poll` reports is that of a connection. -/
def Armed (s : Watch) : Prop :=
  ∀ revents i n, s.pc = .scan revents i n → ∀ j, i ≤ j → revents[j]? = some .pollin →
    ∃ connection, s.listenFdTcp[j]? = some (some connection)

theorem polled_armed {s : Watch} {revents : List Revents} (h : s.polled revents = true) {j : ℕ}
    (hj : revents[j]? = some .pollin) : ∃ connection, s.listenFdTcp[j]? = some (some connection) := by
  obtain ⟨hlen,hall⟩ := Bool.and_eq_true_iff.mp h
  have hlt : j < s.listenFdTcp.length := by
    rw [← beq_iff_eq.mp hlen]
    exact (List.getElem?_eq_some_iff.mp hj).1
  have hmem : (Revents.pollin,s.listenFdTcp[j]) ∈ revents.zip s.listenFdTcp := by
    apply List.mem_of_getElem? (i := j)
    rw [List.getElem?_zip_eq_some]
    exact ⟨hj,List.getElem?_eq_getElem hlt⟩
  have hsome := List.all_eq_true.mp hall _ hmem
  cases hfd : s.listenFdTcp[j] with
  | none =>
    rw [hfd] at hsome
    cases hsome
  | some connection => exact ⟨connection,by rw [List.getElem?_eq_getElem hlt,hfd]⟩

theorem step_armed {ssl : OpenSSL} {s t : Watch} {a : WatchAct} (hs : s.Silent ∧ s.Armed) (h : s.step ssl a = some t) :
    t.Silent ∧ t.Armed := by
  refine ⟨step_silent hs.1 h,?_⟩
  cases step_move h with
  | outside pc fds ids inbox hpc ha => exact fun revents i n hscan => absurd hscan (hpc revents i n)
  | poll revents n hpolled =>
    intro revents' i n' hscan j _ hj
    cases hscan
    exact polled_armed hpolled hj
  | next n' inbox hpc ha =>
    intro revents' i' n'' hscan j hle hj
    cases hscan
    exact hs.2 _ _ _ hpc j (by omega) hj
  | fail n' hpc hin =>
    intro revents' i' n'' hscan j hle hj
    cases hscan
    obtain ⟨connection,hfd⟩ := hs.2 _ _ _ hpc j (by omega) hj
    refine ⟨connection,?_⟩
    show (s.listenFdTcp.set _ none)[j]? = some (some connection)
    rw [List.getElem?_set_ne (by omega)]
    exact hfd
  | drain =>
    rw [getDisconnected_silent hs.1]
    exact hs.2
  | call inbox playing ha => exact hs.2

/-- A failed receive leaves its mark, and nothing else does. -/
theorem step_failed {ssl : OpenSSL} {s t : Watch} {a : WatchAct} (hs : s.Silent ∧ s.Armed) (h : s.step ssl a = some t) :
    a = .receive none ∧ t.failed ≠ [] ∧ t.failed.length ≤ s.failed.length + 1 ∨ a ≠ .receive none ∧ t.failed = s.failed := by
  cases step_move h with
  | outside pc fds ids inbox hpc ha => exact Or.inr ⟨ha,rfl⟩
  | poll revents n hpolled => exact Or.inr ⟨WatchAct.noConfusion,rfl⟩
  | next n' inbox hpc ha => exact Or.inr ⟨ha,rfl⟩
  | @fail revents i n n' hpc hin =>
    left
    obtain ⟨connection,hfd⟩ := hs.2 _ _ _ hpc i (Nat.le_refl i) hin
    have hcell : s.listenFdTcp.getD i none = some connection := by
      rw [List.getD_eq_getElem?_getD,hfd,Option.getD_some]
    have hfailed : ({ s with pc := .scan revents (i + 1) n' }.fail i).failed =
        if s.failed.any (·.1 == connection) then s.failed else s.failed ++ [(connection,s.clientIdsByPfd.getD i 0)] := by
      simp only [Watch.fail,hcell]
    rw [hfailed]
    split
    · next hany =>
      obtain ⟨q,hq,-⟩ := List.any_eq_true.mp hany
      exact ⟨rfl,List.ne_nil_of_mem hq,Nat.le_succ _⟩
    · exact ⟨rfl,by simp,by simp⟩
  | drain =>
    rw [getDisconnected_silent hs.1]
    exact Or.inr ⟨WatchAct.noConfusion,rfl⟩
  | call inbox playing ha => exact Or.inr ⟨ha,rfl⟩

theorem init_silent (clients : List Endpoint) : (init clients).Silent ∧ (init clients).Armed :=
  ⟨⟨rfl,rfl⟩,fun _ _ _ hscan => nomatch hscan⟩

theorem reported_iff_none_failed {s : Watch} (hs : s.Silent) (hfew : s.failed.length ≤ maxTrackedDisconnects) :
    s.Reported ↔ s.failed = [] := by
  unfold Reported
  rw [hs.pending,hs.returned,List.nil_append]
  constructor
  · intro h
    have hnil := h (Nat.le_trans hfew (Nat.le_add_left _ _))
    exact List.map_eq_nil_iff.mp hnil.symm
  · intro h _
    rw [h]
    rfl

/-- A step that is no failed receive. -/
def holds (_ : Watch) : WatchAct → Bool
  | .receive none => false
  | _ => true

theorem holds_iff {s : Watch} {a : WatchAct} : s.holds a = true ↔ a ≠ .receive none := by
  unfold holds
  split
  · simp
  · next hno => exact ⟨fun _ heq => hno heq,fun _ => rfl⟩

/-- The first failure of a run is not reported. -/
theorem reported_iff_never_failed (ssl : OpenSSL) (clients : List Endpoint) (ls : List WatchAct) :
    (∀ n s, run (step ssl) (init clients) (ls.take n) = some s → s.Reported) ↔
    ∀ n s, run (step ssl) (init clients) (ls.take n) = some s → s.failed = [] := by
  have hbase : ∀ s l t, Silent s ∧ Armed s → step ssl s l = some t → Silent t ∧ Armed t := fun _ _ _ => step_armed
  constructor
  · intro h n
    induction n with
    | zero =>
      intro s hs
      cases hs
      rfl
    | succ n ih =>
      intro u hu
      cases hl : ls[n]? with
      | none =>
        rw [List.take_add_one,hl] at hu
        exact ih u (by simpa using hu)
      | some l =>
        obtain ⟨t,ht,hstep⟩ := (run_take_succ hl).mp hu
        have hinv := run_invariant hbase ht (init_silent clients)
        have hnone := ih t ht
        have hfew : u.failed.length ≤ maxTrackedDisconnects := by
          unfold maxTrackedDisconnects
          rcases step_failed hinv hstep with ⟨-,-,hle⟩ | ⟨-,heq⟩
          · rw [hnone,List.length_nil] at hle
            omega
          · rw [heq,hnone]
            exact Nat.zero_le _
        exact (reported_iff_none_failed (step_armed hinv hstep).1 hfew).mp (h (n + 1) u hu)
  · intro h n s hs
    have hnone := h n s hs
    refine (reported_iff_none_failed (run_invariant hbase hs (init_silent clients)).1 ?_).mpr hnone
    rw [hnone]
    exact Nat.zero_le _

/-- The dropped connections are reported in exactly those runs in which none is dropped. -/
theorem drops_reported_iff (ssl : OpenSSL) (clients : List Endpoint) (ls : List WatchAct) :
    (∀ n s, run (step ssl) (init clients) (ls.take n) = some s → s.Reported) ↔
    ∀ n s, run (step ssl) (init clients) (ls.take (n + 1)) = some s → ls[n]? ≠ some (.receive none) := by
  have hbase : ∀ s l t, Silent s ∧ Armed s → step ssl s l = some t → Silent t ∧ Armed t := fun _ _ _ => step_armed
  have hkeep : ∀ s l t, Silent s ∧ Armed s → s.failed = [] → holds s l = true → step ssl s l = some t → t.failed = [] := by
    intro s l t hs hnone hl ht
    rcases step_failed hs ht with ⟨heq,-⟩ | ⟨-,heq⟩
    · exact absurd heq (holds_iff.mp hl)
    · rw [heq]
      exact hnone
  have hbreak : ∀ s l t, Silent s ∧ Armed s → s.failed = [] → holds s l = false → step ssl s l = some t →
      ¬t.failed = [] := by
    intro s l t hs _ hl ht
    rcases step_failed hs ht with ⟨-,hne,-⟩ | ⟨hne,-⟩
    · exact hne
    · rw [holds_iff.mpr hne] at hl
      cases hl
  rw [reported_iff_never_failed,safe_iff_guard hbase hkeep hbreak (init_silent clients) rfl ls]
  constructor
  · intro h n u hu hl
    obtain ⟨t,ht,hstep⟩ := (run_take_succ hl).mp hu
    exact holds_iff.mp (h n t _ u ht hl hstep) rfl
  · intro h n t l u ht hl hstep
    refine holds_iff.mpr ?_
    rintro rfl
    exact h n u ((run_take_succ hl).mpr ⟨t,ht,hstep⟩) hl

/-- The only client of a match closes its connection. -/
def hangsUp : List WatchAct := [.look,.look,.poll [.pollin],.receive none,.getDisconnected]

/-- The application asks and hears nothing. -/
theorem hang_up_unreported :
    ∃ s, run (step lettersVector.cipher.toOpenSSL) (init [lettersVector.client]) hangsUp = some s ∧
      s.failed.map (·.2) = [1] ∧ ¬s.Reported := by
  obtain ⟨s,hs,htest⟩ := exists_of_run_any (step lettersVector.cipher.toOpenSSL) (init [lettersVector.client]) hangsUp
    (fun s => s.failed.map (·.2) == [1] && s.returned.isEmpty && s.disconnected.pending.isEmpty) (by decide +kernel)
  simp only [Bool.and_eq_true,beq_iff_eq,List.isEmpty_iff] at htest
  obtain ⟨⟨hfailed,hreturned⟩,hpending⟩ := htest
  refine ⟨s,hs,hfailed,?_⟩
  intro h
  have hlen : s.failed.length ≤ s.returned.length + maxTrackedDisconnects := by
    rw [← List.length_map (·.2),hfailed]
    exact Nat.succ_le_succ (Nat.zero_le _)
  have heq := h hlen
  rw [hreturned,hpending,hfailed] at heq
  cases heq

end Watch
end CoreStack.BattleRoyale
