import CoreStack.Tetrisd.Tokens
import CoreStack.Tetrisd.Ledger

/-! # Whom an attack hits

Each read of a meter leads to at most one `queue_garbage` call in the whole
daemon, on a living slot of the chosen victim.
-/
namespace CoreStack.Tetrisd
open Star Tetris

def Cargo.isCall : Cargo → Bool
  | .call _ => true
  | _ => false

theorem countAll_split {p q r : RoomObs → Bool} (h : ∀ o, (p o).toNat = (q o).toNat + (r o).toNat)
    (log : List Obs) : countAll p log = countAll q log + countAll r log := by
  unfold countAll
  induction log with
  | nil => rfl
  | cons o log ih =>
    simp only [List.countP_cons,ih]
    cases o with
    | master o => simp
    | room w o =>
      have ho := h o
      cases hp : p o <;> cases hq : q o <;> cases hr : r o <;> simp [hp,hq,hr] at ho ⊢ <;> omega

theorem countAll_isCall (k : ℕ) (log : List Obs) : countAll (·.bears k Cargo.isCall) log =
    countAll (·.bears k (· == .call true)) log + countAll (·.bears k (· == .call false)) log := by
  refine countAll_split (fun o => ?_) log
  unfold RoomObs.bears
  cases hc : o.cargo with
  | none => rfl
  | some q =>
    obtain ⟨k',c⟩ := q
    cases c with
    | call remote => cases remote <;> cases hk : (k' == k) <;> simp [Cargo.isCall,hk]
    | _ => cases hk : (k' == k) <;> simp only [Option.any_some,hk] <;> rfl

theorem countAll_mono {p q : RoomObs → Bool} (h : ∀ o, p o = true → q o = true) (log : List Obs) :
    countAll p log ≤ countAll q log := by
  refine List.countP_mono_left fun o _ ho => ?_
  cases o with
  | master o => cases ho
  | room w o => exact h o ho

theorem bears_mono {p q : Cargo → Bool} (h : ∀ c, p c = true → q c = true) (k : ℕ) (o : RoomObs)
    (ho : o.bears k p = true) : o.bears k q = true := by
  unfold RoomObs.bears at *
  cases hc : o.cargo with
  | none => simp [hc] at ho
  | some c =>
    simp only [hc,Option.any_some,Bool.and_eq_true] at ho ⊢
    exact ⟨ho.1,h _ ho.2⟩

/-- Calls and arrivals that came to nothing share the one token. -/
theorem System.Tokens.calls_le {s : System} (h : s.Tokens) (k : ℕ) :
    countAll (·.bears k Cargo.isCall) s.log ≤ countAll (·.bears k Cargo.isSent) s.log := by
  have htok := h.token k
  have hrem := h.remote k
  have harr : countAll (·.bears k (· == .arrival true true)) s.log ≤ countAll (·.bears k Cargo.isArrival) s.log := by
    refine countAll_mono (fun o => bears_mono (fun c hc => ?_) k o) s.log
    rw [beq_iff_eq.mp hc]
    rfl
  unfold System.tokens at htok
  have hsplit := countAll_isCall k s.log
  omega

/-- Every call goes back to one read, of the same amount and for the same victim. -/
theorem System.Traced.cause {s : System} (h : s.Traced) {w : ℕ} {c : QueueCall}
    (hc : Obs.room w (.queued c) ∈ s.log) :
    ∃ a : HubAttack, c.Fits a ∧ ∃ (v i : ℕ) (fate : Fate),
      Obs.room v (.consumed c.serial i a.attackerId a.victimId a.lines fate) ∈ s.log ∧
      ((fate = .here ∧ w = v ∧ c.slot ≠ i) ∨
        fate = .away ∧ a.victimId ≠ a.attackerId ∧ Obs.room w (.gotGarbage a true true) ∈ s.log) := by
  have hrec := h.recorded w (h.sound.born hc)
  rcases hrec.landed c (mem_roomLog.mpr hc) with ⟨-,a,i,hf,hne,hm⟩ | ⟨-,a,hk,hf,hm⟩
  · refine ⟨a,hf,w,i,.here,?_,.inl ⟨rfl,rfl,hne⟩⟩
    rw [hf.serial]
    exact mem_roomLog.mp hm
  · have hm := mem_roomLog.mp hm
    obtain ⟨hz,hne,v,i,hl⟩ := h.tokens.origin a (.inr (.inr ⟨w,true,true,hm⟩))
    refine ⟨a,hf hz,v,i,.away,?_,.inr ⟨rfl,hne,hm⟩⟩
    rw [hk]
    exact hl

theorem System.Traced.read_unique {s : System} (h : s.Traced) {k w w' i i' att att' vic vic' lines lines' : ℕ}
    {fate fate' : Fate} (hc : Obs.room w (.consumed k i att vic lines fate) ∈ s.log)
    (hc' : Obs.room w' (.consumed k i' att' vic' lines' fate') ∈ s.log) :
    w = w' ∧ i = i' ∧ att = att' ∧ vic = vic' ∧ lines = lines' ∧ fate = fate' := by
  have he := eq_of_countAll_le_one (h.tokens.read k) hc hc' (by simp [Cargo.isRead]) (by simp [Cargo.isRead])
  simpa using he

/-- The second room gives up on its straggler and starts with one player. -/
def secondStarts : List Label := hears 1 3 ++ [.worker 1 false (.check true noRand)]

/-- The first player clears two lines with the sixth piece; the master takes `n` messages about it. -/
def salvo (aim : List Label) (n : ℕ) : List Label :=
  hears 0 4 ++ [.worker 0 false (.check false burstRand)] ++ aim ++
  (burst.take 24).map (fun q => .worker 0 false q.2) ++ ticks 0 0 ++
  List.replicate 3 (.worker 0 false .report) ++ [.worker 0 false (.route 1)] ++ reads firstSlot n

/-- Aimed at random, the attack draws the third player. -/
def volley : List Label := salvo [plays 0 1 .cycleTargetMode] 2

end CoreStack.Tetrisd
