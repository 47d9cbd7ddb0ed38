import CoreStack.Lib.Checked
import CoreStack.Lib.Latest
import CoreStack.Utils.Format

/-! # The kill feed (`killfeed.c`)

A ring of four attacks. The indices are `int`s, `%` rounds towards zero as in C, and an
access outside `feed` yields `none`.
-/
namespace CoreStack.Tetris
open Checked Rings Utils

def killFeedMax : ℕ := 4

instance : NeZero killFeedMax := ⟨by decide⟩

structure KillFeedEntry where
  sourcePlayer : Word
  targetPlayer : Word
  lines : Word
  deriving DecidableEq, Repr

structure KillFeed where
  feed : Fin killFeedMax → KillFeedEntry
  feedHead : ℤ
  feedCount : ℤ

namespace KillFeed

/-- Static storage starts as zeros. -/
def start : KillFeed := ⟨fun _ => ⟨0,0,0⟩,0,0⟩

def addKillFeed? (k : KillFeed) (source target lines : Word) : Option KillFeed :=
  (cell? killFeedMax k.feedHead).map fun slot =>
    { feed := Function.update k.feed slot ⟨source,target,lines⟩
      feedHead := (k.feedHead + 1).tmod killFeedMax
      feedCount := if k.feedCount < killFeedMax then k.feedCount + 1 else k.feedCount }

def lineIndex (k : KillFeed) (i : ℕ) : ℤ := (k.feedHead - k.feedCount + i + killFeedMax).tmod killFeedMax

/-- The entries the loop of `draw_kill_feed` reads. -/
def readEntries? (k : KillFeed) : Option (List KillFeedEntry) :=
  (List.range k.feedCount.toNat).mapM fun i => (cell? killFeedMax (k.lineIndex i)).map k.feed

def entryLine (entry : KillFeedEntry) : List Char :=
  print (format "  \x1b[36mPlayer %u\x1b[0m sent \x1b[31m%u lines\x1b[0m to \x1b[33mPlayer %u\x1b[0m!\n".toList)
    [entry.sourcePlayer,entry.lines,entry.targetPlayer]

def blankLine : List Char := "                                           \n".toList

def ruleLine : List Char := "  =========================================\n".toList

def battleLog (entries : List KillFeedEntry) (feedCount : ℤ) : List Char :=
  blankLine ++ "\n  <!> BATTLE LOG <!>\n".toList ++ ruleLine ++ entries.flatMap entryLine ++
    (List.replicate (killFeedMax - feedCount).toNat blankLine).flatten ++ ruleLine

/-- The entries that are read and the text that is printed. -/
def drawKillFeed? (k : KillFeed) : Option (List KillFeedEntry × List Char) :=
  k.readEntries?.map fun entries => (entries,battleLog entries k.feedCount)

/-- The ring after the given attacks. -/
structure Records (k : KillFeed) (attacks : List KillFeedEntry) : Prop where
  keeps : Keeps k.feed attacks
  head : k.feedHead = (attacks.length % killFeedMax : ℕ)
  count : k.feedCount = (min attacks.length killFeedMax : ℕ)

theorem records_start : start.Records [] where
  keeps := keeps_nil _
  head := rfl
  count := rfl

theorem Records.add {k : KillFeed} {attacks : List KillFeedEntry} (h : k.Records attacks) (a : KillFeedEntry) :
    ∃ k', k.addKillFeed? a.sourcePlayer a.targetPlayer a.lines = some k' ∧ k'.Records (attacks ++ [a]) := by
  have hslot : cell? killFeedMax k.feedHead = some (Fin.ofNat killFeedMax attacks.length) := by
    rw [h.head,cell?_natCast (Nat.mod_lt _ (by decide))]
    rfl
  refine ⟨_,by rw [addKillFeed?,hslot]; rfl,h.keeps.push a,?_,?_⟩
  · show (k.feedHead + 1).tmod killFeedMax = _
    rw [h.head,Int.tmod_eq_emod_of_nonneg (by omega),List.length_append,List.length_singleton]
    simp only [killFeedMax]
    omega
  · show (if k.feedCount < killFeedMax then k.feedCount + 1 else k.feedCount) = _
    rw [h.count,List.length_append,List.length_singleton]
    rcases Nat.lt_or_ge attacks.length killFeedMax with hlt | hge
    · rw [if_pos (by omega)]
      omega
    · rw [if_neg (by omega)]
      omega

/-- Line `i` shows one of the last four attacks, counted from the oldest. -/
theorem Records.lineIndex {k : KillFeed} {attacks : List KillFeedEntry} (h : k.Records attacks) (i : ℕ) :
    k.lineIndex i = ((attacks.length - min attacks.length killFeedMax + i) % killFeedMax : ℕ) := by
  unfold KillFeed.lineIndex
  rw [h.head,h.count,Int.tmod_eq_emod_of_nonneg (by simp only [killFeedMax]; omega)]
  simp only [killFeedMax]
  omega

theorem Records.readEntries? {k : KillFeed} {attacks : List KillFeedEntry} (h : k.Records attacks) :
    k.readEntries? = some (attacks.drop (attacks.length - killFeedMax)) := by
  have hcell : ∀ i ∈ List.range k.feedCount.toNat, (cell? killFeedMax (k.lineIndex i)).map k.feed =
      some (k.feed (Fin.ofNat killFeedMax (attacks.length - min attacks.length killFeedMax + i))) := by
    intro i _
    rw [h.lineIndex,cell?_natCast (Nat.mod_lt _ (by decide)),Option.map_some]
    rfl
  have hstart : attacks.length - min attacks.length killFeedMax = attacks.length - killFeedMax := by omega
  rw [KillFeed.readEntries?,mapM_of_some _ hcell,h.count,Int.toNat_natCast,
    h.keeps.latest (Nat.min_le_right _ _) (Nat.min_le_left _ _),hstart]

theorem records_run (attacks : List KillFeedEntry) :
    ∃ k, attacks.foldlM (fun k a => k.addKillFeed? a.sourcePlayer a.targetPlayer a.lines) start = some k ∧
      k.Records attacks := by
  induction attacks using List.reverseRecOn with
  | nil => exact ⟨start,rfl,records_start⟩
  | append_singleton attacks a ih =>
    obtain ⟨k,hk,h⟩ := ih
    obtain ⟨k',hk',h'⟩ := h.add a
    refine ⟨k',?_,h'⟩
    rw [List.foldlM_append,hk]
    simp [hk']

/-- After any attacks the feed shows the last four, oldest first. -/
theorem drawKillFeed_shows_latest (attacks : List KillFeedEntry) :
    ∃ k, attacks.foldlM (fun k a => k.addKillFeed? a.sourcePlayer a.targetPlayer a.lines) start = some k ∧
      k.drawKillFeed? = some (attacks.drop (attacks.length - killFeedMax),
        battleLog (attacks.drop (attacks.length - killFeedMax)) (min attacks.length killFeedMax : ℕ)) ∧
      (attacks.drop (attacks.length - killFeedMax)).length = min attacks.length killFeedMax ∧
      ∀ i < min attacks.length killFeedMax, 0 ≤ k.lineIndex i ∧ k.lineIndex i < killFeedMax := by
  obtain ⟨k,hk,h⟩ := records_run attacks
  refine ⟨k,hk,?_,?_,?_⟩
  · rw [drawKillFeed?,h.readEntries?,Option.map_some,h.count]
  · rw [List.length_drop]
    omega
  · intro i _
    rw [h.lineIndex]
    exact ⟨Int.natCast_nonneg _,Int.ofNat_lt.mpr (Nat.mod_lt _ (by decide))⟩

end KillFeed
end CoreStack.Tetris
