import CoreStack.Hypertext.Payloads

/-! # Decoding a body from the network

`payload_decode_roster` and `payload_decode_state` on any text. The decoders of
`Payloads` mark a step that leaves the text or the array, or that follows a search
without result; here is when they take none.
-/
namespace CoreStack.Hypertext
open Utils

/-! ## Rosters -/

/-- The count that rules the loop: the one in the text, or else the one from before. -/
def rosterCount (buffer : List Char) (count : Word) : Word := (scan rosterFormat buffer).getD 0 count

def afterMarker (buffer : List Char) : Option (List Char) :=
  (strstr buffer idsMarker).map fun i => buffer.drop (i + idsMarker.length)

def afterSpaces : ℕ → List Char → Option (List Char)
  | 0, s => some s
  | k + 1, s => ((strstr s " ".toList).map fun j => s.drop (j + 1)).bind (afterSpaces k)

/-- `payload_decode_roster` into an array of any size behind any count. -/
def decodeRosterInto (buffer : List Char) (count : Word) (ids : List Word) : Except DecodeError (Word × List Word) :=
  (decodeIds (rosterCount buffer count).toNat 0 (afterMarker buffer) ids).map fun read => (rosterCount buffer count,read)

/-- A payload that fits its count afterwards was read by the same steps. -/
theorem payloadDecodeRoster_eq_ok_iff {buffer : List Char} {payload read : RosterPayload} :
    payloadDecodeRoster buffer payload = .ok read ↔
      decodeRosterInto buffer payload.count payload.ids = .ok (read.count,read.ids) := by
  unfold payloadDecodeRoster decodeRosterInto rosterCount afterMarker
  dsimp only
  generalize (scan rosterFormat buffer).getD 0 payload.count = count
  cases decodeIds count.toNat 0 ((strstr buffer idsMarker).map fun i => buffer.drop (i + idsMarker.length)) payload.ids with
  | error e => simp [Except.map]
  | ok ids =>
    simp only [Except.map,Except.ok.injEq,Prod.mk.injEq]
    constructor
    · intro h
      split at h
      · cases h
        exact ⟨rfl,rfl⟩
      · cases h
    · rintro ⟨hcount,hids⟩
      have hroom := read.room
      rw [← hcount,← hids] at hroom
      rw [dif_pos hroom]
      cases read
      simp only at hcount hids
      subst hcount hids
      rfl

/-- The loop stays inside when each of its texts is there, and those past the end of the
array hold no number. -/
theorem decodeIds_ok_iff (n i : ℕ) (ptr : Option (List Char)) (ids : List Word) :
    (∃ read, decodeIds n i ptr ids = .ok read) ↔
      ∀ j < n, ∃ text, ptr.bind (afterSpaces j) = some text ∧ (i + j < ids.length ∨ scan idFormat text = []) := by
  induction n generalizing i ptr ids with
  | zero => simp [decodeIds]
  | succ n ih =>
    rw [Nat.forall_lt_succ_left]
    cases ptr with
    | none => simp [decodeIds]
    | some s =>
      have hlater : ∀ ids' : List Word, ids'.length = ids.length →
          ((∃ read, decodeIds n (i + 1) ((strstr s " ".toList).map fun j => s.drop (j + 1)) ids' = .ok read) ↔
            ∀ j < n, ∃ text, (some s).bind (afterSpaces (j + 1)) = some text ∧
              (i + (j + 1) < ids.length ∨ scan idFormat text = [])) := by
        intro ids' hlen
        rw [ih,hlen]
        refine forall_congr' fun j => imp_congr_right fun _ => ?_
        rw [Nat.add_right_comm i 1 j,Option.bind_some,afterSpaces,Nat.add_assoc]
      rw [decodeIds,Option.bind_some,afterSpaces]
      cases hscan : scan idFormat s with
      | nil =>
        rw [hlater ids rfl]
        exact ⟨fun h => ⟨⟨s,rfl,Or.inr hscan⟩,h⟩,fun h => h.2⟩
      | cons id rest =>
        by_cases hi : i < ids.length
        · simp only [if_pos hi]
          rw [hlater (ids.set i id) List.length_set]
          exact ⟨fun h => ⟨⟨s,rfl,Or.inl hi⟩,h⟩,fun h => h.2⟩
        · simp only [if_neg hi]
          constructor
          · rintro ⟨read,hread⟩
            cases hread
          · rintro ⟨⟨text,htext,hfits⟩,-⟩
            cases htext
            rcases hfits with hfits | hfits
            · exact absurd hfits hi
            · rw [hscan] at hfits
              cases hfits

/-- The text announces no more ids than it has room for, and none goes past the array. -/
def RosterFits (buffer : List Char) (count : Word) (cap : ℕ) : Prop :=
  ∀ i < (rosterCount buffer count).toNat, ∃ text, (afterMarker buffer).bind (afterSpaces i) = some text ∧
    (i < cap ∨ scan idFormat text = [])

theorem decodeRosterInto_ok_iff (buffer : List Char) (count : Word) (ids : List Word) :
    (∃ read, decodeRosterInto buffer count ids = .ok read) ↔ RosterFits buffer count ids.length := by
  have h := decodeIds_ok_iff (rosterCount buffer count).toNat 0 (afterMarker buffer) ids
  simp only [Nat.zero_add] at h
  rw [RosterFits,← h,decodeRosterInto]
  cases decodeIds (rosterCount buffer count).toNat 0 (afterMarker buffer) ids with
  | error e => simp [Except.map]
  | ok read => simp [Except.map]

theorem afterSpaces_cons (k : ℕ) (c : Char) (s : List Char) :
    afterSpaces (k + 1) (c :: s) = if c = ' ' then afterSpaces k s else afterSpaces (k + 1) s := by
  have hpre : " ".toList.isPrefixOf (c :: s) = (' ' == c) := Bool.and_true _
  rw [afterSpaces,strstr,hpre]
  by_cases hc : c = ' '
  · subst hc
    rfl
  · rw [if_neg hc,beq_eq_false_iff_ne.mpr (Ne.symm hc),if_neg Bool.false_ne_true,Option.map_map]
    rfl

theorem afterSpaces_isSome (k : ℕ) (s : List Char) : (afterSpaces k s).isSome = decide (k ≤ s.count ' ') := by
  induction s generalizing k with
  | nil =>
    cases k with
    | zero => rfl
    | succ k => rfl
  | cons c s ih =>
    cases k with
    | zero => simp [afterSpaces]
    | succ k =>
      rw [afterSpaces_cons,List.count_cons]
      by_cases hc : c = ' '
      · rw [if_pos hc,ih,beq_iff_eq.mpr hc,if_pos rfl]
        exact decide_eq_decide.mpr Nat.succ_le_succ_iff.symm
      · rw [if_neg hc,ih,beq_eq_false_iff_ne.mpr hc,if_neg Bool.false_ne_true]
        rfl

/-! ## States -/

/-- The board takes up two hundred characters, and `sscanf` reads on behind them. -/
theorem payloadDecodeState_ok_iff (buffer : List Char) (payload : StatePayload) :
    (∃ read, payloadDecodeState buffer payload = .ok read) ↔ 200 ≤ buffer.length := by
  constructor
  · rintro ⟨read,hread⟩
    rw [payloadDecodeState] at hread
    cases hcells : decodeCells buffer 200 0 with
    | error e =>
      rw [hcells] at hread
      cases hread
    | ok cells =>
      rw [hcells] at hread
      by_contra hshort
      rw [Except.bind,textFrom,if_neg hshort] at hread
      cases hread
  · exact fun h => ⟨_,payloadDecodeState_eq h payload⟩

/-! ## Both decoders -/

theorem decoders_inside_iff (buffer : List Char) (count : Word) (ids : List Word) (payload : StatePayload) :
    ((∃ read, decodeRosterInto buffer count ids = .ok read) ↔ RosterFits buffer count ids.length) ∧
    ((∃ read, payloadDecodeState buffer payload = .ok read) ↔ 200 ≤ buffer.length) :=
  ⟨decodeRosterInto_ok_iff buffer count ids,payloadDecodeState_ok_iff buffer payload⟩

/-- A count of five for four ids writes past the array; too few ids, a missing marker and a short
board are followed out of the text. -/
theorem malformed_bodies_leave :
    (¬∀ (buffer : List Char) (count : Word) (ids : List Word) (payload : StatePayload),
      (∃ read, decodeRosterInto buffer count ids = .ok read) ∧ ∃ read, payloadDecodeState buffer payload = .ok read) ∧
    decodeRosterInto "\x7bcount: 5, ids: [1 2 3 4 5 ]\x7d".toList 0 [0,0,0,0] = .error .overrun ∧
    decodeRosterInto "\x7bcount: 64, ids: [1 2 ]\x7d".toList 0 [0,0,0,0] = .error .failedSearch ∧
    decodeRosterInto "\x7bcount: 2, nothing resembling the expected marker here\x7d".toList 0 [0,0,0,0] =
      .error .failedSearch ∧
    ¬∃ read, payloadDecodeState "short".toList default = .ok read := by
  refine ⟨?_,by decide,by decide,by decide,?_⟩
  · intro h
    obtain ⟨⟨read,hread⟩,-⟩ := h "\x7bcount: 5, ids: [1 2 3 4 5 ]\x7d".toList 0 [0,0,0,0] default
    have hover : decodeRosterInto "\x7bcount: 5, ids: [1 2 3 4 5 ]\x7d".toList 0 [0,0,0,0] = .error .overrun := by decide
    rw [hread] at hover
    cases hover
  · rintro ⟨read,hread⟩
    cases hread

end CoreStack.Hypertext
