import CoreStack.Bomberman.Session
import CoreStack.Lib.Slotwise

/-! # Client packets (`protocol.c`, the message drain of `bombd/main.c`)

A packet opens with its tag; every field is a big-endian word of four bytes.
-/
namespace CoreStack.Bomberman
open Lib Utils

def packetMove : ℕ := 0
def packetBombPlace : ℕ := 1

def readWord (buffer : List UInt8) (offset : ℕ) : ℕ :=
  ((buffer.drop offset).take 4).foldl (fun n b => 256 * n + b.toNat) 0

/-- The cast of a 32-bit word to `int32_t`. -/
def toInt32 (n : ℕ) : ℤ := if n < 2 ^ 31 then n else n - 2 ^ 32

def readBombPacketTag (buffer : List UInt8) : ℕ := readWord buffer 0

structure MovePayload where
  playerId : ℕ
  dx : ℤ
  dy : ℤ
  sprinting : ℕ
  deriving DecidableEq, Repr

def unpackMove (buffer : List UInt8) : MovePayload where
  playerId := readWord buffer 4
  dx := toInt32 (readWord buffer 8)
  dy := toInt32 (readWord buffer 12)
  sprinting := readWord buffer 16

structure BombPlacePayload where
  playerId : ℕ
  deriving DecidableEq, Repr

def unpackBombPlace (buffer : List UInt8) : BombPlacePayload := ⟨readWord buffer 4⟩

def handlePacket [Arithmetic] (s : Bombd) (msgBuffer : List UInt8) : Bombd :=
  let tag := readBombPacketTag msgBuffer
  if tag = packetMove then
    let move := unpackMove msgBuffer
    applyMove s move.playerId move.dx move.dy (move.sprinting != 0)
  else if tag = packetBombPlace then
    applyBombPlace s (unpackBombPlace msgBuffer).playerId
  else s

/-- The player the packet steers, if it is one of the two the drain acts on. -/
def addressee (msgBuffer : List UInt8) : Option ℕ :=
  let tag := readBombPacketTag msgBuffer
  if tag = packetMove then some (unpackMove msgBuffer).playerId
  else if tag = packetBombPlace then some (unpackBombPlace msgBuffer).playerId
  else none

/-! ## Whose character a packet touches -/

theorem steered_absent {s : BombSession} {id : ℕ} (h : id ∉ s.players.map (·.playerId)) : s.steered id = none := by
  cases hs : s.steered id with
  | none => rfl
  | some q =>
    obtain ⟨hp,hid⟩ := steered_some hs
    exact absurd (List.mem_map.mpr ⟨q.2,List.mem_of_getElem? hp,hid⟩) h

theorem steered_mem {s : BombSession} (hplays : ∀ p ∈ s.players, p.active = true ∧ p.alive = true) {id : ℕ}
    (hid : id ∈ s.players.map (·.playerId)) : ∃ i p, s.steered id = some (i,p) := by
  obtain ⟨p,hp,rfl⟩ := List.mem_map.mp hid
  have hfound : (findBombPlayer s p.playerId).isSome := by
    refine List.findIdx?_isSome.trans (List.any_eq_true.mpr ⟨p,hp,?_⟩)
    simp [(hplays p hp).1]
  obtain ⟨i,hi⟩ := Option.isSome_iff_exists.mp hfound
  obtain ⟨hlt,-,-⟩ := List.findIdx?_eq_some_iff_getElem.mp hi
  refine ⟨i,s.players[i],?_⟩
  have halive := (hplays _ (List.getElem_mem hlt)).2
  simp [BombSession.steered,hi,hlt,halive,Option.filter]

theorem handlePacket_spares [Arithmetic] {buffer : List UInt8} {id : ℕ} (h : addressee buffer = some id) (s : Bombd) :
    Spares (·.playerId) id s.session.players (handlePacket s buffer).session.players := by
  unfold addressee at h
  unfold handlePacket
  dsimp only at h ⊢
  split_ifs at h ⊢ with hmove hplace
  · cases h
    unfold applyMove
    cases hs : s.session.steered (unpackMove buffer).playerId with
    | none => exact Spares.refl _ _ _
    | some q => exact .set (steered_some hs).1 (steered_some hs).2 _
  · cases h
    unfold applyBombPlace
    cases hs : s.session.steered (unpackBombPlace buffer).playerId with
    | none => exact Spares.refl _ _ _
    | some q => exact .set (steered_some hs).1 (steered_some hs).2 _

theorem handlePacket_absent [Arithmetic] {buffer : List UInt8} {s : Bombd}
    (h : ∀ id, addressee buffer = some id → id ∉ s.session.players.map (·.playerId)) :
    handlePacket s buffer = s := by
  unfold addressee at h
  unfold handlePacket
  dsimp only at h ⊢
  split_ifs at h ⊢ with hmove hplace
  · simp only [applyMove,steered_absent (h _ rfl)]
  · simp only [applyBombPlace,steered_absent (h _ rfl)]
  · rfl

/-- Everybody stands on an open field with bombs left and holds a direction that no move
packet with `dx` asks for. -/
def openField [Arithmetic] (dx : ℤ) (ids : List ℕ) : Bombd where
  session := ⟨ids.map fun id => { initPlayer id ⟨1,1⟩ with moveDx := if dx = 0 then 1 else 0 },false⟩
  world := ⟨20,fun _ _ => .empty,fun _ _ => .empty,.init,.init,fun _ => 0⟩

theorem openField_ids [Arithmetic] (dx : ℤ) (ids : List ℕ) : (openField dx ids).session.players.map (·.playerId) = ids := by
  simp only [openField,List.map_map]
  exact List.map_id'' (fun _ => rfl) ids

theorem openField_plays [Arithmetic] (dx : ℤ) (ids : List ℕ) :
    ∀ p ∈ (openField dx ids).session.players, p.active = true ∧ p.alive = true := by
  intro p hp
  obtain ⟨id,-,rfl⟩ := List.mem_map.mp hp
  exact ⟨rfl,rfl⟩

/-- On the open field every packet for somebody else is felt. -/
theorem handlePacket_not_spares [Arithmetic] {buffer : List UInt8} {id a : ℕ} {ids : List ℕ} (h : addressee buffer = some id)
    (hid : id ∈ ids) (hne : id ≠ a) :
    ¬Spares (·.playerId) a (openField (unpackMove buffer).dx ids).session.players
      (handlePacket (openField (unpackMove buffer).dx ids) buffer).session.players := by
  rw [← openField_ids (unpackMove buffer).dx ids] at hid
  obtain ⟨i,p,hs⟩ := steered_mem (openField_plays _ ids) hid
  obtain ⟨hp,hown⟩ := steered_some hs
  obtain ⟨id',-,rfl⟩ := List.mem_map.mp (List.mem_of_getElem? hp)
  unfold addressee at h
  unfold handlePacket
  dsimp only at h ⊢
  split_ifs at h ⊢ with hmove hplace
  · cases h
    simp only [applyMove,hs]
    refine not_spares_set hp (by rw [hown]; exact hne) ?_
    intro heq
    have hdx := congrArg BombPlayer.moveDx heq
    dsimp only at hdx
    split_ifs at hdx with hzero
    · rw [hzero] at hdx
      cases hdx
    · exact hzero hdx
  · cases h
    simp only [applyBombPlace,hs]
    refine not_spares_set hp (by rw [hown]; exact hne) ?_
    intro heq
    have hbombs := congrArg (fun p => p.inventory.remainingBombs) heq
    simp [openField,placeBomb,consumeBomb,initPlayer] at hbombs

/-- Whatever the state of the match, nobody but `a` feels the packet. -/
def SparesOthers [Arithmetic] (a : ℕ) (ids : List ℕ) (buffer : List UInt8) : Prop :=
  ∀ s : Bombd, s.session.players.map (·.playerId) = ids →
    Spares (·.playerId) a s.session.players (handlePacket s buffer).session.players

theorem sparesOthers_iff [Arithmetic] (a : ℕ) (ids : List ℕ) (buffer : List UInt8) :
    SparesOthers a ids buffer ↔ ∀ id, addressee buffer = some id → id = a ∨ id ∉ ids := by
  constructor
  · intro hall id hid
    by_contra hcon
    push Not at hcon
    exact handlePacket_not_spares hid hcon.2 hcon.1 (hall _ (openField_ids _ ids))
  · intro hcond s hids
    cases hto : addressee buffer with
    | none =>
      rw [handlePacket_absent (fun id hid => by rw [hto] at hid; cases hid)]
      exact Spares.refl _ _ _
    | some id =>
      rcases hcond id hto with rfl | habsent
      · exact handlePacket_spares hto s
      · have hsame : handlePacket s buffer = s := by
          refine handlePacket_absent fun id' hid' => ?_
          rw [hto] at hid'
          cases hid'
          rw [hids]
          exact habsent
        rw [hsame]
        exact Spares.refl _ _ _

end CoreStack.Bomberman
