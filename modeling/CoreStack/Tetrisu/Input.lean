import CoreStack.Hypertext.Bytes
import CoreStack.Tetrisd.Commands

/-! # Keys (`input_handler.c`)

A look at the terminal finds a character or nothing. What is typed becomes requests.
-/
namespace CoreStack.Tetrisu
open Tetris Tetrisd Hypertext Utils Execution

/-! ## Keys -/

def escapeKey : Char := Char.ofNat 27

/-- The last of the three characters of an arrow key. -/
def arrowAction (letter : Char) : Option PlayerAction :=
  if letter = 'A' then some .rotateCW
  else if letter = 'D' then some .moveLeft
  else if letter = 'C' then some .moveRight
  else if letter = 'B' then some .softDrop
  else none

def keyAction (key : Char) : Option PlayerAction :=
  if key = 'x' ∨ key = 'X' then some .rotateCW
  else if key = 'z' ∨ key = 'Z' then some .rotateCCW
  else if key = 't' ∨ key = 'T' then some .cycleTargetMode
  else if key = 'r' ∨ key = 'R' then some .cycleTarget
  else if key = ' ' then some .hardDrop
  else if key = 'h' ∨ key = 'H' then some .hold
  else none

/-- The actions that are sent, and whether the game is left. -/
abbrev Typed := List PlayerAction × Bool

def Typed.send (action : Option PlayerAction) (t : Typed) : Typed := (action.toList ++ t.1,t.2)

/-- Each element is what one `kbhit` finds; after the last there is nothing more. -/
def processInputs : List (Option Char) → Typed
  | some key :: polls =>
    if key = escapeKey then
      match polls with
      | some bracket :: polls =>
        if bracket = '[' then
          match polls with
          | some letter :: polls => Typed.send (arrowAction letter) (processInputs polls)
          | none :: polls => processInputs polls
          | [] => ([],false)
        else processInputs polls
      | none :: polls => processInputs polls
      | [] => ([],false)
    else if key = 'q' ∨ key = 'Q' then ([.quit],true)
    else Typed.send (keyAction key) (processInputs polls)
  | _ => ([],false)

/-- A key as the player presses it. -/
inductive Press
  | arrow (letter : Char)
  | key (c : Char)
  deriving DecidableEq, Repr

namespace Press

/-- The characters a key puts into the terminal at once. -/
def text : Press → List Char
  | .arrow letter => [escapeKey,'[',letter]
  | .key c => [c]

def quits : Press → Bool
  | .arrow _ => false
  | .key c => c == 'q' || c == 'Q'

def action : Press → Option PlayerAction
  | .arrow letter => arrowAction letter
  | .key c => if c = 'q' ∨ c = 'Q' then some .quit else keyAction c

/-- What pressing these keys stands for. -/
def typed : List Press → Typed
  | [] => ([],false)
  | p :: presses => if p.quits then ([.quit],true) else Typed.send p.action (typed presses)

end Press

theorem processInputs_press {p : Press} (hp : p ≠ .key escapeKey) (polls : List (Option Char)) :
    processInputs (p.text.map some ++ polls) =
      if p.quits then ([.quit],true) else Typed.send p.action (processInputs polls) := by
  cases p with
  | arrow letter =>
    change processInputs (some escapeKey :: some '[' :: some letter :: polls) = _
    rw [processInputs.eq_def]
    dsimp only
    rw [if_pos rfl,if_pos rfl]
    rfl
  | key c =>
    have hc : c ≠ escapeKey := fun h => hp (congrArg Press.key h)
    change processInputs (some c :: polls) = _
    rw [processInputs.eq_def]
    dsimp only
    rw [if_neg hc]
    by_cases hq : c = 'q' ∨ c = 'Q'
    · have hquits : (Press.key c).quits = true := by
        unfold Press.quits
        simpa using hq
      rw [if_pos hq,if_pos hquits]
    · have hquits : ¬(Press.key c).quits = true := by
        unfold Press.quits
        simpa using hq
      rw [if_neg hq,if_neg hquits,Press.action,if_neg hq]

/-- Keys that are there in full are read as what they stand for, up to the first that quits. -/
theorem processInputs_presses {presses : List Press} (h : ∀ p ∈ presses, p ≠ .key escapeKey) (later : List (Option Char)) :
    processInputs ((presses.flatMap fun p => p.text.map some) ++ none :: later) = Press.typed presses := by
  induction presses with
  | nil => rfl
  | cons p presses ih =>
    obtain ⟨hp,hrest⟩ := List.forall_mem_cons.mp h
    rw [List.flatMap_cons,List.append_assoc,processInputs_press hp,ih hrest,Press.typed]

/-! ## Rounds of the game loop -/

/-- What one call of `process_inputs` finds: keys that are there in full, and then nothing. -/
def Polled (presses : List Press) (polls : List (Option Char)) : Prop :=
  (∀ p ∈ presses, p ≠ .key escapeKey) ∧ ∃ later, polls = (presses.flatMap fun p => p.text.map some) ++ none :: later

/-- What is sent in these rounds, with one call of `process_inputs` each. -/
def requests (rounds : List (List (Option Char))) : List PlayerAction := rounds.flatMap fun polls => (processInputs polls).1

theorem requests_polled {keyboard : List (List Press)} {rounds : List (List (Option Char))}
    (h : List.Forall₂ Polled keyboard rounds) : requests rounds = keyboard.flatMap fun presses => (Press.typed presses).1 := by
  unfold requests
  induction h with
  | nil => rfl
  | cons hround _ ih =>
    obtain ⟨hpresses,later,rfl⟩ := hround
    rw [List.flatMap_cons,processInputs_presses hpresses,ih,List.flatMap_cons]

/-! ## Requests -/

/-- The numbers of `PlayerAction`. -/
def actionNumber : PlayerAction → Word
  | .none => 0
  | .moveLeft => 1
  | .moveRight => 2
  | .rotateCW => 3
  | .rotateCCW => 4
  | .softDrop => 5
  | .hardDrop => 6
  | .hold => 7
  | .cycleTargetMode => 8
  | .cycleTarget => 9
  | .quit => 10

theorem ofNumber_actionNumber (a : PlayerAction) : PlayerAction.ofNumber (actionNumber a).toNat = a := by
  cases a <;> rfl

def sendAction (playerId : Word) (tm : Tm) (a : PlayerAction) : Except ParseError ParsedMsgHT :=
  reqCreateAction playerId tm .action ⟨actionNumber a⟩ .zero

/-- What the room reads from the bytes a terminal sends, whatever the payload held before. -/
theorem readAppMsg_sendAction {playerId : Word} {tm : Tm} {a : PlayerAction} {bytes : List UInt8}
    (h : Encodes (sendAction playerId tm a) bytes) (stale : ℕ) :
    readAppMsg stale bytes = some (.action playerId.toNat a) := by
  obtain ⟨parsed,hparsed,hinfo⟩ := (arrived_action playerId tm ⟨actionNumber a⟩).conveys h
  rw [readAppMsg_action hparsed (by rw [hinfo]),hinfo]
  dsimp only
  rw [payloadDecodeInput_encode,Option.getD_some,ofNumber_actionNumber]

theorem sendAction_ends {playerId : Word} {tm : Tm} {a : PlayerAction} {bytes : List UInt8}
    (h : Encodes (sendAction playerId tm a) bytes) : bytes.length = maxBuf ∧ 0 ∈ bytes.take 1984 := by
  have hbody : (payloadEncodeInput ⟨actionNumber a⟩).length ≤ 200 := Nat.le_trans (length_print inputFormat _) (by decide)
  exact Encodes.ends (by decide) (by decide) (by decide) h (by omega) (by decide)

/-- The message a step of the room takes from its queue. -/
def appMsg? : Input → Option AppMsg
  | .client m _ => some m
  | _ => none

theorem asked_eq_appMsg (labels : List (HubRecv × Input)) : labels.filterMap (fun l => l.2.asked) =
    (labels.filterMap fun l => appMsg? l.2).filterMap fun m => (Input.client m fun _ => 0).asked := by
  rw [List.filterMap_filterMap]
  refine List.filterMap_congr fun l _ => ?_
  cases l.2 with
  | client m rand => cases m <;> rfl
  | _ => rfl

end CoreStack.Tetrisu
