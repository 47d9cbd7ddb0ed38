import CoreStack.Lib.Cutting
import Mathlib.Tactic.Common

/-! # Strings of the C library

A string is the list of its characters before the terminating NUL. Numbers are
read as glibc reads them where `unsigned long` has 64 bits.
-/
namespace CoreStack.Utils
open Cutting

def ulongMax : ℕ := 18446744073709551615

/-- The string at the start of a buffer, if it ends within the buffer. -/
def cString (buffer : List UInt8) : Option (List Char) :=
  if 0 ∈ buffer then some ((buffer.takeWhile (· != 0)).map fun b => Char.ofNat b.toNat) else none

/-- Where the first occurrence of `needle` starts. -/
def strstr : List Char → List Char → Option ℕ
  | [], needle => if needle.isEmpty then some 0 else none
  | c :: s, needle => if needle.isPrefixOf (c :: s) then some 0 else (strstr s needle).map (· + 1)

def isSpace (c : Char) : Bool := c == ' ' || ('\t' ≤ c && c ≤ '\r')

def decimal (digits : List Char) : ℕ := digits.foldl (fun n c => 10 * n + (c.toNat - '0'.toNat)) 0

/-- A sign is read before the digits, a minus as negation in 64 bits. -/
def takeSign : List Char → Bool × List Char
  | '-' :: s => (true,s)
  | '+' :: s => (false,s)
  | s => (false,s)

/-- The conversion of `strtoul` in base 10; there is none without a digit. -/
def scanUnsigned (s : List Char) : Option ℕ :=
  let (negative,s) := takeSign (s.dropWhile isSpace)
  let digits := s.takeWhile Char.isDigit
  if digits.isEmpty then none
  else if ulongMax < decimal digits then some ulongMax
  else if negative then some ((ulongMax + 1 - decimal digits) % (ulongMax + 1))
  else some (decimal digits)

def strtoul (s : List Char) : ℕ := (scanUnsigned s).getD 0

/-- `%u` of `sscanf`, stored in 32 bits. -/
def scanU32 (s : List Char) : Option ℕ := (scanUnsigned s).map (· % 4294967296)

/-! ## Finding a string -/

theorem strstr_cut {s needle before after : List Char} (h : Cut needle s before after) :
    strstr s needle = some before.length := by
  induction s generalizing before with
  | nil =>
    obtain ⟨hbefore,hnil⟩ := List.append_eq_nil_iff.mp h.split.symm
    obtain ⟨rfl,-⟩ := List.append_eq_nil_iff.mp hnil
    rw [hbefore]
    rfl
  | cons c s ih =>
    cases before with
    | nil =>
      have hpre : needle.isPrefixOf (c :: s) = true := List.isPrefixOf_iff_prefix.mpr h.occurs
      rw [strstr,if_pos hpre]
      rfl
    | cons b before =>
      have hno : ¬needle.isPrefixOf (c :: s) = true := fun hpre =>
        h.first 0 (Nat.succ_pos _) (List.isPrefixOf_iff_prefix.mp hpre)
      have hsplit := h.split
      rw [List.cons_append] at hsplit
      have htail : Cut needle s before after :=
        ⟨(List.cons.inj hsplit).2,fun k hk => h.first (k + 1) (Nat.succ_lt_succ hk)⟩
      rw [strstr,if_neg hno,ih htail]
      rfl

theorem strstr_eq_none_iff {s needle : List Char} : strstr s needle = none ↔ ¬needle <:+: s := by
  constructor
  · intro h hin
    obtain ⟨before,after,hcut⟩ := exists_cut hin
    rw [strstr_cut hcut] at h
    cases h
  · intro hno
    induction s with
    | nil =>
      cases needle with
      | nil => exact absurd (List.infix_refl []) hno
      | cons a needle => rfl
    | cons c s ih =>
      rw [List.infix_cons_iff,not_or] at hno
      have hpre : ¬needle.isPrefixOf (c :: s) = true := fun h => hno.1 (List.isPrefixOf_iff_prefix.mp h)
      rw [strstr,if_neg hpre,ih hno.2]
      rfl

end CoreStack.Utils
