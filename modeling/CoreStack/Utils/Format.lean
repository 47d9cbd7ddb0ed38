import CoreStack.Utils.CString
import Mathlib.Data.Int.Notation

/-! # `sprintf` and `sscanf`

Formats of literal text, `%u` and `%d`. A text that was printed with a format is read with
the same format into the same numbers when no number runs into what is printed behind it.
-/
namespace CoreStack.Utils

/-- `uint32_t` and `int32_t`. -/
abbrev Word := BitVec 32

inductive Conversion
  | u
  | d
  deriving DecidableEq, Repr

inductive Directive
  | text (c : Char)
  | number (k : Conversion)
  deriving DecidableEq, Repr

/-- The directives of a format string. -/
def format : List Char → List Directive
  | '%' :: 'u' :: s => .number .u :: format s
  | '%' :: 'd' :: s => .number .d :: format s
  | c :: s => .text c :: format s
  | [] => []

def conversions : List Directive → ℕ
  | [] => 0
  | .text _ :: fmt => conversions fmt
  | .number _ :: fmt => conversions fmt + 1

/-! ## Printing -/

def Conversion.negative : Conversion → Word → Bool
  | .u, _ => false
  | .d, w => w.toInt < 0

def Conversion.magnitude : Conversion → Word → ℕ
  | .u, w => w.toNat
  | .d, w => w.toInt.natAbs

def signText (negative : Bool) : List Char := if negative then ['-'] else []

def Conversion.text (k : Conversion) (w : Word) : List Char :=
  signText (k.negative w) ++ Nat.toDigits 10 (k.magnitude w)

/-- What `sprintf` writes in front of the NUL. -/
def print : List Directive → List Word → List Char
  | [], _ => []
  | .text c :: fmt, args => c :: print fmt args
  | .number k :: fmt, w :: args => k.text w ++ print fmt args
  | .number _ :: _, [] => []

/-! ## Scanning -/

def longMax : ℕ := 9223372036854775807

/-- The conversion of `strtol` in base 10. -/
def scanSigned (s : List Char) : Option ℤ :=
  let (negative,s) := takeSign (s.dropWhile isSpace)
  let digits := s.takeWhile Char.isDigit
  if digits.isEmpty then none
  else if negative then some (-(min (decimal digits) (longMax + 1) : ℕ))
  else some (min (decimal digits) longMax : ℕ)

def afterNumber (s : List Char) : List Char := (takeSign (s.dropWhile isSpace)).2.dropWhile Char.isDigit

/-- What is stored, and the text behind the number. -/
def Conversion.scan (k : Conversion) (s : List Char) : Option (Word × List Char) :=
  match k with
  | .u => (scanUnsigned s).map fun n => (BitVec.ofNat 32 n,afterNumber s)
  | .d => (scanSigned s).map fun n => (BitVec.ofInt 32 n,afterNumber s)

/-- The numbers `sscanf` stores before it ends. White space in the format stands for any
amount of it, other text for itself. -/
def scan : List Directive → List Char → List Word
  | [], _ => []
  | .text c :: fmt, s =>
    if isSpace c then scan fmt (s.dropWhile isSpace)
    else match s with
      | [] => []
      | d :: s => if d = c then scan fmt s else []
  | .number k :: fmt, s =>
    match k.scan s with
    | none => []
    | some (w,s) => w :: scan fmt s

/-! ## Reading what was printed -/

theorem decimal_toDigits (n : ℕ) : decimal (Nat.toDigits 10 n) = n := Nat.ofDigitChars_ten_toDigits

theorem isDigit_of_mem_toDigits {n : ℕ} {c : Char} (h : c ∈ Nat.toDigits 10 n) : c.isDigit = true :=
  Nat.isDigit_of_mem_toDigits (by decide) (by decide) h

theorem isDigit_bounds {c : Char} (h : c.isDigit = true) : 48 ≤ c.toNat ∧ c.toNat ≤ 57 :=
  Char.isDigit_iff_toNat.mp h

theorem isSpace_of_isDigit {c : Char} (h : c.isDigit = true) : isSpace c = false := by
  obtain ⟨hlow,-⟩ := isDigit_bounds h
  have hne : c ≠ ' ' := by
    rintro rfl
    exact absurd hlow (by decide)
  have hgt : ¬c ≤ '\r' := by
    intro hle
    have hle' : c.toNat ≤ 13 := hle
    omega
  rw [isSpace,beq_false_of_ne hne,decide_eq_false hgt,Bool.and_false,Bool.or_false]

theorem takeSign_of_isDigit {c : Char} (h : c.isDigit = true) (s : List Char) :
    takeSign (c :: s) = (false,c :: s) := by
  obtain ⟨hlow,-⟩ := isDigit_bounds h
  rw [takeSign]
  · intro s' heq
    obtain ⟨rfl,-⟩ := List.cons.inj heq
    exact absurd hlow (by decide)
  · intro s' heq
    obtain ⟨rfl,-⟩ := List.cons.inj heq
    exact absurd hlow (by decide)

theorem takeSign_number (negative : Bool) (n : ℕ) (tail : List Char) :
    takeSign ((signText negative ++ (Nat.toDigits 10 n ++ tail)).dropWhile isSpace) =
      (negative,Nat.toDigits 10 n ++ tail) := by
  cases negative with
  | true => rfl
  | false =>
    obtain ⟨c,digits,hdigits⟩ := List.exists_cons_of_ne_nil (Nat.toDigits_ne_nil (n := n) (b := 10))
    have hc : c.isDigit = true := isDigit_of_mem_toDigits (n := n) (by rw [hdigits]; exact List.mem_cons_self)
    rw [hdigits,signText,if_neg Bool.false_ne_true,List.nil_append,List.cons_append,
      List.dropWhile_cons_of_neg (by rw [isSpace_of_isDigit hc]; exact Bool.false_ne_true),takeSign_of_isDigit hc]

/-- No digit follows. -/
def StopsNumber (tail : List Char) : Prop := ∀ c ∈ tail.head?, c.isDigit = false

theorem takeWhile_number {n : ℕ} {tail : List Char} (h : StopsNumber tail) :
    (Nat.toDigits 10 n ++ tail).takeWhile Char.isDigit = Nat.toDigits 10 n := by
  rw [List.takeWhile_append_of_pos fun c hc => isDigit_of_mem_toDigits hc]
  cases tail with
  | nil => rw [List.takeWhile_nil,List.append_nil]
  | cons c tail =>
    rw [List.takeWhile_cons_of_neg (by rw [h c rfl]; exact Bool.false_ne_true),List.append_nil]

theorem dropWhile_number {n : ℕ} {tail : List Char} (h : StopsNumber tail) :
    (Nat.toDigits 10 n ++ tail).dropWhile Char.isDigit = tail := by
  have hsplit := List.takeWhile_append_dropWhile (p := Char.isDigit) (l := Nat.toDigits 10 n ++ tail)
  rw [takeWhile_number h] at hsplit
  exact List.append_cancel_left hsplit

theorem toDigits_isEmpty (n : ℕ) : (Nat.toDigits 10 n).isEmpty = false :=
  List.isEmpty_eq_false_iff.mpr Nat.toDigits_ne_nil

theorem magnitude_le (k : Conversion) (w : Word) : k.magnitude w < 4294967296 := by
  cases k with
  | u => exact w.isLt
  | d =>
    have hlow := BitVec.le_toInt w
    have hhigh := BitVec.toInt_lt (x := w)
    simp only [Conversion.magnitude]
    omega

theorem afterNumber_text (k : Conversion) (w : Word) {tail : List Char} (h : StopsNumber tail) :
    afterNumber (k.text w ++ tail) = tail := by
  rw [afterNumber,Conversion.text,List.append_assoc,takeSign_number]
  exact dropWhile_number h

theorem scanUnsigned_text (w : Word) {tail : List Char} (h : StopsNumber tail) :
    scanUnsigned (Conversion.u.text w ++ tail) = some w.toNat := by
  have hbound : ¬ulongMax < w.toNat := by
    have hlt := w.isLt
    unfold ulongMax
    omega
  rw [scanUnsigned,Conversion.text,List.append_assoc,takeSign_number]
  dsimp only
  rw [takeWhile_number h,decimal_toDigits,toDigits_isEmpty,if_neg Bool.false_ne_true,Conversion.magnitude,if_neg hbound,
    Conversion.negative,if_neg Bool.false_ne_true]

theorem scanSigned_text (w : Word) {tail : List Char} (h : StopsNumber tail) :
    scanSigned (Conversion.d.text w ++ tail) = some w.toInt := by
  have hle := magnitude_le .d w
  have hmin : ∀ m, 2 ^ 32 ≤ m → min (Conversion.d.magnitude w) m = Conversion.d.magnitude w := fun m hm => by omega
  rw [scanSigned,Conversion.text,List.append_assoc,takeSign_number]
  dsimp only
  rw [takeWhile_number h,decimal_toDigits,toDigits_isEmpty,if_neg Bool.false_ne_true,hmin _ (by decide),
    hmin _ (by decide),Conversion.negative,Conversion.magnitude]
  by_cases hneg : w.toInt < 0
  · rw [decide_eq_true hneg,if_pos rfl]
    congr 1
    omega
  · rw [decide_eq_false hneg,if_neg Bool.false_ne_true]
    congr 1
    omega

theorem scan_text (k : Conversion) (w : Word) {tail : List Char} (h : StopsNumber tail) :
    k.scan (k.text w ++ tail) = some (w,tail) := by
  cases k with
  | u =>
    rw [Conversion.scan,scanUnsigned_text w h,afterNumber_text .u w h,Option.map_some,BitVec.ofNat_toNat,
      BitVec.setWidth_eq]
  | d => rw [Conversion.scan,scanSigned_text w h,afterNumber_text .d w h,Option.map_some,BitVec.ofInt_toInt]

/-- A character like the first one that is printed. -/
def lead : List Directive → List Char → Option Char
  | [], tail => tail.head?
  | .text c :: _, _ => some c
  | .number _ :: _, _ => some '0'

/-- No digit is printed right behind a number and no white space behind white space. -/
def separated : List Directive → List Char → Bool
  | [], _ => true
  | .text c :: fmt, tail => (!isSpace c || (lead fmt tail).all (!isSpace ·)) && separated fmt tail
  | .number _ :: fmt, tail => (lead fmt tail).all (!Char.isDigit ·) && separated fmt tail

theorem text_head (k : Conversion) (w : Word) (tail : List Char) :
    ∃ c s, k.text w ++ tail = c :: s ∧ isSpace c = false := by
  obtain ⟨c,digits,hdigits⟩ := List.exists_cons_of_ne_nil (Nat.toDigits_ne_nil (n := k.magnitude w) (b := 10))
  have hc : c.isDigit = true :=
    isDigit_of_mem_toDigits (n := k.magnitude w) (by rw [hdigits]; exact List.mem_cons_self)
  rw [Conversion.text,hdigits]
  cases k.negative w with
  | true => exact ⟨'-',_,rfl,rfl⟩
  | false => exact ⟨c,_,rfl,isSpace_of_isDigit hc⟩

theorem stops_print {fmt : List Directive} {args : List Word} {tail : List Char}
    (h : (lead fmt tail).all (!Char.isDigit ·) = true) : StopsNumber (print fmt args ++ tail) := by
  intro c hc
  cases fmt with
  | nil =>
    rw [print,List.nil_append] at hc
    rw [lead,hc] at h
    simpa using h
  | cons directive fmt =>
    cases directive with
    | text d =>
      cases hc
      simpa [lead] using h
    | number k => exact absurd h Bool.false_ne_true

theorem dropWhile_print {fmt : List Directive} {args : List Word} {tail : List Char}
    (hargs : args.length = conversions fmt) (h : (lead fmt tail).all (!isSpace ·) = true) :
    (print fmt args ++ tail).dropWhile isSpace = print fmt args ++ tail := by
  have hskip : ∀ c s, isSpace c = false → (c :: s).dropWhile isSpace = c :: s := fun c s hc =>
    List.dropWhile_cons_of_neg (by rw [hc]; exact Bool.false_ne_true)
  cases fmt with
  | nil =>
    rw [print,List.nil_append]
    cases tail with
    | nil => rfl
    | cons c tail => exact hskip c tail (by simpa [lead] using h)
  | cons directive fmt =>
    cases directive with
    | text d => exact hskip d _ (by simpa [lead] using h)
    | number k =>
      cases args with
      | nil => cases hargs
      | cons w args =>
        obtain ⟨c,s,hs,hc⟩ := text_head k w (print fmt args ++ tail)
        rw [print,List.append_assoc,hs]
        exact hskip c s hc

/-- What was printed is read again, whatever stands behind it. -/
theorem scan_print {fmt : List Directive} {args : List Word} {tail : List Char} (hargs : args.length = conversions fmt)
    (h : separated fmt tail = true) : scan fmt (print fmt args ++ tail) = args := by
  induction fmt generalizing args with
  | nil => exact (List.length_eq_zero_iff.mp hargs).symm
  | cons directive fmt ih =>
    cases directive with
    | text c =>
      rw [separated,Bool.and_eq_true] at h
      have hargs' : args.length = conversions fmt := hargs
      have hnext := ih hargs' h.2
      rw [print,List.cons_append,scan]
      by_cases hc : isSpace c = true
      · have hlead : (lead fmt tail).all (!isSpace ·) = true := by
          have hfirst := h.1
          rw [hc] at hfirst
          exact hfirst
        rw [if_pos hc,List.dropWhile_cons_of_pos hc,dropWhile_print hargs' hlead]
        exact hnext
      · rw [if_neg hc,if_pos rfl]
        exact hnext
    | number k =>
      rw [separated,Bool.and_eq_true] at h
      cases args with
      | nil => cases hargs
      | cons w args =>
        have hargs' : args.length = conversions fmt := Nat.succ.inj hargs
        rw [print,List.append_assoc,scan,scan_text k w (stops_print h.1)]
        dsimp only
        rw [ih hargs' h.2]

/-! ## The size and the characters of what is printed -/

theorem length_toDigits {n : ℕ} (h : n < 4294967296) : (Nat.toDigits 10 n).length ≤ 10 :=
  (Nat.length_toDigits_le_iff (by decide) (by decide)).mpr (Nat.lt_trans h (by decide))

theorem length_text (k : Conversion) (w : Word) : (k.text w).length ≤ 11 := by
  have hdigits := length_toDigits (magnitude_le k w)
  have hsign : (signText (k.negative w)).length ≤ 1 := by
    cases k.negative w with
    | true => exact Nat.le_refl 1
    | false => exact Nat.zero_le 1
  rw [Conversion.text,List.length_append]
  omega

theorem length_print (fmt : List Directive) (args : List Word) :
    (print fmt args).length ≤ fmt.length + 10 * conversions fmt := by
  induction fmt generalizing args with
  | nil => exact Nat.zero_le _
  | cons directive fmt ih =>
    cases directive with
    | text c =>
      have hrest := ih args
      rw [print,conversions,List.length_cons,List.length_cons]
      omega
    | number k =>
      cases args with
      | nil => exact Nat.zero_le _
      | cons w args =>
        have hnumber := length_text k w
        have hrest := ih args
        rw [print,conversions,List.length_append,List.length_cons]
        omega

theorem mem_text {k : Conversion} {w : Word} {c : Char} (h : c ∈ k.text w) : c = '-' ∨ c.isDigit = true := by
  rw [Conversion.text] at h
  rcases List.mem_append.mp h with h | h
  · cases hneg : k.negative w with
    | true =>
      rw [hneg] at h
      exact Or.inl (List.mem_singleton.mp h)
    | false =>
      rw [hneg] at h
      cases h
  · exact Or.inr (isDigit_of_mem_toDigits h)

theorem mem_print {fmt : List Directive} {args : List Word} {c : Char} (h : c ∈ print fmt args) :
    .text c ∈ fmt ∨ c = '-' ∨ c.isDigit = true := by
  induction fmt generalizing args with
  | nil => cases h
  | cons directive fmt ih =>
    cases directive with
    | text d =>
      rcases List.mem_cons.mp h with rfl | h
      · exact Or.inl List.mem_cons_self
      · exact (ih h).imp_left (List.mem_cons_of_mem _)
    | number k =>
      cases args with
      | nil => cases h
      | cons w args =>
        rcases List.mem_append.mp h with h | h
        · exact Or.inr (mem_text h)
        · exact (ih h).imp_left (List.mem_cons_of_mem _)

end CoreStack.Utils
