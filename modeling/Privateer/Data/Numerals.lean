import Mathlib.Data.Nat.Digits.Lemmas

/-!
# Numbers in text

The conversions of the standard library between numbers and text, in the "C" locale:
the `stoi` and `stoul` that read a number, and an output stream with its fill, width and
base.  Reading skips leading space, takes one sign, with base 16 a prefix `0x` that a
digit follows, and then as many digits as there are; what comes after them is ignored.
-/

namespace Privateer

/-- The exceptions of the conversions. -/
inductive ConversionError where
  | invalidArgument
  | outOfRange
  deriving DecidableEq, Repr

namespace Numeral

/-! ## Digits -/

def isSpace (character : Char) : Bool :=
  character = ' ' || ('\t' ≤ character && character ≤ '\r')

/-- The value of a character as a digit of any base. -/
def digitValue (character : Char) : Option ℕ :=
  if '0' ≤ character ∧ character ≤ '9' then some (character.toNat - '0'.toNat)
  else if 'a' ≤ character ∧ character ≤ 'z' then some (character.toNat - 'a'.toNat + 10)
  else if 'A' ≤ character ∧ character ≤ 'Z' then some (character.toNat - 'A'.toNat + 10)
  else none

def digitIn (base : ℕ) (character : Char) : Option ℕ :=
  (digitValue character).filter (· < base)

/-- The values of the longest prefix of digits. -/
def leadingDigits (base : ℕ) : List Char → List ℕ
  | [] => []
  | character :: text =>
      match digitIn base character with
      | none => []
      | some digit => digit :: leadingDigits base text

/-- The number with these digits, the most significant one first. -/
def ofDigits (base : ℕ) (digits : List ℕ) : ℕ :=
  Nat.ofDigits base digits.reverse

/-- In base 16 the prefix `0x` is skipped when a digit follows it. -/
def skipPrefix (base : ℕ) : List Char → List Char
  | zero :: mark :: digit :: text =>
      if base = 16 ∧ zero = '0' ∧ (mark = 'x' ∨ mark = 'X') ∧ (digitIn 16 digit).isSome then
        digit :: text
      else zero :: mark :: digit :: text
  | text => text

/-- One sign: whether it is a minus, and what follows. -/
def takeSign : List Char → Bool × List Char
  | '-' :: text => (true, text)
  | '+' :: text => (false, text)
  | text => (false, text)

/-- What `strtol` and `strtoul` read, before any bound: the sign and the magnitude.
Without a digit there is no conversion. -/
def read (base : ℕ) (text : List Char) : Option (Bool × ℕ) :=
  let signed := takeSign (text.dropWhile isSpace)
  let digits := leadingDigits base (skipPrefix base signed.2)
  if digits = [] then none else some (signed.1, ofDigits base digits)

/-! ## Conversions -/

/-- `std::stoul`: a magnitude above the range is an error, and a minus negates the result
modulo `2 ^ 64`. -/
def stoul (text : List Char) (base : ℕ) : Except ConversionError UInt64 :=
  match read base text with
  | none => .error .invalidArgument
  | some (negative, magnitude) =>
      if magnitude < 2 ^ 64 then
        .ok (if negative then -UInt64.ofNat magnitude else UInt64.ofNat magnitude)
      else .error .outOfRange

/-- `std::stoi`, in base 10. -/
def stoi (text : List Char) : Except ConversionError ℤ :=
  match read 10 text with
  | none => .error .invalidArgument
  | some (negative, magnitude) =>
      let value : ℤ := if negative then -magnitude else magnitude
      if -2 ^ 31 ≤ value ∧ value < 2 ^ 31 then .ok value else .error .outOfRange

/-- `std::string::substr`. -/
def substr (text : List Char) (position count : ℕ) : Except ConversionError (List Char) :=
  if text.length < position then .error .outOfRange else .ok ((text.drop position).take count)

/-! ## Output streams -/

/-- The text written to a stream, and how it formats the next number. -/
structure OutputStream where
  text : List Char := []
  fill : Char := ' '
  width : ℕ := 0
  base : ℕ := 10

namespace OutputStream

def setfill (stream : OutputStream) (character : Char) : OutputStream :=
  { stream with fill := character }

def setw (stream : OutputStream) (width : ℕ) : OutputStream :=
  { stream with width := width }

def hex (stream : OutputStream) : OutputStream :=
  { stream with base := 16 }

/-- `operator<<` of an unsigned number.  It pads on the left and resets the width. -/
def put (stream : OutputStream) (number : ℕ) : OutputStream :=
  let digits := Nat.toDigits stream.base number
  { stream with
    text := stream.text ++
      List.replicate (stream.width - digits.length) stream.fill ++ digits
    width := 0 }

end OutputStream

/-! ## Rules -/

theorem digitIn_digitChar : ∀ digit < 16, digitIn 16 digit.digitChar = some digit := by
  decide

theorem toDigits_byte : ∀ number < 256,
    List.replicate (2 - (Nat.toDigits 16 number).length) '0' ++ Nat.toDigits 16 number =
      [(number / 16).digitChar, (number % 16).digitChar] := by
  intro number hnumber
  by_cases hsmall : number < 16
  · rw [Nat.toDigits_of_lt_base hsmall, Nat.div_eq_of_lt hsmall, Nat.mod_eq_of_lt hsmall]
    rfl
  · rw [Nat.toDigits_of_base_le (by omega) (Nat.le_of_not_lt hsmall),
      Nat.toDigits_of_lt_base (by omega)]
    rfl

theorem le_of_isDigit {character : Char} (hdigit : character.isDigit) :
    '0' ≤ character ∧ character ≤ '9' := by
  rw [Char.isDigit, Bool.and_eq_true, decide_eq_true_iff, decide_eq_true_iff] at hdigit
  exact hdigit

theorem digitIn_eq_of_isDigit {character : Char} (hdigit : character.isDigit) :
    digitIn 10 character = some (character.toNat - '0'.toNat) := by
  have hbounds := le_of_isDigit hdigit
  have hvalue : character.toNat - '0'.toNat < 10 := by
    have hupper : character.toNat ≤ '9'.toNat := hbounds.2
    have hzero : '0'.toNat = 48 := rfl
    have hnine : '9'.toNat = 57 := rfl
    omega
  rw [digitIn, digitValue, if_pos hbounds, Option.filter_some, if_pos (decide_eq_true hvalue)]

/-- A text whose characters are all digits is read to its end. -/
theorem leadingDigits_eq {base : ℕ} {digits : List ℕ} {text : List Char}
    (hdigits : text.map (digitIn base) = digits.map some) :
    leadingDigits base text = digits := by
  induction text generalizing digits with
  | nil =>
      cases digits with
      | nil => rfl
      | cons digit digits => cases hdigits
  | cons character text ih =>
      cases digits with
      | nil => cases hdigits
      | cons digit digits =>
          rw [List.map_cons, List.map_cons, List.cons.injEq] at hdigits
          rw [leadingDigits, hdigits.1]
          exact congrArg _ (ih hdigits.2)

theorem skipPrefix_of_ne {base : ℕ} (hbase : base ≠ 16) (text : List Char) :
    skipPrefix base text = text := by
  match text with
  | [] | [_] | [_, _] => rfl
  | zero :: mark :: digit :: text =>
      rw [skipPrefix, if_neg fun hprefix => hbase hprefix.1]

/-- The number that a text of decimal digits only stands for. -/
def decimalValue (text : List Char) : Option ℕ :=
  if text ≠ [] ∧ text.all Char.isDigit then
    some (ofDigits 10 (text.map fun character => character.toNat - '0'.toNat))
  else none

theorem takeSign_of_isDigit {character : Char} (hdigit : character.isDigit)
    (text : List Char) :
    takeSign ((character :: text).dropWhile isSpace) = (false, character :: text) := by
  have hzero := (le_of_isDigit hdigit).1
  have hspace : ¬ isSpace character = true := by
    rw [isSpace, Bool.or_eq_true, Bool.and_eq_true, decide_eq_true_iff, decide_eq_true_iff,
      decide_eq_true_iff]
    rintro (rfl | ⟨-, hlow⟩)
    · exact absurd hzero (by decide)
    · exact absurd (Char.le_trans hzero hlow) (by decide)
  rw [List.dropWhile_cons_of_neg hspace, takeSign]
  · intro rest hminus
    rw [(List.cons_eq_cons.mp hminus).1] at hdigit
    cases hdigit
  · intro rest hplus
    rw [(List.cons_eq_cons.mp hplus).1] at hdigit
    cases hdigit

/-- Decimal digits alone are read as the number that they stand for. -/
theorem read_of_decimalValue {text : List Char} {value : ℕ}
    (hvalue : decimalValue text = some value) : read 10 text = some (false, value) := by
  rw [decimalValue] at hvalue
  by_cases hdecimal : text ≠ [] ∧ text.all Char.isDigit
  · rw [if_pos hdecimal, Option.some_inj] at hvalue
    obtain ⟨character, rest, rfl⟩ := List.exists_cons_of_ne_nil hdecimal.1
    have hall := List.all_eq_true.mp hdecimal.2
    have hdigits : leadingDigits 10 (character :: rest) =
        (character :: rest).map fun character => character.toNat - '0'.toNat := by
      refine leadingDigits_eq ?_
      rw [List.map_map]
      exact List.map_congr_left fun digit hdigit => digitIn_eq_of_isDigit (hall _ hdigit)
    rw [read, takeSign_of_isDigit (hall _ List.mem_cons_self), skipPrefix_of_ne (by decide),
      hdigits, if_neg (List.map_eq_nil_iff.not.mpr (List.cons_ne_nil _ _)), hvalue]
  · rw [if_neg hdecimal] at hvalue
    cases hvalue

end Numeral

end Privateer
