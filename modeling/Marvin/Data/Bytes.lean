import Mathlib.Data.List.DropRight
import Mathlib.Tactic.IntervalCases

namespace Marvin.Data

/-! Byte strings, as a C++ `std::string` or a socket buffer holds them.

Case folding and white space follow the classic locale: only the ASCII letters
fold, and white space is blank, tab, line feed, vertical tab, form feed and
carriage return.
-/

abbrev Bytes := List UInt8

instance : LawfulBEq Bytes := inferInstance

/-- The bytes of an ASCII literal. -/
def ascii (text : String) : Bytes :=
  text.toList.map (fun character => character.toNat.toUInt8)

def upperByte (byte : UInt8) : UInt8 :=
  if 97 ≤ byte ∧ byte ≤ 122 then byte - 32 else byte

def toUpper (text : Bytes) : Bytes :=
  text.map upperByte

theorem upperByte_idem (byte : UInt8) : upperByte (upperByte byte) = upperByte byte := by
  unfold upperByte
  grind

@[simp] theorem toUpper_idem (text : Bytes) : toUpper (toUpper text) = toUpper text := by
  simp [toUpper, Function.comp_def, upperByte_idem]

@[simp] theorem toUpper_length (text : Bytes) : (toUpper text).length = text.length := by
  simp [toUpper]

def isSpace (byte : UInt8) : Bool :=
  byte == 32 || (9 ≤ byte && byte ≤ 13)

def trim (text : Bytes) : Bytes :=
  (text.dropWhile isSpace).rdropWhile isSpace

theorem trim_length_le (text : Bytes) : (trim text).length ≤ text.length :=
  ((List.rdropWhile_prefix _ _).length_le).trans (List.dropWhile_suffix _).length_le

theorem trim_eq_self {text : Bytes} (solid : ∀ byte ∈ text, isSpace byte = false) :
    trim text = text := by
  have left : text.dropWhile isSpace = text := by
    cases text with
    | nil => rfl
    | cons byte rest => simp [solid byte]
  rw [trim, left, List.rdropWhile_eq_self_iff]
  intro nonempty
  simp [solid _ (List.getLast_mem nonempty)]

@[simp] theorem trim_idem (text : Bytes) : trim (trim text) = trim text := by
  have left : (trim text).dropWhile isSpace = trim text := by
    rw [trim, List.dropWhile_eq_self_iff]
    intro positive
    have start := List.rdropWhile_prefix isSpace (text.dropWhile isSpace)
    have room : 0 < (text.dropWhile isSpace).length := positive.trans_le start.length_le
    rw [List.IsPrefix.getElem start positive]
    exact List.dropWhile_get_zero_not isSpace text room
  conv_lhs => rw [trim, left]
  simp [trim, List.rdropWhile_idempotent]

/-- The tokens a `boost::tokenizer` with one separator yields: the maximal
separator-free runs, empty ones dropped. -/
def tokens (separator : UInt8) (text : Bytes) : List Bytes :=
  (text.splitOnP (· == separator)).filter (· ≠ [])

/-- The decimal numeral `std::to_string` prints for a non-negative number. -/
def decimal (number : Nat) : Bytes :=
  (Nat.toDigits 10 number).map (fun digit => digit.toNat.toUInt8)

def isDigit (byte : UInt8) : Bool :=
  48 ≤ byte && byte ≤ 57

def digitsValue (digits : Bytes) : Nat :=
  digits.foldl (fun value digit => value * 10 + (digit.toNat - 48)) 0

/-- `atoi` as glibc computes it: `strtol`, which saturates at the ends of a
64-bit `long`, cut down to a 32-bit `int`. -/
def atoi (text : Bytes) : Int :=
  let text := text.dropWhile isSpace
  let (negative, numeral) :=
    match text with
    | 43 :: rest => (false, rest)
    | 45 :: rest => (true, rest)
    | _ => (false, text)
  let magnitude : Int := digitsValue (numeral.takeWhile isDigit)
  let long := if negative then max (-magnitude) (-2 ^ 63) else min magnitude (2 ^ 63 - 1)
  long.bmod (2 ^ 32)

/-- What `std::to_string` prints for an `int`. -/
def signedDecimal (number : Int) : Bytes :=
  if number < 0 then 45 :: decimal number.natAbs else decimal number.natAbs

def Numeral (text : Bytes) (number : Nat) : Prop :=
  text ≠ [] ∧ text.all isDigit ∧ digitsValue text = number

instance (text : Bytes) (number : Nat) : Decidable (Numeral text number) :=
  inferInstanceAs (Decidable (_ ∧ _ ∧ _))

/-- The parts of a text before and after the first occurrence of a delimiter. -/
def splitFirst (delimiter : Bytes) : Bytes → Option (Bytes × Bytes)
  | [] => if delimiter = [] then some ([], []) else none
  | byte :: rest =>
      if delimiter.isPrefixOf (byte :: rest) then some ([], (byte :: rest).drop delimiter.length)
      else (splitFirst delimiter rest).map (fun (before, after) => (byte :: before, after))

theorem splitFirst_eq {delimiter text before after : Bytes}
    (found : splitFirst delimiter text = some (before, after)) :
    text = before ++ delimiter ++ after := by
  induction text generalizing before with
  | nil =>
      rw [splitFirst] at found
      split at found
      · next empty =>
          cases found
          simp [empty]
      · cases found
  | cons byte rest ih =>
      rw [splitFirst] at found
      split at found
      · next starts =>
          cases found
          obtain ⟨tail, same⟩ := List.isPrefixOf_iff_prefix.mp starts
          simp [← same]
      · obtain ⟨⟨front, back⟩, inner, same⟩ := Option.map_eq_some_iff.mp found
        cases same
        rw [ih inner]
        rfl

theorem splitFirst_length {delimiter text : Bytes} {parts : Bytes × Bytes}
    (found : splitFirst delimiter text = some parts) :
    parts.1.length + delimiter.length + parts.2.length = text.length := by
  rw [splitFirst_eq found, List.length_append, List.length_append]

theorem splitFirst_start (delimiter rest : Bytes) :
    splitFirst delimiter (delimiter ++ rest) = some ([], rest) := by
  cases delimiter with
  | nil => cases rest <;> simp [splitFirst]
  | cons first more =>
      have starts : (first :: more).isPrefixOf (first :: (more ++ rest)) = true := by
        simp [List.isPrefixOf_iff_prefix]
      simp [splitFirst, starts]

theorem isPrefixOf_append {delimiter front back : Bytes} (long : delimiter.length ≤ front.length) :
    delimiter.isPrefixOf (front ++ back) = delimiter.isPrefixOf front := by
  rw [Bool.eq_iff_iff, List.isPrefixOf_iff_prefix, List.isPrefixOf_iff_prefix]
  constructor
  · intro starts
    exact List.prefix_of_prefix_length_le starts (List.prefix_append front back) long
  · intro starts
    exact starts.trans (List.prefix_append front back)

/-- What follows the first occurrence of a delimiter has no part in finding it. -/
theorem splitFirst_replace {delimiter text before after : Bytes}
    (found : splitFirst delimiter text = some (before, after)) (other : Bytes) :
    splitFirst delimiter (before ++ (delimiter ++ other)) = some (before, other) := by
  induction text generalizing before with
  | nil =>
      rw [splitFirst] at found
      split at found
      · cases found
        exact splitFirst_start delimiter other
      · cases found
  | cons byte rest ih =>
      rw [splitFirst] at found
      split at found
      · cases found
        exact splitFirst_start delimiter other
      · next absent =>
          obtain ⟨⟨front, back⟩, inner, same⟩ := Option.map_eq_some_iff.mp found
          cases same
          have whole : byte :: rest = (byte :: (front ++ delimiter)) ++ after := by
            rw [splitFirst_eq inner]
            simp
          have long : delimiter.length ≤ (byte :: (front ++ delimiter)).length := by
            simp only [List.length_cons, List.length_append]
            omega
          have still : delimiter.isPrefixOf (byte :: (front ++ (delimiter ++ other))) = false := by
            rw [whole, isPrefixOf_append long, Bool.not_eq_true] at absent
            rw [← List.append_assoc, ← List.cons_append, isPrefixOf_append long]
            exact absent
          rw [List.cons_append, splitFirst, still, ih inner]
          rfl

theorem splitFirst_byte {byte : UInt8} {before : Bytes} (absent : byte ∉ before) (after : Bytes) :
    splitFirst [byte] (before ++ byte :: after) = some (before, after) := by
  induction before with
  | nil => simp [splitFirst]
  | cons first rest ih =>
      rw [List.mem_cons, not_or] at absent
      have other : ¬ ([byte].isPrefixOf (first :: (rest ++ byte :: after)) = true) := by
        simp [List.isPrefixOf, absent.1]
      rw [List.cons_append, splitFirst, if_neg other, ih absent.2]
      rfl

theorem splitFirst_byte_none {byte : UInt8} {text : Bytes} (absent : byte ∉ text) :
    splitFirst [byte] text = none := by
  induction text with
  | nil => simp [splitFirst]
  | cons first rest ih =>
      rw [List.mem_cons, not_or] at absent
      have other : ¬ ([byte].isPrefixOf (first :: rest) = true) := by
        simp [List.isPrefixOf, absent.1]
      rw [splitFirst, if_neg other, ih absent.2]
      rfl

/-- Either a byte does not occur, or the text is split at its first occurrence. -/
theorem splitFirst_byte_cases (byte : UInt8) (text : Bytes) :
    (byte ∉ text ∧ splitFirst [byte] text = none) ∨
      ∃ before after, byte ∉ before ∧ text = before ++ byte :: after ∧
        splitFirst [byte] text = some (before, after) := by
  by_cases present : byte ∈ text
  · obtain ⟨before, after, same, absent⟩ := List.eq_append_cons_of_mem present
    refine .inr ⟨before, after, absent, same, ?_⟩
    rw [same, splitFirst_byte absent]
  · exact .inl ⟨present, splitFirst_byte_none present⟩

/-- The part before the first occurrence of a byte and, if there is one, the text
after it. -/
theorem splitOnP_byte_cases (byte : UInt8) (text : Bytes) :
    (byte ∉ text ∧ text.splitOnP (· == byte) = [text]) ∨
      ∃ first rest, byte ∉ first ∧ text = first ++ byte :: rest ∧
        text.splitOnP (· == byte) = first :: rest.splitOnP (· == byte) := by
  have plain {part : Bytes} (absent : byte ∉ part) : ∀ other ∈ part, (other == byte) = false := by
    intro other member
    exact beq_false_of_ne fun same => absent (same ▸ member)
  by_cases present : byte ∈ text
  · obtain ⟨first, rest, same, absent⟩ := List.eq_append_cons_of_mem present
    refine .inr ⟨first, rest, absent, same, ?_⟩
    rw [same]
    exact List.splitOnP_append_cons_of_forall_mem (plain absent) byte (beq_self_eq_true byte) rest
  · exact .inl ⟨present, List.splitOnP_eq_singleton (plain present)⟩

theorem digit_byte {digit : Char} (numeral : digit.isDigit = true) :
    isDigit digit.toNat.toUInt8 = true ∧ isSpace digit.toNat.toUInt8 = false ∧
      digit.toNat.toUInt8.toNat = digit.toNat := by
  simp only [Char.isDigit, Bool.and_eq_true, decide_eq_true_eq] at numeral
  have lower : 48 ≤ digit.toNat := UInt32.le_iff_toNat_le.mp numeral.1
  have upper : digit.toNat ≤ 57 := UInt32.le_iff_toNat_le.mp numeral.2
  generalize digit.toNat = code at lower upper
  interval_cases code <;> decide

theorem decimal_numeral (number : Nat) : Numeral (decimal number) number := by
  have digits : ∀ digit ∈ Nat.toDigits 10 number, digit.isDigit = true := fun digit member =>
    Nat.isDigit_of_mem_toDigits (by decide) (by decide) member
  refine ⟨by simp [decimal, Nat.toDigits_ne_nil], ?_, ?_⟩
  · simp only [decimal, List.all_map, List.all_eq_true]
    intro digit member
    exact (digit_byte (digits digit member)).1
  · have value : ∀ (text : List Char) (start : Nat), (∀ digit ∈ text, digit.isDigit = true) →
        (text.map (fun digit => digit.toNat.toUInt8)).foldl
          (fun value digit => value * 10 + (digit.toNat - 48)) start =
          Nat.ofDigitChars 10 text start := by
      intro text
      induction text with
      | nil => simp
      | cons digit rest ih =>
          intro start all
          simp only [List.map_cons, List.foldl_cons, Nat.ofDigitChars_cons]
          rw [ih _ (fun other member => all other (List.mem_cons_of_mem _ member)),
            (digit_byte (all digit List.mem_cons_self)).2.2, Nat.mul_comm]
          rfl
    rw [digitsValue, decimal, value _ _ digits, Nat.ofDigitChars_ten_toDigits]

theorem decimal_injective {left right : Nat} (same : decimal left = decimal right) :
    left = right := by
  rw [← (decimal_numeral left).2.2, same, (decimal_numeral right).2.2]

theorem decimal_solid (number : Nat) : ∀ byte ∈ decimal number, isSpace byte = false := by
  intro byte member
  simp only [decimal, List.mem_map] at member
  obtain ⟨digit, digits, rfl⟩ := member
  exact (digit_byte (Nat.isDigit_of_mem_toDigits (by decide) (by decide) digits)).2.1

@[simp] theorem trim_decimal (number : Nat) : trim (decimal number) = decimal number :=
  trim_eq_self (decimal_solid number)

theorem isDigit_not_isSpace {byte : UInt8} (digit : isDigit byte = true) : isSpace byte = false := by
  unfold isDigit at digit
  unfold isSpace
  grind

theorem takeWhile_isDigit {text : Bytes} (digits : text.all isDigit = true) :
    text.takeWhile isDigit = text := by
  rw [List.takeWhile_eq_self_iff]
  exact List.all_eq_true.mp digits

theorem atoi_digits {text : Bytes} (digits : text.all isDigit = true) :
    atoi text = (min (digitsValue text : Int) (2 ^ 63 - 1)).bmod (2 ^ 32) := by
  cases text with
  | nil => rfl
  | cons first rest =>
      have digit : isDigit first = true := List.all_eq_true.mp digits first List.mem_cons_self
      have kept : (first :: rest).dropWhile isSpace = first :: rest := by
        rw [List.dropWhile_cons, isDigit_not_isSpace digit]
        rfl
      have plus : first ≠ 43 := fun same => absurd (same ▸ digit) (by decide)
      have minus : first ≠ 45 := fun same => absurd (same ▸ digit) (by decide)
      unfold atoi
      simp only [kept]
      split
      · next sign same =>
          cases same
          exact absurd rfl plus
      · next sign same =>
          cases same
          exact absurd rfl minus
      · simp only [takeWhile_isDigit digits, Bool.false_eq_true, if_false]

theorem atoi_minus {text : Bytes} (digits : text.all isDigit = true) :
    atoi (45 :: text) = (max (-(digitsValue text : Int)) (-2 ^ 63)).bmod (2 ^ 32) := by
  have kept : ((45 : UInt8) :: text).dropWhile isSpace = 45 :: text := rfl
  simp only [atoi, kept, takeWhile_isDigit digits, if_true]

theorem atoi_bounds (text : Bytes) : -2 ^ 31 ≤ atoi text ∧ atoi text < 2 ^ 31 :=
  ⟨Int.le_bmod (by decide), Int.bmod_lt (by decide)⟩

/-- What is printed for an `int` is read back. -/
theorem atoi_signedDecimal {number : Int} (lower : -2 ^ 31 ≤ number) (upper : number < 2 ^ 31) :
    atoi (signedDecimal number) = number := by
  obtain ⟨_, digits, value⟩ := decimal_numeral number.natAbs
  rw [signedDecimal]
  by_cases negative : number < 0
  · have long : max (-(number.natAbs : Int)) (-2 ^ 63) = number := by omega
    rw [if_pos negative, atoi_minus digits, value, long]
    exact Int.bmod_eq_of_le (by omega) (by omega)
  · have long : min (number.natAbs : Int) (2 ^ 63 - 1) = number := by omega
    rw [if_neg negative, atoi_digits digits, value, long]
    exact Int.bmod_eq_of_le (by omega) (by omega)

end Marvin.Data
