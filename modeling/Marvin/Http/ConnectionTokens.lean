import Marvin.Data.Regex
import Marvin.Data.Runs
import Marvin.Http.HeaderSection
import Marvin.Http.KeepAlive

namespace Marvin.Http

open Marvin.Data

/-! # The tokens of a `Connection` field

The tests of `marvin/http/header_fields.cpp` as they are written, with a regular
expression that is searched for without regard to case.
-/

def sameLetter (letter byte : UInt8) : Bool :=
  upperByte byte == upperByte letter

/-- `(,|;|\s|^)` and `(,|;|\s|$)`, by the anchor. -/
def boundary (anchor : Regex UInt8) : Regex UInt8 :=
  .alt (.one (sameLetter 44)) (.alt (.one (sameLetter 59)) (.alt (.one isSpace) anchor))

/-- `(\s*)(,|;|\s|^)(\s*)word(\s*)(,|;|\s|$)`. -/
def connectionPattern (word : Bytes) : Regex UInt8 :=
  .seq (.star (.one isSpace)) <| .seq (boundary .start) <| .seq (.star (.one isSpace)) <|
    .word sameLetter word <| .seq (.star (.one isSpace)) (boundary .finish)

def isConnectionKeepAlive (value : Bytes) : Bool :=
  (connectionPattern (ascii "keep-alive")).search value

def isConnectionClose (value : Bytes) : Bool :=
  (connectionPattern (ascii "close")).search value

theorem isDelimiter_eq (byte : UInt8) :
    isDelimiter byte = (sameLetter 44 byte || sameLetter 59 byte || isSpace byte) := by
  have comma : sameLetter 44 byte = (byte == 44) := by
    unfold sameLetter upperByte
    grind
  have semicolon : sameLetter 59 byte = (byte == 59) := by
    unfold sameLetter upperByte
    grind
  rw [isDelimiter, comma, semicolon]

theorem isDelimiter_of_isSpace {byte : UInt8} (space : isSpace byte = true) :
    isDelimiter byte = true := by
  rw [isDelimiter, space, Bool.or_true]

theorem spans_boundary {anchor : Regex UInt8} {cursor reached : Cursor UInt8} :
    (boundary anchor).spans cursor reached ↔
      (∃ byte rest, cursor.rest = byte :: rest ∧ isDelimiter byte = true ∧
        reached = ⟨byte :: cursor.before, rest⟩) ∨ anchor.spans cursor reached := by
  simp only [boundary, Regex.spans, isDelimiter_eq, Bool.or_eq_true]
  constructor
  · intro given
    rcases given with ⟨byte, rest, same, comma, rfl⟩ |
      ⟨byte, rest, same, semicolon, rfl⟩ |
      ⟨byte, rest, same, space, rfl⟩ |
      anchored
    · exact .inl ⟨byte, rest, same, .inl (.inl comma), rfl⟩
    · exact .inl ⟨byte, rest, same, .inl (.inr semicolon), rfl⟩
    · exact .inl ⟨byte, rest, same, .inr space, rfl⟩
    · exact .inr anchored
  · intro given
    rcases given with ⟨byte, rest, same, (comma | semicolon) | space, rfl⟩ | anchored
    · exact .inl ⟨byte, rest, same, comma, rfl⟩
    · exact .inr (.inl ⟨byte, rest, same, semicolon, rfl⟩)
    · exact .inr (.inr (.inl ⟨byte, rest, same, space, rfl⟩))
    · exact .inr (.inr (.inr anchored))

theorem sameLetters_iff {word found : Bytes} :
    List.Forall₂ (fun letter byte => sameLetter letter byte = true) word found ↔
      toUpper found = toUpper word := by
  induction word generalizing found with
  | nil => simp [toUpper]
  | cons letter rest ih =>
      cases found with
      | nil => simp [toUpper]
      | cons byte found =>
          rw [List.forall₂_cons, ih]
          simp [sameLetter, toUpper]

/-- Where the word may begin: after a delimiter, or at the start of the text. -/
theorem edge_before {spaces : Bytes} (blank : ∀ byte ∈ spaces, isSpace byte = true)
    {left middle after : Cursor UInt8} (bounded : (boundary .start).spans left middle)
    (ahead : Regex.Ahead spaces middle after) : Edge isDelimiter after.before.head? := by
  intro byte first
  rw [ahead.2] at first
  rcases List.eq_nil_or_concat spaces with rfl | ⟨front, space, rfl⟩
  · rcases spans_boundary.mp bounded with ⟨delimiter, rest, _, delimits, rfl⟩ | ⟨empty, rfl⟩
    · obtain rfl : delimiter = byte := by simpa using first
      exact delimits
    · simp [empty] at first
  · obtain rfl : space = byte := by simpa using first
    exact isDelimiter_of_isSpace (blank space (by simp))

theorem edge_after {spaces : Bytes} (blank : ∀ byte ∈ spaces, isSpace byte = true)
    {before middle right : Cursor UInt8} (ahead : Regex.Ahead spaces before middle)
    (bounded : (boundary .finish).spans middle right) : Edge isDelimiter before.rest.head? := by
  intro byte first
  rw [ahead.1] at first
  cases spaces with
  | nil =>
      rcases spans_boundary.mp bounded with ⟨delimiter, rest, same, delimits, _⟩ | ⟨empty, _⟩
      · obtain rfl : delimiter = byte := by simpa [same] using first
        exact delimits
      · simp [empty] at first
  | cons space spaces =>
      obtain rfl : space = byte := by simpa using first
      exact isDelimiter_of_isSpace (blank space List.mem_cons_self)

/-- The rest of the pattern, from the place before the word. -/
theorem spans_word_of_edge {word found back : Bytes} (same : toUpper found = toUpper word)
    (edge : Edge isDelimiter back.head?) (before : Bytes) :
    ∃ reached, (Regex.seq (.star (.one isSpace)) (.word sameLetter word
      (.seq (.star (.one isSpace)) (boundary .finish)))).spans ⟨before, found ++ back⟩ reached := by
  have still (cursor : Cursor UInt8) : (Regex.star (.one isSpace)).spans cursor cursor :=
    Relation.ReflTransGen.refl
  have bounded : ∃ reached, (boundary .finish).spans ⟨found.reverse ++ before, back⟩ reached := by
    cases back with
    | nil => exact ⟨_, spans_boundary.mpr (.inr ⟨rfl, rfl⟩)⟩
    | cons byte rest => exact ⟨_, spans_boundary.mpr (.inl ⟨byte, rest, rfl, edge.cons, rfl⟩)⟩
  obtain ⟨reached, bounded⟩ := bounded
  refine ⟨reached, _, still _, Regex.spans_word.mpr ?_⟩
  exact ⟨found, ⟨found.reverse ++ before, back⟩, sameLetters_iff.mpr same, ⟨rfl, rfl⟩, _, still _,
    bounded⟩

theorem connectionPattern_iff (word text : Bytes) :
    (connectionPattern word).search text = true ↔
      ∃ front found back, text = front ++ found ++ back ∧ toUpper found = toUpper word ∧
        Edge isDelimiter front.getLast? ∧ Edge isDelimiter back.head? := by
  rw [Regex.search_iff]
  constructor
  · intro given
    obtain ⟨front, rest, reached, rfl, _, spaces, _, bounded, middle, blanks, spanned⟩ := given
    obtain ⟨found, after, read, ahead, _, ending, last⟩ := Regex.spans_word.mp spanned
    obtain ⟨_, near⟩ := Regex.spans_ahead spaces
    obtain ⟨_, far⟩ := Regex.spans_ahead bounded
    obtain ⟨_, blank, gap⟩ := Regex.spans_star_one.mp blanks
    obtain ⟨_, trailing, tail⟩ := Regex.spans_star_one.mp ending
    refine ⟨middle.before.reverse, found, after.rest, ?_, sameLetters_iff.mp read, ?_,
      edge_after trailing tail last⟩
    · have text := (near.trans (far.trans gap)).text
      rw [ahead.1, List.reverse_reverse] at text
      rw [List.append_assoc]
      exact text.symm
    · rw [List.getLast?_reverse]
      exact edge_before blank bounded gap
  · intro given
    obtain ⟨front, found, back, rfl, same, left, right⟩ := given
    rcases List.eq_nil_or_concat front with rfl | ⟨front, byte, rfl⟩
    · obtain ⟨reached, spanned⟩ := spans_word_of_edge same right []
      exact ⟨[], _, reached, rfl, _, .refl, _, spans_boundary.mpr (.inr ⟨rfl, rfl⟩), spanned⟩
    · have delimits : isDelimiter byte = true := left byte (by simp)
      obtain ⟨reached, spanned⟩ := spans_word_of_edge same right (byte :: front.reverse)
      refine ⟨front, byte :: (found ++ back), reached, by simp, _, .refl, _, ?_, spanned⟩
      exact spans_boundary.mpr (.inl ⟨byte, _, rfl, delimits, rfl⟩)

theorem solid_of_toUpper {word found : Bytes} (same : toUpper found = toUpper word)
    (solid : ∀ byte ∈ word, isDelimiter byte = false) :
    ∀ byte ∈ found, isDelimiter byte = false := by
  have folded (byte : UInt8) : isDelimiter (upperByte byte) = isDelimiter byte := by
    unfold isDelimiter isSpace upperByte
    grind
  intro byte member
  have upper : upperByte byte ∈ toUpper word := same ▸ List.mem_map_of_mem member
  obtain ⟨letter, inside, equal⟩ := List.mem_map.mp upper
  rw [← folded, ← equal, folded]
  exact solid letter inside

theorem search_iff_run {word : Bytes} (solid : ∀ byte ∈ word, isDelimiter byte = false)
    (text : Bytes) :
    (connectionPattern word).search text = true ↔
      ∃ run ∈ text.splitOnP isDelimiter, toUpper run = toUpper word := by
  simp only [connectionPattern_iff, mem_splitOnP_iff]
  constructor
  · intro given
    obtain ⟨front, found, back, rfl, same, left, right⟩ := given
    exact ⟨found, ⟨front, back, rfl, solid_of_toUpper same solid, left, right⟩, same⟩
  · intro given
    obtain ⟨found, ⟨front, back, rfl, _, left, right⟩, same⟩ := given
    exact ⟨front, found, back, rfl, same, left, right⟩

theorem isConnectionKeepAlive_iff (value : Bytes) :
    isConnectionKeepAlive value = true ↔
      ∃ run ∈ value.splitOnP isDelimiter, toUpper run = toUpper (ascii "keep-alive") :=
  search_iff_run (by simp [ascii, isDelimiter, isSpace]) value

theorem isConnectionClose_iff (value : Bytes) :
    isConnectionClose value = true ↔
      ∃ run ∈ value.splitOnP isDelimiter, toUpper run = toUpper (ascii "close") :=
  search_iff_run (by simp [ascii, isDelimiter, isSpace]) value

/-- A value is read as keep-alive, or as close, exactly when one of its tokens is
that word. -/
theorem connection_value_iff (value : Bytes) :
    (isConnectionKeepAlive value = true ↔
      ∃ run ∈ value.splitOnP isDelimiter, toUpper run = toUpper (ascii "keep-alive")) ∧
    (isConnectionClose value = true ↔
      ∃ run ∈ value.splitOnP isDelimiter, toUpper run = toUpper (ascii "close")) :=
  ⟨isConnectionKeepAlive_iff value, isConnectionClose_iff value⟩

/-! ## The search without the expression

`searchWord` finds the word where the expression does, so what is known of the
tokens holds of the tests on a message. -/

theorem startsWithWord_iff {word text : Bytes} :
    startsWithWord word text = true ↔
      ∃ found back, text = found ++ back ∧ toUpper found = toUpper word ∧
        Edge isDelimiter back.head? := by
  simp only [startsWithWord, Bool.and_eq_true, beq_iff_eq, Edge, Option.all_eq_true]
  constructor
  · intro given
    obtain ⟨same, edge⟩ := given
    exact ⟨_, _, (List.take_append_drop word.length text).symm, same, edge⟩
  · intro given
    obtain ⟨found, back, rfl, same, edge⟩ := given
    have length : found.length = word.length := by
      rw [← toUpper_length found, same, toUpper_length]
    rw [← length, List.take_left, List.drop_left]
    exact ⟨same, edge⟩

theorem searchWord_iff {word text : Bytes} {starts : Bool} :
    searchWord word starts text = true ↔
      ∃ front found back, text = front ++ found ++ back ∧ toUpper found = toUpper word ∧
        (front = [] → starts = true) ∧ Edge isDelimiter front.getLast? ∧
        Edge isDelimiter back.head? := by
  induction text generalizing starts with
  | nil =>
      rw [searchWord, Bool.and_eq_true, startsWithWord_iff]
      constructor
      · intro given
        obtain ⟨opened, found, back, split, same, edge⟩ := given
        exact ⟨[], found, back, split, same, fun _ => opened, nofun, edge⟩
      · intro given
        obtain ⟨front, found, back, split, same, opened, _, edge⟩ := given
        obtain ⟨rfl, _, _⟩ : front = [] ∧ found = [] ∧ back = [] := by simpa using split
        exact ⟨opened rfl, found, back, split, same, edge⟩
  | cons byte rest ih =>
      rw [searchWord, Bool.or_eq_true, Bool.and_eq_true, startsWithWord_iff, ih]
      constructor
      · intro given
        rcases given with ⟨opened, found, back, split, same, edge⟩ |
          ⟨front, found, back, rfl, same, opened, left, right⟩
        · exact ⟨[], found, back, split, same, fun _ => opened, nofun, edge⟩
        · refine ⟨byte :: front, found, back, rfl, same, nofun, ?_, right⟩
          cases front with
          | nil =>
              intro symbol same
              cases same
              exact opened rfl
          | cons next front => rwa [List.getLast?_cons_cons]
      · intro given
        obtain ⟨front, found, back, split, same, opened, left, right⟩ := given
        cases front with
        | nil => exact .inl ⟨opened rfl, found, back, split, same, right⟩
        | cons first front =>
            obtain ⟨rfl, rfl⟩ := List.cons_eq_cons.mp split
            refine .inr ⟨front, found, back, rfl, same, ?_, ?_, right⟩
            · intro same
              subst same
              exact left byte rfl
            · cases front with
              | nil => exact nofun
              | cons next front => rwa [List.getLast?_cons_cons] at left

theorem searchWord_eq_search (word text : Bytes) :
    searchWord word true text = (connectionPattern word).search text := by
  rw [Bool.eq_iff_iff, searchWord_iff, connectionPattern_iff]
  simp

theorem isKeepAliveValue_eq (value : Bytes) :
    isKeepAliveValue value = isConnectionKeepAlive value :=
  searchWord_eq_search (ascii "keep-alive") value

theorem isCloseValue_eq (value : Bytes) : isCloseValue value = isConnectionClose value :=
  searchWord_eq_search (ascii "close") value

/-! ## The decision for a message -/

namespace MessageBase

def connectionValues (message : MessageBase) : List Bytes :=
  (KeyedList.named (.ofText HeaderFields.connection) message.fields).map Entry.value

/-- Only the first `Connection` field is read, a keep-alive in it hides a close,
and the major version is not read. -/
def FirstFieldDecides (message : MessageBase) : Prop :=
  match message.connectionValues with
  | [] => message.httpMinor = 1 → message.httpMajor = 1
  | first :: later =>
      if Http.isConnectionKeepAlive first then
        ∀ value ∈ first :: later, Http.isConnectionClose value = false
      else if Http.isConnectionClose first then True
      else if message.httpMinor = 1 then
        (∀ value ∈ later, Http.isConnectionClose value = false) ∧
          (message.httpMajor = 1 ∨ ∃ value ∈ later, Http.isConnectionKeepAlive value = true)
      else
        (∃ value ∈ later, Http.isConnectionClose value = true) ∨
          ∀ value ∈ later, Http.isConnectionKeepAlive value = false

theorem isConnectionKeepAlive_eq (message : MessageBase) :
    message.isConnectionKeepAlive =
      match message.connectionValues with
      | [] => message.httpMinor == 1
      | first :: _ =>
          if Http.isConnectionKeepAlive first then true
          else if Http.isConnectionClose first then false
          else message.httpMinor == 1 := by
  rw [isConnectionKeepAlive, header_eq_lookup, KeyedList.lookup, connectionValues]
  cases KeyedList.named (.ofText HeaderFields.connection) message.fields with
  | nil => rfl
  | cons field rest => simp [isKeepAliveValue_eq, isCloseValue_eq]

/-- A message is kept alive by its tokens and its version exactly when its first
`Connection` field decides as all of them do. -/
theorem keep_alive_as_specified_iff (message : MessageBase) :
    (message.isConnectionKeepAlive = true ↔
      (∀ value ∈ message.connectionValues, ∀ run ∈ value.splitOnP isDelimiter,
        toUpper run ≠ toUpper (ascii "close")) ∧
      ((∃ value ∈ message.connectionValues, ∃ run ∈ value.splitOnP isDelimiter,
        toUpper run = toUpper (ascii "keep-alive")) ∨
        message.httpMajor = 1 ∧ message.httpMinor = 1)) ↔
    message.FirstFieldDecides := by
  have silent (value : Bytes) : (∀ run ∈ value.splitOnP isDelimiter,
      toUpper run ≠ toUpper (ascii "close")) ↔ Http.isConnectionClose value = false := by
    rw [← Bool.not_eq_true, isConnectionClose_iff]
    simp
  simp only [silent, ← isConnectionKeepAlive_iff]
  rw [isConnectionKeepAlive_eq, FirstFieldDecides]
  cases message.connectionValues with
  | nil => simp
  | cons first later =>
      simp only [List.forall_mem_cons, List.exists_mem_cons_iff]
      cases keeps : Http.isConnectionKeepAlive first with
      | true => simp
      | false =>
          cases closes : Http.isConnectionClose first with
          | true => simp
          | false =>
              by_cases minor : message.httpMinor = 1
              · simp [minor, or_comm]
              · have loud : (∃ value ∈ later, Http.isConnectionClose value = true) ↔
                    ¬ ∀ value ∈ later, Http.isConnectionClose value = false := by simp
                rw [loud, ← imp_iff_not_or]
                simp [minor]

def twoConnectionLines : List HeaderLine :=
  [.whole (ascii "Connection") (ascii "te") (by decide),
    .whole (ascii "Connection") (ascii "close") (by decide),
    .whole (ascii "Host") (ascii "h.x") (by decide)]

/-- A close in the second `Connection` field of a parsed request is not seen. -/
theorem second_connection_field_unread :
    ∃ context, (ParserContext.pInitialize .new).handle
        (headEvents (.request [ascii "/"]) twoConnectionLines (.other 1) 1 1) = .ok context ∧
      ¬ (context.message.isConnectionKeepAlive = true ↔
        (∀ value ∈ context.message.connectionValues, ∀ run ∈ value.splitOnP isDelimiter,
          toUpper run ≠ toUpper (ascii "close")) ∧
        ((∃ value ∈ context.message.connectionValues, ∃ run ∈ value.splitOnP isDelimiter,
          toUpper run = toUpper (ascii "keep-alive")) ∨
          context.message.httpMajor = 1 ∧ context.message.httpMinor = 1)) :=
  ⟨_, rfl, by decide⟩

end MessageBase

end Marvin.Http
