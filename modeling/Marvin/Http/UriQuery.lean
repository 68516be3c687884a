import Mathlib.Data.Finmap
import Marvin.Data.Bytes
import Marvin.Data.RegexMatches

namespace Marvin.Http

open Marvin.Data

/-! # Query strings

`marvin/http/uri_query.cpp`.  The pairs of a query are the matches of
`([\w+%]+)=([^&]*)`, each put into a `std::map`.
-/

def isLetter (byte : UInt8) : Bool :=
  (65 ≤ byte && byte ≤ 90) || (97 ≤ byte && byte ≤ 122)

/-- `[\w+%]`, with `\w` as in the classic locale. -/
def isKeyByte (byte : UInt8) : Bool :=
  isLetter byte || isDigit byte || byte == 95 || byte == 43 || byte == 37

def ampersand : UInt8 := 38

def equals : UInt8 := 61

structure UriQuery where
  queryString : Bytes
  keyValues : Finmap fun _ : Bytes => Bytes
deriving DecidableEq

namespace UriQuery

/-- The first and the third part are the groups. -/
def pattern : List (Regex UInt8) :=
  [.plus (.one isKeyByte), .one (· == equals), .star (.one (· != ampersand))]

def pairOf (found : Match UInt8) : Bytes × Bytes :=
  (found.texts[0]?.getD [], found.texts[2]?.getD [])

def parse (query : UriQuery) (text : Bytes) : UriQuery :=
  { query with
    keyValues := (Regex.allMatches pattern text).foldl (fun keyValues found =>
      keyValues.insert (pairOf found).1 (pairOf found).2) query.keyValues }

def new (text : Bytes) : UriQuery :=
  parse ⟨text, ∅⟩ text

/-! ## What matches at a place -/

theorem equals_not_key : isKeyByte equals = false := by decide

theorem ampersand_not_mem {key : Bytes} (letters : ∀ byte ∈ key, isKeyByte byte = true) :
    ampersand ∉ key := by
  intro member
  exact absurd (letters ampersand member) (by decide)

theorem takeWhile_key {key : Bytes} (letters : ∀ byte ∈ key, isKeyByte byte = true) (rest : Bytes) :
    (key ++ equals :: rest).takeWhile isKeyByte = key := by
  rw [List.takeWhile_append_of_pos letters]
  simp [equals_not_key]

/-- The end of a segment is the end of the text or an ampersand. -/
def Ends (tail : Bytes) : Prop :=
  tail = [] ∨ ∃ rest, tail = ampersand :: rest

theorem takeWhile_segment {segment : Bytes} (absent : ampersand ∉ segment) (rest : Bytes) :
    (segment ++ rest).takeWhile (· != ampersand) =
      segment ++ rest.takeWhile (· != ampersand) ∧
    (segment ++ rest).dropWhile (· != ampersand) = rest.dropWhile (· != ampersand) := by
  have plain : ∀ byte ∈ segment, (byte != ampersand) = true := by
    intro byte member
    exact bne_iff_ne.mpr fun same => absent (same ▸ member)
  exact ⟨List.takeWhile_append_of_pos plain, List.dropWhile_append_of_pos plain⟩

theorem Ends.stops {tail : Bytes} (ends : Ends tail) :
    tail.takeWhile (· != ampersand) = [] ∧ tail.dropWhile (· != ampersand) = tail := by
  rcases ends with rfl | ⟨rest, rfl⟩
  · exact ⟨rfl, rfl⟩
  · simp

theorem partsFrom_value (before text : Bytes) :
    Regex.partsFrom (fun _ => true) [.star (.one (· != ampersand))] ⟨before, text⟩ =
      some ([text.takeWhile (· != ampersand)],
        Regex.pastRun (· != ampersand) ⟨before, text⟩) := by
  apply Regex.star_one_greedy
  rw [Regex.partsFrom, if_pos rfl, Option.map_some, Regex.between_pastRun]

/-- The parts behind the key. -/
theorem partsFrom_equals (before text : Bytes) :
    Regex.partsFrom (fun _ => true) pattern.tail ⟨before, equals :: text⟩ =
      some ([[equals], text.takeWhile (· != ampersand)],
        Regex.pastRun (· != ampersand) ⟨equals :: before, text⟩) := by
  have sign : Regex.between ⟨before, equals :: text⟩ ⟨equals :: before, text⟩ = [equals] :=
    Regex.between_append before (equals :: before) [equals] text
  rw [pattern, List.tail_cons, Regex.partsFrom, Regex.firstFrom]
  simp [partsFrom_value, sign]

theorem partsFrom_not_equals {text : Bytes} (other : text.head? ≠ some equals) (before : Bytes) :
    Regex.partsFrom (fun _ => true) pattern.tail ⟨before, text⟩ = none := by
  cases text with
  | nil => rfl
  | cons byte rest =>
      rw [pattern, List.tail_cons, Regex.partsFrom, Regex.firstFrom]
      simp at other
      simp [other]

theorem partsFrom_key {byte : UInt8} (letter : isKeyByte byte = true) (before rest : Bytes) :
    Regex.partsFrom (fun _ => true) pattern ⟨before, byte :: rest⟩ =
      (Regex.partsFrom (fun _ => true) pattern.tail
        (Regex.pastRun isKeyByte ⟨before, byte :: rest⟩)).map fun (texts, last) =>
          ((byte :: rest).takeWhile isKeyByte :: texts, last) := by
  have stuck (passed : Bytes) (symbol : UInt8) (others : Bytes) (key : isKeyByte symbol = true) :
      Regex.partsFrom (fun _ => true) pattern.tail ⟨passed, symbol :: others⟩ = none := by
    apply partsFrom_not_equals
    intro same
    rw [Option.some.inj same, equals_not_key] at key
    cases key
  have whole := Regex.between_pastRun isKeyByte ⟨before, byte :: rest⟩
  rw [pattern, Regex.partsFrom, Regex.plus, Regex.firstFrom, Regex.firstFrom]
  simp only [letter, if_true]
  rw [Regex.star_one_blocked, ← Regex.pastRun_cons letter, whole]
  · rfl
  · intro passed symbol others key
    exact Option.map_eq_none_iff.mpr (stuck passed symbol others key)

/-- A key is followed by an equals sign and a value that goes on to the next ampersand. -/
theorem matchAt_pair {key value tail : Bytes} (some : key ≠ [])
    (letters : ∀ byte ∈ key, isKeyByte byte = true) (absent : ampersand ∉ value)
    (ends : Ends tail) (before : Bytes) :
    ∃ found, Regex.matchAt (fun _ => true) pattern ⟨before, key ++ equals :: (value ++ tail)⟩ =
        .some found ∧ pairOf found = (key, value) ∧ found.finish.rest = tail ∧
      found.start.rest = key ++ equals :: (value ++ tail) := by
  obtain ⟨first, others, rfl⟩ := List.exists_cons_of_ne_nil some
  have taken := takeWhile_key letters (value ++ tail)
  have left : (first :: others ++ equals :: (value ++ tail)).dropWhile isKeyByte =
      equals :: (value ++ tail) := by
    rw [List.dropWhile_append_of_pos letters]
    simp [equals_not_key]
  obtain ⟨inside, behind⟩ := takeWhile_segment absent tail
  rw [ends.stops.1, List.append_nil] at inside
  rw [ends.stops.2] at behind
  have parts := partsFrom_key (letters first List.mem_cons_self) before
    (others ++ equals :: (value ++ tail))
  rw [← List.cons_append, taken, Regex.pastRun, left, partsFrom_equals, inside,
    Option.map_some] at parts
  exact ⟨_, by rw [Regex.matchAt, parts, Option.map_some], rfl, behind, rfl⟩

/-- Where the expression matches there are a key and an equals sign. -/
theorem matchAt_none {text : Bytes}
    (none : ∀ key rest, text = key ++ equals :: rest → key ≠ [] →
      ¬ ∀ byte ∈ key, isKeyByte byte = true) (before : Bytes) :
    Regex.matchAt (fun _ => true) pattern ⟨before, text⟩ = .none := by
  rw [Regex.matchAt, Option.map_eq_none_iff, ← Option.not_isSome_iff_eq_none, pattern,
    Regex.partsFrom, Regex.firstFrom_isSome, Regex.matchFrom_iff]
  intro found
  obtain ⟨⟨passed, remaining⟩, ⟨_, ⟨first, _, same, letter, rfl⟩, run⟩, accepted⟩ := found
  obtain ⟨others, letters, ahead⟩ := Regex.spans_star_one.mp run
  rw [Option.isSome_map] at accepted
  by_cases starts : remaining.head? = some equals
  · obtain ⟨rest, behind⟩ := List.head?_eq_some_iff.mp starts
    apply none (first :: others) rest
    · rw [List.cons_append, ← behind, ← ahead.1]
      exact same
    · exact List.cons_ne_nil first others
    · exact List.forall_mem_cons.mpr ⟨letter, letters⟩
  · have refused := partsFrom_not_equals starts passed
    rw [pattern, List.tail_cons] at refused
    rw [refused] at accepted
    cases accepted

/-! ## The pairs of the segments -/

/-- An equals sign with a key byte right before it. -/
def marks (segment : Bytes) (position : Nat) : Bool :=
  segment[position]? == some equals && (segment.take position).getLast?.any isKeyByte

/-- The longest run of key bytes before the first mark, and the rest of the segment. -/
def segmentPair (segment : Bytes) : Option (Bytes × Bytes) :=
  ((List.range segment.length).find? (marks segment)).map fun position =>
    ((segment.take position).rtakeWhile isKeyByte, segment.drop (position + 1))

/-- A key and an equals sign in a text, with what is before and behind them. -/
structure Assigns (text front key rest : Bytes) : Prop where
  parts : text = front ++ (key ++ equals :: rest)
  filled : key ≠ []
  letters : ∀ byte ∈ key, isKeyByte byte = true

variable {segment tail front key rest value passed run others : Bytes}

theorem Assigns.marked (assigns : Assigns segment front key rest) :
    marks segment (front.length + key.length) = true ∧ front.length + key.length < segment.length := by
  obtain ⟨rfl, filled, letters⟩ := assigns
  have taken : (front ++ (key ++ equals :: rest)).take (front.length + key.length) = front ++ key := by
    rw [← List.append_assoc, ← List.length_append, List.take_left]
  have here : (front ++ (key ++ equals :: rest))[front.length + key.length]? = some equals := by
    rw [← List.append_assoc, ← List.length_append, List.getElem?_append_right (Nat.le_refl _)]
    simp
  constructor
  · rw [marks, taken, here, List.getLast?_append_of_ne_nil _ filled,
      List.getLast?_eq_some_getLast filled]
    simp [letters _ (List.getLast_mem filled)]
  · simp

theorem Assigns.letter (assigns : Assigns segment front key rest) {position : Nat}
    (behind : front.length ≤ position) (before : position < front.length + key.length) :
    ∃ byte, segment[position]? = some byte ∧ isKeyByte byte = true := by
  obtain ⟨rfl, _, letters⟩ := assigns
  have short : position - front.length < key.length := by omega
  refine ⟨key[position - front.length], ?_, letters _ (List.getElem_mem short)⟩
  rw [List.getElem?_append_right behind, List.getElem?_append_left short,
    List.getElem?_eq_getElem short]

/-- No key starts before the longest one of the first mark. -/
theorem Assigns.leftmost (assigns : Assigns segment front key rest)
    (first : ∀ earlier < front.length + key.length, marks segment earlier = false)
    (longest : ∀ filled : front ≠ [], isKeyByte (front.getLast filled) = false)
    (other : Assigns segment passed run others) : front.length ≤ passed.length := by
  by_contra early
  have reached : front.length + key.length ≤ passed.length + run.length := by
    by_contra short
    have unmarked := first _ (Nat.lt_of_not_le short)
    rw [other.marked.1] at unmarked
    cases unmarked
  have filled : front ≠ [] := by
    intro none
    rw [none] at early
    exact early (Nat.zero_le _)
  have last : segment[front.length - 1]? = some (front.getLast filled) := by
    have inside : front.length - 1 < front.length := by omega
    rw [assigns.parts, List.getElem?_append_left inside, ← List.getLast?_eq_getElem?,
      List.getLast?_eq_some_getLast filled]
  obtain ⟨byte, here, isKey⟩ :=
    other.letter (show passed.length ≤ front.length - 1 by omega) (by omega)
  obtain rfl := Option.some.inj (last.symm.trans here)
  rw [longest filled] at isKey
  cases isKey

theorem Assigns.unique (assigns : Assigns segment [] key rest)
    (other : Assigns segment [] run others) : (key, rest) = (run, others) := by
  have same : key ++ equals :: rest = run ++ equals :: others := assigns.parts.symm.trans other.parts
  have keys : key = run := by
    rw [← takeWhile_key assigns.letters rest, same, takeWhile_key other.letters]
  rw [keys, List.append_cancel_left_eq, List.cons.injEq] at same
  rw [keys, same.2]

theorem segmentPair_none (none : segmentPair segment = none) : ¬ Assigns segment front key rest := by
  intro assigns
  obtain ⟨marked, inside⟩ := assigns.marked
  rw [segmentPair, Option.map_eq_none_iff, List.find?_range_eq_none] at none
  have unmarked := none _ inside
  rw [marked] at unmarked
  cases unmarked

theorem segmentPair_some (found : segmentPair segment = some (key, value)) :
    ∃ front, Assigns segment front key value ∧
      ∀ passed run rest, Assigns segment passed run rest → front.length ≤ passed.length := by
  rw [segmentPair, Option.map_eq_some_iff] at found
  obtain ⟨position, first, pair⟩ := found
  obtain ⟨rfl, rfl⟩ := Prod.mk.inj pair
  rw [List.find?_range_eq_some] at first
  obtain ⟨marked, inside, earlier⟩ := first
  rw [List.mem_range] at inside
  rw [marks, Bool.and_eq_true, beq_iff_eq, List.getElem?_eq_getElem inside] at marked
  obtain ⟨sign, letter⟩ := marked
  have cut := @List.rdropWhile_append_rtakeWhile _ isKeyByte (segment.take position)
  have assigns : Assigns segment ((segment.take position).rdropWhile isKeyByte)
      ((segment.take position).rtakeWhile isKeyByte) (segment.drop (position + 1)) := by
    refine ⟨?_, ?_, fun byte member => List.mem_rtakeWhile_imp member⟩
    · rw [← List.append_assoc, cut, ← Option.some.inj sign, ← List.drop_eq_getElem_cons inside,
        List.take_append_drop]
    · rw [Ne, List.rtakeWhile_eq_nil_iff]
      intro none
      by_cases empty : segment.take position = []
      · simp [empty] at letter
      · rw [List.getLast?_eq_some_getLast empty] at letter
        exact none empty letter
  have lengths := congrArg List.length cut
  rw [List.length_append, List.length_take, Nat.min_eq_left (Nat.le_of_lt inside)] at lengths
  refine ⟨_, assigns, fun passed run rest other => assigns.leftmost ?_ ?_ other⟩
  · intro sooner before
    rw [lengths] at before
    simpa using earlier sooner before
  · intro filled
    exact Bool.eq_false_iff.mpr (List.rdropWhile_last_not isKeyByte _ filled)

/-! ## The matches in a query -/

/-- A place in a segment from which no key runs up to an equals sign. -/
theorem matchAt_none_of_segment (absent : ampersand ∉ segment) (ends : Ends tail)
    (none : ∀ key rest, ¬ Assigns segment [] key rest) (before : Bytes) :
    Regex.matchAt (fun _ => true) pattern ⟨before, segment ++ tail⟩ = .none := by
  apply matchAt_none
  intro key rest parts filled letters
  have inside := (takeWhile_segment absent tail).1
  rw [ends.stops.1, List.append_nil, parts, (takeWhile_segment (ampersand_not_mem letters) _).1,
    List.takeWhile_cons_of_pos (by decide)] at inside
  exact none key _ ⟨inside.symm, filled, letters⟩

/-- The search passes over the front of a segment if no key starts there. -/
theorem firstMatch_front {remaining : Bytes} (absent : ampersand ∉ front ++ remaining)
    (ends : Ends tail)
    (none : ∀ passed key rest, Assigns (front ++ remaining) passed key rest →
      front.length ≤ passed.length) (before : Bytes) :
    Regex.firstMatch pattern before (front ++ (remaining ++ tail)) =
      Regex.firstMatch pattern (front.reverse ++ before) (remaining ++ tail) := by
  apply Regex.firstMatch_append
  intro passed byte others parts
  subst parts
  rw [← List.cons_append, ← List.append_assoc]
  rw [List.append_assoc] at absent none
  refine matchAt_none_of_segment (fun member => absent (List.mem_append_right _ member)) ends ?_ _
  intro key rest assigns
  have early := none passed key rest ⟨by rw [assigns.parts, List.nil_append], assigns.filled,
    assigns.letters⟩
  simp at early

theorem firstMatch_none (absent : ampersand ∉ segment) (ends : Ends tail)
    (none : segmentPair segment = none) (before : Bytes) :
    Regex.firstMatch pattern before (segment ++ tail) =
      Regex.firstMatch pattern (segment.reverse ++ before) tail := by
  rw [← List.append_nil segment] at absent none
  exact firstMatch_front absent ends
    (fun _ _ _ assigns => absurd assigns (segmentPair_none none)) before

theorem firstMatch_some (absent : ampersand ∉ segment) (ends : Ends tail)
    (pair : segmentPair segment = some (key, value)) (before : Bytes) :
    ∃ found, Regex.firstMatch pattern before (segment ++ tail) = some found ∧
      pairOf found = (key, value) ∧ found.finish.rest = tail ∧
      found.finish.rest.length < found.start.rest.length := by
  obtain ⟨front, ⟨parts, filled, letters⟩, leftmost⟩ := segmentPair_some pair
  subst parts
  have valueless : ampersand ∉ value := by
    intro member
    apply absent
    simp [member]
  obtain ⟨found, matched, taken, finish, start⟩ :=
    matchAt_pair filled letters valueless ends (front.reverse ++ before)
  refine ⟨found, ?_, taken, finish, ?_⟩
  · rw [List.append_assoc, firstMatch_front absent ends leftmost, List.append_assoc,
      List.cons_append]
    exact Regex.firstMatch_of_matchAt matched
  · rw [finish, start]
    simp only [List.length_append, List.length_cons]
    omega

theorem firstMatch_ampersand (before rest : Bytes) :
    Regex.firstMatch pattern before (ampersand :: rest) =
      Regex.firstMatch pattern (ampersand :: before) rest := by
  rw [Regex.firstMatch, matchAt_none, Option.none_or]
  intro key tail parts filled letters
  obtain ⟨first, others, rfl⟩ := List.exists_cons_of_ne_nil filled
  obtain ⟨rfl, _⟩ := List.cons.inj parts
  exact ampersand_not_mem letters List.mem_cons_self

/-- The matches from the start of a segment are its pair, if it has one, and those
from its end. -/
theorem matchesFrom_segment (absent : ampersand ∉ segment) (ends : Ends tail) (before : Bytes)
    (fuel : Nat) :
    ∃ after later, fuel ≤ later ∧
      (Regex.matchesFrom pattern (fuel + 1)
          (Regex.firstMatch pattern before (segment ++ tail))).map pairOf =
        (segmentPair segment).toList ++
          (Regex.matchesFrom pattern later (Regex.firstMatch pattern after tail)).map pairOf := by
  cases pair : segmentPair segment with
  | none =>
      refine ⟨segment.reverse ++ before, fuel + 1, Nat.le_succ fuel, ?_⟩
      rw [firstMatch_none absent ends pair]
      rfl
  | some keyed =>
      obtain ⟨key, value⟩ := keyed
      obtain ⟨found, matched, taken, finish, consumed⟩ := firstMatch_some absent ends pair before
      refine ⟨found.finish.before, fuel, Nat.le_refl fuel, ?_⟩
      rw [matched, Regex.matchesFrom, Regex.nextMatch_of_lt consumed, finish, List.map_cons, taken]
      rfl

/-- The matches are the pairs of the segments, in their order. -/
theorem matchesFrom_pairs {fuel : Nat} {text : Bytes} (enough : text.length < fuel) (before : Bytes) :
    (Regex.matchesFrom pattern fuel (Regex.firstMatch pattern before text)).map pairOf =
      (text.splitOnP (· == ampersand)).filterMap segmentPair := by
  induction size : text.length using Nat.strong_induction_on generalizing text fuel before with
  | _ size ih =>
      subst size
      obtain ⟨fuel, rfl⟩ := Nat.exists_eq_add_one_of_ne_zero (Nat.ne_zero_of_lt enough)
      rcases splitOnP_byte_cases ampersand text with
        ⟨absent, split⟩ | ⟨segment, rest, absent, rfl, split⟩
      · obtain ⟨after, later, _, found⟩ := matchesFrom_segment absent (.inl rfl) before fuel
        rw [List.append_nil] at found
        rw [found, split, List.filterMap_cons, List.filterMap_nil]
        have ended : Regex.firstMatch pattern after [] = none := rfl
        rw [ended, Regex.matchesFrom_none, List.map_nil, List.append_nil]
        cases segmentPair text <;> rfl
      · obtain ⟨after, later, left, found⟩ :=
          matchesFrom_segment absent (.inr ⟨rest, rfl⟩) before fuel
        rw [List.length_append, List.length_cons] at enough
        have shorter : rest.length < (segment ++ ampersand :: rest).length := by
          rw [List.length_append, List.length_cons]
          omega
        rw [found, split, firstMatch_ampersand, ih rest.length shorter (by omega) _ rfl,
          List.filterMap_cons]
        cases segmentPair segment <;> rfl

theorem allMatches_pairs (text : Bytes) :
    (Regex.allMatches pattern text).map pairOf =
      (text.splitOnP (· == ampersand)).filterMap segmentPair :=
  matchesFrom_pairs (show text.length < 2 * (text.length + 1) by omega) []

/-! ## The map -/

theorem lookup_insertAll (pairs : List (Bytes × Bytes)) (key : Bytes) :
    (pairs.foldl (fun keyValues pair => keyValues.insert pair.1 pair.2)
      (∅ : Finmap fun _ : Bytes => Bytes)).lookup key = pairs.reverse.lookup key := by
  induction pairs using List.reverseRecOn with
  | nil => rfl
  | append_singleton pairs pair ih =>
      rw [List.foldl_append, List.reverse_append, List.reverse_singleton, List.singleton_append,
        List.foldl_cons, List.foldl_nil]
      by_cases same : key = pair.1
      · rw [same, Finmap.lookup_insert, List.lookup_cons_self]
      · rw [Finmap.lookup_insert_of_ne _ same, ih, List.lookup_cons, beq_false_of_ne same]

theorem lookup_new (text key : Bytes) :
    (new text).keyValues.lookup key =
      ((text.splitOnP (· == ampersand)).filterMap segmentPair).reverse.lookup key := by
  rw [← allMatches_pairs, ← lookup_insertAll, List.foldl_map]
  rfl

/-- The text of a list of pairs. -/
def joined (pairs : List (Bytes × Bytes)) : Bytes :=
  [ampersand].intercalate (pairs.map fun pair => pair.1 ++ equals :: pair.2)

/-- A pair that is read back from its text. -/
structure Plain (pair : Bytes × Bytes) : Prop where
  filled : pair.1 ≠ []
  letters : ∀ byte ∈ pair.1, isKeyByte byte = true
  value : ampersand ∉ pair.2

theorem segmentPair_plain {pair : Bytes × Bytes} (plain : Plain pair) :
    segmentPair (pair.1 ++ equals :: pair.2) = some pair := by
  have assigns : Assigns (pair.1 ++ equals :: pair.2) [] pair.1 pair.2 :=
    ⟨rfl, plain.filled, plain.letters⟩
  cases found : segmentPair (pair.1 ++ equals :: pair.2) with
  | none => exact absurd assigns (segmentPair_none found)
  | some other =>
      obtain ⟨key, value⟩ := other
      obtain ⟨front, first, leftmost⟩ := segmentPair_some found
      obtain rfl : front = [] := List.length_eq_zero_iff.mp (Nat.le_zero.mp (leftmost _ _ _ assigns))
      rw [first.unique assigns]

theorem segments_joined {pairs : List (Bytes × Bytes)} (plain : ∀ pair ∈ pairs, Plain pair) :
    ((joined pairs).splitOnP (· == ampersand)).filterMap segmentPair = pairs := by
  have apart : ∀ segment ∈ pairs.map (fun pair => pair.1 ++ equals :: pair.2),
      ampersand ∉ segment := by
    intro segment member
    obtain ⟨pair, listed, rfl⟩ := List.mem_map.mp member
    simp only [List.mem_append, List.mem_cons, not_or]
    exact ⟨ampersand_not_mem (plain pair listed).letters, by decide, (plain pair listed).value⟩
  cases pairs with
  | nil => rfl
  | cons first others =>
      rw [joined, ← List.splitOn_eq_splitOnP, List.splitOn_intercalate _ apart (by simp),
        List.filterMap_map]
      conv_rhs => rw [← List.filterMap_some (l := first :: others)]
      apply List.filterMap_congr
      intro pair listed
      exact segmentPair_plain (plain pair listed)

/-- A query is read as the pairs of its segments, of which the last one with a key
counts, and a text of pairs as these pairs. -/
theorem key_values_of_segments (text : Bytes) :
    (∀ key, (new text).keyValues.lookup key =
      ((text.splitOnP (· == ampersand)).filterMap segmentPair).reverse.lookup key) ∧
    ∀ pairs : List (Bytes × Bytes), (∀ pair ∈ pairs, Plain pair) →
      ∀ key, (new (joined pairs)).keyValues.lookup key = pairs.reverse.lookup key := by
  refine ⟨lookup_new text, fun pairs plain key => ?_⟩
  rw [lookup_new, segments_joined plain]

def repeatedKey : List (Bytes × Bytes) :=
  [(ascii "a", ascii "1"), (ascii "b+%", ascii "x=y"), (ascii "a", ascii "2")]

theorem repeated_key_overridden :
    joined repeatedKey = ascii "a=1&b+%=x=y&a=2" ∧
      (new (joined repeatedKey)).keyValues.lookup (ascii "a") = some (ascii "2") := by
  have plain : ∀ pair ∈ repeatedKey, Plain pair := by
    intro pair listed
    simp only [repeatedKey, List.mem_cons, List.not_mem_nil, or_false] at listed
    rcases listed with rfl | rfl | rfl
    · exact ⟨by decide, List.all_eq_true.mp (by decide), by decide⟩
    · exact ⟨by decide, List.all_eq_true.mp (by decide), by decide⟩
    · exact ⟨by decide, List.all_eq_true.mp (by decide), by decide⟩
  exact ⟨by decide, (key_values_of_segments []).2 repeatedKey plain (ascii "a")⟩

end UriQuery

end Marvin.Http
