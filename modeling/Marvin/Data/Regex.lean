import Mathlib.Data.List.Forall2
import Mathlib.Logic.Relation

namespace Marvin.Data

/-! Regular expressions with anchors, as ECMAScript matches them.

A cursor is a place in a text: the symbols before it, nearest first, and the
symbols after it.  `spans` says between which places an expression matches.
`matchFrom` is the matcher of the standard, which hands the place it has reached
to a continuation; a round of a repetition that consumes nothing is given up.
-/

inductive Regex (α : Type u) where
  | start
  | finish
  | one (accepts : α → Bool)
  | seq (first second : Regex α)
  | alt (first second : Regex α)
  | star (body : Regex α)

structure Cursor (α : Type u) where
  before : List α
  rest : List α
deriving DecidableEq, Repr

namespace Regex

variable {α : Type u}

def iterate (round : Cursor α → (Cursor α → Bool) → Bool) :
    Nat → Cursor α → (Cursor α → Bool) → Bool
  | 0, cursor, next => next cursor
  | fuel + 1, cursor, next =>
      round cursor (fun reached =>
        reached.rest.length < cursor.rest.length && iterate round fuel reached next) ||
      next cursor

def matchFrom : Regex α → Cursor α → (Cursor α → Bool) → Bool
  | .start, cursor, next => cursor.before.isEmpty && next cursor
  | .finish, cursor, next => cursor.rest.isEmpty && next cursor
  | .one accepts, ⟨before, rest⟩, next =>
      match rest with
      | [] => false
      | symbol :: rest => accepts symbol && next ⟨symbol :: before, rest⟩
  | .seq first second, cursor, next =>
      first.matchFrom cursor (fun reached => second.matchFrom reached next)
  | .alt first second, cursor, next => first.matchFrom cursor next || second.matchFrom cursor next
  | .star body, cursor, next => iterate body.matchFrom cursor.rest.length cursor next

def searchFrom (regex : Regex α) (before : List α) : List α → Bool
  | [] => regex.matchFrom ⟨before, []⟩ (fun _ => true)
  | symbol :: rest =>
      regex.matchFrom ⟨before, symbol :: rest⟩ (fun _ => true) ||
        regex.searchFrom (symbol :: before) rest

/-- The expression matches somewhere in the text. -/
def search (regex : Regex α) (text : List α) : Bool :=
  regex.searchFrom [] text

/-- The expression matches the text as a whole. -/
def matchWhole (regex : Regex α) (text : List α) : Bool :=
  regex.matchFrom ⟨[], text⟩ (fun reached => reached.rest.isEmpty)

def spans : Regex α → Cursor α → Cursor α → Prop
  | .start, cursor, reached => cursor.before = [] ∧ reached = cursor
  | .finish, cursor, reached => cursor.rest = [] ∧ reached = cursor
  | .one accepts, cursor, reached =>
      ∃ symbol rest, cursor.rest = symbol :: rest ∧ accepts symbol = true ∧
        reached = ⟨symbol :: cursor.before, rest⟩
  | .seq first second, cursor, reached =>
      ∃ middle, first.spans cursor middle ∧ second.spans middle reached
  | .alt first second, cursor, reached => first.spans cursor reached ∨ second.spans cursor reached
  | .star body, cursor, reached => Relation.ReflTransGen body.spans cursor reached

/-- The second cursor is further on by the given symbols. -/
def Ahead (symbols : List α) (cursor reached : Cursor α) : Prop :=
  cursor.rest = symbols ++ reached.rest ∧ reached.before = symbols.reverse ++ cursor.before

theorem Ahead.refl (cursor : Cursor α) : Ahead [] cursor cursor := ⟨rfl, rfl⟩

theorem Ahead.trans {left right : List α} {first second third : Cursor α}
    (start : Ahead left first second) (onward : Ahead right second third) :
    Ahead (left ++ right) first third := by
  refine ⟨?_, ?_⟩
  · rw [start.1, onward.1, List.append_assoc]
  · rw [onward.2, start.2, List.reverse_append, List.append_assoc]

theorem Ahead.text {symbols : List α} {cursor reached : Cursor α}
    (ahead : Ahead symbols cursor reached) :
    reached.before.reverse ++ reached.rest = cursor.before.reverse ++ cursor.rest := by
  rw [ahead.1, ahead.2]
  simp

theorem Ahead.eq_of_length {symbols : List α} {cursor reached : Cursor α}
    (ahead : Ahead symbols cursor reached) (still : cursor.rest.length ≤ reached.rest.length) :
    reached = cursor := by
  have length := congrArg List.length ahead.1
  rw [List.length_append] at length
  have empty : symbols = [] := List.eq_nil_of_length_eq_zero (by omega)
  subst empty
  obtain ⟨before, rest⟩ := cursor
  obtain ⟨before', rest'⟩ := reached
  obtain ⟨same, equal⟩ := ahead
  simp only [List.nil_append, List.reverse_nil] at same equal
  rw [same, equal]

theorem spans_ahead {regex : Regex α} {cursor reached : Cursor α}
    (spanned : regex.spans cursor reached) : ∃ symbols, Ahead symbols cursor reached := by
  induction regex generalizing cursor reached with
  | start | finish =>
      obtain ⟨_, rfl⟩ := spanned
      exact ⟨[], .refl reached⟩
  | one accepts =>
      obtain ⟨symbol, rest, same, _, rfl⟩ := spanned
      exact ⟨[symbol], same, rfl⟩
  | seq first second firstIH secondIH =>
      obtain ⟨middle, start, onward⟩ := spanned
      obtain ⟨left, near⟩ := firstIH start
      obtain ⟨right, far⟩ := secondIH onward
      exact ⟨left ++ right, near.trans far⟩
  | alt first second firstIH secondIH =>
      rcases spanned with left | right
      · exact firstIH left
      · exact secondIH right
  | star body ih =>
      induction spanned with
      | refl => exact ⟨[], .refl cursor⟩
      | tail _ last before =>
          obtain ⟨left, near⟩ := before
          obtain ⟨right, far⟩ := ih last
          exact ⟨left ++ right, near.trans far⟩

/-! ## The matcher -/

section Rounds

variable {steps : Cursor α → Cursor α → Prop}
  (onward : ∀ {cursor reached}, steps cursor reached → ∃ symbols, Ahead symbols cursor reached)

include onward

/-- Rounds that consume nothing can be left out. -/
theorem rounds_cases {cursor reached : Cursor α}
    (path : Relation.ReflTransGen steps cursor reached) :
    reached = cursor ∨ ∃ middle, steps cursor middle ∧
      middle.rest.length < cursor.rest.length ∧ Relation.ReflTransGen steps middle reached := by
  induction path using Relation.ReflTransGen.head_induction_on with
  | refl => exact .inl rfl
  | @head first second step path ih =>
      by_cases consumed : second.rest.length < first.rest.length
      · exact .inr ⟨second, step, consumed, path⟩
      · obtain ⟨symbols, ahead⟩ := onward step
        rw [ahead.eq_of_length (Nat.le_of_not_lt consumed)] at ih
        exact ih

theorem iterate_iff {round : Cursor α → (Cursor α → Bool) → Bool}
    (rounds : ∀ cursor next, round cursor next = true ↔
      ∃ reached, steps cursor reached ∧ next reached = true)
    {fuel : Nat} {cursor : Cursor α} (enough : cursor.rest.length ≤ fuel)
    (next : Cursor α → Bool) :
    iterate round fuel cursor next = true ↔
      ∃ reached, Relation.ReflTransGen steps cursor reached ∧ next reached = true := by
  induction fuel generalizing cursor with
  | zero =>
      rw [iterate]
      constructor
      · intro found
        exact ⟨cursor, .refl, found⟩
      · intro given
        obtain ⟨reached, path, found⟩ := given
        rcases rounds_cases onward path with rfl | ⟨middle, _, consumed, _⟩
        · exact found
        · omega
  | succ fuel ih =>
      rw [iterate, Bool.or_eq_true, rounds]
      constructor
      · intro given
        rcases given with ⟨middle, step, found⟩ | found
        · rw [Bool.and_eq_true, decide_eq_true_eq] at found
          obtain ⟨reached, path, last⟩ := (ih (by omega)).mp found.2
          exact ⟨reached, .head step path, last⟩
        · exact ⟨cursor, .refl, found⟩
      · intro given
        obtain ⟨reached, path, found⟩ := given
        rcases rounds_cases onward path with rfl | ⟨middle, step, consumed, later⟩
        · exact .inr found
        · refine .inl ⟨middle, step, ?_⟩
          rw [Bool.and_eq_true, decide_eq_true_eq]
          exact ⟨consumed, (ih (by omega)).mpr ⟨reached, later, found⟩⟩

end Rounds

theorem matchFrom_iff (regex : Regex α) (cursor : Cursor α) (next : Cursor α → Bool) :
    regex.matchFrom cursor next = true ↔
      ∃ reached, regex.spans cursor reached ∧ next reached = true := by
  induction regex generalizing cursor next with
  | start | finish =>
      simp only [matchFrom, spans, Bool.and_eq_true, List.isEmpty_iff]
      constructor
      · intro given
        obtain ⟨empty, found⟩ := given
        exact ⟨cursor, ⟨empty, rfl⟩, found⟩
      · intro given
        obtain ⟨_, ⟨empty, rfl⟩, found⟩ := given
        exact ⟨empty, found⟩
  | one accepts =>
      obtain ⟨before, rest⟩ := cursor
      cases rest with
      | nil => simp [matchFrom, spans]
      | cons symbol rest =>
          simp only [matchFrom, spans, Bool.and_eq_true, List.cons.injEq]
          constructor
          · intro given
            obtain ⟨accepted, found⟩ := given
            exact ⟨_, ⟨symbol, rest, ⟨rfl, rfl⟩, accepted, rfl⟩, found⟩
          · intro given
            obtain ⟨_, ⟨_, _, ⟨rfl, rfl⟩, accepted, rfl⟩, found⟩ := given
            exact ⟨accepted, found⟩
  | seq first second firstIH secondIH =>
      simp only [matchFrom, spans, firstIH, secondIH]
      constructor
      · intro given
        obtain ⟨middle, start, reached, onward, found⟩ := given
        exact ⟨reached, ⟨middle, start, onward⟩, found⟩
      · intro given
        obtain ⟨reached, ⟨middle, start, onward⟩, found⟩ := given
        exact ⟨middle, start, reached, onward, found⟩
  | alt first second firstIH secondIH =>
      simp only [matchFrom, spans, Bool.or_eq_true, firstIH, secondIH, or_and_right, exists_or]
  | star body ih =>
      rw [matchFrom, iterate_iff spans_ahead ih (Nat.le_refl _)]
      rfl

theorem searchFrom_iff (regex : Regex α) (before text : List α) :
    regex.searchFrom before text = true ↔
      ∃ front rest reached, text = front ++ rest ∧
        regex.spans ⟨front.reverse ++ before, rest⟩ reached := by
  induction text generalizing before with
  | nil =>
      rw [searchFrom, matchFrom_iff]
      constructor
      · intro given
        obtain ⟨reached, found, _⟩ := given
        exact ⟨[], [], reached, rfl, found⟩
      · intro given
        obtain ⟨front, rest, reached, same, found⟩ := given
        obtain ⟨rfl, rfl⟩ := List.append_eq_nil_iff.mp same.symm
        exact ⟨reached, found, rfl⟩
  | cons symbol text ih =>
      rw [searchFrom, Bool.or_eq_true, matchFrom_iff, ih]
      constructor
      · intro given
        rcases given with ⟨reached, found, _⟩ | ⟨front, rest, reached, rfl, found⟩
        · exact ⟨[], symbol :: text, reached, rfl, found⟩
        · exact ⟨symbol :: front, rest, reached, rfl, by simpa using found⟩
      · intro given
        obtain ⟨front, rest, reached, same, found⟩ := given
        cases front with
        | nil =>
            obtain rfl : symbol :: text = rest := same
            exact .inl ⟨reached, found, rfl⟩
        | cons first front =>
            obtain ⟨rfl, rfl⟩ := List.cons.inj same
            exact .inr ⟨front, rest, reached, rfl, by simpa using found⟩

theorem search_iff (regex : Regex α) (text : List α) :
    regex.search text = true ↔
      ∃ front rest reached, text = front ++ rest ∧ regex.spans ⟨front.reverse, rest⟩ reached := by
  rw [search, searchFrom_iff]
  simp only [List.append_nil]

theorem matchWhole_iff (regex : Regex α) (text : List α) :
    regex.matchWhole text = true ↔ ∃ reached, regex.spans ⟨[], text⟩ reached ∧ reached.rest = [] := by
  simp only [matchWhole, matchFrom_iff, List.isEmpty_iff]

/-! ## Derived expressions -/

/-- The symbols of a word, each as the given relation reads it. -/
def word (reads : α → α → Bool) : List α → Regex α → Regex α
  | [], next => next
  | symbol :: rest, next => .seq (.one (reads symbol)) (word reads rest next)

theorem spans_word {reads : α → α → Bool} {symbols : List α} {next : Regex α}
    {cursor reached : Cursor α} :
    (word reads symbols next).spans cursor reached ↔
      ∃ found middle, List.Forall₂ (fun symbol other => reads symbol other = true) symbols found ∧
        Ahead found cursor middle ∧ next.spans middle reached := by
  induction symbols generalizing cursor with
  | nil =>
      constructor
      · intro spanned
        exact ⟨[], cursor, .nil, .refl cursor, spanned⟩
      · intro given
        obtain ⟨found, middle, read, ahead, spanned⟩ := given
        cases read
        rwa [ahead.eq_of_length (by rw [ahead.1]; simp)] at spanned
  | cons symbol rest ih =>
      constructor
      · intro given
        obtain ⟨after, ⟨first, later, same, read, rfl⟩, spanned⟩ := given
        obtain ⟨found, middle, reads, ahead, last⟩ := ih.mp spanned
        refine ⟨first :: found, middle, .cons read reads, ?_, last⟩
        exact (show Ahead [first] cursor ⟨first :: cursor.before, later⟩ from ⟨same, rfl⟩).trans ahead
      · intro given
        obtain ⟨found, middle, read, ahead, spanned⟩ := given
        cases read with
        | @cons _ first _ found head tail =>
            refine ⟨⟨first :: cursor.before, found ++ middle.rest⟩, ⟨first, _, ahead.1, head, rfl⟩, ?_⟩
            refine ih.mpr ⟨found, middle, tail, ⟨rfl, ?_⟩, spanned⟩
            rw [ahead.2]
            simp

theorem spans_star_one {accepts : α → Bool} {cursor reached : Cursor α} :
    (star (one accepts)).spans cursor reached ↔
      ∃ symbols, (∀ symbol ∈ symbols, accepts symbol = true) ∧ Ahead symbols cursor reached := by
  constructor
  · intro path
    induction path with
    | refl => exact ⟨[], by simp, .refl cursor⟩
    | tail _ last ih =>
        obtain ⟨symbols, accepted, ahead⟩ := ih
        obtain ⟨symbol, rest, same, read, rfl⟩ := last
        refine ⟨symbols ++ [symbol], ?_, ahead.trans ⟨same, rfl⟩⟩
        intro other member
        rcases List.mem_append.mp member with old | new
        · exact accepted other old
        · rw [List.mem_singleton.mp new]
          exact read
  · intro given
    obtain ⟨symbols, accepted, ahead⟩ := given
    induction symbols generalizing cursor with
    | nil =>
        rw [ahead.eq_of_length (by rw [ahead.1]; simp)]
        exact .refl
    | cons symbol rest ih =>
        have onward : Ahead rest ⟨symbol :: cursor.before, rest ++ reached.rest⟩ reached :=
          ⟨rfl, by rw [ahead.2]; simp⟩
        refine .head ⟨symbol, _, ahead.1, accepted symbol List.mem_cons_self, rfl⟩ ?_
        exact ih (fun other member => accepted other (List.mem_cons_of_mem _ member)) onward

/-- The empty expression: no round of the repetition can be made. -/
def empty : Regex α := .star (.one fun _ => false)

theorem spans_empty {cursor reached : Cursor α} :
    (empty : Regex α).spans cursor reached ↔ reached = cursor := by
  rw [empty, spans_star_one]
  constructor
  · intro given
    obtain ⟨symbols, accepted, ahead⟩ := given
    have none : symbols = [] := List.eq_nil_iff_forall_not_mem.mpr fun symbol member =>
      Bool.noConfusion (accepted symbol member)
    subst none
    exact ahead.eq_of_length (by rw [ahead.1]; simp)
  · intro same
    subst same
    exact ⟨[], by simp, .refl reached⟩

section Literals

variable [BEq α] [LawfulBEq α]

theorem spans_literal {symbols : List α} {next : Regex α} {cursor reached : Cursor α} :
    (word (· == ·) symbols next).spans cursor reached ↔
      ∃ middle, Ahead symbols cursor middle ∧ next.spans middle reached := by
  have same (found : List α) :
      List.Forall₂ (fun symbol other => (symbol == other) = true) symbols found ↔
        symbols = found := by
    simp only [beq_iff_eq]
    exact List.forall₂_eq_eq_eq ▸ Iff.rfl
  simp only [spans_word, same]
  constructor
  · intro given
    obtain ⟨found, middle, rfl, ahead, later⟩ := given
    exact ⟨middle, ahead, later⟩
  · intro given
    obtain ⟨middle, ahead, later⟩ := given
    exact ⟨symbols, middle, rfl, ahead, later⟩

theorem matchWhole_literal (symbols text : List α) :
    (word (· == ·) symbols empty).matchWhole text = true ↔ text = symbols := by
  simp only [matchWhole_iff, spans_literal, spans_empty]
  constructor
  · intro given
    obtain ⟨reached, ⟨middle, ahead, rfl⟩, done⟩ := given
    simpa [done] using ahead.1
  · intro same
    subst same
    exact ⟨⟨text.reverse, []⟩, ⟨_, ⟨by simp, by simp⟩, rfl⟩, rfl⟩

theorem matchWhole_starting {symbols text : List α} {accepts : α → Bool} :
    (word (· == ·) symbols (star (one accepts))).matchWhole text = true ↔
      ∃ rest, text = symbols ++ rest ∧ ∀ symbol ∈ rest, accepts symbol = true := by
  simp only [matchWhole_iff, spans_literal, spans_star_one]
  constructor
  · intro given
    obtain ⟨reached, ⟨middle, start, rest, accepted, onward⟩, done⟩ := given
    refine ⟨rest, ?_, accepted⟩
    simpa [onward.1, done] using start.1
  · intro given
    obtain ⟨rest, rfl, accepted⟩ := given
    refine ⟨⟨(symbols ++ rest).reverse, []⟩, ⟨⟨symbols.reverse, rest⟩, ⟨rfl, by simp⟩, rest, accepted,
      ⟨by simp, by simp⟩⟩, rfl⟩

end Literals

end Regex

/-- What `.` matches. -/
def notLineEnd (byte : UInt8) : Bool :=
  byte != 10 && byte != 13

end Marvin.Data
