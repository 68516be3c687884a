import Marvin.Data.Regex

namespace Marvin.Data

/-! The matches of an expression in a text, one after the other.

`firstFrom` tries what `matchFrom` tries, in the same order, and returns what the
continuation makes of the first place it accepts; repetitions are greedy.  An
expression with groups is a list of parts, and a match has the text of each part.
`matches` is the sequence that `std::regex_iterator` runs through.
-/

namespace Regex

variable {α : Type u} {β : Type v}

def repeatFrom (round : Cursor α → (Cursor α → Option β) → Option β) :
    Nat → Cursor α → (Cursor α → Option β) → Option β
  | 0, cursor, next => next cursor
  | fuel + 1, cursor, next =>
      (round cursor fun reached =>
        if reached.rest.length < cursor.rest.length then repeatFrom round fuel reached next
        else none).or
      (next cursor)

def firstFrom : Regex α → Cursor α → (Cursor α → Option β) → Option β
  | .start, cursor, next => if cursor.before.isEmpty then next cursor else none
  | .finish, cursor, next => if cursor.rest.isEmpty then next cursor else none
  | .one accepts, ⟨before, rest⟩, next =>
      match rest with
      | [] => none
      | symbol :: rest => if accepts symbol then next ⟨symbol :: before, rest⟩ else none
  | .seq first second, cursor, next =>
      first.firstFrom cursor (fun reached => second.firstFrom reached next)
  | .alt first second, cursor, next =>
      (first.firstFrom cursor next).or (second.firstFrom cursor next)
  | .star body, cursor, next => repeatFrom body.firstFrom cursor.rest.length cursor next

/-- A result is found where the expression matches. -/
theorem firstFrom_isSome (regex : Regex α) (cursor : Cursor α) (next : Cursor α → Option β) :
    (regex.firstFrom cursor next).isSome =
      regex.matchFrom cursor (fun reached => (next reached).isSome) := by
  induction regex generalizing cursor next with
  | start | finish =>
      simp only [firstFrom, matchFrom]
      split
      · next empty => simp [empty]
      · next more => simp [more]
  | one accepts =>
      obtain ⟨before, rest⟩ := cursor
      cases rest with
      | nil => rfl
      | cons symbol rest =>
          simp only [firstFrom, matchFrom]
          split
          · next accepted => simp [accepted]
          · next refused => simp [refused]
  | seq first second firstIH secondIH => simp only [firstFrom, matchFrom, firstIH, secondIH]
  | alt first second firstIH secondIH =>
      simp only [firstFrom, matchFrom, Option.isSome_or, firstIH, secondIH]
  | star body ih =>
      simp only [firstFrom, matchFrom]
      induction cursor.rest.length generalizing cursor with
      | zero => rfl
      | succ fuel rounds =>
          simp only [repeatFrom, iterate, Option.isSome_or, ih]
          congr 2
          funext reached
          split
          · next consumed => simp [consumed, rounds]
          · next still => simp [still]

def plus (body : Regex α) : Regex α := .seq body (.star body)

theorem star_one_cons (accepts : α → Bool) (before rest : List α) (symbol : α)
    (next : Cursor α → Option β) :
    (star (one accepts)).firstFrom ⟨before, symbol :: rest⟩ next =
      if accepts symbol then
        ((star (one accepts)).firstFrom ⟨symbol :: before, rest⟩ next).or
          (next ⟨before, symbol :: rest⟩)
      else next ⟨before, symbol :: rest⟩ := by
  simp only [firstFrom, List.length_cons, repeatFrom]
  split
  · simp
  · simp

section Runs

variable {accepts : α → Bool} {next : Cursor α → Option β}

/-- The place behind the longest run of accepted symbols. -/
def pastRun (accepts : α → Bool) (cursor : Cursor α) : Cursor α :=
  ⟨(cursor.rest.takeWhile accepts).reverse ++ cursor.before, cursor.rest.dropWhile accepts⟩

theorem pastRun_cons {symbol : α} (accepted : accepts symbol = true) (before rest : List α) :
    pastRun accepts ⟨before, symbol :: rest⟩ = pastRun accepts ⟨symbol :: before, rest⟩ := by
  simp [pastRun, accepted]

theorem pastRun_of_not {symbol : α} (refused : accepts symbol = false) (before rest : List α) :
    pastRun accepts ⟨before, symbol :: rest⟩ = ⟨before, symbol :: rest⟩ := by
  simp [pastRun, refused]

/-- A run is as long as it can be, if the continuation takes that. -/
theorem star_one_greedy {before rest : List α} {result : β}
    (taken : next (pastRun accepts ⟨before, rest⟩) = some result) :
    (star (one accepts)).firstFrom ⟨before, rest⟩ next = some result := by
  induction rest generalizing before with
  | nil => exact taken
  | cons symbol rest ih =>
      rw [star_one_cons]
      cases accepted : accepts symbol with
      | true =>
          rw [pastRun_cons accepted] at taken
          rw [if_pos rfl, ih taken, Option.some_or]
      | false =>
          rw [pastRun_of_not accepted] at taken
          rw [if_neg Bool.false_ne_true, taken]

/-- A run is as long as it can be, if the continuation takes no accepted symbol. -/
theorem star_one_blocked
    (blocked : ∀ before symbol rest, accepts symbol = true → next ⟨before, symbol :: rest⟩ = none)
    (before rest : List α) :
    (star (one accepts)).firstFrom ⟨before, rest⟩ next = next (pastRun accepts ⟨before, rest⟩) := by
  induction rest generalizing before with
  | nil => rfl
  | cons symbol rest ih =>
      rw [star_one_cons]
      cases accepted : accepts symbol with
      | true =>
          rw [if_pos rfl, blocked before symbol rest accepted, Option.or_none, ih,
            pastRun_cons accepted]
      | false => rw [if_neg Bool.false_ne_true, pastRun_of_not accepted]

end Runs

/-! ## Expressions with groups -/

/-- The symbols between two places. -/
def between (cursor reached : Cursor α) : List α :=
  cursor.rest.take (cursor.rest.length - reached.rest.length)

theorem between_append (before after symbols rest : List α) :
    between ⟨before, symbols ++ rest⟩ ⟨after, rest⟩ = symbols := by
  simp [between]

theorem between_pastRun (accepts : α → Bool) (cursor : Cursor α) :
    between cursor (pastRun accepts cursor) = cursor.rest.takeWhile accepts := by
  obtain ⟨before, rest⟩ := cursor
  have parts := between_append before ((rest.takeWhile accepts).reverse ++ before)
    (rest.takeWhile accepts) (rest.dropWhile accepts)
  rwa [List.takeWhile_append_dropWhile] at parts

/-- The texts of the parts and the end of the last one, which has to be accepted. -/
def partsFrom (accepts : Cursor α → Bool) : List (Regex α) → Cursor α →
    Option (List (List α) × Cursor α)
  | [], cursor => if accepts cursor then some ([], cursor) else none
  | part :: parts, cursor =>
      part.firstFrom cursor fun reached =>
        (partsFrom accepts parts reached).map fun (texts, last) =>
          (between cursor reached :: texts, last)

end Regex

structure Match (α : Type u) where
  start : Cursor α
  texts : List (List α)
  finish : Cursor α
deriving DecidableEq, Repr

namespace Regex

variable {α : Type u}

def matchAt (accepts : Cursor α → Bool) (parts : List (Regex α)) (cursor : Cursor α) :
    Option (Match α) :=
  (partsFrom accepts parts cursor).map fun (texts, last) => ⟨cursor, texts, last⟩

/-- `std::regex_search`: the leftmost match. -/
def firstMatch (parts : List (Regex α)) (before : List α) : List α → Option (Match α)
  | [] => matchAt (fun _ => true) parts ⟨before, []⟩
  | symbol :: rest =>
      (matchAt (fun _ => true) parts ⟨before, symbol :: rest⟩).or
        (firstMatch parts (symbol :: before) rest)

/-- The increment of `std::regex_iterator`.  After a match of no symbols, one of some
symbols is tried at the same place before the search goes on behind the next symbol. -/
def nextMatch (parts : List (Regex α)) (found : Match α) : Option (Match α) :=
  if found.finish.rest.length < found.start.rest.length then
    firstMatch parts found.finish.before found.finish.rest
  else
    match found.finish.rest with
    | [] => none
    | symbol :: rest =>
        (matchAt (fun reached => reached.rest.length < found.finish.rest.length) parts
          found.finish).or (firstMatch parts (symbol :: found.finish.before) rest)

def matchesFrom (parts : List (Regex α)) : Nat → Option (Match α) → List (Match α)
  | 0, _ => []
  | _, none => []
  | fuel + 1, some found => found :: matchesFrom parts fuel (nextMatch parts found)

/-- No place of the text is the end of more than two matches. -/
def allMatches (parts : List (Regex α)) (text : List α) : List (Match α) :=
  matchesFrom parts (2 * (text.length + 1)) (firstMatch parts [] text)

variable {parts : List (Regex α)}

/-- The search passes over the places where nothing matches. -/
theorem firstMatch_append {before front rest : List α}
    (fails : ∀ passed symbol remaining, front = passed ++ symbol :: remaining →
      matchAt (fun _ => true) parts ⟨passed.reverse ++ before, symbol :: (remaining ++ rest)⟩ = none) :
    firstMatch parts before (front ++ rest) = firstMatch parts (front.reverse ++ before) rest := by
  induction front generalizing before with
  | nil => rfl
  | cons symbol front ih =>
      have here := fails [] symbol front rfl
      rw [List.reverse_nil, List.nil_append] at here
      rw [List.cons_append, firstMatch, here, Option.none_or, List.reverse_cons, List.append_assoc]
      apply ih
      intro passed next remaining same
      have later := fails (symbol :: passed) next remaining (by rw [same]; rfl)
      rw [List.reverse_cons, List.append_assoc] at later
      exact later

theorem firstMatch_of_matchAt {before rest : List α} {found : Match α}
    (here : matchAt (fun _ => true) parts ⟨before, rest⟩ = some found) :
    firstMatch parts before rest = some found := by
  cases rest with
  | nil => exact here
  | cons symbol rest => rw [firstMatch, here, Option.some_or]

@[simp] theorem matchesFrom_none (fuel : Nat) : matchesFrom parts fuel none = [] := by
  cases fuel <;> rfl

theorem nextMatch_of_lt {found : Match α}
    (consumed : found.finish.rest.length < found.start.rest.length) :
    nextMatch parts found = firstMatch parts found.finish.before found.finish.rest :=
  if_pos consumed

end Regex

end Marvin.Data
