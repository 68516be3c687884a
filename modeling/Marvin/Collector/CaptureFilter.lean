import Marvin.Data.Regex
import Marvin.Data.Bytes
import Marvin.Fault

namespace Marvin.Collector

open Marvin.Data

/-! # The capture filter

`marvin/collector/capture_filter.hpp`.  A filter is a text that is compiled to a
`std::regex` each time it is tried.  The compiler enters as `regex`: it refuses
some texts, and of the others it gives the hosts that match as a whole.
-/

variable (regex : Bytes → Option (Bytes → Bool))

namespace CaptureFilter

/-- The filters are tried in order; a text that does not compile throws. -/
def isCollectable (host : Bytes) : List Bytes → Except Fault Bool
  | [] => .ok false
  | filter :: rest =>
      match regex filter with
      | none => .error .regexError
      | some accepts => if accepts host then .ok true else isCollectable host rest

/-- The text is a valid expression that matches the whole host name. -/
def Accepts (filter host : Bytes) : Prop :=
  ∃ accepts ∈ regex filter, accepts host = true

/-- Every text that does not compile comes after one that accepts the host. -/
def Shielded (filters : List Bytes) (host : Bytes) : Prop :=
  ∀ front filter back, filters = front ++ filter :: back → regex filter = none →
    ∃ earlier ∈ front, Accepts regex earlier host

variable {regex} {filters : List Bytes} {host filter : Bytes}

theorem shielded_nil : Shielded regex [] host := by
  intro front filter back same
  cases front <;> cases same

theorem not_shielded_cons (invalid : regex filter = none) :
    ¬ Shielded regex (filter :: filters) host := by
  intro shielded
  obtain ⟨earlier, member, _⟩ := shielded [] filter filters rfl invalid
  cases member

theorem shielded_of_accepts (accepted : Accepts regex filter host) :
    Shielded regex (filter :: filters) host := by
  intro front other back same invalid
  cases front with
  | nil =>
      obtain ⟨rfl, _⟩ := List.cons.inj same
      obtain ⟨accepts, valid, _⟩ := accepted
      rw [invalid] at valid
      cases valid
  | cons first front =>
      obtain ⟨rfl, _⟩ := List.cons.inj same
      exact ⟨filter, List.mem_cons_self, accepted⟩

theorem not_accepts {accepts : Bytes → Bool} (valid : regex filter = some accepts)
    (refused : accepts host = false) : ¬ Accepts regex filter host := by
  intro accepted
  obtain ⟨other, again, found⟩ := accepted
  obtain rfl := Option.mem_unique valid again
  rw [refused] at found
  cases found

theorem shielded_cons_iff {accepts : Bytes → Bool} (valid : regex filter = some accepts)
    (refused : accepts host = false) :
    Shielded regex (filter :: filters) host ↔ Shielded regex filters host := by
  constructor
  · intro shielded front other back same invalid
    obtain ⟨earlier, member, accepted⟩ :=
      shielded (filter :: front) other back (by rw [same]; rfl) invalid
    rcases List.mem_cons.mp member with rfl | later
    · exact absurd accepted (not_accepts valid refused)
    · exact ⟨earlier, later, accepted⟩
  · intro shielded front other back same invalid
    cases front with
    | nil =>
        obtain ⟨rfl, _⟩ := List.cons.inj same
        rw [valid] at invalid
        cases invalid
    | cons first front =>
        obtain ⟨rfl, rfl⟩ := List.cons.inj same
        obtain ⟨earlier, member, accepted⟩ := shielded front other back rfl invalid
        exact ⟨earlier, List.mem_cons_of_mem _ member, accepted⟩

open Classical in
/-- The answer is whether some filter accepts the host, unless an invalid one is
tried first. -/
theorem isCollectable_eq (regex : Bytes → Option (Bytes → Bool)) (host : Bytes)
    (filters : List Bytes) :
    isCollectable regex host filters =
      if Shielded regex filters host then
        .ok (decide (∃ filter ∈ filters, Accepts regex filter host))
      else .error .regexError := by
  induction filters with
  | nil =>
      rw [isCollectable, if_pos shielded_nil]
      simp
  | cons filter rest ih =>
      rw [isCollectable]
      cases compiled : regex filter with
      | none => rw [if_neg (not_shielded_cons compiled)]
      | some accepts =>
          cases found : accepts host with
          | true =>
              have accepted : Accepts regex filter host := ⟨accepts, compiled, found⟩
              have present : ∃ other ∈ filter :: rest, Accepts regex other host :=
                ⟨filter, List.mem_cons_self, accepted⟩
              rw [if_pos (shielded_of_accepts accepted), decide_eq_true present]
              simp only [found, if_true]
          | false =>
              have same : (∃ other ∈ filter :: rest, Accepts regex other host) ↔
                  ∃ other ∈ rest, Accepts regex other host := by
                rw [List.exists_mem_cons_iff]
                exact or_iff_right (not_accepts compiled found)
              simp only [found, ih, shielded_cons_iff compiled found, same, Bool.false_eq_true,
                if_false]

theorem isCollectable_of_shielded (shielded : Shielded regex filters host) :
    ∃ answer, isCollectable regex host filters = .ok answer := by
  rw [isCollectable_eq, if_pos shielded]
  exact ⟨_, rfl⟩

theorem isCollectable_of_not_shielded (exposed : ¬ Shielded regex filters host) :
    isCollectable regex host filters = .error .regexError := by
  rw [isCollectable_eq, if_neg exposed]

/-- Texts of letters, digits and dashes are expressions that match themselves, and
`.*` matches every text on one line; the others are taken for invalid. -/
def plainRegex (text : Bytes) : Option (Bytes → Bool) :=
  if text = ascii ".*" then some fun host => host.all notLineEnd
  else if text.all (fun byte => isDigit byte || byte == 45 || (97 ≤ byte && byte ≤ 122)) then
    some (Regex.word (· == ·) text .empty).matchWhole
  else none

end CaptureFilter

end Marvin.Collector
