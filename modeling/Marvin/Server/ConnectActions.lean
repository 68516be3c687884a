import Marvin.Server.MitmApp

namespace Marvin.Server.MitmApp

open Marvin.Data Marvin.Collector Marvin.Collector.CaptureFilter

/-! # What is done about a CONNECT

`p_determine_action` of `marvin/server/mitm_app.cpp` beside the comment on it,
which has a rule for the port.
-/

variable {regex : Bytes → Option (Bytes → Bool)} {filters : List Bytes} {host : Bytes}

open Classical in
theorem pDetermineAction_of_shielded (shielded : Shielded regex filters host) (port : Bytes) :
    pDetermineAction regex filters host port =
      .ok (if ∃ filter ∈ filters, Accepts regex filter host then .mitm else .tunnel) := by
  simp only [pDetermineAction, isCollectable_eq, if_pos shielded, bind, Except.bind]
  by_cases accepted : ∃ filter ∈ filters, Accepts regex filter host
  · simp only [accepted, decide_true, if_true]
    rfl
  · simp only [accepted, decide_false, Bool.false_eq_true, if_false]
    rfl

theorem pDetermineAction_of_not_shielded (exposed : ¬ Shielded regex filters host) (port : Bytes) :
    pDetermineAction regex filters host port = .error .regexError := by
  rw [pDetermineAction, isCollectable_of_not_shielded exposed]
  rfl

/-- A CONNECT is intercepted exactly for an accepted host on port 443, and is
tunnelled otherwise, when no invalid filter is tried before one that accepts the
host and no filter accepts a host on another port. -/
theorem connect_action_as_documented_iff (regex : Bytes → Option (Bytes → Bool))
    (filters : List Bytes) (host port : Bytes) :
    (∃ action, pDetermineAction regex filters host port = .ok action ∧
      (action = .mitm ↔ port = ascii "443" ∧ ∃ filter ∈ filters, Accepts regex filter host) ∧
      (action = .tunnel ↔
        ¬ (port = ascii "443" ∧ ∃ filter ∈ filters, Accepts regex filter host))) ↔
    Shielded regex filters host ∧
      ((∃ filter ∈ filters, Accepts regex filter host) → port = ascii "443") := by
  constructor
  · intro documented
    obtain ⟨action, determined, mitm, _⟩ := documented
    by_cases shielded : Shielded regex filters host
    · refine ⟨shielded, fun accepted => ?_⟩
      rw [pDetermineAction_of_shielded shielded, if_pos accepted] at determined
      exact (mitm.mp (Except.ok.inj determined).symm).1
    · rw [pDetermineAction_of_not_shielded shielded] at determined
      cases determined
  · intro spared
    obtain ⟨shielded, right⟩ := spared
    refine ⟨_, pDetermineAction_of_shielded shielded port, ?_⟩
    by_cases accepted : ∃ filter ∈ filters, Accepts regex filter host
    · simp [accepted, right accepted]
    · simp [accepted]

/-- A host that a filter accepts is intercepted on port 80, and an opening
parenthesis in front of that filter makes the request throw. -/
theorem other_port_intercepted :
    pDetermineAction plainRegex [ascii "localhost"] (ascii "localhost") (ascii "80") = .ok .mitm ∧
      pDetermineAction plainRegex [ascii "(", ascii "localhost"] (ascii "localhost")
        (ascii "443") = .error .regexError :=
  ⟨by decide, by decide⟩

end Marvin.Server.MitmApp
