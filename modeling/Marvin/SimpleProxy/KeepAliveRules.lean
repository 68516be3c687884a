import Marvin.Helpers.Mitm
import Marvin.Http.ConnectionTokens
import Marvin.SimpleProxy.CtlApp

namespace Marvin.SimpleProxy

open Marvin.Data Marvin.Http Marvin.Helpers

/-! # The keep-alive decisions

Three places decide whether a connection is kept: `is_connection_keep_alive` reads
the tokens of the field and the version, `apply_keepalive_rules` of the helpers
and the control application each compare the field with one spelling.
-/

variable {request : MessageBase}

theorem keepAlive_of_spelling {value : Bytes}
    (found : request.header HeaderFields.connection = some value)
    (spelled : toUpper value = toUpper (ascii "keep-alive")) :
    request.isConnectionKeepAlive = true := by
  have token : Http.isConnectionKeepAlive value = true := by
    rw [isConnectionKeepAlive_iff]
    refine ⟨value, ?_, spelled⟩
    rw [List.splitOnP_eq_singleton]
    · exact List.mem_singleton_self value
    · exact solid_of_toUpper spelled (by simp [ascii, isDelimiter, isSpace])
  rw [MessageBase.isConnectionKeepAlive, found]
  simp only [isKeepAliveValue_eq, token, if_true]

/-- The first field has no keep-alive token, and it has a close token or the
version does not keep connections. -/
def Ends (request : MessageBase) : Prop :=
  (∀ value ∈ request.header HeaderFields.connection, ∀ run ∈ value.splitOnP isDelimiter,
    toUpper run ≠ toUpper (ascii "keep-alive")) ∧
  (request.httpMinor ≠ 1 ∨ ∃ value ∈ request.header HeaderFields.connection,
    ∃ run ∈ value.splitOnP isDelimiter, toUpper run = toUpper (ascii "close"))

theorem ends_iff : Ends request ↔ request.isConnectionKeepAlive = false := by
  have silent (value : Bytes) : (∀ run ∈ value.splitOnP isDelimiter,
      toUpper run ≠ toUpper (ascii "keep-alive")) ↔ Http.isConnectionKeepAlive value = false := by
    rw [← Bool.not_eq_true, isConnectionKeepAlive_iff]
    simp
  rw [Ends, MessageBase.isConnectionKeepAlive]
  simp only [silent, ← isConnectionClose_iff, isKeepAliveValue_eq, isCloseValue_eq]
  cases request.header HeaderFields.connection with
  | none => simp
  | some value =>
      cases keeps : Http.isConnectionKeepAlive value with
      | true => simp [keeps]
      | false =>
          cases closes : Http.isConnectionClose value with
          | true => simp [keeps, closes]
          | false => simp [keeps, closes]

theorem applyKeepaliveRules_of_ne
    (other : request.header HeaderFields.connection ≠ some HeaderFields.connectionKeepAlive)
    (response : MessageBase) :
    applyKeepaliveRules request response =
      (false, response.setHeader HeaderFields.connection HeaderFields.connectionClose) := by
  rw [applyKeepaliveRules]
  cases found : request.header HeaderFields.connection with
  | none => rfl
  | some value =>
      have different : value ≠ HeaderFields.connectionKeepAlive := by
        intro same
        exact other (by rw [found, same])
      simp only [if_neg different]

theorem cycleKeepsAlive_iff :
    cycleKeepsAlive request = true ↔
      request.header HeaderFields.connection = some (ascii "Keep-Alive") := by
  rw [cycleKeepsAlive]
  cases request.header HeaderFields.connection with
  | none => simp
  | some value => simp

/-- The helpers and the control application decide as the tokens and the version
of the request do, and the response says so, exactly when these end the
connection: no value is spelled both ways. -/
theorem keep_alive_decisions_agree_iff (request response : MessageBase) :
    ((applyKeepaliveRules request response).1 = request.isConnectionKeepAlive ∧
      cycleKeepsAlive request = request.isConnectionKeepAlive ∧
      ∃ value, (applyKeepaliveRules request response).2.header HeaderFields.connection =
          some value ∧
        Http.isConnectionKeepAlive value = request.isConnectionKeepAlive ∧
        Http.isConnectionClose value = !request.isConnectionKeepAlive) ↔
    Ends request := by
  rw [ends_iff]
  constructor
  · intro agree
    obtain ⟨rules, cycle, _⟩ := agree
    rw [← Bool.not_eq_true]
    intro keeps
    rw [keeps, cycleKeepsAlive_iff] at cycle
    have other : request.header HeaderFields.connection ≠
        some HeaderFields.connectionKeepAlive := by
      rw [cycle]
      decide
    rw [applyKeepaliveRules_of_ne other, keeps] at rules
    cases rules
  · intro ends
    have notSpelled {value : Bytes} (spelled : toUpper value = toUpper (ascii "keep-alive")) :
        request.header HeaderFields.connection ≠ some value := by
      intro found
      rw [keepAlive_of_spelling found spelled] at ends
      cases ends
    have cycle : cycleKeepsAlive request = false := by
      rw [← Bool.not_eq_true, cycleKeepsAlive_iff]
      exact notSpelled (by decide)
    have other : request.header HeaderFields.connection ≠ some HeaderFields.connectionKeepAlive :=
      notSpelled (by decide)
    rw [applyKeepaliveRules_of_ne other, ends, cycle]
    refine ⟨rfl, rfl, HeaderFields.connectionClose, ?_, ?_, ?_⟩
    · rw [MessageBase.header_eq_lookup, MessageBase.fields_setHeader, KeyedList.lookup,
        KeyedList.named_put]
      rfl
    · rw [← isKeepAliveValue_eq]
      decide
    · rw [← isCloseValue_eq]
      decide

/-- A plain HTTP/1.1 request is kept alive, and closed by the two others. -/
theorem bare_request_decided_differently :
    MessageBase.new.isConnectionKeepAlive = true ∧
      (applyKeepaliveRules .new (MessageBase.new.setIsRequest false)).1 = false ∧
      cycleKeepsAlive .new = false :=
  ⟨by decide, by decide, by decide⟩

end Marvin.SimpleProxy
