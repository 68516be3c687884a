import Marvin.Http.MessageBase

namespace Marvin.Http

open Marvin.Data

/-! # The size of a serialized head -/

def lineSize (field : Field) : Nat :=
  field.key.val.length + field.value.length + 4

def linesSize (fields : List Field) : Nat :=
  (fields.map lineSize).sum

theorem headerLine_length (field : Field) :
    (MessageBase.headerLine field).flatten.length = lineSize field := by
  simp [MessageBase.headerLine, lineSize, ascii]
  omega

theorem headerLines_length (fields : List Field) :
    (fields.map MessageBase.headerLine).flatten.flatten.length = linesSize fields := by
  induction fields with
  | nil => rfl
  | cons field rest ih =>
      rw [List.map_cons, List.flatten_cons, List.flatten_append, List.length_append, ih,
        headerLine_length]
      rfl

theorem linesSize_put (key : HeaderKey) (value : Bytes) (fields : List Field) :
    linesSize (KeyedList.put key value fields) ≤
      linesSize fields + (key.val.length + value.length + 4) := by
  induction fields with
  | nil => simp [KeyedList.put, linesSize, lineSize]
  | cons field rest ih =>
      by_cases same : field.key = key
      · simp only [KeyedList.put, if_pos same, linesSize, List.map_cons, List.sum_cons, lineSize]
        omega
      · simp only [KeyedList.put, if_neg same]
        simp only [linesSize, List.map_cons, List.sum_cons] at ih ⊢
        omega

theorem linesSize_sublist {shorter longer : List Field} (sublist : shorter.Sublist longer) :
    linesSize shorter ≤ linesSize longer := by
  induction sublist with
  | slnil => exact Nat.le_refl _
  | cons field _ ih =>
      simp only [linesSize, List.map_cons, List.sum_cons] at ih ⊢
      omega
  | cons_cons field _ ih =>
      simp only [linesSize, List.map_cons, List.sum_cons] at ih ⊢
      omega

theorem linesSize_removeAll (names : List HeaderKey) (fields : List Field) :
    linesSize (KeyedList.removeAll names fields) ≤ linesSize fields := by
  induction names generalizing fields with
  | nil => exact Nat.le_refl _
  | cons name rest ih => exact (ih _).trans (linesSize_sublist List.eraseP_sublist)

theorem linesSize_putAll (initial additions : List Field) :
    linesSize (KeyedList.putAll initial additions) ≤ linesSize initial + linesSize additions := by
  induction additions generalizing initial with
  | nil => exact Nat.le_refl _
  | cons field rest ih =>
      have first := linesSize_put field.key field.value initial
      have later := ih (KeyedList.put field.key field.value initial)
      change linesSize (KeyedList.putAll (KeyedList.put field.key field.value initial) rest) ≤ _
      simp only [linesSize, List.map_cons, List.sum_cons, lineSize] at *
      omega

theorem headPieces_length {methodStr : HttpMethod → Bytes} {message : MessageBase}
    (request : message.isRequest = true) :
    (message.headPieces methodStr).flatten.length =
      ((message.method.map methodStr).getD []).length + message.target.length +
        linesSize message.fields + 14 := by
  rw [← headerLines_length]
  simp only [MessageBase.headPieces, request, if_true, List.flatten_append, List.length_append,
    List.flatten_cons, List.flatten_nil]
  by_cases minor : message.httpMinor = 0
  · simp [minor, ascii]
    omega
  · simp [minor, ascii]
    omega

theorem headPieces_length_response {methodStr : HttpMethod → Bytes} {message : MessageBase}
    (response : message.isRequest = false) :
    (message.headPieces methodStr).flatten.length =
      (decimal (message.statusCode.getD 0)).length + message.reason.length +
        linesSize message.fields + 14 := by
  rw [← headerLines_length]
  simp only [MessageBase.headPieces, response, Bool.false_eq_true, if_false, List.flatten_append,
    List.length_append, List.flatten_cons, List.flatten_nil]
  by_cases minor : message.httpMinor = 0
  · simp [minor, ascii]
    omega
  · simp [minor, ascii]
    omega

theorem decimal_length {number digits : Nat} (some : 0 < digits) (bound : number < 10 ^ digits) :
    (decimal number).length ≤ digits := by
  rw [decimal, List.length_map]
  exact (Nat.length_toDigits_le_iff (by decide) some).mpr bound

end Marvin.Http
