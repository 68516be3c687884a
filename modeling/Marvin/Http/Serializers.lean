import Marvin.Http.HeaderSection

namespace Marvin.Http

open Marvin.Data Marvin.Buffer

/-! # The two serializers

`serialize_headers(msg, std::string&)` prints both version numbers;
`serialize_headers(msg, ContigBuffer::SPtr)` chooses between two fixed texts by
the minor one.
-/

namespace MessageBase

def versionText (message : MessageBase) : Bytes :=
  ascii "HTTP/" ++ decimal message.httpMajor ++ ascii "." ++ decimal message.httpMinor

/-- `serialize_headers(msg, std::string&)`. -/
def serializeHeadersText (methodStr : HttpMethod → Bytes) (message : MessageBase) : Bytes :=
  (if message.isRequest then
    (message.method.map methodStr).getD [] ++ ascii " " ++ message.target ++ ascii " " ++
      message.versionText ++ ascii "\r\n"
  else
    message.versionText ++ ascii " " ++ decimal (message.statusCode.getD 0) ++ ascii " " ++
      message.reason ++ ascii "\r\n") ++
  (message.fields.flatMap fun field =>
    field.key.val ++ ascii ": " ++ field.value ++ ascii "\r\n") ++ ascii "\r\n"

/-- `serialize_headers(msg, ContigBuffer::SPtr)`. -/
def serializeHeadersInto (methodStr : HttpMethod → Bytes) (message : MessageBase)
    (buffer : ContigBuffer) : Except Fault ContigBuffer :=
  (message.headPieces methodStr).foldlM ContigBuffer.append buffer

/-- The version the second serializer writes. -/
def fixedVersion (message : MessageBase) : Bytes :=
  if message.httpMinor = 0 then ascii "HTTP/1.0" else ascii "HTTP/1.1"

/-- What both write before and after the version. -/
def textBefore (methodStr : HttpMethod → Bytes) (message : MessageBase) : Bytes :=
  if message.isRequest then
    (message.method.map methodStr).getD [] ++ ascii " " ++ message.target ++ ascii " "
  else []

def textAfter (message : MessageBase) : Bytes :=
  (if message.isRequest then ascii "\r\n"
  else ascii " " ++ decimal (message.statusCode.getD 0) ++ ascii " " ++ message.reason ++
    ascii "\r\n") ++
  (message.fields.flatMap fun field =>
    field.key.val ++ ascii ": " ++ field.value ++ ascii "\r\n") ++ ascii "\r\n"

variable (methodStr : HttpMethod → Bytes) (message : MessageBase)

theorem serializeHeadersText_eq :
    message.serializeHeadersText methodStr =
      message.textBefore methodStr ++ message.versionText ++ message.textAfter := by
  unfold serializeHeadersText textBefore textAfter
  cases message.isRequest with
  | true => simp
  | false => simp

theorem headerLines_flatten (fields : List Field) :
    ((fields.map headerLine).flatten).flatten =
      fields.flatMap fun field => field.key.val ++ ascii ": " ++ field.value ++ ascii "\r\n" := by
  induction fields with
  | nil => rfl
  | cons field rest ih => simp [headerLine, ih]

theorem headPieces_flatten_eq :
    (message.headPieces methodStr).flatten =
      message.textBefore methodStr ++ message.fixedVersion ++ message.textAfter := by
  have spaced : ascii " HTTP/1.0\r\n" = ascii " " ++ ascii "HTTP/1.0" ++ ascii "\r\n" ∧
      ascii " HTTP/1.1\r\n" = ascii " " ++ ascii "HTTP/1.1" ++ ascii "\r\n" ∧
      ascii "HTTP/1.0 " = ascii "HTTP/1.0" ++ ascii " " ∧
      ascii "HTTP/1.1 " = ascii "HTTP/1.1" ++ ascii " " := by decide
  unfold headPieces textBefore textAfter fixedVersion
  simp only [List.flatten_append, headerLines_flatten, spaced.1, spaced.2.1, spaced.2.2.1,
    spaced.2.2.2]
  cases message.isRequest with
  | true => by_cases zero : message.httpMinor = 0 <;> simp [zero]
  | false => by_cases zero : message.httpMinor = 0 <;> simp [zero]

theorem takeWhile_decimal (number : Nat) (rest : Bytes) :
    (decimal number ++ ascii "." ++ rest).takeWhile isDigit = decimal number := by
  have digits : ∀ byte ∈ decimal number, isDigit byte = true :=
    List.all_eq_true.mp (decimal_numeral number).2.1
  rw [List.append_assoc, List.takeWhile_append_of_pos digits]
  simp [ascii, isDigit]

theorem version_pair_injective {major minor otherMajor otherMinor : Nat}
    (same : decimal major ++ ascii "." ++ decimal minor =
      decimal otherMajor ++ ascii "." ++ decimal otherMinor) :
    major = otherMajor ∧ minor = otherMinor := by
  have first : decimal major = decimal otherMajor := by
    rw [← takeWhile_decimal major (decimal minor), same, takeWhile_decimal]
  rw [first] at same
  exact ⟨decimal_injective first, decimal_injective (List.append_cancel_left same)⟩

theorem versionText_eq_fixedVersion_iff :
    message.versionText = message.fixedVersion ↔
      message.httpMajor = 1 ∧ (message.httpMinor = 0 ∨ message.httpMinor = 1) := by
  have zero : ascii "HTTP/1.0" = ascii "HTTP/" ++ (decimal 1 ++ ascii "." ++ decimal 0) := by decide
  have one : ascii "HTTP/1.1" = ascii "HTTP/" ++ (decimal 1 ++ ascii "." ++ decimal 1) := by decide
  have grouped : message.versionText =
      ascii "HTTP/" ++ (decimal message.httpMajor ++ ascii "." ++ decimal message.httpMinor) := by
    simp [versionText]
  rw [grouped, fixedVersion, zero, one]
  constructor
  · intro same
    split at same
    · obtain ⟨major, minor⟩ := version_pair_injective (List.append_cancel_left same)
      exact ⟨major, .inl minor⟩
    · obtain ⟨major, minor⟩ := version_pair_injective (List.append_cancel_left same)
      exact ⟨major, .inr minor⟩
  · intro given
    obtain ⟨major, minor | minor⟩ := given
    · rw [major, minor, if_pos rfl]
    · rw [major, minor, if_neg Nat.one_ne_zero]

theorem fixedVersion_length_le : message.fixedVersion.length ≤ message.versionText.length := by
  have some (number : Nat) : 0 < (decimal number).length :=
    List.length_pos_iff.mpr (decimal_numeral number).1
  have fixed : message.fixedVersion.length = 8 := by
    unfold fixedVersion
    split <;> rfl
  have major := some message.httpMajor
  have minor := some message.httpMinor
  have sum : message.versionText.length =
      5 + (decimal message.httpMajor).length + 1 + (decimal message.httpMinor).length := by
    simp [versionText, ascii]
    omega
  omega

/-- On an empty buffer that has room for the text the two serializers write the
same bytes exactly for the versions 1.0 and 1.1. -/
theorem serializers_agree_iff {buffer : ContigBuffer} (empty : buffer.size = 0)
    (fits : (message.serializeHeadersText methodStr).length ≤ buffer.strategy.maxSize) :
    (∃ after, message.serializeHeadersInto methodStr buffer = .ok after ∧
        after.contents = message.serializeHeadersText methodStr) ↔
      message.httpMajor = 1 ∧ (message.httpMinor = 0 ∨ message.httpMinor = 1) := by
  have fresh : buffer.contents = [] :=
    List.eq_nil_of_length_eq_zero (by rw [buffer.contents_length, empty])
  have shorter := message.fixedVersion_length_le
  have room : buffer.mLength + (message.headPieces methodStr).flatten.length ≤
      buffer.strategy.maxSize := by
    have length : buffer.mLength = 0 := empty
    rw [serializeHeadersText_eq, List.length_append, List.length_append] at fits
    rw [headPieces_flatten_eq, List.length_append, List.length_append]
    omega
  obtain ⟨written, serialized, contents⟩ := ContigBuffer.appendAll_exists _ room
  rw [fresh, List.nil_append, headPieces_flatten_eq] at contents
  rw [← versionText_eq_fixedVersion_iff, serializeHeadersText_eq]
  constructor
  · intro given
    obtain ⟨after, same, text⟩ := given
    obtain rfl : written = after := Except.ok.inj (serialized.symm.trans same)
    rw [contents] at text
    exact (List.append_cancel_left (List.append_cancel_right text)).symm
  · intro same
    exact ⟨written, serialized, by rw [contents, same]⟩

/-- A parsed request with two fields, of version 1.1. -/
theorem parsed_request_serialized_alike :
    ∃ context, (ParserContext.pInitialize .new).handle
        (headEvents (.request [ascii "/"]) 
          [⟨[ascii "Host"], [ascii "h.x"], by decide, by decide⟩,
            ⟨[ascii "Accept"], [ascii "*/*"], by decide, by decide⟩] (.other 1) 1 1) = .ok context ∧
      context.message.fields.length = 2 ∧
      ∃ after, context.message.serializeHeadersInto (fun _ => ascii "GET")
          (.ofStrategy .standard) = .ok after ∧
        after.contents = context.message.serializeHeadersText (fun _ => ascii "GET") :=
  ⟨_, rfl, rfl, (serializers_agree_iff (fun _ => ascii "GET") _ rfl (by decide)).mpr
    ⟨rfl, .inr rfl⟩⟩

/-- A request of version 2.0 is written as one of version 1.0. -/
theorem other_version_serialized_differently :
    ∃ context, (ParserContext.pInitialize .new).handle
        (headEvents (.request [ascii "/"]) [] (.other 1) 2 0) = .ok context ∧
      (context.message.serializeHeadersText (fun _ => ascii "GET")).length ≤
        BufferMallocator.standard.maxSize ∧
      ∃ after, context.message.serializeHeadersInto (fun _ => ascii "GET")
          (.ofStrategy .standard) = .ok after ∧
        after.contents ≠ context.message.serializeHeadersText (fun _ => ascii "GET") :=
  ⟨_, rfl, by decide, _, rfl, by decide⟩

end MessageBase

end Marvin.Http
