import Marvin.Buffer.BufferChain
import Marvin.Http.HeaderFields

namespace Marvin.Http

open Marvin.Data Marvin.Buffer

/-! # Messages

`marvin/http/message_base.cpp`.  The constructor leaves the method and the
status code uninitialised; those are the fields that can be `none`.  The body
pointer is never null: the constructor attaches an empty chain.
-/

/-- The enumerators come from http_parser's `HTTP_METHOD_MAP`; the code singles
out `CONNECT` only. -/
inductive HttpMethod where
  | connect
  | other (code : Nat)
deriving DecidableEq, Repr

structure MessageBase where
  isRequest : Bool
  method : Option HttpMethod
  target : Bytes
  statusCode : Option Nat
  reason : Bytes
  httpMajor : Nat
  httpMinor : Nat
  headers : HeaderFields
  body : BufferChain
deriving DecidableEq, Repr

namespace MessageBase

def new : MessageBase where
  isRequest := true
  method := none
  target := []
  statusCode := none
  reason := []
  httpMajor := 1
  httpMinor := 1
  headers := .empty
  body := .empty

def setIsRequest (message : MessageBase) (flag : Bool) : MessageBase :=
  { message with isRequest := flag }

def setStatusCode (message : MessageBase) (code : Option Nat) : MessageBase :=
  { message with statusCode := code, isRequest := false }

def setReason (message : MessageBase) (reason : Bytes) : MessageBase :=
  { message with reason, isRequest := false }

def setMethod (message : MessageBase) (method : Option HttpMethod) : MessageBase :=
  { message with method, isRequest := true }

def setTarget (message : MessageBase) (target : Bytes) : MessageBase :=
  { message with target }

def setVersion (message : MessageBase) (major minor : Nat) : MessageBase :=
  { message with httpMajor := major, httpMinor := minor }

def setVersionMinor (message : MessageBase) (minor : Nat) : MessageBase :=
  { message with httpMinor := minor }

def header (message : MessageBase) (key : Bytes) : Option Bytes :=
  message.headers.atKey key

/-- `header(key, value)`: trims the value and overwrites a present key. -/
def setHeader (message : MessageBase) (key value : Bytes) : MessageBase :=
  { message with headers := message.headers.setAtKey key (trim value) }

/-- `header(std::string*, std::string*)`: adds the value as it is. -/
def setHeaderPtr (message : MessageBase) (key value : Bytes) : MessageBase :=
  { message with headers := message.headers.setAtKeyPtr key value }

def removeHeader (message : MessageBase) (key : Bytes) : MessageBase :=
  { message with headers := message.headers.removeAtKey key }

def setBody (message : MessageBase) (chain : BufferChain) : MessageBase :=
  ({ message with body := chain }.removeHeader HeaderFields.transferEncoding).setHeader
    HeaderFields.contentLength (decimal chain.size)

def fields (message : MessageBase) : List Field :=
  message.headers.fieldsVector

@[simp] theorem fields_setHeader (message : MessageBase) (key value : Bytes) :
    (message.setHeader key value).fields = KeyedList.put (.ofText key) (trim value) message.fields :=
  message.headers.setAtKey_eq_put key (trim value)

@[simp] theorem fields_removeHeader (message : MessageBase) (key : Bytes) :
    (message.removeHeader key).fields = KeyedList.remove (.ofText key) message.fields :=
  message.headers.removeAtKey_eq_remove key

@[simp] theorem fields_setHeaderPtr (message : MessageBase) (key value : Bytes) :
    (message.setHeaderPtr key value).fields = message.fields ++ [⟨.ofText key, value⟩] := rfl

theorem header_eq_lookup (message : MessageBase) (key : Bytes) :
    message.header key = KeyedList.lookup (.ofText key) message.fields :=
  message.headers.atKey_eq_lookup key

@[simp] theorem fields_setBody (message : MessageBase) (chain : BufferChain) :
    (message.setBody chain).fields =
      KeyedList.put (.ofText HeaderFields.contentLength) (decimal chain.size)
        (KeyedList.remove (.ofText HeaderFields.transferEncoding) message.fields) := by
  rw [setBody, fields_setHeader, fields_removeHeader, trim_decimal]
  rfl

@[simp] theorem target_setHeader (message : MessageBase) (key value : Bytes) :
    (message.setHeader key value).target = message.target := rfl

@[simp] theorem method_setHeader (message : MessageBase) (key value : Bytes) :
    (message.setHeader key value).method = message.method := rfl

@[simp] theorem target_removeHeader (message : MessageBase) (key : Bytes) :
    (message.removeHeader key).target = message.target := rfl

@[simp] theorem method_removeHeader (message : MessageBase) (key : Bytes) :
    (message.removeHeader key).method = message.method := rfl

@[simp] theorem target_setVersionMinor (message : MessageBase) (minor : Nat) :
    (message.setVersionMinor minor).target = message.target := rfl

@[simp] theorem method_setVersionMinor (message : MessageBase) (minor : Nat) :
    (message.setVersionMinor minor).method = message.method := rfl

@[simp] theorem target_setBody (message : MessageBase) (chain : BufferChain) :
    (message.setBody chain).target = message.target := rfl

@[simp] theorem method_setBody (message : MessageBase) (chain : BufferChain) :
    (message.setBody chain).method = message.method := rfl

@[simp] theorem isRequest_setHeader (message : MessageBase) (key value : Bytes) :
    (message.setHeader key value).isRequest = message.isRequest := rfl

@[simp] theorem isRequest_removeHeader (message : MessageBase) (key : Bytes) :
    (message.removeHeader key).isRequest = message.isRequest := rfl

@[simp] theorem isRequest_setVersionMinor (message : MessageBase) (minor : Nat) :
    (message.setVersionMinor minor).isRequest = message.isRequest := rfl

@[simp] theorem isRequest_setBody (message : MessageBase) (chain : BufferChain) :
    (message.setBody chain).isRequest = message.isRequest := rfl

/-! ## The serialized head

The appends of `serialize_headers(msg, ContigBuffer::SPtr)`, in order.  The
method's text is http_parser's `http_method_str`. -/

def headerLine (field : Field) : List Bytes :=
  [field.key.val, ascii ": ", field.value, ascii "\r\n"]

def headPieces (methodStr : HttpMethod → Bytes) (message : MessageBase) : List Bytes :=
  (if message.isRequest then
    [(message.method.map methodStr).getD [], ascii " ", message.target,
      if message.httpMinor = 0 then ascii " HTTP/1.0\r\n" else ascii " HTTP/1.1\r\n"]
  else
    [if message.httpMinor = 0 then ascii "HTTP/1.0 " else ascii "HTTP/1.1 ",
      decimal (message.statusCode.getD 0) ++ ascii " " ++ message.reason ++ ascii "\r\n"]) ++
  (message.fields.map headerLine).flatten ++ [ascii "\r\n"]

def serializeHeaders (methodStr : HttpMethod → Bytes) (message : MessageBase) :
    Except Fault ContigBuffer := do
  let buffer ← ContigBuffer.ofCapacity .standard (256 * 4 * 8)
  (message.headPieces methodStr).foldlM ContigBuffer.append buffer

theorem serializeHeaders_eq (methodStr : HttpMethod → Bytes) (message : MessageBase) :
    ∃ start : ContigBuffer, start.Sound ∧ start.strategy = .standard ∧ start.mLength = 0 ∧
      start.contents = [] ∧
      message.serializeHeaders methodStr =
        (message.headPieces methodStr).foldlM ContigBuffer.append start := by
  have allocated := ContigBuffer.ofCapacity_ok .standard (256 * 4 * 8) (by decide)
  refine ⟨⟨.standard, [], 0, max (256 * 4 * 8) BufferMallocator.standard.minSize, 0⟩,
    ⟨rfl, rfl, Nat.zero_le _, by decide⟩, rfl, rfl, rfl, ?_⟩
  simp only [serializeHeaders, allocated, bind, Except.bind]

theorem serializeHeaders_ok {methodStr : HttpMethod → Bytes} {message : MessageBase}
    (small : (message.headPieces methodStr).flatten.length ≤ 1024 * 1024) :
    ∃ buffer, message.serializeHeaders methodStr = .ok buffer ∧
      buffer.contents = (message.headPieces methodStr).flatten := by
  obtain ⟨start, sound, strategy, empty, fresh, same⟩ := message.serializeHeaders_eq methodStr
  obtain ⟨after, folded, _, contents⟩ := ContigBuffer.appendAll_ok sound
    (message.headPieces methodStr) (by simpa [strategy, empty, BufferMallocator.standard] using small)
  exact ⟨after, same.trans folded, by rw [contents, fresh, List.nil_append]⟩

theorem serializeHeaders_error {methodStr : HttpMethod → Bytes} {message : MessageBase}
    (big : 1024 * 1024 < (message.headPieces methodStr).flatten.length) :
    message.serializeHeaders methodStr = .error .requestedAllocationTooBig := by
  obtain ⟨start, sound, strategy, empty, _, same⟩ := message.serializeHeaders_eq methodStr
  exact same.trans (ContigBuffer.appendAll_error sound _
    (by simpa [strategy, empty, BufferMallocator.standard] using big))

end MessageBase

end Marvin.Http
