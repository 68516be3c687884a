import Marvin.Http.MessageBase

namespace Marvin.Http

open Marvin.Data

/-! # Keep-alive

The tests of `marvin/http/header_fields.cpp` on the value of a `Connection`
field, and the one of `message_base.cpp` on a message.  The pattern
`(\s*)(,|;|\s|^)(\s*)close(\s*)(,|;|\s|$)` is found in a text exactly when the
word occurs in it, in any case, between delimiters or ends of the text.
-/

/-- A comma, a semicolon or white space. -/
def isDelimiter (byte : UInt8) : Bool :=
  byte == 44 || byte == 59 || isSpace byte

def startsWithWord (word text : Bytes) : Bool :=
  toUpper (text.take word.length) == toUpper word && (text.drop word.length).head?.all isDelimiter

/-- `regex_search`, from a place that may or may not be the start of a word. -/
def searchWord (word : Bytes) (boundary : Bool) : Bytes → Bool
  | [] => boundary && startsWithWord word []
  | byte :: rest =>
      boundary && startsWithWord word (byte :: rest) || searchWord word (isDelimiter byte) rest

def isKeepAliveValue (value : Bytes) : Bool :=
  searchWord (ascii "keep-alive") true value

def isCloseValue (value : Bytes) : Bool :=
  searchWord (ascii "close") true value

namespace MessageBase

def isConnectionKeepAlive (message : MessageBase) : Bool :=
  match message.header HeaderFields.connection with
  | some value =>
      if isKeepAliveValue value then true
      else if isCloseValue value then false
      else message.httpMinor == 1
  | none => message.httpMinor == 1

/-- The value the proxy puts there is read back as a close. -/
theorem not_keepAlive_of_close {message : MessageBase}
    (closes : message.header HeaderFields.connection = some HeaderFields.connectionClose) :
    message.isConnectionKeepAlive = false := by
  have word : isCloseValue HeaderFields.connectionClose = true := by decide
  have other : isKeepAliveValue HeaderFields.connectionClose = false := by decide
  simp [isConnectionKeepAlive, closes, word, other]

end MessageBase

end Marvin.Http
