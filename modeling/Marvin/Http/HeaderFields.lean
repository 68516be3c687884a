import Marvin.Data.Bytes
import Marvin.Data.KeyedList

namespace Marvin.Http

open Marvin.Data

/-! # Header fields

`marvin/http/header_fields.cpp`.  The vector of fields is private to the class
and every operation that stores a key converts it to upper case first, so the
stored key type is the type of upper-case texts.  The operations below follow
the index-based code; each has an equation that reduces it to the keyed-list
operation it implements.
-/

/-- A stored key: `toupper_copy` of the text it was given. -/
abbrev HeaderKey := { text : Bytes // toUpper text = text }

def HeaderKey.ofText (text : Bytes) : HeaderKey :=
  ⟨toUpper text, toUpper_idem text⟩

@[simp] theorem HeaderKey.ofText_val (key : HeaderKey) : HeaderKey.ofText key.val = key :=
  Subtype.ext key.property

abbrev Field := Entry HeaderKey Bytes

structure HeaderFields where
  fieldsVector : List Field
deriving DecidableEq, Repr

namespace HeaderFields

def acceptEncoding : Bytes := ascii "ACCEPT-ENCODING"
def connection : Bytes := ascii "CONNECTION"
def contentLength : Bytes := ascii "CONTENT-LENGTH"
def contentType : Bytes := ascii "CONTENT-TYPE"
def host : Bytes := ascii "HOST"
def proxyAuthorization : Bytes := ascii "PROXY-AUTHORIZATION"
def proxyAuthentication : Bytes := ascii "PROXY-AUTHENTICATION"
def proxyConnection : Bytes := ascii "PROXY-CONNECTION"
def te : Bytes := ascii "TE"
def transferEncoding : Bytes := ascii "TRANSFER-ENCODING"
def eTag : Bytes := ascii "ETAG"
def upgrade : Bytes := ascii "UPGRADE"
def trailer : Bytes := ascii "TRAILER"

def connectionClose : Bytes := ascii "CLOSE"
def connectionKeepAlive : Bytes := ascii "KEEP-ALIVE"

def empty : HeaderFields := ⟨[]⟩

def size (headers : HeaderFields) : Nat :=
  headers.fieldsVector.length

def findAtIndex (headers : HeaderFields) (key : Bytes) : Option Nat :=
  headers.fieldsVector.findIdx? (fun field => field.key = .ofText key)

def atKey (headers : HeaderFields) (key : Bytes) : Option Bytes :=
  match headers.findAtIndex key with
  | some index => headers.fieldsVector[index]?.map Entry.value
  | none => none

/-- The pointer overload of `set_at_key`, which only the parser uses: it always
adds a field, also when the key is already there. -/
def setAtKeyPtr (headers : HeaderFields) (key value : Bytes) : HeaderFields :=
  ⟨headers.fieldsVector ++ [⟨.ofText key, value⟩]⟩

def setAtKey (headers : HeaderFields) (key value : Bytes) : HeaderFields :=
  match headers.findAtIndex key with
  | some index => ⟨headers.fieldsVector.modify index (fun field => { field with value })⟩
  | none => ⟨headers.fieldsVector ++ [⟨.ofText key, value⟩]⟩

/-- The loop of `erase_at_index`: `count` assignments `v[idx] = v[idx+1]`. -/
def shiftDown : Nat → Nat → List Field → List Field
  | 0, _, fields => fields
  | count + 1, index, fields =>
      match fields[index + 1]? with
      | some next => shiftDown count (index + 1) (fields.set index next)
      | none => fields

/-- `erase(end())` drops the last element, as libstdc++ executes it. -/
def eraseAtIndex (headers : HeaderFields) (position : Nat) : HeaderFields :=
  if position < headers.size then
    ⟨(shiftDown (headers.size - 1 - position) position headers.fieldsVector).dropLast⟩
  else headers

def removeAtKey (headers : HeaderFields) (key : Bytes) : HeaderFields :=
  match headers.findAtIndex key with
  | some index => headers.eraseAtIndex index
  | none => headers

def copyExcept (source dest : HeaderFields) (filterList : List Bytes) : HeaderFields :=
  source.fieldsVector.foldl
    (fun dest field =>
      if field.key.val ∈ filterList then dest else dest.setAtKey field.key.val field.value)
    dest

theorem shiftDown_dropLast (count index : Nat) (fields : List Field)
    (bound : index + count + 1 = fields.length) :
    (shiftDown count index fields).dropLast = fields.eraseIdx index := by
  induction count generalizing index fields with
  | zero =>
      rw [shiftDown, List.dropLast_eq_eraseIdx bound]
  | succ count ih =>
      have inside : index + 1 < fields.length := by omega
      rw [shiftDown, List.getElem?_eq_getElem inside]
      rw [ih (index + 1) (fields.set index fields[index + 1]) (by simp only [List.length_set]; omega)]
      apply List.ext_getElem?
      intro position
      simp only [List.getElem?_eraseIdx, List.getElem?_set]
      by_cases before : position < index
      · simp [before, show position < index + 1 by omega, show index ≠ position by omega]
      · by_cases here : position = index
        · subst here
          simp [List.getElem?_eq_getElem inside, show position < fields.length by omega]
        · simp [before, show ¬ position < index + 1 by omega, show index ≠ position + 1 by omega]

theorem eraseAtIndex_eq_eraseIdx (headers : HeaderFields) (position : Nat) :
    (headers.eraseAtIndex position).fieldsVector = headers.fieldsVector.eraseIdx position := by
  by_cases inside : position < headers.size
  · rw [eraseAtIndex, if_pos inside]
    exact shiftDown_dropLast _ _ _ (by simp only [size] at *; omega)
  · rw [eraseAtIndex, if_neg inside, List.eraseIdx_of_length_le (by simpa [size] using inside)]

theorem atKey_eq_lookup (headers : HeaderFields) (key : Bytes) :
    headers.atKey key = KeyedList.lookup (.ofText key) headers.fieldsVector := by
  obtain ⟨fields⟩ := headers
  simp only [atKey, findAtIndex]
  induction fields with
  | nil => rfl
  | cons field rest ih =>
      by_cases same : field.key = .ofText key
      · simp [List.findIdx?_cons, same, KeyedList.lookup, KeyedList.restrict]
      · rw [List.findIdx?_cons, if_neg (by simpa using same)]
        have later : KeyedList.lookup (.ofText key) (field :: rest) =
            KeyedList.lookup (.ofText key) rest := by
          simp [KeyedList.lookup, KeyedList.restrict, same]
        rw [later, ← ih]
        cases List.findIdx? (fun field => decide (field.key = HeaderKey.ofText key)) rest <;> simp

theorem setAtKey_eq_put (headers : HeaderFields) (key value : Bytes) :
    (headers.setAtKey key value).fieldsVector =
      KeyedList.put (.ofText key) value headers.fieldsVector := by
  obtain ⟨fields⟩ := headers
  simp only [setAtKey, findAtIndex]
  induction fields with
  | nil => rfl
  | cons field rest ih =>
      by_cases same : field.key = .ofText key
      · simp [List.findIdx?_cons, same, KeyedList.put]
      · rw [List.findIdx?_cons, if_neg (by simpa using same), KeyedList.put, if_neg same, ← ih]
        cases List.findIdx? (fun field => decide (field.key = HeaderKey.ofText key)) rest <;> simp

theorem removeAtKey_eq_remove (headers : HeaderFields) (key : Bytes) :
    (headers.removeAtKey key).fieldsVector =
      KeyedList.remove (.ofText key) headers.fieldsVector := by
  rw [removeAtKey, KeyedList.remove, List.eraseP_eq_eraseIdx, findAtIndex]
  cases List.findIdx? (fun field => decide (field.key = HeaderKey.ofText key))
      headers.fieldsVector with
  | none => rfl
  | some index => exact headers.eraseAtIndex_eq_eraseIdx index

theorem copyExcept_eq_putAll (source dest : HeaderFields) (filterList : List Bytes) :
    (source.copyExcept dest filterList).fieldsVector =
      KeyedList.putAll dest.fieldsVector
        (KeyedList.restrict (fun key => decide (key.val ∉ filterList)) source.fieldsVector) := by
  obtain ⟨fields⟩ := source
  simp only [copyExcept]
  induction fields generalizing dest with
  | nil => rfl
  | cons field rest ih =>
      by_cases filtered : field.key.val ∈ filterList
      · simpa [filtered, KeyedList.restrict] using ih dest
      · have next := ih (dest.setAtKey field.key.val field.value)
        rw [setAtKey_eq_put, HeaderKey.ofText_val] at next
        simpa [filtered, KeyedList.restrict, KeyedList.putAll] using next

end HeaderFields

end Marvin.Http
