import Marvin.Helpers.Mitm
import Marvin.Http.HeaderSection

namespace Marvin.Helpers

open Marvin.Data Marvin.Http

/-! # End-to-end headers

Which of the fields a message came with are on the message that is sent on.
Copying puts the fields one by one, so of several fields of one name the last
value is left, in the place of the first.
-/

/-- The names a forwarding function has no business with: not on its list, not
named by a `Connection` field, and not one of the two it sets. -/
def endToEnd (dontCopyList : List Bytes) (source : MessageBase) (name : HeaderKey) : Bool :=
  decide (name.val ∉ dontCopyList) && decide (name ∉ connectionKeys source) &&
    decide (name.val ∉ [HeaderFields.acceptEncoding, HeaderFields.contentLength])

def endToEndFields (dontCopyList : List Bytes) (source message : MessageBase) : List Field :=
  KeyedList.restrict (endToEnd dontCopyList source) message.fields

section Selection

variable {dontCopyList : List Bytes} {source : MessageBase} {name : HeaderKey}

theorem endToEnd_listed (listed : name.val ∈ dontCopyList) :
    endToEnd dontCopyList source name = false := by
  simp [endToEnd, listed]

theorem endToEnd_named (member : name ∈ connectionKeys source) :
    endToEnd dontCopyList source name = false := by
  simp [endToEnd, member]

theorem endToEnd_set (set : name.val ∈ [HeaderFields.acceptEncoding, HeaderFields.contentLength]) :
    endToEnd dontCopyList source name = false := by
  have chosen := decide_eq_false (not_not.mpr set)
  rw [endToEnd, chosen, Bool.and_false]

theorem restrict_put_ignored (ignored : endToEnd dontCopyList source name = false) (value : Bytes)
    (fields : List Field) :
    KeyedList.restrict (endToEnd dontCopyList source) (KeyedList.put name value fields) =
      KeyedList.restrict (endToEnd dontCopyList source) fields := by
  rw [KeyedList.restrict_put, ignored]
  rfl

theorem restrict_copied {initial : List Field}
    (listed : ∀ name ∈ KeyedList.keys initial, name.val ∈ dontCopyList) :
    KeyedList.restrict (endToEnd dontCopyList source)
        (KeyedList.putAll initial (copied dontCopyList source)) =
      KeyedList.putAll [] (endToEndFields dontCopyList source source) := by
  rw [KeyedList.restrict_putAll, KeyedList.restrict_eq_nil fun name member =>
    endToEnd_listed (listed name member), copied, KeyedList.restrict_restrict]
  congr 2
  funext name
  by_cases member : name.val ∈ dontCopyList
  · rw [endToEnd_listed member, Bool.false_and]
  · rw [decide_eq_true member, Bool.and_true]

end Selection

theorem endToEnd_requestTransformCommon {upstreamRequest : MessageBase} (request : MessageBase)
    (prepared : ∀ name ∈ KeyedList.keys upstreamRequest.fields, name.val ∈ requestDontCopyList) :
    endToEndFields requestDontCopyList request (requestTransformCommon upstreamRequest request) =
      KeyedList.putAll [] (endToEndFields requestDontCopyList request request) := by
  rw [endToEndFields, fields_requestTransformCommon,
    restrict_put_ignored (endToEnd_set (by decide)),
    KeyedList.restrict_remove _ (endToEnd_listed (by decide)),
    restrict_put_ignored (endToEnd_listed (by decide)),
    restrict_put_ignored (endToEnd_set (by decide)),
    restrict_put_ignored (endToEnd_listed (by decide)), strippedFields,
    KeyedList.restrict_removeAll _ fun name member =>
      endToEnd_named (firstConnectionKeys_subset request member)]
  exact restrict_copied prepared

theorem endToEnd_makeDownstreamGoodResponse (response : MessageBase) :
    endToEndFields responseDontCopyList response (makeDownstreamGoodResponse .new response) =
      KeyedList.putAll [] (endToEndFields responseDontCopyList response response) := by
  have headed : KeyedList.restrict (endToEnd responseDontCopyList response)
      (KeyedList.put (key HeaderFields.connection) HeaderFields.connectionClose
        (KeyedList.putAll [] (copied responseDontCopyList response))) =
      KeyedList.putAll [] (endToEndFields responseDontCopyList response response) := by
    rw [restrict_put_ignored (endToEnd_listed (by decide))]
    exact restrict_copied (fun _ member => absurd member (by simp [KeyedList.keys]))
  rw [endToEndFields, fields_makeDownstreamGoodResponse]
  dsimp only
  split
  · rw [restrict_put_ignored (endToEnd_set (by decide)),
      KeyedList.restrict_remove _ (endToEnd_listed (by decide))]
    exact headed
  · exact headed

/-- Both directions keep the end-to-end fields, with their values, order and
number, exactly when no end-to-end name occurs twice. -/
theorem end_to_end_fields_kept_iff {upstreamRequest : MessageBase} (request response : MessageBase)
    (prepared : ∀ name ∈ KeyedList.keys upstreamRequest.fields, name.val ∈ requestDontCopyList) :
    (endToEndFields requestDontCopyList request (requestTransformCommon upstreamRequest request) =
        endToEndFields requestDontCopyList request request ↔
      (KeyedList.keys (endToEndFields requestDontCopyList request request)).Nodup) ∧
    (endToEndFields responseDontCopyList response (makeDownstreamGoodResponse .new response) =
        endToEndFields responseDontCopyList response response ↔
      (KeyedList.keys (endToEndFields responseDontCopyList response response)).Nodup) := by
  rw [endToEnd_requestTransformCommon request prepared, endToEnd_makeDownstreamGoodResponse]
  exact ⟨KeyedList.putAll_nil_eq_iff, KeyedList.putAll_nil_eq_iff⟩

def plainRequest : MessageBase :=
  ((MessageBase.new.setHeaderPtr (ascii "Host") (ascii "h.x")).setHeaderPtr
    (ascii "Accept") (ascii "*/*")).setHeaderPtr (ascii "Cookie") (ascii "a=1")

theorem plainRequest_fields_kept :
    endToEndFields requestDontCopyList plainRequest
        (requestTransformCommon (MessageBase.new.setHeader HeaderFields.host (ascii "h.x:80"))
          plainRequest) =
      endToEndFields requestDontCopyList plainRequest plainRequest :=
  (end_to_end_fields_kept_iff plainRequest .new (by decide)).1.mpr (by decide)

def cookieAndServerLines : List HeaderLine :=
  cookieLines ++ [.whole (ascii "Server") (ascii "s") (by decide)]

/-- A response with two cookies loses one on its way to the client. -/
theorem second_cookie_not_forwarded :
    ∃ context, (ParserContext.pInitialize .new).handle
        (headEvents (.response 200 [ascii "OK"]) cookieAndServerLines (.other 0) 1 1) = .ok context ∧
      endToEndFields responseDontCopyList context.message
          (makeDownstreamGoodResponse .new context.message) ≠
        endToEndFields responseDontCopyList context.message context.message :=
  ⟨_, rfl, by decide⟩

end Marvin.Helpers
