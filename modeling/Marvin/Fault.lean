import Mathlib.Init

namespace Marvin

/-- The ways a modelled function leaves other than by returning: a failed
`assert`, the value of an empty `boost::optional`, or a thrown exception. -/
inductive Fault where
  | requestedAllocationTooBig
  | unexpectedHeaderState
  | noDefaultPort
  | portIsZero
  | upgradeRequest
  | noHostHeader
  | connectRejected
  | timeoutNotActive
  | noCancelHandler
  | expireHandlerPresent
  | timerFailed
  | descriptorRegistered
  | handlerRegistered
  | descriptorNotRegistered
  | handlerNotRegistered
  | allowMorePending
  | alreadySecured
  | invalidHandshakeType
  | noServerCertificate
  | connectionPresent
  | regexError
  | closedAlready
  | shutdownFailed
deriving DecidableEq, Repr

/-- The `boost::system::error_code` values the code makes or tests for. -/
inductive ErrorType where
  | ok
  | eof
  | parserError
  | operationAborted
  | other (code : Nat)
deriving DecidableEq, Repr

theorem exists_ok_of_bind {ε α β : Type} {first : Except ε α} {next : α → Except ε β} {result : β}
    (done : first >>= next = .ok result) : ∃ middle, first = .ok middle ∧ next middle = .ok result := by
  cases first with
  | error fault => cases done
  | ok middle => exact ⟨middle, rfl, done⟩

end Marvin
