/-!
# Refusals

Reasons why a call is turned down before it changes anything. How a transfer
went is not among them: that is the request's status.
-/

namespace SharedBus

inductive Error where
  | pending
  /-- A buffer of `length` bytes is longer than the `limit` of a request. -/
  | bufferTooLong (length limit : Nat)
  /-- The bus still has `queued` requests and stays up. -/
  | inUse (queued : Nat)
  deriving DecidableEq, Repr

def Error.message : Error → String
  | .pending => "request is still pending"
  | .bufferTooLong length limit =>
    "buffer of " ++ toString length ++ " bytes exceeds limit of " ++ toString limit
  | .inUse queued => "bus has " ++ toString queued ++ " queued requests"

end SharedBus
