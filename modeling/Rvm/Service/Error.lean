import Rvm.Context.Capability
import Rvm.Context.Receipt

/-!
Owns the error contract of `rvm-context-service/src/error.rs`. The text of an error
that another layer reported is that error.
-/

namespace Rvm.Service

open Context

/-- Why persistent state could not be read or committed. -/
inductive DatabaseFailure where
  | storage
  | receiptVerification (error : ContextReceiptError)
deriving DecidableEq, Repr

/-- Why the governed runtime did not serve the service. -/
inductive RuntimeFailure where
  | backpressure
  | refused (error : ContextError)
deriving DecidableEq, Repr

/-- Fail-closed durable service failures. -/
inductive ServiceError where
  | database (failure : DatabaseFailure)
  | cryptography (message : String)
  | corruptState (message : String)
  | embedding (message : String)
  | vector (message : String)
  | runtime (failure : RuntimeFailure)
deriving DecidableEq, Repr

end Rvm.Service
