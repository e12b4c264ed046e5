import SnapStore.Meta

/-!
# Errors of the client and its retry policy

The gRPC status a metadata error becomes on the server, the error the client decodes from it, and
the decision `with_retry` takes after each attempt.
-/

namespace SnapStore.Client

/-- `tonic::Code` without `Ok`. -/
inductive Code where
  | cancelled
  | unknown
  | invalidArgument
  | deadlineExceeded
  | notFound
  | alreadyExists
  | permissionDenied
  | resourceExhausted
  | failedPrecondition
  | aborted
  | outOfRange
  | unimplemented
  | internal
  | unavailable
  | dataLoss
  | unauthenticated
deriving DecidableEq

inductive Detail where
  | missingPages (pageHashes : List PageHash) (parentRef : Option SnapshotRef)
  | missingNodes (nodeIds : List NodeId)
  | currentGeneration (generation : Nat)

structure Status where
  code : Code
  message : String
  detail : Option Detail

inductive ClientError where
  | missingPages (pageHashes : List PageHash) (parentRef : Option SnapshotRef)
  | missingNodes (nodeIds : List NodeId)
  | casFailed (currentGeneration : Nat)
  | alreadyExists
  | status (s : Status)
  | transport (msg : String)
  | corruptPayload (context expected actual : String)
  | batchBlake3Mismatch (expected actual : String)
  | corruptInputLog (expected actual : String)

def metaErrorToStatus : MetaError → Status
  | .missingNodes ids =>
    let names := ids.map fun id => s!"NodeId({id})"
    ⟨.notFound, s!"nodes not found: {names}", some (.missingNodes ids)⟩
  | .casFailed current =>
    ⟨.failedPrecondition, s!"CAS failed; current generation is {current}",
      some (.currentGeneration current)⟩
  | .alreadyExists => ⟨.alreadyExists, "node already exists", none⟩
  | .parentNotFound => ⟨.failedPrecondition, "parent node not found or is pruned", none⟩
  | .pruneRootDenied => ⟨.failedPrecondition, "root node pruning requires allow_root", none⟩
  | .invalidArgument msg => ⟨.invalidArgument, msg, none⟩
  | .logIdMismatch => ⟨.invalidArgument, "log_id does not match container content", none⟩
  | .logTooSmall => ⟨.invalidArgument, "input log container too small", none⟩
  | .logTooLarge => ⟨.invalidArgument, "input log container exceeds max size", none⟩
  | .sqlite => ⟨.internal, "sqlite error", none⟩
  | .io msg => ⟨.internal, s!"meta I/O error: {msg}", none⟩

def decodeDetails (s : Status) : Option ClientError :=
  s.detail.map fun
    | .missingPages pageHashes parentRef => .missingPages pageHashes parentRef
    | .missingNodes nodeIds => .missingNodes nodeIds
    | .currentGeneration generation => .casFailed generation

def decodeStatus (s : Status) : ClientError :=
  match s.code with
  | .alreadyExists => .alreadyExists
  | .failedPrecondition => (decodeDetails s).getD (.status s)
  | .notFound => (decodeDetails s).getD (.status s)
  | _ => .status s

def ClientError.isNonRetryable : ClientError → Bool
  | .missingPages _ _ => true
  | .missingNodes _ => true
  | .casFailed _ => true
  | .alreadyExists => true
  | .batchBlake3Mismatch _ _ => true
  | .corruptPayload _ _ _ => true
  | .corruptInputLog _ _ => true
  | _ => false

def isRetryable (e : ClientError) : Bool :=
  if e.isNonRetryable then false
  else
    match e with
    | .status s => s.code = .unavailable ∨ s.code = .deadlineExceeded
    | .transport _ => true
    | _ => false

/-! ## `with_retry` -/

/-- Times are in milliseconds. -/
def maxElapsed : Nat := 30000

def initialDelay : Nat := 50

def maxDelay : Nat := 5000

structure Backoff where
  delay : Nat
  attempt : Nat

def Backoff.start : Backoff := ⟨initialDelay, 0⟩

def Backoff.sleepDur (b : Backoff) : Nat := min (b.delay + b.attempt * 7 % 20) maxDelay

def Backoff.next (b : Backoff) : Backoff := ⟨min (b.delay * 2) maxDelay, b.attempt + 1⟩

/-- What the loop does with the result of an attempt: return, or sleep and try again. -/
inductive Decision (α : Type) where
  | finish (r : Except ClientError α)
  | retry (sleepDur : Nat) (b : Backoff)

def afterAttempt {α : Type} (elapsed : Nat) (b : Backoff) : Except ClientError α → Decision α
  | .ok v => .finish (.ok v)
  | .error e =>
    if isRetryable e then
      if elapsed ≥ maxElapsed then .finish (.error e) else .retry b.sleepDur b.next
    else .finish (.error e)

theorem isRetryable_metaError (e : MetaError) :
    isRetryable (decodeStatus (metaErrorToStatus e)) = false := by
  cases e <;> rfl

end SnapStore.Client
