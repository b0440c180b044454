import ExpenseEngine.Auth

/-!
# The idempotency layer

Every write runs its work between the claim of the request's key and the storing
of the answer, in one transaction: advisory lock, lookup, work, insert.
-/

namespace ExpenseEngine

open Sql Sql.Prog

/-- The parts of a request that its fingerprint covers, as bytes. -/
structure RawRequest where
  method : List UInt8
  path : List UInt8
  query : List UInt8
  body : List UInt8

/-- What `capture_request_fingerprint` feeds to SHA-256. -/
def RawRequest.hashInput (r : RawRequest) : List UInt8 :=
  r.method ++ 0 :: r.path ++ 0 :: r.query ++ 0 :: r.body

/-- A fresh answer, or the stored one with its status. -/
inductive Reply where
  | fresh (body : Body)
  | cached (body : Body) (status : Nat)
  deriving DecidableEq

def keyReused : AppError :=
  conflict ("This idempotency key was already used for a different request. " ++
    "Send one unique key per intended write.")

def keyNotReplayable : AppError :=
  conflict ("This idempotency key was already used, and the original " ++
    "response contained a one-time secret that cannot be replayed. " ++
    "Retry with a new key to perform a new write.")

variable [Platform]

def fingerprintOf (r : RawRequest) : Text := Platform.sha256Hex r.hashInput

/-- The advisory lock of a key: the user's uuid, a colon and the key, hashed. -/
def lockId (userId : Uuid) (key : Text) : Int :=
  Platform.sha256Prefix (encode ((uuidStr userId).toList ++ ':' :: key))

def isKeyRow (userId : Uuid) (key : Text) (r : Row .idempotencyKeys) : Bool :=
  decide (r.userId = userId ∧ r.key = key)

/-- The answer a stored row gives to a request with this fingerprint. -/
def replay (row : Row .idempotencyKeys) (fingerprint : Text) : Except AppError Reply :=
  if row.requestHash ≠ [] ∧ row.requestHash ≠ fingerprint then .error keyReused
  else match row.responseSnapshot with
    | none => .error keyNotReplayable
    | some body => .ok (.cached body row.responseStatus)

/-- Lock the key and return the stored answer, if there is one. -/
def claim (userId : Uuid) (key fingerprint : Text) : Op (Option Reply) := do
  advisoryLock (lockId userId key)
  match ← fetchRow .other .idempotencyKeys (isKeyRow userId key) with
  | none => return none
  | some row =>
    match replay row fingerprint with
    | .ok reply => return some reply
    | .error e => raise e

def store (env : Env) (userId : Uuid) (key fingerprint : Text) (body : Option Body)
    (status : Nat) : Op Unit := do
  let o ← insertOrSkip .idempotencyKeys
    { id := env.storeUuid, key := key, userId := userId, responseSnapshot := body
      responseStatus := status, requestHash := fingerprint, createdAt := env.now }
    (isKeyRow userId key)
  if o = .violation then .fail .database

/-- `key = none` is a request without `X-Idempotency-Key`; `fingerprint = none`
is one that never went through `capture_request_fingerprint`. -/
def runIdempotent (env : Env) (userId : Uuid) (key fingerprint : Option Text) (statusCode : Nat)
    (work : Op Body) (storeSnapshot : Bool) : Op Reply :=
  match key, fingerprint with
  | none, _ => .fresh <$> work
  | some _, none => raise internalError
  | some key, some fingerprint => do
    match ← claim userId key fingerprint with
    | some reply => return reply
    | none =>
      let response ← work
      store env userId key fingerprint (if storeSnapshot then some response else none) statusCode
      return .fresh response

end ExpenseEngine
