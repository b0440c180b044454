import ExpenseEngine.Validation

/-!
# Users, settings and access tokens
-/

namespace ExpenseEngine

open Sql Sql.Prog

structure SettingsFields where
  mainCurrency : Option Text
  displayTimezone : Option Text
  deriving DecidableEq

/-- The UTF-8 bytes of a text. -/
def encode (s : Text) : List UInt8 := s.flatMap String.utf8EncodeChar

def patPrefix : Text := "ewe_pat_".toList

def patPrefixLen : Nat := patPrefix.length + 4

variable [Platform]

/-! ## Users and settings -/

def setLogin (env : Env) : Change Row .users :=
  ⟨fun r => { r with lastLoginAt := some env.now, updatedAt := env.now }, fun _ => rfl⟩

/-- The user row of a bootstrap: inserted and logged, or its login bumped. -/
def upsertUser (env : Env) (userId : Uuid) (displayName : Text) : Op (Row .users) := do
  match ← fetchRow .other .users fun r => decide (r.id = userId) with
  | none =>
    let row : Row .users :=
      { id := userId, displayName := some displayName, lastLoginAt := some env.now
        createdAt := env.now, updatedAt := env.now }
    insertOrAbort .users row
    writeActivityLog env (env.uuid 0) userId "user" userId .created none (some (.user row))
    return row
  | some _ =>
    orRaise (← updateRow .users (fun r => decide (r.id = userId)) (setLogin env)) internalError

def ensureSettings (env : Env) (userId : Uuid) (timezone : Text) : Op (Row .userSettings) := do
  match ← fetchRow .other .userSettings fun r => decide (r.userId = userId) with
  | some row => return row
  | none =>
    let row : Row .userSettings :=
      { userId := userId, mainCurrency := homeCurrency, displayTimezone := timezone, version := 1
        createdAt := env.now, updatedAt := env.now }
    insertOrAbort .userSettings row
    writeActivityLog env (env.uuid 1) userId "user_settings" userId .created none
      (some (.settings row))
    return row

def bootstrap (env : Env) (userId : Uuid) (displayName timezone : Text) : Op Body := do
  validateTimezone timezone "timezone"
  let userRow ← upsertUser env userId displayName
  let settingsRow ← ensureSettings env userId timezone
  return .bootstrap userRow settingsRow

def setSettings (env : Env) (fields : SettingsFields) : Change Row .userSettings :=
  ⟨fun r =>
    { r with
      displayTimezone := fields.displayTimezone.getD r.displayTimezone
      updatedAt := env.now
      version := r.version + 1 },
   fun _ => rfl⟩

def validateNewTimezone : Option Text → Op Unit
  | none => pure ()
  | some tz => validateTimezone tz "display_timezone"

def updateSettings (env : Env) (userId : Uuid) (fields : SettingsFields) : Op Body := do
  if fields = ⟨none, none⟩ then
    let row ← orRaise (← fetchRow .other .userSettings fun r => decide (r.userId = userId))
      (notFound "user_settings")
    return .settings row
  else
    raiseIf fields.mainCurrency.isSome (validationError "Home currency cannot be changed."
      [("main_currency", "The home currency is locked to PEN and is not updatable.")])
    validateNewTimezone fields.displayTimezone
    let before ← orRaise (← fetchRow .other .userSettings fun r => decide (r.userId = userId))
      (notFound "user_settings")
    let after ← orRaise
      (← updateRow .userSettings (fun r => decide (r.userId = userId)) (setSettings env fields))
      internalError
    writeActivityLog env (env.uuid 0) userId "user_settings" userId .updated
      (some (.settings before)) (some (.settings after))
    return .settings after

def setProfile (env : Env) (displayName : Text) : Change Row .users :=
  ⟨fun r => { r with displayName := some displayName, updatedAt := env.now }, fun _ => rfl⟩

def updateProfile (env : Env) (userId : Uuid) (displayName : Option Text) : Op Body := do
  let name ← orRaise displayName (validationError "No fields to update."
    [("display_name", "Pass at least one field to update.")])
  let before ← orRaise (← fetchRow .other .users fun r => decide (r.id = userId))
    (notFound "user")
  let after ← orRaise
    (← updateRow .users (fun r => decide (r.id = userId)) (setProfile env name)) internalError
  writeActivityLog env (env.uuid 0) userId "user" userId .updated (some (.user before))
    (some (.user after))
  return .user after

/-! ## Personal access tokens -/

def hashPat (plaintext : Text) : Text := Platform.sha256Hex (encode plaintext)

/-- A stored token without its hash. -/
def patFromRow (row : Row .personalAccessTokens) : PatResponse :=
  ⟨row.id, row.userId, row.tokenPrefix, row.name, row.createdAt, row.revokedAt⟩

/-- The plaintext is in the answer and nowhere else. -/
def createPat (env : Env) (userId : Uuid) (name : Option Text) : Op Body := do
  let plaintext := patPrefix ++ env.token
  let row : Row .personalAccessTokens :=
    { id := env.uuid 1, userId := userId, tokenHash := hashPat plaintext
      tokenPrefix := plaintext.take patPrefixLen, name := name, createdAt := env.now
      revokedAt := none }
  insertOrAbort .personalAccessTokens row
  writeActivityLog env (env.uuid 0) userId "personal_access_token" row.id .created none
    (some (.pat (patFromRow row)))
  return .createdPat plaintext (patFromRow row)

def setRevoked (env : Env) : Change Row .personalAccessTokens :=
  ⟨fun r => { r with revokedAt := some env.now }, fun _ => rfl⟩

def revokePat (env : Env) (userId patId : Uuid) : Op Body := do
  let before ← orRaise
    (← fetchRow .other .personalAccessTokens fun r =>
      decide (r.id = patId ∧ r.userId = userId ∧ r.revokedAt = none))
    (notFound "personal_access_token")
  let after ← orRaise
    (← updateRow .personalAccessTokens (fun r => decide (r.id = patId ∧ r.userId = userId))
      (setRevoked env))
    internalError
  writeActivityLog env (env.uuid 0) userId "personal_access_token" patId .deleted
    (some (.pat (patFromRow before))) (some (.pat (patFromRow after)))
  return .pat (patFromRow after)

/-! ## Authentication -/

def msgMissingToken : String := "Missing or invalid authentication token."
def msgRevokedToken : String := "Invalid or revoked token."

/-- The token of an `Authorization` header that starts with `Bearer`. -/
def bearerToken (authorization : Option Text) : Option Text :=
  (authorization.filter fun header => "Bearer ".toList.isPrefixOf header).map fun header =>
    strip (header.drop "Bearer ".toList.length)

/-- The user a request acts for. -/
def getCurrentUser (authorization : Option Text) : Op Uuid := do
  let token ← orRaise (bearerToken authorization) (unauthorized msgMissingToken)
  raiseIf (patPrefix.isPrefixOf token = false) (unauthorized msgRevokedToken)
  let row ← orRaise
    (← fetchRow .other .personalAccessTokens fun r =>
      decide (r.tokenHash = hashPat token ∧ r.revokedAt = none))
    (unauthorized msgRevokedToken)
  return row.userId

end ExpenseEngine
