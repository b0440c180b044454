import ExpenseEngine.Effects.Statements
import ExpenseEngine.Sql.Uniqueness
import Mathlib.Data.List.Forall2

/-!
# Access tokens over sequential runs

A token is stored as its SHA-256 hash and its first letters. The plaintext goes
into the answer of the mint, whose snapshot is not stored, and nowhere else, so
the state does not depend on the rest of it. The lookup by hash among the tokens
that are not revoked accepts what was minted and not revoked since.

Results:
1. `run_withToken`: runs that differ in plaintexts with one hash and prefix.
2. `tokens_change`: what a call does to the tokens.
3. `tokens_stay_secret_and_exact`: both over every run from an empty token table.
-/

namespace ExpenseEngine

open Sql Sql.Prog

section Tokens

variable [Platform] {db db₀ : Db} {env : Env} {userId u : Uuid} {c : Call}

/-! ## Secrets that the store cannot tell apart -/

/-- The call with another random token. -/
def Call.withToken (c : Call) (token : Text) : Call :=
  { c with env := { c.env with token := token } }

/-- The plaintexts have one hash and one display prefix. -/
def SameStored (token token' : Text) : Prop :=
  hashPat (patPrefix ++ token') = hashPat (patPrefix ++ token) ∧
    (patPrefix ++ token').take patPrefixLen = (patPrefix ++ token).take patPrefixLen

/-- The call differs from the other in its random token at most. -/
def DiffersInToken (c c' : Call) : Prop :=
  ∃ token, c' = c.withToken token ∧ SameStored c.env.token token

namespace TokenLemmas

theorem createItems_withToken (token : Text) (items : List TransactionCreateRequest) :
    createItems { env with token := token } userId items = createItems env userId items := by
  induction items with
  | nil => rfl
  | cons item items ih =>
    simp only [createItems, ih]
    rfl

theorem logCreated_withToken (token : Text) (responses : List TransactionResponse) (i : Nat) :
    logCreated { env with token := token } userId responses i =
      logCreated env userId responses i := by
  induction responses generalizing i with
  | nil => rfl
  | cons response responses ih =>
    simp only [logCreated, ih]
    rfl

/-- Only the creation of a token reads the secret. -/
theorem work_withToken (token : Text) (request : Request)
    (h : ∀ name, request ≠ .createPat name) :
    request.work { env with token := token } userId = request.work env userId := by
  cases request with
  | createPat name => exact absurd rfl (h name)
  | batchCreateTransactions items =>
    simp only [Request.work, createBatch, createItems_withToken, logCreated_withToken]
    rfl
  | _ => rfl

/-- The row of a new token. -/
def newTokenRow (env : Env) (userId : Uuid) (name : Option Text) : Row .personalAccessTokens :=
  ({ id := env.uuid 1, userId := userId, tokenHash := hashPat (patPrefix ++ env.token)
     tokenPrefix := (patPrefix ++ env.token).take patPrefixLen, name := name
     createdAt := env.now, revokedAt := none } : PersonalAccessTokenRow)

/-- What the creation of a token writes. -/
def storeToken (env : Env) (userId : Uuid) (name : Option Text) : Op Unit := do
  insertOrAbort .personalAccessTokens (newTokenRow env userId name)
  writeActivityLog env (env.uuid 0) userId "personal_access_token" (newTokenRow env userId name).id
    .created none (some (.pat (patFromRow (newTokenRow env userId name))))

theorem createPat_eq (env : Env) (userId : Uuid) (name : Option Text) :
    createPat env userId name = storeToken env userId name >>= fun _ =>
      pure (.createdPat (patPrefix ++ env.token) (patFromRow (newTokenRow env userId name))) := by
  rw [storeToken, LawfulMonad.bind_assoc]
  rfl

theorem storeToken_withToken {token : Text} (h : SameStored env.token token) (name : Option Text) :
    storeToken { env with token := token } userId name = storeToken env userId name := by
  have hrow : newTokenRow { env with token := token } userId name =
      newTokenRow env userId name := by
    simp only [newTokenRow, h.1, h.2]
    rfl
  simp only [storeToken, hrow]
  rfl

/-- The state that an execution leaves, without the answer. -/
def leaves {α : Type} (p : Op α) (db : Db) : Except (Failure AppError) Db :=
  (exec p db).map Prod.snd

/-- What the answer of a work is makes no difference to the state when no snapshot
of it is stored. -/
theorem leaves_runIdempotent {key fingerprint : Option Text} {status : Nat} {p : Op Unit}
    (a b : Body) :
    leaves (runIdempotent env userId key fingerprint status (p >>= fun _ => pure a) false) db =
      leaves (runIdempotent env userId key fingerprint status (p >>= fun _ => pure b) false)
        db := by
  unfold leaves runIdempotent
  split
  · simp only [map_eq_pure_bind, exec_bind]
    cases exec p db <;> rfl
  · rfl
  · simp only [exec_bind]
    cases exec (claim userId _ _) db with
    | error e => rfl
    | ok found =>
      obtain ⟨found, db₁⟩ := found
      cases found with
      | some reply => rfl
      | none =>
        simp only [exec_bind]
        cases exec p db₁ with
        | error e => rfl
        | ok x =>
          simp only [exec_pure, Bool.false_eq_true, if_false]
          cases exec (store _ _ _ _ none _) x.2 <;> rfl

theorem step_of_leaves {c c' : Call} (h : leaves c'.handle db = leaves c.handle db) :
    step db c' = step db c := by
  have hstate : ∀ c, step db c =
      match leaves c.handle db with
      | .ok db' => db'
      | .error _ => db := by
    intro c
    unfold step leaves
    cases exec c.handle db <;> rfl
  rw [hstate, hstate, h]

theorem handle_createPat {name : Option Text} (h : c.request = .createPat name) :
    c.handle = runIdempotent c.env c.userId c.key c.fingerprint 201
      (storeToken c.env c.userId name >>= fun _ => pure (.createdPat (patPrefix ++ c.env.token)
        (patFromRow (newTokenRow c.env c.userId name)))) false := by
  unfold Call.handle
  rw [h, ← createPat_eq]
  rfl

theorem step_withToken {c' : Call} (h : DiffersInToken c c') : step db c' = step db c := by
  obtain ⟨token, rfl, hsame⟩ := h
  refine step_of_leaves ?_
  by_cases hmints : ∃ name, c.request = .createPat name
  · obtain ⟨name, hreq⟩ := hmints
    have hstore : storeToken (c.withToken token).env (c.withToken token).userId name =
        storeToken c.env c.userId name := storeToken_withToken hsame name
    rw [handle_createPat hreq, handle_createPat (c := c.withToken token) hreq, hstore]
    exact leaves_runIdempotent _ _
  · have hother : ∀ name, c.request ≠ .createPat name := fun name hreq => hmints ⟨name, hreq⟩
    unfold Call.handle Call.withToken
    simp only [work_withToken token c.request hother]
    rfl

theorem run_withToken {calls calls' : List Call} (h : List.Forall₂ DiffersInToken calls calls') :
    run db calls' = run db calls := by
  induction h generalizing db with
  | nil => rfl
  | cons hc _ ih =>
    rw [run, List.foldl_cons, step_withToken hc]
    exact ih

end TokenLemmas

open TokenLemmas

/-! ## Mints and revocations -/

/-- The call commits a new token of `u` and answers with its plaintext. -/
def Mints (db : Db) (c : Call) (u : Uuid) (plaintext : Text) (id : Uuid) : Prop :=
  c.userId = u ∧ (∃ name, c.request = .createPat name) ∧
    ∃ r db', exec c.handle db = .ok (.fresh (.createdPat plaintext r), db') ∧ r.id = id

/-- The call commits the revocation of a token. -/
def Revokes (db : Db) (c : Call) (id : Uuid) : Prop :=
  c.request = .revokePat id ∧ ∃ body db', exec c.handle db = .ok (.fresh body, db')

/-- A call of the run has minted the token for `u`, and no later one has revoked
it. -/
def HoldsToken (db₀ : Db) (calls : List Call) (u : Uuid) (plaintext : Text) : Prop :=
  ∃ before c after id, calls = before ++ c :: after ∧ Mints (run db₀ before) c u plaintext id ∧
    Along (fun db c' => ¬Revokes db c' id) (step (run db₀ before) c) after

/-- What a call does to the tokens. -/
inductive TokensChange (db : Db) (c : Call) : Prop
  | kept (hrows : ∀ r, r ∈ (step db c).rows .personalAccessTokens ↔
        r ∈ db.rows .personalAccessTokens)
      (hmints : ∀ u plaintext id, ¬Mints db c u plaintext id) (hrevokes : ∀ id, ¬Revokes db c id)
  | minted (name : Option Text) (hreq : c.request = .createPat name)
      (hmints : Mints db c c.userId (patPrefix ++ c.env.token) (c.env.uuid 1))
      (hnew : ∀ r ∈ db.rows .personalAccessTokens, r.id ≠ c.env.uuid 1)
      (hrows : ∀ r, r ∈ (step db c).rows .personalAccessTokens ↔
        r ∈ db.rows .personalAccessTokens ∨ r = newTokenRow c.env c.userId name)
  | revoked (id : Uuid) (hrevokes : Revokes db c id)
      (howner : ∀ r ∈ db.rows .personalAccessTokens, r.id = id → r.userId = c.userId)
      (hrows : ∀ r', r' ∈ (step db c).rows .personalAccessTokens ↔
        ∃ r ∈ db.rows .personalAccessTokens,
          r' = if r.id = id then (setRevoked c.env).apply r else r)

namespace TokenLemmas

theorem exec_storeToken_ok {name : Option Text} {db' : Db} {x : Unit}
    (h : exec (storeToken env userId name) db = .ok (x, db')) :
    db.tryInsert .personalAccessTokens (newTokenRow env userId name) (fun _ => false) =
        some .inserted ∧
      db' .personalAccessTokens =
        db.put .personalAccessTokens (newTokenRow env userId name) .personalAccessTokens := by
  obtain ⟨_, db₁, hstored, hlog⟩ := exec_bind_ok.mp h
  obtain ⟨hins, rfl⟩ := exec_insertOrAbort_ok.mp hstored
  refine ⟨hins, exec_frame (writesOnly_insertOrAbort rfl : WritesOnly (· = .activityLog) _) hlog ?_⟩
  nofun

/-- A fresh answer to the creation of a token. -/
theorem exec_createPat_ok {name : Option Text} {body : Body} {db' : Db}
    (h : exec (createPat env userId name) db = .ok (body, db')) :
    body = .createdPat (patPrefix ++ env.token) (patFromRow (newTokenRow env userId name)) ∧
      (∀ r ∈ db.rows .personalAccessTokens, r.id ≠ env.uuid 1) ∧
      ∀ r, r ∈ db'.rows .personalAccessTokens ↔
        r ∈ db.rows .personalAccessTokens ∨ r = newTokenRow env userId name := by
  rw [createPat_eq, exec_bind_ok] at h
  obtain ⟨_, db₁, hstore, h⟩ := h
  obtain ⟨rfl, rfl⟩ := exec_pure_ok.mp h
  obtain ⟨hins, hdb⟩ := exec_storeToken_ok hstore
  have hnew : ∀ r ∈ db.rows .personalAccessTokens, r.id ≠ env.uuid 1 :=
    fun r hr => (free_of_inserted hins r hr).1
  refine ⟨rfl, hnew, fun r => ?_⟩
  rw [Sql.Db.rows, hdb, Db.put_same]
  constructor
  · intro hr
    rcases Table.mem_put.mp hr with rfl | ⟨hmem, -⟩
    · exact .inr rfl
    · exact .inl hmem
  · rintro (hmem | rfl)
    · exact Table.mem_put.mpr (.inr ⟨hmem, hnew r hmem⟩)
    · exact Table.mem_put.mpr (.inl rfl)

/-- A fresh answer to a revocation. -/
theorem exec_revokePat_ok {id : Uuid} {body : Body} {db' : Db}
    (h : exec (revokePat env userId id) db = .ok (body, db')) :
    (∀ r ∈ db.rows .personalAccessTokens, r.id = id → r.userId = userId) ∧
      ∀ r', r' ∈ db'.rows .personalAccessTokens ↔
        ∃ r ∈ db.rows .personalAccessTokens,
          r' = if r.id = id then (setRevoked env).apply r else r := by
  simp only [revokePat, exec_bind_ok, exec_fetchRow_ok, exec_orRaise_ok] at h
  obtain ⟨_, db, ⟨rfl, rfl⟩, before, db, ⟨hfound, rfl⟩, _, db₁, hupdate, after, db₁, ⟨-, rfl⟩, _,
    db₂, hlog, h⟩ := h
  obtain ⟨-, rfl⟩ := exec_pure_ok.mp h
  obtain ⟨hmem, hw⟩ := find?_row hfound
  obtain ⟨hid, huser, -⟩ := of_decide_eq_true hw
  have howner : ∀ r ∈ db.rows .personalAccessTokens, r.id = id → r.userId = userId := by
    intro r hr hrid
    obtain rfl : r = before := Table.eq_of_key_eq hr hmem (hrid.trans hid.symm)
    exact huser
  have hlogged : db' .personalAccessTokens = db₁ .personalAccessTokens :=
    exec_frame (writesOnly_insertOrAbort rfl : WritesOnly (· = .activityLog) _) hlog (by simp)
  obtain ⟨-, rfl⟩ := exec_updateRow hupdate
  refine ⟨howner, fun r' => ?_⟩
  rw [Sql.Db.rows, hlogged, ← Sql.Db.rows, Sql.Db.rows_modify_same, List.mem_map]
  constructor
  · rintro ⟨r, hr, rfl⟩
    refine ⟨r, hr, ?_⟩
    by_cases hrid : r.id = id
    · simp [hrid, howner r hr hrid]
    · simp [hrid]
  · rintro ⟨r, hr, rfl⟩
    refine ⟨r, hr, ?_⟩
    by_cases hrid : r.id = id
    · simp [hrid, howner r hr hrid]
    · simp [hrid]

/-- A call that answers afresh has done its work. -/
theorem exec_handle_fresh {body : Body} {db' : Db} (h : exec c.handle db = .ok (.fresh body, db')) :
    ∃ db₁, exec (c.request.work c.env c.userId) db = .ok (body, db₁) ∧
      (step db c).rows .personalAccessTokens = db₁.rows .personalAccessTokens := by
  rcases exec_handle_ok h with ⟨_, _, hcached, -⟩ | ⟨body', db₁, hfresh, hwork, hdb⟩
  · cases hcached
  · cases hfresh
    refine ⟨db₁, hwork, ?_⟩
    rw [step, h]
    exact congrArg Table.rows (hdb .personalAccessTokens (by simp))

theorem updates_token {r r' : Row .personalAccessTokens}
    (h : c.Updates .personalAccessTokens r r') :
    ∃ id, c.request = .revokePat id := by
  unfold Call.Updates at h
  generalize c.request = request at h
  cases h with
  | tokenRevoked => exact ⟨_, rfl⟩

theorem proposes_token {r : Row .personalAccessTokens} (h : c.Proposes .personalAccessTokens r) :
    ∃ name, c.request = .createPat name := by
  rcases h with h | h
  · exact h.elim
  · generalize c.request = request at h
    cases h with
    | token => exact ⟨_, rfl⟩

/-- The calls that neither mint nor revoke leave the tokens alone. -/
theorem tokens_kept (hmint : ∀ name, c.request ≠ .createPat name)
    (hrevoke : ∀ id, c.request ≠ .revokePat id) (r : Row .personalAccessTokens) :
    r ∈ (step db c).rows .personalAccessTokens ↔ r ∈ db.rows .personalAccessTokens := by
  have hsame : ∀ {r r' : Row .personalAccessTokens},
      Relation.ReflTransGen (c.Updates .personalAccessTokens) r r' → r' = r := by
    intro r r' h
    induction h with
    | refl => rfl
    | tail _ hstep =>
      obtain ⟨id, hreq⟩ := updates_token hstep
      exact absurd hreq (hrevoke id)
  constructor
  · intro hr
    rcases step_origin c hr with ⟨x, hx, -, hchain⟩ | ⟨-, x, hx, -⟩
    · rwa [hsame hchain]
    · obtain ⟨name, hreq⟩ := proposes_token hx
      exact absurd hreq (hmint name)
  · intro hr
    obtain ⟨r', hr', -, hchain⟩ := step_kept c hr
    rwa [← hsame hchain]

end TokenLemmas

open TokenLemmas

theorem tokens_change (db : Db) (c : Call) : TokensChange db c := by
  by_cases hfresh : ∃ body db', exec c.handle db = .ok (.fresh body, db')
  · obtain ⟨body, db', h⟩ := hfresh
    obtain ⟨db₁, hwork, hrows⟩ := exec_handle_fresh h
    cases hreq : c.request with
    | createPat name =>
      rw [hreq] at hwork
      obtain ⟨rfl, hnew, hmem⟩ := exec_createPat_ok hwork
      rw [← hrows] at hmem
      exact .minted name hreq ⟨rfl, ⟨name, hreq⟩, _, _, h, rfl⟩ hnew hmem
    | revokePat id =>
      rw [hreq] at hwork
      obtain ⟨howner, hmem⟩ := exec_revokePat_ok hwork
      rw [← hrows] at hmem
      exact .revoked id ⟨hreq, body, db', h⟩ howner hmem
    | _ =>
      refine .kept (tokens_kept (by simp [hreq]) (by simp [hreq])) ?_ ?_
      · rintro u plaintext id ⟨-, ⟨name, hname⟩, -⟩
        rw [hreq] at hname
        cases hname
      · rintro id ⟨hid, -⟩
        rw [hreq] at hid
        cases hid
  · -- nothing was committed, or the answer was replayed
    refine .kept (fun r => ?_) ?_ ?_
    · rw [step]
      split
      · next reply db' h =>
        rcases exec_handle_ok h with ⟨_, _, -, rfl⟩ | ⟨body, _, rfl, -⟩
        · exact Iff.rfl
        · exact absurd ⟨body, db', h⟩ hfresh
      · exact Iff.rfl
    · rintro u plaintext id ⟨-, -, r, db', h, -⟩
      exact hfresh ⟨_, db', h⟩
    · rintro id ⟨-, body, db', h⟩
      exact hfresh ⟨body, db', h⟩

/-! ## Runs -/

namespace TokenLemmas

theorem along_append {ok : Db → Call → Prop} {calls : List Call} (h : Along ok db calls)
    (hc : ok (run db calls) c) : Along ok db (calls ++ [c]) := by
  induction calls generalizing db with
  | nil => exact ⟨hc, trivial⟩
  | cons d calls ih => exact ⟨h.1, ih h.2 hc⟩

theorem run_split (db : Db) (before after : List Call) (c : Call) :
    run db (before ++ c :: after) = run (step (run db before) c) after := by
  rw [run, run, run, List.foldl_append]
  rfl

theorem mints_unique {u' id id' : Uuid} {p p' : Text} (h : Mints db c u p id)
    (h' : Mints db c u' p' id') : u = u' ∧ p = p' ∧ id = id' := by
  obtain ⟨rfl, -, r, _, hexec, rfl⟩ := h
  obtain ⟨rfl, -, r', _, hexec', rfl⟩ := h'
  rw [hexec] at hexec'
  cases hexec'
  exact ⟨rfl, rfl, rfl⟩

theorem revokes_unique {id id' : Uuid} (h : Revokes db c id) (h' : Revokes db c id') :
    id = id' := by
  have hreq := h.1.symm.trans h'.1
  cases hreq
  rfl

/-- A mint leaves an active row with the hash of its plaintext. -/
theorem row_of_mints {id : Uuid} {p : Text} (h : Mints db c u p id) :
    patPrefix.isPrefixOf p = true ∧ ∃ r ∈ (step db c).rows .personalAccessTokens,
      r.id = id ∧ r.userId = u ∧ r.tokenHash = hashPat p ∧ r.revokedAt = none := by
  cases tokens_change db c with
  | kept _ hmints => exact absurd h (hmints u p id)
  | minted name hreq hmints hnew hrows =>
    obtain ⟨rfl, rfl, rfl⟩ := mints_unique h hmints
    refine ⟨?_, _, (hrows _).mpr (.inr rfl), rfl, rfl, rfl, rfl⟩
    rw [List.isPrefixOf_iff_prefix]
    exact List.prefix_append _ _
  | revoked id' hrevokes =>
    obtain ⟨-, ⟨name, hreq⟩, -⟩ := h
    have hother := hreq.symm.trans hrevokes.1
    cases hother

/-- An active row stays while nobody revokes it. -/
theorem row_stays {r : Row .personalAccessTokens} (hr : r ∈ db.rows .personalAccessTokens)
    {calls : List Call} (h : Along (fun db c => ¬Revokes db c r.id) db calls) :
    r ∈ (run db calls).rows .personalAccessTokens := by
  induction calls generalizing db with
  | nil => exact hr
  | cons c calls ih =>
    refine ih ?_ h.2
    cases tokens_change db c with
    | kept hrows => exact (hrows r).mpr hr
    | minted _ _ _ _ hrows => exact (hrows r).mpr (.inl hr)
    | revoked id hrevokes _ hrows =>
      have hne : r.id ≠ id := by
        rintro rfl
        exact h.1 hrevokes
      exact (hrows r).mpr ⟨r, hr, by rw [if_neg hne]⟩

/-- The mint behind a row. -/
def Minted (db₀ : Db) (calls : List Call) (r : Row .personalAccessTokens) : Prop :=
  ∃ before c after p, calls = before ++ c :: after ∧ Mints (run db₀ before) c r.userId p r.id ∧
    r.tokenHash = hashPat p ∧ (r.revokedAt = none →
      Along (fun db c' => ¬Revokes db c' r.id) (step (run db₀ before) c) after)

theorem Minted.append {calls : List Call} {r : Row .personalAccessTokens}
    (h : Minted db₀ calls r) (hc : r.revokedAt = none → ¬Revokes (run db₀ calls) c r.id) :
    Minted db₀ (calls ++ [c]) r := by
  obtain ⟨before, d, after, p, rfl, hmints, hhash, halong⟩ := h
  refine ⟨before, d, after ++ [c], p, by simp, hmints, hhash, fun hactive => ?_⟩
  refine along_append (halong hactive) ?_
  rw [← run_split]
  exact hc hactive

/-- Every row comes from a mint of the run. -/
theorem minted_run (hempty : db₀.rows .personalAccessTokens = []) (calls : List Call) :
    ∀ r ∈ (run db₀ calls).rows .personalAccessTokens, Minted db₀ calls r := by
  induction calls using List.reverseRecOn with
  | nil =>
    intro r hr
    rw [run, List.foldl_nil, hempty] at hr
    cases hr
  | append_singleton calls c ih =>
    intro r hr
    rw [run_append] at hr
    cases tokens_change (run db₀ calls) c with
    | kept hrows _ hrevokes => exact (ih r ((hrows r).mp hr)).append fun _ => hrevokes _
    | minted name hreq hmints _ hrows =>
      rcases (hrows r).mp hr with hmem | rfl
      · refine (ih r hmem).append fun _ h => ?_
        have hother := hreq.symm.trans h.1
        cases hother
      · exact ⟨calls, c, [], _, rfl, hmints, rfl, fun _ => trivial⟩
    | revoked id hrevokes _ hrows =>
      obtain ⟨x, hx, rfl⟩ := (hrows r).mp hr
      split
      · -- the row is not active any more
        obtain ⟨before, d, after, p, rfl, hmints, hhash, -⟩ := ih x hx
        exact ⟨before, d, after ++ [c], p, by simp, hmints, hhash,
          fun h => by cases h⟩
      · next hne => exact (ih x hx).append fun _ h => hne (revokes_unique h hrevokes)

/-- The tokens have different hashes. -/
theorem tokenHash_unique (hempty : db₀.rows .personalAccessTokens = []) (calls : List Call)
    {r s : Row .personalAccessTokens} (hr : r ∈ (run db₀ calls).rows .personalAccessTokens)
    (hs : s ∈ (run db₀ calls).rows .personalAccessTokens) (hhash : r.tokenHash = s.tokenHash) :
    r = s := by
  have hunclashed : Unclashed (fun t _ => t = .personalAccessTokens) (run db₀ calls) := by
    refine run_invariant (fun db c hdb _ => ?_) ?_ (along_true db₀ calls)
    · rw [step]
      split
      · next he => exact exec_unclashed clash_symm he hdb
      · exact hdb
    · rintro t x hx y _ rfl
      rw [hempty] at hx
      cases hx
  by_contra hne
  have hfree := hunclashed .personalAccessTokens r hr s hs rfl rfl fun hid =>
    hne (Table.eq_of_key_eq hr hs hid)
  exact of_decide_eq_false hfree hhash

omit [Platform] in
theorem encode_injective : Function.Injective encode := by
  intro s s' h
  have hbytes : (String.ofList s).toByteArray = (String.ofList s').toByteArray := by
    show s.utf8Encode = s'.utf8Encode
    rw [List.utf8Encode, List.utf8Encode]
    exact congrArg _ h
  exact String.ofList_injective (String.toByteArray_inj.mp hbytes)

theorem exec_getCurrentUser_ok {authorization : Option Text} {db' : Db} :
    exec (getCurrentUser authorization) db = .ok (u, db') ↔
      ∃ p r, bearerToken authorization = some p ∧ patPrefix.isPrefixOf p = true ∧
        (db.rows .personalAccessTokens).find?
          (fun r => decide (r.tokenHash = hashPat p ∧ r.revokedAt = none)) = some r ∧
        r.userId = u ∧ db' = db := by
  simp only [getCurrentUser, exec_bind_ok, exec_orRaise_ok, exec_raiseIf_ok, exec_fetchRow_ok,
    exec_pure_ok]
  constructor
  · rintro ⟨p, _, ⟨hp, rfl⟩, _, _, ⟨hsplit, rfl⟩, _, _, ⟨rfl, rfl⟩, r, _, ⟨hr, rfl⟩, rfl, rfl⟩
    exact ⟨p, r, hp, by simpa using hsplit, hr, rfl, rfl⟩
  · rintro ⟨p, r, hp, hsplit, hr, rfl, rfl⟩
    exact ⟨p, _, ⟨hp, rfl⟩, (), _, ⟨by simp [hsplit], rfl⟩, _, _, ⟨rfl, rfl⟩, r, _, ⟨hr, rfl⟩, rfl,
      rfl⟩

end TokenLemmas

/-- A run that differs in random tokens with equal hashes and display prefixes
leaves the same state; and a request is let in as `u` iff its bearer token was
minted for `u` and not revoked since. -/
theorem tokens_stay_secret_and_exact {db₀ : Db} (hempty : db₀.rows .personalAccessTokens = [])
    (calls : List Call) :
    (∀ calls', List.Forall₂ DiffersInToken calls calls' → run db₀ calls' = run db₀ calls) ∧
    (Function.Injective Platform.sha256Hex → ∀ authorization u,
      exec (getCurrentUser authorization) (run db₀ calls) = .ok (u, run db₀ calls) ↔
        ∃ p, bearerToken authorization = some p ∧ HoldsToken db₀ calls u p) := by
  refine ⟨fun _ h => run_withToken h, fun hsha authorization u => ?_⟩
  rw [exec_getCurrentUser_ok]
  constructor
  · rintro ⟨p, r, hp, -, hr, rfl, -⟩
    obtain ⟨hmem, hw⟩ := find?_row hr
    obtain ⟨hhash, hactive⟩ := of_decide_eq_true hw
    obtain ⟨before, c, after, p', rfl, hmints, hhash', halong⟩ := minted_run hempty calls r hmem
    obtain rfl : p' = p := encode_injective (hsha (hhash'.symm.trans hhash))
    exact ⟨p', hp, before, c, after, r.id, rfl, hmints, halong hactive⟩
  · rintro ⟨p, hp, before, c, after, id, rfl, hmints, halong⟩
    obtain ⟨hsplit, r, hr, rfl, rfl, hhash, hactive⟩ := row_of_mints hmints
    have hmem := row_stays hr halong
    rw [← run_split] at hmem
    have hfound : (((run db₀ (before ++ c :: after)).rows .personalAccessTokens).find?
        fun r => decide (r.tokenHash = hashPat p ∧ r.revokedAt = none)).isSome :=
      List.find?_isSome.mpr ⟨r, hmem, decide_eq_true ⟨hhash, hactive⟩⟩
    obtain ⟨x, hx⟩ := Option.isSome_iff_exists.mp hfound
    obtain ⟨hxmem, hxw⟩ := find?_row hx
    obtain rfl : x = r := tokenHash_unique hempty _ hxmem hmem
      ((of_decide_eq_true hxw).1.trans hhash.symm)
    exact ⟨p, x, hp, hsplit, hx, rfl, rfl⟩

end Tokens

namespace Ascii

/-- The user 1 mints a token, the row 3001. -/
def phone : List Call := [
  callAt 1 (.bootstrap "Ann".toList "UTC".toList),
  (callAt 2 (.createPat (some "phone".toList))).withToken "sesame".toList]

theorem sha256Hex_injective : Function.Injective platform.sha256Hex := by
  refine List.map_injective_iff.mpr fun b b' h => ?_
  have hvalid : ∀ b : UInt8, b.toNat.isValidChar := fun b => .inl (by have := b.toNat_lt; omega)
  have hchar : Char.ofNatAux b.toNat (hvalid b) = Char.ofNatAux b'.toNat (hvalid b') := by
    rwa [Char.ofNat, Char.ofNat, dif_pos (hvalid b), dif_pos (hvalid b')] at h
  exact UInt8.toNat_inj.mp (congrArg Char.toNat hchar)

end Ascii

open Ascii in
/-- The token lets the user in until it is revoked. -/
theorem tokens_stay_secret_and_exact_phone :
    (exec (getCurrentUser (some "Bearer ewe_pat_sesame".toList)) (run blank phone) =
        .ok (1, run blank phone) ↔
      ∃ p, bearerToken (some "Bearer ewe_pat_sesame".toList) = some p ∧
        HoldsToken blank phone 1 p) ∧
    ((exec (getCurrentUser (some "Bearer ewe_pat_sesame".toList)) (run blank phone)).toOption.map
      Prod.fst = some 1) ∧
    (exec (getCurrentUser (some "Bearer ewe_pat_sesame".toList))
      (run blank (phone ++ [callAt 3 (.revokePat 3001)]))).toOption.map Prod.fst = none :=
  ⟨(tokens_stay_secret_and_exact rfl phone).2 sha256Hex_injective _ 1, by decide +kernel,
    by decide +kernel⟩

end ExpenseEngine
