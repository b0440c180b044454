import ExpenseEngine.Invariants.Tokens
import ExpenseEngine.Races.Handlers
import ExpenseEngine.Races.RowLaws
import ExpenseEngine.Sql.Guards

/-!
# Retries under one idempotency key

Any number of requests may carry one key of one user, side by side, killed and
sent again. The advisory lock is taken before the lookup of the key and kept to
the commit, so the answers are those of a register that is asked one request at a
time: the first request under a key does its work and leaves its row, and every
later one gets what that row says.

Results:
1. `keyed_of_runs`: what a handler leaves of its dealings with its key.
2. `retries_linearize`: the commits of any run, with the tables they find and
   leave, are a run of the register.
3. `retried_work_once`: the work behind a key is committed once.
4. `one_request_per_key`: the requests answered under one key are one request.
-/

namespace ExpenseEngine

open Sql Sql.Prog HandlerLemmas StatementLemmas GuardLemmas RowLemmas

section Retries

variable [Platform]

/-! ## The register -/

def newKeyRow (env : Env) (userId : Uuid) (key fingerprint : Text) (body : Option Body)
    (status : Nat) : Row .idempotencyKeys :=
  ({ id := env.storeUuid, key := key, userId := userId, responseSnapshot := body
     responseStatus := status, requestHash := fingerprint, createdAt := env.now } :
    IdempotencyKeyRow)

/-- The row a call stores with its answer. -/
def Call.keyRow (c : Call) (key fingerprint : Text) (b : Body) : Row .idempotencyKeys :=
  newKeyRow c.env c.userId key fingerprint (if c.request.storesSnapshot then some b else none)
    c.request.statusCode

/-- The row stored under a key of a user. -/
def keyOfUser (db : Db) (userId : Uuid) (key : Text) : Option (Row .idempotencyKeys) :=
  (db .idempotencyKeys).find? (userId, key)

/-- What the register may answer to a call, and the tables after it. A stored
answer leaves every table as it is. -/
inductive Replies (db : Db) (c : Call) : Reply → Db → Prop
  | keyless {b : Body} {db' : Db} (hkey : c.key = none)
      (hdb : db' .idempotencyKeys = db .idempotencyKeys) : Replies db c (.fresh b) db'
  | fresh {key fingerprint : Text} {b : Body} {db' : Db} (hkey : c.key = some key)
      (hfingerprint : c.fingerprint = some fingerprint) (hfree : keyOfUser db c.userId key = none)
      (hdb : db' .idempotencyKeys = (db .idempotencyKeys).put (c.keyRow key fingerprint b)) :
    Replies db c (.fresh b) db'
  | stored {key fingerprint : Text} {row : Row .idempotencyKeys} {reply : Reply}
      (hkey : c.key = some key) (hfingerprint : c.fingerprint = some fingerprint)
      (hrow : keyOfUser db c.userId key = some row) (hreplay : replay row fingerprint = .ok reply) :
    Replies db c reply db

/-- The call comes from the user, with the key. -/
def Call.Carries (c : Call) (userId : Uuid) (key : Text) : Prop :=
  c.userId = userId ∧ c.key = some key

/-- The commits are answers of the register in their order: each finds the tables
that the last one left. -/
inductive Register {ι : Type} (calls : ι → Call) : Db → List (Commit Row Reply ι) → Db → Prop
  | nil {db : Db} : Register calls db [] db
  | cons {db db₁ db₂ : Db} {i : ι} {reply : Reply} {later : List (Commit Row Reply ι)}
      (hanswer : Replies db (calls i) reply db₁) (h : Register calls db₁ later db₂) :
    Register calls db (⟨db, i, reply, db₁⟩ :: later) db₂

/-- What an answer under a key tells of the row stored under it. -/
theorem Replies.row {db db₁ : Db} {c : Call} {reply : Reply} {key : Text}
    (h : Replies db c reply db₁) (hkey : c.key = some key) :
    ∃ fingerprint row, c.fingerprint = some fingerprint ∧
      keyOfUser db₁ c.userId key = some row ∧
        ((∃ b, reply = .fresh b ∧ row = c.keyRow key fingerprint b ∧
          keyOfUser db c.userId key = none) ∨
          replay row fingerprint = .ok reply ∧ db₁ = db) := by
  cases h with
  | keyless hnone => exact absurd (hnone.symm.trans hkey) (by simp)
  | @fresh key' fingerprint b _ hkey' hfingerprint hfree hdb =>
    cases hkey'.symm.trans hkey
    refine ⟨fingerprint, _, hfingerprint, ?_, .inl ⟨b, rfl, rfl, hfree⟩⟩
    rw [keyOfUser, hdb]
    exact Table.find?_put_self _ (c.keyRow key fingerprint b)
  | stored hkey' hfingerprint hrow hreplay =>
    cases hkey'.symm.trans hkey
    exact ⟨_, _, hfingerprint, hrow, .inr ⟨hreplay, rfl⟩⟩

namespace Register

variable {ι : Type} {calls : ι → Call} {db db₁ db₂ : Db} {past later : List (Commit Row Reply ι)}
  {i : ι} {reply : Reply} {userId : Uuid} {key : Text} {row : Row .idempotencyKeys}

theorem append (h : Register calls db past db₁) (h' : Register calls db₁ later db₂) :
    Register calls db (past ++ later) db₂ := by
  induction h with
  | nil => exact h'
  | cons hanswer _ ih => exact .cons hanswer (ih h')

theorem snoc (h : Register calls db past db₁) (hanswer : Replies db₁ (calls i) reply db₂) :
    Register calls db (past ++ [⟨db₁, i, reply, db₂⟩]) db₂ :=
  h.append (.cons hanswer .nil)

theorem split (h : Register calls db (past ++ later) db₂) :
    ∃ db₁, Register calls db past db₁ ∧ Register calls db₁ later db₂ := by
  induction past generalizing db with
  | nil => exact ⟨db, .nil, h⟩
  | cons x past ih =>
    cases h with
    | cons hanswer h =>
      obtain ⟨db₁, hpast, hlater⟩ := ih h
      exact ⟨db₁, .cons hanswer hpast, hlater⟩

/-- A stored row stays. -/
theorem kept (h : Register calls db past db₂) (hrow : keyOfUser db userId key = some row) :
    keyOfUser db₂ userId key = some row := by
  induction h with
  | nil => exact hrow
  | cons hanswer _ ih =>
    refine ih ?_
    cases hanswer with
    | keyless _ hdb => rwa [keyOfUser, hdb]
    | stored => exact hrow
    | fresh hkey _ hfree hdb =>
      rw [keyOfUser, hdb]
      refine (Table.find?_put_of_ne fun heq => ?_).trans hrow
      obtain ⟨rfl, rfl⟩ := Prod.mk_inj.mp heq
      have hboth := hfree.symm.trans hrow
      cases hboth

/-- Once a row is stored, whoever is answered under its key gets what it says, and
leaves the tables. -/
theorem replays (h : Register calls db past db₂) (hrow : keyOfUser db userId key = some row)
    {x : Commit Row Reply ι} (hx : x ∈ past) (hcarries : (calls x.party).Carries userId key) :
    ∃ fingerprint, (calls x.party).fingerprint = some fingerprint ∧
      replay row fingerprint = .ok x.answer ∧ x.after = x.before := by
  induction h with
  | nil => cases hx
  | cons hanswer _ ih =>
    have hnext := (Register.cons hanswer .nil).kept hrow
    rcases List.mem_cons.mp hx with rfl | hx
    · obtain ⟨rfl, hkey⟩ := hcarries
      cases hanswer with
      | keyless hnone => exact absurd (hnone.symm.trans hkey) (by simp)
      | fresh hkey' _ hfree =>
        cases hkey'.symm.trans hkey
        have hboth := hfree.symm.trans hrow
        cases hboth
      | stored hkey' hfingerprint hrow' hreplay =>
        cases hkey'.symm.trans hkey
        cases hrow'.symm.trans hrow
        exact ⟨_, hfingerprint, hreplay, rfl⟩
    · exact ih hnext hx

/-- A row under a key was there at the start, or is that of an answer. -/
theorem origin (h : Register calls db past db₂) (hrow : keyOfUser db₂ userId key = some row) :
    keyOfUser db userId key = some row ∨ ∃ x ∈ past, ∃ fingerprint b,
      (calls x.party).fingerprint = some fingerprint ∧
        row = (calls x.party).keyRow key fingerprint b := by
  induction h with
  | nil => exact .inl hrow
  | @cons db db₁ db₂ i reply later hanswer _ ih =>
    rcases ih hrow with hfirst | ⟨x, hx, hrest⟩
    · cases hanswer with
      | keyless _ hdb => exact .inl (by rwa [keyOfUser, hdb] at hfirst)
      | stored => exact .inl hfirst
      | @fresh key' fingerprint b _ hkey hfingerprint hfree hdb =>
        rw [keyOfUser, hdb, Table.find?_put] at hfirst
        split at hfirst
        · next heq =>
          have hrow' : (calls i).keyRow key' fingerprint b = row := Option.some.inj hfirst
          obtain ⟨-, rfl⟩ := Prod.mk_inj.mp heq
          exact .inr ⟨_, List.mem_cons_self, fingerprint, b, hfingerprint, hrow'.symm⟩
        · exact .inl hfirst
    · exact .inr ⟨x, List.mem_cons_of_mem _ hx, hrest⟩

/-- A key that is free at the end was free before, and nobody was answered under
it. -/
theorem free (h : Register calls db past db₂) (hfree : keyOfUser db₂ userId key = none) :
    keyOfUser db userId key = none ∧ ∀ x ∈ past, ¬(calls x.party).Carries userId key := by
  constructor
  · cases hrow : keyOfUser db userId key with
    | none => rfl
    | some row =>
      have hlater := h.kept hrow
      rw [hfree] at hlater
      cases hlater
  · rintro x hx ⟨rfl, hkey⟩
    obtain ⟨before, after, rfl⟩ := List.append_of_mem hx
    obtain ⟨db₁, -, hrest⟩ := h.split
    cases hrest with
    | cons hanswer hafter =>
      obtain ⟨_, row, -, hrow, -⟩ := hanswer.row hkey
      have hlater := hafter.kept hrow
      rw [hfree] at hlater
      cases hlater

/-- An answer under a key, what is stored under the key at the end, and the later
answers under it. -/
theorem answered {c : Commit Row Reply ι} (h : Register calls db (past ++ c :: later) db₂)
    (hkey : (calls c.party).key = some key) :
    ∃ fingerprint row, (calls c.party).fingerprint = some fingerprint ∧
      keyOfUser db₂ (calls c.party).userId key = some row ∧
      ((∃ b, c.answer = .fresh b ∧ row = (calls c.party).keyRow key fingerprint b ∧
          keyOfUser db (calls c.party).userId key = none ∧
          ∀ x ∈ past, ¬(calls x.party).Carries (calls c.party).userId key) ∨
        replay row fingerprint = .ok c.answer ∧ c.after = c.before) ∧
      ∀ x ∈ later, (calls x.party).Carries (calls c.party).userId key →
        ∃ fingerprint', (calls x.party).fingerprint = some fingerprint' ∧
          replay row fingerprint' = .ok x.answer ∧ x.after = x.before := by
  obtain ⟨db₁, hpast, hrest⟩ := h.split
  cases hrest with
  | cons hanswer hlater =>
    obtain ⟨fingerprint, row, hfingerprint, hrow, hreply⟩ := hanswer.row hkey
    refine ⟨fingerprint, row, hfingerprint, hlater.kept hrow, ?_,
      fun x hx => hlater.replays hrow hx⟩
    rcases hreply with ⟨b, hb, hstored, hfree⟩ | hreplay
    · exact .inl ⟨b, hb, hstored, hpast.free hfree⟩
    · exact .inr hreplay

end Register

/-! ## The dealings of a handler with its key -/

/-- Nothing is stored under the key. -/
def KeyFree (userId : Uuid) (key : Text) (db : Db) : Prop := keyOfUser db userId key = none

/-- What a handler has done about its key when it returns. -/
inductive Keyed (c : Call) : Reply → Loc → Prop
  | keyless {b : Body} {l : Loc} (hkey : c.key = none) (hown : l.own .idempotencyKeys = []) :
    Keyed c (.fresh b) l
  | fresh {key fingerprint : Text} {b : Body} {l : Loc} (hkey : c.key = some key)
      (hfingerprint : c.fingerprint = some fingerprint)
      (hsaw : SawUnder (lockId c.userId key) (KeyFree c.userId key) l)
      (hstored : l.own .idempotencyKeys = [c.keyRow key fingerprint b] ∨
        l.own .idempotencyKeys = [] ∧
          ∃ x ∈ l.met .idempotencyKeys, isKeyRow c.userId key x = true) :
    Keyed c (.fresh b) l
  | stored {key fingerprint : Text} {row : Row .idempotencyKeys} {reply : Reply} {l : Loc}
      (hkey : c.key = some key) (hfingerprint : c.fingerprint = some fingerprint)
      (hown : ∀ t, l.own t = []) (hrow : isKeyRow c.userId key row = true)
      (hseen : ∃ e ∈ l.seen, row ∈ e.view.rows .idempotencyKeys)
      (hreplay : replay row fingerprint = .ok reply) : Keyed c reply l

namespace RetryLemmas

variable {userId : Uuid} {key fingerprint : Text} {l l' : Loc}

omit [Platform] in
theorem isKeyRow_iff {r : Row .idempotencyKeys} :
    isKeyRow userId key r = true ↔ keyOf .idempotencyKeys r = (userId, key) := by
  rw [isKeyRow, decide_eq_true_eq]
  exact Prod.mk_inj.symm

theorem keyOfUser_eq_none {db : Db} : keyOfUser db userId key = none ↔
    ∀ r ∈ db.rows .idempotencyKeys, isKeyRow userId key r = false := by
  rw [keyOfUser, Table.find?_eq_none]
  refine forall₂_congr fun r _ => ?_
  rw [← Bool.not_eq_true, isKeyRow_iff]
  rfl

theorem keyOfUser_eq_some {db : Db} {r : Row .idempotencyKeys}
    (hr : r ∈ db.rows .idempotencyKeys) (hkey : isKeyRow userId key r = true) :
    keyOfUser db userId key = some r :=
  Table.find?_eq_some.mpr ⟨hr, isKeyRow_iff.mp hkey⟩

/-- The claim takes the lock, looks, and writes nothing. -/
theorem runs_claim {o : Option Reply}
    (h : (claim userId key fingerprint).Runs l (.ok o) l') (hl : ∀ t, l.own t = []) :
    (∀ t, l'.own t = []) ∧
      ((o = none ∧ SawUnder (lockId userId key) (KeyFree userId key) l') ∨
        ∃ row reply, o = some reply ∧ isKeyRow userId key row = true ∧
          (∃ e ∈ l'.seen, row ∈ e.view.rows .idempotencyKeys) ∧
          replay row fingerprint = .ok reply) := by
  rw [claim, runs_bind_ok] at h
  obtain ⟨_, l₁, hadvise, h⟩ := h
  obtain ⟨-, rfl⟩ := runs_advisoryLock.mp hadvise
  rw [runs_bind_ok] at h
  obtain ⟨found, l₂, hfetch, h⟩ := h
  obtain ⟨db, n, -, hfound, rfl⟩ := runs_read_ok.mp hfetch
  cases found with
  | none =>
    obtain ⟨rfl, rfl⟩ := runs_pure_ok.mp h
    refine ⟨hl, .inl ⟨rfl, _, List.mem_cons_self, List.mem_cons_self, hl, ?_⟩⟩
    refine keyOfUser_eq_none.mpr fun r hr => ?_
    have hnone := List.find?_eq_none.mp hfound.symm r hr
    rwa [Bool.not_eq_true] at hnone
  | some row =>
    simp only at h
    split at h
    · next reply hreply =>
      obtain ⟨rfl, rfl⟩ := runs_pure_ok.mp h
      have hrow := hfound.symm
      exact ⟨hl, .inr ⟨row, reply, rfl, List.find?_some hrow,
        ⟨_, List.mem_cons_self, List.mem_of_find?_eq_some hrow⟩, hreply⟩⟩
    · exact absurd h.1 (by simp)

/-- The row is stored, unless a row of the key is in the way. -/
theorem runs_store {env : Env} {body : Option Body} {status : Nat} {u : Unit}
    (h : (store env userId key fingerprint body status).Runs l (.ok u) l') :
    l' = l.write .idempotencyKeys (newKeyRow env userId key fingerprint body status) ∨
      ∃ x, isKeyRow userId key x = true ∧ l' = l.meet .idempotencyKeys (some x) := by
  rw [store, runs_bind_ok] at h
  obtain ⟨o, l₁, hinsert, h⟩ := h
  obtain ⟨he, -⟩ | ⟨-, hret⟩ | ⟨x, hx, hret⟩ | hret := hinsert
  · cases he
  · obtain ⟨ho, rfl⟩ := runs_pure_ok.mp hret
    subst ho
    exact .inl (runs_pure_ok.mp h).2
  · obtain ⟨ho, rfl⟩ := runs_pure_ok.mp hret
    subst ho
    exact .inr ⟨x, hx, (runs_pure_ok.mp h).2⟩
  · obtain ⟨ho, -⟩ := runs_pure_ok.mp hret
    subst ho
    cases h.1

theorem not_proposes_key {env : Env} {request : Request} {r : Row .idempotencyKeys} :
    ¬Proposes env userId request .idempotencyKeys r := by
  rintro h
  cases h

/-- The work does not touch the keys. -/
theorem runs_work {c : Call} {b : Body} (h : (c.request.work c.env c.userId).Runs l (.ok b) l') :
    l'.own .idempotencyKeys = l.own .idempotencyKeys ∧
      l'.met .idempotencyKeys = l.met .idempotencyKeys :=
  runs_fixed (work_rewrites c.env c.userId c.request) (fun _ => not_proposes_key)
    (fun _ _ => not_updates_fixed (.inr (.inl rfl))) h

end RetryLemmas

open RetryLemmas

theorem keyed_of_runs {c : Call} {reply : Reply} {l : Loc}
    (h : c.handle.Runs .init (.ok reply) l) : Keyed c reply l := by
  unfold Call.handle at h
  obtain ⟨_, l₀, hnull, h⟩ := runs_bind_ok.mp h
  have hl₀ : l₀ = .init := by
    unfold liftExcept at hnull
    split at hnull
    · exact (runs_pure_ok.mp hnull).2
    · exact absurd hnull.1 (by simp)
  subst hl₀
  unfold runIdempotent at h
  split at h
  · next hkey =>
    rw [map_eq_pure_bind] at h
    obtain ⟨b, l₁, hwork, h⟩ := runs_bind_ok.mp h
    obtain ⟨rfl, rfl⟩ := runs_pure_ok.mp h
    exact .keyless hkey (runs_work hwork).1
  · exact absurd h.1 (by simp)
  · next key fingerprint hkey hfingerprint =>
    obtain ⟨o, l₁, hclaim, h⟩ := runs_bind_ok.mp h
    obtain ⟨hown, hnone | ⟨row, reply', rfl, hrow, hseen, hreplay⟩⟩ :=
      runs_claim hclaim fun _ => rfl
    · obtain ⟨rfl, hsaw⟩ := hnone
      obtain ⟨b, l₂, hwork, h⟩ := runs_bind_ok.mp h
      obtain ⟨_, l₃, hstore, h⟩ := runs_bind_ok.mp h
      obtain ⟨rfl, rfl⟩ := runs_pure_ok.mp h
      obtain ⟨hown₂, hmet₂⟩ := runs_work hwork
      rw [hown] at hown₂
      refine .fresh hkey hfingerprint
        (hsaw.later (hwork.extends.trans hstore.extends)) ?_
      rcases runs_store hstore with rfl | ⟨x, hx, rfl⟩
      · refine .inl ?_
        rw [Local.own_write_same, hown₂]
        rfl
      · refine .inr ⟨hown₂, x, ?_, hx⟩
        rw [Local.met_meet_same]
        exact List.mem_cons_self
    · obtain ⟨rfl, rfl⟩ := runs_pure_ok.mp h
      exact .stored hkey hfingerprint hown hrow hseen hreplay

/-! ## Side by side -/

variable {ι : Type} [Fintype ι] [DecidableEq ι] {calls : ι → Call} {db : Db} {s : Race ι} {i : ι}

namespace RetryLemmas

omit [Fintype ι] in
/-- The commit of a fresh answer, as the keys see it. -/
theorem keys_commit {a : Reply} {row : Row .idempotencyKeys}
    (h : (s.party i).loc.own .idempotencyKeys = [row]) :
    (s.commit i a).db .idempotencyKeys = (s.db .idempotencyKeys).put row := by
  show overlay (s.party i).loc.own s.db .idempotencyKeys = _
  rw [overlay, h]
  rfl

omit [Fintype ι] in
theorem db_commit {a : Reply} (h : ∀ t, (s.party i).loc.own t = []) : (s.commit i a).db = s.db :=
  overlay_of_blank h s.db

omit [Fintype ι] in
/-- Whoever stores a row under a key holds the lock of the key. -/
theorem key_guarded (calls : ι → Call) (userId : Uuid) (key : Text) :
    GuardedBy (fun i => (calls i).handle) (lockId userId key) (KeyFree userId key) := by
  intro s i a hs hp hfree
  have hsame : (s.party i).loc.own .idempotencyKeys = [] →
      KeyFree userId key (s.commit i a).db := by
    intro hown
    rw [KeyFree, keyOfUser, kept_commit hown]
    exact hfree
  cases keyed_of_runs ((hs.trace i).running _ hp _ _ ⟨rfl, rfl⟩) with
  | keyless _ hown => exact .inr (hsame hown)
  | stored _ _ hown => exact .inr (hsame (hown _))
  | @fresh key' fingerprint b _ _ _ hsaw hstored =>
    rcases hstored with hown | ⟨hown, -⟩
    · by_cases hkey : ((calls i).userId, key') = (userId, key)
      · obtain ⟨rfl, rfl⟩ := Prod.mk_inj.mp hkey
        obtain ⟨e, he, hlock, -⟩ := hsaw
        have hi : (s.party i).isRunning = true := by rw [Party.isRunning, hp]
        exact .inl (((hs.anchored i hi).marks e he).2.2.subset hlock)
      · refine .inr ?_
        rw [KeyFree, keyOfUser, keys_commit hown]
        exact (Table.find?_put_of_ne hkey).trans hfree
    · exact .inr (hsame hown)

omit [Fintype ι] in
/-- The answer of a commit is the register's. -/
theorem answers_commit (hs : Sound (fun i => (calls i).handle) s)
    (hguarded : ∀ userId key, Guarded (lockId userId key) (KeyFree userId key) s)
    (hlasting : LastingAll .idempotencyKeys s) {reply : Reply}
    (hp : (s.party i).phase = .running (.ret reply)) :
    Replies s.db (calls i) reply (s.commit i reply).db := by
  have hi : (s.party i).isRunning = true := by rw [Party.isRunning, hp]
  cases keyed_of_runs ((hs.trace i).running _ hp _ _ ⟨rfl, rfl⟩) with
  | keyless hkey hown => exact .keyless hkey (kept_commit hown _)
  | @fresh key fingerprint b _ hkey hfingerprint hsaw hstored =>
    have hfree := hguarded _ _ i hi hsaw
    rcases hstored with hown | ⟨hown, x, hx, hkeyrow⟩
    · exact .fresh hkey hfingerprint hfree (keys_commit hown)
    · -- a row that was in the way of the INSERT would be in the way now
      rcases (hlasting i hi).met x hx with hdb | hmine
      · rw [KeyFree, keyOfUser_eq_some hdb hkeyrow] at hfree
        cases hfree
      · rw [hown] at hmine
        cases hmine
  | @stored key fingerprint row _ _ hkey hfingerprint hown hrow hseen hreplay =>
    obtain ⟨e, he, hmem⟩ := hseen
    rw [db_commit hown]
    rcases (hlasting i hi).seen e he row hmem with hdb | hmine
    · exact .stored hkey hfingerprint (keyOfUser_eq_some hdb hrow) hreplay
    · rw [hown] at hmine
      cases hmine

end RetryLemmas

/-- The register of the keys so far, and what the running parties know. -/
structure Registered (calls : ι → Call) (db : Db) (s : Race ι)
    (past : List (Commit Row Reply ι)) : Prop where
  register : Register calls db past s.db
  guarded : ∀ userId key, Guarded (lockId userId key) (KeyFree userId key) s
  lasting : LastingAll .idempotencyKeys s

theorem registered_run (calls : ι → Call) (db : Db) (events : List (Event ι)) :
    Registered calls db ((State.start db fun i => (calls i).handle).run events)
      ((State.start db fun i => (calls i).handle).commitLog events) := by
  have hstart : Registered calls db (State.start db fun i => (calls i).handle) [] :=
    ⟨.nil, fun _ _ => guarded_start _ _ db _, lasting_start _ db _⟩
  refine State.run_commitLog _ [] ?_ ?_ (sound_start db _) hstart (State.along_true _ events)
  · intro s past i p phase l' _ h hp hm
    have hi : (s.party i).isRunning = true := by rw [Party.isRunning, hp]
    exact ⟨h.register, fun u k => (h.guarded u k).moved hi hm.moved, h.lasting.moved hi hm.moved⟩
  · intro s past i reply hs h _ hp _
    exact ⟨h.register.snoc (answers_commit hs h.guarded h.lasting hp),
      fun u k => (h.guarded u k).commit hs (key_guarded calls u k) hp,
      h.lasting.commit hs (fun i => handle_rewrites (calls i))
        (fun _ _ _ => not_updates_fixed (.inr (.inl rfl))) hp⟩

/-- The commits of any interleaving are answers of the register, one after
another: each answers from the tables it finds, which are those that the last one
left, and leaves what the register says. -/
theorem retries_linearize (calls : ι → Call) (db : Db) (events : List (Event ι)) :
    Register calls db ((State.start db fun i => (calls i).handle).commitLog events)
      ((State.start db fun i => (calls i).handle).run events).db :=
  (registered_run calls db events).register

/-- The work behind a key is committed once, by the first who is answered under
it; every later answer is the stored one, and its commit leaves the tables. -/
theorem retried_work_once {events : List (Event ι)} {past later : List (Commit Row Reply ι)}
    {c : Commit Row Reply ι} {key : Text} (hkey : (calls c.party).key = some key)
    (hlog : (State.start db fun i => (calls i).handle).commitLog events = past ++ c :: later) :
    ∃ fingerprint row, (calls c.party).fingerprint = some fingerprint ∧
      keyOfUser ((State.start db fun i => (calls i).handle).run events).db
        (calls c.party).userId key = some row ∧
      ((∃ b, c.answer = .fresh b ∧ row = (calls c.party).keyRow key fingerprint b ∧
          keyOfUser db (calls c.party).userId key = none ∧
          ∀ x ∈ past, ¬(calls x.party).Carries (calls c.party).userId key) ∨
        replay row fingerprint = .ok c.answer ∧ c.after = c.before) ∧
      ∀ x ∈ later, (calls x.party).Carries (calls c.party).userId key →
        ∃ fingerprint', (calls x.party).fingerprint = some fingerprint' ∧
          replay row fingerprint' = .ok x.answer ∧ x.after = x.before := by
  have h := (registered_run calls db events).register
  rw [hlog] at h
  exact h.answered hkey

/-! ## Fingerprints -/

/-- What HTTP lets through: no NUL byte in the request line. -/
structure RawRequest.NulFree (r : RawRequest) : Prop where
  method : 0 ∉ r.method
  path : 0 ∉ r.path
  query : 0 ∉ r.query

namespace RetryLemmas

omit [Platform] in
theorem append_zero_inj {a b x y : List UInt8} (ha : 0 ∉ a) (hb : 0 ∉ b)
    (h : a ++ 0 :: x = b ++ 0 :: y) : a = b ∧ x = y := by
  induction a generalizing b with
  | nil =>
    cases b with
    | nil => exact ⟨rfl, (List.cons.inj h).2⟩
    | cons c b => exact absurd ((List.cons.inj h).1 ▸ List.mem_cons_self) hb
  | cons c a ih =>
    cases b with
    | nil => exact absurd ((List.cons.inj h).1 ▸ List.mem_cons_self) ha
    | cons d b =>
      obtain ⟨rfl, hrest⟩ := List.cons.inj h
      obtain ⟨rfl, rfl⟩ := ih (fun h => ha (List.mem_cons_of_mem _ h))
        (fun h => hb (List.mem_cons_of_mem _ h)) hrest
      exact ⟨rfl, rfl⟩

end RetryLemmas

omit [Platform] in
/-- The framing keeps the parts of a request apart. -/
theorem hashInput_inj {r r' : RawRequest} (hr : r.NulFree) (hr' : r'.NulFree)
    (h : r.hashInput = r'.hashInput) : r = r' := by
  simp only [RawRequest.hashInput, List.append_assoc, List.cons_append] at h
  obtain ⟨hmethod, h⟩ := append_zero_inj hr.method hr'.method h
  obtain ⟨hpath, h⟩ := append_zero_inj hr.path hr'.path h
  obtain ⟨hquery, hbody⟩ := append_zero_inj hr.query hr'.query h
  cases r
  cases r'
  simp only at hmethod hpath hquery hbody
  rw [hmethod, hpath, hquery, hbody]

/-- All requests that are answered under one key are one request, byte for byte:
where SHA-256 tells them apart, the others are refused. -/
theorem one_request_per_key {raws : ι → RawRequest} {userId : Uuid} {key : Text}
    (hfingerprint : ∀ i, (calls i).fingerprint = some (fingerprintOf (raws i)))
    (hnul : ∀ i, (raws i).NulFree)
    (hsha : ∀ i j, fingerprintOf (raws i) = fingerprintOf (raws j) →
      (raws i).hashInput = (raws j).hashInput)
    (hhex : ∀ bytes, bytes ≠ [] → Platform.sha256Hex bytes ≠ [])
    (hfree : keyOfUser db userId key = none) {events : List (Event ι)} {x y : ι × Reply}
    (hx : x ∈ (State.start db fun i => (calls i).handle).history events)
    (hy : y ∈ (State.start db fun i => (calls i).handle).history events)
    (hxkey : (calls x.1).Carries userId key) (hykey : (calls y.1).Carries userId key) :
    raws x.1 = raws y.1 := by
  have h := (registered_run calls db events).register
  rw [State.history_eq_map] at hx hy
  obtain ⟨c, hc, rfl⟩ := List.mem_map.mp hx
  obtain ⟨d, hd, rfl⟩ := List.mem_map.mp hy
  have hhash : ∀ e ∈ (State.start db fun i => (calls i).handle).commitLog events,
      (calls e.party).Carries userId key → ∀ row,
        keyOfUser ((State.start db fun i => (calls i).handle).run events).db userId key = some row →
          row.requestHash = [] ∨ row.requestHash = fingerprintOf (raws e.party) := by
    rintro e he ⟨rfl, hkey⟩ row hrow
    obtain ⟨past, later, hsplit⟩ := List.append_of_mem he
    obtain ⟨fingerprint, row', hprint, hrow', hreply, -⟩ := (hsplit ▸ h).answered hkey
    rw [hrow] at hrow'
    cases hrow'
    rw [hfingerprint] at hprint
    cases hprint
    rcases hreply with ⟨b, -, rfl, -⟩ | ⟨hreplay, -⟩
    · exact .inr rfl
    · by_contra hne
      rw [not_or] at hne
      rw [replay, if_pos hne] at hreplay
      cases hreplay
  obtain ⟨past, later, hsplit⟩ := List.append_of_mem hc
  obtain ⟨-, row, -, hrow, -⟩ := (hsplit ▸ h).answered hxkey.2
  rw [hxkey.1] at hrow
  have hsome : row.requestHash ≠ [] := by
    obtain hstart | ⟨e, -, fingerprint, b, hprint, rfl⟩ := h.origin hrow
    · rw [hfree] at hstart
      cases hstart
    · rw [hfingerprint] at hprint
      cases hprint
      exact hhex _ (by simp [RawRequest.hashInput])
  have hboth := ((hhash c hc hxkey row hrow).resolve_left hsome).symm.trans
    ((hhash d hd hykey row hrow).resolve_left hsome)
  exact hashInput_inj (hnul _) (hnul _) (hsha _ _ hboth)

end Retries

/-! ## A request sent twice -/

namespace Ascii

/-- The creation of a hashtag, sent twice, and another one under the same key. -/
def tagRequest (i : Fin 3) : RawRequest :=
  ⟨encode "POST".toList, encode "/v1/hashtags".toList, [],
    encode (if i.val < 2 then "trip".toList else "work".toList)⟩

def tagCall (i : Fin 3) : Call :=
  { callAt (10 + i.val) (.createHashtag
      (if i.val < 2 then ⟨50, "trip".toList, none⟩ else ⟨51, "work".toList, none⟩)) with
    key := some "k".toList
    fingerprint := some (fingerprintOf (tagRequest i)) }

/-- All three begin before the first one commits. -/
def keyRace : List (Event (Fin 3)) :=
  (List.finRange 3).map Event.act ++
    (List.finRange 3).flatMap fun i => List.replicate 12 (Event.act i)

def trip : Body :=
  .hashtag { id := 50, userId := 1, createdAt := 10, updatedAt := 10, version := 1
             deletedAt := none, name := "trip".toList, sortOrder := 0 }

theorem history_keyRace :
    (State.start (run blank setup) fun i => (tagCall i).handle).history keyRace =
      [(⟨0, by decide⟩, .fresh trip), (⟨1, by decide⟩, .cached trip 201)] := by
  decide +kernel

theorem nulFree_tagRequest (i : Fin 3) : (tagRequest i).NulFree := by
  have hmethod : (0 : UInt8) ∉ encode "POST".toList := by decide +kernel
  have hpath : (0 : UInt8) ∉ encode "/v1/hashtags".toList := by decide +kernel
  exact ⟨hmethod, hpath, List.not_mem_nil⟩

end Ascii

open Ascii in
/-- The second sending is answered with the hashtag of the first, and writes
nothing. -/
theorem retried_work_once_tag :
    ∃ fingerprint row c d,
      (State.start (run blank setup) fun i => (tagCall i).handle).commitLog keyRace = [c, d] ∧
      (tagCall ⟨0, by decide⟩).fingerprint = some fingerprint ∧
      keyOfUser ((State.start (run blank setup) fun i => (tagCall i).handle).run keyRace).db
        1 "k".toList = some row ∧ replay row fingerprint = .ok (.cached trip 201) ∧
      d.after = d.before := by
  have hmap := (State.history_eq_map _ _).symm.trans history_keyRace
  obtain ⟨⟨_, _, _, _⟩, log, hlog, hc, hrest⟩ := List.map_eq_cons_iff.mp hmap
  obtain ⟨⟨_, _, _, _⟩, last, rfl, hd, hlast⟩ := List.map_eq_cons_iff.mp hrest
  obtain rfl := List.map_eq_nil_iff.mp hlast
  cases hc
  cases hd
  have hsplit : (State.start (run blank setup) fun i => (tagCall i).handle).commitLog keyRace =
      [] ++ _ :: [_] := hlog
  obtain ⟨fingerprint, row, hprint, hrow, -, hlater⟩ := retried_work_once rfl hsplit
  obtain ⟨fingerprint', hprint', hreplay, hsame⟩ := hlater _ List.mem_cons_self ⟨rfl, rfl⟩
  cases hprint
  cases hprint'
  exact ⟨_, row, _, _, hlog, rfl, hrow, hreplay, hsame⟩

open Ascii in
theorem one_request_per_key_tag : tagRequest ⟨0, by decide⟩ = tagRequest ⟨1, by decide⟩ :=
  have hfree : keyOfUser (run blank setup) 1 "k".toList = none := by decide +kernel
  have hfirst : (⟨0, by decide⟩, .fresh trip) ∈
      (State.start (run blank setup) fun i => (tagCall i).handle).history keyRace := by
    rw [history_keyRace]
    exact List.mem_cons_self
  have hsecond : (⟨1, by decide⟩, .cached trip 201) ∈
      (State.start (run blank setup) fun i => (tagCall i).handle).history keyRace := by
    rw [history_keyRace]
    exact List.mem_cons_of_mem _ List.mem_cons_self
  one_request_per_key (fun _ => rfl) nulFree_tagRequest (fun _ _ h => sha256Hex_injective h)
    (fun bytes hne => by simpa [Platform.sha256Hex] using hne) hfree hfirst hsecond
    ⟨rfl, rfl⟩ ⟨rfl, rfl⟩

end ExpenseEngine
