import ExpenseEngine.Sql.Table

/-!
# Programs of SQL statements

A request handler is a tree of row-level database actions: a SELECT reads one
snapshot of every table, a row is locked or rewritten by its key, a row is
inserted, an advisory lock is taken. Statements over many rows are programs of
these actions: `UPDATE … WHERE` reads a snapshot to find its candidates, then
visits them one after another, and re-evaluates its predicate on the row it
finds. One tree has two meanings: alone (`Sql.Exec`) and beside other
transactions at READ COMMITTED (`Sql.ReadCommitted`).
-/

namespace Sql

/-- Why a request did not finish: an error its code raised, or one the database
raised and the code did not catch. -/
inductive Failure (ε : Type) where
  | raised (e : ε)
  | database
  deriving DecidableEq

/-- Programs over the tables `Row` that return an `α`. `L` labels the SELECT
statements, `ε` is the type of the errors the code raises. -/
inductive Prog {T : Type} (Row : T → Type) [Schema Row] (L ε α : Type) : Type where
  | ret (a : α)
  | fail (e : Failure ε)
  /-- One snapshot of the database. -/
  | select (l : L) (k : Db Row → Prog Row L ε α)
  /-- Lock the row with key `key` and return it if `w` holds of it. -/
  | lock (t : T) (key : Schema.Key Row t) (w : Row t → Bool) (k : Option (Row t) → Prog Row L ε α)
  /-- Lock the row with key `key` and, if `w` holds of it, rewrite it by `f`
  and return it. -/
  | update (t : T) (key : Schema.Key Row t) (w : Row t → Bool) (f : Change Row t)
      (k : Option (Row t) → Prog Row L ε α)
  | insert (t : T) (r : Row t) (skip : Row t → Bool) (k : Inserted → Prog Row L ε α)
  /-- `pg_advisory_xact_lock(n)`. -/
  | advisory (n : Int) (k : Prog Row L ε α)

namespace Prog

variable {T : Type} {Row : T → Type} [Schema Row] {L ε α β : Type}

/-! ## Sequencing -/

def bind : Prog Row L ε α → (α → Prog Row L ε β) → Prog Row L ε β
  | .ret a, g => g a
  | .fail e, _ => .fail e
  | .select l k, g => .select l fun db => (k db).bind g
  | .lock t key w k, g => .lock t key w fun r => (k r).bind g
  | .update t key w f k, g => .update t key w f fun r => (k r).bind g
  | .insert t r skip k, g => .insert t r skip fun o => (k o).bind g
  | .advisory n k, g => .advisory n (k.bind g)

instance : Monad (Prog Row L ε) where
  pure := .ret
  bind := bind

theorem pure_def (a : α) : (pure a : Prog Row L ε α) = .ret a := rfl

theorem bind_def (p : Prog Row L ε α) (g : α → Prog Row L ε β) : p >>= g = p.bind g := rfl

theorem bind_ret (p : Prog Row L ε α) : p.bind .ret = p := by
  induction p with
  | ret a => rfl
  | fail e => rfl
  | select l k ih => exact congrArg _ (funext ih)
  | lock t key w k ih => exact congrArg _ (funext ih)
  | update t key w f k ih => exact congrArg _ (funext ih)
  | insert t r skip k ih => exact congrArg _ (funext ih)
  | advisory n k ih => exact congrArg _ ih

theorem bind_assoc {γ : Type} (p : Prog Row L ε α) (g : α → Prog Row L ε β)
    (h : β → Prog Row L ε γ) : (p.bind g).bind h = p.bind fun a => (g a).bind h := by
  induction p with
  | ret a => rfl
  | fail e => rfl
  | select l k ih => exact congrArg _ (funext ih)
  | lock t key w k ih => exact congrArg _ (funext ih)
  | update t key w f k ih => exact congrArg _ (funext ih)
  | insert t r skip k ih => exact congrArg _ (funext ih)
  | advisory n k ih => exact congrArg _ ih

instance : LawfulMonad (Prog Row L ε) :=
  LawfulMonad.mk' _ (fun p => bind_ret p) (fun _ _ => rfl) (fun p g h => bind_assoc p g h)

/-! ## Statements -/

def raise (e : ε) : Prog Row L ε α := .fail (.raised e)

/-- Raise `e` when `c` holds. -/
def raiseIf (c : Prop) [Decidable c] (e : ε) : Prog Row L ε Unit :=
  if c then raise e else pure ()

/-- The value of `o`, or the error `e`. -/
def orRaise (o : Option α) (e : ε) : Prog Row L ε α :=
  match o with
  | some a => pure a
  | none => raise e

/-- A SELECT that computes `f` from its snapshot. -/
def read (l : L) (f : Db Row → α) : Prog Row L ε α :=
  .select l fun db => .ret (f db)

def advisoryLock (n : Int) : Prog Row L ε Unit := .advisory n (.ret ())

def insertRow (t : T) (r : Row t) : Prog Row L ε Inserted := .insert t r (fun _ => false) .ret

/-- `INSERT … ON CONFLICT … DO NOTHING`, with the arbiter index `skip`. -/
def insertOrSkip (t : T) (r : Row t) (skip : Row t → Bool) : Prog Row L ε Inserted :=
  .insert t r skip .ret

/-- An INSERT whose unique violation the code does not catch. -/
def insertOrAbort (t : T) (r : Row t) : Prog Row L ε Unit :=
  .insert t r (fun _ => false) fun
    | .inserted => .ret ()
    | _ => .fail .database

/-- The keys of the rows `w` holds of. -/
def candidates (db : Db Row) (t : T) (w : Row t → Bool) : List (Schema.Key Row t) :=
  ((db t).rows.filter w).map (Schema.key t)

def lockEach (t : T) (w : Row t → Bool) : List (Schema.Key Row t) → Prog Row L ε (List (Row t))
  | [] => .ret []
  | key :: keys => .lock t key w fun r => (lockEach t w keys).bind fun rs => .ret (r.toList ++ rs)

/-- `SELECT … WHERE w FOR UPDATE`. -/
def selectForUpdate (l : L) (t : T) (w : Row t → Bool) : Prog Row L ε (List (Row t)) :=
  .select l fun db => lockEach t w (candidates db t w)

def updateEach (t : T) (w : Row t → Bool) (f : Change Row t) :
    List (Schema.Key Row t) → Prog Row L ε (List (Row t))
  | [] => .ret []
  | key :: keys => .update t key w f fun r =>
      (updateEach t w f keys).bind fun rs => .ret (r.toList ++ rs)

/-- `UPDATE t SET f WHERE w RETURNING *`. -/
def updateWhere (l : L) (t : T) (w : Row t → Bool) (f : Change Row t) :
    Prog Row L ε (List (Row t)) :=
  .select l fun db => updateEach t w f (candidates db t w)

/-- `INSERT … SELECT rs ON CONFLICT (key) DO UPDATE SET f WHERE w`. A row that
this statement has inserted or updated (`touched`) cannot be proposed again. -/
def upsertEach (t : T) (w : Row t → Bool) (f : Change Row t) :
    List (Row t) → List (Schema.Key Row t) → Prog Row L ε Unit
  | [], _ => .ret ()
  | r :: rs, touched =>
    .insert t r (fun x => decide (Schema.key t x = Schema.key t r)) fun
      | .inserted => upsertEach t w f rs (Schema.key t r :: touched)
      | .violation => .fail .database
      | .skipped =>
        if Schema.key t r ∈ touched then .fail .database
        else .update t (Schema.key t r) w f fun
          | some _ => upsertEach t w f rs (Schema.key t r :: touched)
          | none => upsertEach t w f rs touched

/-! ## Tables a program does not write -/

/-- Every INSERT and UPDATE of the program is on a table in `W`. -/
def WritesOnly (W : T → Prop) : Prog Row L ε α → Prop
  | .ret _ => True
  | .fail _ => True
  | .select _ k => ∀ db, (k db).WritesOnly W
  | .lock _ _ _ k => ∀ r, (k r).WritesOnly W
  | .update t _ _ _ k => W t ∧ ∀ r, (k r).WritesOnly W
  | .insert t _ _ k => W t ∧ ∀ o, (k o).WritesOnly W
  | .advisory _ k => k.WritesOnly W

variable {W : T → Prop}

theorem WritesOnly.bind {p : Prog Row L ε α} {g : α → Prog Row L ε β} (hp : p.WritesOnly W)
    (hg : ∀ a, (g a).WritesOnly W) : (p >>= g).WritesOnly W := by
  rw [bind_def]
  induction p with
  | ret a => exact hg a
  | fail e => trivial
  | select l k ih => exact fun db => ih db (hp db)
  | lock t key w k ih => exact fun r => ih r (hp r)
  | update t key w f k ih => exact ⟨hp.1, fun r => ih r (hp.2 r)⟩
  | insert t r skip k ih => exact ⟨hp.1, fun o => ih o (hp.2 o)⟩
  | advisory n k ih => exact ih hp

@[simp] theorem writesOnly_pure (a : α) : (pure a : Prog Row L ε α).WritesOnly W := trivial

@[simp] theorem writesOnly_raise (e : ε) : (raise e : Prog Row L ε α).WritesOnly W := trivial

@[simp] theorem writesOnly_read (l : L) (f : Db Row → α) :
    (read l f : Prog Row L ε α).WritesOnly W := fun _ => trivial

@[simp] theorem writesOnly_raiseIf (c : Prop) [Decidable c] (e : ε) :
    (raiseIf c e : Prog Row L ε Unit).WritesOnly W := by
  unfold raiseIf
  split <;> trivial

@[simp] theorem writesOnly_orRaise (o : Option α) (e : ε) :
    (orRaise o e : Prog Row L ε α).WritesOnly W := by
  cases o <;> trivial

theorem writesOnly_lockEach (t : T) (w : Row t → Bool) (keys : List (Schema.Key Row t)) :
    (lockEach t w keys : Prog Row L ε _).WritesOnly W := by
  induction keys with
  | nil => trivial
  | cons key keys ih => exact fun _ => WritesOnly.bind ih fun _ => trivial

@[simp] theorem writesOnly_selectForUpdate (l : L) (t : T) (w : Row t → Bool) :
    (selectForUpdate l t w : Prog Row L ε _).WritesOnly W :=
  fun _ => writesOnly_lockEach t w _

theorem writesOnly_updateEach {t : T} {w : Row t → Bool} {f : Change Row t} (ht : W t)
    (keys : List (Schema.Key Row t)) : (updateEach t w f keys : Prog Row L ε _).WritesOnly W := by
  induction keys with
  | nil => trivial
  | cons key keys ih => exact ⟨ht, fun _ => WritesOnly.bind ih fun _ => trivial⟩

theorem writesOnly_updateWhere {l : L} {t : T} {w : Row t → Bool} {f : Change Row t} (ht : W t) :
    (updateWhere l t w f : Prog Row L ε _).WritesOnly W := by
  intro db
  exact writesOnly_updateEach ht _

theorem writesOnly_insertRow {t : T} {r : Row t} (ht : W t) :
    (insertRow t r : Prog Row L ε _).WritesOnly W :=
  ⟨ht, fun _ => trivial⟩

theorem writesOnly_insertOrSkip {t : T} {r : Row t} {skip : Row t → Bool} (ht : W t) :
    (insertOrSkip t r skip : Prog Row L ε _).WritesOnly W :=
  ⟨ht, fun _ => trivial⟩

theorem writesOnly_insertOrAbort {t : T} {r : Row t} (ht : W t) :
    (insertOrAbort t r : Prog Row L ε _).WritesOnly W := by
  refine ⟨ht, fun o => ?_⟩
  cases o <;> trivial

theorem writesOnly_upsertEach {t : T} {w : Row t → Bool} {f : Change Row t} {rs : List (Row t)}
    {touched : List (Schema.Key Row t)} (ht : W t) :
    (upsertEach t w f rs touched : Prog Row L ε Unit).WritesOnly W := by
  induction rs generalizing touched with
  | nil => trivial
  | cons r rs ih =>
    refine ⟨ht, fun o => ?_⟩
    cases o with
    | inserted => exact ih
    | violation => trivial
    | skipped =>
      show WritesOnly W (if _ then _ else _)
      split
      · trivial
      · refine ⟨ht, fun x => ?_⟩
        cases x with
        | none => exact ih
        | some x => exact ih

end Prog

end Sql
