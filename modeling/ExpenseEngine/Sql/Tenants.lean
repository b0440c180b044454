import ExpenseEngine.Sql.Respects

/-!
# Tenants of one database

Several tenants share the tables. A program is confined to a tenant when its
SELECTs tell no two databases apart that show the tenant the same rows, and its
writes touch rows of the tenant alone. Such a program cannot learn of the other
tenants and leaves their rows as they are.

Results:
1. `confined_bind`, `confined_read` and one rule for each statement.
2. `Confined.same`: databases that look alike to the tenant give it the same
   answer and are left alike.
3. `Confined.others`: the other tenants see no change.
-/

namespace Sql

variable {T : Type} {Row : T → Type} [Schema Row] {L ε α β κ : Type}
  [DecidableEq κ]

/-! ## Who sees what -/

/-- Whose a row is, nobody's in a table that all share, and what the rows of one
tenant are like. -/
structure Tenancy (Row : T → Type) (κ : Type) where
  owner : (t : T) → Row t → Option κ
  fits : κ → (t : T) → Row t → Prop

namespace Tenancy

variable (S : Tenancy Row κ)

def Owned (u : κ) (t : T) (r : Row t) : Prop := S.owner t r = some u ∧ S.fits u t r

/-- Every row with an owner is like the rows of its owner. -/
def Partitioned (db : Db Row) : Prop :=
  ∀ t, ∀ r ∈ db.rows t, ∀ u, S.owner t r = some u → S.fits u t r

/-- The row is the tenant's own, or everybody's. -/
def sees (u : κ) (t : T) (r : Row t) : Bool :=
  match S.owner t r with
  | none => true
  | some v => decide (v = u)

/-- What the tenant sees of a table. -/
def slice (u : κ) (db : Db Row) (t : T) : List (Row t) := (db.rows t).filter (S.sees u t)

/-- The tenant sees the same rows in the two databases. -/
structure Alike (u : κ) (db db' : Db Row) : Prop where
  left : S.Partitioned db
  right : S.Partitioned db'
  slice : ∀ t, S.slice u db t = S.slice u db' t

/-- No row of another tenant passes `w`. -/
def Skips (u : κ) (t : T) (w : Row t → Bool) : Prop :=
  ∀ v x, v ≠ u → S.Owned v t x → w x = false

/-- A row with this key can only be the tenant's. -/
def Reserves (u : κ) (t : T) (key : Schema.Key Row t) : Prop :=
  ∀ r, Schema.key t r = key → S.owner t r ≠ none ∧ ∀ v, S.Owned v t r → v = u

/-- Tables are shared as a whole, the rows of two tenants collide on no key and
no unique index, and the foreign keys of a row refer to rows its owner sees. -/
structure Lawful : Prop where
  shared : ∀ t (x r : Row t), S.owner t x = none → S.owner t r = none
  apart : ∀ {u v t r x}, S.Owned u t r → S.Owned v t x → v ≠ u →
    Schema.key t x ≠ Schema.key t r ∧ Schema.clash t x r = false
  refs : ∀ {u db db' t r}, S.Alike u db db' → S.Owned u t r →
    Schema.refs db.rows t r = Schema.refs db'.rows t r

end Tenancy

namespace TenantLemmas

variable {S : Tenancy Row κ} {u v : κ} {db db' : Db Row} {t : T} {r : Row t}

omit [Schema Row] in
theorem sees_of_owned (h : S.Owned u t r) : S.sees u t r = true := by
  rw [Tenancy.sees, h.1]
  exact decide_eq_true rfl

omit [Schema Row] in
/-- A row that the tenant does not see has another owner. -/
theorem sees_eq_false (h : S.sees u t r = false) : ∃ v, v ≠ u ∧ S.owner t r = some v := by
  rw [Tenancy.sees] at h
  split at h
  · cases h
  · next v hv => exact ⟨v, of_decide_eq_false h, hv⟩

theorem foreign_owned (hdb : S.Partitioned db) (hr : r ∈ db.rows t)
    (h : S.sees u t r = false) : ∃ v, v ≠ u ∧ S.Owned v t r := by
  obtain ⟨v, hv, howner⟩ := sees_eq_false h
  exact ⟨v, hv, howner, hdb t r hr v howner⟩

/-- A row that passes `w` is one the tenant sees. -/
theorem sees_of_skips {w : Row t → Bool} (hw : S.Skips u t w) (hdb : S.Partitioned db)
    (hr : r ∈ db.rows t) (h : w r = true) : S.sees u t r = true := by
  cases hsees : S.sees u t r with
  | true => rfl
  | false =>
    obtain ⟨v, hv, howned⟩ := foreign_owned hdb hr hsees
    rw [hw v r hv howned] at h
    cases h

theorem mem_of_alike (h : S.Alike u db db') (hsees : S.sees u t r = true) (hr : r ∈ db.rows t) :
    r ∈ db'.rows t := by
  have hslice : r ∈ S.slice u db t := List.mem_filter.mpr ⟨hr, hsees⟩
  rw [h.slice t] at hslice
  exact (List.mem_filter.mp hslice).1

theorem filter_slice {w : Row t → Bool} (hw : S.Skips u t w) (hdb : S.Partitioned db) :
    (db.rows t).filter w = (S.slice u db t).filter w := by
  rw [Tenancy.slice, List.filter_filter]
  refine List.filter_congr fun r hr => ?_
  cases h : w r with
  | false => rw [Bool.false_and]
  | true => rw [sees_of_skips hw hdb hr h, Bool.and_true]

theorem reserves_of_owned (hS : S.Lawful) (h : S.Owned u t r) :
    S.Reserves u t (Schema.key t r) := by
  intro x hkey
  refine ⟨fun hnone => ?_, fun v hx => ?_⟩
  · have howner := h.1
    rw [hS.shared t x r hnone] at howner
    cases howner
  · by_contra hv
    exact (hS.apart h hx hv).1 hkey

omit [DecidableEq κ] in
theorem owned_of_reserves {key : Schema.Key Row t} (h : S.Reserves u t key)
    (hdb : S.Partitioned db) (hr : r ∈ db.rows t) (hkey : Schema.key t r = key) :
    S.Owned u t r := by
  obtain ⟨hne, hv⟩ := h r hkey
  obtain ⟨v, howner⟩ := Option.ne_none_iff_exists'.mp hne
  have howned : S.Owned v t r := ⟨howner, hdb t r hr v howner⟩
  exact hv v howned ▸ howned

omit [DecidableEq κ] in
theorem owned_of_find {key : Schema.Key Row t} (h : S.Reserves u t key)
    (hdb : S.Partitioned db) (hr : (db t).find? key = some r) : S.Owned u t r :=
  owned_of_reserves h hdb (Table.mem_of_find? hr) (Table.key_of_find? hr)

end TenantLemmas

open TenantLemmas

namespace Tenancy.Alike

variable {S : Tenancy Row κ} {u : κ} {db db' db'' : Db Row} {t : T}

theorem refl (h : S.Partitioned db) : S.Alike u db db := ⟨h, h, fun _ => rfl⟩

theorem symm (h : S.Alike u db db') : S.Alike u db' db :=
  ⟨h.right, h.left, fun t => (h.slice t).symm⟩

theorem trans (h : S.Alike u db db') (h' : S.Alike u db' db'') : S.Alike u db db'' :=
  ⟨h.left, h'.right, fun t => (h.slice t).trans (h'.slice t)⟩

/-! ## What the tenant reads -/

theorem filter_eq {w : Row t → Bool} (h : S.Alike u db db') (hw : S.Skips u t w) :
    (db'.rows t).filter w = (db.rows t).filter w := by
  rw [filter_slice hw h.left, filter_slice hw h.right, h.slice]

theorem find?_eq {w : Row t → Bool} (h : S.Alike u db db') (hw : S.Skips u t w) :
    (db'.rows t).find? w = (db.rows t).find? w := by
  rw [← List.head?_filter, ← List.head?_filter, h.filter_eq hw]

theorem any_eq {w : Row t → Bool} (h : S.Alike u db db') (hw : S.Skips u t w) :
    (db'.rows t).any w = (db.rows t).any w := by
  rw [Bool.eq_iff_iff, List.any_eq_true, List.any_eq_true]
  rw [← List.find?_isSome, ← List.find?_isSome, h.find?_eq hw]

theorem mem_iff (h : S.Alike u db db') {r : Row t} (hsees : S.sees u t r = true) :
    r ∈ db'.rows t ↔ r ∈ db.rows t :=
  ⟨mem_of_alike h.symm hsees, mem_of_alike h hsees⟩

/-- A row of the tenant is found in both databases or in neither. -/
theorem find?_key_eq {key : Schema.Key Row t} (h : S.Alike u db db') (hkey : S.Reserves u t key) :
    (db' t).find? key = (db t).find? key := by
  ext r
  rw [Table.find?_eq_some, Table.find?_eq_some]
  refine and_congr_left fun hr => ⟨fun hmem => ?_, fun hmem => ?_⟩
  · exact (h.mem_iff (sees_of_owned (owned_of_reserves hkey h.right hmem hr))).mp hmem
  · exact (h.mem_iff (sees_of_owned (owned_of_reserves hkey h.left hmem hr))).mpr hmem

theorem candidates_eq {w : Row t → Bool} (h : S.Alike u db db') (hw : S.Skips u t w) :
    Prog.candidates db' t w = Prog.candidates db t w := by
  rw [Prog.candidates, Prog.candidates]
  exact congrArg _ (h.filter_eq hw)

/-! ## What the tenant may write -/

theorem accepts_eq (hS : S.Lawful) (h : S.Alike u db db') {r : Row t} (hr : S.Owned u t r) :
    db'.accepts t r = db.accepts t r := by
  have hclash : (db'.rows t).any (fun x =>
        !(decide (Schema.key t x = Schema.key t r) || !Schema.clash t x r)) =
      (db.rows t).any fun x =>
        !(decide (Schema.key t x = Schema.key t r) || !Schema.clash t x r) := by
    refine h.any_eq fun v x hv hx => ?_
    simp [(hS.apart hr hx hv).2]
  rw [Db.accepts, Db.accepts, hS.refs h hr]
  congr 2
  rw [List.all_eq_not_any_not, List.all_eq_not_any_not]
  exact congrArg _ hclash

theorem tryInsert_eq (hS : S.Lawful) (h : S.Alike u db db') {r : Row t} (hr : S.Owned u t r)
    {skip : Row t → Bool} (hskip : S.Skips u t skip) :
    db'.tryInsert t r skip = db.tryInsert t r skip := by
  have hclash : (db'.rows t).any (fun x =>
        decide (Schema.key t x = Schema.key t r) || Schema.clash t x r) =
      (db.rows t).any fun x =>
        decide (Schema.key t x = Schema.key t r) || Schema.clash t x r := by
    refine h.any_eq fun v x hv hx => ?_
    simp [hS.apart hr hx hv]
  have hskipped := h.any_eq hskip
  rw [Db.rows, Db.rows] at hclash hskipped
  rw [Db.tryInsert, Db.tryInsert, hclash, hskipped, hS.refs h hr]

end Tenancy.Alike

namespace TenantLemmas

variable {S : Tenancy Row κ} {u v : κ} {db db' : Db Row} {t : T} {r : Row t}

omit [DecidableEq κ] in
theorem partitioned_put [DecidableEq T] (hdb : S.Partitioned db) (hr : S.Owned u t r) :
    S.Partitioned (db.put t r) := by
  intro t' x hx w hw
  by_cases ht : t' = t
  · subst ht
    rw [Db.rows, Db.put_same] at hx
    rcases Table.mem_put.mp hx with rfl | ⟨hx, -⟩
    · obtain rfl : u = w := Option.some.inj (hr.1.symm.trans hw)
      exact hr.2
    · exact hdb t' x hx w hw
  · rw [Db.rows_put_ne db r ht] at hx
    exact hdb t' x hx w hw

/-- A tenant that writes a row sees the row it replaces, or appends. -/
theorem slice_put_own [DecidableEq T] (hS : S.Lawful) (hdb : S.Partitioned db)
    (hr : S.Owned u t r) :
    S.slice u (db.put t r) t =
      if (db t).find? (Schema.key t r) = none then S.slice u db t ++ [r]
      else (S.slice u db t).map fun x =>
        if Schema.key t x = Schema.key t r then r else x := by
  have hsees := sees_of_owned hr
  rw [Tenancy.slice, Db.rows, Db.put_same]
  split
  · next hnone =>
    rw [Table.rows_put_of_new hnone, List.filter_append, List.filter_singleton, hsees]
    rfl
  · next hsome =>
    obtain ⟨y, hy⟩ := Option.ne_none_iff_exists'.mp hsome
    rw [Table.rows_put_of_find hy, List.filter_map]
    refine congrArg _ (List.filter_congr fun x hx => ?_)
    dsimp only [Function.comp_apply]
    split
    · next hkey =>
      rw [hsees, sees_of_owned (owned_of_reserves (reserves_of_owned hS hr) hdb hx hkey)]
    · rfl

/-- The write of a tenant keeps databases alike that look alike to it. -/
theorem alike_put [DecidableEq T] (hS : S.Lawful) (h : S.Alike u db db') (hr : S.Owned u t r) :
    S.Alike u (db.put t r) (db'.put t r) where
  left := partitioned_put h.left hr
  right := partitioned_put h.right hr
  slice t' := by
    by_cases ht : t' = t
    · subst ht
      rw [slice_put_own hS h.left hr, slice_put_own hS h.right hr, h.slice,
        h.find?_key_eq (reserves_of_owned hS hr)]
    · rw [Tenancy.slice, Tenancy.slice, Db.rows_put_ne db r ht, Db.rows_put_ne db' r ht]
      exact h.slice t'

/-- A write that neither replaces nor makes a row of `q`. -/
theorem filter_put_rows {tb : Table Row t} {q : Row t → Bool} (hr : q r = false)
    (h : ∀ x ∈ tb.rows, Schema.key t x = Schema.key t r → q x = false) :
    (tb.put r).rows.filter q = tb.rows.filter q := by
  cases hfind : tb.find? (Schema.key t r) with
  | none => rw [Table.rows_put_of_new hfind, List.filter_append, List.filter_singleton, hr]; simp
  | some y =>
    rw [Table.rows_put_of_find hfind]
    revert h
    induction tb.rows with
    | nil => exact fun _ => rfl
    | cons x xs ih =>
      intro h
      rw [List.map_cons, List.filter_cons, List.filter_cons,
        ih fun z hz => h z (List.mem_cons_of_mem _ hz)]
      by_cases hkey : Schema.key t x = Schema.key t r
      · rw [if_pos hkey, hr, h x List.mem_cons_self hkey]
        rfl
      · rw [if_neg hkey]

/-- A row with the key of a row of the tenant `u` is not seen by another. -/
theorem sees_other (hS : S.Lawful) (hr : S.Owned u t r) {x : Row t}
    (hkey : Schema.key t x = Schema.key t r) (hx : S.owner t x ≠ some v) :
    S.sees v t x = false := by
  obtain ⟨hne, -⟩ := reserves_of_owned hS hr x hkey
  rw [Tenancy.sees]
  split
  · next hnone => exact absurd hnone hne
  · next w hw => exact decide_eq_false fun hwv => hx (hwv ▸ hw)

/-- The other tenants do not see the write. -/
theorem alike_put_other [DecidableEq T] (hS : S.Lawful) (hdb : S.Partitioned db)
    (hr : S.Owned u t r)
    (hv : v ≠ u) : S.Alike v db (db.put t r) where
  left := hdb
  right := partitioned_put hdb hr
  slice t' := by
    by_cases ht : t' = t
    · subst ht
      rw [Tenancy.slice, Tenancy.slice, Db.rows, Db.rows, Db.put_same]
      refine (filter_put_rows ?_ fun x hx hkey => ?_).symm
      · exact sees_other hS hr rfl fun h => hv (Option.some.inj (h.symm.trans hr.1))
      · refine sees_other hS hr hkey fun hxv => hv ?_
        exact (reserves_of_owned hS hr x hkey).2 v ⟨hxv, hdb t' x hx v hxv⟩
    · rw [Tenancy.slice, Tenancy.slice, Db.rows_put_ne db r ht]

end TenantLemmas

/-! ## Confined programs -/

namespace Prog

/-- The program reads and writes for the tenant `u` alone, and what it returns is
in `φ`. -/
def Confined (S : Tenancy Row κ) (u : κ) (φ : α → Prop) : Prog Row L ε α → Prop
  | .ret a => φ a
  | .fail _ => True
  | .select _ k =>
    (∀ db db', S.Alike u db db' → k db' = k db) ∧
      ∀ db, S.Partitioned db → (k db).Confined S u φ
  | .lock t key w k =>
    S.Reserves u t key ∧
      ∀ o, (∀ r, o = some r → w r = true ∧ S.Owned u t r) → (k o).Confined S u φ
  | .update t key w f k =>
    (S.Reserves u t key ∧ ∀ r, w r = true → S.Owned u t r → S.Owned u t (f.apply r)) ∧
      ∀ o, (∀ r, o = some r → S.Owned u t r) → (k o).Confined S u φ
  | .insert t r skip k =>
    (S.Owned u t r ∧ S.Skips u t skip) ∧ ∀ o, (k o).Confined S u φ
  | .advisory _ k => k.Confined S u φ

variable {S : Tenancy Row κ} {u v : κ} {φ φ' : α → Prop} {ψ : β → Prop}
  {p : Prog Row L ε α} {g : α → Prog Row L ε β}

/-! ### Composition -/

theorem confined_bind (hp : p.Confined S u φ) (hg : ∀ a, φ a → (g a).Confined S u ψ) :
    (p >>= g).Confined S u ψ := by
  rw [bind_def]
  induction p with
  | ret a => exact hg a hp
  | fail e => trivial
  | select l k ih => exact ⟨fun db db' h => congrArg (Prog.bind · g) (hp.1 db db' h),
      fun db hdb => ih db (hp.2 db hdb)⟩
  | lock t key w k ih => exact ⟨hp.1, fun o ho => ih o (hp.2 o ho)⟩
  | update t key w f k ih => exact ⟨hp.1, fun o ho => ih o (hp.2 o ho)⟩
  | insert t r skip k ih => exact ⟨hp.1, fun o => ih o (hp.2 o)⟩
  | advisory n k ih => exact ih hp

theorem Confined.mono (hp : p.Confined S u φ) (h : ∀ a, φ a → φ' a) : p.Confined S u φ' := by
  rw [← bind_ret p]
  exact confined_bind (g := .ret) hp h

theorem confined_pure {a : α} (h : φ a) : (pure a : Prog Row L ε α).Confined S u φ := h

theorem confined_map {f : α → β} (hp : p.Confined S u fun a => ψ (f a)) :
    (f <$> p).Confined S u ψ := by
  rw [map_eq_pure_bind]
  exact confined_bind hp fun _ h => h

theorem confined_raiseIf {c : Prop} [Decidable c] {e : ε} :
    (raiseIf c e : Prog Row L ε Unit).Confined S u fun _ => ¬c := by
  unfold raiseIf
  split
  · trivial
  · next h => exact h

theorem confined_orRaise {o : Option α} {e : ε} :
    (orRaise o e : Prog Row L ε α).Confined S u fun a => o = some a := by
  cases o with
  | none => trivial
  | some a => exact rfl

theorem confined_mapM {f : α → Prog Row L ε β} {xs : List α}
    (h : ∀ x ∈ xs, (f x).Confined S u ψ) :
    (xs.mapM f).Confined S u fun ys => ∀ y ∈ ys, ψ y := by
  induction xs with
  | nil =>
    rw [List.mapM_nil]
    exact confined_pure (by simp)
  | cons x xs ih =>
    rw [List.mapM_cons]
    refine confined_bind (h x List.mem_cons_self) fun y hy => ?_
    refine confined_bind (ih fun z hz => h z (List.mem_cons_of_mem _ hz)) fun ys hys => ?_
    exact confined_pure (List.forall_mem_cons.mpr ⟨hy, hys⟩)

/-! ### Statements -/

section Statements

variable {t : T} {w : Row t → Bool} {f : Change Row t} {r : Row t}

theorem confined_read {l : L} {f : Db Row → α} (hf : ∀ db db', S.Alike u db db' → f db' = f db)
    (hφ : ∀ db, S.Partitioned db → φ (f db)) : (read l f : Prog Row L ε α).Confined S u φ :=
  ⟨fun db db' h => congrArg ret (hf db db' h), hφ⟩

theorem confined_advisoryLock {n : Int} :
    (advisoryLock n : Prog Row L ε Unit).Confined S u fun _ => True :=
  trivial

omit [Schema Row] [DecidableEq κ] in
/-- A condition that names the tenant. -/
theorem skips_of_owner (hw : ∀ r, w r = true → S.owner t r = some u) : S.Skips u t w := by
  intro v x hv hx
  cases h : w x with
  | false => rfl
  | true => exact absurd (Option.some.inj (hx.1.symm.trans (hw x h))) hv

theorem reserves_of_candidate (hS : S.Lawful) (hw : ∀ r, w r = true → S.owner t r = some u)
    {db : Db Row} (hdb : S.Partitioned db) {key : Schema.Key Row t}
    (hkey : key ∈ candidates db t w) : S.Reserves u t key := by
  obtain ⟨r, hr, rfl⟩ := List.mem_map.mp hkey
  obtain ⟨hr, hwr⟩ := List.mem_filter.mp hr
  have howner := hw r hwr
  exact reserves_of_owned hS ⟨howner, hdb t r hr u howner⟩

theorem confined_lockEach {keys : List (Schema.Key Row t)}
    (hkeys : ∀ key ∈ keys, S.Reserves u t key) :
    (lockEach t w keys : Prog Row L ε _).Confined S u
      fun rs => ∀ r ∈ rs, w r = true ∧ S.Owned u t r := by
  induction keys with
  | nil => exact fun _ h => absurd h (by simp)
  | cons key keys ih =>
    refine ⟨hkeys key List.mem_cons_self, fun o ho => ?_⟩
    refine confined_bind (ih fun k hk => hkeys k (List.mem_cons_of_mem _ hk)) fun rs hrs => ?_
    intro r hr
    rcases List.mem_append.mp hr with hr | hr
    · exact ho r (by simpa using hr)
    · exact hrs r hr

theorem confined_selectForUpdate (hS : S.Lawful) {l : L}
    (hw : ∀ r, w r = true → S.owner t r = some u) :
    (selectForUpdate l t w : Prog Row L ε _).Confined S u
      fun rs => ∀ r ∈ rs, w r = true ∧ S.Owned u t r :=
  ⟨fun _ _ h => congrArg (lockEach t w) (h.candidates_eq (skips_of_owner hw)),
    fun _ hdb => confined_lockEach fun _ hkey => reserves_of_candidate hS hw hdb hkey⟩

theorem confined_updateEach (hf : ∀ r, w r = true → S.Owned u t r → S.Owned u t (f.apply r))
    {keys : List (Schema.Key Row t)} (hkeys : ∀ key ∈ keys, S.Reserves u t key) :
    (updateEach t w f keys : Prog Row L ε _).Confined S u fun rs => ∀ r ∈ rs, S.Owned u t r := by
  induction keys with
  | nil => exact fun _ h => absurd h (by simp)
  | cons key keys ih =>
    refine ⟨⟨hkeys key List.mem_cons_self, hf⟩, fun o ho => ?_⟩
    refine confined_bind (ih fun k hk => hkeys k (List.mem_cons_of_mem _ hk)) fun rs hrs => ?_
    intro r hr
    rcases List.mem_append.mp hr with hr | hr
    · exact ho r (by simpa using hr)
    · exact hrs r hr

theorem confined_updateWhere (hS : S.Lawful) {l : L}
    (hw : ∀ r, w r = true → S.owner t r = some u)
    (hf : ∀ r, w r = true → S.Owned u t r → S.Owned u t (f.apply r)) :
    (updateWhere l t w f : Prog Row L ε _).Confined S u fun rs => ∀ r ∈ rs, S.Owned u t r :=
  ⟨fun _ _ h => congrArg (updateEach t w f) (h.candidates_eq (skips_of_owner hw)),
    fun _ hdb => confined_updateEach hf fun _ hkey => reserves_of_candidate hS hw hdb hkey⟩

theorem confined_insertRow (hr : S.Owned u t r) :
    (insertRow t r : Prog Row L ε _).Confined S u fun _ => True :=
  ⟨⟨hr, fun _ _ _ _ => rfl⟩, fun _ => trivial⟩

theorem confined_insertOrSkip {skip : Row t → Bool} (hr : S.Owned u t r)
    (hskip : ∀ x, skip x = true → S.owner t x = some u) :
    (insertOrSkip t r skip : Prog Row L ε _).Confined S u fun _ => True :=
  ⟨⟨hr, skips_of_owner hskip⟩, fun _ => trivial⟩

theorem confined_insertOrAbort (hr : S.Owned u t r) :
    (insertOrAbort t r : Prog Row L ε _).Confined S u fun _ => True := by
  refine ⟨⟨hr, fun _ _ _ _ => rfl⟩, fun o => ?_⟩
  cases o <;> trivial

theorem confined_upsertEach (hS : S.Lawful) {rs : List (Row t)}
    {touched : List (Schema.Key Row t)} (hrs : ∀ r ∈ rs, S.Owned u t r)
    (hf : ∀ r, S.Owned u t r → S.Owned u t (f.apply r)) :
    (upsertEach t w f rs touched : Prog Row L ε Unit).Confined S u fun _ => True := by
  induction rs generalizing touched with
  | nil => trivial
  | cons r rs ih =>
    have hr := hrs r List.mem_cons_self
    have hrest : ∀ touched, (upsertEach t w f rs touched : Prog Row L ε Unit).Confined S u
        fun _ => True := fun touched => ih fun x hx => hrs x (List.mem_cons_of_mem _ hx)
    refine ⟨⟨hr, fun v x hv hx => decide_eq_false (hS.apart hr hx hv).1⟩, fun o => ?_⟩
    cases o with
    | inserted => exact hrest _
    | violation => trivial
    | skipped =>
      show Confined S u _ (if _ then _ else _)
      split
      · trivial
      · refine ⟨⟨reserves_of_owned hS hr, fun x _ hx => hf x hx⟩, fun o _ => ?_⟩
        cases o with
        | none => exact hrest _
        | some x => exact hrest _

end Statements

/-! ### What confinement gives -/

/-- Databases that look alike to the tenant give it the same answer, and are left
alike. -/
theorem Confined.same [DecidableEq T] (hS : S.Lawful) (hp : p.Confined S u φ) {db db' : Db Row}
    (h : S.Alike u db db') : Same (S.Alike u) (exec p db) (exec p db') := by
  induction p generalizing db db' with
  | ret a => exact .ok h
  | fail e => exact .error e
  | select l k ih =>
    show Same _ (exec (k db) db) (exec (k db') db')
    rw [hp.1 db db' h]
    exact ih db (hp.2 db h.left) h
  | lock t key w k ih =>
    show Same _ (exec (k (((db t).find? key).filter w)) db)
      (exec (k (((db' t).find? key).filter w)) db')
    rw [h.find?_key_eq hp.1]
    refine ih _ (hp.2 _ fun r hr => ?_) h
    obtain ⟨hfind, hw⟩ := Option.filter_eq_some_iff.mp hr
    exact ⟨hw, owned_of_find hp.1 h.left hfind⟩
  | update t key w f k ih =>
    simp only [exec]
    rw [h.find?_key_eq hp.1.1]
    split
    · exact ih none (hp.2 none (by simp)) h
    · next r hr =>
      obtain ⟨hfind, hw⟩ := Option.filter_eq_some_iff.mp hr
      have hnew := hp.1.2 r hw (owned_of_find hp.1.1 h.left hfind)
      rw [h.accepts_eq hS hnew]
      split
      · exact ih _ (hp.2 _ fun x hx => Option.some.inj hx ▸ hnew) (alike_put hS h hnew)
      · exact .error _
  | insert t r skip k ih =>
    simp only [exec]
    rw [h.tryInsert_eq hS hp.1.1 hp.1.2]
    split
    · exact .error _
    · exact ih _ (hp.2 _) (alike_put hS h hp.1.1)
    · exact ih _ (hp.2 _) h
  | advisory n k ih => exact ih hp h

/-- A confined program leaves the tables partitioned, and the other tenants see
no change. -/
theorem Confined.others [DecidableEq T] (hS : S.Lawful) (hp : p.Confined S u φ) {db db' : Db Row}
    (hdb : S.Partitioned db) {a : α} (h : exec p db = .ok (a, db')) :
    S.Partitioned db' ∧ φ a ∧ ∀ v, v ≠ u → S.Alike v db db' := by
  induction p generalizing db with
  | ret b =>
    simp only [exec, Except.ok.injEq, Prod.mk.injEq] at h
    obtain ⟨rfl, rfl⟩ := h
    exact ⟨hdb, hp, fun v _ => .refl hdb⟩
  | fail e => cases h
  | select l k ih => exact ih db (hp.2 db hdb) hdb h
  | lock t key w k ih =>
    refine ih _ (hp.2 _ fun r hr => ?_) hdb h
    obtain ⟨hfind, hw⟩ := Option.filter_eq_some_iff.mp hr
    exact ⟨hw, owned_of_find hp.1 hdb hfind⟩
  | update t key w f k ih =>
    simp only [exec] at h
    split at h
    · exact ih none (hp.2 none (by simp)) hdb h
    · next r hr =>
      obtain ⟨hfind, hw⟩ := Option.filter_eq_some_iff.mp hr
      have hnew := hp.1.2 r hw (owned_of_find hp.1.1 hdb hfind)
      split at h
      · obtain ⟨hdb', ha, hothers⟩ :=
          ih _ (hp.2 _ fun x hx => Option.some.inj hx ▸ hnew) (partitioned_put hdb hnew) h
        exact ⟨hdb', ha, fun v hv => (alike_put_other hS hdb hnew hv).trans (hothers v hv)⟩
      · cases h
  | insert t r skip k ih =>
    simp only [exec] at h
    split at h
    · cases h
    · obtain ⟨hdb', ha, hothers⟩ := ih _ (hp.2 _) (partitioned_put hdb hp.1.1) h
      exact ⟨hdb', ha, fun v hv => (alike_put_other hS hdb hp.1.1 hv).trans (hothers v hv)⟩
    · exact ih _ (hp.2 _) hdb h
  | advisory n k ih => exact ih hp hdb h

end Prog

end Sql
