import Mathlib.Data.List.Nodup
import Mathlib.Logic.Function.Basic

/-!
# Keyed tables

A table is a list of rows in insertion order, no two of which share a key. The
only way to write one is `Table.put`, which replaces the row that carries the
key of the new row, or appends it; a set-oriented `UPDATE … SET … WHERE` is
`Table.modify`. A database is one table per table name.

Results:
1. `mem_rows_iff`: a row is in the table iff it is what `find?` returns for its
   key, so a table may be reasoned about as a finite map.
2. `find?_put`, `find?_modify`: the two writes, through `find?`.
3. `rows_put_of_new`, `rows_put_of_find`: the two writes, as lists.
-/

namespace Sql

/-- A relational schema over the table names `T`. `Key` is the type of the
key rows are found by, `clash` says that two rows collide on another unique
index, `checks` are the column ranges and CHECK constraints of a row, and
`refs` its foreign keys, read against the rows of all tables. -/
class Schema {T : Type} (Row : T → Type) where
  Key : T → Type
  keyEq : (t : T) → DecidableEq (Key t)
  key : (t : T) → Row t → Key t
  clash : (t : T) → Row t → Row t → Bool
  checks : (t : T) → Row t → Bool
  refs : ((t : T) → List (Row t)) → (t : T) → Row t → Bool

instance {T : Type} {Row : T → Type} [Schema Row] (t : T) : DecidableEq (Schema.Key Row t) :=
  Schema.keyEq t

instance {T : Type} {Row : T → Type} [Schema Row] {t : T} (k : Schema.Key Row t)
    (ks : List (Schema.Key Row t)) : Decidable (k ∈ ks) :=
  inferInstance

/-- Whether two rows collide does not depend on their order. -/
def ClashSymm {T : Type} (Row : T → Type) [Schema Row] : Prop :=
  ∀ t (x y : Row t), Schema.clash t x y = Schema.clash t y x

variable {T : Type} {Row : T → Type} [Schema Row] {t : T}

/-- The SET list of an UPDATE. No statement here rewrites a key. -/
structure Change (Row : T → Type) [Schema Row] (t : T) where
  apply : Row t → Row t
  key_apply : ∀ r, Schema.key t (apply r) = Schema.key t r

/-- The rows of one table, in insertion order. -/
@[ext] structure Table (Row : T → Type) [Schema Row] (t : T) where
  rows : List (Row t)
  nodup : (rows.map (Schema.key t)).Nodup

/-- One table for each table name. -/
abbrev Db (Row : T → Type) [Schema Row] := (t : T) → Table Row t

namespace Table

def empty : Table Row t := ⟨[], List.nodup_nil⟩

/-- The row with key `k`, if the table has one. -/
def find? (tb : Table Row t) (k : Schema.Key Row t) : Option (Row t) :=
  tb.rows.find? fun r => decide (Schema.key t r = k)

end Table

/-! ## Lists of rows with distinct keys -/

namespace TableLemmas

theorem find?_eq_some_iff {l : List (Row t)} (hl : (l.map (Schema.key t)).Nodup)
    {k : Schema.Key Row t} {r : Row t} :
    (l.find? fun r => decide (Schema.key t r = k)) = some r ↔ r ∈ l ∧ Schema.key t r = k := by
  induction l with
  | nil => simp
  | cons x xs ih =>
    simp only [List.map_cons, List.nodup_cons, List.mem_map] at hl
    by_cases hx : Schema.key t x = k
    · simp only [List.find?_cons, hx, decide_true, Option.some.injEq, List.mem_cons]
      constructor
      · rintro rfl
        exact ⟨.inl rfl, hx⟩
      · rintro ⟨rfl | hr, hk⟩
        · rfl
        · exact absurd ⟨r, hr, hk.trans hx.symm⟩ hl.1
    · simp only [List.find?_cons, hx, decide_false, List.mem_cons]
      rw [ih hl.2]
      constructor
      · rintro ⟨hr, hk⟩
        exact ⟨.inr hr, hk⟩
      · rintro ⟨rfl | hr, hk⟩
        · exact absurd hk hx
        · exact ⟨hr, hk⟩

/-- The keys are unchanged when every row keeps its own. -/
theorem map_key_map {l : List (Row t)} {g : Row t → Row t}
    (hg : ∀ r ∈ l, Schema.key t (g r) = Schema.key t r) :
    (l.map g).map (Schema.key t) = l.map (Schema.key t) := by
  rw [List.map_map]
  exact List.map_congr_left hg

theorem replace_key (r x : Row t) :
    Schema.key t (if Schema.key t x = Schema.key t r then r else x) = Schema.key t x := by
  split
  · next h => exact h.symm
  · rfl

end TableLemmas

open TableLemmas

namespace Table

/-- Replace the row with the key of `r` by `r`, or append `r`. -/
def put (tb : Table Row t) (r : Row t) : Table Row t where
  rows :=
    if Schema.key t r ∈ tb.rows.map (Schema.key t) then
      tb.rows.map fun x => if Schema.key t x = Schema.key t r then r else x
    else tb.rows ++ [r]
  nodup := by
    split
    · rw [map_key_map fun x _ => replace_key r x]
      exact tb.nodup
    · next h =>
      rw [List.map_append, List.map_singleton]
      exact tb.nodup.append (List.nodup_singleton _) (by simpa using h)

/-- `UPDATE t SET f WHERE w`. -/
def modify (tb : Table Row t) (w : Row t → Bool) (f : Change Row t) : Table Row t where
  rows := tb.rows.map fun r => if w r then f.apply r else r
  nodup := by
    rw [map_key_map]
    · exact tb.nodup
    · intro r _
      split
      · exact f.key_apply r
      · rfl

/-- What an upsert leaves of the table for one proposed row. -/
def upsert (w : Row t → Bool) (f : Change Row t) (tb : Table Row t) (r : Row t) : Table Row t :=
  match tb.find? (Schema.key t r) with
  | none => tb.put r
  | some x => if w x then tb.put (f.apply x) else tb

/-! ## Tables as finite maps -/

theorem find?_eq_some {tb : Table Row t} {k : Schema.Key Row t} {r : Row t} :
    tb.find? k = some r ↔ r ∈ tb.rows ∧ Schema.key t r = k :=
  find?_eq_some_iff tb.nodup

theorem find?_eq_none {tb : Table Row t} {k : Schema.Key Row t} :
    tb.find? k = none ↔ ∀ r ∈ tb.rows, Schema.key t r ≠ k := by
  simp [find?, List.find?_eq_none]

theorem mem_rows_iff {tb : Table Row t} {r : Row t} :
    r ∈ tb.rows ↔ tb.find? (Schema.key t r) = some r := by
  simp [find?_eq_some]

theorem key_of_find? {tb : Table Row t} {k : Schema.Key Row t} {r : Row t}
    (h : tb.find? k = some r) : Schema.key t r = k :=
  (find?_eq_some.mp h).2

theorem mem_of_find? {tb : Table Row t} {k : Schema.Key Row t} {r : Row t}
    (h : tb.find? k = some r) : r ∈ tb.rows :=
  (find?_eq_some.mp h).1

/-- Two rows of a table with one key are one row. -/
theorem eq_of_key_eq {tb : Table Row t} {r r' : Row t} (hr : r ∈ tb.rows) (hr' : r' ∈ tb.rows)
    (h : Schema.key t r = Schema.key t r') : r = r' := by
  have h1 := mem_rows_iff.mp hr
  rw [h, mem_rows_iff.mp hr'] at h1
  exact (Option.some.inj h1).symm

theorem key_mem_iff {tb : Table Row t} {k : Schema.Key Row t} :
    k ∈ tb.rows.map (Schema.key t) ↔ (tb.find? k).isSome := by
  rw [List.mem_map, Option.isSome_iff_exists]
  simp only [find?_eq_some]

theorem rows_put_of_new {tb : Table Row t} {r : Row t} (h : tb.find? (Schema.key t r) = none) :
    (tb.put r).rows = tb.rows ++ [r] := by
  have hk : Schema.key t r ∉ tb.rows.map (Schema.key t) := by simp [key_mem_iff, h]
  simp [put, hk]

theorem rows_put_of_find {tb : Table Row t} {r x : Row t}
    (h : tb.find? (Schema.key t r) = some x) :
    (tb.put r).rows = tb.rows.map fun y => if Schema.key t y = Schema.key t r then r else y := by
  have hk : Schema.key t r ∈ tb.rows.map (Schema.key t) := by simp [key_mem_iff, h]
  simp [put, hk]

theorem mem_put {tb : Table Row t} {r x : Row t} :
    x ∈ (tb.put r).rows ↔ x = r ∨ (x ∈ tb.rows ∧ Schema.key t x ≠ Schema.key t r) := by
  cases h : tb.find? (Schema.key t r) with
  | none =>
    rw [rows_put_of_new h, List.mem_append, List.mem_singleton]
    have hn := find?_eq_none.mp h
    constructor
    · rintro (hx | rfl)
      · exact .inr ⟨hx, hn x hx⟩
      · exact .inl rfl
    · rintro (rfl | ⟨hx, _⟩)
      · exact .inr rfl
      · exact .inl hx
  | some y =>
    obtain ⟨hy, hky⟩ := find?_eq_some.mp h
    rw [rows_put_of_find h, List.mem_map]
    constructor
    · rintro ⟨z, hz, rfl⟩
      by_cases hk : Schema.key t z = Schema.key t r
      · simp [hk]
      · simp [hk, hz]
    · rintro (rfl | ⟨hx, hk⟩)
      · exact ⟨y, hy, by simp [hky]⟩
      · exact ⟨x, hx, by simp [hk]⟩

theorem find?_put (tb : Table Row t) (r : Row t) (k : Schema.Key Row t) :
    (tb.put r).find? k = if Schema.key t r = k then some r else tb.find? k := by
  split
  · next h => exact find?_eq_some.mpr ⟨mem_put.mpr (.inl rfl), h⟩
  · next h =>
    ext x
    rw [find?_eq_some, find?_eq_some, mem_put]
    constructor
    · rintro ⟨rfl | ⟨hx, _⟩, hk⟩
      · exact absurd hk h
      · exact ⟨hx, hk⟩
    · rintro ⟨hx, hk⟩
      exact ⟨.inr ⟨hx, by rw [hk]; exact Ne.symm h⟩, hk⟩

@[simp] theorem find?_put_self (tb : Table Row t) (r : Row t) :
    (tb.put r).find? (Schema.key t r) = some r := by
  simp [find?_put]

theorem find?_put_of_ne {tb : Table Row t} {r : Row t} {k : Schema.Key Row t}
    (h : Schema.key t r ≠ k) : (tb.put r).find? k = tb.find? k := by
  simp [find?_put, h]

@[simp] theorem rows_modify (tb : Table Row t) (w : Row t → Bool) (f : Change Row t) :
    (tb.modify w f).rows = tb.rows.map fun r => if w r then f.apply r else r :=
  rfl

theorem find?_modify (tb : Table Row t) (w : Row t → Bool) (f : Change Row t)
    (k : Schema.Key Row t) :
    (tb.modify w f).find? k = (tb.find? k).map fun r => if w r then f.apply r else r := by
  have hkey : ∀ r, Schema.key t (if w r then f.apply r else r) = Schema.key t r := by
    intro r
    split
    · exact f.key_apply r
    · rfl
  ext x
  simp only [find?_eq_some, rows_modify, List.mem_map, Option.map_eq_some_iff]
  constructor
  · rintro ⟨⟨r, hr, rfl⟩, hk⟩
    exact ⟨r, ⟨hr, (hkey r).symm.trans hk⟩, rfl⟩
  · rintro ⟨r, ⟨hr, hk⟩, rfl⟩
    exact ⟨⟨r, hr, rfl⟩, (hkey r).trans hk⟩

/-- Writing one row back is an UPDATE of that row alone. -/
theorem put_apply {tb : Table Row t} {k : Schema.Key Row t} {r : Row t} (f : Change Row t)
    (h : tb.find? k = some r) :
    tb.put (f.apply r) = tb.modify (fun x => decide (Schema.key t x = k)) f := by
  have hk := key_of_find? h
  have h' : tb.find? (Schema.key t (f.apply r)) = some r := by rw [f.key_apply, hk, h]
  ext1
  rw [rows_put_of_find h', rows_modify]
  apply List.map_congr_left
  intro x hx
  rw [f.key_apply, hk]
  by_cases hxk : Schema.key t x = k
  · have : x = r := eq_of_key_eq hx (mem_of_find? h) (hxk.trans hk.symm)
    simp [hk, this]
  · simp [hxk]

/-- Rows that an UPDATE neither selects nor makes. -/
theorem filter_modify {tb : Table Row t} {w q : Row t → Bool} {f : Change Row t}
    (h : ∀ r, w r = true → q r = false ∧ q (f.apply r) = false) :
    (tb.modify w f).rows.filter q = tb.rows.filter q := by
  rw [rows_modify]
  induction tb.rows with
  | nil => rfl
  | cons r rs ih =>
    rw [List.map_cons, List.filter_cons, List.filter_cons, ih]
    by_cases hw : w r = true
    · rw [if_pos hw, (h r hw).1, (h r hw).2]
      rfl
    · rw [if_neg hw]

/-- Rows with other keys than the one written. -/
theorem filter_put {tb : Table Row t} {r : Row t} {q : Row t → Bool}
    (h : ∀ x, Schema.key t x = Schema.key t r → q x = false) :
    (tb.put r).rows.filter q = tb.rows.filter q := by
  cases hfind : tb.find? (Schema.key t r) with
  | none => rw [rows_put_of_new hfind, List.filter_append, List.filter_singleton, h r rfl]; simp
  | some x =>
    rw [rows_put_of_find hfind]
    induction tb.rows with
    | nil => rfl
    | cons y ys ih =>
      rw [List.map_cons, List.filter_cons, List.filter_cons, ih]
      by_cases hy : Schema.key t y = Schema.key t r
      · rw [if_pos hy, h r rfl, h y hy]
        rfl
      · rw [if_neg hy]

theorem filter_upsert {w q : Row t → Bool} {f : Change Row t} {rs : List (Row t)}
    {tb : Table Row t} (h : ∀ r ∈ rs, ∀ x, Schema.key t x = Schema.key t r → q x = false) :
    (rs.foldl (upsert w f) tb).rows.filter q = tb.rows.filter q := by
  induction rs generalizing tb with
  | nil => rfl
  | cons r rs ih =>
    rw [List.foldl_cons, ih fun x hx => h x (List.mem_cons_of_mem _ hx)]
    have hr := h r List.mem_cons_self
    unfold upsert
    split
    · exact filter_put hr
    · next x hx =>
      split
      · refine filter_put fun y hy => hr y (hy.trans ?_)
        rw [f.key_apply, key_of_find? hx]
      · rfl

/-- What holds of the rows of a table, of the rows proposed and of the rows the
update makes, holds after an upsert. -/
theorem forall_upsert {w : Row t → Bool} {f : Change Row t} {rs : List (Row t)}
    {tb : Table Row t} {Q : Row t → Prop} (htb : ∀ x ∈ tb.rows, Q x) (hrs : ∀ r ∈ rs, Q r)
    (hf : ∀ r ∈ rs, ∀ x, Q x → Schema.key t x = Schema.key t r → Q (f.apply x)) :
    ∀ x ∈ (rs.foldl (upsert w f) tb).rows, Q x := by
  induction rs generalizing tb with
  | nil => exact htb
  | cons r rs ih =>
    refine ih ?_ (fun y hy => hrs y (List.mem_cons_of_mem _ hy))
      fun y hy => hf y (List.mem_cons_of_mem _ hy)
    intro x hx
    unfold upsert at hx
    split at hx
    · rcases mem_put.mp hx with rfl | ⟨hx, -⟩
      · exact hrs x List.mem_cons_self
      · exact htb x hx
    · next y hy =>
      split at hx
      · rcases mem_put.mp hx with rfl | ⟨hx, -⟩
        · exact hf r List.mem_cons_self y (htb y (mem_of_find? hy)) (key_of_find? hy)
        · exact htb x hx
      · exact htb x hx

end Table

/-! ## Databases -/

/-- What an INSERT reports when no CHECK and no foreign key refuses its row. -/
inductive Inserted
  | inserted
  /-- `ON CONFLICT … DO NOTHING` fired. -/
  | skipped
  /-- A unique index refuses the row. -/
  | violation
  deriving DecidableEq

namespace Db

variable [DecidableEq T]

/-- Write one row image. -/
def put (db : Db Row) (t : T) (r : Row t) : Db Row :=
  Function.update db t ((db t).put r)

@[simp] theorem put_same (db : Db Row) (t : T) (r : Row t) : db.put t r t = (db t).put r := by
  simp [put]

@[simp] theorem put_ne (db : Db Row) {t t' : T} (r : Row t) (h : t' ≠ t) :
    db.put t r t' = db t' := by
  simp [put, h]

/-- The rows of every table. -/
def rows (db : Db Row) (t : T) : List (Row t) := (db t).rows

/-- `UPDATE t SET f WHERE w`. -/
def modify (db : Db Row) (t : T) (w : Row t → Bool) (f : Change Row t) : Db Row :=
  Function.update db t ((db t).modify w f)

@[simp] theorem modify_same (db : Db Row) (t : T) (w : Row t → Bool) (f : Change Row t) :
    db.modify t w f t = (db t).modify w f := by
  simp [modify]

@[simp] theorem modify_ne (db : Db Row) {t t' : T} (w : Row t → Bool) (f : Change Row t)
    (h : t' ≠ t) : db.modify t w f t' = db t' := by
  simp [modify, h]

/-- `INSERT rs ON CONFLICT (key) DO UPDATE SET f WHERE w`. -/
def upsert (db : Db Row) (t : T) (w : Row t → Bool) (f : Change Row t) (rs : List (Row t)) :
    Db Row :=
  Function.update db t (rs.foldl (Table.upsert w f) (db t))

@[simp] theorem upsert_same (db : Db Row) (t : T) (w : Row t → Bool) (f : Change Row t)
    (rs : List (Row t)) : db.upsert t w f rs t = rs.foldl (Table.upsert w f) (db t) := by
  simp [upsert]

@[simp] theorem upsert_ne (db : Db Row) {t t' : T} (w : Row t → Bool) (f : Change Row t)
    (rs : List (Row t)) (h : t' ≠ t) : db.upsert t w f rs t' = db t' := by
  simp [upsert, h]

@[simp] theorem rows_put_ne (db : Db Row) {t t' : T} (r : Row t) (h : t' ≠ t) :
    (db.put t r).rows t' = db.rows t' := by
  simp [rows, h]

@[simp] theorem rows_modify_same (db : Db Row) (t : T) (w : Row t → Bool) (f : Change Row t) :
    (db.modify t w f).rows t = (db.rows t).map fun r => if w r then f.apply r else r := by
  simp [rows]

@[simp] theorem rows_modify_ne (db : Db Row) {t t' : T} (w : Row t → Bool) (f : Change Row t)
    (h : t' ≠ t) : (db.modify t w f).rows t' = db.rows t' := by
  simp [rows, h]

/-- The unique indexes and constraints let the row image `r` replace the row
with its key. -/
def accepts (db : Db Row) (t : T) (r : Row t) : Bool :=
  Schema.checks t r &&
    (db t).rows.all (fun x => decide (Schema.key t x = Schema.key t r) || !Schema.clash t x r) &&
    Schema.refs db.rows t r

/-- The outcome of `INSERT r`, where `skip` marks the present rows that the
arbiter of an `ON CONFLICT DO NOTHING` conflicts with; `none` when a CHECK or a
foreign key refuses the row. CHECK constraints are read before the indexes and
foreign keys after them. -/
def tryInsert (db : Db Row) (t : T) (r : Row t) (skip : Row t → Bool) : Option Inserted :=
  if Schema.checks t r then
    if (db t).rows.any skip then some .skipped
    else if (db t).rows.any
        (fun x => decide (Schema.key t x = Schema.key t r) || Schema.clash t x r) then
      some .violation
    else if Schema.refs db.rows t r then some .inserted
    else none
  else none

omit [DecidableEq T] in
theorem find?_of_inserted {db : Db Row} {t : T} {r : Row t} {skip : Row t → Bool}
    (h : db.tryInsert t r skip = some .inserted) :
    (db t).find? (Schema.key t r) = none := by
  simp only [tryInsert] at h
  split at h
  · split at h
    · cases h
    · split at h
      · cases h
      · next hany =>
        rw [Table.find?_eq_none]
        intro x hx hk
        exact hany (List.any_eq_true.mpr ⟨x, hx, by simp [hk]⟩)
  · cases h

omit [DecidableEq T] in
/-- A row made the INSERT do nothing. -/
theorem find?_of_skipped {db : Db Row} {t : T} {r : Row t} {skip : Row t → Bool}
    (h : db.tryInsert t r skip = some .skipped) :
    ∃ x ∈ db.rows t, skip x = true ∧ (db t).rows.find? skip = some x := by
  simp only [tryInsert] at h
  split at h
  · split at h
    · next hany =>
      cases hfind : (db t).rows.find? skip with
      | none =>
        rw [List.find?_eq_none] at hfind
        obtain ⟨x, hx, hskip⟩ := List.any_eq_true.mp hany
        exact absurd hskip (hfind x hx)
      | some x => exact ⟨x, List.mem_of_find?_eq_some hfind, List.find?_some hfind, rfl⟩
    · split at h
      · cases h
      · split at h <;> cases h
  · cases h

@[simp] theorem rows_upsert_ne (db : Db Row) {t t' : T} (w : Row t → Bool) (f : Change Row t)
    (rs : List (Row t)) (h : t' ≠ t) : (db.upsert t w f rs).rows t' = db.rows t' := by
  simp [rows, h]

theorem rows_put_of_inserted {db : Db Row} {t : T} {r : Row t} {skip : Row t → Bool}
    (h : db.tryInsert t r skip = some .inserted) : (db.put t r).rows t = db.rows t ++ [r] := by
  simp [rows, Table.rows_put_of_new (find?_of_inserted h)]

end Db

end Sql
