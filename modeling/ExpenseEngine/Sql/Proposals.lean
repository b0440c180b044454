import ExpenseEngine.Sql.Rewrites
import ExpenseEngine.Sql.Uniqueness

/-!
# What a program proposes

`p.Proposing ins upd db`: along the run of `p` on `db`, every row an INSERT
proposes is in `ins` of the database at that moment, and every row an UPDATE
would put in place of another is in `upd` of it, whether or not a constraint then
refuses the row. Where `ins` and `upd` say that the row collides with no other on
an index, that index is not what refuses a statement.

Results:
1. `Proposing.bind` and one lemma for each statement.
2. `proposing_of_rewrites`: from what the text of a program may write, under an
   invariant of the writes that go through.
-/

namespace Sql

variable {T : Type} [DecidableEq T] {Row : T → Type} [Schema Row] {L ε α β : Type}

namespace Prog

def Proposing (ins : (t : T) → Db Row → Row t → Prop)
    (upd : (t : T) → Db Row → Row t → Row t → Prop) : Prog Row L ε α → Db Row → Prop
  | .ret _, _ => True
  | .fail _, _ => True
  | .select _ k, db => (k db).Proposing ins upd db
  | .lock t key w k, db => (k (((db t).find? key).filter w)).Proposing ins upd db
  | .update t key w f k, db =>
    match ((db t).find? key).filter w with
    | none => (k none).Proposing ins upd db
    | some r => upd t db r (f.apply r) ∧
        (db.accepts t (f.apply r) = true →
          (k (some (f.apply r))).Proposing ins upd (db.put t (f.apply r)))
  | .insert t r skip k, db =>
    ins t db r ∧
      match db.tryInsert t r skip with
      | none => True
      | some .inserted => (k .inserted).Proposing ins upd (db.put t r)
      | some o => (k o).Proposing ins upd db
  | .advisory _ k, db => k.Proposing ins upd db

variable {ins : (t : T) → Db Row → Row t → Prop} {upd : (t : T) → Db Row → Row t → Row t → Prop}
  {db db' : Db Row} {p : Prog Row L ε α} {g : α → Prog Row L ε β}

/-! ## Composition -/

theorem Proposing.bind (hp : p.Proposing ins upd db)
    (hg : ∀ a db', exec p db = .ok (a, db') → (g a).Proposing ins upd db') :
    (p >>= g).Proposing ins upd db := by
  rw [bind_def]
  induction p generalizing db with
  | ret a => exact hg a db rfl
  | fail e => trivial
  | select l k ih => exact ih db hp hg
  | lock t key w k ih => exact ih _ hp hg
  | update t key w f k ih =>
    simp only [Prog.bind, Proposing, exec] at hp hg ⊢
    split
    · next hnone =>
      rw [hnone] at hp hg
      exact ih none hp hg
    · next r hr =>
      rw [hr] at hp hg
      refine ⟨hp.1, fun haccepts => ih _ (hp.2 haccepts) fun a db' he => hg a db' ?_⟩
      show (if _ then _ else _) = _
      rw [if_pos haccepts]
      exact he
  | insert t r skip k ih =>
    simp only [Prog.bind, Proposing, exec] at hp hg ⊢
    refine ⟨hp.1, ?_⟩
    split
    · trivial
    · next hins =>
      rw [hins] at hp hg
      exact ih _ hp.2 hg
    · next o hne hins =>
      rw [hins] at hp hg
      cases o with
      | inserted => exact absurd rfl hne
      | violation => exact ih _ hp.2 hg
      | skipped => exact ih _ hp.2 hg
  | advisory n k ih => exact ih hp hg

/-- Statements on tables where every row may be proposed. -/
theorem proposing_of_writesOnly {W : T → Prop} (hp : p.WritesOnly W)
    (hins : ∀ t, W t → ∀ db r, ins t db r) (hupd : ∀ t, W t → ∀ db r r', upd t db r r') :
    p.Proposing ins upd db := by
  induction p generalizing db with
  | ret a => trivial
  | fail e => trivial
  | select l k ih => exact ih db (hp db)
  | lock t key w k ih => exact ih _ (hp _)
  | update t key w f k ih =>
    simp only [Proposing]
    split
    · exact ih _ (hp.2 _)
    · exact ⟨hupd t hp.1 db _ _, fun _ => ih _ (hp.2 _)⟩
  | insert t r skip k ih =>
    simp only [Proposing]
    refine ⟨hins t hp.1 db r, ?_⟩
    split
    · trivial
    · exact ih _ (hp.2 _)
    · exact ih _ (hp.2 _)
  | advisory n k ih => exact ih hp

/-- A guard before the statements, with what its answer says of the database. -/
theorem proposing_guard (hp : p.WritesOnly fun _ => False)
    (hg : ∀ a, exec p db = .ok (a, db) → (g a).Proposing ins upd db) :
    (p >>= g).Proposing ins upd db := by
  refine Proposing.bind (proposing_of_writesOnly hp (fun _ h => h.elim) fun _ h => h.elim)
    fun a db' he => ?_
  have hsame : db' = db := funext fun t => exec_frame hp he not_false
  subst hsame
  exact hg a he

/-! ## Statements -/

theorem proposing_insertRow {t : T} {r : Row t} (h : ins t db r) :
    (insertRow t r : Prog Row L ε _).Proposing ins upd db := by
  simp only [insertRow, Proposing]
  refine ⟨h, ?_⟩
  split <;> trivial

theorem proposing_insertOrSkip {t : T} {r : Row t} {skip : Row t → Bool} (h : ins t db r) :
    (insertOrSkip t r skip : Prog Row L ε _).Proposing ins upd db := by
  simp only [insertOrSkip, Proposing]
  refine ⟨h, ?_⟩
  split <;> trivial

/-- An UPDATE that its condition allows on one row only. -/
theorem proposing_updateWhere {l : L} {t : T} {w : Row t → Bool} {f : Change Row t}
    (hw : ∀ r ∈ db.rows t, ∀ r' ∈ db.rows t, w r = true → w r' = true →
      Schema.key t r = Schema.key t r')
    (h : ∀ r ∈ db.rows t, w r = true → upd t db r (f.apply r)) :
    (updateWhere l t w f : Prog Row L ε _).Proposing ins upd db := by
  change (updateEach t w f (candidates db t w)).Proposing ins upd db
  have hnd : (candidates db t w).Nodup := (db t).nodup.sublist (List.filter_sublist.map _)
  have hall : ∀ k ∈ candidates db t w, ∀ k' ∈ candidates db t w, k = k' := by
    intro k hk k' hk'
    obtain ⟨r, hr, rfl⟩ := List.mem_map.mp hk
    obtain ⟨r', hr', rfl⟩ := List.mem_map.mp hk'
    obtain ⟨hr, hwr⟩ := List.mem_filter.mp hr
    obtain ⟨hr', hwr'⟩ := List.mem_filter.mp hr'
    exact hw r hr r' hr' hwr hwr'
  revert hnd hall
  generalize candidates db t w = keys
  intro hnd hall
  match keys with
  | [] => trivial
  | [k] =>
    simp only [updateEach, Proposing]
    split
    · trivial
    · next r hr =>
      obtain ⟨hfind, hwr⟩ := Option.filter_eq_some_iff.mp hr
      exact ⟨h r (Table.mem_of_find? hfind) hwr, fun _ => trivial⟩
  | k :: k' :: keys =>
    refine absurd ?_ (List.nodup_cons.mp hnd).1
    rw [hall k List.mem_cons_self k' (by simp)]
    exact List.mem_cons_self

/-! ## From the text of a program -/

/-- Rows that may be proposed wherever `I` holds, which the writes that go through
keep. -/
theorem proposing_of_rewrites {I : Db Row → Prop} {new : (t : T) → Row t → Prop}
    {image : (t : T) → Row t → Row t → Prop} (hp : p.Rewrites new image)
    (hinserted : ∀ {db : Db Row} {t r skip}, I db → db.tryInsert t r skip = some .inserted →
      I (db.put t r))
    (haccepted : ∀ {db : Db Row} {t r}, I db → db.accepts t r = true → I (db.put t r))
    (hins : ∀ {db t r}, I db → new t r → ins t db r)
    (hupd : ∀ {db t r r'}, I db → r ∈ db.rows t → image t r r' → upd t db r r') (hI : I db) :
    p.Proposing ins upd db := by
  induction p generalizing db with
  | ret a => trivial
  | fail e => trivial
  | select l k ih => exact ih db (hp db) hI
  | lock t key w k ih => exact ih _ (hp _) hI
  | update t key w f k ih =>
    simp only [Proposing]
    split
    · exact ih _ (hp.2 _) hI
    · next r hr =>
      obtain ⟨hfind, hwr⟩ := Option.filter_eq_some_iff.mp hr
      refine ⟨hupd hI (Table.mem_of_find? hfind) (hp.1 r (Table.key_of_find? hfind) hwr),
        fun h => ih _ (hp.2 _) (haccepted hI h)⟩
  | insert t r skip k ih =>
    simp only [Proposing]
    refine ⟨hins hI hp.1, ?_⟩
    split
    · trivial
    · next h => exact ih _ (hp.2 _) (hinserted hI h)
    · exact ih _ (hp.2 _) hI
  | advisory n k ih => exact ih hp hI

end Prog

end Sql
