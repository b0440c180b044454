import ExpenseEngine.Sql.Exec

/-!
# Constraints over whole programs

A statement writes only rows that pass the CHECKs and foreign keys of their
table, and no statement removes a row. So what the tables held keeps passing
them, and a statement that nothing refuses does not fail.

Results:
1. `exec_grows`: no key disappears.
2. `exec_constrained`: the rows of a table keep passing its CHECKs and foreign
   keys.
3. `exec_updateWhere_total`, `exec_upsertEach_total`, `exec_insertOrAbort_total`:
   statements that nothing refuses.
-/

namespace Sql

variable {T : Type} [DecidableEq T] {Row : T → Type} [Schema Row] {L ε α β : Type}

/-! ## What holds of the rows -/

/-- No key of `db` is missing from `db'`. -/
def Grows (db db' : Db Row) : Prop :=
  ∀ t k, ((db t).find? k).isSome → ((db' t).find? k).isSome

/-- Foreign keys only ask which keys there are. -/
def RefsByKey (Row : T → Type) [Schema Row] : Prop :=
  ∀ (db db' : Db Row), Grows db db' → ∀ t r,
    Schema.refs db.rows t r = true → Schema.refs db'.rows t r = true

/-- The rows of the table pass its CHECKs and foreign keys. -/
def Constrained (t : T) (db : Db Row) : Prop :=
  ∀ r ∈ db.rows t, Schema.checks t r = true ∧ Schema.refs db.rows t r = true

/-- The two databases agree on every table but `t`. -/
def AgreeBut (t : T) (db db' : Db Row) : Prop := ∀ s, s ≠ t → db' s = db s

omit [DecidableEq T] in
theorem Grows.refl (db : Db Row) : Grows db db := fun _ _ h => h

omit [DecidableEq T] in
theorem Grows.trans {db db₁ db₂ : Db Row} (h : Grows db db₁) (h' : Grows db₁ db₂) :
    Grows db db₂ := fun t k hk => h' t k (h t k hk)

theorem grows_put (db : Db Row) (t : T) (r : Row t) : Grows db (db.put t r) := by
  intro s k hk
  by_cases hs : s = t
  · subst hs
    rw [Db.put_same, Table.find?_put]
    split
    · rfl
    · exact hk
  · rwa [Db.put_ne _ _ hs]

theorem AgreeBut.put {t : T} {db db' : Db Row} (h : AgreeBut t db db') (r : Row t) :
    AgreeBut t db (db'.put t r) := by
  intro s hs
  rw [Db.put_ne _ _ hs, h s hs]

theorem constrained_put (hrefs : RefsByKey Row) {t s : T} {db : Db Row} {r : Row s}
    (h : Constrained t db) (hr : Schema.checks s r = true ∧ Schema.refs db.rows s r = true) :
    Constrained t (db.put s r) := by
  have hkeep : ∀ x ∈ db.rows t, Schema.checks t x = true ∧
      Schema.refs (db.put s r).rows t x = true :=
    fun x hx => ⟨(h x hx).1, hrefs _ _ (grows_put db s r) t x (h x hx).2⟩
  intro x hx
  by_cases hs : t = s
  · subst hs
    rw [Db.rows, Db.put_same] at hx
    rcases Table.mem_put.mp hx with rfl | ⟨hx, -⟩
    · exact ⟨hr.1, hrefs _ _ (grows_put db t x) t x hr.2⟩
    · exact hkeep x hx
  · rw [Db.rows_put_ne _ _ hs] at hx
    exact hkeep x hx

omit [DecidableEq T] in
theorem constraints_of_accepts {db : Db Row} {t : T} {r : Row t} (h : db.accepts t r = true) :
    Schema.checks t r = true ∧ Schema.refs db.rows t r = true := by
  unfold Db.accepts at h
  simp only [Bool.and_eq_true] at h
  exact ⟨h.1.1, h.2⟩

omit [DecidableEq T] in
theorem constraints_of_inserted {db : Db Row} {t : T} {r : Row t} {skip : Row t → Bool}
    (h : db.tryInsert t r skip = some .inserted) :
    Schema.checks t r = true ∧ Schema.refs db.rows t r = true := by
  unfold Db.tryInsert at h
  split at h
  · next hchecks =>
    split at h
    · cases h
    · split at h
      · cases h
      · split at h
        · next hrefs => exact ⟨hchecks, hrefs⟩
        · cases h
  · cases h

omit [DecidableEq T] in
/-- A new row that passes the constraints is inserted. -/
theorem inserted_of_free {db : Db Row} {t : T} {r : Row t} {skip : Row t → Bool}
    (hchecks : Schema.checks t r = true) (hskip : ∀ x ∈ db.rows t, skip x = false)
    (hfree : ∀ x ∈ db.rows t, Schema.key t x ≠ Schema.key t r ∧ Schema.clash t x r = false)
    (hrefs : Schema.refs db.rows t r = true) : db.tryInsert t r skip = some .inserted := by
  have hany : (db t).rows.any skip = false := List.any_eq_false.mpr fun x hx => by simp [hskip x hx]
  have hclash : (db t).rows.any (fun x => decide (Schema.key t x = Schema.key t r) ||
      Schema.clash t x r) = false :=
    List.any_eq_false.mpr fun x hx => by simp [hfree x hx]
  simp [Db.tryInsert, hchecks, hany, hclash, hrefs]

omit [DecidableEq T] in
/-- A row image that passes the constraints and clashes with no row is
accepted. -/
theorem accepts_of_free {db : Db Row} {t : T} {r : Row t} (hchecks : Schema.checks t r = true)
    (hfree : ∀ x ∈ db.rows t, Schema.clash t x r = false)
    (hrefs : Schema.refs db.rows t r = true) : db.accepts t r = true := by
  have hall : (db t).rows.all (fun x => decide (Schema.key t x = Schema.key t r) ||
      !Schema.clash t x r) = true :=
    List.all_eq_true.mpr fun x hx => by simp [hfree x hx]
  simp [Db.accepts, hchecks, hall, hrefs]

namespace Prog

variable {db db' : Db Row} {a : α}

theorem exec_grows {p : Prog Row L ε α} (h : exec p db = .ok (a, db')) : Grows db db' := by
  induction p generalizing db with
  | ret b =>
    cases h
    exact Grows.refl _
  | fail e => cases h
  | select l k ih => exact ih db h
  | lock t key w k ih => exact ih _ h
  | update t key w f k ih =>
    simp only [exec] at h
    split at h
    · exact ih _ h
    · split at h
      · exact (grows_put _ _ _).trans (ih _ h)
      · cases h
  | insert t r skip k ih =>
    simp only [exec] at h
    split at h
    · cases h
    · exact (grows_put _ _ _).trans (ih _ h)
    · exact ih _ h
  | advisory n k ih => exact ih h

/-- What a program writes passes the constraints of its table. -/
theorem exec_constrained (hrefs : RefsByKey Row) {t : T} {p : Prog Row L ε α}
    (hdb : Constrained t db) (h : exec p db = .ok (a, db')) : Constrained t db' := by
  induction p generalizing db with
  | ret b =>
    cases h
    exact hdb
  | fail e => cases h
  | select l k ih => exact ih db hdb h
  | lock s key w k ih => exact ih _ hdb h
  | update s key w f k ih =>
    simp only [exec] at h
    split at h
    · exact ih _ hdb h
    · split at h
      · next hacc => exact ih _ (constrained_put hrefs hdb (constraints_of_accepts hacc)) h
      · cases h
  | insert s r skip k ih =>
    simp only [exec] at h
    split at h
    · cases h
    · next hins => exact ih _ (constrained_put hrefs hdb (constraints_of_inserted hins)) h
    · exact ih _ hdb h
  | advisory n k ih => exact ih hdb h

/-! ## Statements that nothing refuses -/

theorem exec_insertOrAbort_total {t : T} {r : Row t}
    (h : db.tryInsert t r (fun _ => false) = some .inserted) :
    exec (insertOrAbort t r : Prog Row L ε Unit) db = .ok ((), db.put t r) :=
  exec_insertOrAbort_ok.mpr ⟨h, rfl⟩

/-- Every row the keys name is accepted, whatever the UPDATE has written
before. -/
theorem exec_updateEach_total {t : T} {w : Row t → Bool} {f : Change Row t}
    {keys : List (Schema.Key Row t)} (hnd : keys.Nodup)
    (hok : ∀ k ∈ keys, ∀ r, (db t).find? k = some r → w r = true →
      ∀ db₁, AgreeBut t db db₁ → db₁.accepts t (f.apply r) = true) :
    ∃ out db', exec (updateEach t w f keys : Prog Row L ε _) db = .ok (out, db') := by
  suffices h : ∀ db₁, AgreeBut t db db₁ → (∀ k ∈ keys, (db₁ t).find? k = (db t).find? k) →
      ∃ out db', exec (updateEach t w f keys : Prog Row L ε _) db₁ = .ok (out, db') from
    h db (fun _ _ => rfl) fun _ _ => rfl
  induction keys with
  | nil => exact fun db₁ _ _ => ⟨_, _, rfl⟩
  | cons key keys ih =>
    intro db₁ hagree hfind
    obtain ⟨hkey, hnd⟩ := List.nodup_cons.mp hnd
    have hrest := ih hnd fun k hk => hok k (List.mem_cons_of_mem _ hk)
    have hfind' : ∀ k ∈ keys, (db₁ t).find? k = (db t).find? k :=
      fun k hk => hfind k (List.mem_cons_of_mem _ hk)
    simp only [updateEach, exec, hfind key List.mem_cons_self]
    cases hrow : ((db t).find? key).filter w with
    | none =>
      obtain ⟨out, db', hrun⟩ := hrest db₁ hagree hfind'
      simp only [← bind_def, exec_bind, hrun]
      exact ⟨_, _, rfl⟩
    | some r =>
      obtain ⟨hr, hw⟩ := Option.filter_eq_some_iff.mp hrow
      simp only [hok key List.mem_cons_self r hr hw db₁ hagree, if_true]
      -- the row written has another key than those to come
      obtain ⟨out, db', hrun⟩ := hrest (db₁.put t (f.apply r)) (hagree.put _) (fun k hk => by
        rw [Db.put_same, Table.find?_put_of_ne, hfind' k hk]
        rw [f.key_apply, Table.key_of_find? hr]
        rintro rfl
        exact hkey hk)
      simp only [← bind_def, exec_bind, hrun]
      exact ⟨_, _, rfl⟩

theorem exec_updateWhere_total {l : L} {t : T} {w : Row t → Bool} {f : Change Row t}
    (hok : ∀ r ∈ db.rows t, w r = true →
      ∀ db₁, AgreeBut t db db₁ → db₁.accepts t (f.apply r) = true) :
    exec (updateWhere l t w f : Prog Row L ε _) db =
      .ok (((db.rows t).filter w).map f.apply, db.modify t w f) := by
  have hnd : (candidates db t w).Nodup := (db t).nodup.sublist (List.filter_sublist.map _)
  have htotal : ∃ out db', exec (updateWhere l t w f : Prog Row L ε _) db = .ok (out, db') :=
    exec_updateEach_total hnd fun k _ r hr hw => hok r (Table.mem_of_find? hr) hw
  obtain ⟨out, db', hrun⟩ := htotal
  obtain ⟨rfl, rfl⟩ := exec_updateWhere hrun
  exact hrun

/-- An UPDATE of one row succeeds iff the new row is accepted. -/
theorem exec_updateWhere_one {l : L} {t : T} {w : Row t → Bool} {f : Change Row t} {r : Row t}
    (hw : (db.rows t).filter w = [r]) {out : List (Row t)} :
    exec (updateWhere l t w f : Prog Row L ε _) db = .ok (out, db') ↔
      db.accepts t (f.apply r) = true ∧ out = [f.apply r] ∧ db' = db.modify t w f := by
  have hr : r ∈ (db.rows t).filter w := hw ▸ List.mem_singleton_self r
  obtain ⟨hmem, hwr⟩ := List.mem_filter.mp hr
  have hfind : (db t).find? (Schema.key t r) = some r := Table.mem_rows_iff.mp hmem
  have hsame : db.put t (f.apply r) = db.modify t w f := by
    refine congrArg (Function.update db t) ?_
    rw [Table.put_apply f hfind]
    ext1
    refine List.map_congr_left fun x hx => ?_
    have hiff : decide (Schema.key t x = Schema.key t r) = w x := by
      by_cases hwx : w x = true
      · have hx' : x ∈ (db.rows t).filter w := List.mem_filter.mpr ⟨hx, hwx⟩
        rw [hw, List.mem_singleton] at hx'
        simp [hx', hwr]
      · have hne : Schema.key t x ≠ Schema.key t r := by
          intro hk
          exact hwx ((Table.eq_of_key_eq hx hmem hk) ▸ hwr)
        simp [hne, hwx]
    simp only [hiff]
  have hrun : exec (updateWhere l t w f : Prog Row L ε _) db =
      if db.accepts t (f.apply r) then .ok ([f.apply r], db.modify t w f)
      else .error .database := by
    have hcand : candidates db t w = [Schema.key t r] := by
      rw [candidates, show (db t).rows.filter w = [r] from hw]
      rfl
    simp only [updateWhere, exec, hcand, updateEach, hfind, Option.filter_some, hwr, if_true,
      ← hsame]
    split <;> rfl
  rw [hrun]
  split
  · next hacc => simp [hacc, eq_comm]
  · next hacc => simp [hacc]

/-- The proposed rows are new, and every one of them is inserted. -/
theorem exec_upsertEach_total {t : T} {w : Row t → Bool} {f : Change Row t} {rs : List (Row t)}
    {touched : List (Schema.Key Row t)} (hnd : (rs.map (Schema.key t)).Nodup)
    (hnew : ∀ r ∈ rs, (db t).find? (Schema.key t r) = none)
    (hok : ∀ r ∈ rs, ∀ db₁, AgreeBut t db db₁ → (db₁ t).find? (Schema.key t r) = none →
      db₁.tryInsert t r (fun x => decide (Schema.key t x = Schema.key t r)) = some .inserted) :
    ∃ db', exec (upsertEach t w f rs touched : Prog Row L ε Unit) db = .ok ((), db') := by
  suffices h : ∀ db₁ touched, AgreeBut t db db₁ →
      (∀ r ∈ rs, (db₁ t).find? (Schema.key t r) = none) →
      ∃ db', exec (upsertEach t w f rs touched : Prog Row L ε Unit) db₁ = .ok ((), db') from
    h db touched (fun _ _ => rfl) hnew
  induction rs with
  | nil => exact fun db₁ _ _ _ => ⟨_, rfl⟩
  | cons r rs ih =>
    intro db₁ touched hagree hfree
    obtain ⟨hr, hnd⟩ := List.nodup_cons.mp hnd
    simp only [upsertEach, exec, hok r List.mem_cons_self db₁ hagree (hfree r List.mem_cons_self)]
    refine ih hnd (fun x hx => hnew x (List.mem_cons_of_mem _ hx))
      (fun x hx => hok x (List.mem_cons_of_mem _ hx)) _ _ (hagree.put r) fun x hx => ?_
    rw [Db.put_same, Table.find?_put_of_ne]
    · exact hfree x (List.mem_cons_of_mem _ hx)
    · exact fun hk => hr (List.mem_map.mpr ⟨x, hx, hk.symm⟩)

end Prog

end Sql
