import ExpenseEngine.Sql.Prog

/-!
# Programs run alone

`exec p db` runs a program against a database that nobody else writes, and
returns its answer with the database it leaves, or the failure that rolls it
back. The lemmas of this module turn `exec p db = .ok (a, db')` into what the
statements of `p` read and wrote, so that a handler is inverted by rewriting.

Results:
1. `exec_bind_ok`, `exec_raiseIf_ok`, `exec_orRaise_ok`, `exec_insertRow_ok`:
   one inversion for each statement over at most one row.
2. `exec_selectForUpdate`, `exec_updateWhere`, `exec_upsertEach`: the statements
   that visit row after row are the set-oriented ones.
3. `exec_frame`: a table the program does not write is left as it was.
-/

namespace Sql

variable {T : Type} [DecidableEq T] {Row : T → Type} [Schema Row] {L ε α β : Type}

namespace Prog

def exec : Prog Row L ε α → Db Row → Except (Failure ε) (α × Db Row)
  | .ret a, db => .ok (a, db)
  | .fail e, _ => .error e
  | .select _ k, db => exec (k db) db
  | .lock t key w k, db => exec (k (((db t).find? key).filter w)) db
  | .update t key w f k, db =>
    match ((db t).find? key).filter w with
    | none => exec (k none) db
    | some r =>
      if db.accepts t (f.apply r) then exec (k (some (f.apply r))) (db.put t (f.apply r))
      else .error .database
  | .insert t r skip k, db =>
    match db.tryInsert t r skip with
    | none => .error .database
    | some .inserted => exec (k .inserted) (db.put t r)
    | some o => exec (k o) db
  | .advisory _ k, db => exec k db

/-! ## One statement at a time -/

variable {db db' : Db Row} {a : α}

theorem exec_bind (p : Prog Row L ε α) (g : α → Prog Row L ε β) (db : Db Row) :
    exec (p >>= g) db =
      match exec p db with
      | .ok (a, db') => exec (g a) db'
      | .error e => .error e := by
  rw [bind_def]
  induction p generalizing db with
  | ret a => rfl
  | fail e => rfl
  | select l k ih => exact ih db db
  | lock t key w k ih => exact ih _ db
  | update t key w f k ih =>
    simp only [Prog.bind, exec]
    split
    · exact ih _ db
    · split
      · exact ih _ _
      · rfl
  | insert t r skip k ih =>
    simp only [Prog.bind, exec]
    split
    · rfl
    · exact ih _ _
    · exact ih _ db
  | advisory n k ih => exact ih db

theorem exec_bind_ok {p : Prog Row L ε α} {g : α → Prog Row L ε β} {x : β × Db Row} :
    exec (p >>= g) db = .ok x ↔ ∃ a db₁, exec p db = .ok (a, db₁) ∧ exec (g a) db₁ = .ok x := by
  rw [exec_bind]
  cases h : exec p db with
  | error e => simp
  | ok y =>
    constructor
    · exact fun hx => ⟨y.1, y.2, rfl, hx⟩
    · rintro ⟨a, db₁, hy, hx⟩
      cases hy
      exact hx

theorem exec_bind_of_ok {p : Prog Row L ε α} {g : α → Prog Row L ε β}
    (h : exec p db = .ok (a, db')) : exec (p >>= g) db = exec (g a) db' := by
  rw [exec_bind, h]

theorem exec_bind_of_error {p : Prog Row L ε α} {g : α → Prog Row L ε β} {e : Failure ε}
    (h : exec p db = .error e) : exec (p >>= g) db = .error e := by
  rw [exec_bind, h]

@[simp] theorem exec_pure (a : α) (db : Db Row) :
    exec (pure a : Prog Row L ε α) db = .ok (a, db) := rfl

@[simp] theorem exec_fail (e : Failure ε) (db : Db Row) :
    exec (.fail e : Prog Row L ε α) db = .error e := rfl

@[simp] theorem exec_raise (e : ε) (db : Db Row) :
    exec (raise e : Prog Row L ε α) db = .error (.raised e) := rfl

@[simp] theorem exec_read (l : L) (f : Db Row → α) (db : Db Row) :
    exec (read l f : Prog Row L ε α) db = .ok (f db, db) := rfl

theorem exec_pure_ok {a b : α} :
    exec (pure a : Prog Row L ε α) db = .ok (b, db') ↔ b = a ∧ db' = db := by
  simp [eq_comm]

theorem exec_read_ok {l : L} {f : Db Row → α} :
    exec (read l f : Prog Row L ε α) db = .ok (a, db') ↔ a = f db ∧ db' = db := by
  simp [eq_comm]

@[simp] theorem exec_advisoryLock (n : Int) (db : Db Row) :
    exec (advisoryLock n : Prog Row L ε Unit) db = .ok ((), db) := rfl

theorem exec_raiseIf_ok {c : Prop} [Decidable c] {e : ε} {u : Unit} :
    exec (raiseIf c e : Prog Row L ε Unit) db = .ok (u, db') ↔ ¬c ∧ db' = db := by
  unfold raiseIf
  split
  · next h => simp [h]
  · next h => simp [h, eq_comm]

theorem exec_orRaise_ok {o : Option α} {e : ε} :
    exec (orRaise o e : Prog Row L ε α) db = .ok (a, db') ↔ o = some a ∧ db' = db := by
  cases o with
  | none => simp [orRaise]
  | some b => simp [orRaise, eq_comm]

section MapM

variable {γ : Type} {f : γ → Prog Row L ε α} {xs : List γ}

theorem exec_mapM {g : γ → α} (h : ∀ x ∈ xs, exec (f x) db = .ok (g x, db)) :
    exec (xs.mapM f) db = .ok (xs.map g, db) := by
  induction xs with
  | nil => rfl
  | cons x xs ih =>
    rw [List.mapM_cons, exec_bind_of_ok (h x List.mem_cons_self),
      exec_bind_of_ok (ih fun y hy => h y (List.mem_cons_of_mem _ hy))]
    rfl

/-- Where nothing is written, the first failure is the failure of the whole. -/
theorem exec_mapM_error {e : Failure ε}
    (h : ∀ x ∈ xs, (∃ a, exec (f x) db = .ok (a, db)) ∨ exec (f x) db = .error e)
    (hx : ∃ x ∈ xs, exec (f x) db = .error e) : exec (xs.mapM f) db = .error e := by
  induction xs with
  | nil =>
    obtain ⟨x, hmem, -⟩ := hx
    cases hmem
  | cons x xs ih =>
    rw [List.mapM_cons]
    rcases h x List.mem_cons_self with ⟨a, ha⟩ | he
    · obtain ⟨y, hy, hfail⟩ := hx
      have hrest : ∃ y ∈ xs, exec (f y) db = .error e := by
        rcases List.mem_cons.mp hy with rfl | hy
        · rw [ha] at hfail
          cases hfail
        · exact ⟨y, hy, hfail⟩
      rw [exec_bind_of_ok ha,
        exec_bind_of_error (ih (fun y hy => h y (List.mem_cons_of_mem _ hy)) hrest)]
    · rw [exec_bind_of_error he]

end MapM

attribute [local simp] exec in
theorem exec_insertOrSkip_ok {t : T} {r : Row t} {skip : Row t → Bool} {o : Inserted} :
    exec (insertOrSkip t r skip : Prog Row L ε Inserted) db = .ok (o, db') ↔
      db.tryInsert t r skip = some o ∧ db' = if o = .inserted then db.put t r else db := by
  simp only [insertOrSkip, exec]
  rcases h : db.tryInsert t r skip with _ | o'
  · simp
  · cases o' <;> simp only [Except.ok.injEq, Prod.mk.injEq, Option.some.injEq]
    all_goals
      constructor
      · rintro ⟨rfl, rfl⟩
        simp
      · rintro ⟨rfl, rfl⟩
        simp

theorem exec_insertRow_ok {t : T} {r : Row t} {o : Inserted} :
    exec (insertRow t r : Prog Row L ε Inserted) db = .ok (o, db') ↔
      db.tryInsert t r (fun _ => false) = some o ∧
        db' = if o = .inserted then db.put t r else db :=
  exec_insertOrSkip_ok

theorem exec_insertOrAbort_ok {t : T} {r : Row t} {u : Unit} :
    exec (insertOrAbort t r : Prog Row L ε Unit) db = .ok (u, db') ↔
      db.tryInsert t r (fun _ => false) = some .inserted ∧ db' = db.put t r := by
  simp only [insertOrAbort, exec]
  rcases h : db.tryInsert t r fun _ => false with _ | o
  · simp
  · cases o <;> simp [exec, eq_comm]

/-! ## Statements over many rows -/

theorem exec_lockEach {t : T} {w : Row t → Bool} {rs : List (Row t)}
    (h : ∀ r ∈ rs, r ∈ (db t).rows ∧ w r = true) :
    exec (lockEach t w (rs.map (Schema.key t)) : Prog Row L ε (List (Row t))) db =
      .ok (rs, db) := by
  induction rs with
  | nil => rfl
  | cons r rs ih =>
    obtain ⟨hr, hw⟩ := h r List.mem_cons_self
    simp only [List.map_cons, lockEach, exec, Table.mem_rows_iff.mp hr, Option.filter_some, hw,
      if_true]
    rw [← bind_def, exec_bind, ih fun x hx => h x (List.mem_cons_of_mem _ hx)]
    rfl

@[simp] theorem exec_selectForUpdate (l : L) (t : T) (w : Row t → Bool) (db : Db Row) :
    exec (selectForUpdate l t w : Prog Row L ε (List (Row t))) db =
      .ok ((db.rows t).filter w, db) := by
  simp only [selectForUpdate, exec, candidates]
  refine exec_lockEach fun r hr => ?_
  exact List.mem_filter.mp hr

theorem exec_selectForUpdate_ok {l : L} {t : T} {w : Row t → Bool} {rs : List (Row t)} :
    exec (selectForUpdate l t w : Prog Row L ε (List (Row t))) db = .ok (rs, db') ↔
      rs = (db.rows t).filter w ∧ db' = db := by
  simp [eq_comm]

/-- The UPDATE of the candidates `rs`, one after another, is the UPDATE of the
rows that are candidates. -/
theorem exec_updateEach {t : T} {w : Row t → Bool} {f : Change Row t} {rs out : List (Row t)}
    (hnd : (rs.map (Schema.key t)).Nodup) (hrs : ∀ r ∈ rs, r ∈ (db t).rows ∧ w r = true)
    (h : exec (updateEach t w f (rs.map (Schema.key t)) : Prog Row L ε _) db = .ok (out, db')) :
    out = rs.map f.apply ∧
      db' = db.modify t (fun x => decide (Schema.key t x ∈ rs.map (Schema.key t))) f := by
  induction rs generalizing db out db' with
  | nil =>
    simp only [List.map_nil, updateEach, exec, Except.ok.injEq, Prod.mk.injEq] at h
    refine ⟨h.1.symm, h.2.symm.trans ?_⟩
    rw [eq_comm, Db.modify, Function.update_eq_self_iff]
    ext1
    simp
  | cons r rs ih =>
    obtain ⟨hr, hw⟩ := hrs r List.mem_cons_self
    have hfind := Table.mem_rows_iff.mp hr
    simp only [List.map_cons, List.nodup_cons] at hnd
    simp only [List.map_cons, updateEach, exec, hfind, Option.filter_some, hw, if_true] at h
    split at h
    swap
    · cases h
    rw [← bind_def, exec_bind_ok] at h
    obtain ⟨out', db₁, h1, h2⟩ := h
    simp only [exec, Except.ok.injEq, Prod.mk.injEq] at h2
    obtain ⟨rfl, rfl⟩ := h2
    have hput : db.put t (f.apply r) t =
        (db t).modify (fun x => decide (Schema.key t x = Schema.key t r)) f := by
      rw [Db.put_same]
      exact Table.put_apply f hfind
    obtain ⟨rfl, rfl⟩ := ih hnd.2 (fun x hx => by
      refine ⟨?_, (hrs x (List.mem_cons_of_mem _ hx)).2⟩
      rw [hput, Table.rows_modify, List.mem_map]
      refine ⟨x, (hrs x (List.mem_cons_of_mem _ hx)).1, ?_⟩
      rw [if_neg]
      intro hk
      exact hnd.1 (List.mem_map.mpr ⟨x, hx, of_decide_eq_true hk⟩)) h1
    refine ⟨rfl, ?_⟩
    rw [Db.modify, Db.modify, hput, Db.put, Function.update_idem]
    congr 1
    ext1
    simp only [Table.rows_modify, List.map_map]
    apply List.map_congr_left
    intro x _
    simp only [Function.comp_apply, decide_eq_true_eq, List.map_cons, List.mem_cons]
    by_cases hx : Schema.key t x = Schema.key t r
    · have hnot : Schema.key t (f.apply x) ∉ rs.map (Schema.key t) := by
        rw [f.key_apply, hx]
        exact hnd.1
      rw [if_pos hx, if_neg hnot, if_pos (Or.inl hx)]
    · simp [hx]

theorem exec_updateWhere {l : L} {t : T} {w : Row t → Bool} {f : Change Row t} {out : List (Row t)}
    (h : exec (updateWhere l t w f : Prog Row L ε _) db = .ok (out, db')) :
    out = ((db.rows t).filter w).map f.apply ∧ db' = db.modify t w f := by
  simp only [updateWhere, exec, candidates] at h
  have hnd : (((db t).rows.filter w).map (Schema.key t)).Nodup :=
    (db t).nodup.sublist (List.filter_sublist.map _)
  obtain ⟨hout, hdb⟩ := exec_updateEach hnd (fun r hr => List.mem_filter.mp hr) h
  refine ⟨hout, hdb.trans (congrArg (Function.update db t) ?_)⟩
  ext1
  simp only [Table.rows_modify, decide_eq_true_eq]
  apply List.map_congr_left
  intro x hx
  have hiff : Schema.key t x ∈ ((db t).rows.filter w).map (Schema.key t) ↔ w x = true := by
    constructor
    · intro hk
      obtain ⟨y, hy, hxy⟩ := List.mem_map.mp hk
      obtain ⟨hy, hw⟩ := List.mem_filter.mp hy
      rwa [← Table.eq_of_key_eq hy hx hxy]
    · intro hw
      exact List.mem_map.mpr ⟨x, List.mem_filter.mpr ⟨hx, hw⟩, rfl⟩
  by_cases hw : w x = true
  · rw [if_pos (hiff.mpr hw), if_pos hw]
  · rw [if_neg (fun h => hw (hiff.mp h)), if_neg hw]

theorem exec_upsertEach {t : T} {w : Row t → Bool} {f : Change Row t} {rs : List (Row t)}
    {touched : List (Schema.Key Row t)} {u : Unit}
    (h : exec (upsertEach t w f rs touched : Prog Row L ε Unit) db = .ok (u, db')) :
    db' = db.upsert t w f rs := by
  unfold Db.upsert
  induction rs generalizing db touched with
  | nil =>
    simp only [upsertEach, exec, Except.ok.injEq, Prod.mk.injEq] at h
    simpa using h.2.symm
  | cons r rs ih =>
    simp only [upsertEach, exec] at h
    rw [List.foldl_cons]
    split at h
    · cases h
    · next hins =>
      have hnone := Db.find?_of_inserted hins
      rw [ih h, Db.put_same, Db.put, Function.update_idem]
      simp [Table.upsert, hnone]
    · next o ho hins =>
      cases o with
      | inserted => exact absurd rfl ho
      | violation => cases h
      | skipped =>
        simp only at h
        split at h
        · cases h
        · simp only [exec] at h
          have hsome : ∃ x, (db t).find? (Schema.key t r) = some x := by
            unfold Db.tryInsert at hins
            split at hins
            · split at hins
              · next hany =>
                obtain ⟨x, hx, hk⟩ := List.any_eq_true.mp hany
                exact ⟨x, Table.find?_eq_some.mpr ⟨hx, of_decide_eq_true hk⟩⟩
              · split at hins
                · cases hins
                · split at hins <;> cases hins
            · cases hins
          obtain ⟨x, hx⟩ := hsome
          simp only [Table.upsert, hx]
          rw [hx] at h
          by_cases hw : w x = true
          · simp only [Option.filter_some, hw, if_true] at h ⊢
            split at h
            · rw [ih h, Db.put_same, Db.put, Function.update_idem]
            · cases h
          · simp only [Option.filter_some, hw] at h ⊢
            exact ih h

/-! ## Tables a program does not write -/

theorem exec_frame {W : T → Prop} {p : Prog Row L ε α} (hp : p.WritesOnly W)
    (h : exec p db = .ok (a, db')) {t : T} (ht : ¬W t) : db' t = db t := by
  induction p generalizing db with
  | ret b =>
    simp only [exec, Except.ok.injEq, Prod.mk.injEq] at h
    rw [h.2]
  | fail e => cases h
  | select l k ih => exact ih db (hp db) h
  | lock t' key w k ih => exact ih _ (hp _) h
  | update t' key w f k ih =>
    have hne : t ≠ t' := fun he => ht (he ▸ hp.1)
    simp only [exec] at h
    split at h
    · exact ih _ (hp.2 _) h
    · split at h
      · rw [ih _ (hp.2 _) h, Db.put_ne _ _ hne]
      · cases h
  | insert t' r skip k ih =>
    have hne : t ≠ t' := fun he => ht (he ▸ hp.1)
    simp only [exec] at h
    split at h
    · cases h
    · rw [ih _ (hp.2 _) h, Db.put_ne _ _ hne]
    · exact ih _ (hp.2 _) h
  | advisory n k ih => exact ih hp h

end Prog

end Sql
