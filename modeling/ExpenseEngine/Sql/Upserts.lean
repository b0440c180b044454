import ExpenseEngine.Sql.Constraints

/-!
# Upserts of several rows

`INSERT rs ON CONFLICT (key) DO UPDATE SET f WHERE w`, when no row that it leaves
meets `w` again. Read as a finite map, it inserts the proposed rows under new
keys and rewrites the rows that meet `w`. A key may be proposed twice only when
the statement leaves its row alone.

Results:
1. `Table.find?_upsert_of_mem`, `Table.find?_upsert_of_ne`: what an upsert leaves
   under each key.
2. `exec_upsertEach_iff`: when nothing but a repeated key can refuse a row, the
   statement succeeds iff no key that it writes is repeated.
-/

namespace Sql

variable {T : Type} {Row : T → Type} [Schema Row] {L ε : Type} {t : T}

namespace Table

/-- What an upsert of `r` leaves under the key of `r`. -/
def settle (w : Row t → Bool) (f : Change Row t) (r : Row t) : Option (Row t) → Row t
  | none => r
  | some x => if w x then f.apply x else x

variable {w : Row t → Bool} {f : Change Row t}

theorem find?_upsert_one (tb : Table Row t) (r : Row t) (k : Schema.Key Row t) :
    (upsert w f tb r).find? k =
      if Schema.key t r = k then some (settle w f r (tb.find? k)) else tb.find? k := by
  unfold upsert
  cases hfind : tb.find? (Schema.key t r) with
  | none =>
    rw [find?_put]
    split
    · next hk =>
      subst hk
      rw [hfind]
      rfl
    · rfl
  | some x =>
    have hkey := key_of_find? hfind
    show (if w x then tb.put (f.apply x) else tb).find? k = _
    cases hw : w x with
    | true =>
      simp only [if_true]
      rw [find?_put, f.key_apply, hkey]
      split
      · next hk =>
        subst hk
        simp [hfind, settle, hw]
      · rfl
    | false =>
      simp only [Bool.false_eq_true, if_false]
      split
      · next hk =>
        subst hk
        simp [hfind, settle, hw]
      · rfl

/-- The first proposal for a key settles what is under it. -/
theorem find?_upsert (hf : ∀ x, w (f.apply x) = false) {rs : List (Row t)}
    (hrs : ∀ r ∈ rs, w r = false) (tb : Table Row t) (k : Schema.Key Row t) :
    (rs.foldl (upsert w f) tb).find? k =
      match rs.find? fun r => decide (Schema.key t r = k) with
      | none => tb.find? k
      | some r => some (settle w f r (tb.find? k)) := by
  induction rs generalizing tb with
  | nil => rfl
  | cons r rs ih =>
    rw [List.foldl_cons, ih fun x hx => hrs x (List.mem_cons_of_mem _ hx), List.find?_cons,
      find?_upsert_one]
    by_cases hk : Schema.key t r = k
    · simp only [hk, decide_true, if_true]
      -- a row that is settled stays as it is
      have hsettled : w (settle w f r (tb.find? k)) = false := by
        cases tb.find? k with
        | none => exact hrs r List.mem_cons_self
        | some x =>
          show w (if w x then f.apply x else x) = false
          split
          · exact hf x
          · next hw => exact Bool.eq_false_iff.mpr hw
      split
      · rfl
      · show some (if w _ then _ else _) = _
        rw [hsettled]
        rfl
    · simp only [hk, decide_false, if_false]

theorem find?_upsert_of_ne {rs : List (Row t)} {tb : Table Row t} {k : Schema.Key Row t}
    (hf : ∀ x, w (f.apply x) = false) (hrs : ∀ r ∈ rs, w r = false)
    (hk : ∀ r ∈ rs, Schema.key t r ≠ k) :
    (rs.foldl (upsert w f) tb).find? k = tb.find? k := by
  rw [find?_upsert hf hrs, List.find?_eq_none.mpr fun r hr => by simpa using hk r hr]

/-- Under one key the same row is proposed, if ever so often. -/
theorem find?_upsert_of_mem {rs : List (Row t)} {tb : Table Row t} {r : Row t}
    (hf : ∀ x, w (f.apply x) = false) (hrs : ∀ r ∈ rs, w r = false) (hr : r ∈ rs)
    (hsame : ∀ r' ∈ rs, Schema.key t r' = Schema.key t r → r' = r) :
    (rs.foldl (upsert w f) tb).find? (Schema.key t r) =
      some (settle w f r (tb.find? (Schema.key t r))) := by
  rw [find?_upsert hf hrs]
  cases hfind : rs.find? fun r' => decide (Schema.key t r' = Schema.key t r) with
  | none => exact absurd (decide_eq_true rfl) (List.find?_eq_none.mp hfind r hr)
  | some r' =>
    have hkey := List.find?_some hfind
    rw [hsame r' (List.mem_of_find?_eq_some hfind) (of_decide_eq_true hkey)]

/-- Rows that are left alone. -/
theorem upsert_of_spared {rs : List (Row t)} {tb : Table Row t}
    (h : ∀ r ∈ rs, ∃ x, tb.find? (Schema.key t r) = some x ∧ w x = false) :
    rs.foldl (upsert w f) tb = tb := by
  induction rs with
  | nil => rfl
  | cons r rs ih =>
    obtain ⟨x, hx, hw⟩ := h r List.mem_cons_self
    have hfirst : upsert w f tb r = tb := by
      unfold upsert
      simp [hx, hw]
    rw [List.foldl_cons, hfirst]
    exact ih fun y hy => h y (List.mem_cons_of_mem _ hy)

end Table

variable [DecidableEq T]

namespace Prog

/-- The statement leaves the row under this key alone. -/
def spared (w : Row t → Bool) (db : Db Row) (k : Schema.Key Row t) : Bool :=
  ((db t).find? k).any fun x => !w x

theorem exec_upsertEach_iff {w : Row t → Bool} {f : Change Row t} {db : Db Row}
    {rs : List (Row t)}
    (hins : ∀ r ∈ rs, ∀ db₁, AgreeBut t db db₁ → (db₁ t).find? (Schema.key t r) = none →
      db₁.tryInsert t r (fun x => decide (Schema.key t x = Schema.key t r)) = some .inserted)
    (hskip : ∀ r ∈ rs, Schema.checks t r = true)
    (hupd : ∀ x ∈ db.rows t, w x = true → ∀ db₁, AgreeBut t db db₁ →
      db₁.accepts t (f.apply x) = true) :
    (∃ db', exec (upsertEach t w f rs [] : Prog Row L ε Unit) db = .ok ((), db')) ↔
      ((rs.map (Schema.key t)).filter fun k => !spared w db k).Nodup := by
  suffices h : ∀ (db₁ : Db Row) (touched : List (Schema.Key Row t)), AgreeBut t db db₁ →
      (∀ k ∉ touched, (db₁ t).find? k = (db t).find? k) →
      (∀ k ∈ touched, ((db₁ t).find? k).isSome ∧ spared w db k = false) →
      ((∃ db', exec (upsertEach t w f rs touched : Prog Row L ε Unit) db₁ = .ok ((), db')) ↔
        (∀ r ∈ rs, Schema.key t r ∉ touched) ∧
          ((rs.map (Schema.key t)).filter fun k => !spared w db k).Nodup) by
    rw [h db [] (fun _ _ => rfl) (fun _ _ => rfl) (List.forall_mem_nil _)]
    simp
  induction rs with
  | nil =>
    exact fun db₁ _ _ _ _ =>
      ⟨fun _ => ⟨List.forall_mem_nil _, List.nodup_nil⟩, fun _ => ⟨db₁, rfl⟩⟩
  | cons r rs ih =>
    intro db₁ touched hagree hfind htouched
    have ih := ih (fun x hx => hins x (List.mem_cons_of_mem _ hx))
      fun x hx => hskip x (List.mem_cons_of_mem _ hx)
    -- the key of `r` has been written, from here on
    have hwritten : spared w db (Schema.key t r) = false → Schema.key t r ∉ touched →
        (((∀ x ∈ rs, Schema.key t x ∉ Schema.key t r :: touched) ∧
          ((rs.map (Schema.key t)).filter fun k => !spared w db k).Nodup) ↔
        (∀ x ∈ r :: rs, Schema.key t x ∉ touched) ∧
          (((r :: rs).map (Schema.key t)).filter fun k => !spared w db k).Nodup) := by
      intro hspared hnew
      rw [List.map_cons, List.filter_cons]
      simp only [hspared, Bool.not_false, if_true, List.nodup_cons, List.mem_filter,
        List.mem_map, List.mem_cons, not_or, and_true, forall_eq_or_imp]
      constructor
      · rintro ⟨hall, hnd⟩
        exact ⟨⟨hnew, fun x hx => (hall x hx).2⟩, fun ⟨x, hx, hk⟩ => (hall x hx).1 hk, hnd⟩
      · rintro ⟨⟨-, hall⟩, hno, hnd⟩
        exact ⟨fun x hx => ⟨fun hk => hno ⟨x, hx, hk⟩, hall x hx⟩, hnd⟩
    simp only [upsertEach, exec]
    cases hrow : (db₁ t).find? (Schema.key t r) with
    | none =>
      have hnew : Schema.key t r ∉ touched := by
        intro hmem
        have hsome := (htouched _ hmem).1
        rw [hrow] at hsome
        cases hsome
      have hspared : spared w db (Schema.key t r) = false := by
        rw [spared, ← hfind _ hnew, hrow]
        rfl
      simp only [hins r List.mem_cons_self db₁ hagree hrow]
      rw [← hwritten hspared hnew]
      refine ih (db₁.put t r) _ (hagree.put r) (fun k hk => ?_) fun k hk => ?_
      · obtain ⟨hne, hk⟩ := not_or.mp (fun h => hk (List.mem_cons.mpr h))
        rw [Db.put_same, Table.find?_put_of_ne (Ne.symm hne), hfind k hk]
      · rw [Db.put_same, Table.find?_put]
        rcases List.mem_cons.mp hk with rfl | hk
        · exact ⟨by simp, hspared⟩
        · split
          · exact ⟨rfl, (htouched k hk).2⟩
          · exact htouched k hk
    | some x =>
      have hx := Table.key_of_find? hrow
      have hmeets : db₁.tryInsert t r (fun x => decide (Schema.key t x = Schema.key t r)) =
          some .skipped := by
        have hany : (db₁ t).rows.any (fun x => decide (Schema.key t x = Schema.key t r)) = true :=
          List.any_eq_true.mpr ⟨x, Table.mem_of_find? hrow, decide_eq_true hx⟩
        simp [Db.tryInsert, hskip r List.mem_cons_self, hany]
      simp only [hmeets]
      by_cases hold : Schema.key t r ∈ touched
      · simp only [hold, if_true, exec_fail]
        refine ⟨fun h => ?_, fun h => absurd hold (h.1 r List.mem_cons_self)⟩
        obtain ⟨_, h⟩ := h
        cases h
      · simp only [hold, if_false, exec, hrow]
        have hdb : (db t).find? (Schema.key t r) = some x := (hfind _ hold).symm.trans hrow
        cases hw : w x with
        | false =>
          have hspared : spared w db (Schema.key t r) = true := by simp [spared, hdb, hw]
          simp only [Option.filter_some, hw, Bool.false_eq_true, if_false]
          rw [ih db₁ touched hagree hfind htouched, List.map_cons, List.filter_cons]
          simp [hspared, hold]
        | true =>
          have hspared : spared w db (Schema.key t r) = false := by simp [spared, hdb, hw]
          simp only [Option.filter_some, hw, if_true,
            hupd x (Table.mem_of_find? hdb) hw db₁ hagree]
          rw [← hwritten hspared hold]
          refine ih (db₁.put t (f.apply x)) _ (hagree.put _) (fun k hk => ?_) fun k hk => ?_
          · obtain ⟨hne, hk⟩ := not_or.mp (fun h => hk (List.mem_cons.mpr h))
            rw [Db.put_same, Table.find?_put_of_ne, hfind k hk]
            rw [f.key_apply, hx]
            exact Ne.symm hne
          · rw [Db.put_same, Table.find?_put, f.key_apply, hx]
            rcases List.mem_cons.mp hk with rfl | hk
            · exact ⟨by simp, hspared⟩
            · split
              · exact ⟨rfl, (htouched k hk).2⟩
              · exact htouched k hk

end Prog

end Sql
