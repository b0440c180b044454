import ExpenseEngine.Sql.Exec

/-!
# Programs that respect a relation between databases

A program respects `R` when two databases related by `R` give the same answer,
or the same failure, and are left related. A relation that forgets a table says
that the program does not read it; one that forgets the rows of a tenant says
that it does not read those.

Results:
1. `respects_bind`: sequencing.
2. `respects_read`, `respects_update`, `respects_insert`: one
   rule for each statement.
3. `respects_updateWhere`, `respects_upsertEach`: statements over many rows.
-/

namespace Sql

variable {T : Type} [DecidableEq T] {Row : T → Type} [Schema Row] {L ε α β : Type}

/-- The same answer in related databases, or the same failure. -/
inductive Same (R : Db Row → Db Row → Prop) :
    Except (Failure ε) (α × Db Row) → Except (Failure ε) (α × Db Row) → Prop
  | ok {a : α} {db db' : Db Row} (h : R db db') : Same R (.ok (a, db)) (.ok (a, db'))
  | error (e : Failure ε) : Same R (.error e) (.error e)

namespace Prog

def Respects (R : Db Row → Db Row → Prop) (p : Prog Row L ε α) : Prop :=
  ∀ db db', R db db' → Same R (exec p db) (exec p db')

variable {R : Db Row → Db Row → Prop}

theorem Respects.ok {p : Prog Row L ε α} (hp : p.Respects R) {db db' db₁ : Db Row} (h : R db db')
    {a : α} (hexec : exec p db = .ok (a, db₁)) :
    ∃ db₁', exec p db' = .ok (a, db₁') ∧ R db₁ db₁' := by
  have hsame := hp db db' h
  rw [hexec] at hsame
  generalize exec p db' = res at hsame
  cases hsame with
  | ok hR => exact ⟨_, rfl, hR⟩

theorem Respects.ok_right {p : Prog Row L ε α} (hp : p.Respects R) {db db' db₁' : Db Row}
    (h : R db db') {a : α} (hexec : exec p db' = .ok (a, db₁')) :
    ∃ db₁, exec p db = .ok (a, db₁) ∧ R db₁ db₁' := by
  have hsame := hp db db' h
  rw [hexec] at hsame
  generalize exec p db = res at hsame
  cases hsame with
  | ok hR => exact ⟨_, rfl, hR⟩

/-! ## One statement at a time -/

theorem respects_pure (a : α) : (pure a : Prog Row L ε α).Respects R :=
  fun _ _ h => .ok h

theorem respects_fail (e : Failure ε) : (.fail e : Prog Row L ε α).Respects R :=
  fun _ _ _ => .error e

theorem respects_raise (e : ε) : (raise e : Prog Row L ε α).Respects R :=
  respects_fail _

theorem respects_bind {p : Prog Row L ε α} {g : α → Prog Row L ε β} (hp : p.Respects R)
    (hg : ∀ a, (g a).Respects R) : (p >>= g).Respects R := by
  intro db db' h
  have hsame := hp db db' h
  rw [exec_bind, exec_bind]
  generalize exec p db = res at hsame ⊢
  generalize exec p db' = res' at hsame ⊢
  cases hsame with
  | ok hR => exact hg _ _ _ hR
  | error e => exact .error e

theorem respects_raiseIf (c : Prop) [Decidable c] (e : ε) :
    (raiseIf c e : Prog Row L ε Unit).Respects R := by
  unfold raiseIf
  split
  · exact respects_raise e
  · exact respects_pure ()

/-- A SELECT whose continuation does not tell related databases apart. -/
theorem respects_select {label : L} {k : Db Row → Prog Row L ε α}
    (hk : ∀ db db', R db db' → k db = k db') (h : ∀ db, (k db).Respects R) :
    (.select label k : Prog Row L ε α).Respects R := by
  intro db db' hR
  show Same R (exec (k db) db) (exec (k db') db')
  rw [hk db db' hR]
  exact h db' db db' hR

theorem respects_read {label : L} {f : Db Row → α} (hf : ∀ db db', R db db' → f db = f db') :
    (read label f : Prog Row L ε α).Respects R :=
  respects_select (fun db db' h => congrArg ret (hf db db' h)) fun _ => respects_pure _

/-- A statement finds the same row in related databases. -/
def SameRows (R : Db Row → Db Row → Prop) (t : T) (w : Row t → Bool) : Prop :=
  ∀ db db', R db db' →
    (∀ key, ((db t).find? key).filter w = ((db' t).find? key).filter w) ∧
      candidates db t w = candidates db' t w

/-- An UPDATE keeps related databases related. -/
def SameUpdate (R : Db Row → Db Row → Prop) (t : T) (w : Row t → Bool) (f : Change Row t) : Prop :=
  ∀ db db' key r, R db db' → ((db t).find? key).filter w = some r →
    db.accepts t (f.apply r) = db'.accepts t (f.apply r) ∧
      R (db.put t (f.apply r)) (db'.put t (f.apply r))

theorem respects_update {t : T} {key : Schema.Key Row t} {w : Row t → Bool} {f : Change Row t}
    {k : Option (Row t) → Prog Row L ε α} (hf : SameRows R t w) (hw : SameUpdate R t w f)
    (hk : ∀ o, (k o).Respects R) : (.update t key w f k : Prog Row L ε α).Respects R := by
  intro db db' h
  have hfind := (hf db db' h).1 key
  simp only [exec]
  cases hrow : ((db t).find? key).filter w with
  | none =>
    rw [hrow] at hfind
    rw [← hfind]
    exact hk none db db' h
  | some r =>
    obtain ⟨haccepts, hput⟩ := hw db db' key r h hrow
    rw [hrow] at hfind
    rw [← hfind]
    dsimp only
    rw [← haccepts]
    split
    · exact hk _ _ _ hput
    · exact .error _

/-- An INSERT has the same outcome in related databases and keeps them
related. -/
def SameInsert (R : Db Row → Db Row → Prop) (t : T) (r : Row t) (skip : Row t → Bool) : Prop :=
  ∀ db db', R db db' → db.tryInsert t r skip = db'.tryInsert t r skip ∧
    (db.tryInsert t r skip = some .inserted → R (db.put t r) (db'.put t r))

theorem respects_insert {t : T} {r : Row t} {skip : Row t → Bool}
    {k : Inserted → Prog Row L ε α} (hi : SameInsert R t r skip) (hk : ∀ o, (k o).Respects R) :
    (.insert t r skip k : Prog Row L ε α).Respects R := by
  intro db db' h
  obtain ⟨hsame, hput⟩ := hi db db' h
  simp only [exec]
  rw [← hsame]
  cases hins : db.tryInsert t r skip with
  | none => exact .error _
  | some o =>
    cases o with
    | inserted => exact hk _ _ _ (hput hins)
    | skipped | violation => exact hk _ _ _ h

theorem respects_insertRow {t : T} {r : Row t} (hi : SameInsert R t r fun _ => false) :
    (insertRow t r : Prog Row L ε Inserted).Respects R :=
  respects_insert hi fun _ => respects_pure _

/-! ## Statements over many rows -/

theorem respects_updateEach {t : T} {w : Row t → Bool} {f : Change Row t} (hf : SameRows R t w)
    (hw : SameUpdate R t w f) (keys : List (Schema.Key Row t)) :
    (updateEach t w f keys : Prog Row L ε (List (Row t))).Respects R := by
  induction keys with
  | nil => exact respects_pure []
  | cons key keys ih =>
    exact respects_update hf hw fun r => respects_bind ih fun rs => respects_pure _

theorem respects_updateWhere {label : L} {t : T} {w : Row t → Bool} {f : Change Row t}
    (hf : SameRows R t w) (hw : SameUpdate R t w f) :
    (updateWhere label t w f : Prog Row L ε (List (Row t))).Respects R :=
  respects_select (fun db db' h => congrArg (updateEach t w f) (hf db db' h).2)
    fun _ => respects_updateEach hf hw _

theorem respects_upsertEach {t : T} {w : Row t → Bool} {f : Change Row t} (hf : SameRows R t w)
    (hw : SameUpdate R t w f) {rs : List (Row t)}
    (hi : ∀ r ∈ rs, SameInsert R t r fun x => decide (Schema.key t x = Schema.key t r))
    (touched : List (Schema.Key Row t)) :
    (upsertEach t w f rs touched : Prog Row L ε Unit).Respects R := by
  induction rs generalizing touched with
  | nil => exact respects_pure ()
  | cons r rs ih =>
    have hrest : ∀ touched, (upsertEach t w f rs touched : Prog Row L ε Unit).Respects R :=
      ih fun x hx => hi x (List.mem_cons_of_mem _ hx)
    refine respects_insert (hi r List.mem_cons_self) fun o => ?_
    cases o with
    | inserted => exact hrest _
    | violation => exact respects_fail _
    | skipped =>
      show Respects R (if Schema.key t r ∈ touched then _ else _)
      split
      · exact respects_fail _
      · refine respects_update hf hw fun x => ?_
        cases x with
        | none => exact hrest _
        | some x => exact hrest _

/-! ## A table that is not read -/

/-- The same database but for the table `t`, which is `x` in the second. -/
def Replaces (t : T) (x : Table Row t) (db db' : Db Row) : Prop := db' = Function.update db t x

/-- No foreign key of `t'` refers to `t`. -/
def RefsSkip (Row : T → Type) [Schema Row] (t t' : T) : Prop :=
  ∀ (db : Db Row) (x : Table Row t) (r : Row t'),
    Schema.refs (Db.rows (Function.update db t x)) t' r = Schema.refs db.rows t' r

section Replaces

variable {t t' : T} {x : Table Row t}

theorem Replaces.table (hne : t' ≠ t) {db db' : Db Row} (h : Replaces t x db db') :
    db' t' = db t' := by
  rw [h, Function.update_of_ne hne]

theorem Replaces.put (hne : t' ≠ t) {db db' : Db Row} (h : Replaces t x db db') (r : Row t') :
    Replaces t x (db.put t' r) (db'.put t' r) := by
  subst h
  unfold Replaces Db.put
  rw [Function.update_of_ne hne, Function.update_comm hne]

theorem sameRows_replaces (hne : t' ≠ t) (w : Row t' → Bool) : SameRows (Replaces t x) t' w := by
  intro db db' h
  have htable := h.table hne
  exact ⟨fun key => by rw [htable], by rw [candidates, candidates, htable]⟩

theorem sameUpdate_replaces (hne : t' ≠ t) (hrefs : RefsSkip Row t t') (w : Row t' → Bool)
    (f : Change Row t') : SameUpdate (Replaces t x) t' w f := by
  intro db db' key r h _
  refine ⟨?_, h.put hne _⟩
  have htable := h.table hne
  rw [Db.accepts, Db.accepts, htable, h, hrefs]

theorem sameInsert_replaces (hne : t' ≠ t) (hrefs : RefsSkip Row t t') (r : Row t')
    (skip : Row t' → Bool) : SameInsert (Replaces t x) t' r skip := by
  intro db db' h
  refine ⟨?_, fun _ => h.put hne _⟩
  have htable := h.table hne
  rw [Db.tryInsert, Db.tryInsert, htable, h, hrefs]

end Replaces

end Prog

end Sql
