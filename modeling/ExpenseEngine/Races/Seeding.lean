import ExpenseEngine.Invariants.Audit
import ExpenseEngine.Races.Handlers
import ExpenseEngine.Sql.Histories
import ExpenseEngine.Sql.Rely

/-!
# The system category beside other transactions

The seeding of a system category looks for the row, inserts it where it is not
there, and looks again when another transaction was first. It relies on the
others: no system row of the user is deleted or loses its key, and no category
without a key takes a reserved name. Creation and rename check the name, deletion
refuses rows with a key, restores keep both columns.

Results:
1. `relies_ensureSystemCategory`: the seeding fails in no way while the others keep
   to `seedingRely`.
2. `relies_actor`, `seeding_guaranteed`: every call and every seeding keeps to it.
3. `system_category_stays_seedable`: at most one system row, never deleted, no
   other row under its name, and seedings that answer with it; over runs and races.
-/

namespace ExpenseEngine

open Sql Sql.Prog HandlerLemmas StatementLemmas

section Seeding

variable [Platform] {db db' : Db} {env : Env} {userId u : Uuid} {key : SystemCategoryKey}

/-! ## What the categories of a user keep -/

/-- A category of the user without a system key does not hold a reserved name,
and one with a system key is not deleted. -/
def Tended (u : Uuid) : (t : Tbl) → Row t → Prop
  | .categories, (r : CategoryRow) => r.userId = u →
    (r.systemKey = none → isReservedName r.name = false) ∧ (r.systemKey ≠ none → r.deletedAt = none)
  | _, _ => True

def Tends (u : Uuid) (db : Db) : Prop := ∀ t, ∀ r ∈ db.rows t, Tended u t r

/-- No category loses its row, its owner or its system key, and a system category
of the user stays active. -/
structure CategoriesKept (u : Uuid) (db db' : Db) : Prop where
  rows : ∀ r ∈ db.rows .categories, ∃ r' ∈ db'.rows .categories, r'.id = r.id ∧
    r'.userId = r.userId ∧ r'.systemKey = r.systemKey ∧
    (r.userId = u → r.systemKey ≠ none → r.deletedAt = none → r'.deletedAt = none)
  users : ∀ x ∈ db.rows .users, ∃ x' ∈ db'.rows .users, x'.id = x.id
  tends : Tends u db → Tends u db'

theorem CategoriesKept.refl (db : Db) : CategoriesKept u db db where
  rows r hr := ⟨r, hr, rfl, rfl, rfl, fun _ _ h => h⟩
  users x hx := ⟨x, hx, rfl⟩
  tends h := h

theorem CategoriesKept.trans {db₁ db₂ db₃ : Db} (h : CategoriesKept u db₁ db₂)
    (h' : CategoriesKept u db₂ db₃) : CategoriesKept u db₁ db₃ where
  rows r hr := by
    obtain ⟨r₂, hr₂, hid₂, hu₂, hkey₂, hd₂⟩ := h.rows r hr
    obtain ⟨r₃, hr₃, hid₃, hu₃, hkey₃, hd₃⟩ := h'.rows r₂ hr₂
    refine ⟨r₃, hr₃, hid₃.trans hid₂, hu₃.trans hu₂, hkey₃.trans hkey₂, fun hu hkey hd => ?_⟩
    exact hd₃ (hu₂.trans hu) (fun h => hkey (hkey₂.symm.trans h)) (hd₂ hu hkey hd)
  users x hx := by
    obtain ⟨x₂, hx₂, hid₂⟩ := h.users x hx
    obtain ⟨x₃, hx₃, hid₃⟩ := h'.users x₂ hx₂
    exact ⟨x₃, hx₃, hid₃.trans hid₂⟩
  tends ht := h'.tends (h.tends ht)

/-- A system category stays one. -/
theorem CategoriesKept.system (h : CategoriesKept u db db') {r : Row .categories}
    (hr : r ∈ db.rows .categories) (hsystem : isSystemCategory u key r = true) :
    ∃ r' ∈ db'.rows .categories, r'.id = r.id ∧ isSystemCategory u key r' = true := by
  obtain ⟨hu, hkey, hd⟩ := of_decide_eq_true hsystem
  obtain ⟨r', hr', hid, hu', hkey', hd'⟩ := h.rows r hr
  refine ⟨r', hr', hid, decide_eq_true ⟨hu'.trans hu, hkey'.trans hkey, hd' hu ?_ hd⟩⟩
  rw [hkey]
  exact nofun

/-- The others keep the categories, and insert none with an id in `mine`. -/
def seedingRely (u : Uuid) (mine : Uuid → Prop) : Rely Row where
  later db db' := CategoriesKept u db db' ∧
    ∀ r' ∈ db'.rows .categories, mine r'.id → ∃ r ∈ db.rows .categories, r.id = r'.id
  refl db := ⟨.refl db, fun r' hr' _ => ⟨r', hr', rfl⟩⟩
  trans h h' := by
    refine ⟨h.1.trans h'.1, fun r₃ hr₃ hmine => ?_⟩
    obtain ⟨r₂, hr₂, hid₂⟩ := h'.2 r₃ hr₃ hmine
    obtain ⟨r₁, hr₁, hid₁⟩ := h.2 r₂ hr₂ (by rwa [hid₂])
    exact ⟨r₁, hr₁, hid₁.trans hid₂⟩

/-! ## The seeding -/

/-- Postgres' `LOWER` and Python's `str.lower` agree on the reserved names. -/
def LowersAgree : Prop :=
  ∀ (key : SystemCategoryKey) (name : Text),
    Platform.lower name = Platform.lower (systemCategoryDefaultName key) →
      Platform.pyLower name = Platform.pyLower (systemCategoryDefaultName key)

/-- The 409 of a name that is taken by a category which is not the system one. -/
def seedSquatted (key : SystemCategoryKey) : AppError :=
  conflict ("A category named " ++ quoted (systemCategoryDefaultName key) ++
    " already exists and is not the system category. Rename it to enable this operation.")

/-- The 409 of a seed that is gone when it is read again. -/
def seedRaced : AppError :=
  conflict "System category seeding raced with a concurrent delete. Retry."

namespace SeedingLemmas

theorem rows_view {l : Loc} {t : Tbl} (h : l.own t = []) (db : Db) :
    (l.view db).rows t = db.rows t :=
  congrArg Table.rows (overlay_of_nil db h)

/-- No constraint but a unique index refuses a seed. -/
theorem tryInsert_seed_ne_none {skip : Row .categories → Bool}
    (huser : ∃ x ∈ db.rows .users, x.id = u) :
    db.tryInsert .categories (newSystemCategoryRow env u key) skip ≠ none := by
  have hrefs : Schema.refs db.rows Tbl.categories (newSystemCategoryRow env u key) = true := by
    obtain ⟨x, hx, hid⟩ := huser
    exact List.any_eq_true.mpr ⟨x, hx, decide_eq_true hid⟩
  have hchecks : Schema.checks Tbl.categories (newSystemCategoryRow env u key) = true := by
    show (isHexColor defaultCategoryColor && inInt4 0 && inInt4 1) = true
    decide
  rw [Db.tryInsert, if_pos hchecks, if_pos hrefs]
  split
  · simp
  · split <;> simp

/-- Neither the id nor the name of a seed is taken by another row. -/
theorem tryInsert_seed_ne_violation (hlower : LowersAgree)
    (htends : ∀ r ∈ db.rows .categories, Tended u .categories r)
    (hfresh : ∀ r ∈ db.rows .categories, r.id ≠ env.uuid 1) :
    db.tryInsert .categories (newSystemCategoryRow env u key) (isSystemCategory u key) ≠
      some .violation := by
  intro h
  rw [Db.tryInsert] at h
  split at h
  · split at h
    · cases h
    · next hskip =>
      split at h
      · next hany =>
        obtain ⟨x, hx, hclash⟩ := List.any_eq_true.mp hany
        rw [Bool.or_eq_true, decide_eq_true_eq] at hclash
        rcases hclash with hid | hclash
        · exact hfresh x hx hid
        · obtain ⟨hd, -, hu, hclash⟩ := of_decide_eq_true hclash
          -- a row without a system key does not hold the name, one with a key is the seed
          cases hkey : x.systemKey with
          | none =>
            have hname : Platform.lower x.name =
                Platform.lower (systemCategoryDefaultName key) := by
              rcases hclash with hname | ⟨hsome, -⟩
              · exact hname
              · exact absurd hkey hsome
            have hreserved := (htends x hx hu).1 hkey
            have hlow := hlower key x.name hname
            cases key
            rw [isReservedName, decide_eq_false_iff_not] at hreserved
            exact hreserved hlow
          | some k =>
            refine hskip (List.any_eq_true.mpr ⟨x, hx, decide_eq_true ⟨hu, ?_, hd⟩⟩)
            cases k
            cases key
            exact hkey
      · split at h <;> cases h
  · cases h

/-- What a seed needs of the tables lasts. -/
theorem seed_conditions {mine : Uuid → Prop} {id : Uuid} (huser : ∃ x ∈ db.rows .users, x.id = u)
    (htends : Tends u db) (hmine : mine id) (hfresh : ∀ r ∈ db.rows .categories, r.id ≠ id)
    (hdb : (seedingRely u mine).later db db') :
    Tends u db' ∧ (∃ x ∈ db'.rows .users, x.id = u) ∧ ∀ r ∈ db'.rows .categories, r.id ≠ id := by
  obtain ⟨hkept, hnew⟩ := hdb
  obtain ⟨x, hx, hid⟩ := huser
  obtain ⟨x', hx', hid'⟩ := hkept.users x hx
  refine ⟨hkept.tends htends, ⟨x', hx', hid'.trans hid⟩, fun r hr heq => ?_⟩
  obtain ⟨r₀, hr₀, hid₀⟩ := hnew r hr (heq ▸ hmine)
  exact hfresh r₀ hr₀ (hid₀.trans heq)

end SeedingLemmas

open SeedingLemmas

/-- The seeding finds the system category or inserts it, and fails in no other
way than by being killed. -/
theorem relies_ensureSystemCategory {mine : Uuid → Prop} {l : Loc} (hlower : LowersAgree)
    (hcategories : l.own .categories = []) (husers : l.own .users = [])
    (huser : ∃ x ∈ db.rows .users, x.id = u) (htends : Tends u db) (hmine : mine (env.uuid 1))
    (hfresh : ∀ r ∈ db.rows .categories, r.id ≠ env.uuid 1) :
    (ensureSystemCategory env u key).Relies (seedingRely u mine) (fun _ => False)
      (fun id l' db' => (∀ t, t ≠ .categories → l'.own t = l.own t) ∧
        (∀ r ∈ l'.own .categories, Tended u .categories r) ∧
        ∃ r ∈ (l'.view db').rows .categories,
          r.id = id ∧ isSystemCategory u key r = true) l db := by
  have hafter := fun db' (hdb : (seedingRely u mine).later db db') =>
    seed_conditions huser htends hmine hfresh hdb
  unfold ensureSystemCategory fetchRow
  refine relies_read fun db₁ n hdb₁ => ?_
  rw [rows_view hcategories]
  cases hfound : (db₁.rows .categories).find? (isSystemCategory u key) with
  | some row =>
    refine relies_pure fun db₂ hdb₂ => ?_
    obtain ⟨hrow, hsystem⟩ := find?_row hfound
    obtain ⟨r', hr', hid, hsystem'⟩ := hdb₂.1.system hrow hsystem
    refine ⟨fun _ _ => rfl, ?_, r', ?_, hid, hsystem'⟩
    · rw [Local.own_saw, hcategories]
      nofun
    · rwa [rows_view (by rw [Local.own_saw, hcategories])]
  | none =>
    have hrows : ∀ db', ((l.saw .other (l.view db₁) n).view db').rows .categories =
        db'.rows .categories := fun db' => rows_view (by rw [Local.own_saw, hcategories]) db'
    have husers' : ∀ db', ((l.saw .other (l.view db₁) n).view db').rows .users =
        db'.rows .users := fun db' => rows_view (by rw [Local.own_saw, husers]) db'
    refine relies_insert (fun db₂ hdb₂ hnone => ?_) (fun db₂ hdb₂ hins => ?_)
      (fun db₂ hdb₂ hskip => ?_) fun db₂ hdb₂ hviolation => ?_
    · obtain ⟨-, huser₂, -⟩ := hafter _ ((seedingRely u mine).trans hdb₁ hdb₂)
      exact tryInsert_seed_ne_none (by rwa [husers']) hnone
    · refine relies_pure fun db₃ hdb₃ => ⟨fun t ht => ?_, ?_, newSystemCategoryRow env u key, ?_,
        rfl, decide_eq_true ⟨rfl, rfl, rfl⟩⟩
      · rw [Local.own_write_ne _ ht, Local.own_saw]
      · rw [Local.own_write_same, Local.own_saw, hcategories, List.nil_append]
        intro r hr hu
        obtain rfl := List.mem_singleton.mp hr
        exact ⟨nofun, fun _ => rfl⟩
      · rw [Local.view_write, Sql.Db.rows, Db.put_same]
        exact Table.mem_put.mpr (.inl rfl)
    · -- the row in the way is the system category, and the second look finds it
      obtain ⟨x, hx, hsystem, -⟩ := Db.find?_of_skipped hskip
      rw [hrows] at hx
      refine relies_read fun db₃ m hdb₃ => ?_
      obtain ⟨x', hx', -, hsystem'⟩ := hdb₃.1.system hx hsystem
      have hrows₃ := rows_view (l := (l.saw .other (l.view db₁) n).meet .categories
        ((((l.saw .other (l.view db₁) n).view db₂) .categories).rows.find?
          (isSystemCategory u key))) (t := .categories) (by rw [Local.own_meet, Local.own_saw,
            hcategories])
      rw [hrows₃]
      refine relies_orRaise (fun hnone => ?_) fun row hrow => relies_pure fun db₄ hdb₄ => ?_
      · exact List.find?_eq_none.mp hnone x' hx' hsystem'
      · obtain ⟨hmem, hsystem''⟩ := find?_row hrow
        obtain ⟨r', hr', hid, hsystem₄⟩ := hdb₄.1.system hmem hsystem''
        refine ⟨fun _ _ => rfl, ?_, r', ?_, hid, hsystem₄⟩
        · rw [Local.own_saw, Local.own_meet, Local.own_saw, hcategories]
          nofun
        · rwa [rows_view (by rw [Local.own_saw, Local.own_meet, Local.own_saw, hcategories])]
    · obtain ⟨htends₂, -, hfresh₂⟩ := hafter _ ((seedingRely u mine).trans hdb₁ hdb₂)
      refine absurd hviolation (tryInsert_seed_ne_violation hlower ?_ ?_)
      · rw [hrows]
        exact htends₂ .categories
      · rwa [hrows]

/-! ## Calls -/

/-- The requests whose statements keep the categories only by what they have
looked at. -/
def Request.editsCategory : Request → Bool
  | .createCategory _ | .updateCategory _ _ | .deleteCategory _ => true
  | _ => false

/-- The writes of a transaction keep the categories of the user. -/
def OwnTended (u : Uuid) (l : Loc) : Prop := ∀ r ∈ l.own .categories, Tended u .categories r

namespace SeedingLemmas

theorem ownTended_of_nil {l : Loc} (h : l.own .categories = []) : OwnTended u l := by
  rw [OwnTended, h]
  nofun

theorem OwnTended.congr {l l' : Loc} (h : OwnTended u l)
    (hown : l'.own .categories = l.own .categories) : OwnTended u l' := by
  rwa [OwnTended, hown]

theorem raises_true {α : Type} (p : Op α) : p.Raises fun _ => True := by
  induction p with
  | ret a => trivial
  | fail e => cases e <;> trivial
  | select l k ih => exact ih
  | lock t key w k ih => exact ih
  | update t key w f k ih => exact ih
  | insert t r skip k ih => exact ih
  | advisory n k ih => exact ih

section Handlers

variable {R : Rely Row} {E : Failure AppError → Prop} {c : Call}

/-- The errors of the idempotency layer and of the null check before it. -/
structure HandlerErrors (E : Failure AppError → Prop) (c : Call) : Prop where
  database : E .database
  internal : E (.raised internalError)
  reused : E (.raised keyReused)
  notReplayable : E (.raised keyNotReplayable)
  nulls : ∀ e, extractUpdateFields c.request.nonNullable = .error e → E (.raised e)

theorem raises_claim (hE : HandlerErrors E c) {userId : Uuid} {key fingerprint : Text} :
    (claim userId key fingerprint).Raises fun e => E (.raised e) := by
  refine Raises.bind (p := advisoryLock _) trivial fun _ => ?_
  refine Raises.bind (raises_read _ _) fun found => ?_
  cases found with
  | none => trivial
  | some row =>
    dsimp only
    split
    · trivial
    · next e he =>
      rcases replay_error he with rfl | rfl
      · exact hE.reused
      · exact hE.notReplayable

/-- A handler from its work: what the layer around it writes is its key. -/
theorem relies_handle (hE : HandlerErrors E c) {l : Loc} (hl : l.own .categories = [])
    (hwork : ∀ l' db', (∀ t, l'.own t = l.own t) → R.later db db' →
      (c.request.work c.env c.userId).Relies R E (fun _ l' _ => OwnTended u l') l' db') :
    c.handle.Relies R E (fun _ l' _ => OwnTended u l') l db := by
  unfold Call.handle
  refine Relies.guard readOnly_liftExcept ?_ hE.database fun _ l₁ db₁ hl₁ hdb₁ => ?_
  · unfold liftExcept
    split
    · trivial
    · next e he => exact hE.nulls e he
  have hown₁ : ∀ t, l₁.own t = l.own t := fun t => congrFun hl₁ t
  unfold runIdempotent
  split
  · rw [map_eq_pure_bind]
    refine Relies.bind ((hwork l₁ db₁ hown₁ hdb₁).mono (fun _ he => he) fun body l₂ db₂ h₂ => ?_)
    exact relies_pure fun _ _ => h₂
  · exact hE.internal
  · refine Relies.frame (W := fun _ => False) ?_ (raises_claim hE) hE.database
      fun found l₂ db₂ hl₂ hdb₂ => ?_
    · refine WritesOnly.bind trivial fun _ => WritesOnly.bind readOnly_fetchRow fun row => ?_
      cases row with
      | none => trivial
      | some row =>
        dsimp only
        split <;> trivial
    have hown₂ : ∀ t, l₂.own t = l.own t := fun t => (hl₂ t not_false).trans (hown₁ t)
    cases found with
    | some reply => exact relies_pure fun _ _ => ownTended_of_nil ((hown₂ _).trans hl)
    | none =>
      refine Relies.bind ((hwork l₂ db₂ hown₂ (R.trans hdb₁ hdb₂)).mono (fun _ he => he)
        fun body l₃ db₃ h₃ => ?_)
      refine Relies.frame (writesOnly_store ..) ?_ hE.database fun _ l₄ db₄ hl₄ _ => ?_
      · refine Raises.bind (raises_insertOrSkip _ _ _) fun o => ?_
        split <;> trivial
      · exact relies_pure fun _ _ => OwnTended.congr h₃ (hl₄ .categories (by simp))

/-! ### The requests that name or delete a category -/

section Categories

variable {mine : Uuid → Prop} {l : Loc}

/-- A guard of a service, when nothing is asked of the errors. -/
theorem relies_guard {α β : Type} {p : Op α} {g : α → Op β} {S : β → Loc → Db → Prop}
    (hp : p.WritesOnly fun _ => False)
    (hg : ∀ a l' db', l'.own = l.own → R.later db db' →
      (g a).Relies R (fun _ => True) S l' db') :
    (p >>= g).Relies R (fun _ => True) S l db :=
  Relies.guard hp (raises_true p) trivial hg

/-- The audit of a write and the answer after it. -/
theorem relies_logged {α : Type} {a : α} {logId resourceId : Uuid} {resourceType : String}
    {action : ActivityAction} {before after : Option Body} (hl : OwnTended u l) :
    (do
      writeActivityLog env logId userId resourceType resourceId action before after
      return a : Op α).Relies R (fun _ => True) (fun _ l' _ => OwnTended u l') l db :=
  Relies.frame (W := (· = .activityLog)) (writesOnly_insertOrAbort rfl) (raises_true _) trivial
    fun _ _ _ hown _ => relies_pure fun _ _ => OwnTended.congr hl (hown .categories (by simp))

theorem relies_createCategory {body : CategoryCreateRequest} (hl : l.own .categories = []) :
    (createCategory env userId body).Relies R (fun _ => True)
      (fun _ l' _ => OwnTended u l') l db := by
  unfold createCategory
  refine relies_guard (by simp) fun name l₁ db₁ hl₁ _ => ?_
  refine relies_raiseIf (fun _ => trivial) fun hreserved => ?_
  refine relies_guard (by simp) fun _ l₂ db₂ hl₂ _ => ?_
  refine relies_guard (by simp) fun _ l₃ db₃ hl₃ _ => ?_
  refine relies_guard (by simp) fun _ l₄ db₄ hl₄ _ => ?_
  refine relies_guard (by simp) fun sortOrder l₅ db₅ hl₅ _ => ?_
  have hown : l₅.own .categories = [] := by rw [hl₅, hl₄, hl₃, hl₂, hl₁, hl]
  have hrest : ∀ (o : Inserted) l' db', OwnTended u l' → (do
      raiseIf (o ≠ .inserted)
        (conflict ("A category with id '" ++ uuidStr body.id ++ "' already exists."))
      writeActivityLog env (env.uuid 0) userId "category" body.id .created none
        (some (categoryFromRow (newCategoryRow env userId body name sortOrder)))
      return categoryFromRow (newCategoryRow env userId body name sortOrder) : Op Body).Relies R
        (fun _ => True) (fun _ l' _ => OwnTended u l') l' db' := by
    intro o l' db' hl'
    exact relies_raiseIf (fun _ => trivial) fun _ => relies_logged hl'
  refine relies_insertRow trivial (fun db₆ _ => hrest _ _ _ ?_)
    (fun l' db₆ hl' _ => hrest _ _ _ (ownTended_of_nil (by rw [hl', hown])))
    fun db₆ _ => hrest _ _ _ (ownTended_of_nil hown)
  rw [OwnTended, Local.own_write_same, hown, List.nil_append]
  intro r hr hu
  obtain rfl := List.mem_singleton.mp hr
  exact ⟨fun _ => Bool.eq_false_iff.mpr hreserved, fun h => absurd rfl h⟩

/-- The row that a request has looked at, as another row of its id. -/
def HasKey (id : Uuid) (k : Option SystemCategoryKey) (db : Db) : Prop :=
  ∃ r ∈ db.rows .categories, r.id = id ∧ r.systemKey = k

/-- An UPDATE of the category that was looked at: its system key is the one that
was seen, whatever has become of the rest of it. -/
theorem relies_updateCategoryRow {k : Option SystemCategoryKey} {w : Row .categories → Bool}
    {f : Change Row .categories} {β : Type} {g : Option (Row .categories) → Op β}
    {S : β → Loc → Db → Prop} (hR : ∀ {db db'}, R.later db db' → CategoriesKept u db db')
    (id : Uuid) (hw : ∀ r, w r = true → r.id = id)
    (hkey : ∀ r, (f.apply r).systemKey = r.systemKey)
    (hf : ∀ r, Tended u .categories r → r.systemKey = k → Tended u .categories (f.apply r))
    (hl : l.own .categories = []) (htends : Tends u db) (hrow : HasKey id k db)
    (hg : ∀ o l' db', OwnTended u l' → (g o).Relies R (fun _ => True) S l' db') :
    (updateRow .categories w f >>= g).Relies R (fun _ => True) S l db := by
  simp only [updateRow, LawfulMonad.bind_assoc, pure_bind]
  refine relies_updateWhere (A := fun own db => (∀ x ∈ own, Tended u .categories x) ∧
    (∀ x ∈ own, x.id = id → x.systemKey = k) ∧ Tends u db ∧ HasKey id k db) trivial ?_ ?_ ?_ ?_
  · rintro own db db' hdb ⟨hown, hownkey, ht, r, hr, hid, hk⟩
    obtain ⟨r', hr', hid', -, hk', -⟩ := (hR hdb).rows r hr
    exact ⟨hown, hownkey, (hR hdb).tends ht, r', hr', hid'.trans hid, hk'.trans hk⟩
  · rintro l db r ⟨hown, hownkey, ht, hrow⟩ hr hwr
    have hseen : Tended u .categories r ∧ r.systemKey = k := by
      rcases mem_overlay hr with hmem | ⟨hmem, -⟩
      · exact ⟨hown r hmem, hownkey r hmem (hw r hwr)⟩
      · obtain ⟨x, hx, hid, hk⟩ := hrow
        obtain rfl : r = x := Table.eq_of_key_eq hmem hx ((hw r hwr).trans hid.symm)
        exact ⟨ht .categories r hmem, hk⟩
    refine ⟨fun x hx => ?_, fun x hx hid => ?_, ht, hrow⟩
    · rcases List.mem_append.mp hx with hx | hx
      · exact hown x hx
      · rw [List.mem_singleton.mp hx]
        exact hf r hseen.1 hseen.2
    · rcases List.mem_append.mp hx with hx | hx
      · exact hownkey x hx hid
      · rw [List.mem_singleton.mp hx, hkey]
        exact hseen.2
  · rw [hl]
    exact ⟨List.forall_mem_nil _, List.forall_mem_nil _, htends, hrow⟩
  · intro rs l' db' hA _ _
    exact hg _ l' db' hA.1

/-- The row a fetch has found keeps its system key. -/
theorem hasKey_of_fetch (hR : ∀ {db db'}, R.later db db' → CategoriesKept u db db') {id : Uuid}
    {state : RowState} {row : Row .categories} (hl : l.own .categories = [])
    (hrow : ((l.view db).rows .categories).find? (owns .categories id userId state) = some row)
    (hdb : R.later db db') : HasKey id row.systemKey db' := by
  obtain ⟨hmem, hw⟩ := find?_row hrow
  rw [rows_view hl] at hmem
  obtain ⟨r', hr', hid, -, hkey, -⟩ := (hR hdb).rows row hmem
  simp only [owns, Bool.and_eq_true, decide_eq_true_eq] at hw
  exact ⟨r', hr', hid.trans hw.1.1, hkey⟩

theorem relies_deleteCategory (hR : ∀ {db db'}, R.later db db' → CategoriesKept u db db')
    {id : Uuid} (hl : l.own .categories = []) (htends : Tends u db) :
    (deleteCategory env userId id).Relies R (fun _ => True)
      (fun _ l' _ => OwnTended u l') l db := by
  unfold deleteCategory fetchOwnedRowOr404 fetchOwnedRow fetchRow
  rw [LawfulMonad.bind_assoc]
  refine relies_read fun db₁ n hdb₁ => relies_orRaise (fun _ => trivial) fun row hrow => ?_
  refine relies_raiseIf (fun _ => trivial) fun hplain => ?_
  refine relies_guard (writesOnly_read _ _) fun _ l₂ db₂ hl₂ hdb₂ => ?_
  refine relies_guard (by simp) fun _ l₃ db₃ hl₃ hdb₃ => ?_
  refine relies_guard (writesOnly_read _ _) fun _ l₄ db₄ hl₄ hdb₄ => ?_
  refine relies_guard (by simp) fun _ l₅ db₅ hl₅ hdb₅ => ?_
  have hlater : R.later db₁ db₅ := R.trans hdb₂ (R.trans hdb₃ (R.trans hdb₄ hdb₅))
  have hown : l₅.own .categories = [] := by rw [hl₅, hl₄, hl₃, hl₂, Local.own_saw, hl]
  have hid : row.id = id := ((owns_active (t := .categories)).mp (find?_row hrow).2).1
  have hnone : row.systemKey = none := by simpa using hplain
  simp only [softDeleteWithAudit, mutateWithAudit, softDelete]
  refine relies_updateCategoryRow hR id (k := none) ?_ (fun _ => rfl) ?_ hown
    ((hR (R.trans hdb₁ hlater)).tends htends) ?_ fun o l₆ db₆ hl₆ => ?_
  · intro r hw
    exact ((owns_either (t := .categories)).mp hw).1.trans hid
  · exact fun r hr hk hu => ⟨(hr hu).1, fun hsome => absurd hk hsome⟩
  · rw [← hnone]
    exact hasKey_of_fetch hR hl hrow hlater
  · exact relies_orRaise (fun _ => trivial) fun r hr => relies_logged hl₆

/-- A new name of a category without a system key is not a reserved one. -/
theorem relies_normalizeRename {id : Uuid} {rename : Option Text} {row : Row .categories} :
    (updateNamedResource.normalizeRename userId .categories "category" id rename checkCategoryName
      row).Relies R (fun _ => True) (fun name l' db' =>
        (∀ n, name = some n → row.systemKey = none → isReservedName n = false) ∧
          l'.own = l.own ∧ R.later db db') l db := by
  unfold updateNamedResource.normalizeRename
  cases rename with
  | none => exact relies_pure fun db' hdb => ⟨nofun, rfl, hdb⟩
  | some n =>
    refine relies_guard (by simp) fun name l₁ db₁ hl₁ hdb₁ => ?_
    have hrest : (row.systemKey = none → isReservedName name = false) → (do
        raiseIf ((← nameTaken .categories userId name (some id) anyRow) = true)
          (conflict ("A " ++ "category" ++ " named " ++ quoted name ++ " already exists."))
        return some name : Op (Option Text)).Relies R (fun _ => True) (fun name l' db' =>
          (∀ n, name = some n → row.systemKey = none → isReservedName n = false) ∧
            l'.own = l.own ∧ R.later db db') l₁ db₁ := by
      intro hplain
      refine relies_guard (by simp) fun _ l₂ db₂ hl₂ hdb₂ => ?_
      refine relies_raiseIf (fun _ => trivial) fun _ => relies_pure fun db₃ hdb₃ => ?_
      refine ⟨?_, hl₂.trans hl₁, R.trans hdb₁ (R.trans hdb₂ hdb₃)⟩
      rintro _ ⟨⟩
      exact hplain
    show Relies _ _ _ ((if row.systemKey.isNone then rejectReservedName name else pure ()) >>= _)
      _ _
    split
    · exact relies_raiseIf (fun _ => trivial) fun hfree =>
        hrest fun _ => Bool.eq_false_iff.mpr hfree
    · next hsome =>
      refine hrest fun hnone => absurd ?_ hsome
      rw [hnone]
      rfl

theorem relies_updateCategory (hR : ∀ {db db'}, R.later db db' → CategoriesKept u db db')
    {id : Uuid} {fields : CategoryFields} (hl : l.own .categories = []) (htends : Tends u db) :
    (updateCategory env userId id fields).Relies R (fun _ => True)
      (fun _ l' _ => OwnTended u l') l db := by
  unfold updateCategory updateNamedResource fetchOwnedRowOr404 fetchOwnedRow fetchRow
  rw [LawfulMonad.bind_assoc]
  refine relies_read fun db₁ n hdb₁ => relies_orRaise (fun _ => trivial) fun row hrow => ?_
  show Relies _ _ _ (if _ then _ else _) _ _
  split
  · exact relies_pure fun _ _ => ownTended_of_nil (by rw [Local.own_saw, hl])
  refine relies_guard (by simp) fun _ l₂ db₂ hl₂ hdb₂ => ?_
  refine Relies.bind (relies_normalizeRename.mono (fun _ he => he)
    fun name l₃ db₃ hnormal => ?_)
  obtain ⟨hname, hl₃, hdb₃⟩ := hnormal
  have hlater : R.later db₁ db₃ := R.trans hdb₂ hdb₃
  have hown : l₃.own .categories = [] := by rw [hl₃, hl₂, Local.own_saw, hl]
  unfold dynamicUpdate
  refine relies_updateCategoryRow hR id (k := row.systemKey) ?_ (fun _ => rfl) ?_ hown
    ((hR (R.trans hdb₁ hlater)).tends htends) (hasKey_of_fetch hR hl hrow hlater)
    fun o l₄ db₄ hl₄ => ?_
  · exact fun r hw => ((owns_active (t := .categories)).mp hw).1
  · intro r hr hk hu
    refine ⟨fun hnone => ?_, (hr hu).2⟩
    cases name with
    | none => exact (hr hu).1 hnone
    | some n => exact hname n rfl (hk.symm.trans hnone)
  · exact relies_orRaise (fun _ => trivial) fun r hr => relies_logged hl₄

end Categories

/-! ### Opening balances -/

/-- The error is neither of the two that the seeding can raise. -/
def SeedSafe (e : AppError) : Prop := ∀ key, e ≠ seedSquatted key ∧ e ≠ seedRaced

omit [Platform] in
theorem seedSafe_of_statusCode {e : AppError} (h : e.statusCode ≠ 409) : SeedSafe e := by
  intro key
  constructor
  · rintro rfl
    exact h rfl
  · rintro rfl
    exact h rfl

omit [Platform] in
/-- The first letters of the two messages. -/
theorem seedSafe_conflict {start : List Char} (rest : String) (hlength : 3 ≤ start.length)
    (hsquatted : start.take 3 ≠ ['A', ' ', 'c']) (hraced : start.take 3 ≠ ['S', 'y', 's']) :
    SeedSafe (conflict (String.ofList start ++ rest)) := by
  have hstart : ∀ {e}, conflict (String.ofList start ++ rest) = e → start.take 3 =
      e.message.toList.take 3 := by
    rintro _ rfl
    rw [conflict, String.toList_append, String.toList_ofList,
      List.take_append_of_le_length hlength]
  intro key
  constructor
  · intro h
    refine hsquatted ((hstart h).trans ?_)
    show ((String.ofList ('A' :: ' ' :: 'c' :: _) ++ _ ++ _).toList).take 3 = _
    rw [String.append_assoc, String.toList_append, String.toList_ofList]
    rfl
  · intro h
    refine hraced ((hstart h).trans ?_)
    show (String.ofList ('S' :: 'y' :: 's' :: _)).toList.take 3 = _
    rw [String.toList_ofList]
    rfl

/-- A failure that is not one of the seeding. -/
def SeedSafeFailure : Failure AppError → Prop
  | .raised e => SeedSafe e
  | .database => True

omit [Platform] in
theorem handlerErrors_seedSafe (hnull : c.request.nonNullable = []) :
    HandlerErrors SeedSafeFailure c where
  database := trivial
  internal := seedSafe_of_statusCode (by decide)
  reused := seedSafe_conflict _ (by decide) (by decide) (by decide)
  notReplayable := by
    show SeedSafe (conflict (_ ++ _ ++ _))
    rw [String.append_assoc]
    exact seedSafe_conflict _ (by decide) (by decide) (by decide)
  nulls e he := by
    rw [hnull] at he
    cases he

theorem raises_validateActiveAccount {a : Uuid} :
    (validateActiveAccount a userId).Raises SeedSafe :=
  Raises.bind (raises_read _ _) fun _ => raises_orRaise fun _ => seedSafe_of_statusCode (by simp
    [validationError])

theorem raises_syncIfAny {parentId : Uuid} {ids : List Uuid} {source : TransactionSource} :
    (syncIfAny env parentId userId ids source).Raises SeedSafe := by
  have hcascade : (cascadeDelete env userId parentId source ids).Raises SeedSafe :=
    Raises.bind (raises_updateWhere _ _ _ _) fun _ => trivial
  unfold syncIfAny syncHashtags
  split
  · trivial
  · split
    · exact hcascade
    · refine Raises.bind (Raises.bind (raises_read _ _) fun _ => trivial) fun valid => ?_
      refine Raises.bind (raises_raiseIf fun _ => seedSafe_of_statusCode (by simp
        [validationError])) fun _ => ?_
      exact Raises.bind hcascade fun _ => raises_upsertEach

theorem raises_createTransaction {body : TransactionCreateRequest} {allowSystemCategory : Bool} :
    (createTransaction env userId body allowSystemCategory).Raises SeedSafe := by
  have hvalidation : ∀ message fields, SeedSafe (validationError message fields) :=
    fun _ _ => seedSafe_of_statusCode (by simp [validationError])
  refine Raises.bind (raises_pure _) fun now => ?_
  refine Raises.bind (raises_raiseIf fun _ => hvalidation _ _) fun _ => ?_
  refine Raises.bind raises_validateActiveAccount fun _ => ?_
  refine Raises.bind (Raises.bind (raises_read _ _) fun _ => raises_orRaise fun _ =>
    hvalidation _ _) fun category => ?_
  refine Raises.bind (raises_raiseIf fun _ => hvalidation _ _) fun _ => ?_
  refine Raises.bind (Raises.bind (raises_insertRow _ _) fun o => Raises.bind
    (raises_raiseIf fun _ => ?_) fun _ => trivial) fun row => ?_
  · rw [String.append_assoc]
    exact seedSafe_conflict _ (by decide) (by decide) (by decide)
  refine Raises.bind raises_syncIfAny fun _ => ?_
  refine Raises.bind (Raises.bind (raises_read _ _) fun _ => trivial) fun _ => ?_
  exact Raises.bind (raises_insertOrAbort _ _) fun _ => trivial

theorem writesOnly_createTransaction {W : Tbl → Prop} (htransactions : W .transactions)
    (hlinks : W .transactionHashtags) (hlog : W .activityLog) {body : TransactionCreateRequest}
    {allowSystemCategory : Bool} :
    (createTransaction env userId body allowSystemCategory).WritesOnly W := by
  refine WritesOnly.bind (by simp) fun now => WritesOnly.bind (by simp) fun _ => ?_
  refine WritesOnly.bind (by simp) fun _ => WritesOnly.bind (by simp) fun category => ?_
  refine WritesOnly.bind (by simp) fun _ => WritesOnly.bind ?_ fun row => ?_
  · exact WritesOnly.bind (writesOnly_insertRow htransactions) fun o =>
      WritesOnly.bind (by simp) fun _ => trivial
  · refine WritesOnly.bind (writesOnly_syncIfAny hlinks) fun _ => ?_
    refine WritesOnly.bind (by simp) fun _ => ?_
    exact WritesOnly.bind (writesOnly_insertOrAbort hlog) fun _ => trivial

theorem relies_createOpeningBalance {mine : Uuid → Prop} {l : Loc} {accountId : Uuid}
    {body : OpeningBalanceRequest} (hlower : LowersAgree) (hcategories : l.own .categories = [])
    (husers : l.own .users = []) (huser : ∃ x ∈ db.rows .users, x.id = u) (htends : Tends u db)
    (hmine : mine (env.uuid 1)) (hfresh : ∀ r ∈ db.rows .categories, r.id ≠ env.uuid 1) :
    (createOpeningBalance env u accountId body).Relies (seedingRely u mine) SeedSafeFailure
      (fun _ l' _ => OwnTended u l') l db := by
  unfold createOpeningBalance
  refine Relies.guard (by simp) raises_validateActiveAccount trivial fun _ l₁ db₁ hl₁ hdb₁ => ?_
  refine relies_raiseIf (fun _ => seedSafe_of_statusCode (by simp [validationError])) fun _ => ?_
  refine relies_read fun db₂ n hdb₂ => ?_
  refine relies_raiseIf (fun _ => ?_) fun _ => ?_
  · exact seedSafe_conflict _ (by decide) (by decide) (by decide)
  have hlater := (seedingRely u mine).trans hdb₁ hdb₂
  have hafter := seed_conditions huser htends hmine hfresh hlater
  refine Relies.bind ((relies_ensureSystemCategory hlower ?_ ?_ hafter.2.1 hafter.1 hmine
    hafter.2.2).mono (fun _ he => he.elim) fun id l₃ db₃ h₃ => ?_)
  · rw [Local.own_saw, hl₁, hcategories]
  · rw [Local.own_saw, hl₁, husers]
  · exact Relies.last (W := (· ≠ .categories))
      (writesOnly_createTransaction (by simp) (by simp) (by simp)) raises_createTransaction trivial
      fun _ l₄ _ hown _ => OwnTended.congr h₃.2.1 (hown .categories (by simp))

theorem relies_opens {mine : Uuid → Prop} (hlower : LowersAgree) {accountId : Uuid}
    {body : OpeningBalanceRequest} (hreq : c.request = .createOpeningBalance accountId body)
    (huser : ∃ x ∈ db.rows .users, x.id = c.userId) (htends : Tends c.userId db)
    (hmine : mine (c.env.uuid 1)) (hfresh : ∀ r ∈ db.rows .categories, r.id ≠ c.env.uuid 1) :
    c.handle.Relies (seedingRely c.userId mine) SeedSafeFailure
      (fun _ l' _ => OwnTended c.userId l') .init db := by
  refine relies_handle (handlerErrors_seedSafe (by rw [hreq]; rfl)) rfl fun l' db' hl' hdb => ?_
  have hafter := seed_conditions huser htends hmine hfresh hdb
  rw [hreq]
  exact relies_createOpeningBalance hlower (hl' _) (hl' _) hafter.2.1 hafter.1 hmine hafter.2.2

/-! ### All calls -/

omit [Platform] in
theorem handlerErrors_true : HandlerErrors (fun _ => True) c :=
  ⟨trivial, trivial, trivial, trivial, fun _ _ => trivial⟩

theorem tended_of_proposes {t : Tbl} {r : Row t} (hc : c.request.editsCategory = false)
    (h : c.Proposes t r) : Tended u t r := by
  rcases h with h | h
  · cases t <;> first | exact h.elim | trivial
  · generalize hreq : c.request = request at h hc
    cases h with
    | category => cases hc
    | systemCategory => exact fun _ => ⟨nofun, fun _ => rfl⟩
    | _ => trivial

theorem tended_of_updates {t : Tbl} {r r' : Row t} (hc : c.request.editsCategory = false)
    (hr : Tended u t r) (h : c.Updates t r r') : Tended u t r' := by
  unfold Call.Updates at h
  generalize hreq : c.request = request at h hc
  cases h with
  | categoryUpdated => cases hc
  | categoryDeleted => cases hc
  | categoryRestored => exact fun hu => ⟨(hr hu).1, fun _ => rfl⟩
  | _ => trivial

/-- Whatever a call writes keeps the categories of the user. -/
theorem relies_call (hR : ∀ {db db'}, R.later db db' → CategoriesKept u db db') {l : Loc}
    (hl : ∀ t, l.own t = []) (htends : Tends u db) :
    c.handle.Relies R (fun _ => True) (fun _ l' _ => OwnTended u l') l db := by
  cases hc : c.request.editsCategory with
  | false =>
    refine (relies_of_rewrites (A := Tended u) (handle_rewrites c)
      (fun t r => tended_of_proposes hc) (fun t r r' => tended_of_updates hc)
      (fun hdb => (hR hdb).tends) htends ?_).mono (fun _ he => he) fun _ l' _ h => h .categories
    intro t r hr
    rw [hl t] at hr
    cases hr
  | true =>
    refine relies_handle handlerErrors_true (hl .categories) fun l' db' hl' hdb => ?_
    have hown : l'.own .categories = [] := (hl' .categories).trans (hl .categories)
    have htends' := (hR hdb).tends htends
    generalize c.request = request at hc
    cases request with
    | createCategory body => exact relies_createCategory hown
    | updateCategory id body => exact relies_updateCategory hR hown htends'
    | deleteCategory id => exact relies_deleteCategory hR hown htends'
    | _ => cases hc

end Handlers

end SeedingLemmas

/-! ## Parties -/

/-- What runs beside others: a call of the API, or a seeding on its own. -/
inductive Actor where
  | call (c : Call)
  | ensure (env : Env) (userId : Uuid) (key : SystemCategoryKey)

def Actor.prog : Actor → Op (Reply ⊕ Uuid)
  | .call c => .inl <$> c.handle
  | .ensure env userId key => .inr <$> ensureSystemCategory env userId key

/-- The ids drawn for seeds. -/
def Actor.seeds : Actor → List Uuid
  | .call c =>
    match c.request with
    | .createOpeningBalance _ _ => [c.env.uuid 1]
    | _ => []
  | .ensure env _ _ => [env.uuid 1]

/-- The ids of the categories that the actor may insert. -/
def Actor.newCategories : Actor → List Uuid
  | .call c =>
    match c.request with
    | .createCategory body => [body.id]
    | .createOpeningBalance _ _ => [c.env.uuid 1]
    | _ => []
  | .ensure env _ _ => [env.uuid 1]

/-- No two draws of `uuid4` give one id, and none gives an id that is in use. -/
structure DrawsApart {ι : Type} (db : Db) (actors : ι → Actor) : Prop where
  unused : ∀ i, ∀ id ∈ (actors i).seeds, ∀ r ∈ db.rows .categories, r.id ≠ id
  apart : ∀ i j, i ≠ j → ∀ id ∈ (actors i).seeds, id ∉ (actors j).newCategories

/-- The rows an actor may insert. -/
def Actor.Proposes : Actor → (t : Tbl) → Row t → Prop
  | .call c, t, r => c.Proposes t r
  | .ensure env userId key, .categories, r => r = newSystemCategoryRow env userId key
  | _, _, _ => False

/-- What an actor may make of one row. -/
def Actor.Updates : Actor → (t : Tbl) → Row t → Row t → Prop
  | .call c => c.Updates
  | .ensure _ _ _ => fun _ _ _ => False

namespace SeedingLemmas

theorem actor_rewrites (a : Actor) : a.prog.Rewrites a.Proposes a.Updates := by
  cases a with
  | call c =>
    rw [Actor.prog, map_eq_pure_bind]
    exact rewrites_bind (handle_rewrites c) fun _ => trivial
  | ensure env userId key =>
    rw [Actor.prog, map_eq_pure_bind]
    refine rewrites_bind (rewrites_guard readOnly_fetchRow fun found => ?_) fun _ => trivial
    cases found with
    | some row => trivial
    | none =>
      refine rewrites_bind (rewrites_insertOrSkip rfl) fun o => ?_
      cases o with
      | inserted => trivial
      | violation => trivial
      | skipped =>
        exact rewrites_guard readOnly_fetchRow fun row =>
          rewrites_guard (by simp) fun _ => trivial

theorem mem_newCategories {a : Actor} {r : Row .categories} (h : a.Proposes .categories r) :
    r.id ∈ a.newCategories := by
  cases a with
  | call c =>
    rcases h with h | h
    · exact h.elim
    · rw [Actor.newCategories]
      generalize c.request = request at h
      cases h with
      | category => exact List.mem_singleton_self _
      | systemCategory => exact List.mem_singleton_self _
  | ensure env userId key =>
    obtain rfl : r = newSystemCategoryRow env userId key := h
    exact List.mem_singleton_self _

theorem updates_columns {r r' : Row .categories}
    (h : ExpenseEngine.Updates env userId request .categories r r') :
    r'.userId = r.userId ∧ r'.systemKey = r.systemKey := by
  cases h <;> exact ⟨rfl, rfl⟩

/-- No statement changes the owner or the system key of a category. -/
theorem columns_of_updates {a : Actor} {r r' : Row .categories}
    (h : Relation.ReflTransGen (a.Updates .categories) r r') :
    r'.userId = r.userId ∧ r'.systemKey = r.systemKey := by
  induction h with
  | refl => exact ⟨rfl, rfl⟩
  | tail _ hstep ih =>
    cases a with
    | ensure => exact hstep.elim
    | call c =>
      obtain ⟨hu, hkey⟩ := updates_columns hstep
      exact ⟨hu.trans ih.1, hkey.trans ih.2⟩

/-! ### The commits -/

section Commits

variable {ι : Type} [DecidableEq ι] {actors : ι → Actor}
  {s : Sql.State Row Label AppError (Reply ⊕ Uuid) ι} {i : ι} {a : Reply ⊕ Uuid}

/-- A commit whose own rows keep the categories of the user keeps them. -/
theorem kept_commit_categories (hs : Sound (fun i => (actors i).prog) s)
    (hp : (s.party i).phase = .running (.ret a)) (hown : OwnTended u (s.party i).loc) :
    CategoriesKept u s.db (s.commit i a).db := by
  have hi : (s.party i).isRunning = true := by rw [Party.isRunning, hp]
  have hruns := (hs.trace i).running _ hp _ _ ⟨rfl, rfl⟩
  have hrooted := runs_rooted (actor_rewrites (actors i)) hruns
    (rooted_of_blank (fun _ => rfl) fun _ => rfl)
  constructor
  · intro r hr
    have hfind := Table.mem_rows_iff.mp hr
    obtain ⟨x, hx⟩ := Option.isSome_iff_exists.mp
      (find?_overlay_isSome (find?_isSome_of_mem hr) :
        ((overlay (s.party i).loc.own s.db .categories).find? _).isSome)
    have hid : x.id = r.id := Table.key_of_find? hx
    have hmem := Table.mem_of_find? hx
    refine ⟨x, hmem, hid, ?_⟩
    rcases mem_overlay hmem with hmine | ⟨hmem, -⟩
    · -- the party has locked the row that it wrote, and that is the committed one
      obtain ⟨h, hheld, hkey⟩ : ∃ h ∈ (s.party i).loc.held .categories,
          Schema.key Tbl.categories h = Schema.key Tbl.categories x := by
        refine ((hs.anchored i hi).own .categories x hmine).resolve_right fun hnone => ?_
        rw [show Schema.key Tbl.categories x = Schema.key Tbl.categories r from hid, hfind] at hnone
        cases hnone
      have hcommitted := (hs.anchored i hi).held .categories h hheld
      obtain rfl : h = r := by
        rw [show Schema.key Tbl.categories h = Schema.key Tbl.categories r from hkey.trans hid,
          hfind] at hcommitted
        exact (Option.some.inj hcommitted).symm
      obtain ⟨hu, hsystem⟩ :=
        columns_of_updates (hrooted.rewritten .categories x hmine h hheld hkey)
      refine ⟨hu, hsystem, fun hu' hsome _ => (hown x hmine (hu.trans hu')).2 ?_⟩
      rwa [hsystem]
    · obtain rfl : x = r := Table.eq_of_key_eq hmem hr hid
      exact ⟨rfl, rfl, fun _ _ h => h⟩
  · intro x hx
    obtain ⟨x', hx'⟩ := Option.isSome_iff_exists.mp
      (find?_overlay_isSome (find?_isSome_of_mem hx) :
        ((overlay (s.party i).loc.own s.db .users).find? _).isSome)
    exact ⟨x', Table.mem_of_find? hx', Table.key_of_find? hx'⟩
  · intro htends t r hr
    rcases mem_overlay hr with hmine | ⟨hmem, -⟩
    · cases t with
      | categories => exact hown r hmine
      | _ => trivial
    · exact htends t r hmem

/-- A commit brings in no category but those that the actor may insert. -/
theorem new_commit_categories (hs : Sound (fun i => (actors i).prog) s)
    (hp : (s.party i).phase = .running (.ret a)) {r : Row .categories}
    (hr : r ∈ (s.commit i a).db.rows .categories) :
    (∃ x ∈ s.db.rows .categories, x.id = r.id) ∨ r.id ∈ (actors i).newCategories := by
  have hi : (s.party i).isRunning = true := by rw [Party.isRunning, hp]
  have hruns := (hs.trace i).running _ hp _ _ ⟨rfl, rfl⟩
  have hderived := runs_rewrites (actor_rewrites (actors i)) hruns (derived_of_blank fun _ => rfl)
  rcases mem_overlay hr with hmine | ⟨hmem, -⟩
  · rcases hderived .categories r hmine with ⟨h, hheld, hkey, -⟩ | ⟨x, hx, hkey, -⟩
    · have hcommitted := (hs.anchored i hi).held .categories h hheld
      exact .inl ⟨h, Table.mem_of_find? hcommitted, hkey⟩
    · right
      rw [← show x.id = r.id from hkey]
      exact mem_newCategories hx
  · exact .inl ⟨r, hmem, rfl⟩

end Commits

end SeedingLemmas

/-! ## The contract -/

/-- How an actor may fail: a seeding for the user in no way, an opening balance
of the user with neither error of the seeding. -/
def Actor.fails (u : Uuid) : Actor → Failure AppError → Prop
  | .call c, e =>
    c.userId = u → (∃ accountId body, c.request = .createOpeningBalance accountId body) →
      SeedSafeFailure e
  | .ensure _ userId _, _ => userId ≠ u

/-- A seeding for the user has answered with the id of the system category. -/
def Actor.answers (u : Uuid) : Actor → Reply ⊕ Uuid → Db → Prop
  | .call _, _, _ => True
  | .ensure _ userId key, a, db =>
    userId = u → ∃ r ∈ db.rows .categories, a = .inr r.id ∧ isSystemCategory u key r = true

/-- What the parties of a race promise each other, from the state `base` on. -/
def seedingContract {ι : Type} (u : Uuid) (base : Db) (actors : ι → Actor) :
    Contract Row Label AppError (Reply ⊕ Uuid) ι where
  R i := seedingRely u fun id => id ∈ (actors i).seeds
  E i := (actors i).fails u
  Q i a l db := OwnTended u l ∧ (actors i).answers u a (l.view db)
  C i a db := (actors i).answers u a db
  J db := CategoriesKept u base db ∧ Tends u db

section Contract

variable {ι : Type} [DecidableEq ι] {actors : ι → Actor} {base : Db}

theorem seeding_guaranteed (hapart : ∀ i j, i ≠ j → ∀ id ∈ (actors i).seeds,
    id ∉ (actors j).newCategories) :
    (seedingContract u base actors).Guaranteed fun i => (actors i).prog where
  commit s i a hs hJ hp hQ := by
    have hkept := kept_commit_categories hs hp hQ.1
    refine ⟨⟨hJ.1.trans hkept, hkept.tends hJ.2⟩, hQ.2, fun j hj => ⟨hkept, fun r hr hmine => ?_⟩⟩
    exact (new_commit_categories hs hp hr).resolve_right (hapart j i hj _ hmine)
  stable i a db db' hdb ha := by
    show (actors i).answers u a db'
    change (actors i).answers u a db at ha
    cases hactor : actors i with
    | call c => trivial
    | ensure env userId key =>
      rw [hactor] at ha
      rintro rfl
      obtain ⟨r, hr, rfl, hsystem⟩ := ha rfl
      obtain ⟨r', hr', hid, hsystem'⟩ := hdb.1.system hr hsystem
      exact ⟨r', hr', by rw [hid], hsystem'⟩

omit [DecidableEq ι] in
/-- Every actor keeps its part of the contract. -/
theorem relies_actor (hlower : LowersAgree) (huser : ∃ x ∈ db.rows .users, x.id = u)
    (htends : Tends u db) {i : ι}
    (hunused : ∀ id ∈ (actors i).seeds, ∀ r ∈ db.rows .categories, r.id ≠ id) :
    ((actors i).prog).Relies ((seedingContract u base actors).R i)
      ((seedingContract u base actors).E i) ((seedingContract u base actors).Q i) .init db := by
  show ((actors i).prog).Relies (seedingRely u fun id => id ∈ (actors i).seeds)
    ((actors i).fails u) (fun a l db => OwnTended u l ∧ (actors i).answers u a (l.view db)) .init db
  generalize actors i = actor at hunused
  cases actor with
  | call c =>
    have hhandle : c.handle.Relies (seedingRely u fun id => id ∈ (Actor.call c).seeds)
        ((Actor.call c).fails u) (fun _ l' _ => OwnTended u l') .init db := by
      by_cases hopens : c.userId = u ∧
          ∃ accountId body, c.request = .createOpeningBalance accountId body
      · obtain ⟨rfl, accountId, body, hreq⟩ := hopens
        have hmine : c.env.uuid 1 ∈ (Actor.call c).seeds := by
          rw [Actor.seeds, hreq]
          exact List.mem_singleton_self _
        exact (relies_opens hlower hreq huser htends hmine (hunused _ hmine)).mono
          (fun _ he _ _ => he) fun _ _ _ h => h
      · exact (relies_call (R := seedingRely u _) (fun hdb => hdb.1) (fun _ => rfl) htends).mono
          (fun _ _ hu hreq => absurd ⟨hu, hreq⟩ hopens) fun _ _ _ h => h
    exact Relies.map (hhandle.mono (fun _ he => he) fun _ _ _ hown => ⟨hown, trivial⟩)
  | ensure env userId key =>
    by_cases hu : userId = u
    · subst hu
      have hmine : env.uuid 1 ∈ (Actor.ensure env userId key).seeds := List.mem_singleton_self _
      refine Relies.map ((relies_ensureSystemCategory hlower rfl rfl huser htends hmine
        (hunused _ hmine)).mono (fun _ he => he.elim) fun id l' db' hpost => ?_)
      obtain ⟨-, hown, r, hr, rfl, hsystem⟩ := hpost
      exact ⟨hown, fun _ => ⟨r, hr, rfl, hsystem⟩⟩
    · refine (relies_of_rewrites (R := seedingRely u _) (A := Tended u)
        (actor_rewrites (.ensure env userId key)) ?_ (fun _ _ _ _ h => h.elim)
        (fun hdb => hdb.1.tends) htends (fun t r hr => by cases hr)).mono
        (fun _ _ => hu) fun _ _ _ hown => ⟨hown .categories, fun h => absurd h hu⟩
      intro t r hr
      cases t with
      | categories =>
        obtain rfl : r = newSystemCategoryRow env userId key := hr
        exact fun _ => ⟨nofun, fun _ => rfl⟩
      | _ => trivial

end Contract

/-! ## Seedable -/

/-- A user has at most one system category of a key, which is not deleted, and no
other category of the user holds its name in any letter case. -/
structure Seedable (u : Uuid) (db : Db) : Prop where
  single : ∀ key, ∀ r ∈ db.rows .categories, ∀ r' ∈ db.rows .categories,
    isSystemCategory u key r = true → isSystemCategory u key r' = true → r = r'
  undeleted : ∀ r ∈ db.rows .categories, r.userId = u → r.systemKey ≠ none → r.deletedAt = none
  plain : ∀ r ∈ db.rows .categories, r.userId = u → r.systemKey = none → ∀ key,
    Platform.lower r.name ≠ Platform.lower (systemCategoryDefaultName key) ∧
      Platform.pyLower r.name ≠ Platform.pyLower (systemCategoryDefaultName key)

/-- Every system category of the user is there in the later state. -/
def SystemsStay (u : Uuid) (db db' : Db) : Prop :=
  ∀ key, ∀ r ∈ db.rows .categories, isSystemCategory u key r = true →
    ∃ r' ∈ db'.rows .categories, r'.id = r.id ∧ isSystemCategory u key r' = true

/-- What the seedings for a user and the opening balances of the user come to. -/
structure SeedsAnswer {ι : Type} [Fintype ι] [DecidableEq ι] (u : Uuid) (actors : ι → Actor)
    (s : Sql.State Row Label AppError (Reply ⊕ Uuid) ι) : Prop where
  answered : ∀ i env key a, actors i = .ensure env u key → (s.party i).phase = .committed a →
    ∃ r ∈ s.db.rows .categories, a = .inr r.id ∧ isSystemCategory u key r = true
  neverFails : ∀ i env key e, actors i = .ensure env u key → (s.party i).phase ≠ .failed e
  neverRaised : ∀ i c accountId body e, actors i = .call c → c.userId = u →
    c.request = .createOpeningBalance accountId body → (s.party i).phase = .failed (.raised e) →
      SeedSafe e
  ends : ∀ i env key, actors i = .ensure env u key → (s.party i).isRunning = true → s.Alone i →
    ∃ n a, ((s.run (List.replicate n (.act i))).party i).phase = .committed a

namespace SeedingLemmas

/-- The categories of one user. -/
def CategoryOf (u : Uuid) : (t : Tbl) → Row t → Prop
  | .categories, (r : CategoryRow) => r.userId = u
  | _, _ => False

theorem view_init (db : Db) : (Local.init : Loc).view db = db := rfl

theorem systemsStay_of_kept (h : CategoriesKept u db db') : SystemsStay u db db' :=
  fun _ _ hr hsystem => h.system hr hsystem

/-- The writes of a party keep the categories of the user. -/
theorem tends_view {l : Loc} (hown : OwnTended u l) (h : Tends u db) : Tends u (l.view db) := by
  intro t r hr
  rcases mem_overlay hr with hmine | ⟨hmem, -⟩
  · cases t with
    | categories => exact hown r hmine
    | _ => trivial
  · exact h t r hmem

end SeedingLemmas

/-- What every state of a run has. -/
structure Prepared (u : Uuid) (db : Db) : Prop where
  user : ∃ x ∈ db.rows .users, x.id = u
  tends : Tends u db
  unclashed : Unclashed (CategoryOf u) db

theorem Prepared.of_none (huser : ∃ x ∈ db.rows .users, x.id = u)
    (hnone : ∀ r ∈ db.rows .categories, r.userId ≠ u) : Prepared u db where
  user := huser
  tends t r hr := by
    cases t with
    | categories => exact fun hu => absurd hu (hnone r hr)
    | _ => trivial
  unclashed t x hx y hy hxu := by
    cases t with
    | categories => exact absurd hxu (hnone x hx)
    | _ => exact hxu.elim

theorem Prepared.seedable (h : Prepared u db) (hlower : LowersAgree) : Seedable u db where
  single key r hr r' hr' hsystem hsystem' := by
    by_contra hne
    obtain ⟨hu, hkey, hd⟩ := of_decide_eq_true hsystem
    obtain ⟨hu', hkey', hd'⟩ := of_decide_eq_true hsystem'
    have hclash := h.unclashed .categories r hr r' hr' hu hu' fun hid =>
      hne (Table.eq_of_key_eq hr hr' hid)
    refine absurd (of_decide_eq_false hclash) (not_not_intro ?_)
    exact ⟨hd, hd', hu.trans hu'.symm, .inr ⟨by rw [hkey]; nofun, hkey.trans hkey'.symm⟩⟩
  undeleted r hr hu hsome := (h.tends .categories r hr hu).2 hsome
  plain r hr hu hnone key := by
    have hfree : Platform.pyLower r.name ≠ Platform.pyLower (systemCategoryDefaultName key) := by
      have hreserved := (h.tends .categories r hr hu).1 hnone
      cases key
      exact of_decide_eq_false hreserved
    exact ⟨fun heq => hfree (hlower key r.name heq), hfree⟩

theorem Tends.step (h : Tends u db) (c : Call) : Tends u (step db c) := by
  rw [ExpenseEngine.step]
  split
  · next he =>
    have hrelies := relies_call (u := u) (R := seedingRely u fun _ => False) (c := c) (l := .init)
      (fun hdb => hdb.1) (fun _ => rfl) h
    rw [← view_init db] at he
    obtain ⟨l', rfl, hown⟩ := hrelies.exec_ok he
    exact tends_view hown h
  · exact h

theorem Prepared.step (h : Prepared u db) (c : Call) : Prepared u (step db c) where
  user := by
    obtain ⟨x, hx, rfl⟩ := h.user
    obtain ⟨x', hx', hkey, -⟩ := step_kept c hx
    exact ⟨x', hx', hkey⟩
  tends := h.tends.step c
  unclashed := by
    rw [ExpenseEngine.step]
    split
    · next he => exact exec_unclashed clash_symm he h.unclashed
    · exact h.unclashed

theorem Prepared.run (h : Prepared u db) (calls : List Call) : Prepared u (run db calls) :=
  run_invariant (fun _ c hdb _ => hdb.step c) h (along_true db calls)

theorem Prepared.systemsStay (h : Prepared u db) (c : Call) :
    SystemsStay u db (ExpenseEngine.step db c) := by
  intro key r hr hsystem
  obtain ⟨hu, hkey, -⟩ := of_decide_eq_true hsystem
  obtain ⟨r', hr', hid, hu', hkey'⟩ := step_kept_of (c := c) (P := fun r r' : Row .categories =>
    r'.userId = r.userId ∧ r'.systemKey = r.systemKey) (fun _ => ⟨rfl, rfl⟩)
    (fun h h' => ⟨h'.1.trans h.1, h'.2.trans h.2⟩) (fun _ _ => updates_columns) hr
  have hd := ((h.step c).tends .categories r' hr' (hu'.trans hu)).2
    (by rw [hkey', hkey]; nofun)
  exact ⟨r', hr', hid, decide_eq_true ⟨hu'.trans hu, hkey'.trans hkey, hd⟩⟩

/-- A seeding that runs alone answers with the id of the one system category. -/
theorem Prepared.ensure (h : Prepared u db) (key : SystemCategoryKey) (hlower : LowersAgree)
    (hfresh : ∀ r ∈ db.rows .categories, r.id ≠ env.uuid 1) :
    ∃ r db', exec (ensureSystemCategory env u key) db = .ok (r.id, db') ∧
      r ∈ db'.rows .categories ∧ isSystemCategory u key r = true ∧ Prepared u db' := by
  have hrelies : (ensureSystemCategory env u key).Relies (seedingRely u (· = env.uuid 1)) _ _ .init
      db := relies_ensureSystemCategory hlower rfl rfl h.user h.tends rfl hfresh
  cases he : exec (ensureSystemCategory env u key) db with
  | error e =>
    rw [← view_init db] at he
    exact (hrelies.exec_error he).elim
  | ok x =>
    obtain ⟨id, db'⟩ := x
    have hunclashed := exec_unclashed clash_symm he h.unclashed
    rw [← view_init db] at he
    obtain ⟨l', rfl, hother, hown, r, hr, rfl, hsystem⟩ := hrelies.exec_ok he
    refine ⟨r, _, rfl, hr, hsystem, ?_, tends_view hown h.tends, hunclashed⟩
    obtain ⟨x, hx, hid⟩ := h.user
    exact ⟨x, by rwa [rows_view (hother .users (by simp))], hid⟩

/-- An opening balance that runs alone raises neither error of the seeding. -/
theorem Prepared.opens {c : Call} {accountId : Uuid} {body : OpeningBalanceRequest} {e : AppError}
    (h : Prepared c.userId db) (hlower : LowersAgree)
    (hreq : c.request = .createOpeningBalance accountId body)
    (hfresh : ∀ r ∈ db.rows .categories, r.id ≠ c.env.uuid 1)
    (he : exec c.handle db = .error (.raised e)) : SeedSafe e := by
  rw [← view_init db] at he
  have hrelies : c.handle.Relies (seedingRely c.userId (· = c.env.uuid 1)) _ _ .init db :=
    relies_opens hlower hreq h.user h.tends rfl hfresh
  exact hrelies.exec_error he

/-! ## Races -/

section Race

variable {ι : Type} {actors : ι → Actor}
  {s : Sql.State Row Label AppError (Reply ⊕ Uuid) ι}

namespace SeedingLemmas

theorem relying_start (h : Prepared u db) (hlower : LowersAgree) (hactors : DrawsApart db actors) :
    Relying (seedingContract u db actors) (State.start db fun i => (actors i).prog) :=
  Relying.start ⟨.refl db, h.tends⟩ fun i =>
    relies_actor hlower h.user h.tends (hactors.unused i)

/-- The contract from a later state on. -/
theorem relying_rebase {base : Db} (h : Relying (seedingContract u base actors) s) :
    Relying (seedingContract u s.db actors) s where
  always := ⟨.refl s.db, h.always.2⟩
  running := h.running
  committed := h.committed
  failed := h.failed

variable [Fintype ι] [DecidableEq ι]

theorem seedsAnswer_of_relying {base : Db} (hs : Sound (fun i => (actors i).prog) s)
    (hactors : ∀ i j, i ≠ j → ∀ id ∈ (actors i).seeds, id ∉ (actors j).newCategories)
    (h : Relying (seedingContract u base actors) s) : SeedsAnswer u actors s where
  answered i env key a hi hp := by
    have hanswer : (actors i).answers u a s.db := h.committed i a hp
    rw [hi] at hanswer
    exact hanswer rfl
  neverFails i env key e hi hp := by
    have hfails : (actors i).fails u e := h.failed i e hp
    rw [hi] at hfails
    exact hfails rfl
  neverRaised i c accountId body e hi hu hreq hp := by
    have hfails : (actors i).fails u (.raised e) := h.failed i _ hp
    rw [hi] at hfails
    exact hfails hu ⟨accountId, body, hreq⟩
  ends i env key hi hrunning halone := by
    obtain ⟨p, hp⟩ : ∃ p, (s.party i).phase = .running p := by
      rw [Party.isRunning] at hrunning
      split at hrunning
      · next p hp => exact ⟨p, hp⟩
      · cases hrunning
    obtain ⟨n, ⟨a, hcommitted⟩ | ⟨e, hfailed⟩⟩ := halone.finishes hp
    · exact ⟨n, a, hcommitted⟩
    · have hlater := h.run (seeding_guaranteed hactors) hs (List.replicate n (.act i))
      have hfails : (actors i).fails u e := hlater.failed i e hfailed
      rw [hi] at hfails
      exact absurd rfl hfails

end SeedingLemmas

end Race

/-- From a user without categories on: in every state that calls reach one after
another, and in every state of a race between calls and seedings that starts
there, the system category is there at most once, is not deleted, and no other
category holds its name; and a seeding answers with its id. -/
theorem system_category_stays_seedable (hlower : LowersAgree) {db₀ : Db}
    (huser : ∃ x ∈ db₀.rows .users, x.id = u) (hnone : ∀ r ∈ db₀.rows .categories, r.userId ≠ u)
    (calls : List Call) :
    (Seedable u (run db₀ calls) ∧
      (∀ c, SystemsStay u (run db₀ calls) (step (run db₀ calls) c)) ∧
      (∀ env key, (∀ r ∈ (run db₀ calls).rows .categories, r.id ≠ env.uuid 1) →
        ∃ r db', exec (ensureSystemCategory env u key) (run db₀ calls) = .ok (r.id, db') ∧
          r ∈ db'.rows .categories ∧ isSystemCategory u key r = true ∧ Seedable u db') ∧
      ∀ (c : Call) accountId body e, c.userId = u →
        c.request = .createOpeningBalance accountId body →
        (∀ r ∈ (run db₀ calls).rows .categories, r.id ≠ c.env.uuid 1) →
        exec c.handle (run db₀ calls) = .error (.raised e) → SeedSafe e) ∧
    ∀ {ι : Type} [Fintype ι] [DecidableEq ι] (actors : ι → Actor),
      DrawsApart (run db₀ calls) actors → ∀ events,
        let s := (State.start (run db₀ calls) fun i => (actors i).prog).run events
        Seedable u s.db ∧ SeedsAnswer u actors s ∧ ∀ more, SystemsStay u s.db (s.run more).db := by
  have hrun : Prepared u (run db₀ calls) := (Prepared.of_none huser hnone).run calls
  refine ⟨⟨hrun.seedable hlower, hrun.systemsStay, fun env key hfresh => ?_, ?_⟩, ?_⟩
  · obtain ⟨r, db', he, hr, hsystem, hdb'⟩ := hrun.ensure key hlower hfresh
    exact ⟨r, db', he, hr, hsystem, hdb'.seedable hlower⟩
  · rintro c accountId body e rfl hreq hfresh he
    exact hrun.opens hlower hreq hfresh he
  · intro ι _ _ actors hactors events s
    have hsound : Sound (fun i => (actors i).prog) s := State.sound_run (sound_start _ _)
    have hguaranteed : (seedingContract u s.db actors).Guaranteed fun i => (actors i).prog :=
      seeding_guaranteed hactors.apart
    have hrelying : Relying (seedingContract u (run db₀ calls) actors) s :=
      (relying_start hrun hlower hactors).run (seeding_guaranteed hactors.apart)
        (sound_start _ _) events
    have hunclashed : Unclashed (CategoryOf u) s.db :=
      (exclusive_run clash_symm (Exclusive.start hrun.unclashed _) events).db
    refine ⟨Prepared.seedable ⟨?_, hrelying.always.2, hunclashed⟩ hlower,
      seedsAnswer_of_relying hsound hactors.apart hrelying, fun more => ?_⟩
    · obtain ⟨x, hx, hid⟩ := hrun.user
      obtain ⟨x', hx', hid'⟩ := hrelying.always.1.users x hx
      exact ⟨x', hx', hid'.trans hid⟩
    · exact systemsStay_of_kept
        ((relying_rebase hrelying).run hguaranteed hsound more).always.1

end Seeding

namespace Ascii

/-- The user 1 is there, and has no category. -/
def signedUp : Db := run blank [callAt 0 (.bootstrap "Ann".toList "UTC".toList)]

/-- Two seedings for the user, and a category under a name that is reserved. -/
def seeders : Fin 3 → Actor
  | 0 => .ensure (envAt 20) 1 .openingBalance
  | 1 => .ensure (envAt 21) 1 .openingBalance
  | 2 => .call (callAt 22 (.createCategory ⟨70, "@opening".toList, "#000000".toList, none⟩))

/-- Both seedings look before either inserts. -/
def seedersEvents : List (Event (Fin 3)) :=
  [Event.act ⟨0, by decide⟩, .act ⟨1, by decide⟩, .act ⟨0, by decide⟩, .act ⟨1, by decide⟩,
    .act ⟨0, by decide⟩, .act ⟨1, by decide⟩, .act ⟨1, by decide⟩, .act ⟨1, by decide⟩,
    .act ⟨1, by decide⟩] ++ List.replicate 12 (Event.act ⟨2, by decide⟩)

end Ascii

open Ascii in
/-- Both seedings answer with the row that the first has inserted. -/
theorem system_category_stays_seedable_twice :
    let s := (State.start (run signedUp []) fun i => (seeders i).prog).run seedersEvents
    Seedable 1 s.db ∧ SeedsAnswer 1 seeders s ∧
      ∀ more, SystemsStay 1 s.db (s.run more).db :=
  (system_category_stays_seedable (fun _ _ h => h) (by decide +kernel) (by decide +kernel)
    []).2 seeders ⟨by decide +kernel, by decide +kernel⟩ seedersEvents

end ExpenseEngine
