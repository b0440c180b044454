import ExpenseEngine.Races.Seeding
import ExpenseEngine.Sql.Proposals

/-!
# Names of active rows

The services look whether a name is taken before they write it: creation, rename
and restore, over the active rows of the user and, for accounts, over those of
the currency. That is what the partial unique indexes on `lower(name)` cover, so
a row that gets past the check is not refused by them.

Results:
1. `checksNames_call`: what any call proposes collides with no other active row.
2. `work_nameRefused`: the error of a request for a name that is held.
3. `active_names_stay_unique`: both in every state reached, where no two active rows
   share a name.
-/

namespace ExpenseEngine

open Sql Sql.Prog StatementLemmas SeedingLemmas

section Names

variable [Platform] {db db' : Db} {env : Env} {userId : Uuid} {t : Tbl}

/-! ## The partial unique indexes on `lower(name)` -/

/-- Two active rows of a user under one name, for accounts in one currency. -/
def sameName : (t : Tbl) → Row t → Row t → Bool
  | .bankAccounts, r, s =>
    decide (r.deletedAt = none ∧ s.deletedAt = none ∧ r.userId = s.userId ∧
      Platform.lower r.name = Platform.lower s.name ∧ r.currencyCode = s.currencyCode)
  | .categories, r, s =>
    decide (r.deletedAt = none ∧ s.deletedAt = none ∧ r.userId = s.userId ∧
      Platform.lower r.name = Platform.lower s.name)
  | .hashtags, r, s =>
    decide (r.deletedAt = none ∧ s.deletedAt = none ∧ r.userId = s.userId ∧
      Platform.lower r.name = Platform.lower s.name)
  | _, _, _ => false

/-- No two active rows share a name. -/
def NamesUnique (db : Db) : Prop :=
  ∀ t, ∀ r ∈ db.rows t, ∀ s ∈ db.rows t, sameName t r s = true → r = s

/-- The row would be the only one under its name. -/
def NameFree (t : Tbl) (db : Db) (r : Row t) : Prop := ∀ x ∈ db.rows t, sameName t x r = false

/-- The row would be the only one under its name in place of `r`. -/
def NameFreeBut (t : Tbl) (db : Db) (r r' : Row t) : Prop :=
  ∀ x ∈ db.rows t, keyOf t x ≠ keyOf t r → sameName t x r' = false

/-- No statement of the program violates an index on `lower(name)`. -/
def ChecksNames {α : Type} (p : Op α) (db : Db) : Prop := p.Proposing NameFree NameFreeBut db

/-- The requests that write a name or bring one back. -/
def Request.setsName : Request → Bool
  | .createAccount _ | .createPerson _ | .updateAccount _ _ | .restoreAccount _
  | .createCategory _ | .updateCategory _ _ | .restoreCategory _
  | .createHashtag _ | .updateHashtag _ _ | .restoreHashtag _
  | .createOpeningBalance _ _ => true
  | _ => false

/-- A table without such an index. -/
def Unnamed (t : Tbl) : Prop := t ≠ .bankAccounts ∧ t ≠ .categories ∧ t ≠ .hashtags

/-- `sameName` in terms of the columns that `nameTaken` reads. -/
structure NameIndex (t : Tbl) [NamedTable t] (scope : Row t → Row t → Bool) : Prop where
  same : ∀ x y : Row t, sameName t x y = true ↔
    (OwnedTable.resource x).deletedAt = none ∧ (OwnedTable.resource y).deletedAt = none ∧
      (OwnedTable.resource x).userId = (OwnedTable.resource y).userId ∧
      Platform.lower (NamedTable.name x) = Platform.lower (NamedTable.name y) ∧ scope y x = true
  key : ∀ x y : Row t, (OwnedTable.resource x).id = (OwnedTable.resource y).id ↔
    keyOf t x = keyOf t y

theorem nameIndex_bankAccounts :
    NameIndex .bankAccounts fun r x => decide (x.currencyCode = r.currencyCode) where
  same x y := by
    show decide _ = true ↔ _
    rw [decide_eq_true_eq, decide_eq_true_eq]
    rfl
  key _ _ := Iff.rfl

theorem nameIndex_categories : NameIndex .categories fun _ => anyRow where
  same x y := by
    show decide _ = true ↔ _
    rw [decide_eq_true_eq]
    exact ⟨fun ⟨h₁, h₂, h₃, h₄⟩ => ⟨h₁, h₂, h₃, h₄, rfl⟩,
      fun ⟨h₁, h₂, h₃, h₄, _⟩ => ⟨h₁, h₂, h₃, h₄⟩⟩
  key _ _ := Iff.rfl

theorem nameIndex_hashtags : NameIndex .hashtags fun _ => anyRow where
  same x y := by
    show decide _ = true ↔ _
    rw [decide_eq_true_eq]
    exact ⟨fun ⟨h₁, h₂, h₃, h₄⟩ => ⟨h₁, h₂, h₃, h₄, rfl⟩,
      fun ⟨h₁, h₂, h₃, h₄, _⟩ => ⟨h₁, h₂, h₃, h₄⟩⟩
  key _ _ := Iff.rfl

namespace NameLemmas

theorem sameName_unnamed (ht : Unnamed t) (r s : Row t) : sameName t r s = false := by
  obtain ⟨ha, hc, hh⟩ := ht
  cases t with
  | bankAccounts => exact absurd rfl ha
  | categories => exact absurd rfl hc
  | hashtags => exact absurd rfl hh
  | _ => rfl

theorem clash_of_sameName {r s : Row t} (h : sameName t r s = true) :
    Schema.clash t r s = true := by
  cases t with
  | bankAccounts => exact h
  | categories =>
    obtain ⟨hr, hs, hu, hname⟩ := of_decide_eq_true h
    exact decide_eq_true ⟨hr, hs, hu, .inl hname⟩
  | hashtags => exact h
  | _ => cases h

/-- The tables with an index on `lower(name)`. -/
def Named (t : Tbl) (_ : Row t) : Prop := ¬Unnamed t

theorem namesUnique_of_unclashed (h : Unclashed Named db) : NamesUnique db := by
  intro t r hr s hs hsame
  by_contra hne
  have hnamed : ¬Unnamed t := by
    intro ht
    rw [sameName_unnamed ht] at hsame
    cases hsame
  have hfree := h t r hr s hs hnamed hnamed fun hkey => hne (Table.eq_of_key_eq hr hs hkey)
  rw [clash_of_sameName hsame] at hfree
  cases hfree

/-! ### What the name check says -/

section Services

variable [NamedTable t] {scope : Row t → Row t → Bool}

theorem free_of_not_taken (hindex : NameIndex t scope) {r : Row t} {name : Text}
    {excludeId : Option Uuid} {w : Row t → Bool} {b : Bool}
    (hcheck : exec (nameTaken t userId name excludeId w) db = .ok (b, db)) (hb : ¬b = true)
    (hw : ∀ x, scope r x = true → w x = true) (huser : (OwnedTable.resource r).userId = userId)
    (hname : NamedTable.name r = name) {x : Row t} (hx : x ∈ db.rows t)
    (hsame : sameName t x r = true) : excludeId = some (OwnedTable.resource x).id := by
  obtain ⟨hd, -, hu, hlower, hscope⟩ := (hindex.same x r).mp hsame
  obtain ⟨rfl, -⟩ := exec_read_ok.mp hcheck
  rw [Bool.not_eq_true, List.any_eq_false] at hb
  by_contra hne
  refine hb x hx ?_
  rw [hw x hscope, Bool.and_true, decide_eq_true_eq]
  exact ⟨hu.trans huser, by rw [hlower, hname], hd, hne⟩

/-- The rest of a service: the log and the answer. -/
theorem checksNames_logged {α : Type} {a : α} {logId resourceId : Uuid} {resourceType : String}
    {action : ActivityAction} {before after : Option Body} :
    ChecksNames (do
      writeActivityLog env logId userId resourceType resourceId action before after
      return a : Op α) db := by
  refine proposing_of_writesOnly (W := (· = .activityLog))
    (WritesOnly.bind (writesOnly_insertOrAbort rfl) fun _ => trivial) ?_ ?_
  · rintro _ rfl db r x -
    rfl
  · rintro _ rfl db r r' x - -
    rfl

/-- An UPDATE of the row with one id, whose image is free of the other names. -/
theorem checksNames_updateRow (hindex : NameIndex t scope) {id : Uuid} {state : RowState}
    {f : Change Row t} {α : Type} {g : Option (Row t) → Op α}
    (hf : ∀ r ∈ db.rows t, owns t id userId state r = true → NameFreeBut t db r (f.apply r))
    (hg : ∀ o db', ChecksNames (g o) db') :
    ChecksNames (updateRow t (owns t id userId state) f >>= g) db := by
  refine Proposing.bind (Proposing.bind (proposing_updateWhere ?_ hf) fun _ _ _ => trivial)
    fun o db' _ => hg o db'
  intro r _ r' _ hr hr'
  have hid : ∀ {r : Row t}, owns t id userId state r = true →
      (OwnedTable.resource r).id = id := by
    intro r hr
    rw [owns, Bool.and_eq_true, decide_eq_true_eq] at hr
    exact hr.1.1
  exact (hindex.key r r').mp ((hid hr).trans (hid hr').symm)

/-- The restore of a row whose name was checked. -/
theorem checksNames_restore (hindex : NameIndex t scope)
    (hmarked : ∀ r : Row t, NamedTable.name ((marked t env.now none).apply r) =
      NamedTable.name r ∧ (OwnedTable.resource ((marked t env.now none).apply r)).userId =
        (OwnedTable.resource r).userId)
    (hscope : ∀ r x : Row t, scope ((marked t env.now none).apply r) x = scope r x)
    {id : Uuid} {resourceType : String} {row : Row t} {before : Body}
    {serialize : Row t → Op Body} {b : Bool}
    (hserialize : ∀ r, (serialize r).WritesOnly fun _ => False)
    (hrow : (db.rows t).find? (owns t id userId .deleted) = some row)
    (hcheck : exec (nameTaken t userId (NamedTable.name row) (some id) (scope row)) db =
      .ok (b, db))
    (hb : ¬b = true) :
    ChecksNames (restoreWithAudit env userId t resourceType row before serialize) db := by
  obtain ⟨hmem, hw⟩ := find?_row hrow
  obtain ⟨hid, huser, -⟩ := owns_deleted.mp hw
  refine checksNames_updateRow hindex ?_ fun o db' => ?_
  · intro r hr hwr x hx hne
    obtain ⟨hrid, -⟩ := owns_deleted.mp hwr
    obtain rfl : r = row := Table.eq_of_key_eq hr hmem ((hindex.key r row).mp hrid)
    by_contra hsame
    rw [Bool.not_eq_false] at hsame
    have hex := free_of_not_taken hindex hcheck hb (fun x hx => by rwa [hscope] at hx)
      ((hmarked r).2.trans huser) (hmarked r).1 hx hsame
    exact hne ((hindex.key x r).mp ((Option.some.inj hex).symm.trans hid.symm))
  · refine proposing_guard (by simp) fun r _ => proposing_guard (hserialize r) fun after _ => ?_
    exact checksNames_logged

end Services

/-! ### Accounts -/

theorem checksNames_createAccount {body : AccountCreateRequest} {isPerson : Bool} :
    ChecksNames (createAccount env userId body isPerson) db := by
  unfold createAccount
  refine proposing_guard (by simp) fun name _ => proposing_guard (by simp) fun _ _ => ?_
  split
  · trivial
  refine proposing_guard (by simp) fun taken htaken => proposing_guard (by simp) fun _ hfree => ?_
  refine proposing_guard (by simp) fun sortOrder _ => ?_
  refine Proposing.bind (proposing_insertRow fun x hx => ?_) fun o db' _ => ?_
  · by_contra hsame
    rw [Bool.not_eq_false] at hsame
    cases free_of_not_taken nameIndex_bankAccounts htaken (exec_raiseIf_ok.mp hfree).1
      (fun x hx => hx) rfl rfl hx hsame
  · refine proposing_guard (by simp) fun _ _ => proposing_guard (by simp) fun home _ => ?_
    exact checksNames_logged

/-- A new name of an account is free of the others. -/
theorem free_of_renameAccount {row : Row .bankAccounts} {rename name : Option Text} {n : Text}
    (h : exec (renameAccount userId row rename) db = .ok (name, db)) (hname : name = some n) :
    ∃ b, exec (nameTaken .bankAccounts userId n (some row.id)
      fun r => decide (r.currencyCode = row.currencyCode)) db = .ok (b, db) ∧ ¬b = true := by
  cases rename with
  | none =>
    obtain ⟨rfl, -⟩ := exec_pure_ok.mp h
    cases hname
  | some m =>
    simp only [renameAccount, exec_bind_ok] at h
    obtain ⟨m', db₁, hnormal, taken, db₂, htaken, _, db₃, hfree, h⟩ := h
    obtain ⟨rfl, rfl⟩ := exec_pure_ok.mp h
    cases hname
    obtain ⟨hnot, rfl⟩ := exec_raiseIf_ok.mp hfree
    obtain ⟨-, rfl⟩ := exec_read_ok.mp htaken
    exact ⟨taken, htaken, hnot⟩

theorem checksNames_updateAccount (hunique : NamesUnique db) {id : Uuid} {fields : AccountFields} :
    ChecksNames (updateAccount env userId id fields) db := by
  unfold updateAccount
  refine proposing_guard (by simp) fun _ _ => proposing_guard (by simp) fun _ _ => ?_
  refine proposing_guard (by simp) fun row hrow => ?_
  obtain ⟨hmem, hw⟩ := find?_row (exec_fetchOwnedRowOr404_ok.mp hrow).1
  show Proposing _ _ (if _ then _ else _) _
  split
  · exact proposing_guard (by simp) fun _ _ => trivial
  refine proposing_guard (by simp) fun name hname => proposing_guard (by simp) fun both _ => ?_
  refine checksNames_updateRow nameIndex_bankAccounts (fun r hr hwr x hx hne => ?_)
    fun o db' => proposing_guard (by simp) fun _ _ => checksNames_logged
  obtain rfl : r = row := Table.eq_of_key_eq hr hmem
    ((owns_active.mp hwr).1.trans (owns_active.mp hw).1.symm)
  by_contra hsame
  rw [Bool.not_eq_false] at hsame
  cases hn : name with
  | none =>
    rw [hn] at hsame
    exact hne (congrArg _ (hunique .bankAccounts x hx r hr hsame))
  | some n =>
    obtain ⟨b, hcheck, hb⟩ := free_of_renameAccount hname hn
    rw [hn] at hsame
    have hex := free_of_not_taken (r := (bumped .bankAccounts env.now
      (setAccount fields (some n))).apply r) nameIndex_bankAccounts hcheck hb (fun x hx => hx)
      (owns_active.mp hw).2.1 rfl hx hsame
    exact hne (Option.some.inj hex).symm

theorem checksNames_restoreAccount {id : Uuid} :
    ChecksNames (restoreAccount env userId id) db := by
  unfold restoreAccount
  refine proposing_guard (by simp) fun row hrow => ?_
  refine proposing_guard (by simp) fun taken htaken => proposing_guard (by simp) fun _ hfree => ?_
  refine proposing_guard (by simp) fun both _ => ?_
  exact checksNames_restore nameIndex_bankAccounts (fun _ => ⟨rfl, rfl⟩) (fun _ _ => rfl)
    (fun _ => trivial) (exec_fetchOwnedRowOr404_ok.mp hrow).1 htaken (exec_raiseIf_ok.mp hfree).1

/-! ### Categories and hashtags -/

section Updates

variable [NamedTable t] {resourceType : String} {id : Uuid} {rename : Option Text}
  {checkName : Row t → Text → Op Unit} {row : Row t}

/-- A new name of a named resource is free of the others. -/
theorem free_of_normalizeRename {name : Option Text} {n : Text}
    (h : exec (updateNamedResource.normalizeRename userId t resourceType id rename checkName row)
      db = .ok (name, db)) (hname : name = some n) :
    ∃ b, exec (nameTaken t userId n (some id) anyRow) db = .ok (b, db) ∧ ¬b = true := by
  cases rename with
  | none =>
    obtain ⟨rfl, -⟩ := exec_pure_ok.mp h
    cases hname
  | some m =>
    simp only [updateNamedResource.normalizeRename, exec_bind_ok] at h
    obtain ⟨m', db₁, hnormal, _, db₂, hchecked, taken, db₃, htaken, _, db₄, hfree, h⟩ := h
    obtain ⟨rfl, rfl⟩ := exec_pure_ok.mp h
    cases hname
    obtain ⟨hnot, rfl⟩ := exec_raiseIf_ok.mp hfree
    obtain ⟨htaken, rfl⟩ := exec_read_ok.mp htaken
    exact ⟨taken, exec_read_ok.mpr ⟨htaken, rfl⟩, hnot⟩

theorem checksNames_updateNamedResource (hunique : NamesUnique db)
    (hindex : NameIndex t fun _ => anyRow) {isEmpty : Bool} {color : Option Text}
    {set : Option Text → Change Row t} {serialize : Row t → Body}
    (hset : ∀ name (r : Row t), let r' := (bumped t env.now (set name)).apply r
      NamedTable.name r' = name.getD (NamedTable.name r) ∧
        (OwnedTable.resource r').userId = (OwnedTable.resource r).userId ∧
        (OwnedTable.resource r').deletedAt = (OwnedTable.resource r).deletedAt)
    (hcheckName : ∀ r n, (checkName r n).WritesOnly fun _ => False) :
    ChecksNames (updateNamedResource env userId t resourceType id isEmpty rename color set serialize
      checkName) db := by
  unfold updateNamedResource
  refine proposing_guard (by simp) fun row hrow => ?_
  obtain ⟨hmem, hw⟩ := find?_row (exec_fetchOwnedRowOr404_ok.mp hrow).1
  show Proposing _ _ (if _ then _ else _) _
  split
  · trivial
  refine proposing_guard (by simp) fun _ _ => ?_
  refine proposing_guard (readOnly_normalizeRename hcheckName) fun name hname => ?_
  refine checksNames_updateRow hindex (fun r hr hwr x hx hne => ?_)
    fun o db' => proposing_guard (by simp) fun _ _ => checksNames_logged
  obtain rfl : r = row := Table.eq_of_key_eq hr hmem
    ((hindex.key r row).mp ((owns_active.mp hwr).1.trans (owns_active.mp hw).1.symm))
  obtain ⟨hcolumn, huser, hdeleted⟩ := hset name r
  by_contra hsame
  rw [Bool.not_eq_false] at hsame
  cases name with
  | none =>
    -- the image has the columns of the row it replaces
    rw [Option.getD_none] at hcolumn
    rw [hindex.same, hdeleted, huser, hcolumn, ← hindex.same x r] at hsame
    exact hne (congrArg _ (hunique t x hx r hr hsame))
  | some n =>
    obtain ⟨b, hcheck, hb⟩ := free_of_normalizeRename hname rfl
    have hex := free_of_not_taken hindex hcheck hb (fun _ _ => rfl)
      (huser.trans (owns_active.mp hw).2.1) hcolumn hx hsame
    exact hne ((hindex.key x r).mp ((Option.some.inj hex).symm.trans (owns_active.mp hw).1.symm))

end Updates

theorem checksNames_updateCategory (hunique : NamesUnique db) {id : Uuid}
    {fields : CategoryFields} : ChecksNames (updateCategory env userId id fields) db :=
  checksNames_updateNamedResource hunique nameIndex_categories
    (fun name r => by cases name <;> exact ⟨rfl, rfl, rfl⟩) fun _ _ => writesOnly_checkCategoryName

theorem checksNames_updateHashtag (hunique : NamesUnique db) {id : Uuid} {fields : HashtagFields} :
    ChecksNames (updateHashtag env userId id fields) db :=
  checksNames_updateNamedResource hunique nameIndex_hashtags
    (fun name r => by cases name <;> exact ⟨rfl, rfl, rfl⟩) fun _ _ => trivial

theorem checksNames_createCategory {body : CategoryCreateRequest} :
    ChecksNames (createCategory env userId body) db := by
  unfold createCategory
  refine proposing_guard (by simp) fun name _ => proposing_guard (by simp) fun _ _ => ?_
  refine proposing_guard (by simp) fun _ _ => proposing_guard (by simp) fun taken htaken => ?_
  refine proposing_guard (by simp) fun _ hfree => proposing_guard (by simp) fun sortOrder _ => ?_
  refine Proposing.bind (proposing_insertRow fun x hx => ?_) fun o db' _ =>
    proposing_guard (by simp) fun _ _ => checksNames_logged
  by_contra hsame
  rw [Bool.not_eq_false] at hsame
  cases free_of_not_taken nameIndex_categories htaken (exec_raiseIf_ok.mp hfree).1
    (fun _ _ => rfl) rfl rfl hx hsame

theorem checksNames_createHashtag {body : HashtagCreateRequest} :
    ChecksNames (createHashtag env userId body) db := by
  unfold createHashtag
  refine proposing_guard (by simp) fun name _ => proposing_guard (by simp) fun taken htaken => ?_
  refine proposing_guard (by simp) fun _ hfree => proposing_guard (by simp) fun sortOrder _ => ?_
  refine Proposing.bind (proposing_insertRow fun x hx => ?_) fun o db' _ =>
    proposing_guard (by simp) fun _ _ => checksNames_logged
  by_contra hsame
  rw [Bool.not_eq_false] at hsame
  cases free_of_not_taken nameIndex_hashtags htaken (exec_raiseIf_ok.mp hfree).1
    (fun _ _ => rfl) rfl rfl hx hsame

theorem checksNames_restoreCategory {id : Uuid} :
    ChecksNames (restoreCategory env userId id) db := by
  unfold restoreCategory
  refine proposing_guard (by simp) fun row hrow => ?_
  refine proposing_guard writesOnly_checkCategoryName fun _ _ => ?_
  refine proposing_guard (by simp) fun taken htaken => proposing_guard (by simp) fun _ hfree => ?_
  exact checksNames_restore nameIndex_categories (fun _ => ⟨rfl, rfl⟩) (fun _ _ => rfl)
    (fun _ => trivial) (exec_fetchOwnedRowOr404_ok.mp hrow).1 htaken (exec_raiseIf_ok.mp hfree).1

theorem checksNames_restoreHashtag {id : Uuid} :
    ChecksNames (restoreHashtag env userId id) db := by
  unfold restoreHashtag
  refine proposing_guard (by simp) fun row hrow => ?_
  refine proposing_guard (by simp) fun taken htaken => proposing_guard (by simp) fun _ hfree => ?_
  exact checksNames_restore nameIndex_hashtags (fun _ => ⟨rfl, rfl⟩) (fun _ _ => rfl)
    (fun _ => trivial) (exec_fetchOwnedRowOr404_ok.mp hrow).1 htaken (exec_raiseIf_ok.mp hfree).1

/-! ### Opening balances -/

/-- The seed of a system category is free of the other names: a category without
a key does not hold a reserved name, and the one with the key was not found. -/
theorem checksNames_ensureSystemCategory {key : SystemCategoryKey} (hlower : LowersAgree)
    (htends : Tends userId db) : ChecksNames (ensureSystemCategory env userId key) db := by
  unfold ensureSystemCategory
  refine proposing_guard readOnly_fetchRow fun found hfound => ?_
  cases found with
  | some row => trivial
  | none =>
    have hnone := (exec_fetchRow_ok.mp hfound).1.symm
    refine Proposing.bind (proposing_insertOrSkip fun x hx => ?_) fun o db' _ => ?_
    · by_contra hsame
      rw [Bool.not_eq_false] at hsame
      obtain ⟨hd, -, hu, hname⟩ := of_decide_eq_true hsame
      cases hkey : x.systemKey with
      | none =>
        have hreserved := (htends .categories x hx hu).1 hkey
        have hlow := hlower key x.name hname
        cases key
        exact of_decide_eq_false hreserved hlow
      | some k =>
        refine List.find?_eq_none.mp hnone x hx (decide_eq_true ⟨hu, ?_, hd⟩)
        cases k
        cases key
        exact hkey
    · cases o with
      | inserted => trivial
      | violation => trivial
      | skipped =>
        exact proposing_guard readOnly_fetchRow fun _ _ => proposing_guard (by simp) fun _ _ =>
          trivial

theorem checksNames_createOpeningBalance (hlower : LowersAgree) (htends : Tends userId db)
    {accountId : Uuid} {body : OpeningBalanceRequest} :
    ChecksNames (createOpeningBalance env userId accountId body) db := by
  unfold createOpeningBalance
  refine proposing_guard (by simp) fun account _ => proposing_guard (by simp) fun _ _ => ?_
  refine proposing_guard (writesOnly_read _ _) fun _ _ => proposing_guard (by simp) fun _ _ => ?_
  refine Proposing.bind (checksNames_ensureSystemCategory hlower htends) fun id db' _ => ?_
  refine proposing_of_writesOnly (W := Unnamed) (writesOnly_createTransaction ?_ ?_ ?_) ?_ ?_
  · exact ⟨by simp, by simp, by simp⟩
  · exact ⟨by simp, by simp, by simp⟩
  · exact ⟨by simp, by simp, by simp⟩
  · exact fun t ht _ r x _ => sameName_unnamed ht x r
  · exact fun t ht _ r r' x _ _ => sameName_unnamed ht x r'

/-! ### All calls -/

section Calls

variable {c : Call}

/-- A handler from its work: what the layer around it writes has no name. -/
theorem checksNames_handle (hwork : ChecksNames (c.request.work c.env c.userId) db) :
    ChecksNames c.handle db := by
  unfold Call.handle
  refine proposing_guard readOnly_liftExcept fun _ _ => ?_
  unfold runIdempotent
  split
  · rw [map_eq_pure_bind]
    exact Proposing.bind hwork fun _ _ _ => trivial
  · trivial
  · refine proposing_guard readOnly_claim fun found _ => ?_
    cases found with
    | some reply => trivial
    | none =>
      refine Proposing.bind hwork fun body db₁ _ => ?_
      refine proposing_of_writesOnly (W := (· = .idempotencyKeys))
        (WritesOnly.bind (writesOnly_store ..) fun _ => trivial) ?_ ?_
      · rintro _ rfl _ r x -
        rfl
      · rintro _ rfl _ r r' x - -
        rfl

theorem unnamed_of_proposes {r x : Row t} (hc : c.request.setsName = false)
    (h : c.Proposes t r) : sameName t x r = false := by
  rcases h with h | h
  · cases t <;> first | exact h.elim | rfl
  · generalize c.request = request at h hc
    cases h with
    | account | person | category | hashtag | systemCategory => cases hc
    | _ => rfl

/-- The other requests leave a row under its name, or delete it. -/
theorem sameName_of_updates {r r' x : Row t} (hc : c.request.setsName = false)
    (h : c.Updates t r r') (hsame : sameName t x r' = true) : sameName t x r = true := by
  unfold Call.Updates at h
  generalize c.request = request at h hc
  cases h with
  | accountUpdated | categoryUpdated | hashtagUpdated => cases hc
  | accountRestored | categoryRestored | hashtagRestored => cases hc
  | accountDeleted | categoryDeleted | hashtagDeleted =>
    obtain ⟨-, hd, -⟩ := of_decide_eq_true hsame
    cases hd
  | accountArchived | accountUnarchived => exact hsame
  | _ => cases hsame

theorem checksNames_other (hc : c.request.setsName = false) (hdb : Unclashed Named db) :
    ChecksNames c.handle db := by
  refine proposing_of_rewrites (I := Unclashed Named) (handle_rewrites c) ?_ ?_ ?_ ?_ hdb
  · exact fun h hins => unclashed_put clash_symm h fun x hx _ => (free_of_inserted hins x hx).2
  · exact fun h haccepts => unclashed_put clash_symm h (free_of_accepts haccepts)
  · exact fun _ hnew x _ => unnamed_of_proposes hc hnew
  · intro db t r r' h hr hupd x hx hne
    by_contra hsame
    rw [Bool.not_eq_false] at hsame
    have hname := sameName_of_updates hc hupd hsame
    exact hne (congrArg _ (namesUnique_of_unclashed h t x hx r hr hname))

theorem checksNames_call (hdb : Unclashed Named db)
    (hopens : ∀ accountId body, c.request = .createOpeningBalance accountId body →
      LowersAgree ∧ Tends c.userId db) : ChecksNames c.handle db := by
  cases hc : c.request.setsName with
  | false => exact checksNames_other hc hdb
  | true =>
    have hunique := namesUnique_of_unclashed hdb
    refine checksNames_handle ?_
    generalize c.request = request at hc hopens
    cases request with
    | createAccount body => exact checksNames_createAccount
    | createPerson body => exact checksNames_createAccount
    | createOpeningBalance accountId body =>
      obtain ⟨hlower, htends⟩ := hopens accountId body rfl
      exact checksNames_createOpeningBalance hlower htends
    | updateAccount id body => exact checksNames_updateAccount hunique
    | restoreAccount id => exact checksNames_restoreAccount
    | createCategory body => exact checksNames_createCategory
    | updateCategory id body => exact checksNames_updateCategory hunique
    | restoreCategory id => exact checksNames_restoreCategory
    | createHashtag body => exact checksNames_createHashtag
    | updateHashtag id body => exact checksNames_updateHashtag hunique
    | restoreHashtag id => exact checksNames_restoreHashtag
    | _ => cases hc

end Calls

end NameLemmas

/-! ## Requests for a name that is held -/

/-- An active row of the user, other than `excludeId`, holds the name. -/
def NameHeld (t : Tbl) [NamedTable t] (db : Db) (userId : Uuid) (name : Text)
    (excludeId : Option Uuid) (scope : Row t → Bool) : Prop :=
  ∃ x ∈ db.rows t, (OwnedTable.resource x).userId = userId ∧
    Platform.lower (NamedTable.name x) = Platform.lower name ∧
    (OwnedTable.resource x).deletedAt = none ∧ excludeId ≠ some (OwnedTable.resource x).id ∧
    scope x = true

/-- The request passes what is checked before the name, which another active row
holds, with the error it is refused with. -/
inductive NameRefused (db : Db) (userId : Uuid) : Request → AppError → Prop
  | account {body : AccountCreateRequest} {name : Text}
      (hname : cleanName (some body.name) = some name)
      (hcolor : ∀ v ∈ body.color, isHexColor v = true)
      (hcurrency : body.currencyCode ∈ globalCurrencies)
      (hheld : NameHeld .bankAccounts db userId name none
        fun x => decide (x.currencyCode = body.currencyCode)) :
    NameRefused db userId (.createAccount body) (conflict ("An account named " ++ quoted name ++
      " with currency " ++ quoted body.currencyCode ++ " already exists."))
  | person {body : AccountCreateRequest} {name : Text}
      (hname : cleanName (some body.name) = some name)
      (hcolor : ∀ v ∈ body.color, isHexColor v = true)
      (hcurrency : body.currencyCode ∈ globalCurrencies)
      (hheld : NameHeld .bankAccounts db userId name none
        fun x => decide (x.currencyCode = body.currencyCode)) :
    NameRefused db userId (.createPerson body) (conflict ("An account named " ++ quoted name ++
      " with currency " ++ quoted body.currencyCode ++ " already exists."))
  | accountRenamed {id : Uuid} {body : AccountUpdateRequest} {row : Row .bankAccounts}
      {given name : Text} (hrow : row ∈ db.rows .bankAccounts)
      (howns : owns .bankAccounts id userId .active row = true)
      (hgiven : body.name = some (some given)) (hname : cleanName (some given) = some name)
      (hcolor : ∀ v ∈ body.color.join, isHexColor v = true)
      (hcurrency : body.currencyCode.join = none)
      (hheld : NameHeld .bankAccounts db userId name (some id)
        fun x => decide (x.currencyCode = row.currencyCode)) :
    NameRefused db userId (.updateAccount id body) (conflict ("An account named " ++
      quoted name ++ " with this currency already exists."))
  | accountRestored {id : Uuid} {row : Row .bankAccounts} (hrow : row ∈ db.rows .bankAccounts)
      (howns : owns .bankAccounts id userId .deleted row = true)
      (hheld : NameHeld .bankAccounts db userId row.name (some id)
        fun x => decide (x.currencyCode = row.currencyCode)) :
    NameRefused db userId (.restoreAccount id) (conflict ("Cannot restore account: an active " ++
      "account named " ++ quoted row.name ++ " with this currency already exists."))
  | category {body : CategoryCreateRequest} {name : Text}
      (hname : cleanName (some body.name) = some name) (hreserved : isReservedName name = false)
      (hcolor : isHexColor body.color = true)
      (hheld : NameHeld .categories db userId name none anyRow) :
    NameRefused db userId (.createCategory body) (conflict ("A category named " ++
      quoted name ++ " already exists."))
  | categoryRenamed {id : Uuid} {body : CategoryUpdateRequest} {row : Row .categories}
      {given name : Text} (hrow : row ∈ db.rows .categories)
      (howns : owns .categories id userId .active row = true)
      (hgiven : body.name = some (some given)) (hname : cleanName (some given) = some name)
      (hcolor : ∀ v ∈ body.color.join, isHexColor v = true)
      (hreserved : row.systemKey = none → isReservedName name = false)
      (hheld : NameHeld .categories db userId name (some id) anyRow) :
    NameRefused db userId (.updateCategory id body) (conflict ("A " ++ "category" ++ " named " ++
      quoted name ++ " already exists."))
  | categoryRestored {id : Uuid} {row : Row .categories} (hrow : row ∈ db.rows .categories)
      (howns : owns .categories id userId .deleted row = true)
      (hreserved : row.systemKey = none → isReservedName row.name = false)
      (hheld : NameHeld .categories db userId row.name (some id) anyRow) :
    NameRefused db userId (.restoreCategory id) (conflict ("Cannot restore category: an active " ++
      "category named " ++ quoted row.name ++ " already exists."))
  | hashtag {body : HashtagCreateRequest} {name : Text}
      (hname : cleanName (some body.name) = some name)
      (hheld : NameHeld .hashtags db userId name none anyRow) :
    NameRefused db userId (.createHashtag body) (conflict ("A hashtag named " ++
      quoted name ++ " already exists."))
  | hashtagRenamed {id : Uuid} {body : HashtagUpdateRequest} {row : Row .hashtags}
      {given name : Text} (hrow : row ∈ db.rows .hashtags)
      (howns : owns .hashtags id userId .active row = true)
      (hgiven : body.name = some (some given)) (hname : cleanName (some given) = some name)
      (hheld : NameHeld .hashtags db userId name (some id) anyRow) :
    NameRefused db userId (.updateHashtag id body) (conflict ("A " ++ "hashtag" ++ " named " ++
      quoted name ++ " already exists."))
  | hashtagRestored {id : Uuid} {row : Row .hashtags} (hrow : row ∈ db.rows .hashtags)
      (howns : owns .hashtags id userId .deleted row = true)
      (hheld : NameHeld .hashtags db userId row.name (some id) anyRow) :
    NameRefused db userId (.restoreHashtag id) (conflict ("Cannot restore hashtag: an active " ++
      "hashtag named " ++ quoted row.name ++ " already exists."))

namespace NameLemmas

theorem exec_nameTaken_held [NamedTable t] {name : Text} {excludeId : Option Uuid}
    {scope : Row t → Bool} (h : NameHeld t db userId name excludeId scope) :
    exec (nameTaken t userId name excludeId scope) db = .ok (true, db) := by
  obtain ⟨x, hx, hu, hname, hd, hne, hscope⟩ := h
  refine exec_read_ok.mpr ⟨(List.any_eq_true.mpr ⟨x, hx, ?_⟩).symm, rfl⟩
  rw [hscope, Bool.and_true]
  exact decide_eq_true ⟨hu, hname, hd, hne⟩

theorem exec_normalizeName_some {given name : Text} {field : String}
    (h : cleanName (some given) = some name) :
    exec (normalizeName given field) db = .ok (name, db) := by
  rw [normalizeName, h]
  rfl

theorem exec_validateColor_hex {value : Option Text} (h : ∀ v ∈ value, isHexColor v = true) :
    exec (validateColor value) db = .ok ((), db) := by
  refine exec_raiseIf_ok.mpr ⟨?_, rfl⟩
  cases value with
  | none => nofun
  | some v => simp [h v rfl]

theorem exec_rejectReservedName_free {name : Text} (h : isReservedName name = false) :
    exec (rejectReservedName name) db = .ok ((), db) :=
  exec_raiseIf_ok.mpr ⟨by rw [h]; nofun, rfl⟩

theorem exec_checkCategoryName_free {row : Row .categories} {name : Text}
    (h : row.systemKey = none → isReservedName name = false) :
    exec (checkCategoryName row name) db = .ok ((), db) := by
  unfold checkCategoryName
  split
  · next hnone => exact exec_rejectReservedName_free (h (Option.isNone_iff_eq_none.mp hnone))
  · rfl

theorem exec_fetchOwnedRowOr404_of_mem [NamedTable t] {scope : Row t → Row t → Bool}
    (hindex : NameIndex t scope) {id : Uuid} {resource : String} {state : RowState} {row : Row t}
    (hrow : row ∈ db.rows t) (howns : owns t id userId state row = true) :
    exec (fetchOwnedRowOr404 t id userId resource state) db = .ok (row, db) := by
  refine exec_fetchOwnedRowOr404_ok.mpr ⟨?_, rfl⟩
  have hid : ∀ x : Row t, owns t id userId state x = true → (OwnedTable.resource x).id = id := by
    intro x hx
    rw [owns, Bool.and_eq_true, decide_eq_true_eq] at hx
    exact hx.1.1
  exact find?_of_mem (fun x hx => (hindex.key x row).mp ((hid x hx).trans (hid row howns).symm))
    hrow howns

/-- The check, and what is raised when it finds the name. -/
theorem exec_nameCheck {α : Type} [NamedTable t] {name : Text} {excludeId : Option Uuid}
    {scope : Row t → Bool} {e : AppError} {g : Unit → Op α}
    (h : NameHeld t db userId name excludeId scope) :
    exec (nameTaken t userId name excludeId scope >>= fun taken => raiseIf (taken = true) e >>= g)
      db = .error (.raised e) := by
  rw [exec_bind_of_ok (exec_nameTaken_held h)]
  rfl

theorem exec_createAccount_refused {body : AccountCreateRequest} {isPerson : Bool} {name : Text}
    (hname : cleanName (some body.name) = some name)
    (hcolor : ∀ v ∈ body.color, isHexColor v = true)
    (hcurrency : body.currencyCode ∈ globalCurrencies)
    (hheld : NameHeld .bankAccounts db userId name none
      fun x => decide (x.currencyCode = body.currencyCode)) :
    exec (createAccount env userId body isPerson) db = .error (.raised (conflict
      ("An account named " ++ quoted name ++ " with currency " ++ quoted body.currencyCode ++
        " already exists."))) := by
  rw [createAccount, exec_bind_of_ok (exec_normalizeName_some hname),
    exec_bind_of_ok (exec_validateColor_hex hcolor), currencyCodeError, if_pos hcurrency]
  exact exec_nameCheck hheld

theorem exec_updateNamedResource_refused [NamedTable t] (hindex : NameIndex t fun _ => anyRow)
    {resourceType : String} {id : Uuid} {given name : Text} {color : Option Text}
    {set : Option Text → Change Row t} {serialize : Row t → Body}
    {checkName : Row t → Text → Op Unit} {row : Row t} (hrow : row ∈ db.rows t)
    (howns : owns t id userId .active row = true) (hname : cleanName (some given) = some name)
    (hcolor : ∀ v ∈ color, isHexColor v = true)
    (hcheckName : exec (checkName row name) db = .ok ((), db))
    (hheld : NameHeld t db userId name (some id) anyRow) :
    exec (updateNamedResource env userId t resourceType id false (some given) color set serialize
      checkName) db = .error (.raised (conflict ("A " ++ resourceType ++ " named " ++
        quoted name ++ " already exists."))) := by
  rw [updateNamedResource, exec_bind_of_ok (exec_fetchOwnedRowOr404_of_mem hindex hrow howns),
    if_neg (by simp), exec_bind_of_ok (exec_validateColor_hex hcolor)]
  refine exec_bind_of_error ?_
  rw [updateNamedResource.normalizeRename, exec_bind_of_ok (exec_normalizeName_some hname),
    exec_bind_of_ok hcheckName]
  exact exec_nameCheck hheld

end NameLemmas

open NameLemmas

/-- The name check refuses the request before anything is written. -/
theorem work_nameRefused {request : Request} {e : AppError}
    (h : NameRefused db userId request e) :
    exec (request.work env userId) db = .error (.raised e) := by
  cases h with
  | account hname hcolor hcurrency hheld | person hname hcolor hcurrency hheld =>
    exact exec_createAccount_refused hname hcolor hcurrency hheld
  | accountRenamed hrow howns hgiven hname hcolor hcurrency hheld =>
    have hid := (owns_active.mp howns).1
    subst hid
    rw [Request.work, updateAccount, exec_bind_of_ok (exec_validateColor_hex hcolor), hcurrency,
      exec_bind_of_ok (exec_raiseIf_ok (u := ()).mpr ⟨by simp, rfl⟩),
      exec_bind_of_ok (exec_fetchOwnedRowOr404_of_mem nameIndex_bankAccounts hrow howns), hgiven,
      if_neg (by simp)]
    refine exec_bind_of_error ?_
    rw [Option.join_some, renameAccount,
      exec_bind_of_ok (exec_normalizeName_some hname)]
    exact exec_nameCheck hheld
  | accountRestored hrow howns hheld =>
    rw [Request.work, restoreAccount,
      exec_bind_of_ok (exec_fetchOwnedRowOr404_of_mem nameIndex_bankAccounts hrow howns)]
    exact exec_nameCheck hheld
  | category hname hreserved hcolor hheld =>
    rw [Request.work, createCategory, exec_bind_of_ok (exec_normalizeName_some hname),
      exec_bind_of_ok (exec_rejectReservedName_free hreserved),
      exec_bind_of_ok (exec_validateColor_hex (by rintro _ ⟨⟩; exact hcolor))]
    exact exec_nameCheck hheld
  | categoryRenamed hrow howns hgiven hname hcolor hreserved hheld =>
    rw [Request.work, updateCategory, hgiven]
    exact exec_updateNamedResource_refused nameIndex_categories hrow howns hname hcolor
      (exec_checkCategoryName_free hreserved) hheld
  | categoryRestored hrow howns hreserved hheld =>
    rw [Request.work, restoreCategory,
      exec_bind_of_ok (exec_fetchOwnedRowOr404_of_mem nameIndex_categories hrow howns),
      exec_bind_of_ok (exec_checkCategoryName_free hreserved)]
    exact exec_nameCheck hheld
  | hashtag hname hheld =>
    rw [Request.work, createHashtag, exec_bind_of_ok (exec_normalizeName_some hname)]
    exact exec_nameCheck hheld
  | hashtagRenamed hrow howns hgiven hname hheld =>
    rw [Request.work, updateHashtag, hgiven]
    exact exec_updateNamedResource_refused nameIndex_hashtags hrow howns hname (by simp)
      rfl hheld
  | hashtagRestored hrow howns hheld =>
    rw [Request.work, restoreHashtag,
      exec_bind_of_ok (exec_fetchOwnedRowOr404_of_mem nameIndex_hashtags hrow howns)]
    exact exec_nameCheck hheld

/-! ## Runs -/

namespace NameLemmas

theorem unclashed_step (db : Db) (c : Call) (h : Unclashed Named db) :
    Unclashed Named (step db c) := by
  rw [step]
  split
  · next he => exact exec_unclashed clash_symm he h
  · exact h

theorem unclashed_run {db₀ : Db} (hfresh : Fresh db₀) (calls : List Call) :
    Unclashed Named (run db₀ calls) := by
  refine run_invariant (fun db c hdb _ => unclashed_step db c hdb) ?_ (along_true db₀ calls)
  intro t x hx y hy hnamed
  cases t with
  | bankAccounts =>
    rw [hfresh.bankAccounts] at hx
    cases hx
  | categories =>
    rw [hfresh.categories] at hx
    cases hx
  | hashtags =>
    rw [hfresh.hashtags] at hx
    cases hx
  | _ => exact absurd ⟨nofun, nofun, nofun⟩ hnamed

theorem tends_run {db₀ : Db} (hfresh : Fresh db₀) (calls : List Call) (u : Uuid) :
    Tends u (run db₀ calls) := by
  refine run_invariant (fun _ c hdb _ => hdb.step c) ?_ (along_true db₀ calls)
  intro t r hr
  cases t with
  | categories =>
    rw [hfresh.categories] at hr
    cases hr
  | _ => trivial

end NameLemmas

/-- In every state reached, no two active rows share a name; no statement of a
further call violates an index on `lower(name)`; and a call for a name that is
held is refused by the check of the service. -/
theorem active_names_stay_unique {db₀ : Db} (hfresh : Fresh db₀) (calls : List Call) :
    NamesUnique (run db₀ calls) ∧
    (∀ c : Call, (∀ accountId body, c.request = .createOpeningBalance accountId body →
      LowersAgree) → ChecksNames c.handle (run db₀ calls)) ∧
    ∀ (c : Call) e, NameRefused (run db₀ calls) c.userId c.request e →
      exec (c.request.work c.env c.userId) (run db₀ calls) = .error (.raised e) := by
  have hdb := unclashed_run hfresh calls
  refine ⟨namesUnique_of_unclashed hdb, fun c hlower => ?_, fun c e h => work_nameRefused h⟩
  exact checksNames_call hdb fun accountId body hreq =>
    ⟨hlower accountId body hreq, tends_run hfresh calls c.userId⟩

end Names

namespace Ascii

/-- The hashtag 50 is deleted, and the hashtag 51 has its name in other letters. -/
def retaken : List Call := [
  callAt 1 (.bootstrap "Ann".toList "UTC".toList),
  callAt 2 (.createHashtag ⟨50, "Trip".toList, none⟩),
  callAt 3 (.deleteHashtag 50),
  callAt 4 (.createHashtag ⟨51, "tRIP".toList, none⟩)]

/-- The two rows. -/
def tripDeleted : Row .hashtags :=
  ({ id := 50, userId := 1, createdAt := 2, updatedAt := 3, version := 2, deletedAt := some 3
     name := "Trip".toList, sortOrder := 0 } : HashtagRow)

def tripActive : Row .hashtags :=
  ({ id := 51, userId := 1, createdAt := 4, updatedAt := 4, version := 1, deletedAt := none
     name := "tRIP".toList, sortOrder := 1 } : HashtagRow)

end Ascii

open Ascii in
/-- The deleted hashtag cannot come back under the name. -/
theorem active_names_stay_unique_retaken :
    NamesUnique (run blank retaken) ∧
    ChecksNames (callAt 5 (.restoreHashtag 50)).handle (run blank retaken) ∧
    exec ((Request.restoreHashtag 50).work (envAt 5) 1) (run blank retaken) =
      .error (.raised (conflict ("Cannot restore hashtag: an active hashtag named " ++
        quoted tripDeleted.name ++ " already exists."))) := by
  obtain ⟨hunique, hchecks, hrefused⟩ := active_names_stay_unique fresh_blank retaken
  have hheld : NameHeld .hashtags (run blank retaken) 1 tripDeleted.name (some 50) anyRow :=
    ⟨tripActive, by decide +kernel, by decide +kernel, by decide +kernel, by decide +kernel,
      by decide +kernel, rfl⟩
  have hrow : tripDeleted ∈ (run blank retaken).rows .hashtags := by decide +kernel
  have howns : owns .hashtags 50 1 .deleted tripDeleted = true := by decide +kernel
  have hrestore := hrefused (callAt 5 (.restoreHashtag 50)) _ (.hashtagRestored hrow howns hheld)
  exact ⟨hunique, hchecks _ nofun, hrestore⟩

end ExpenseEngine
