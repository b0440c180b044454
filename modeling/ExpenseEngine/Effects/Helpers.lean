import ExpenseEngine.HashtagLinks
import ExpenseEngine.Sql.Exec

/-!
# What the shared helpers do

Run alone, each helper of `QueryBuilder`, `Validation` and `HashtagLinks` is a
test on the database it starts from followed by explicit writes. A service is
inverted by rewriting with the `…_ok` lemmas of its statements.

Results:
1. `exec_fetchOwnedRowOr404_ok`, `exec_lockOwnedRowOr404_ok`, `exec_updateRow`,
   `exec_mutateWithAudit`: fetch, update and audited mutation.
2. `exec_validateActiveAccount`, `exec_validateActiveCategory`: the reference
   rules.
3. `exec_cascadeDelete`, `exec_cascadeRestore`, `exec_syncHashtags`: the junction
   table.
-/

namespace ExpenseEngine

open Sql Sql.Prog

variable [Platform] {db db' : Db} {env : Env} {userId : Uuid}

/-! ## Fetch, update, log -/

theorem exec_fetch_ok {l : Label} {t : Tbl} {w : Row t → Bool} {rs : List (Row t)} :
    exec (fetch l t w) db = .ok (rs, db') ↔ rs = (db.rows t).filter w ∧ db' = db :=
  exec_read_ok

theorem exec_fetchRow_ok {l : Label} {t : Tbl} {w : Row t → Bool} {o : Option (Row t)} :
    exec (fetchRow l t w) db = .ok (o, db') ↔ o = (db.rows t).find? w ∧ db' = db :=
  exec_read_ok

theorem exec_fetchRowForUpdate_ok {t : Tbl} {w : Row t → Bool} {o : Option (Row t)} :
    exec (fetchRowForUpdate t w) db = .ok (o, db') ↔ o = (db.rows t).find? w ∧ db' = db := by
  simp only [fetchRowForUpdate, exec_bind_ok, exec_selectForUpdate_ok, exec_pure_ok]
  constructor
  · rintro ⟨_, _, ⟨rfl, rfl⟩, rfl, rfl⟩
    exact ⟨List.head?_filter, rfl⟩
  · rintro ⟨rfl, rfl⟩
    exact ⟨_, _, ⟨rfl, rfl⟩, List.head?_filter.symm, rfl⟩

theorem exec_dbNow_ok {now : Timestamp} :
    exec (dbNow env) db = .ok (now, db') ↔ now = env.now ∧ db' = db :=
  exec_pure_ok

/-- What a fetch by `find?` says of the row it returns. -/
theorem find?_row {t : Tbl} {w : Row t → Bool} {r : Row t} (h : (db.rows t).find? w = some r) :
    r ∈ db.rows t ∧ w r = true :=
  ⟨List.mem_of_find?_eq_some h, List.find?_some h⟩

/-- A fetch by a condition that fixes the key returns the row that meets it. -/
theorem find?_of_mem {t : Tbl} {w : Row t → Bool} {k : Key t} (hw : ∀ x, w x = true → keyOf t x = k)
    {r : Row t} (hr : r ∈ db.rows t) (hwr : w r = true) : (db.rows t).find? w = some r := by
  cases h : (db.rows t).find? w with
  | none => exact absurd hwr (by simpa using List.find?_eq_none.mp h r hr)
  | some x =>
    obtain ⟨hx, hwx⟩ := find?_row h
    have hxr : x = r := Table.eq_of_key_eq hx hr ((hw x hwx).trans (hw r hwr).symm)
    rw [hxr]

section Owned

variable {t : Tbl} [OwnedTable t] {id : Uuid} {s : RowState} {resource : String} {row : Row t}

omit [Platform] in
theorem owns_either : owns t id userId .either row = true ↔
    (OwnedTable.resource row).id = id ∧ (OwnedTable.resource row).userId = userId := by
  simp [owns, RowState.holds]

omit [Platform] in
theorem owns_active : owns t id userId .active row = true ↔ (OwnedTable.resource row).id = id ∧
    (OwnedTable.resource row).userId = userId ∧ (OwnedTable.resource row).deletedAt = none := by
  simp [owns, RowState.holds, and_assoc]

omit [Platform] in
theorem owns_deleted : owns t id userId .deleted row = true ↔ (OwnedTable.resource row).id = id ∧
    (OwnedTable.resource row).userId = userId ∧ (OwnedTable.resource row).deletedAt ≠ none := by
  simp [owns, RowState.holds, and_assoc, Option.isSome_iff_ne_none]

theorem exec_fetchOwnedRowOr404_ok :
    exec (fetchOwnedRowOr404 t id userId resource s) db = .ok (row, db') ↔
      (db.rows t).find? (owns t id userId s) = some row ∧ db' = db := by
  simp only [fetchOwnedRowOr404, fetchOwnedRow, exec_bind_ok, exec_fetchRow_ok, exec_orRaise_ok]
  constructor
  · rintro ⟨_, _, ⟨rfl, rfl⟩, h⟩
    exact h
  · exact fun h => ⟨_, _, ⟨rfl, rfl⟩, h⟩

theorem exec_lockOwnedRowOr404_ok :
    exec (lockOwnedRowOr404 t id userId resource s) db = .ok (row, db') ↔
      (db.rows t).find? (owns t id userId s) = some row ∧ db' = db := by
  simp only [lockOwnedRowOr404, exec_bind_ok, exec_fetchRowForUpdate_ok, exec_orRaise_ok]
  constructor
  · rintro ⟨_, _, ⟨rfl, rfl⟩, h⟩
    exact h
  · exact fun h => ⟨_, _, ⟨rfl, rfl⟩, h⟩

end Owned

theorem exec_updateRow {t : Tbl} {w : Row t → Bool} {f : Change Row t} {o : Option (Row t)}
    (h : exec (updateRow t w f) db = .ok (o, db')) :
    o = ((db.rows t).find? w).map f.apply ∧ db' = db.modify t w f := by
  simp only [updateRow, exec_bind_ok, exec_pure_ok] at h
  obtain ⟨rs, db₁, h, rfl, rfl⟩ := h
  obtain ⟨rfl, rfl⟩ := exec_updateWhere h
  simp [List.head?_map, List.head?_filter]

theorem exec_writeActivityLog {logId resourceId : Uuid} {resourceType : String}
    {action : ActivityAction} {before after : Option Body} {u : Unit}
    (h : exec (writeActivityLog env logId userId resourceType resourceId action before after) db =
      .ok (u, db')) :
    ∃ log, db' = db.put .activityLog log :=
  ⟨_, (exec_insertOrAbort_ok.mp h).2⟩

/-- A program that writes no table leaves the database as it was. -/
theorem exec_readOnly {α : Type} {p : Op α} {a : α} (hp : p.WritesOnly fun _ => False)
    (h : exec p db = .ok (a, db')) : db' = db :=
  funext fun _ => exec_frame hp h id

section Audit

variable {t : Tbl} [OwnedTable t] {resourceType : String} {row : Row t} {before b : Body}
  {serialize : Row t → Op Body} {mutate : Uuid → Uuid → Op (Option (Row t))}
  {action : ActivityAction}

theorem exec_mutateWithAudit {w : Row t → Bool} {f : Change Row t}
    (hmutate : mutate (OwnedTable.resource row).id userId = updateRow t w f)
    (hser : ∀ r, (serialize r).WritesOnly fun _ => False)
    (h : exec (mutateWithAudit env userId t resourceType row before serialize mutate action) db =
      .ok (b, db')) :
    ∃ log, db' = (db.modify t w f).put .activityLog log := by
  simp only [mutateWithAudit, exec_bind_ok, exec_orRaise_ok, exec_pure_ok, hmutate] at h
  obtain ⟨_, _, hupd, _, _, ⟨-, rfl⟩, _, _, hs, _, _, hlog, -, rfl⟩ := h
  obtain ⟨-, rfl⟩ := exec_updateRow hupd
  obtain rfl := exec_readOnly (hser _) hs
  exact exec_writeActivityLog hlog

theorem exec_softDeleteWithAudit (hser : ∀ r, (serialize r).WritesOnly fun _ => False)
    (h : exec (softDeleteWithAudit env userId t resourceType row before serialize) db =
      .ok (b, db')) :
    ∃ log, db' = (db.modify t (owns t (OwnedTable.resource row).id userId .either)
      (marked t env.now (some env.now))).put .activityLog log :=
  exec_mutateWithAudit rfl hser h

theorem exec_restoreWithAudit (hser : ∀ r, (serialize r).WritesOnly fun _ => False)
    (h : exec (restoreWithAudit env userId t resourceType row before serialize) db =
      .ok (b, db')) :
    ∃ log, db' = (db.modify t (owns t (OwnedTable.resource row).id userId .deleted)
      (marked t env.now none)).put .activityLog log :=
  exec_mutateWithAudit rfl hser h

end Audit

/-! ## References and names -/

/-- `a` names an active, non-archived account of the user. -/
def HasActiveAccount (db : Db) (userId a : Uuid) : Prop :=
  ∃ r ∈ db.rows .bankAccounts, r.id = a ∧ isActiveAccount userId r = true

/-- `c` names an active category of the user. -/
def HasActiveCategory (db : Db) (userId c : Uuid) : Prop :=
  ∃ r ∈ db.rows .categories, r.id = c ∧ isActiveCategory userId r = true

/-- `c` names an active category of the user that is not a system category. -/
def HasUserCategory (db : Db) (userId c : Uuid) : Prop :=
  ∃ r ∈ db.rows .categories, r.id = c ∧ isActiveCategory userId r = true ∧ r.systemKey = none

/-- `h` names an active hashtag of the user. -/
def HasActiveHashtag (db : Db) (userId h : Uuid) : Prop :=
  ∃ r ∈ db.rows .hashtags, r.id = h ∧ r.userId = userId ∧ r.deletedAt = none

theorem HasUserCategory.hasActive {c : Uuid} (h : HasUserCategory db userId c) :
    HasActiveCategory db userId c := by
  obtain ⟨r, hr, hid, hactive, -⟩ := h
  exact ⟨r, hr, hid, hactive⟩

theorem exec_activeAccountRow {a : Uuid} {o : Option (Row .bankAccounts)}
    (h : exec (activeAccountRow a userId) db = .ok (o, db')) :
    db' = db ∧ (o.isSome → HasActiveAccount db userId a) := by
  obtain ⟨rfl, rfl⟩ := exec_fetchRow_ok.mp h
  refine ⟨rfl, fun ho => ?_⟩
  obtain ⟨r, hr⟩ := Option.isSome_iff_exists.mp ho
  obtain ⟨hmem, hw⟩ := find?_row hr
  simp only [Bool.and_eq_true, decide_eq_true_eq] at hw
  exact ⟨r, hmem, hw⟩

theorem exec_activeCategoryRow {c : Uuid} {o : Option (Row .categories)}
    (h : exec (activeCategoryRow c userId) db = .ok (o, db')) :
    db' = db ∧ (o.isSome → HasActiveCategory db userId c) := by
  obtain ⟨rfl, rfl⟩ := exec_fetchRow_ok.mp h
  refine ⟨rfl, fun ho => ?_⟩
  obtain ⟨r, hr⟩ := Option.isSome_iff_exists.mp ho
  obtain ⟨hmem, hw⟩ := find?_row hr
  simp only [Bool.and_eq_true, decide_eq_true_eq] at hw
  exact ⟨r, hmem, hw⟩

theorem exec_validateActiveAccount {a : Uuid} {r : Row .bankAccounts}
    (h : exec (validateActiveAccount a userId) db = .ok (r, db')) :
    db' = db ∧ HasActiveAccount db userId a := by
  simp only [validateActiveAccount, exec_bind_ok, exec_orRaise_ok] at h
  obtain ⟨o, _, h, rfl, rfl⟩ := h
  obtain ⟨rfl, hsome⟩ := exec_activeAccountRow h
  exact ⟨rfl, hsome rfl⟩

theorem exec_validateActiveCategory {c : Uuid} {r : Row .categories}
    (h : exec (validateActiveCategory c userId) db = .ok (r, db')) :
    db' = db ∧ HasActiveCategory db userId c := by
  simp only [validateActiveCategory, exec_bind_ok, exec_orRaise_ok] at h
  obtain ⟨o, _, h, rfl, rfl⟩ := h
  obtain ⟨rfl, hsome⟩ := exec_activeCategoryRow h
  exact ⟨rfl, hsome rfl⟩

theorem exec_normalizeName_ok {name name' : Text} {field : String} :
    exec (normalizeName name field) db = .ok (name', db') ↔
      cleanName (some name) = some name' ∧ db' = db :=
  exec_orRaise_ok

theorem exec_validateColor_ok {value : Option Text} {u : Unit} :
    exec (validateColor value) db = .ok (u, db') ↔
      ¬(value.any fun v => !isHexColor v) = true ∧ db' = db :=
  exec_raiseIf_ok

theorem exec_rejectZeroAmount_ok {value : Option Int} {u : Unit} :
    exec (rejectZeroAmount value) db = .ok (u, db') ↔ value ≠ some 0 ∧ db' = db :=
  exec_raiseIf_ok

/-! ## The junction table -/

theorem exec_fetchHashtagIds_ok {parentId : Uuid} {source : TransactionSource} {ids : List Uuid} :
    exec (fetchHashtagIds parentId source) db = .ok (ids, db') ↔
      ids = hashtagIdsOf db parentId source ∧ db' = db :=
  exec_read_ok

theorem exec_attachHashtagIds_ok {row : Row .transactions} {r : TransactionResponse} :
    exec (attachHashtagIds row) db = .ok (r, db') ↔
      r = { row with hashtagIds := hashtagIdsOf db row.id .ledger } ∧ db' = db := by
  simp only [attachHashtagIds, exec_bind_ok, exec_fetchHashtagIds_ok, exec_pure_ok]
  constructor
  · rintro ⟨_, _, ⟨rfl, rfl⟩, h⟩
    exact h
  · exact fun h => ⟨_, _, ⟨rfl, rfl⟩, h⟩

theorem exec_attachInboxHashtagIds_ok {row : Row .transactionInbox} {r : InboxResponse} :
    exec (attachInboxHashtagIds row) db = .ok (r, db') ↔
      r = { row with hashtagIds := hashtagIdsOf db row.id .inbox } ∧ db' = db := by
  simp only [attachInboxHashtagIds, exec_bind_ok, exec_fetchHashtagIds_ok, exec_pure_ok]
  constructor
  · rintro ⟨_, _, ⟨rfl, rfl⟩, h⟩
    exact h
  · exact fun h => ⟨_, _, ⟨rfl, rfl⟩, h⟩

/-- The junction table after a cascade. -/
def Db.cascaded (env : Env) (userId parentId : Uuid) (source : TransactionSource)
    (keepHashtagIds : List Uuid) (db : Db) : Db :=
  db.modify .transactionHashtags (leaves userId parentId source keepHashtagIds)
    (linkMarked env.now (some env.now))

/-- The junction table after the revival of the rows dropped at `marker`. -/
def Db.revived (env : Env) (userId parentId : Uuid) (source : TransactionSource)
    (marker : Option Timestamp) (db : Db) : Db :=
  db.modify .transactionHashtags (droppedAt userId parentId source marker)
    (linkMarked env.now none)

/-- The junction table after the parent's hashtags became `hashtagIds`. -/
def Db.synced (env : Env) (parentId userId : Uuid) (source : TransactionSource)
    (hashtagIds : List Uuid) (db : Db) : Db :=
  (db.cascaded env userId parentId source hashtagIds).upsert .transactionHashtags
    (fun r => r.deletedAt.isSome) (linkMarked env.now none)
    (hashtagIds.map (newLink env userId parentId source))

/-- The junction table after `if hashtag_ids: sync_hashtags(…)`. -/
def Db.tagged (env : Env) (parentId userId : Uuid) (source : TransactionSource)
    (hashtagIds : List Uuid) (db : Db) : Db :=
  if hashtagIds = [] then db else db.synced env parentId userId source hashtagIds

/-- The junction table after `if hashtag_ids is not None: sync_hashtags(…)`. -/
def Db.retagged (env : Env) (parentId userId : Uuid) (source : TransactionSource) :
    Option (List Uuid) → Db → Db
  | none, db => db
  | some hashtagIds, db => db.synced env parentId userId source hashtagIds

section Links

variable {parentId : Uuid} {source : TransactionSource} {hashtagIds : List Uuid} {u : Unit}

@[simp] theorem cascaded_ne {t : Tbl} (h : t ≠ .transactionHashtags) :
    db.cascaded env userId parentId source hashtagIds t = db t :=
  Db.modify_ne _ _ _ h

@[simp] theorem revived_ne {marker : Option Timestamp} {t : Tbl} (h : t ≠ .transactionHashtags) :
    db.revived env userId parentId source marker t = db t :=
  Db.modify_ne _ _ _ h

@[simp] theorem synced_ne {t : Tbl} (h : t ≠ .transactionHashtags) :
    db.synced env parentId userId source hashtagIds t = db t :=
  (Db.upsert_ne _ _ _ _ h).trans (cascaded_ne h)

@[simp] theorem tagged_ne {t : Tbl} (h : t ≠ .transactionHashtags) :
    db.tagged env parentId userId source hashtagIds t = db t := by
  unfold Db.tagged
  split
  · rfl
  · exact synced_ne h

@[simp] theorem retagged_ne {given : Option (List Uuid)} {t : Tbl}
    (h : t ≠ .transactionHashtags) :
    Db.retagged env parentId userId source given db t = db t := by
  cases given with
  | none => rfl
  | some ids => exact synced_ne h

theorem exec_cascadeDelete
    (h : exec (cascadeDelete env userId parentId source hashtagIds) db = .ok (u, db')) :
    db' = db.cascaded env userId parentId source hashtagIds := by
  simp only [cascadeDelete, exec_bind_ok, exec_pure_ok] at h
  obtain ⟨_, _, h, -, rfl⟩ := h
  exact (exec_updateWhere h).2

theorem exec_cascadeRestore {marker : Option Timestamp}
    (h : exec (cascadeRestore env userId parentId source marker) db = .ok (u, db')) :
    db' = db.revived env userId parentId source marker := by
  simp only [cascadeRestore, exec_bind_ok, exec_pure_ok] at h
  obtain ⟨_, _, h, -, rfl⟩ := h
  exact (exec_updateWhere h).2

theorem exec_syncHashtags
    (h : exec (syncHashtags env parentId userId hashtagIds source) db = .ok (u, db')) :
    db' = db.synced env parentId userId source hashtagIds ∧
      ∀ x ∈ hashtagIds, HasActiveHashtag db userId x := by
  unfold syncHashtags at h
  split at h
  · next hnil =>
    rw [List.isEmpty_iff] at hnil
    subst hnil
    refine ⟨(exec_cascadeDelete h).trans ?_, by simp⟩
    simp [Db.synced, Db.upsert]
  · simp only [fetchValidHashtags, exec_bind_ok, exec_fetch_ok, exec_pure_ok,
      exec_raiseIf_ok] at h
    obtain ⟨valid, _, ⟨_, _, ⟨rfl, rfl⟩, rfl, rfl⟩, _, _, ⟨hvalid, rfl⟩, _, _, hcascade, h⟩ := h
    obtain rfl := exec_cascadeDelete hcascade
    refine ⟨exec_upsertEach h, fun x hx => ?_⟩
    by_contra hno
    refine hvalid ?_
    simp only [Bool.not_eq_true', List.isEmpty_eq_false_iff_exists_mem]
    refine ⟨x, List.mem_filter.mpr ⟨hx, ?_⟩⟩
    simp only [List.mem_map, List.mem_filter, decide_eq_true_eq, not_exists, not_and, and_imp]
    rintro r hr - hu hd rfl
    exact hno ⟨r, hr, rfl, hu, hd⟩

theorem exec_syncIfAny
    (h : exec (syncIfAny env parentId userId hashtagIds source) db = .ok (u, db')) :
    db' = db.tagged env parentId userId source hashtagIds ∧
      ∀ x ∈ hashtagIds, HasActiveHashtag db userId x := by
  unfold syncIfAny at h
  unfold Db.tagged
  split at h
  · next hnil =>
    obtain ⟨-, rfl⟩ := exec_pure_ok.mp h
    simp [hnil]
  · next hne =>
    rw [if_neg hne]
    exact exec_syncHashtags h

theorem exec_syncIfGiven {given : Option (List Uuid)}
    (h : exec (syncIfGiven env parentId userId given source) db = .ok (u, db')) :
    db' = Db.retagged env parentId userId source given db ∧
      ∀ ids, given = some ids → ∀ x ∈ ids, HasActiveHashtag db userId x := by
  unfold syncIfGiven at h
  split at h
  · obtain ⟨-, rfl⟩ := exec_pure_ok.mp h
    simp [Db.retagged]
  · obtain ⟨rfl, hvalid⟩ := exec_syncHashtags h
    refine ⟨rfl, ?_⟩
    rintro _ ⟨⟩
    exact hvalid

end Links

end ExpenseEngine
