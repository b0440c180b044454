import ExpenseEngine.Accounts
import ExpenseEngine.Effects.Ledger

/-!
# What the account, category and hashtag services do

Results:
1. `exec_updateNamedResource`, `exec_createCategory`, `exec_deleteCategory`,
   `exec_restoreCategory`, `exec_ensureSystemCategory`.
2. `exec_createHashtag`, `exec_deleteHashtag`, `exec_restoreHashtag`.
3. `exec_createAccount`, `exec_updateAccount`, `exec_setAccountArchive`,
   `exec_deleteAccount`, `exec_restoreAccount`, `exec_createOpeningBalance`.
-/

namespace ExpenseEngine

open Sql Sql.Prog

variable [Platform] {db db₁ db' : Db} {env : Env} {userId : Uuid}

/-! ## Shared rules -/

section Named

variable {t : Tbl} [NamedTable t]

theorem writesOnly_nextSortOrder {W : Tbl → Prop} {scope : Row t → Bool} :
    (nextSortOrder t userId scope).WritesOnly W := by
  refine WritesOnly.bind (writesOnly_read _ _) fun slots => ?_
  split
  · trivial
  · split <;> trivial

theorem exec_slotOrNext {scope : Row t → Bool} {given : Option Int} {n : Int}
    (h : exec (slotOrNext t userId scope given) db = .ok (n, db')) : db' = db := by
  cases given with
  | some m => exact (exec_pure_ok.mp h).2
  | none => exact exec_readOnly writesOnly_nextSortOrder h

theorem exec_nameTaken_ok {name : Text} {exclude : Option Uuid} {scope : Row t → Bool} {b : Bool}
    (h : exec (nameTaken t userId name exclude scope) db = .ok (b, db')) : db' = db :=
  (exec_read_ok.mp h).2

theorem exec_updateNamedResource {resourceType : String} {resourceId : Uuid} {isEmpty : Bool}
    {rename color : Option Text} {set : Option Text → Change Row t} {serialize : Row t → Body}
    {checkName : Row t → Text → Op Unit}
    (hcheck : ∀ r n, (checkName r n).WritesOnly fun _ => False) {b : Body}
    (h : exec (updateNamedResource env userId t resourceType resourceId isEmpty rename color set
      serialize checkName) db = .ok (b, db')) :
    db' = db ∨ ∃ name, CoreEq db' (db.modify t (owns t resourceId userId .active)
      (bumped t env.now (set name))) := by
  simp only [updateNamedResource, exec_bind_ok, exec_fetchOwnedRowOr404_ok] at h
  obtain ⟨row, _, ⟨-, rfl⟩, h⟩ := h
  split at h
  · exact .inl (exec_pure_ok.mp h).2
  · simp only [exec_bind_ok, exec_validateColor_ok, dynamicUpdate, exec_orRaise_ok,
      exec_pure_ok] at h
    obtain ⟨_, _, ⟨-, rfl⟩, name, _, hname, _, _, hupd, _, _, ⟨-, rfl⟩, _, _, hlog, -, rfl⟩ := h
    have hread : (updateNamedResource.normalizeRename userId t resourceType resourceId rename
        checkName row).WritesOnly fun _ => False := by
      unfold updateNamedResource.normalizeRename
      split
      · trivial
      · refine WritesOnly.bind (writesOnly_orRaise _ _) fun n => ?_
        refine WritesOnly.bind (hcheck row n) fun _ => ?_
        refine WritesOnly.bind (writesOnly_read _ _) fun _ => ?_
        exact WritesOnly.bind (writesOnly_raiseIf _ _) fun _ => trivial
    obtain rfl := exec_readOnly hread hname
    obtain ⟨-, rfl⟩ := exec_updateRow hupd
    obtain ⟨log, rfl⟩ := exec_writeActivityLog hlog
    exact .inr ⟨name, .log log⟩

end Named

/-! ## Categories -/

theorem writesOnly_checkCategoryName {W : Tbl → Prop} {r : Row .categories} {n : Text} :
    (checkCategoryName r n).WritesOnly W := by
  unfold checkCategoryName rejectReservedName
  split
  · exact writesOnly_raiseIf _ _
  · trivial

/-- `categoryId` is the user's system category, there already or seeded. -/
def SystemSeeded (userId : Uuid) (key : SystemCategoryKey) (categoryId : Uuid)
    (db db' : Db) : Prop :=
  (db' = db ∧ ∃ r ∈ db.rows .categories, r.id = categoryId ∧ isSystemCategory userId key r = true) ∨
    ∃ r : Row .categories, r.id = categoryId ∧ r.userId = userId ∧ r.deletedAt = none ∧
      db.tryInsert .categories r (isSystemCategory userId key) = some .inserted ∧
      db' = db.put .categories r

theorem exec_ensureSystemCategory {key : SystemCategoryKey} {categoryId : Uuid}
    (h : exec (ensureSystemCategory env userId key) db = .ok (categoryId, db')) :
    SystemSeeded userId key categoryId db db' := by
  simp only [ensureSystemCategory, exec_bind_ok, exec_fetchRow_ok] at h
  obtain ⟨_, db, ⟨rfl, rfl⟩, h⟩ := h
  split at h
  · next row hfind =>
    obtain ⟨rfl, rfl⟩ := exec_pure_ok.mp h
    obtain ⟨hrow, hw⟩ := find?_row hfind
    exact .inl ⟨rfl, row, hrow, rfl, hw⟩
  · simp only [exec_bind_ok, exec_insertOrSkip_ok] at h
    obtain ⟨o, _, ⟨hins, rfl⟩, h⟩ := h
    cases o with
    | inserted =>
      obtain ⟨rfl, rfl⟩ := exec_pure_ok.mp h
      exact .inr ⟨_, rfl, rfl, rfl, hins, by simp⟩
    | violation => cases h
    | skipped =>
      simp only [exec_bind_ok, exec_fetchRow_ok, exec_orRaise_ok, exec_pure_ok] at h
      obtain ⟨_, _, ⟨rfl, rfl⟩, row, _, ⟨hfind, rfl⟩, rfl, rfl⟩ := h
      obtain ⟨hrow, hw⟩ := find?_row hfind
      exact .inl ⟨rfl, row, hrow, rfl, hw⟩

/-- A create of a named resource: one new row, active and the user's. -/
def InsertsOne (t : Tbl) [OwnedTable t] (userId : Uuid) (db db' : Db) : Prop :=
  ∃ r : Row t, (OwnedTable.resource r).userId = userId ∧ (OwnedTable.resource r).deletedAt = none ∧
    Inserts db t r ∧ CoreEq db' (db.put t r)

theorem exec_createCategory {body : CategoryCreateRequest} {b : Body}
    (h : exec (createCategory env userId body) db = .ok (b, db')) :
    InsertsOne .categories userId db db' := by
  simp only [createCategory, exec_bind_ok, exec_normalizeName_ok, rejectReservedName,
    exec_raiseIf_ok, exec_validateColor_ok, exec_insertRow_ok, exec_pure_ok, ne_eq, not_not] at h
  obtain ⟨_, _, ⟨-, rfl⟩, _, _, ⟨-, rfl⟩, _, _, ⟨-, rfl⟩, _, _, hname, _, _, ⟨-, rfl⟩, _, _, hslot,
    _, _, ⟨hins, rfl⟩, _, _, ⟨rfl, rfl⟩, _, _, hlog, -, rfl⟩ := h
  obtain rfl := exec_nameTaken_ok hname
  obtain rfl := exec_slotOrNext hslot
  obtain ⟨log, rfl⟩ := exec_writeActivityLog hlog
  exact ⟨_, rfl, rfl, hins, .log log⟩

/-- No active transaction of the user is filed under the category, and no
active draft. -/
def CategoryUnreferenced (userId categoryId : Uuid) (db : Db) : Prop :=
  (∀ t ∈ db.rows .transactions, t.categoryId = categoryId → t.userId = userId →
    t.deletedAt ≠ none) ∧
  ∀ d ∈ db.rows .transactionInbox, d.categoryId = some categoryId → d.userId = userId →
    d.deletedAt ≠ none

theorem exec_deleteCategory {categoryId : Uuid} {b : Body}
    (h : exec (deleteCategory env userId categoryId) db = .ok (b, db')) :
    CategoryUnreferenced userId categoryId db ∧
      CoreEq db' (db.modify .categories (owns .categories categoryId userId .either)
        (marked .categories env.now (some env.now))) := by
  simp only [deleteCategory, exec_bind_ok, exec_fetchOwnedRowOr404_ok, exec_raiseIf_ok,
    exec_fetchRow_ok] at h
  obtain ⟨row, _, ⟨hfind, rfl⟩, _, _, ⟨-, rfl⟩, _, _, ⟨rfl, rfl⟩, _, _, ⟨htxns, rfl⟩, _, _,
    ⟨rfl, rfl⟩, _, _, ⟨hinbox, rfl⟩, h⟩ := h
  obtain ⟨log, rfl⟩ := exec_softDeleteWithAudit (fun _ => writesOnly_pure _) h
  obtain ⟨hid, -, -⟩ := owns_active.mp (find?_row hfind).2
  rw [Bool.not_eq_true, Option.isSome_eq_false_iff, Option.isNone_iff_eq_none,
    List.find?_eq_none] at htxns hinbox
  refine ⟨⟨fun t ht hc hu hd => htxns t ht (decide_eq_true ⟨hc, hu, hd⟩),
    fun d hd hc hu hdel => hinbox d hd (decide_eq_true ⟨hc, hu, hdel⟩)⟩, ?_⟩
  rw [hid]
  exact .log log

theorem exec_restoreCategory {categoryId : Uuid} {b : Body}
    (h : exec (restoreCategory env userId categoryId) db = .ok (b, db')) :
    CoreEq db' (db.modify .categories (owns .categories categoryId userId .deleted)
      (marked .categories env.now none)) := by
  simp only [restoreCategory, exec_bind_ok, exec_fetchOwnedRowOr404_ok, exec_raiseIf_ok] at h
  obtain ⟨row, _, ⟨hfind, rfl⟩, _, _, hcheck, _, _, hname, _, _, ⟨-, rfl⟩, h⟩ := h
  obtain rfl := exec_readOnly writesOnly_checkCategoryName hcheck
  obtain rfl := exec_nameTaken_ok hname
  obtain ⟨log, rfl⟩ := exec_restoreWithAudit (fun _ => writesOnly_pure _) h
  rw [(owns_deleted.mp (find?_row hfind).2).1]
  exact .log log

/-! ## Hashtags -/

theorem exec_createHashtag {body : HashtagCreateRequest} {b : Body}
    (h : exec (createHashtag env userId body) db = .ok (b, db')) :
    InsertsOne .hashtags userId db db' := by
  simp only [createHashtag, exec_bind_ok, exec_normalizeName_ok, exec_raiseIf_ok,
    exec_insertRow_ok, exec_pure_ok, ne_eq, not_not] at h
  obtain ⟨_, _, ⟨-, rfl⟩, _, _, hname, _, _, ⟨-, rfl⟩, _, _, hslot, _, _, ⟨hins, rfl⟩, _, _,
    ⟨rfl, rfl⟩, _, _, hlog, -, rfl⟩ := h
  obtain rfl := exec_nameTaken_ok hname
  obtain rfl := exec_slotOrNext hslot
  obtain ⟨log, rfl⟩ := exec_writeActivityLog hlog
  exact ⟨_, rfl, rfl, hins, .log log⟩

/-- The database after the parents in `ids` were bumped. -/
def Db.parentsBumped (env : Env) (t : Tbl) [OwnedTable t] (userId : Uuid) (ids : List Uuid)
    (db : Db) : Db :=
  db.modify t
    (fun r => decide ((OwnedTable.resource r).id ∈ ids ∧ (OwnedTable.resource r).userId = userId))
    (bumped t env.now (noChange t))

theorem exec_bumpParents {t : Tbl} [OwnedTable t] {ids : List Uuid} {u : Unit}
    (h : exec (bumpParents env t userId ids) db = .ok (u, db')) :
    db' = Db.parentsBumped env t userId ids db := by
  unfold bumpParents at h
  split at h
  · next hnil =>
    obtain ⟨-, rfl⟩ := exec_pure_ok.mp h
    rw [List.isEmpty_iff] at hnil
    subst hnil
    rw [Db.parentsBumped, Sql.Db.modify, eq_comm, Function.update_eq_self_iff]
    ext1
    simp
  · simp only [exec_bind_ok, exec_pure_ok] at h
    obtain ⟨_, _, h, -, rfl⟩ := h
    exact (exec_updateWhere h).2

/-- The database after the hashtag's links were dropped, their parents bumped
and the hashtag deleted. -/
def Db.hashtagDeleted (env : Env) (userId hashtagId : Uuid) (ledgerIds inboxIds : List Uuid)
    (db : Db) : Db :=
  Sql.Db.modify
    (Db.parentsBumped env .transactionInbox userId inboxIds
      (Db.parentsBumped env .transactions userId ledgerIds
        (db.modify .transactionHashtags (isHashtagLink userId hashtagId)
          (linkMarked env.now (some env.now)))))
    .hashtags (owns .hashtags hashtagId userId .either) (marked .hashtags env.now (some env.now))

theorem exec_deleteHashtag {hashtagId : Uuid} {b : Body}
    (h : exec (deleteHashtag env userId hashtagId) db = .ok (b, db')) :
    HasActiveHashtag db userId hashtagId ∧ ∃ ledgerIds inboxIds,
      CoreEq db' (db.hashtagDeleted env userId hashtagId ledgerIds inboxIds) := by
  simp only [deleteHashtag, exec_bind_ok, exec_fetchOwnedRowOr404_ok] at h
  obtain ⟨row, _, ⟨hfind, rfl⟩, _, _, hlinks, _, _, htxns, _, _, hinbox, h⟩ := h
  obtain ⟨rfl, rfl⟩ := exec_updateWhere hlinks
  obtain rfl := exec_bumpParents htxns
  obtain rfl := exec_bumpParents hinbox
  obtain ⟨log, rfl⟩ := exec_softDeleteWithAudit (fun _ => writesOnly_pure _) h
  have howned := owns_active.mp (find?_row hfind).2
  rw [howned.1]
  exact ⟨⟨row, (find?_row hfind).1, howned⟩, _, _, .log log⟩

theorem exec_restoreHashtag {hashtagId : Uuid} {b : Body}
    (h : exec (restoreHashtag env userId hashtagId) db = .ok (b, db')) :
    CoreEq db' (db.modify .hashtags (owns .hashtags hashtagId userId .deleted)
      (marked .hashtags env.now none)) := by
  simp only [restoreHashtag, exec_bind_ok, exec_fetchOwnedRowOr404_ok, exec_raiseIf_ok] at h
  obtain ⟨row, _, ⟨hfind, rfl⟩, _, _, hname, _, _, ⟨-, rfl⟩, h⟩ := h
  obtain rfl := exec_nameTaken_ok hname
  obtain ⟨log, rfl⟩ := exec_restoreWithAudit (fun _ => writesOnly_pure _) h
  rw [(owns_deleted.mp (find?_row hfind).2).1]
  exact .log log

/-! ## Accounts -/

section ReadOnly

variable {W : Tbl → Prop}

theorem writesOnly_fetchBalances {ids : List Uuid} : (fetchBalances userId ids).WritesOnly W := by
  unfold fetchBalances
  split
  · trivial
  · refine WritesOnly.bind (writesOnly_read _ _) fun balances => ?_
    split <;> trivial

theorem writesOnly_fetchHomeBalance {currencyCode : Text} {n : Int} :
    (fetchHomeBalance env userId currencyCode n).WritesOnly W := by
  refine WritesOnly.bind ?_ fun settings => WritesOnly.bind ?_ fun result => ?_
  · refine WritesOnly.bind (writesOnly_read _ _) fun _ => ?_
    refine WritesOnly.bind (writesOnly_orRaise _ _) fun _ => ?_
    exact WritesOnly.bind (writesOnly_raiseIf _ _) fun _ => trivial
  · unfold getRate
    simp only
    split
    · trivial
    · exact WritesOnly.bind (writesOnly_read _ _) fun _ => writesOnly_orRaise _ _
  · cases result with
    | none => trivial
    | some _ => exact WritesOnly.bind (writesOnly_orRaise _ _) fun _ => trivial

theorem writesOnly_fetchBothBalances {row : Row .bankAccounts} :
    (fetchBothBalances env userId row).WritesOnly W :=
  WritesOnly.bind (WritesOnly.bind writesOnly_fetchBalances fun _ => trivial) fun _ =>
    WritesOnly.bind writesOnly_fetchHomeBalance fun _ => trivial

end ReadOnly

theorem exec_createAccount {body : AccountCreateRequest} {isPerson : Bool} {b : Body}
    (h : exec (createAccount env userId body isPerson) db = .ok (b, db')) :
    InsertsOne .bankAccounts userId db db' := by
  simp only [createAccount, exec_bind_ok, exec_normalizeName_ok, exec_validateColor_ok] at h
  obtain ⟨_, _, ⟨-, rfl⟩, _, _, ⟨-, rfl⟩, h⟩ := h
  split at h
  · cases h
  · simp only [exec_bind_ok, exec_raiseIf_ok, exec_insertRow_ok, exec_pure_ok, ne_eq,
      not_not] at h
    obtain ⟨_, _, hname, _, _, ⟨-, rfl⟩, _, _, hslot, _, _, ⟨hins, rfl⟩, _, _, ⟨rfl, rfl⟩, _, _,
      hhome, _, _, hlog, -, rfl⟩ := h
    obtain rfl := exec_nameTaken_ok hname
    obtain rfl := exec_slotOrNext hslot
    obtain rfl := exec_readOnly writesOnly_fetchHomeBalance hhome
    obtain ⟨log, rfl⟩ := exec_writeActivityLog hlog
    exact ⟨_, rfl, rfl, hins, .log log⟩

theorem exec_createOpeningBalance {accountId : Uuid} {body : OpeningBalanceRequest} {b : Body}
    (h : exec (createOpeningBalance env userId accountId body) db = .ok (b, db')) :
    ∃ db₁ item, item.id = body.transactionId ∧ item.amountCents = body.amountCents ∧
      SystemSeeded userId .openingBalance item.categoryId db db₁ ∧
      Creatable env userId item db₁ ∧ CoreEq db' (db₁.created env userId item) := by
  simp only [createOpeningBalance, exec_bind_ok, exec_raiseIf_ok, exec_read_ok] at h
  obtain ⟨_, _, hacc, _, _, ⟨-, rfl⟩, _, _, ⟨-, rfl⟩, _, _, ⟨-, rfl⟩, categoryId, _, hseed, h⟩ := h
  obtain ⟨rfl, -⟩ := exec_validateActiveAccount hacc
  obtain ⟨hcreatable, hcore⟩ := exec_createTransaction h
  exact ⟨_, _, rfl, rfl, exec_ensureSystemCategory hseed, hcreatable, hcore⟩

theorem exec_updateAccount {accountId : Uuid} {fields : AccountFields} {b : Body}
    (h : exec (updateAccount env userId accountId fields) db = .ok (b, db')) :
    db' = db ∨ ∃ name, CoreEq db' (db.modify .bankAccounts
      (owns .bankAccounts accountId userId .active)
      (bumped .bankAccounts env.now (setAccount fields name))) := by
  simp only [updateAccount, exec_bind_ok, exec_validateColor_ok, exec_raiseIf_ok,
    exec_fetchOwnedRowOr404_ok] at h
  obtain ⟨_, _, ⟨-, rfl⟩, _, _, ⟨-, rfl⟩, row, _, ⟨hfind, rfl⟩, h⟩ := h
  split at h
  · simp only [exec_bind_ok, exec_pure_ok] at h
    obtain ⟨_, _, hbal, -, rfl⟩ := h
    exact .inl (exec_readOnly writesOnly_fetchBothBalances hbal)
  · simp only [exec_bind_ok, dynamicUpdate, exec_orRaise_ok, exec_pure_ok] at h
    obtain ⟨name, _, hname, _, _, hbal, _, _, hupd, _, _, ⟨-, rfl⟩, _, _, hlog, -, rfl⟩ := h
    have hread : (renameAccount userId row fields.name).WritesOnly fun _ => False := by
      unfold renameAccount
      split
      · trivial
      · refine WritesOnly.bind (writesOnly_orRaise _ _) fun n => ?_
        refine WritesOnly.bind (writesOnly_read _ _) fun _ => ?_
        exact WritesOnly.bind (writesOnly_raiseIf _ _) fun _ => trivial
    obtain rfl := exec_readOnly hread hname
    obtain rfl := exec_readOnly writesOnly_fetchBothBalances hbal
    obtain ⟨-, rfl⟩ := exec_updateRow hupd
    obtain ⟨log, rfl⟩ := exec_writeActivityLog hlog
    exact .inr ⟨name, .log log⟩

theorem exec_setAccountArchive {accountId : Uuid} {archived : Bool} {b : Body}
    (h : exec (setAccountArchive env userId accountId archived) db = .ok (b, db')) :
    CoreEq db' (db.modify .bankAccounts (owns .bankAccounts accountId userId .either)
      (bumped .bankAccounts env.now (setArchived archived))) := by
  simp only [setAccountArchive, exec_bind_ok, exec_fetchOwnedRowOr404_ok, exec_orRaise_ok,
    exec_pure_ok] at h
  obtain ⟨_, _, ⟨-, rfl⟩, _, _, hbal, _, _, hupd, _, _, ⟨-, rfl⟩, _, _, hlog, -, rfl⟩ := h
  obtain rfl := exec_readOnly writesOnly_fetchBothBalances hbal
  obtain ⟨-, rfl⟩ := exec_updateRow hupd
  obtain ⟨log, rfl⟩ := exec_writeActivityLog hlog
  exact .log log

/-- No active transaction of the user is on the account. -/
def AccountUnreferenced (userId accountId : Uuid) (db : Db) : Prop :=
  ∀ t ∈ db.rows .transactions, t.accountId = accountId → t.userId = userId → t.deletedAt ≠ none

theorem exec_deleteAccount {accountId : Uuid} {b : Body}
    (h : exec (deleteAccount env userId accountId) db = .ok (b, db')) :
    AccountUnreferenced userId accountId db ∧ CoreEq db' (db.modify .bankAccounts
      (owns .bankAccounts accountId userId .either)
      (marked .bankAccounts env.now (some env.now))) := by
  simp only [deleteAccount, exec_bind_ok, exec_fetchOwnedRowOr404_ok, exec_raiseIf_ok,
    exec_fetchRow_ok] at h
  obtain ⟨row, _, ⟨hfind, rfl⟩, _, _, ⟨rfl, rfl⟩, _, _, ⟨htxns, rfl⟩, _, _, hbal, h⟩ := h
  obtain rfl := exec_readOnly writesOnly_fetchBothBalances hbal
  obtain ⟨log, rfl⟩ := exec_softDeleteWithAudit (fun _ => writesOnly_pure _) h
  obtain ⟨hid, -, -⟩ := owns_active.mp (find?_row hfind).2
  rw [Bool.not_eq_true, Option.isSome_eq_false_iff, Option.isNone_iff_eq_none,
    List.find?_eq_none] at htxns
  refine ⟨fun t ht ha hu hd => htxns t ht (decide_eq_true ⟨ha, hu, hd⟩), ?_⟩
  rw [hid]
  exact .log log

theorem exec_restoreAccount {accountId : Uuid} {b : Body}
    (h : exec (restoreAccount env userId accountId) db = .ok (b, db')) :
    CoreEq db' (db.modify .bankAccounts (owns .bankAccounts accountId userId .deleted)
      (marked .bankAccounts env.now none)) := by
  simp only [restoreAccount, exec_bind_ok, exec_fetchOwnedRowOr404_ok, exec_raiseIf_ok] at h
  obtain ⟨row, _, ⟨hfind, rfl⟩, _, _, hname, _, _, ⟨-, rfl⟩, _, _, hbal, h⟩ := h
  obtain rfl := exec_nameTaken_ok hname
  obtain rfl := exec_readOnly writesOnly_fetchBothBalances hbal
  obtain ⟨log, rfl⟩ := exec_restoreWithAudit (fun _ => writesOnly_pure _) h
  rw [(owns_deleted.mp (find?_row hfind).2).1]
  exact .log log

end ExpenseEngine
