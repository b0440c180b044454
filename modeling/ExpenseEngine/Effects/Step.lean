import ExpenseEngine.Api
import ExpenseEngine.Effects.Reconciliations
import ExpenseEngine.Effects.ReferenceData

/-!
# What one call can do

`Effect env userId db request db'` lists, for each request, the guards it passed
on `db` and the database `db'` it left. Every invariant of the engine is a case
analysis over it.

Results:
1. `work_effect`: the work of an accepted request has its effect.
2. `step_effect`: a call leaves the core tables as they were, or has the effect
   of its request.
-/

namespace ExpenseEngine

open Sql Sql.Prog

variable [Platform] {db db₁ db' : Db} {env : Env} {userId : Uuid}

/-! ## Effects -/

/-- The request may insert ledger rows or drafts. -/
def Request.inserts : Request → Bool
  | .createTransaction _ | .batchCreateTransactions _ | .createOpeningBalance _ _
  | .createInboxItem _ | .promoteInboxItem _ _ => true
  | _ => false

/-- The request sends no amount and neither deletes nor restores a row. -/
def Request.isPlain : Request → Bool
  | .updateTransaction _ body => body.amountCents.join.isNone
  | .updateInboxItem _ body => body.amountCents.join.isNone
  | .updateReconciliation _ _ | .completeReconciliation _ | .revertReconciliation _
  | .createAccount _ | .createPerson _ | .updateAccount _ _ | .archiveAccount _
  | .unarchiveAccount _ | .createCategory _ | .updateCategory _ _ | .createHashtag _
  | .updateHashtag _ _ | .bootstrap _ _ | .updateSettings _ | .updateProfile _ | .createPat _
  | .revokePat _ => true
  | _ => false

/-- The SET list moves no row to another owner and deletes none. -/
def KeepsOwner {t : Tbl} [OwnedTable t] (f : Change Row t) : Prop :=
  ∀ r, (OwnedTable.resource (f.apply r)).userId = (OwnedTable.resource r).userId ∧
    (OwnedTable.resource (f.apply r)).deletedAt = (OwnedTable.resource r).deletedAt

/-- What an accepted request did: its guards and the database it left. -/
inductive Effect (env : Env) (userId : Uuid) (db : Db) : Request → Db → Prop
  | idle {request : Request} (h : request.isPlain = true) : Effect env userId db request db
  | transactionCreated {body : TransactionCreateRequest} (h : Creatable env userId body db) :
    Effect env userId db (.createTransaction body) (db.created env userId body)
  | batchCreated {items : List TransactionCreateRequest} {db₁ : Db}
      (h : CreatedAll env userId items db db₁) :
    Effect env userId db (.batchCreateTransactions items) db₁
  | openingBalanceCreated {accountId : Uuid} {body : OpeningBalanceRequest}
      {item : TransactionCreateRequest} {db₁ : Db} (hid : item.id = body.transactionId)
      (hamount : item.amountCents = body.amountCents)
      (hseed : SystemSeeded userId .openingBalance item.categoryId db db₁)
      (h : Creatable env userId item db₁) :
    Effect env userId db (.createOpeningBalance accountId body) (db₁.created env userId item)
  | transactionUpdated {id : Uuid} {body : TransactionUpdateRequest} {row : Row .transactions}
      (h : Updatable env userId id body.fields body.hashtagIds.join body.reconciliationId row
        db) :
    Effect env userId db (.updateTransaction id body)
      (db.updated env userId id body.fields body.hashtagIds.join body.reconciliationId)
  | transactionDeleted {id : Uuid} {row : Row .transactions} (hrow : row ∈ db.rows .transactions)
      (howned : row.id = id ∧ row.userId = userId ∧ row.deletedAt = none)
      (hdraft : ∀ rec ∈ db.rows .reconciliations, row.reconciliationId = some rec.id →
        rec.userId = userId → rec.status = .draft) :
    Effect env userId db (.deleteTransaction id) (db.transactionDeleted env userId id)
  | transactionRestored {id : Uuid} {row : Row .transactions} {unlink : Bool}
      (h : Restorable userId id row unlink db) :
    Effect env userId db (.restoreTransaction id)
      (db.transactionRestored env userId id row unlink)
  | draftCreated {body : InboxCreateRequest}
      (h : DraftFieldsValid userId body.amountCents body.accountId body.categoryId db)
      (hins : Inserts db .transactionInbox (requestedDraft env userId body))
      (htags : ∀ x ∈ body.hashtagIds, HasActiveHashtag db userId x) :
    Effect env userId db (.createInboxItem body) (db.drafted env userId body)
  | draftUpdated {id : Uuid} {body : InboxUpdateRequest} {row : Row .transactionInbox}
      (h : DraftUpdatable userId id body.fields body.hashtagIds.join row db) :
    Effect env userId db (.updateInboxItem id body)
      (db.draftUpdated env userId id body.fields body.hashtagIds.join)
  | draftDismissed {id : Uuid} {row : Row .transactionInbox}
      (hrow : row ∈ db.rows .transactionInbox)
      (howned : row.id = id ∧ row.userId = userId ∧ row.deletedAt = none) :
    Effect env userId db (.deleteInboxItem id) (db.dismissed env userId id)
  | draftPromoted {id targetId : Uuid} {draft : Row .transactionInbox} {ty : TransactionType}
      (h : Promotable env userId id targetId draft ty db) :
    Effect env userId db (.promoteInboxItem id targetId)
      (db.promoted env userId id targetId draft ty)
  | reconciliationCreated {body : ReconciliationCreateRequest}
      (haccount : HasActiveAccount db userId body.accountId)
      (hins : Inserts db .reconciliations
        (requestedReconciliation env userId body (strip body.name))) :
    Effect env userId db (.createReconciliation body)
      (db.put .reconciliations (requestedReconciliation env userId body (strip body.name)))
  | reconciliationUpdated {id : Uuid} {body : ReconciliationUpdateRequest}
      {rec : Row .reconciliations} (hrec : rec ∈ db.rows .reconciliations)
      (howned : rec.id = id ∧ rec.userId = userId ∧ rec.deletedAt = none)
      (hfrozen : rec.status = .completed → attemptedFrozen body.fields = []) :
    Effect env userId db (.updateReconciliation id body)
      (db.modify .reconciliations (owns .reconciliations id userId .active)
        (bumped .reconciliations env.now (setReconciliation body.fields.normalized)))
  | reconciliationCompleted {id : Uuid} {rec : Row .reconciliations}
      (hrec : rec ∈ db.rows .reconciliations)
      (howned : rec.id = id ∧ rec.userId = userId ∧ rec.deletedAt = none)
      (hassigned : ∃ t ∈ db.rows .transactions, isMember id userId t = true) :
    Effect env userId db (.completeReconciliation id) (db.transitioned env userId id .completed)
  | reconciliationReverted {id : Uuid} {rec : Row .reconciliations}
      (hrec : rec ∈ db.rows .reconciliations)
      (howned : rec.id = id ∧ rec.userId = userId ∧ rec.deletedAt = none) :
    Effect env userId db (.revertReconciliation id) (db.transitioned env userId id .draft)
  | reconciliationDeleted {id : Uuid} {rec : Row .reconciliations}
      (hrec : rec ∈ db.rows .reconciliations)
      (howned : rec.id = id ∧ rec.userId = userId ∧ rec.deletedAt = none)
      (hdraft : rec.status = .draft) :
    Effect env userId db (.deleteReconciliation id) (db.reconciliationDeleted env userId id)
  | reconciliationRestored {id : Uuid} :
    Effect env userId db (.restoreReconciliation id)
      (db.modify .reconciliations (owns .reconciliations id userId .deleted)
        (marked .reconciliations env.now none))
  | accountCreated {request : Request} {r : Row .bankAccounts} (h : request.isPlain = true)
      (hu : r.userId = userId) (hd : r.deletedAt = none) (hins : Inserts db .bankAccounts r) :
    Effect env userId db request (db.put .bankAccounts r)
  | accountEdited {request : Request} {w : Row .bankAccounts → Bool} {f : Change Row .bankAccounts}
      (h : request.isPlain = true) (hf : KeepsOwner f) :
    Effect env userId db request (db.modify .bankAccounts w f)
  | accountDeleted {id : Uuid} (h : AccountUnreferenced userId id db) :
    Effect env userId db (.deleteAccount id)
      (db.modify .bankAccounts (owns .bankAccounts id userId .either)
        (marked .bankAccounts env.now (some env.now)))
  | accountRestored {id : Uuid} :
    Effect env userId db (.restoreAccount id)
      (db.modify .bankAccounts (owns .bankAccounts id userId .deleted)
        (marked .bankAccounts env.now none))
  | categoryCreated {request : Request} {r : Row .categories} (h : request.isPlain = true)
      (hu : r.userId = userId) (hd : r.deletedAt = none) (hins : Inserts db .categories r) :
    Effect env userId db request (db.put .categories r)
  | categoryEdited {request : Request} {w : Row .categories → Bool} {f : Change Row .categories}
      (h : request.isPlain = true) (hf : KeepsOwner f) :
    Effect env userId db request (db.modify .categories w f)
  | categoryDeleted {id : Uuid} (h : CategoryUnreferenced userId id db) :
    Effect env userId db (.deleteCategory id)
      (db.modify .categories (owns .categories id userId .either)
        (marked .categories env.now (some env.now)))
  | categoryRestored {id : Uuid} :
    Effect env userId db (.restoreCategory id)
      (db.modify .categories (owns .categories id userId .deleted)
        (marked .categories env.now none))
  | hashtagCreated {request : Request} {r : Row .hashtags} (h : request.isPlain = true)
      (hu : r.userId = userId) (hd : r.deletedAt = none) (hins : Inserts db .hashtags r) :
    Effect env userId db request (db.put .hashtags r)
  | hashtagEdited {request : Request} {w : Row .hashtags → Bool} {f : Change Row .hashtags}
      (h : request.isPlain = true) (hf : KeepsOwner f) :
    Effect env userId db request (db.modify .hashtags w f)
  | hashtagDeleted {id : Uuid} {ledgerIds inboxIds : List Uuid}
      (h : HasActiveHashtag db userId id) :
    Effect env userId db (.deleteHashtag id)
      (db.hashtagDeleted env userId id ledgerIds inboxIds)
  | hashtagRestored {id : Uuid} :
    Effect env userId db (.restoreHashtag id)
      (db.modify .hashtags (owns .hashtags id userId .deleted) (marked .hashtags env.now none))

/-! ## Every request has its effect -/

namespace EffectLemmas

/-- Some database with the effect of the request agrees with the one left. -/
def Reaches (env : Env) (userId : Uuid) (request : Request) (db db' : Db) : Prop :=
  ∃ db₁, Effect env userId db request db₁ ∧ CoreEq db' db₁

theorem reaches_idle {request : Request} (h : request.isPlain = true)
    (hdb : CoreEq db' db) : Reaches env userId request db db' :=
  ⟨db, .idle h, hdb⟩

/-- The tables of users, settings and tokens, and the log. -/
theorem reaches_of_writesOnly {request : Request} {b : Body}
    (h : request.isPlain = true)
    (hw : (request.work env userId).WritesOnly (fun t => t.isCore = false))
    (hexec : exec (request.work env userId) db = .ok (b, db')) :
    Reaches env userId request db db' := by
  refine reaches_idle h fun t ht => exec_frame hw hexec ?_
  rw [ht]
  exact Bool.noConfusion

section Auth

variable {W : Tbl → Prop}

theorem writesOnly_writeActivityLog {logId resourceId : Uuid} {resourceType : String}
    {action : ActivityAction} {before after : Option Body} :
    (writeActivityLog env logId userId resourceType resourceId action before after).WritesOnly
      fun t => t.isCore = false :=
  writesOnly_insertOrAbort rfl

theorem writesOnly_updateRow {t : Tbl} {w : Row t → Bool} {f : Change Row t} (ht : W t) :
    (updateRow t w f).WritesOnly W :=
  WritesOnly.bind (writesOnly_updateWhere ht) fun _ => trivial

theorem writesOnly_validateTimezone {tz : Text} {field : String} :
    (validateTimezone tz field).WritesOnly W :=
  WritesOnly.bind (writesOnly_raiseIf _ _) fun _ => writesOnly_raiseIf _ _

theorem writesOnly_bootstrap {displayName timezone : Text} :
    (bootstrap env userId displayName timezone).WritesOnly (fun t => t.isCore = false) := by
  refine WritesOnly.bind writesOnly_validateTimezone fun _ => ?_
  refine WritesOnly.bind ?_ fun _ => WritesOnly.bind ?_ fun _ => trivial
  · refine WritesOnly.bind (writesOnly_read _ _) fun found => ?_
    cases found with
    | none =>
      refine WritesOnly.bind (writesOnly_insertOrAbort rfl) fun _ => ?_
      exact WritesOnly.bind writesOnly_writeActivityLog fun _ => trivial
    | some row => exact WritesOnly.bind (writesOnly_updateRow rfl) fun _ => writesOnly_orRaise _ _
  · refine WritesOnly.bind (writesOnly_read _ _) fun found => ?_
    cases found with
    | none =>
      refine WritesOnly.bind (writesOnly_insertOrAbort rfl) fun _ => ?_
      exact WritesOnly.bind writesOnly_writeActivityLog fun _ => trivial
    | some row => trivial

theorem writesOnly_updateSettings {fields : SettingsFields} :
    (updateSettings env userId fields).WritesOnly (fun t => t.isCore = false) := by
  unfold updateSettings
  split
  · refine WritesOnly.bind (writesOnly_read _ _) fun _ => ?_
    exact WritesOnly.bind (writesOnly_orRaise _ _) fun _ => trivial
  · refine WritesOnly.bind (writesOnly_raiseIf _ _) fun _ => WritesOnly.bind ?_ fun _ => ?_
    · unfold validateNewTimezone
      split
      · trivial
      · exact writesOnly_validateTimezone
    · refine WritesOnly.bind (writesOnly_read _ _) fun _ => ?_
      refine WritesOnly.bind (writesOnly_orRaise _ _) fun _ => ?_
      refine WritesOnly.bind (writesOnly_updateRow rfl) fun _ => ?_
      refine WritesOnly.bind (writesOnly_orRaise _ _) fun _ => ?_
      exact WritesOnly.bind writesOnly_writeActivityLog fun _ => trivial

theorem writesOnly_updateProfile {displayName : Option Text} :
    (updateProfile env userId displayName).WritesOnly (fun t => t.isCore = false) := by
  refine WritesOnly.bind (writesOnly_orRaise _ _) fun _ => ?_
  refine WritesOnly.bind (writesOnly_read _ _) fun _ => ?_
  refine WritesOnly.bind (writesOnly_orRaise _ _) fun _ => ?_
  refine WritesOnly.bind (writesOnly_updateRow rfl) fun _ => ?_
  refine WritesOnly.bind (writesOnly_orRaise _ _) fun _ => ?_
  exact WritesOnly.bind writesOnly_writeActivityLog fun _ => trivial

theorem writesOnly_createPat {name : Option Text} :
    (createPat env userId name).WritesOnly (fun t => t.isCore = false) := by
  refine WritesOnly.bind (writesOnly_insertOrAbort rfl) fun _ => ?_
  exact WritesOnly.bind writesOnly_writeActivityLog fun _ => trivial

theorem writesOnly_revokePat {patId : Uuid} :
    (revokePat env userId patId).WritesOnly (fun t => t.isCore = false) := by
  refine WritesOnly.bind (writesOnly_read _ _) fun _ => ?_
  refine WritesOnly.bind (writesOnly_orRaise _ _) fun _ => ?_
  refine WritesOnly.bind (writesOnly_updateRow rfl) fun _ => ?_
  refine WritesOnly.bind (writesOnly_orRaise _ _) fun _ => ?_
  exact WritesOnly.bind writesOnly_writeActivityLog fun _ => trivial

end Auth

end EffectLemmas

open EffectLemmas

/-- The work of an accepted request has its effect, up to the tables that are
not core. -/
theorem work_effect {request : Request} {b : Body}
    (h : exec (request.work env userId) db = .ok (b, db')) :
    ∃ db₁, Effect env userId db request db₁ ∧ CoreEq db' db₁ := by
  cases request with
  | createTransaction body =>
    obtain ⟨hc, hdb⟩ := exec_createTransaction h
    exact ⟨_, .transactionCreated hc, hdb⟩
  | batchCreateTransactions items =>
    obtain ⟨_, hc, hdb⟩ := exec_createBatch h
    exact ⟨_, .batchCreated hc, hdb⟩
  | updateTransaction id body =>
    rcases exec_updateTransaction h with ⟨hfields, -, -, rfl⟩ | ⟨row, hrow, hdb⟩
    · refine reaches_idle ?_ (.refl _)
      show body.fields.amountCents.isNone = true
      rw [hfields]
      rfl
    · exact ⟨_, .transactionUpdated hrow, hdb⟩
  | deleteTransaction id =>
    obtain ⟨⟨row, hrow, howned, hdraft⟩, hdb⟩ := exec_deleteTransaction h
    exact ⟨_, .transactionDeleted hrow howned hdraft, hdb⟩
  | restoreTransaction id =>
    obtain ⟨row, unlink, hrow, hdb⟩ := exec_restoreTransaction h
    exact ⟨_, .transactionRestored hrow, hdb⟩
  | createInboxItem body =>
    obtain ⟨⟨hvalid, hins, htags⟩, hdb⟩ := exec_createInboxItem h
    exact ⟨_, .draftCreated hvalid hins htags, hdb⟩
  | updateInboxItem id body =>
    rcases exec_updateInboxItem h with ⟨hfields, -, rfl⟩ | ⟨row, hrow, hdb⟩
    · refine reaches_idle ?_ (.refl _)
      show body.fields.amountCents.isNone = true
      rw [hfields]
      rfl
    · exact ⟨_, .draftUpdated hrow, hdb⟩
  | deleteInboxItem id =>
    obtain ⟨⟨row, hrow, howned⟩, hdb⟩ := exec_deleteInboxItem h
    exact ⟨_, .draftDismissed hrow howned, hdb⟩
  | promoteInboxItem id targetId =>
    obtain ⟨draft, ty, hp, hdb⟩ := exec_promoteInboxItem h
    exact ⟨_, .draftPromoted hp, hdb⟩
  | createReconciliation body =>
    obtain ⟨⟨hacc, hins⟩, hdb⟩ := exec_createReconciliation h
    exact ⟨_, .reconciliationCreated hacc hins, hdb⟩
  | updateReconciliation id body =>
    rcases exec_updateReconciliation h with rfl | ⟨⟨rec, hrec, howned, hfrozen⟩, hdb⟩
    · exact reaches_idle rfl (.refl _)
    · exact ⟨_, .reconciliationUpdated hrec howned hfrozen, hdb⟩
  | completeReconciliation id =>
    rcases exec_transitionStatus h with rfl | ⟨⟨rec, hrec, howned, -⟩, hassigned, hdb⟩
    · exact reaches_idle rfl (.refl _)
    · exact ⟨_, .reconciliationCompleted hrec howned (hassigned rfl), hdb⟩
  | revertReconciliation id =>
    rcases exec_transitionStatus h with rfl | ⟨⟨rec, hrec, howned, -⟩, -, hdb⟩
    · exact reaches_idle rfl (.refl _)
    · exact ⟨_, .reconciliationReverted hrec howned, hdb⟩
  | deleteReconciliation id =>
    obtain ⟨⟨rec, hrec, howned, hdraft⟩, hdb⟩ := exec_deleteReconciliation h
    exact ⟨_, .reconciliationDeleted hrec howned hdraft, hdb⟩
  | restoreReconciliation id => exact ⟨_, .reconciliationRestored, exec_restoreReconciliation h⟩
  | createAccount body | createPerson body =>
    obtain ⟨r, hu, hd, hins, hdb⟩ := exec_createAccount h
    exact ⟨_, .accountCreated rfl hu hd hins, hdb⟩
  | createOpeningBalance accountId body =>
    obtain ⟨_, item, hid, hamount, hseed, hc, hdb⟩ := exec_createOpeningBalance h
    exact ⟨_, .openingBalanceCreated hid hamount hseed hc, hdb⟩
  | updateAccount id body =>
    rcases exec_updateAccount h with rfl | ⟨name, hdb⟩
    · exact reaches_idle rfl (.refl _)
    · exact ⟨_, .accountEdited rfl fun _ => ⟨rfl, rfl⟩, hdb⟩
  | deleteAccount id =>
    obtain ⟨hfree, hdb⟩ := exec_deleteAccount h
    exact ⟨_, .accountDeleted hfree, hdb⟩
  | restoreAccount id => exact ⟨_, .accountRestored, exec_restoreAccount h⟩
  | archiveAccount id | unarchiveAccount id =>
    exact ⟨_, .accountEdited rfl fun _ => ⟨rfl, rfl⟩, exec_setAccountArchive h⟩
  | createCategory body =>
    obtain ⟨r, hu, hd, hins, hdb⟩ := exec_createCategory h
    exact ⟨_, .categoryCreated rfl hu hd hins, hdb⟩
  | updateCategory id body =>
    rcases exec_updateNamedResource (fun _ _ => writesOnly_checkCategoryName) h with
      rfl | ⟨name, hdb⟩
    · exact reaches_idle rfl (.refl _)
    · exact ⟨_, .categoryEdited rfl fun _ => ⟨rfl, rfl⟩, hdb⟩
  | deleteCategory id =>
    obtain ⟨hfree, hdb⟩ := exec_deleteCategory h
    exact ⟨_, .categoryDeleted hfree, hdb⟩
  | restoreCategory id => exact ⟨_, .categoryRestored, exec_restoreCategory h⟩
  | createHashtag body =>
    obtain ⟨r, hu, hd, hins, hdb⟩ := exec_createHashtag h
    exact ⟨_, .hashtagCreated rfl hu hd hins, hdb⟩
  | updateHashtag id body =>
    rcases exec_updateNamedResource (fun _ _ => writesOnly_pure _) h with rfl | ⟨name, hdb⟩
    · exact reaches_idle rfl (.refl _)
    · exact ⟨_, .hashtagEdited rfl fun _ => ⟨rfl, rfl⟩, hdb⟩
  | deleteHashtag id =>
    obtain ⟨hfound, ledgerIds, inboxIds, hdb⟩ := exec_deleteHashtag h
    exact ⟨_, .hashtagDeleted hfound, hdb⟩
  | restoreHashtag id => exact ⟨_, .hashtagRestored, exec_restoreHashtag h⟩
  | bootstrap displayName timezone => exact reaches_of_writesOnly rfl writesOnly_bootstrap h
  | updateSettings body => exact reaches_of_writesOnly rfl writesOnly_updateSettings h
  | updateProfile displayName => exact reaches_of_writesOnly rfl writesOnly_updateProfile h
  | createPat name => exact reaches_of_writesOnly rfl writesOnly_createPat h
  | revokePat id => exact reaches_of_writesOnly rfl writesOnly_revokePat h

/-- A fresh answer means that the work of the request had its effect. -/
theorem fresh_effect {c : Call} {b : Body} (h : exec c.handle db = .ok (.fresh b, db')) :
    ∃ db₁, Effect c.env c.userId db c.request db₁ ∧ CoreEq db' db₁ := by
  rcases exec_handle_ok h with ⟨_, _, hcached, -⟩ | ⟨body, db₁, -, hwork, hdb⟩
  · cases hcached
  · obtain ⟨db₂, heffect, hcore⟩ := work_effect hwork
    refine ⟨db₂, heffect, CoreEq.trans (fun t ht => hdb t ?_) hcore⟩
    rintro rfl
    cases ht

/-- A call leaves the core tables as they were, or has the effect of its
request. -/
theorem step_effect (db : Db) (c : Call) :
    CoreEq (step db c) db ∨
      ∃ db₁, Effect c.env c.userId db c.request db₁ ∧ CoreEq (step db c) db₁ := by
  unfold step
  split
  · next reply db' h =>
    rcases exec_handle_ok h with ⟨_, _, -, rfl⟩ | ⟨body, _, rfl, -, -⟩
    · exact .inl (.refl _)
    · exact .inr (fresh_effect h)
  · exact .inl (.refl _)

end ExpenseEngine
