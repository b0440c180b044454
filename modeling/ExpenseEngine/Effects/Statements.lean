import ExpenseEngine.Effects.ReadOnly
import ExpenseEngine.Sql.Rewrites

/-!
# The statements of each request

`Proposes` lists the rows that the INSERTs of a request may propose, `Updates`
the rewrites its UPDATEs may make, each with the part of the WHERE clause that
says whose row it is. The lists are over the text of the services, so they hold
of a request whatever runs beside it.

Results:
1. `work_rewrites`: the statements of a request are on its lists.
2. `handle_rewrites`: those of a call, with its idempotency key.
3. `step_kept`, `step_origin`: the rows of a table, before and after a call.
-/

namespace ExpenseEngine

open Sql Sql.Prog

open StatementLemmas

variable [Platform] {db db' : Db} {env : Env} {userId : Uuid} {request : Request}

/-! ## The lists -/

/-- The parents whose junction rows a request writes. -/
def Request.parents : Request → List (Uuid × TransactionSource)
  | .createTransaction body => [(body.id, .ledger)]
  | .batchCreateTransactions items => items.map fun item => (item.id, .ledger)
  | .createOpeningBalance _ body => [(body.transactionId, .ledger)]
  | .updateTransaction id _ | .deleteTransaction id | .restoreTransaction id => [(id, .ledger)]
  | .createInboxItem body => [(body.id, .inbox)]
  | .updateInboxItem id _ | .deleteInboxItem id => [(id, .inbox)]
  | .promoteInboxItem id targetId => [(targetId, .ledger), (id, .inbox)]
  | _ => []

/-- The rows a request may insert. -/
inductive Proposes (env : Env) (userId : Uuid) : Request → (t : Tbl) → Row t → Prop
  | log {request : Request} {logId resourceId : Uuid} {resourceType : String}
      {action : ActivityAction} {before after : Option Body} :
    Proposes env userId request .activityLog
      ({ id := logId, userId := userId, resourceType := resourceType, resourceId := resourceId
         action := action, beforeSnapshot := before, afterSnapshot := after
         changedBy := userId, createdAt := env.now } : ActivityLogRow)
  | link {request : Request} {parentId hashtagId : Uuid} {source : TransactionSource}
      (h : (parentId, source) ∈ request.parents) :
    Proposes env userId request .transactionHashtags (newLink env userId parentId source hashtagId)
  | transaction {body : TransactionCreateRequest} :
    Proposes env userId (.createTransaction body) .transactions (requestedRow env userId body)
  | batchItem {items : List TransactionCreateRequest} {item : TransactionCreateRequest}
      (h : item ∈ items) :
    Proposes env userId (.batchCreateTransactions items) .transactions
      (requestedRow env userId item)
  | openingBalance {accountId categoryId : Uuid} {body : OpeningBalanceRequest} :
    Proposes env userId (.createOpeningBalance accountId body) .transactions
      (requestedRow env userId
        { id := body.transactionId, title := openingTitle body.title
          amountCents := body.amountCents, date := body.date, accountId := accountId
          categoryId := categoryId, description := none, hashtagIds := [] })
  | systemCategory {accountId : Uuid} {body : OpeningBalanceRequest} :
    Proposes env userId (.createOpeningBalance accountId body) .categories
      (newSystemCategoryRow env userId .openingBalance)
  | promoted {id targetId : Uuid} {draft : Row .transactionInbox} {ty : TransactionType} :
    Proposes env userId (.promoteInboxItem id targetId) .transactions
      (promotedRow env userId targetId draft ty)
  | draft {body : InboxCreateRequest} :
    Proposes env userId (.createInboxItem body) .transactionInbox (requestedDraft env userId body)
  | reconciliation {body : ReconciliationCreateRequest} {name : Text} :
    Proposes env userId (.createReconciliation body) .reconciliations
      (requestedReconciliation env userId body name)
  | account {body : AccountCreateRequest} {name : Text} {sortOrder : Int} :
    Proposes env userId (.createAccount body) .bankAccounts
      (newAccountRow env userId body false name sortOrder)
  | person {body : AccountCreateRequest} {name : Text} {sortOrder : Int} :
    Proposes env userId (.createPerson body) .bankAccounts
      (newAccountRow env userId body true name sortOrder)
  | category {body : CategoryCreateRequest} {name : Text} {sortOrder : Int} :
    Proposes env userId (.createCategory body) .categories
      (newCategoryRow env userId body name sortOrder)
  | hashtag {body : HashtagCreateRequest} {name : Text} {sortOrder : Int} :
    Proposes env userId (.createHashtag body) .hashtags
      (newHashtagRow env userId body name sortOrder)
  | user {displayName timezone : Text} :
    Proposes env userId (.bootstrap displayName timezone) .users
      ({ id := userId, displayName := some displayName, lastLoginAt := some env.now
         createdAt := env.now, updatedAt := env.now } : UserRow)
  | settings {displayName timezone : Text} :
    Proposes env userId (.bootstrap displayName timezone) .userSettings
      ({ userId := userId, mainCurrency := homeCurrency, displayTimezone := timezone, version := 1
         createdAt := env.now, updatedAt := env.now } : UserSettingsRow)
  | token {name : Option Text} :
    Proposes env userId (.createPat name) .personalAccessTokens
      ({ id := env.uuid 1, userId := userId, tokenHash := hashPat (patPrefix ++ env.token)
         tokenPrefix := (patPrefix ++ env.token).take patPrefixLen, name := name
         createdAt := env.now, revokedAt := none } : PersonalAccessTokenRow)

/-- What a request may make of one row: the row its WHERE clause selects and the
row its SET list leaves. -/
inductive Updates (env : Env) (userId : Uuid) : Request → (t : Tbl) → Row t → Row t → Prop
  | link {request : Request} {r : TransactionHashtagRow} {d : Option Timestamp}
      (h : (r.transactionId, r.transactionSource) ∈ request.parents) :
    Updates env userId request .transactionHashtags r ((linkMarked env.now d).apply r)
  | linkDropped {id : Uuid} {r : TransactionHashtagRow} (h : isHashtagLink userId id r = true) :
    Updates env userId (.deleteHashtag id) .transactionHashtags r
      ((linkMarked env.now (some env.now)).apply r)
  | transactionUpdated {id : Uuid} {body : TransactionUpdateRequest} {title : Option Text}
      {r : TransactionRow} (h : owns .transactions id userId .active r = true) :
    Updates env userId (.updateTransaction id body) .transactions r
      ((bumped .transactions env.now
        (setTransaction { body.fields with title := title } body.reconciliationId)).apply r)
  | transactionDeleted {id : Uuid} {r : TransactionRow}
      (h : owns .transactions id userId .either r = true) :
    Updates env userId (.deleteTransaction id) .transactions r
      ((marked .transactions env.now (some env.now)).apply r)
  | transactionRestored {id : Uuid} {r : TransactionRow} {unlink : Bool}
      (h : owns .transactions id userId .either r = true) :
    Updates env userId (.restoreTransaction id) .transactions r
      ((bumped .transactions env.now (setRestored unlink)).apply r)
  | memberCompleted {id : Uuid} {r : TransactionRow} (h : isMember id userId r = true) :
    Updates env userId (.completeReconciliation id) .transactions r
      ((bumped .transactions env.now (noChange .transactions)).apply r)
  | memberReverted {id : Uuid} {r : TransactionRow} (h : isMember id userId r = true) :
    Updates env userId (.revertReconciliation id) .transactions r
      ((bumped .transactions env.now (noChange .transactions)).apply r)
  | memberUnassigned {id : Uuid} {r : TransactionRow} (h : isMember id userId r = true) :
    Updates env userId (.deleteReconciliation id) .transactions r
      ((bumped .transactions env.now setUnassigned).apply r)
  | transactionUntagged {id : Uuid} {r : TransactionRow} (h : r.userId = userId) :
    Updates env userId (.deleteHashtag id) .transactions r
      ((bumped .transactions env.now (noChange .transactions)).apply r)
  | draftUpdated {id : Uuid} {body : InboxUpdateRequest} {fields : InboxFields} {r : InboxRow}
      (h : owns .transactionInbox id userId .active r = true) :
    Updates env userId (.updateInboxItem id body) .transactionInbox r
      ((bumped .transactionInbox env.now (setInbox fields)).apply r)
  | draftDismissed {id : Uuid} {r : InboxRow}
      (h : owns .transactionInbox id userId .either r = true) :
    Updates env userId (.deleteInboxItem id) .transactionInbox r
      ((marked .transactionInbox env.now (some env.now)).apply r)
  | draftPromoted {id targetId : Uuid} {r : InboxRow}
      (h : owns .transactionInbox id userId .either r = true) :
    Updates env userId (.promoteInboxItem id targetId) .transactionInbox r
      ((bumped .transactionInbox env.now (setPromoted env)).apply r)
  | draftUntagged {id : Uuid} {r : InboxRow} (h : r.userId = userId) :
    Updates env userId (.deleteHashtag id) .transactionInbox r
      ((bumped .transactionInbox env.now (noChange .transactionInbox)).apply r)
  | reconciliationUpdated {id : Uuid} {body : ReconciliationUpdateRequest} {name : Option Text}
      {r : ReconciliationRow} (h : owns .reconciliations id userId .active r = true) :
    Updates env userId (.updateReconciliation id body) .reconciliations r
      ((bumped .reconciliations env.now
        (setReconciliation { body.fields with name := name })).apply r)
  | reconciliationCompleted {id : Uuid} {r : ReconciliationRow}
      (h : owns .reconciliations id userId .either r = true) :
    Updates env userId (.completeReconciliation id) .reconciliations r
      ((bumped .reconciliations env.now (setStatus .completed)).apply r)
  | reconciliationReverted {id : Uuid} {r : ReconciliationRow}
      (h : owns .reconciliations id userId .either r = true) :
    Updates env userId (.revertReconciliation id) .reconciliations r
      ((bumped .reconciliations env.now (setStatus .draft)).apply r)
  | reconciliationDeleted {id : Uuid} {r : ReconciliationRow}
      (h : owns .reconciliations id userId .either r = true) :
    Updates env userId (.deleteReconciliation id) .reconciliations r
      ((marked .reconciliations env.now (some env.now)).apply r)
  | reconciliationRestored {id : Uuid} {r : ReconciliationRow}
      (h : owns .reconciliations id userId .deleted r = true) :
    Updates env userId (.restoreReconciliation id) .reconciliations r
      ((marked .reconciliations env.now none).apply r)
  | accountUpdated {id : Uuid} {body : AccountUpdateRequest} {fields : AccountFields}
      {name : Option Text} {r : AccountRow} (h : owns .bankAccounts id userId .active r = true) :
    Updates env userId (.updateAccount id body) .bankAccounts r
      ((bumped .bankAccounts env.now (setAccount fields name)).apply r)
  | accountArchived {id : Uuid} {r : AccountRow}
      (h : owns .bankAccounts id userId .either r = true) :
    Updates env userId (.archiveAccount id) .bankAccounts r
      ((bumped .bankAccounts env.now (setArchived true)).apply r)
  | accountUnarchived {id : Uuid} {r : AccountRow}
      (h : owns .bankAccounts id userId .either r = true) :
    Updates env userId (.unarchiveAccount id) .bankAccounts r
      ((bumped .bankAccounts env.now (setArchived false)).apply r)
  | accountDeleted {id : Uuid} {r : AccountRow}
      (h : owns .bankAccounts id userId .either r = true) :
    Updates env userId (.deleteAccount id) .bankAccounts r
      ((marked .bankAccounts env.now (some env.now)).apply r)
  | accountRestored {id : Uuid} {r : AccountRow}
      (h : owns .bankAccounts id userId .deleted r = true) :
    Updates env userId (.restoreAccount id) .bankAccounts r
      ((marked .bankAccounts env.now none).apply r)
  | categoryUpdated {id : Uuid} {body : CategoryUpdateRequest} {fields : CategoryFields}
      {name : Option Text} {r : CategoryRow} (h : owns .categories id userId .active r = true) :
    Updates env userId (.updateCategory id body) .categories r
      ((bumped .categories env.now (setCategory fields name)).apply r)
  | categoryDeleted {id : Uuid} {r : CategoryRow}
      (h : owns .categories id userId .either r = true) :
    Updates env userId (.deleteCategory id) .categories r
      ((marked .categories env.now (some env.now)).apply r)
  | categoryRestored {id : Uuid} {r : CategoryRow}
      (h : owns .categories id userId .deleted r = true) :
    Updates env userId (.restoreCategory id) .categories r
      ((marked .categories env.now none).apply r)
  | hashtagUpdated {id : Uuid} {body : HashtagUpdateRequest} {fields : HashtagFields}
      {name : Option Text} {r : HashtagRow} (h : owns .hashtags id userId .active r = true) :
    Updates env userId (.updateHashtag id body) .hashtags r
      ((bumped .hashtags env.now (setHashtag fields name)).apply r)
  | hashtagDeleted {id : Uuid} {r : HashtagRow} (h : owns .hashtags id userId .either r = true) :
    Updates env userId (.deleteHashtag id) .hashtags r
      ((marked .hashtags env.now (some env.now)).apply r)
  | hashtagRestored {id : Uuid} {r : HashtagRow} (h : owns .hashtags id userId .deleted r = true) :
    Updates env userId (.restoreHashtag id) .hashtags r
      ((marked .hashtags env.now none).apply r)
  | login {displayName timezone : Text} {r : UserRow} (h : r.id = userId) :
    Updates env userId (.bootstrap displayName timezone) .users r ((setLogin env).apply r)
  | profileUpdated {displayName : Sent Text} {name : Text} {r : UserRow} (h : r.id = userId) :
    Updates env userId (.updateProfile displayName) .users r ((setProfile env name).apply r)
  | settingsUpdated {body : SettingsUpdateRequest} {fields : SettingsFields} {r : UserSettingsRow}
      (h : r.userId = userId) :
    Updates env userId (.updateSettings body) .userSettings r ((setSettings env fields).apply r)
  | tokenRevoked {id : Uuid} {r : PersonalAccessTokenRow} (h : r.id = id ∧ r.userId = userId) :
    Updates env userId (.revokePat id) .personalAccessTokens r ((setRevoked env).apply r)

/-- The tables a request may update. -/
def Request.updatesTable : Request → Tbl → Bool
  | .updateTransaction _ _, t | .deleteTransaction _, t | .restoreTransaction _, t =>
    t = .transactions || t = .transactionHashtags
  | .updateInboxItem _ _, t | .deleteInboxItem _, t | .promoteInboxItem _ _, t =>
    t = .transactionInbox || t = .transactionHashtags
  | .updateReconciliation _ _, t | .restoreReconciliation _, t => t = .reconciliations
  | .completeReconciliation _, t | .revertReconciliation _, t | .deleteReconciliation _, t =>
    t = .reconciliations || t = .transactions
  | .updateAccount _ _, t | .deleteAccount _, t | .restoreAccount _, t | .archiveAccount _, t
  | .unarchiveAccount _, t => t = .bankAccounts
  | .updateCategory _ _, t | .deleteCategory _, t | .restoreCategory _, t => t = .categories
  | .updateHashtag _ _, t | .restoreHashtag _, t => t = .hashtags
  | .deleteHashtag _, t =>
    t = .hashtags || t = .transactionHashtags || t = .transactions || t = .transactionInbox
  | .bootstrap _ _, t | .updateProfile _, t => t = .users
  | .updateSettings _, t => t = .userSettings
  | .revokePat _, t => t = .personalAccessTokens
  | .createTransaction _, t | .batchCreateTransactions _, t | .createOpeningBalance _ _, t
  | .createInboxItem _, t => t = .transactionHashtags
  | _, _ => false

theorem updatesTable_of_updates {t : Tbl} {r r' : Row t} (h : Updates env userId request t r r') :
    request.updatesTable t = true := by
  cases h with
  | link hparent => cases request <;> simp_all [Request.updatesTable, Request.parents]
  | _ => rfl

/-- A table that the request does not update keeps its rows. -/
theorem eq_of_not_updatesTable {t : Tbl} {r r' : Row t} (ht : request.updatesTable t = false)
    (h : Relation.ReflTransGen (Updates env userId request t) r r') : r' = r := by
  refine (Relation.reflTransGen_iff_eq fun b hb => ?_).mp h
  have htable := updatesTable_of_updates hb
  rw [ht] at htable
  cases htable

/-! ## The services -/

namespace StatementLemmas

variable {ins : (t : Tbl) → Row t → Prop} {upd : (t : Tbl) → Row t → Row t → Prop}

theorem rewrites_updateRow {t : Tbl} {w : Row t → Bool} {f : Change Row t}
    (h : ∀ r, w r = true → upd t r (f.apply r)) : (updateRow t w f).Rewrites ins upd :=
  rewrites_bind (rewrites_updateWhere h) fun _ => trivial

theorem rewrites_writeActivityLog {logId resourceId : Uuid} {resourceType : String}
    {action : ActivityAction} {before after : Option Body} :
    (writeActivityLog env logId userId resourceType resourceId action before after).Rewrites
      (Proposes env userId request) upd :=
  rewrites_insertOrAbort .log

/-- An audited write and the answer after it. -/
theorem rewrites_logged {α : Type} {a : α} {logId resourceId : Uuid} {resourceType : String}
    {action : ActivityAction} {before after : Option Body} :
    (do
      writeActivityLog env logId userId resourceType resourceId action before after
      return a : Op α).Rewrites (Proposes env userId request) upd :=
  rewrites_bind rewrites_writeActivityLog fun _ => trivial

section Links

variable {parentId : Uuid} {source : TransactionSource} {ids : List Uuid}

theorem rewrites_cascadeDelete (h : (parentId, source) ∈ request.parents) :
    (cascadeDelete env userId parentId source ids).Rewrites ins (Updates env userId request) := by
  refine rewrites_bind (rewrites_updateWhere fun r hw => .link ?_) fun _ => trivial
  obtain ⟨hid, hsource, -⟩ := of_decide_eq_true hw
  rwa [hid, hsource]

theorem rewrites_cascadeRestore {marker : Option Timestamp}
    (h : (parentId, source) ∈ request.parents) :
    (cascadeRestore env userId parentId source marker).Rewrites ins
      (Updates env userId request) := by
  refine rewrites_bind (rewrites_updateWhere fun r hw => .link ?_) fun _ => trivial
  obtain ⟨hid, hsource, -⟩ := of_decide_eq_true hw
  rwa [hid, hsource]

theorem rewrites_syncHashtags (h : (parentId, source) ∈ request.parents) :
    (syncHashtags env parentId userId ids source).Rewrites (Proposes env userId request)
      (Updates env userId request) := by
  unfold syncHashtags
  split
  · exact rewrites_cascadeDelete h
  · refine rewrites_guard (by simp) fun valid => rewrites_guard (by simp) fun _ => ?_
    refine rewrites_bind (rewrites_cascadeDelete h) fun _ => rewrites_upsertEach ?_ ?_
    · intro r hr
      obtain ⟨x, -, rfl⟩ := List.mem_map.mp hr
      exact .link h
    · -- the row that is in the way has the key of the proposed one
      intro r hr x hkey _
      obtain ⟨y, -, rfl⟩ := List.mem_map.mp hr
      have hx : x.transactionId = parentId ∧ x.transactionSource = source :=
        ⟨congrArg Prod.fst hkey, congrArg (fun k => k.2.1) hkey⟩
      refine .link ?_
      rwa [hx.1, hx.2]

theorem rewrites_syncIfAny (h : (parentId, source) ∈ request.parents) :
    (syncIfAny env parentId userId ids source).Rewrites (Proposes env userId request)
      (Updates env userId request) := by
  unfold syncIfAny
  split
  · trivial
  · exact rewrites_syncHashtags h

theorem rewrites_syncIfGiven {given : Option (List Uuid)}
    (h : (parentId, source) ∈ request.parents) :
    (syncIfGiven env parentId userId given source).Rewrites (Proposes env userId request)
      (Updates env userId request) := by
  cases given with
  | none => trivial
  | some ids => exact rewrites_syncHashtags h

end Links

section Audit

variable {t : Tbl} [OwnedTable t] {resourceType : String} {row : Row t} {before : Body}
  {serialize : Row t → Op Body}

theorem rewrites_mutateWithAudit {w : Row t → Bool} {f : Change Row t}
    {mutate : Uuid → Uuid → Op (Option (Row t))} {action : ActivityAction}
    (hmutate : mutate (OwnedTable.resource row).id userId = updateRow t w f)
    (hw : ∀ r, w r = true → upd t r (f.apply r))
    (hser : ∀ r, (serialize r).WritesOnly fun _ => False) :
    (mutateWithAudit env userId t resourceType row before serialize mutate action).Rewrites
      (Proposes env userId request) upd := by
  unfold mutateWithAudit
  simp only [hmutate]
  refine rewrites_bind (rewrites_updateRow hw) fun _ => rewrites_guard (by simp) fun _ => ?_
  exact rewrites_guard (hser _) fun _ => rewrites_logged

end Audit

/-- A guard that returns the row it found. -/
theorem rewrites_fetchOwnedRowOr404 {α : Type} {t : Tbl} [OwnedTable t] {id : Uuid}
    {resource : String} {s : RowState} {g : Row t → Op α}
    (hg : ∀ row, owns t id userId s row = true → (g row).Rewrites ins upd) :
    (fetchOwnedRowOr404 t id userId resource s >>= g).Rewrites ins upd := by
  unfold fetchOwnedRowOr404 fetchOwnedRow fetchRow
  rw [LawfulMonad.bind_assoc]
  refine rewrites_read (P := fun o => ∀ r, o = some r → owns t id userId s r = true)
    (fun db r hr => List.find?_some hr) fun o ho => ?_
  cases o with
  | none => trivial
  | some row => exact hg row (ho row rfl)

/-- A guard that returns the reconciliation it found. -/
theorem rewrites_fetchReconciliation {α : Type} {l : Label} {id : Uuid} {s : RowState}
    {e : AppError} {g : ReconciliationResponse → Op α}
    (hg : ∀ row, owns .reconciliations id userId s row.toReconciliationRow = true →
      (g row).Rewrites ins upd) :
    (do g (← orRaise (← fetchReconciliation l userId id s) e)).Rewrites ins upd := by
  unfold fetchReconciliation
  rw [LawfulMonad.bind_assoc]
  refine rewrites_read (P := fun o => ∀ x, o = some x →
    owns .reconciliations id userId s x.1 = true) (fun db x hx => ?_) fun o ho => ?_
  · obtain ⟨rec, hrec, rfl⟩ := Option.map_eq_some_iff.mp hx
    exact List.find?_some hrec
  · rcases o with _ | ⟨rec, difference, inRange⟩
    · trivial
    · show Rewrites ins upd ((if _ then _ else _) >>= _)
      split
      · exact hg _ (ho _ rfl)
      · trivial

/-! ### Ledger -/

/-- The shape of every create of a ledger row. -/
theorem rewrites_createTransaction {body : TransactionCreateRequest} {allowSystemCategory : Bool}
    (h : Proposes env userId request .transactions (requestedRow env userId body))
    (hparent : (body.id, TransactionSource.ledger) ∈ request.parents) :
    (createTransaction env userId body allowSystemCategory).Rewrites (Proposes env userId request)
      (Updates env userId request) := by
  refine rewrites_guard (by simp) fun now => rewrites_guard (by simp) fun _ => ?_
  refine rewrites_guard (by simp) fun _ => rewrites_guard (by simp) fun category => ?_
  refine rewrites_guard (by simp) fun _ => ?_
  -- the row the INSERT returns is the one it was given
  unfold insertTransactionRow
  rw [LawfulMonad.bind_assoc]
  refine rewrites_bind (rewrites_insertRow h) fun o => ?_
  rw [LawfulMonad.bind_assoc]
  refine rewrites_guard (by simp) fun _ => ?_
  rw [pure_bind]
  refine rewrites_bind (rewrites_syncIfAny hparent) fun _ => rewrites_guard (by simp) fun _ => ?_
  exact rewrites_logged

theorem rewrites_createItems {items : List TransactionCreateRequest}
    (h : ∀ item ∈ items, Proposes env userId request .transactions (requestedRow env userId item) ∧
      (item.id, TransactionSource.ledger) ∈ request.parents) :
    (createItems env userId items).Rewrites (Proposes env userId request)
      (Updates env userId request) := by
  induction items with
  | nil => trivial
  | cons item items ih =>
    obtain ⟨hrow, hparent⟩ := h item List.mem_cons_self
    unfold createItems insertTransactionRow
    rw [LawfulMonad.bind_assoc]
    refine rewrites_bind (rewrites_insertRow hrow) fun o => ?_
    rw [LawfulMonad.bind_assoc]
    refine rewrites_guard (by simp) fun _ => ?_
    rw [pure_bind]
    refine rewrites_bind (rewrites_syncIfAny hparent) fun _ => ?_
    exact rewrites_bind (ih fun x hx => h x (List.mem_cons_of_mem _ hx)) fun _ => trivial

theorem rewrites_logCreated {responses : List TransactionResponse} {i : Nat} :
    (logCreated env userId responses i).Rewrites (Proposes env userId request) upd := by
  induction responses generalizing i with
  | nil => trivial
  | cons response responses ih => exact rewrites_bind rewrites_writeActivityLog fun _ => ih

theorem rewrites_createBatch {items : List TransactionCreateRequest} :
    (createBatch env userId items).Rewrites (Proposes env userId (.batchCreateTransactions items))
      (Updates env userId (.batchCreateTransactions items)) := by
  refine rewrites_guard (by simp) fun _ => rewrites_guard (by simp) fun _ => ?_
  refine rewrites_guard (by simp) fun _ => rewrites_guard (by simp) fun _ => ?_
  refine rewrites_guard (by simp) fun _ => rewrites_bind (rewrites_createItems ?_) fun _ => ?_
  · exact fun item hitem => ⟨.batchItem hitem, List.mem_map_of_mem hitem⟩
  · refine rewrites_guard (by simp) fun _ => ?_
    exact rewrites_bind rewrites_logCreated fun _ => trivial

theorem rewrites_updateTransaction {id : Uuid} {body : TransactionUpdateRequest} :
    (updateTransaction env userId id body.fields body.hashtagIds.join
      body.reconciliationId).Rewrites (Proposes env userId (.updateTransaction id body))
      (Updates env userId (.updateTransaction id body)) := by
  unfold updateTransaction
  split
  · exact rewrites_guard (by simp) fun _ => rewrites_guard (by simp) fun _ => trivial
  · refine rewrites_guard (by simp) fun _ => rewrites_guard (by simp) fun _ => ?_
    refine rewrites_guard (by simp) fun _ => rewrites_guard (by simp) fun _ => ?_
    refine rewrites_guard (by simp) fun _ => rewrites_guard (by simp) fun _ => ?_
    refine rewrites_guard (by simp) fun _ => rewrites_guard (by simp) fun title => ?_
    refine rewrites_guard (by simp) fun _ => ?_
    refine rewrites_bind (rewrites_updateRow fun r hw => .transactionUpdated hw) fun _ => ?_
    refine rewrites_guard (by simp) fun _ => ?_
    refine rewrites_bind (rewrites_syncIfGiven (List.mem_singleton_self _)) fun _ => ?_
    exact rewrites_guard (by simp) fun _ => rewrites_logged

theorem rewrites_deleteTransaction {id : Uuid} :
    (deleteTransaction env userId id).Rewrites (Proposes env userId (.deleteTransaction id))
      (Updates env userId (.deleteTransaction id)) := by
  refine rewrites_guard (by simp) fun _ => rewrites_guard (by simp) fun _ => ?_
  refine rewrites_guard (by simp) fun _ => ?_
  refine rewrites_bind (rewrites_updateRow fun r hw => .transactionDeleted hw) fun _ => ?_
  refine rewrites_guard (by simp) fun _ => ?_
  refine rewrites_bind (rewrites_cascadeDelete (List.mem_singleton_self _)) fun _ => ?_
  exact rewrites_guard (by simp) fun _ => rewrites_logged

theorem rewrites_restoreTransaction {id : Uuid} :
    (restoreTransaction env userId id).Rewrites (Proposes env userId (.restoreTransaction id))
      (Updates env userId (.restoreTransaction id)) := by
  refine rewrites_guard (by simp) fun _ => rewrites_guard (by simp) fun _ => ?_
  refine rewrites_guard (by simp) fun _ => rewrites_guard (by simp) fun _ => ?_
  refine rewrites_guard (by simp) fun _ => rewrites_guard (by simp) fun _ => ?_
  refine rewrites_bind (rewrites_updateRow fun r hw => .transactionRestored hw) fun _ => ?_
  refine rewrites_guard (by simp) fun _ => ?_
  refine rewrites_bind (rewrites_cascadeRestore (List.mem_singleton_self _)) fun _ => ?_
  exact rewrites_guard (by simp) fun _ => rewrites_logged

/-! ### Drafts -/

theorem rewrites_createInboxItem {body : InboxCreateRequest} :
    (createInboxItem env userId body).Rewrites (Proposes env userId (.createInboxItem body))
      (Updates env userId (.createInboxItem body)) := by
  refine rewrites_guard (by simp) fun _ => rewrites_guard (by simp) fun _ => ?_
  refine rewrites_guard (by simp) fun _ => rewrites_bind (rewrites_insertRow .draft) fun _ => ?_
  refine rewrites_guard (by simp) fun _ => ?_
  refine rewrites_bind (rewrites_syncIfAny (List.mem_singleton_self _)) fun _ => ?_
  exact rewrites_guard (by simp) fun _ => rewrites_logged

theorem rewrites_updateInboxItem {id : Uuid} {body : InboxUpdateRequest} :
    (updateInboxItem env userId id body).Rewrites (Proposes env userId (.updateInboxItem id body))
      (Updates env userId (.updateInboxItem id body)) := by
  refine rewrites_guard (by simp) fun fields => ?_
  show Rewrites _ _ (if _ then _ else _)
  split
  · exact rewrites_guard (by simp) fun _ => rewrites_guard (by simp) fun _ => trivial
  · refine rewrites_guard (by simp) fun _ => rewrites_guard (by simp) fun _ => ?_
    refine rewrites_guard (by simp) fun _ => rewrites_guard (by simp) fun _ => ?_
    refine rewrites_guard (by simp) fun _ => ?_
    refine rewrites_bind (rewrites_updateRow fun r hw => .draftUpdated hw) fun _ => ?_
    refine rewrites_guard (by simp) fun _ => ?_
    refine rewrites_bind (rewrites_syncIfGiven (List.mem_singleton_self _)) fun _ => ?_
    exact rewrites_guard (by simp) fun _ => rewrites_logged

theorem rewrites_deleteInboxItem {id : Uuid} :
    (deleteInboxItem env userId id).Rewrites (Proposes env userId (.deleteInboxItem id))
      (Updates env userId (.deleteInboxItem id)) := by
  refine rewrites_guard (by simp) fun _ => rewrites_guard (by simp) fun _ => ?_
  refine rewrites_bind (rewrites_updateRow fun r hw => .draftDismissed hw) fun _ => ?_
  refine rewrites_guard (by simp) fun _ => ?_
  refine rewrites_bind (rewrites_cascadeDelete (List.mem_singleton_self _)) fun _ => ?_
  exact rewrites_guard (by simp) fun _ => rewrites_logged

theorem rewrites_promoteInboxItem {id targetId : Uuid} :
    (promoteInboxItem env userId id targetId).Rewrites
      (Proposes env userId (.promoteInboxItem id targetId))
      (Updates env userId (.promoteInboxItem id targetId)) := by
  refine rewrites_guard (by simp) fun _ => rewrites_guard (by simp) fun draft => ?_
  refine rewrites_guard (by simp) fun tags => rewrites_guard (by simp) fun _ => ?_
  refine rewrites_guard (by simp) fun _ => rewrites_guard (by simp) fun _ => ?_
  refine rewrites_guard (by simp) fun _ => rewrites_guard (by simp) fun ty => ?_
  have hrow : Proposes env userId (.promoteInboxItem id targetId) .transactions
      (promotedRow env userId targetId draft ty) := .promoted
  have hledger : (targetId, TransactionSource.ledger) ∈
      (Request.promoteInboxItem id targetId).parents := List.mem_cons_self
  unfold insertTransactionRow
  rw [LawfulMonad.bind_assoc]
  refine rewrites_bind (rewrites_insertRow hrow) fun o => ?_
  rw [LawfulMonad.bind_assoc]
  refine rewrites_guard (by simp) fun _ => ?_
  rw [pure_bind]
  refine rewrites_bind (rewrites_syncIfAny hledger) fun _ => rewrites_guard (by simp) fun _ => ?_
  refine rewrites_bind rewrites_writeActivityLog fun _ => ?_
  refine rewrites_bind (rewrites_updateRow fun r hw => .draftPromoted hw) fun _ => ?_
  refine rewrites_guard (by simp) fun _ => ?_
  refine rewrites_bind (rewrites_cascadeDelete (List.mem_cons_of_mem _ List.mem_cons_self)) ?_
  exact fun _ => rewrites_guard (by simp) fun _ => rewrites_logged

/-! ### Reconciliations -/

theorem rewrites_createReconciliation {body : ReconciliationCreateRequest} :
    (createReconciliation env userId body).Rewrites
      (Proposes env userId (.createReconciliation body))
      (Updates env userId (.createReconciliation body)) := by
  refine rewrites_guard (by simp) fun _ => rewrites_guard (by simp) fun name => ?_
  refine rewrites_bind (rewrites_insertRow .reconciliation) fun _ => ?_
  refine rewrites_guard (by simp) fun _ => ?_
  refine rewrites_guard writesOnly_fetchReconciliation fun _ => ?_
  exact rewrites_guard (by simp) fun _ => rewrites_logged

theorem rewrites_updateReconciliation {id : Uuid} {body : ReconciliationUpdateRequest} :
    (updateReconciliation env userId id body.fields).Rewrites
      (Proposes env userId (.updateReconciliation id body))
      (Updates env userId (.updateReconciliation id body)) := by
  unfold updateReconciliation
  split
  · refine rewrites_guard writesOnly_fetchReconciliation fun _ => ?_
    exact rewrites_guard (by simp) fun _ => trivial
  · refine rewrites_guard (by simp) fun name => ?_
    refine rewrites_guard writesOnly_fetchReconciliation fun _ => ?_
    refine rewrites_guard (by simp) fun _ => rewrites_guard (by simp) fun _ => ?_
    refine rewrites_bind (rewrites_updateRow fun r hw => .reconciliationUpdated hw) fun _ => ?_
    refine rewrites_guard (by simp) fun _ => ?_
    refine rewrites_guard writesOnly_fetchReconciliation fun _ => ?_
    exact rewrites_guard (by simp) fun _ => rewrites_logged

theorem rewrites_transitionStatus {id : Uuid} {target : ReconciliationStatus}
    {requireAssigned : Bool}
    (hrec : ∀ r, owns .reconciliations id userId .either r = true →
      Updates env userId request .reconciliations r
        ((bumped .reconciliations env.now (setStatus target)).apply r))
    (hmember : ∀ r, isMember id userId r = true → Updates env userId request .transactions r
      ((bumped .transactions env.now (noChange .transactions)).apply r)) :
    (transitionStatus env userId id target requireAssigned).Rewrites (Proposes env userId request)
      (Updates env userId request) := by
  refine rewrites_guard writesOnly_fetchReconciliation fun _ => ?_
  refine rewrites_guard (by simp) fun row => ?_
  show Rewrites _ _ (if _ then _ else _)
  split
  · trivial
  · refine rewrites_guard (by simp) fun _ => rewrites_guard (by simp) fun _ => ?_
    refine rewrites_bind (rewrites_updateWhere hrec) fun _ => ?_
    refine rewrites_bind (rewrites_updateWhere hmember) fun _ => ?_
    refine rewrites_guard writesOnly_fetchReconciliation fun _ => ?_
    exact rewrites_guard (by simp) fun _ => rewrites_logged

theorem rewrites_deleteReconciliation {id : Uuid} :
    (deleteReconciliation env userId id).Rewrites (Proposes env userId (.deleteReconciliation id))
      (Updates env userId (.deleteReconciliation id)) := by
  unfold deleteReconciliation
  refine rewrites_fetchReconciliation fun row hrow => rewrites_guard (by simp) fun _ => ?_
  refine rewrites_bind (rewrites_updateWhere fun r hw => .memberUnassigned hw) fun _ => ?_
  refine rewrites_mutateWithAudit rfl (fun r hw => ?_) fun _ => writesOnly_refetchReconciliation
  obtain rfl := (owns_active.mp hrow).1
  exact .reconciliationDeleted hw

theorem rewrites_restoreReconciliation {id : Uuid} :
    (restoreReconciliation env userId id).Rewrites
      (Proposes env userId (.restoreReconciliation id))
      (Updates env userId (.restoreReconciliation id)) := by
  unfold restoreReconciliation
  refine rewrites_fetchReconciliation fun row hrow => ?_
  refine rewrites_mutateWithAudit rfl (fun r hw => ?_) fun _ => writesOnly_refetchReconciliation
  obtain rfl := (owns_deleted.mp hrow).1
  exact .reconciliationRestored hw

/-! ### Accounts, categories and hashtags -/

theorem rewrites_createAccount {body : AccountCreateRequest} {isPerson : Bool}
    (h : ∀ name sortOrder, Proposes env userId request .bankAccounts
      (newAccountRow env userId body isPerson name sortOrder)) :
    (createAccount env userId body isPerson).Rewrites (Proposes env userId request)
      (Updates env userId request) := by
  refine rewrites_guard (by simp) fun name => rewrites_guard (by simp) fun _ => ?_
  dsimp only
  split
  · trivial
  · refine rewrites_guard (by simp) fun _ => rewrites_guard (by simp) fun _ => ?_
    refine rewrites_guard (by simp) fun n => rewrites_bind (rewrites_insertRow (h name n)) ?_
    refine fun _ => rewrites_guard (by simp) fun _ => rewrites_guard (by simp) fun _ => ?_
    exact rewrites_logged

theorem rewrites_ensureSystemCategory {accountId : Uuid} {body : OpeningBalanceRequest} :
    (ensureSystemCategory env userId .openingBalance).Rewrites
      (Proposes env userId (.createOpeningBalance accountId body)) upd := by
  refine rewrites_guard (by simp) fun found => ?_
  cases found with
  | some row => trivial
  | none =>
    refine rewrites_bind (rewrites_insertOrSkip .systemCategory) fun o => ?_
    cases o with
    | inserted | violation => trivial
    | skipped => exact rewrites_guard (by simp) fun _ => rewrites_guard (by simp) fun _ => trivial

theorem rewrites_createOpeningBalance {accountId : Uuid} {body : OpeningBalanceRequest} :
    (createOpeningBalance env userId accountId body).Rewrites
      (Proposes env userId (.createOpeningBalance accountId body))
      (Updates env userId (.createOpeningBalance accountId body)) := by
  refine rewrites_guard (by simp) fun account => rewrites_guard (by simp) fun _ => ?_
  refine rewrites_guard (by simp) fun existing => rewrites_guard (by simp) fun _ => ?_
  refine rewrites_bind rewrites_ensureSystemCategory fun categoryId => ?_
  exact rewrites_createTransaction .openingBalance List.mem_cons_self

theorem rewrites_updateAccount {id : Uuid} {body : AccountUpdateRequest} {fields : AccountFields} :
    (updateAccount env userId id fields).Rewrites (Proposes env userId (.updateAccount id body))
      (Updates env userId (.updateAccount id body)) := by
  refine rewrites_guard (by simp) fun _ => rewrites_guard (by simp) fun _ => ?_
  refine rewrites_guard (by simp) fun row => ?_
  show Rewrites _ _ (if _ then _ else _)
  split
  · exact rewrites_guard (by simp) fun _ => trivial
  · refine rewrites_guard (by simp) fun name => rewrites_guard (by simp) fun _ => ?_
    refine rewrites_bind (rewrites_updateRow fun r hw => .accountUpdated hw) fun _ => ?_
    exact rewrites_guard (by simp) fun _ => rewrites_logged

theorem rewrites_deleteAccount {id : Uuid} :
    (deleteAccount env userId id).Rewrites (Proposes env userId (.deleteAccount id))
      (Updates env userId (.deleteAccount id)) := by
  refine rewrites_fetchOwnedRowOr404 fun row hrow => rewrites_guard (by simp) fun _ => ?_
  refine rewrites_guard (by simp) fun _ => rewrites_guard (by simp) fun _ => ?_
  refine rewrites_mutateWithAudit rfl (fun r hw => ?_) fun _ => trivial
  obtain rfl := (owns_active.mp hrow).1
  exact .accountDeleted hw

theorem rewrites_restoreAccount {id : Uuid} :
    (restoreAccount env userId id).Rewrites (Proposes env userId (.restoreAccount id))
      (Updates env userId (.restoreAccount id)) := by
  refine rewrites_fetchOwnedRowOr404 fun row hrow => rewrites_guard (by simp) fun _ => ?_
  refine rewrites_guard (by simp) fun _ => rewrites_guard (by simp) fun _ => ?_
  refine rewrites_mutateWithAudit rfl (fun r hw => ?_) fun _ => trivial
  obtain rfl := (owns_deleted.mp hrow).1
  exact .accountRestored hw

theorem rewrites_setAccountArchive {id : Uuid} {archived : Bool}
    (h : ∀ r, owns .bankAccounts id userId .either r = true → upd .bankAccounts r
      ((bumped .bankAccounts env.now (setArchived archived)).apply r)) :
    (setAccountArchive env userId id archived).Rewrites (Proposes env userId request) upd := by
  refine rewrites_guard (by simp) fun _ => rewrites_guard (by simp) fun _ => ?_
  refine rewrites_bind (rewrites_updateRow h) fun _ => ?_
  exact rewrites_guard (by simp) fun _ => rewrites_logged

theorem rewrites_updateNamedResource {t : Tbl} [NamedTable t] {resourceType : String} {id : Uuid}
    {isEmpty : Bool} {rename color : Option Text} {set : Option Text → Change Row t}
    {serialize : Row t → Body} {checkName : Row t → Text → Op Unit}
    (hcheck : ∀ r n, (checkName r n).WritesOnly fun _ => False)
    (h : ∀ name r, owns t id userId .active r = true →
      upd t r ((bumped t env.now (set name)).apply r)) :
    (updateNamedResource env userId t resourceType id isEmpty rename color set serialize
      checkName).Rewrites (Proposes env userId request) upd := by
  refine rewrites_guard (by simp) fun row => ?_
  show Rewrites _ _ (if _ then _ else _)
  split
  · trivial
  · refine rewrites_guard (by simp) fun _ => ?_
    refine rewrites_guard (readOnly_normalizeRename hcheck) fun name => ?_
    refine rewrites_bind (rewrites_updateRow (h name)) fun _ => ?_
    exact rewrites_guard (by simp) fun _ => rewrites_logged

theorem rewrites_createCategory {body : CategoryCreateRequest} :
    (createCategory env userId body).Rewrites (Proposes env userId (.createCategory body))
      (Updates env userId (.createCategory body)) := by
  refine rewrites_guard (by simp) fun name => rewrites_guard (by simp) fun _ => ?_
  refine rewrites_guard (by simp) fun _ => rewrites_guard (by simp) fun _ => ?_
  refine rewrites_guard (by simp) fun _ => rewrites_guard (by simp) fun n => ?_
  refine rewrites_bind (rewrites_insertRow .category) fun _ => ?_
  exact rewrites_guard (by simp) fun _ => rewrites_logged

theorem rewrites_deleteCategory {id : Uuid} :
    (deleteCategory env userId id).Rewrites (Proposes env userId (.deleteCategory id))
      (Updates env userId (.deleteCategory id)) := by
  refine rewrites_fetchOwnedRowOr404 fun row hrow => rewrites_guard (by simp) fun _ => ?_
  refine rewrites_guard (by simp) fun _ => rewrites_guard (by simp) fun _ => ?_
  refine rewrites_guard (by simp) fun _ => rewrites_guard (by simp) fun _ => ?_
  refine rewrites_mutateWithAudit rfl (fun r hw => ?_) fun _ => trivial
  obtain rfl := (owns_active.mp hrow).1
  exact .categoryDeleted hw

theorem rewrites_restoreCategory {id : Uuid} :
    (restoreCategory env userId id).Rewrites (Proposes env userId (.restoreCategory id))
      (Updates env userId (.restoreCategory id)) := by
  refine rewrites_fetchOwnedRowOr404 fun row hrow => ?_
  refine rewrites_guard writesOnly_checkCategoryName fun _ => rewrites_guard (by simp) fun _ => ?_
  refine rewrites_guard (by simp) fun _ => ?_
  refine rewrites_mutateWithAudit rfl (fun r hw => ?_) fun _ => trivial
  obtain rfl := (owns_deleted.mp hrow).1
  exact .categoryRestored hw

theorem rewrites_createHashtag {body : HashtagCreateRequest} :
    (createHashtag env userId body).Rewrites (Proposes env userId (.createHashtag body))
      (Updates env userId (.createHashtag body)) := by
  refine rewrites_guard (by simp) fun name => rewrites_guard (by simp) fun _ => ?_
  refine rewrites_guard (by simp) fun _ => rewrites_guard (by simp) fun n => ?_
  refine rewrites_bind (rewrites_insertRow .hashtag) fun _ => ?_
  exact rewrites_guard (by simp) fun _ => rewrites_logged

theorem rewrites_bumpParents {t : Tbl} [OwnedTable t] {ids : List Uuid}
    (h : ∀ r, (OwnedTable.resource r).userId = userId →
      upd t r ((bumped t env.now (noChange t)).apply r)) :
    (bumpParents env t userId ids).Rewrites ins upd := by
  unfold bumpParents
  split
  · trivial
  · refine rewrites_bind (rewrites_updateWhere fun r hw => h r ?_) fun _ => trivial
    exact (of_decide_eq_true hw).2

theorem rewrites_deleteHashtag {id : Uuid} :
    (deleteHashtag env userId id).Rewrites (Proposes env userId (.deleteHashtag id))
      (Updates env userId (.deleteHashtag id)) := by
  refine rewrites_fetchOwnedRowOr404 fun row hrow => ?_
  refine rewrites_bind (rewrites_updateWhere fun r hw => .linkDropped hw) fun _ => ?_
  refine rewrites_bind (rewrites_bumpParents fun r hu => .transactionUntagged hu) fun _ => ?_
  refine rewrites_bind (rewrites_bumpParents fun r hu => .draftUntagged hu) fun _ => ?_
  refine rewrites_mutateWithAudit rfl (fun r hw => ?_) fun _ => trivial
  obtain rfl := (owns_active.mp hrow).1
  exact .hashtagDeleted hw

theorem rewrites_restoreHashtag {id : Uuid} :
    (restoreHashtag env userId id).Rewrites (Proposes env userId (.restoreHashtag id))
      (Updates env userId (.restoreHashtag id)) := by
  refine rewrites_fetchOwnedRowOr404 fun row hrow => rewrites_guard (by simp) fun _ => ?_
  refine rewrites_guard (by simp) fun _ => ?_
  refine rewrites_mutateWithAudit rfl (fun r hw => ?_) fun _ => trivial
  obtain rfl := (owns_deleted.mp hrow).1
  exact .hashtagRestored hw

/-! ### Users, settings and tokens -/

theorem rewrites_bootstrap {displayName timezone : Text} :
    (bootstrap env userId displayName timezone).Rewrites
      (Proposes env userId (.bootstrap displayName timezone))
      (Updates env userId (.bootstrap displayName timezone)) := by
  refine rewrites_guard (by simp) fun _ => rewrites_bind ?_ fun _ => rewrites_bind ?_ fun _ => ?_
  · refine rewrites_guard (by simp) fun found => ?_
    cases found with
    | none => exact rewrites_bind (rewrites_insertOrAbort .user) fun _ => rewrites_logged
    | some row =>
      refine rewrites_bind (rewrites_updateRow fun r hw => ?_) fun _ => ?_
      · exact .login (of_decide_eq_true hw)
      · exact rewrites_of_readOnly (by simp)
  · refine rewrites_guard (by simp) fun found => ?_
    cases found with
    | none => exact rewrites_bind (rewrites_insertOrAbort .settings) fun _ => rewrites_logged
    | some row => trivial
  · trivial

theorem rewrites_updateSettings {body : SettingsUpdateRequest} {fields : SettingsFields} :
    (updateSettings env userId fields).Rewrites (Proposes env userId (.updateSettings body))
      (Updates env userId (.updateSettings body)) := by
  unfold updateSettings
  split
  · exact rewrites_guard (by simp) fun _ => rewrites_guard (by simp) fun _ => trivial
  · refine rewrites_guard (by simp) fun _ => rewrites_guard (by simp) fun _ => ?_
    refine rewrites_guard (by simp) fun _ => rewrites_guard (by simp) fun _ => ?_
    refine rewrites_bind (rewrites_updateRow fun r hw => .settingsUpdated ?_) fun _ => ?_
    · exact of_decide_eq_true hw
    · exact rewrites_guard (by simp) fun _ => rewrites_logged

theorem rewrites_updateProfile {displayName : Sent Text} {name : Option Text} :
    (updateProfile env userId name).Rewrites (Proposes env userId (.updateProfile displayName))
      (Updates env userId (.updateProfile displayName)) := by
  refine rewrites_guard (by simp) fun _ => rewrites_guard (by simp) fun _ => ?_
  refine rewrites_guard (by simp) fun _ => ?_
  refine rewrites_bind (rewrites_updateRow fun r hw => .profileUpdated ?_) fun _ => ?_
  · exact of_decide_eq_true hw
  · exact rewrites_guard (by simp) fun _ => rewrites_logged

theorem rewrites_createPat {name : Option Text} :
    (createPat env userId name).Rewrites (Proposes env userId (.createPat name))
      (Updates env userId (.createPat name)) :=
  rewrites_bind (rewrites_insertOrAbort .token) fun _ => rewrites_logged

theorem rewrites_revokePat {id : Uuid} :
    (revokePat env userId id).Rewrites (Proposes env userId (.revokePat id))
      (Updates env userId (.revokePat id)) := by
  refine rewrites_guard (by simp) fun _ => rewrites_guard (by simp) fun _ => ?_
  refine rewrites_bind (rewrites_updateRow fun r hw => .tokenRevoked ?_) fun _ => ?_
  · exact of_decide_eq_true hw
  · exact rewrites_guard (by simp) fun _ => rewrites_logged

end StatementLemmas

/-- The statements of a request are on its lists. -/
theorem work_rewrites (env : Env) (userId : Uuid) (request : Request) :
    (request.work env userId).Rewrites (Proposes env userId request)
      (Updates env userId request) := by
  cases request with
  | createTransaction body => exact rewrites_createTransaction .transaction List.mem_cons_self
  | batchCreateTransactions items => exact rewrites_createBatch
  | updateTransaction id body => exact rewrites_updateTransaction
  | deleteTransaction id => exact rewrites_deleteTransaction
  | restoreTransaction id => exact rewrites_restoreTransaction
  | createInboxItem body => exact rewrites_createInboxItem
  | updateInboxItem id body => exact rewrites_updateInboxItem
  | deleteInboxItem id => exact rewrites_deleteInboxItem
  | promoteInboxItem id targetId => exact rewrites_promoteInboxItem
  | createReconciliation body => exact rewrites_createReconciliation
  | updateReconciliation id body => exact rewrites_updateReconciliation
  | completeReconciliation id =>
    exact rewrites_transitionStatus (fun _ hw => .reconciliationCompleted hw)
      fun _ hw => .memberCompleted hw
  | revertReconciliation id =>
    exact rewrites_transitionStatus (fun _ hw => .reconciliationReverted hw)
      fun _ hw => .memberReverted hw
  | deleteReconciliation id => exact rewrites_deleteReconciliation
  | restoreReconciliation id => exact rewrites_restoreReconciliation
  | createAccount body => exact rewrites_createAccount fun _ _ => .account
  | createPerson body => exact rewrites_createAccount fun _ _ => .person
  | createOpeningBalance accountId body => exact rewrites_createOpeningBalance
  | updateAccount id body => exact rewrites_updateAccount
  | deleteAccount id => exact rewrites_deleteAccount
  | restoreAccount id => exact rewrites_restoreAccount
  | archiveAccount id => exact rewrites_setAccountArchive fun _ hw => .accountArchived hw
  | unarchiveAccount id => exact rewrites_setAccountArchive fun _ hw => .accountUnarchived hw
  | createCategory body => exact rewrites_createCategory
  | updateCategory id body =>
    exact rewrites_updateNamedResource (fun _ _ => writesOnly_checkCategoryName)
      fun _ _ hw => .categoryUpdated hw
  | deleteCategory id => exact rewrites_deleteCategory
  | restoreCategory id => exact rewrites_restoreCategory
  | createHashtag body => exact rewrites_createHashtag
  | updateHashtag id body =>
    exact rewrites_updateNamedResource (fun _ _ => writesOnly_pure _)
      fun _ _ hw => .hashtagUpdated hw
  | deleteHashtag id => exact rewrites_deleteHashtag
  | restoreHashtag id => exact rewrites_restoreHashtag
  | bootstrap displayName timezone => exact rewrites_bootstrap
  | updateSettings body => exact rewrites_updateSettings
  | updateProfile displayName => exact rewrites_updateProfile
  | createPat name => exact rewrites_createPat
  | revokePat id => exact rewrites_revokePat

/-! ## Calls -/

/-- The row a call stores under its idempotency key. -/
def Call.Stores (c : Call) : (t : Tbl) → Row t → Prop
  | .idempotencyKeys, (r : IdempotencyKeyRow) => r.userId = c.userId ∧ c.key = some r.key
  | _, _ => False

/-- The rows a call may insert. -/
def Call.Proposes (c : Call) (t : Tbl) (r : Row t) : Prop :=
  c.Stores t r ∨ ExpenseEngine.Proposes c.env c.userId c.request t r

/-- What a call may make of one row. -/
def Call.Updates (c : Call) (t : Tbl) (r r' : Row t) : Prop :=
  ExpenseEngine.Updates c.env c.userId c.request t r r'

theorem handle_rewrites (c : Call) : c.handle.Rewrites c.Proposes c.Updates := by
  have hwork : (c.request.work c.env c.userId).Rewrites c.Proposes c.Updates :=
    (work_rewrites c.env c.userId c.request).mono (fun _ _ h => .inr h) fun _ _ _ h => h
  refine rewrites_guard readOnly_liftExcept fun _ => ?_
  unfold runIdempotent
  split
  · rw [map_eq_pure_bind]
    exact rewrites_bind hwork fun _ => trivial
  · trivial
  · next key fingerprint hkey _ =>
    refine rewrites_bind ?_ fun found => ?_
    · refine rewrites_guard trivial fun _ => rewrites_guard readOnly_fetchRow fun row => ?_
      cases row with
      | none => trivial
      | some row =>
        dsimp only
        split <;> trivial
    · cases found with
      | some reply => trivial
      | none =>
        refine rewrites_bind hwork fun response => rewrites_bind ?_ fun _ => trivial
        refine rewrites_bind (rewrites_insertOrSkip (.inl ⟨rfl, hkey⟩)) fun o => ?_
        split <;> trivial

/-- A call leaves the database as it was, or does its work and stores its key. -/
theorem step_cases (db : Db) (c : Call) : step db c = db ∨
    ∃ b db₁, exec (c.request.work c.env c.userId) db = .ok (b, db₁) ∧
      ∀ t, t ≠ .idempotencyKeys → step db c t = db₁ t := by
  unfold step
  cases h : exec c.handle db with
  | error e => exact .inl rfl
  | ok x =>
    rcases exec_handle_ok h with ⟨_, _, -, hdb⟩ | ⟨b, db₁, -, hwork, hdb⟩
    · exact .inl hdb
    · exact .inr ⟨b, db₁, hwork, hdb⟩

/-- A row stays, rewritten by the statements of the call. -/
theorem step_kept (c : Call) {t : Tbl} {r : Row t} (hr : r ∈ db.rows t) :
    ∃ r' ∈ (step db c).rows t,
      keyOf t r' = keyOf t r ∧ Relation.ReflTransGen (c.Updates t) r r' := by
  unfold step
  split
  · next db' h =>
    obtain ⟨r', hr', hchain⟩ :=
      exec_rewrites_kept (handle_rewrites c) h (Table.mem_rows_iff.mp hr)
    exact ⟨r', Table.mem_of_find? hr', Table.key_of_find? hr', hchain⟩
  · exact ⟨r, hr, rfl, .refl⟩

/-- Where a row of the later state comes from. -/
theorem step_origin (c : Call) {t : Tbl} {r' : Row t} (hr' : r' ∈ (step db c).rows t) :
    (∃ r ∈ db.rows t, keyOf t r = keyOf t r' ∧ Relation.ReflTransGen (c.Updates t) r r') ∨
      (∀ r ∈ db.rows t, keyOf t r ≠ keyOf t r') ∧ ∃ r, c.Proposes t r ∧ keyOf t r = keyOf t r' ∧
        Relation.ReflTransGen (c.Updates t) r r' := by
  unfold step at hr'
  split at hr'
  · next db' h =>
    rcases exec_rewrites_origin (handle_rewrites c) h (Table.mem_rows_iff.mp hr') with
      ⟨r, hr, hchain⟩ | ⟨hnone, hnew⟩
    · exact .inl ⟨r, Table.mem_of_find? hr, Table.key_of_find? hr, hchain⟩
    · exact .inr ⟨Table.find?_eq_none.mp hnone, hnew⟩
  · exact .inl ⟨r', hr', rfl, .refl⟩

/-- What every statement of a call keeps of a row, the call keeps. -/
theorem step_kept_of {c : Call} {t : Tbl} {P : Row t → Row t → Prop} (hrefl : ∀ r, P r r)
    (htrans : ∀ {a b c}, P a b → P b c → P a c) (hP : ∀ r r', c.Updates t r r' → P r r')
    {r : Row t} (hr : r ∈ db.rows t) :
    ∃ r' ∈ (step db c).rows t, keyOf t r' = keyOf t r ∧ P r r' := by
  obtain ⟨r', hr', hkey, hchain⟩ := step_kept c hr
  refine ⟨r', hr', hkey, ?_⟩
  clear hr' hkey
  induction hchain with
  | refl => exact hrefl r
  | tail _ hstep ih => exact htrans ih (hP _ _ hstep)

end ExpenseEngine
