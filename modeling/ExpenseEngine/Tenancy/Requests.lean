import ExpenseEngine.Effects.Step
import ExpenseEngine.Tenancy.Statements

/-!
# Every request keeps to its user

Results:
1. `confined_work`: the work of each endpoint.
2. `confined_handle`: a call with its idempotency layer.
3. `partitioned_run`: runs keep the rows of the users apart.
-/

namespace ExpenseEngine

open Sql Sql.Prog TenantLemmas TenantStatements EffectLemmas

/-- The ids a request brings for the rows it creates. -/
def Request.newIds : Request → List Uuid
  | .createTransaction body => [body.id]
  | .batchCreateTransactions items => items.map fun item => item.id
  | .createInboxItem body => [body.id]
  | .promoteInboxItem _ targetId => [targetId]
  | .createReconciliation body => [body.id]
  | .createAccount body | .createPerson body => [body.id]
  | .createOpeningBalance _ body => [body.transactionId]
  | .createCategory body => [body.id]
  | .createHashtag body => [body.id]
  | _ => []

section Requests

variable [Platform] {W : Territory} {env : Env} {userId : Uuid}

/-- The new ids of the call lie in the territory of its user. It may name any
other id. -/
structure Call.Draws (c : Call) (W : Territory) : Prop where
  env : c.env.Draws W c.userId
  ids : ∀ i ∈ c.request.newIds, W.ids c.userId i

namespace TenantRequests

/-! ## Transactions -/

theorem confined_insertTransactionRow {transactionId accountId categoryId : Uuid} {title : Text}
    {description : Option Text} {amountCents : Int} {transactionType : TransactionType}
    {date : Timestamp} {inboxId : Option Uuid} (hid : W.ids userId transactionId)
    (ha : W.ids userId accountId) (hc : W.ids userId categoryId)
    (hi : ∀ i, inboxId = some i → W.ids userId i) :
    (insertTransactionRow env userId transactionId title description amountCents transactionType
      date accountId categoryId inboxId).Confined W.tenancy userId
      fun row => W.ids userId row.id := by
  unfold insertTransactionRow
  refine confined_bind (confined_insertRow ⟨rfl, hid, ha, hc, hi, nofun⟩) fun _ _ => ?_
  exact confined_bind confined_check fun _ _ => confined_pure hid

theorem confined_createTransaction (henv : env.Draws W userId) {body : TransactionCreateRequest}
    {allow : Bool} (hid : W.ids userId body.id) :
    (createTransaction env userId body allow).Confined W.tenancy userId fun _ => True := by
  unfold createTransaction
  refine confined_bind confined_dbNow fun now _ => ?_
  refine confined_bind confined_check fun _ _ => ?_
  refine confined_bind confined_validateActiveAccount fun _ ha => ?_
  refine confined_bind confined_validateActiveCategory fun category hc => ?_
  refine confined_bind confined_check fun _ _ => ?_
  refine confined_bind (confined_insertTransactionRow hid ha hc nofun) fun row hrow => ?_
  refine confined_bind (confined_syncIfAny hrow) fun _ _ => ?_
  refine confined_bind (confined_attachHashtagIds hrow) fun response _ => ?_
  exact confined_bind (confined_writeActivityLog henv) fun _ _ => trivial

theorem confined_fetchReconStatus {rid : Uuid} :
    (fetchReconStatus userId rid).Confined W.tenancy userId fun _ => True :=
  confined_any (confined_fetchRow fun _ h => congrArg some (of_decide_eq_true h).2)

theorem confined_checkCompletedLock {row : Row .transactions} {fields : TransactionFields}
    {reconId : Sent Uuid} :
    (checkCompletedLock userId row fields reconId).Confined W.tenancy userId fun _ => True := by
  unfold checkCompletedLock
  split
  · trivial
  · exact confined_bind confined_fetchReconStatus fun _ _ => confined_check

/-- The reconciliation a transaction is assigned to is the user's. -/
theorem confined_checkAssignment {row : Row .transactions} {fields : TransactionFields}
    {reconId : Sent Uuid} :
    (checkAssignment userId row fields reconId).Confined W.tenancy userId
      fun _ => ∀ i, reconId = some (some i) → W.ids userId i := by
  unfold checkAssignment
  split
  · next rid =>
    refine confined_bind (confined_fetchRow fun _ h => congrArg some (of_decide_eq_true h).2.1)
      fun found hfound => ?_
    refine confined_bind (confined_found hfound) fun recon hrecon => ?_
    refine confined_bind confined_check fun _ _ => ?_
    refine Confined.mono (φ := fun _ => True) confined_check fun _ _ => ?_
    rintro _ ⟨⟩
    obtain ⟨hw, howned⟩ := hrecon
    rw [← (of_decide_eq_true hw).1]
    exact howned.2.1
  · next hnone => exact confined_pure fun i hi => absurd hi (hnone i)

theorem confined_normalizeNewTitle {title : Option Text} :
    (normalizeNewTitle title).Confined W.tenancy userId fun _ => True := by
  cases title with
  | none => trivial
  | some t => exact confined_map (confined_any confined_normalizeName)

theorem confined_validateNewDate {date : Option Timestamp} :
    (validateNewDate env date).Confined W.tenancy userId fun _ => True := by
  cases date with
  | none => trivial
  | some d => exact confined_bind confined_dbNow fun _ _ => confined_check

/-- The SET list of an update assigns what the request has validated. -/
theorem owned_setTransaction {fields : TransactionFields} {reconId : Sent Uuid}
    (ha : ∀ i, fields.accountId = some i → W.ids userId i)
    (hc : ∀ i, fields.categoryId = some i → W.ids userId i)
    (hr : ∀ i, reconId = some (some i) → W.ids userId i) {r : Row .transactions}
    (h : W.tenancy.Owned userId .transactions r) :
    W.tenancy.Owned userId .transactions ((setTransaction fields reconId).apply r) := by
  obtain ⟨howner, hid, hacc, hcat, hinbox, hrec⟩ := h
  refine ⟨howner, hid, ?_, ?_, hinbox, fun i hi => ?_⟩
  · show W.ids userId (fields.accountId.getD r.accountId)
    cases hsent : fields.accountId with
    | none => exact hacc
    | some a => exact ha a hsent
  · show W.ids userId (fields.categoryId.getD r.categoryId)
    cases hsent : fields.categoryId with
    | none => exact hcat
    | some c => exact hc c hsent
  · have hi : reconId.getD r.reconciliationId = some i := hi
    cases hsent : reconId with
    | none => exact hrec i (by rwa [hsent] at hi)
    | some sent => exact hr i (by rw [hsent] at hi ⊢; exact congrArg some hi)

theorem confined_updateTransaction (henv : env.Draws W userId) {id : Uuid}
    {fields : TransactionFields} {hashtagIds : Option (List Uuid)} {reconId : Sent Uuid} :
    (updateTransaction env userId id fields hashtagIds reconId).Confined W.tenancy userId
      fun _ => True := by
  unfold updateTransaction
  split
  · refine confined_bind confined_fetchOwnedRowOr404 fun row hrow => ?_
    exact confined_bind (confined_attachHashtagIds (id_of_owned hrow.2)) fun _ _ => trivial
  · refine confined_bind confined_lockOwnedRowOr404 fun beforeRow hbefore => ?_
    have hid := id_of_found hbefore
    refine confined_bind (confined_attachHashtagIds (id_of_owned hbefore.2)) fun before _ => ?_
    refine confined_bind confined_checkCompletedLock fun _ _ => ?_
    refine confined_bind confined_checkAssignment fun _ hrec => ?_
    refine confined_bind confined_check fun _ _ => ?_
    refine confined_bind confined_validateNewAccount fun _ ha => ?_
    refine confined_bind confined_validateNewCategory fun _ hc => ?_
    refine confined_bind confined_normalizeNewTitle fun title _ => ?_
    refine confined_bind confined_validateNewDate fun _ _ => ?_
    refine confined_bind (confined_dynamicUpdate fun r hr => owned_setTransaction ha hc hrec hr)
      fun o ho => ?_
    refine confined_bind (confined_found ho) fun afterRow hafter => ?_
    refine confined_bind (confined_syncIfGiven hid) fun _ _ => ?_
    refine confined_bind (confined_attachHashtagIds (id_of_owned hafter)) fun after _ => ?_
    exact confined_bind (confined_writeActivityLog henv) fun _ _ => trivial

theorem confined_checkNotCompleted {rid : Option Uuid} :
    (checkNotCompleted userId rid).Confined W.tenancy userId fun _ => True := by
  cases rid with
  | none => trivial
  | some rid => exact confined_bind confined_fetchReconStatus fun _ _ => confined_check

theorem confined_deleteTransaction (henv : env.Draws W userId) {id : Uuid} :
    (deleteTransaction env userId id).Confined W.tenancy userId fun _ => True := by
  unfold deleteTransaction
  refine confined_bind confined_lockOwnedRowOr404 fun row hrow => ?_
  refine confined_bind confined_checkNotCompleted fun _ _ => ?_
  refine confined_bind (confined_attachHashtagIds (id_of_owned hrow.2)) fun before _ => ?_
  refine confined_bind confined_softDelete fun o ho => ?_
  refine confined_bind (confined_found ho) fun afterRow hafter => ?_
  refine confined_bind confined_cascadeDelete fun _ _ => ?_
  refine confined_bind (confined_attachHashtagIds (id_of_owned hafter)) fun after _ => ?_
  exact confined_bind (confined_writeActivityLog henv) fun _ _ => trivial

theorem confined_decideUnlink {rid : Option Uuid} :
    (decideUnlink userId rid).Confined W.tenancy userId fun _ => True := by
  cases rid with
  | none => trivial
  | some rid => exact confined_bind confined_fetchReconStatus fun _ _ => trivial

/-- A restore keeps the reconciliation of the row or drops it. -/
theorem owned_setRestored {unlink : Bool} {r : Row .transactions}
    (h : W.tenancy.Owned userId .transactions r) :
    W.tenancy.Owned userId .transactions ((setRestored unlink).apply r) := by
  obtain ⟨howner, hid, hacc, hcat, hinbox, hrec⟩ := h
  refine ⟨howner, hid, hacc, hcat, hinbox, fun i hi => ?_⟩
  have hi : (if unlink then none else r.reconciliationId) = some i := hi
  split at hi
  · cases hi
  · exact hrec i hi

theorem confined_restoreTransaction (henv : env.Draws W userId) {id : Uuid} :
    (restoreTransaction env userId id).Confined W.tenancy userId fun _ => True := by
  unfold restoreTransaction
  refine confined_bind confined_lockOwnedRowOr404 fun row hrow => ?_
  refine confined_bind confined_activeAccountRow fun _ _ => ?_
  refine confined_bind confined_activeCategoryRow fun _ _ => ?_
  refine confined_bind confined_check fun _ _ => ?_
  refine confined_bind confined_decideUnlink fun _ _ => ?_
  refine confined_bind (confined_attachHashtagIds (id_of_owned hrow.2)) fun before _ => ?_
  refine confined_bind (confined_updateRow (fun _ => owner_of_owns)
    fun r _ hr => owned_bumped (owned_setRestored hr)) fun o ho => ?_
  refine confined_bind (confined_found ho) fun afterRow hafter => ?_
  refine confined_bind confined_cascadeRestore fun _ _ => ?_
  refine confined_bind (confined_attachHashtagIds (id_of_owned hafter)) fun after _ => ?_
  exact confined_bind (confined_writeActivityLog henv) fun _ _ => trivial

/-! ### Batches -/

theorem confined_createItems {items : List TransactionCreateRequest}
    (hitems : ∀ item ∈ items, W.ids userId item.id ∧ W.ids userId item.accountId ∧
      W.ids userId item.categoryId) :
    (createItems env userId items).Confined W.tenancy userId
      fun rows => ∀ row ∈ rows, W.ids userId row.id := by
  induction items with
  | nil => exact fun _ h => absurd h (by simp)
  | cons item items ih =>
    obtain ⟨hid, ha, hc⟩ := hitems item List.mem_cons_self
    refine confined_bind (confined_insertTransactionRow hid ha hc (by simp)) fun row hrow => ?_
    refine confined_bind (confined_syncIfAny hrow) fun _ _ => ?_
    refine confined_bind (ih fun x hx => hitems x (List.mem_cons_of_mem _ hx)) fun rows hrows => ?_
    exact confined_pure (List.forall_mem_cons.mpr ⟨hrow, hrows⟩)

theorem confined_logCreated (henv : env.Draws W userId) {responses : List TransactionResponse}
    {i : Nat} : (logCreated env userId responses i).Confined W.tenancy userId fun _ => True := by
  induction responses generalizing i with
  | nil => trivial
  | cons response responses ih =>
    exact confined_bind (confined_writeActivityLog henv) fun _ _ => ih

theorem confined_attachHashtagIdsAll {rows : List (Row .transactions)}
    (hrows : ∀ row ∈ rows, W.ids userId row.id) :
    (attachHashtagIdsAll rows).Confined W.tenancy userId fun _ => True := by
  refine confined_read (fun db db' h => List.map_congr_left fun row hrow => ?_) fun _ _ => trivial
  rw [hashtagIdsOf_alike h (hrows row hrow)]

theorem confined_createBatch (henv : env.Draws W userId)
    {transactions : List TransactionCreateRequest}
    (hids : ∀ item ∈ transactions, W.ids userId item.id) :
    (createBatch env userId transactions).Confined W.tenancy userId fun _ => True := by
  unfold createBatch
  refine confined_bind confined_check fun _ _ => ?_
  refine confined_bind confined_dbNow fun now _ => ?_
  refine confined_bind confined_activeAccountIds fun accounts haccounts => ?_
  refine confined_bind confined_activeCategoryIds fun categories hcategories => ?_
  refine confined_bind confined_raiseIf fun _ herr => ?_
  have hnil : batchErrors now accounts categories transactions [] 0 = [] := by simpa using herr
  refine confined_bind (confined_createItems fun item hitem => ?_) fun rows hrows => ?_
  · obtain ⟨-, ha, b, hc⟩ := BatchLemmas.of_batchErrors hnil item hitem
    exact ⟨hids item hitem, haccounts _ ha, hcategories _ hc⟩
  · refine confined_bind (confined_attachHashtagIdsAll hrows) fun created _ => ?_
    exact confined_bind (confined_logCreated henv) fun _ _ => trivial

/-! ## Drafts -/

theorem confined_createInboxItem (henv : env.Draws W userId) {body : InboxCreateRequest}
    (hid : W.ids userId body.id) :
    (createInboxItem env userId body).Confined W.tenancy userId fun _ => True := by
  unfold createInboxItem
  refine confined_bind confined_check fun _ _ => ?_
  refine confined_bind confined_validateNewAccount fun _ ha => ?_
  refine confined_bind confined_validateDraftCategory fun _ hc => ?_
  refine confined_bind (confined_insertRow ⟨rfl, hid, ha, hc⟩) fun _ _ => ?_
  refine confined_bind confined_check fun _ _ => ?_
  refine confined_bind (confined_syncIfAny hid) fun _ _ => ?_
  refine confined_bind (confined_attachInboxHashtagIds hid) fun response _ => ?_
  exact confined_bind (confined_writeActivityLog henv) fun _ _ => trivial

/-- The SET list of a draft update assigns what the request has validated. -/
theorem owned_setInbox {fields : InboxFields} (ha : ∀ i, fields.accountId = some i → W.ids userId i)
    (hc : ∀ i, fields.categoryId = some i → W.ids userId i) {r : Row .transactionInbox}
    (h : W.tenancy.Owned userId .transactionInbox r) :
    W.tenancy.Owned userId .transactionInbox ((setInbox fields).apply r) := by
  obtain ⟨howner, hid, hacc, hcat⟩ := h
  refine ⟨howner, hid, fun i hi => ?_, fun i hi => ?_⟩
  · have hi : (if fields.accountId.isSome then fields.accountId else r.accountId) = some i := hi
    split at hi
    · exact ha i hi
    · exact hacc i hi
  · have hi : (if fields.categoryId.isSome then fields.categoryId else r.categoryId) = some i := hi
    split at hi
    · exact hc i hi
    · exact hcat i hi

theorem confined_updateInboxItem (henv : env.Draws W userId) {id : Uuid}
    {body : InboxUpdateRequest} :
    (updateInboxItem env userId id body).Confined W.tenancy userId fun _ => True := by
  unfold updateInboxItem
  refine confined_bind confined_liftExcept fun fields _ => ?_
  dsimp only
  split
  · refine confined_bind confined_fetchOwnedRowOr404 fun row hrow => ?_
    exact confined_bind (confined_attachInboxHashtagIds (id_of_owned hrow.2)) fun _ _ => trivial
  · refine confined_bind confined_check fun _ _ => ?_
    refine confined_bind confined_lockOwnedRowOr404 fun beforeRow hbefore => ?_
    have hid := id_of_found hbefore
    refine confined_bind (confined_attachInboxHashtagIds (id_of_owned hbefore.2)) fun before _ => ?_
    refine confined_bind confined_validateNewAccount fun _ ha => ?_
    refine confined_bind confined_validateDraftCategory fun _ hc => ?_
    refine confined_bind (confined_dynamicUpdate fun r hr => owned_setInbox ha hc hr) fun o ho => ?_
    refine confined_bind (confined_found ho) fun afterRow hafter => ?_
    refine confined_bind (confined_syncIfGiven hid) fun _ _ => ?_
    refine confined_bind (confined_attachInboxHashtagIds (id_of_owned hafter)) fun after _ => ?_
    exact confined_bind (confined_writeActivityLog henv) fun _ _ => trivial

theorem confined_deleteInboxItem (henv : env.Draws W userId) {id : Uuid} :
    (deleteInboxItem env userId id).Confined W.tenancy userId fun _ => True := by
  unfold deleteInboxItem
  refine confined_bind confined_fetchOwnedRowOr404 fun row hrow => ?_
  refine confined_bind (confined_attachInboxHashtagIds (id_of_owned hrow.2)) fun before _ => ?_
  refine confined_bind confined_softDelete fun o ho => ?_
  refine confined_bind (confined_found ho) fun afterRow hafter => ?_
  refine confined_bind confined_cascadeDelete fun _ _ => ?_
  refine confined_bind (confined_attachInboxHashtagIds (id_of_owned hafter)) fun after _ => ?_
  exact confined_bind (confined_writeActivityLog henv) fun _ _ => trivial

theorem confined_promoteAccount {a : Option Uuid} :
    (promoteAccount userId a).Confined W.tenancy userId
      fun o => o.isSome → W.ids userId (a.getD 0) := by
  cases a with
  | none => exact confined_pure (by simp)
  | some a => exact confined_activeAccountRow

theorem confined_promoteCategory {c : Option Uuid} :
    (promoteCategory userId c).Confined W.tenancy userId
      fun o => o.isSome → W.ids userId (c.getD 0) := by
  cases c with
  | none => exact confined_pure (by simp)
  | some c => exact confined_activeCategoryRow

omit [Platform] in
/-- A draft that is ready has its account and its category. -/
theorem of_promoteErrors {now : Timestamp} {row : Row .transactionInbox}
    {account : Option (Row .bankAccounts)} {category : Option (Row .categories)}
    (h : promoteErrors now row account category = []) :
    account.isSome = true ∧ category.isSome = true := by
  simp only [promoteErrors, List.append_eq_nil_iff, ite_eq_right_iff, List.cons_ne_self,
    imp_false] at h
  obtain ⟨⟨-, haccount⟩, hcategory⟩ := h
  refine ⟨Option.isSome_iff_ne_none.mpr (by simpa using haccount), ?_⟩
  cases category with
  | none => cases hcategory
  | some c => rfl

theorem confined_promoteInboxItem (henv : env.Draws W userId) {id targetId : Uuid}
    (htarget : W.ids userId targetId) :
    (promoteInboxItem env userId id targetId).Confined W.tenancy userId fun _ => True := by
  unfold promoteInboxItem
  refine confined_bind (confined_fetchRowForUpdate
    fun r h => congrArg some (of_decide_eq_true h).2.1) fun o ho => ?_
  refine confined_bind (confined_found ho) fun inboxRow hrow => ?_
  obtain ⟨hpending, hdraft⟩ := hrow
  have hid : W.ids userId id := by
    rw [← (of_decide_eq_true hpending).1]
    exact hdraft.2.1
  refine confined_bind (confined_fetchHashtagIds hid) fun draftHashtagIds _ => ?_
  refine confined_bind confined_dbNow fun now _ => ?_
  refine confined_bind confined_promoteAccount fun account haccount => ?_
  refine confined_bind confined_promoteCategory fun category hcategory => ?_
  refine confined_bind confined_raiseIf fun _ herr => ?_
  obtain ⟨ha, hc⟩ := of_promoteErrors (by simpa using herr)
  refine confined_bind confined_orRaise fun transactionType _ => ?_
  refine confined_bind (confined_insertTransactionRow htarget (haccount ha) (hcategory hc) ?_)
    fun row hrow => ?_
  · rintro _ ⟨⟩
    exact hdraft.2.1
  refine confined_bind (confined_syncIfAny hrow) fun _ _ => ?_
  refine confined_bind (confined_attachHashtagIds hrow) fun response _ => ?_
  refine confined_bind (confined_writeActivityLog henv) fun _ _ => ?_
  refine confined_bind (confined_updateRow (fun _ => owner_of_owns)
    fun r _ hr => owned_bumped (c := setPromoted env) hr) fun o ho => ?_
  refine confined_bind (confined_found ho) fun inboxAfterRow hafter => ?_
  refine confined_bind confined_cascadeDelete fun _ _ => ?_
  refine confined_bind (confined_attachInboxHashtagIds (id_of_owned hafter)) fun inboxAfter _ => ?_
  exact confined_bind (confined_writeActivityLog henv) fun _ _ => trivial

/-! ## Reconciliations -/

omit [Platform] in
theorem owner_of_isMember {id : Uuid} {r : Row .transactions} (h : isMember id userId r = true) :
    ownerOf .transactions r = some userId :=
  congrArg some (of_decide_eq_true h).2.1

theorem membersOf_eq {db db' : Db} (h : W.tenancy.Alike userId db db') {rec : Row .reconciliations}
    (hrec : rec.userId = userId) : membersOf db' rec = membersOf db rec :=
  h.filter_eq (skips_of_owner fun _ hr => hrec ▸ owner_of_isMember hr)

theorem confined_fetchReconciliation {l : Label} {id : Uuid} {s : RowState} :
    (fetchReconciliation l userId id s).Confined W.tenancy userId fun o => ∀ r, o = some r →
      owns .reconciliations id userId s r.toReconciliationRow = true ∧
        W.tenancy.Owned userId .reconciliations r.toReconciliationRow := by
  unfold fetchReconciliation
  refine confined_bind (φ := fun found => ∀ x, found = some x →
    owns .reconciliations id userId s x.1 = true ∧ W.tenancy.Owned userId .reconciliations x.1)
    (confined_read (fun db db' h => ?_) fun db hdb x hx => ?_) fun found hfound => ?_
  · have hskips : W.tenancy.Skips userId .reconciliations (owns .reconciliations id userId s) :=
      skips_of_owner fun _ => owner_of_owns
    rw [h.find?_eq hskips]
    refine Option.map_congr fun rec hrec => ?_
    have hmembers := membersOf_eq h (Option.some.inj (owner_of_owns (List.find?_some hrec)))
    simp only [differenceCents, differenceInRange, hmembers]
  · obtain ⟨rec, hrec, rfl⟩ := Option.map_eq_some_iff.mp hx
    have hw := List.find?_some hrec
    exact ⟨hw, owned_of_mem hdb (List.mem_of_find?_eq_some hrec) (owner_of_owns hw)⟩
  · split
    · exact confined_pure (by simp)
    · next rec difference inRange =>
      split
      · refine confined_pure fun r hr => ?_
        obtain rfl := Option.some.inj hr
        exact hfound _ rfl
      · trivial

theorem confined_createReconciliation (henv : env.Draws W userId)
    {body : ReconciliationCreateRequest} (hid : W.ids userId body.id) :
    (createReconciliation env userId body).Confined W.tenancy userId fun _ => True := by
  unfold createReconciliation
  refine confined_bind confined_validateActiveAccount fun _ ha => ?_
  refine confined_bind confined_normalizeName fun name _ => ?_
  refine confined_bind (confined_insertRow ⟨rfl, hid, ha⟩) fun _ _ => ?_
  refine confined_bind confined_check fun _ _ => ?_
  refine confined_bind confined_fetchReconciliation fun o _ => ?_
  refine confined_bind (confined_any confined_orRaise) fun response _ => ?_
  exact confined_bind (confined_writeActivityLog henv) fun _ _ => trivial

theorem confined_normalizeNewName {name : Option Text} :
    (normalizeNewName name).Confined W.tenancy userId fun _ => True := by
  cases name with
  | none => trivial
  | some n => exact confined_map (confined_any confined_normalizeName)

theorem confined_updateReconciliation (henv : env.Draws W userId) {id : Uuid}
    {fields : ReconciliationFields} :
    (updateReconciliation env userId id fields).Confined W.tenancy userId fun _ => True := by
  unfold updateReconciliation
  split
  · refine confined_bind confined_fetchReconciliation fun o _ => ?_
    exact confined_bind (confined_any confined_orRaise) fun _ _ => trivial
  · refine confined_bind confined_normalizeNewName fun name _ => ?_
    refine confined_bind confined_fetchReconciliation fun o _ => ?_
    refine confined_bind (confined_any confined_orRaise) fun before _ => ?_
    refine confined_bind confined_check fun _ _ => ?_
    refine confined_bind (confined_dynamicUpdate fun r hr => hr) fun o _ => ?_
    refine confined_bind (confined_any confined_orRaise) fun _ _ => ?_
    refine confined_bind confined_fetchReconciliation fun o _ => ?_
    refine confined_bind (confined_any confined_orRaise) fun after _ => ?_
    exact confined_bind (confined_writeActivityLog henv) fun _ _ => trivial

theorem confined_transitionStatus (henv : env.Draws W userId) {id : Uuid}
    {target : ReconciliationStatus} {requireAssigned : Bool} :
    (transitionStatus env userId id target requireAssigned).Confined W.tenancy userId
      fun _ => True := by
  unfold transitionStatus
  refine confined_bind confined_fetchReconciliation fun o _ => ?_
  refine confined_bind (confined_any confined_orRaise) fun row _ => ?_
  split
  · trivial
  · refine confined_bind (confined_selectForUpdate W.lawful fun _ => owner_of_isMember)
      fun assigned _ => ?_
    refine confined_bind confined_check fun _ _ => ?_
    refine confined_bind (confined_updateWhere W.lawful (fun _ => owner_of_owns)
      fun r _ hr => owned_bumped (c := setStatus target) hr) fun _ _ => ?_
    refine confined_bind (confined_updateWhere W.lawful (fun _ => owner_of_isMember)
      fun r _ hr => owned_bumped (c := noChange .transactions) hr) fun _ _ => ?_
    refine confined_bind confined_fetchReconciliation fun o _ => ?_
    refine confined_bind (confined_any confined_orRaise) fun after _ => ?_
    exact confined_bind (confined_writeActivityLog henv) fun _ _ => trivial

theorem confined_refetchReconciliation {id : Uuid} {s : RowState} :
    (refetchReconciliation userId id s).Confined W.tenancy userId fun _ => True := by
  refine confined_bind confined_fetchReconciliation fun o _ => ?_
  exact confined_bind (confined_any confined_orRaise) fun _ _ => trivial

/-- A transaction that leaves its reconciliation keeps its other references. -/
theorem owned_setUnassigned {r : Row .transactions} (h : W.tenancy.Owned userId .transactions r) :
    W.tenancy.Owned userId .transactions (setUnassigned.apply r) := by
  obtain ⟨howner, hid, hacc, hcat, hinbox, -⟩ := h
  exact ⟨howner, hid, hacc, hcat, hinbox, by rintro _ ⟨⟩⟩

theorem confined_deleteReconciliation (henv : env.Draws W userId) {id : Uuid} :
    (deleteReconciliation env userId id).Confined W.tenancy userId fun _ => True := by
  unfold deleteReconciliation
  refine confined_bind confined_fetchReconciliation fun o _ => ?_
  refine confined_bind (confined_any confined_orRaise) fun row _ => ?_
  refine confined_bind confined_check fun _ _ => ?_
  refine confined_bind (confined_updateWhere W.lawful (fun _ => owner_of_isMember)
    fun r _ hr => owned_bumped (owned_setUnassigned hr)) fun _ _ => ?_
  exact confined_softDeleteWithAudit henv fun _ _ => confined_refetchReconciliation

theorem confined_restoreReconciliation (henv : env.Draws W userId) {id : Uuid} :
    (restoreReconciliation env userId id).Confined W.tenancy userId fun _ => True := by
  unfold restoreReconciliation
  refine confined_bind confined_fetchReconciliation fun o _ => ?_
  refine confined_bind (confined_any confined_orRaise) fun row _ => ?_
  exact confined_restoreWithAudit henv fun _ _ => confined_refetchReconciliation

/-! ## Accounts -/

omit [Platform] in
/-- The rates belong to nobody. -/
theorem skips_rates {w : Row .exchangeRates → Bool} :
    W.tenancy.Skips userId .exchangeRates w := by
  rintro v x - ⟨howner, -⟩
  cases howner

theorem balanceOf_eq {db db' : Db} (h : W.tenancy.Alike userId db db') {a : Uuid} :
    balanceOf db' userId a = balanceOf db userId a := by
  have hskips : W.tenancy.Skips userId .transactions fun r =>
      decide (r.userId = userId ∧ r.deletedAt = none ∧ r.accountId = a) :=
    skips_of_owner fun r hr => congrArg some (of_decide_eq_true hr).1
  rw [balanceOf, balanceOf, h.filter_eq hskips]

theorem rateFromDb_eq {db db' : Db} (h : W.tenancy.Alike userId db db') {source target : Text}
    {asOf : Date} : rateFromDb db' source target asOf = rateFromDb db source target asOf := by
  have hstored : ∀ currency, storedRate db' currency asOf = storedRate db currency asOf := by
    intro currency
    rw [storedRate, storedRate, h.filter_eq skips_rates]
  simp only [rateFromDb, hstored]

theorem confined_fetchBalances {ids : List Uuid} :
    (fetchBalances userId ids).Confined W.tenancy userId fun _ => True := by
  unfold fetchBalances
  split
  · trivial
  · refine confined_bind (φ := fun _ => True) (confined_read (fun db db' h => ?_)
      fun _ _ => trivial) fun balances _ => ?_
    · exact List.map_congr_left fun a _ => by rw [balanceOf_eq h]
    · split <;> trivial

theorem confined_fetchBalance {a : Uuid} :
    (fetchBalance userId a).Confined W.tenancy userId fun _ => True :=
  confined_bind confined_fetchBalances fun _ _ => confined_pure trivial

theorem confined_orSignal {α : Type} {result : Except Num.Signal α} :
    (orSignal result).Confined W.tenancy userId fun _ => True :=
  confined_any confined_orRaise

theorem confined_getRate {source target : Text} {asOf : Date} :
    (getRate env source target asOf).Confined W.tenancy userId fun _ => True := by
  unfold getRate
  dsimp only
  split
  · trivial
  · refine confined_bind (φ := fun _ => True) (confined_read (fun _ _ h => rateFromDb_eq h)
      fun _ _ => trivial) fun result _ => ?_
    exact confined_orSignal

theorem confined_getUserReportSettings :
    (getUserReportSettings userId).Confined W.tenancy userId fun _ => True := by
  unfold getUserReportSettings
  refine confined_bind (confined_fetchRow fun r h => congrArg some (of_decide_eq_true h))
    fun o _ => ?_
  refine confined_bind (confined_any confined_orRaise) fun row _ => ?_
  exact confined_bind confined_check fun _ _ => trivial

theorem confined_convertBalance {balanceCents : Int} {rate : Option Rat} :
    (convertBalance balanceCents rate).Confined W.tenancy userId fun _ => True := by
  cases rate with
  | none => trivial
  | some rate => exact confined_bind confined_orSignal fun _ _ => trivial

theorem confined_fetchHomeBalance {currencyCode : Text} {balanceCents : Int} :
    (fetchHomeBalance env userId currencyCode balanceCents).Confined W.tenancy userId
      fun _ => True := by
  refine confined_bind confined_getUserReportSettings fun settings _ => ?_
  refine confined_bind confined_getRate fun result _ => ?_
  exact confined_convertBalance

theorem confined_fetchBothBalances {row : Row .bankAccounts} :
    (fetchBothBalances env userId row).Confined W.tenancy userId fun _ => True := by
  refine confined_bind confined_fetchBalance fun _ _ => ?_
  exact confined_bind confined_fetchHomeBalance fun _ _ => confined_pure trivial

theorem confined_createAccount (henv : env.Draws W userId) {body : AccountCreateRequest}
    {isPerson : Bool} (hid : W.ids userId body.id) :
    (createAccount env userId body isPerson).Confined W.tenancy userId fun _ => True := by
  unfold createAccount
  refine confined_bind confined_normalizeName fun name _ => ?_
  refine confined_bind confined_check fun _ _ => ?_
  split
  · trivial
  · refine confined_bind confined_nameTaken fun _ _ => ?_
    refine confined_bind confined_check fun _ _ => ?_
    refine confined_bind confined_slotOrNext fun slot _ => ?_
    refine confined_bind (confined_insertRow ⟨rfl, hid⟩) fun _ _ => ?_
    refine confined_bind confined_check fun _ _ => ?_
    refine confined_bind confined_fetchHomeBalance fun home _ => ?_
    exact confined_bind (confined_writeActivityLog henv) fun _ _ => trivial

/-- The categories of the user's transactions are the user's. -/
theorem hasOpeningBalance_eq {db db' : Db} (h : W.tenancy.Alike userId db db') {a : Uuid} :
    hasOpeningBalance db' userId a = hasOpeningBalance db userId a := by
  have hskips : ∀ q : Row .transactions → Bool, W.tenancy.Skips userId .transactions fun t =>
      decide (t.userId = userId ∧ t.accountId = a ∧ t.deletedAt = none) && q t := fun q =>
    skips_of_owner fun t ht =>
      congrArg some (of_decide_eq_true (Bool.and_eq_true_iff.mp ht).1).1
  rw [hasOpeningBalance, hasOpeningBalance, h.any_eq (hskips _), Bool.eq_iff_iff,
    List.any_eq_true, List.any_eq_true]
  refine exists_congr fun t => and_congr_right fun ht => ?_
  rw [Bool.and_eq_true, Bool.and_eq_true]
  refine and_congr_right fun howns => ?_
  have howner : ownerOf .transactions t = some userId :=
    congrArg some (of_decide_eq_true howns).1
  obtain ⟨-, -, -, hcategory, -⟩ := owned_of_mem h.left ht howner
  rw [h.any_eq]
  intro v c hv hc
  refine decide_eq_false fun hw => hv (W.ids_apart hcategory ?_)
  rw [← hw.1]
  exact hc.2

theorem confined_createOpeningBalance (henv : env.Draws W userId) {accountId : Uuid}
    {body : OpeningBalanceRequest} (hid : W.ids userId body.transactionId) :
    (createOpeningBalance env userId accountId body).Confined W.tenancy userId
      fun _ => True := by
  unfold createOpeningBalance
  refine confined_bind confined_validateActiveAccount fun account _ => ?_
  refine confined_bind confined_check fun _ _ => ?_
  refine confined_bind (φ := fun _ => True) (confined_read (fun _ _ h => hasOpeningBalance_eq h)
    fun _ _ => trivial) fun existing _ => ?_
  refine confined_bind confined_check fun _ _ => ?_
  refine confined_bind (confined_ensureSystemCategory henv) fun categoryId _ => ?_
  exact confined_createTransaction henv hid

theorem confined_renameAccount {beforeRow : Row .bankAccounts} {name : Option Text} :
    (renameAccount userId beforeRow name).Confined W.tenancy userId fun _ => True := by
  cases name with
  | none => trivial
  | some n =>
    refine confined_bind confined_normalizeName fun name _ => ?_
    refine confined_bind confined_nameTaken fun _ _ => ?_
    exact confined_bind confined_check fun _ _ => trivial

theorem confined_updateAccount (henv : env.Draws W userId) {id : Uuid} {fields : AccountFields} :
    (updateAccount env userId id fields).Confined W.tenancy userId fun _ => True := by
  unfold updateAccount
  refine confined_bind confined_check fun _ _ => ?_
  refine confined_bind confined_check fun _ _ => ?_
  refine confined_bind confined_fetchOwnedRowOr404 fun beforeRow _ => ?_
  split
  · exact confined_bind confined_fetchBothBalances fun _ _ => trivial
  · refine confined_bind confined_renameAccount fun name _ => ?_
    refine confined_bind confined_fetchBothBalances fun balances _ => ?_
    refine confined_bind (confined_dynamicUpdate fun r hr => hr) fun o _ => ?_
    refine confined_bind (confined_any confined_orRaise) fun afterRow _ => ?_
    exact confined_bind (confined_writeActivityLog henv) fun _ _ => trivial

theorem confined_deleteAccount (henv : env.Draws W userId) {id : Uuid} :
    (deleteAccount env userId id).Confined W.tenancy userId fun _ => True := by
  unfold deleteAccount
  refine confined_bind confined_fetchOwnedRowOr404 fun row _ => ?_
  refine confined_bind (confined_fetchRow fun r h => congrArg some (of_decide_eq_true h).2.1)
    fun _ _ => ?_
  refine confined_bind confined_check fun _ _ => ?_
  refine confined_bind confined_fetchBothBalances fun balances _ => ?_
  exact confined_softDeleteWithAudit henv fun _ _ => trivial

theorem confined_restoreAccount (henv : env.Draws W userId) {id : Uuid} :
    (restoreAccount env userId id).Confined W.tenancy userId fun _ => True := by
  unfold restoreAccount
  refine confined_bind confined_fetchOwnedRowOr404 fun beforeRow _ => ?_
  refine confined_bind confined_nameTaken fun _ _ => ?_
  refine confined_bind confined_check fun _ _ => ?_
  refine confined_bind confined_fetchBothBalances fun balances _ => ?_
  exact confined_restoreWithAudit henv fun _ _ => trivial

theorem confined_setAccountArchive (henv : env.Draws W userId) {id : Uuid} {archived : Bool} :
    (setAccountArchive env userId id archived).Confined W.tenancy userId fun _ => True := by
  unfold setAccountArchive
  refine confined_bind confined_fetchOwnedRowOr404 fun beforeRow _ => ?_
  refine confined_bind confined_fetchBothBalances fun balances _ => ?_
  refine confined_bind (confined_updateRow (fun _ => owner_of_owns)
    fun r _ hr => owned_bumped (c := setArchived archived) hr) fun o _ => ?_
  refine confined_bind (confined_any confined_orRaise) fun afterRow _ => ?_
  exact confined_bind (confined_writeActivityLog henv) fun _ _ => trivial

/-! ## Categories and hashtags -/

theorem confined_createCategory (henv : env.Draws W userId) {body : CategoryCreateRequest}
    (hid : W.ids userId body.id) :
    (createCategory env userId body).Confined W.tenancy userId fun _ => True := by
  unfold createCategory
  refine confined_bind confined_normalizeName fun name _ => ?_
  refine confined_bind confined_check fun _ _ => ?_
  refine confined_bind confined_check fun _ _ => ?_
  refine confined_bind confined_nameTaken fun _ _ => ?_
  refine confined_bind confined_check fun _ _ => ?_
  refine confined_bind confined_slotOrNext fun slot _ => ?_
  refine confined_bind (confined_insertRow ⟨rfl, hid⟩) fun _ _ => ?_
  refine confined_bind confined_check fun _ _ => ?_
  exact confined_bind (confined_writeActivityLog henv) fun _ _ => trivial

theorem confined_checkCategoryName {row : Row .categories} {name : Text} :
    (checkCategoryName row name).Confined W.tenancy userId fun _ => True := by
  unfold checkCategoryName
  split
  · exact confined_check
  · trivial

theorem confined_updateCategory (henv : env.Draws W userId) {id : Uuid} {fields : CategoryFields} :
    (updateCategory env userId id fields).Confined W.tenancy userId fun _ => True :=
  confined_updateNamedResource henv (fun _ _ hr => hr) fun _ _ => confined_checkCategoryName

theorem confined_deleteCategory (henv : env.Draws W userId) {id : Uuid} :
    (deleteCategory env userId id).Confined W.tenancy userId fun _ => True := by
  unfold deleteCategory
  refine confined_bind confined_fetchOwnedRowOr404 fun row _ => ?_
  refine confined_bind confined_check fun _ _ => ?_
  refine confined_bind (confined_fetchRow fun r h => congrArg some (of_decide_eq_true h).2.1)
    fun _ _ => ?_
  refine confined_bind confined_check fun _ _ => ?_
  refine confined_bind (confined_fetchRow fun r h => congrArg some (of_decide_eq_true h).2.1)
    fun _ _ => ?_
  refine confined_bind confined_check fun _ _ => ?_
  exact confined_softDeleteWithAudit henv fun _ _ => trivial

theorem confined_restoreCategory (henv : env.Draws W userId) {id : Uuid} :
    (restoreCategory env userId id).Confined W.tenancy userId fun _ => True := by
  unfold restoreCategory
  refine confined_bind confined_fetchOwnedRowOr404 fun beforeRow _ => ?_
  refine confined_bind confined_checkCategoryName fun _ _ => ?_
  refine confined_bind confined_nameTaken fun _ _ => ?_
  refine confined_bind confined_check fun _ _ => ?_
  exact confined_restoreWithAudit henv fun _ _ => trivial

theorem confined_createHashtag (henv : env.Draws W userId) {body : HashtagCreateRequest}
    (hid : W.ids userId body.id) :
    (createHashtag env userId body).Confined W.tenancy userId fun _ => True := by
  unfold createHashtag
  refine confined_bind confined_normalizeName fun name _ => ?_
  refine confined_bind confined_nameTaken fun _ _ => ?_
  refine confined_bind confined_check fun _ _ => ?_
  refine confined_bind confined_slotOrNext fun slot _ => ?_
  refine confined_bind (confined_insertRow ⟨rfl, hid⟩) fun _ _ => ?_
  refine confined_bind confined_check fun _ _ => ?_
  exact confined_bind (confined_writeActivityLog henv) fun _ _ => trivial

theorem confined_updateHashtag (henv : env.Draws W userId) {id : Uuid} {fields : HashtagFields} :
    (updateHashtag env userId id fields).Confined W.tenancy userId fun _ => True :=
  confined_updateNamedResource henv (fun _ _ hr => hr) fun _ _ => confined_pure trivial

theorem confined_bumpParents {t : Tbl} [OwnedTable t] [TenantTable t] {ids : List Uuid} :
    (bumpParents env t userId ids).Confined W.tenancy userId fun _ => True := by
  unfold bumpParents
  split
  · trivial
  · refine confined_bind (confined_updateWhere W.lawful (fun r h => ?_)
      fun r _ hr => owned_bumped (c := noChange t) hr) fun _ _ => trivial
    show ownerOf t r = _
    rw [TenantTable.owner, (of_decide_eq_true h).2]

theorem confined_deleteHashtag (henv : env.Draws W userId) {id : Uuid} :
    (deleteHashtag env userId id).Confined W.tenancy userId fun _ => True := by
  unfold deleteHashtag
  refine confined_bind confined_fetchOwnedRowOr404 fun row _ => ?_
  refine confined_bind (confined_updateWhere W.lawful
    (fun r h => congrArg some (of_decide_eq_true h).2.1) fun r _ hr => hr) fun affected _ => ?_
  refine confined_bind confined_bumpParents fun _ _ => ?_
  refine confined_bind confined_bumpParents fun _ _ => ?_
  exact confined_softDeleteWithAudit henv fun _ _ => trivial

theorem confined_restoreHashtag (henv : env.Draws W userId) {id : Uuid} :
    (restoreHashtag env userId id).Confined W.tenancy userId fun _ => True := by
  unfold restoreHashtag
  refine confined_bind confined_fetchOwnedRowOr404 fun beforeRow _ => ?_
  refine confined_bind confined_nameTaken fun _ _ => ?_
  refine confined_bind confined_check fun _ _ => ?_
  exact confined_restoreWithAudit henv fun _ _ => trivial

/-! ## Users and tokens -/

omit [Platform] in
theorem owner_of_user {r : Row .users} (h : decide (r.id = userId) = true) :
    ownerOf .users r = some userId :=
  congrArg some (of_decide_eq_true h)

omit [Platform] in
theorem owner_of_settings {r : Row .userSettings} (h : decide (r.userId = userId) = true) :
    ownerOf .userSettings r = some userId :=
  congrArg some (of_decide_eq_true h)

theorem confined_upsertUser (henv : env.Draws W userId) {displayName : Text} :
    (upsertUser env userId displayName).Confined W.tenancy userId fun _ => True := by
  refine confined_bind (confined_fetchRow fun _ => owner_of_user) fun o _ => ?_
  cases o with
  | none =>
    refine confined_bind (confined_insertOrAbort ⟨rfl, trivial⟩) fun _ _ => ?_
    exact confined_bind (confined_writeActivityLog henv) fun _ _ => trivial
  | some row =>
    refine confined_bind (confined_updateRow (fun _ => owner_of_user) fun r _ hr => hr)
      fun o _ => ?_
    exact confined_any confined_orRaise

theorem confined_ensureSettings (henv : env.Draws W userId) {timezone : Text} :
    (ensureSettings env userId timezone).Confined W.tenancy userId fun _ => True := by
  refine confined_bind (confined_fetchRow fun _ => owner_of_settings) fun o _ => ?_
  cases o with
  | none =>
    refine confined_bind (confined_insertOrAbort ⟨rfl, trivial⟩) fun _ _ => ?_
    exact confined_bind (confined_writeActivityLog henv) fun _ _ => trivial
  | some row => trivial

theorem confined_bootstrap (henv : env.Draws W userId) {displayName timezone : Text} :
    (bootstrap env userId displayName timezone).Confined W.tenancy userId fun _ => True := by
  refine confined_bind confined_validateTimezone fun _ _ => ?_
  refine confined_bind (confined_upsertUser henv) fun userRow _ => ?_
  exact confined_bind (confined_ensureSettings henv) fun _ _ => trivial

theorem confined_validateNewTimezone {tz : Option Text} :
    (validateNewTimezone tz).Confined W.tenancy userId fun _ => True := by
  cases tz with
  | none => trivial
  | some tz => exact confined_validateTimezone

theorem confined_updateSettings (henv : env.Draws W userId) {fields : SettingsFields} :
    (updateSettings env userId fields).Confined W.tenancy userId fun _ => True := by
  unfold updateSettings
  split
  · refine confined_bind (confined_fetchRow fun _ => owner_of_settings) fun o _ => ?_
    exact confined_bind (confined_any confined_orRaise) fun _ _ => trivial
  · refine confined_bind confined_check fun _ _ => ?_
    refine confined_bind confined_validateNewTimezone fun _ _ => ?_
    refine confined_bind (confined_fetchRow fun _ => owner_of_settings) fun o _ => ?_
    refine confined_bind (confined_any confined_orRaise) fun before _ => ?_
    refine confined_bind (confined_updateRow (fun _ => owner_of_settings) fun r _ hr => hr)
      fun o _ => ?_
    refine confined_bind (confined_any confined_orRaise) fun after _ => ?_
    exact confined_bind (confined_writeActivityLog henv) fun _ _ => trivial

theorem confined_updateProfile (henv : env.Draws W userId) {displayName : Option Text} :
    (updateProfile env userId displayName).Confined W.tenancy userId fun _ => True := by
  unfold updateProfile
  refine confined_bind (confined_any confined_orRaise) fun name _ => ?_
  refine confined_bind (confined_fetchRow fun _ => owner_of_user) fun o _ => ?_
  refine confined_bind (confined_any confined_orRaise) fun before _ => ?_
  refine confined_bind (confined_updateRow (fun _ => owner_of_user) fun r _ hr => hr) fun o _ => ?_
  refine confined_bind (confined_any confined_orRaise) fun after _ => ?_
  exact confined_bind (confined_writeActivityLog henv) fun _ _ => trivial

theorem confined_createPat (henv : env.Draws W userId) {name : Option Text} :
    (createPat env userId name).Confined W.tenancy userId fun _ => True := by
  unfold createPat
  refine confined_bind (confined_insertOrAbort ⟨rfl, henv.uuid 1, henv.token⟩) fun _ _ => ?_
  exact confined_bind (confined_writeActivityLog henv) fun _ _ => trivial

theorem confined_revokePat (henv : env.Draws W userId) {id : Uuid} :
    (revokePat env userId id).Confined W.tenancy userId fun _ => True := by
  unfold revokePat
  refine confined_bind (confined_fetchRow fun r h => congrArg some (of_decide_eq_true h).2.1)
    fun o _ => ?_
  refine confined_bind (confined_any confined_orRaise) fun before _ => ?_
  refine confined_bind (confined_updateRow (fun r h => congrArg some (of_decide_eq_true h).2)
    fun r _ hr => hr) fun o _ => ?_
  refine confined_bind (confined_any confined_orRaise) fun after _ => ?_
  exact confined_bind (confined_writeActivityLog henv) fun _ _ => trivial

/-! ## The idempotency layer -/

omit [Platform] in
theorem owner_of_isKeyRow {key : Text} {r : Row .idempotencyKeys}
    (h : isKeyRow userId key r = true) : ownerOf .idempotencyKeys r = some userId :=
  congrArg some (of_decide_eq_true h).1

theorem confined_claim {key fingerprint : Text} :
    (claim userId key fingerprint).Confined W.tenancy userId fun _ => True := by
  refine confined_bind confined_advisoryLock fun _ _ => ?_
  refine confined_bind (confined_fetchRow fun _ => owner_of_isKeyRow) fun o _ => ?_
  cases o with
  | none => exact confined_pure trivial
  | some row =>
    dsimp only
    split <;> trivial

theorem confined_store (henv : env.Draws W userId) {key fingerprint : Text} {body : Option Body}
    {status : Nat} :
    (store env userId key fingerprint body status).Confined W.tenancy userId fun _ => True := by
  refine confined_bind (confined_insertOrSkip ⟨rfl, henv.storeUuid⟩ fun _ => owner_of_isKeyRow)
    fun o _ => ?_
  split <;> trivial

theorem confined_runIdempotent (henv : env.Draws W userId) {key fingerprint : Option Text}
    {statusCode : Nat} {work : Op Body} {storeSnapshot : Bool}
    (hwork : work.Confined W.tenancy userId fun _ => True) :
    (runIdempotent env userId key fingerprint statusCode work storeSnapshot).Confined W.tenancy
      userId fun _ => True := by
  unfold runIdempotent
  split
  · exact confined_map hwork
  · trivial
  · refine confined_bind confined_claim fun o _ => ?_
    cases o with
    | some reply => exact confined_pure trivial
    | none =>
      refine confined_bind hwork fun response _ => ?_
      exact confined_bind (confined_store henv) fun _ _ => trivial

end TenantRequests

open TenantRequests

/-- The work of each endpoint keeps to its user. -/
theorem confined_work (henv : env.Draws W userId) {request : Request}
    (hids : ∀ i ∈ request.newIds, W.ids userId i) :
    (request.work env userId).Confined W.tenancy userId fun _ => True := by
  have hid : ∀ i, request.newIds = [i] → W.ids userId i := by
    intro i hi
    exact hids i (hi ▸ List.mem_singleton_self i)
  cases request with
  | createTransaction body => exact confined_createTransaction henv (hid _ rfl)
  | batchCreateTransactions items =>
    exact confined_createBatch henv fun item hitem => hids _ (List.mem_map_of_mem hitem)
  | updateTransaction id body => exact confined_updateTransaction henv
  | deleteTransaction id => exact confined_deleteTransaction henv
  | restoreTransaction id => exact confined_restoreTransaction henv
  | createInboxItem body => exact confined_createInboxItem henv (hid _ rfl)
  | updateInboxItem id body => exact confined_updateInboxItem henv
  | deleteInboxItem id => exact confined_deleteInboxItem henv
  | promoteInboxItem id targetId => exact confined_promoteInboxItem henv (hid _ rfl)
  | createReconciliation body => exact confined_createReconciliation henv (hid _ rfl)
  | updateReconciliation id body => exact confined_updateReconciliation henv
  | completeReconciliation id => exact confined_transitionStatus henv
  | revertReconciliation id => exact confined_transitionStatus henv
  | deleteReconciliation id => exact confined_deleteReconciliation henv
  | restoreReconciliation id => exact confined_restoreReconciliation henv
  | createAccount body => exact confined_createAccount henv (hid _ rfl)
  | createPerson body => exact confined_createAccount henv (hid _ rfl)
  | createOpeningBalance accountId body => exact confined_createOpeningBalance henv (hid _ rfl)
  | updateAccount id body => exact confined_updateAccount henv
  | deleteAccount id => exact confined_deleteAccount henv
  | restoreAccount id => exact confined_restoreAccount henv
  | archiveAccount id => exact confined_setAccountArchive henv
  | unarchiveAccount id => exact confined_setAccountArchive henv
  | createCategory body => exact confined_createCategory henv (hid _ rfl)
  | updateCategory id body => exact confined_updateCategory henv
  | deleteCategory id => exact confined_deleteCategory henv
  | restoreCategory id => exact confined_restoreCategory henv
  | createHashtag body => exact confined_createHashtag henv (hid _ rfl)
  | updateHashtag id body => exact confined_updateHashtag henv
  | deleteHashtag id => exact confined_deleteHashtag henv
  | restoreHashtag id => exact confined_restoreHashtag henv
  | bootstrap displayName timezone => exact confined_bootstrap henv
  | updateSettings body => exact confined_updateSettings henv
  | updateProfile displayName => exact confined_updateProfile henv
  | createPat name => exact confined_createPat henv
  | revokePat id => exact confined_revokePat henv

/-- A call keeps to its user, with its idempotency layer. -/
theorem confined_handle {c : Call} (h : c.Draws W) :
    c.handle.Confined W.tenancy c.userId fun _ => True := by
  refine confined_bind confined_liftExcept fun _ _ => ?_
  exact confined_runIdempotent h.env (confined_work h.env h.ids)

/-- Calls leave the rows of the users apart. -/
theorem partitioned_run {calls : List Call} {db : Db} (hdb : W.tenancy.Partitioned db)
    (h : ∀ c ∈ calls, c.Draws W) : W.tenancy.Partitioned (run db calls) := by
  induction calls generalizing db with
  | nil => exact hdb
  | cons c calls ih =>
    refine ih ?_ fun x hx => h x (List.mem_cons_of_mem _ hx)
    unfold step
    split
    · next reply db' hexec =>
      exact ((confined_handle (h c List.mem_cons_self)).others W.lawful hdb hexec).1
    · exact hdb

end Requests

end ExpenseEngine
