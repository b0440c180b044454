import ExpenseEngine.Effects.Helpers
import ExpenseEngine.Inbox
import ExpenseEngine.Reconciliations

/-!
# What the ledger services do

Each accepted call of a service over transactions, drafts or reconciliations is
a list of guards on the database it starts from and one explicit database it
leaves, up to the tables that are not core: the activity log and the stored
idempotency keys among them.

Results:
1. `exec_createTransaction`, `exec_createBatch`, `exec_updateTransaction`,
   `exec_deleteTransaction`, `exec_restoreTransaction`.
2. `exec_createInboxItem`, `exec_updateInboxItem`, `exec_deleteInboxItem`,
   `exec_promoteInboxItem`.
3. `exec_createReconciliation`, `exec_updateReconciliation`,
   `exec_transitionStatus`, `exec_deleteReconciliation`,
   `exec_restoreReconciliation`.
-/

namespace ExpenseEngine

open Sql Sql.Prog

variable [Platform] {db db₁ db' : Db} {env : Env} {userId : Uuid}

/-! ## The tables the rules are about -/

/-- The tables of the accounts, the ledger, the drafts and what they refer to. -/
def Tbl.isCore : Tbl → Bool
  | .bankAccounts | .categories | .reconciliations | .transactionInbox | .transactions | .hashtags
  | .transactionHashtags => true
  | _ => false

/-- The two databases agree on every core table. -/
def CoreEq (db db' : Db) : Prop := ∀ t, t.isCore = true → db t = db' t

namespace CoreEq

theorem refl (db : Db) : CoreEq db db := fun _ _ => rfl

theorem symm (h : CoreEq db db') : CoreEq db' db := fun t ht => (h t ht).symm

theorem trans (h : CoreEq db db₁) (h' : CoreEq db₁ db') : CoreEq db db' :=
  fun t ht => (h t ht).trans (h' t ht)

theorem log (log : Row .activityLog) : CoreEq (db.put .activityLog log) db := by
  intro t ht
  refine Db.put_ne db log ?_
  rintro rfl
  cases ht

theorem update (h : CoreEq db db') {t : Tbl} {f : Table Row t → Table Row t} :
    CoreEq (Function.update db t (f (db t))) (Function.update db' t (f (db' t))) := by
  intro t' ht'
  by_cases ht : t' = t
  · subst ht
    simp [h t' ht']
  · simp [ht, h t' ht']

theorem put (h : CoreEq db db') {t : Tbl} (r : Row t) : CoreEq (db.put t r) (db'.put t r) :=
  h.update (f := fun tb => tb.put r)

theorem modify (h : CoreEq db db') {t : Tbl} (w : Row t → Bool) (f : Change Row t) :
    CoreEq (db.modify t w f) (db'.modify t w f) :=
  h.update (f := fun tb => tb.modify w f)

theorem cascaded (h : CoreEq db db') {parentId : Uuid} {source : TransactionSource}
    {keep : List Uuid} :
    CoreEq (db.cascaded env userId parentId source keep)
      (db'.cascaded env userId parentId source keep) :=
  h.modify _ _

theorem rows (h : CoreEq db db') {t : Tbl} (ht : t.isCore = true) : db.rows t = db'.rows t :=
  congrArg Table.rows (h t ht)

end CoreEq

/-! ## Insertions -/

/-- The row is new and every constraint accepts it. -/
def Inserts (db : Db) (t : Tbl) (r : Row t) : Prop :=
  db.tryInsert t r (fun _ => false) = some .inserted

omit [Platform] in
theorem cleanName_some {s s' : Text} (h : cleanName (some s) = some s') : s' = strip s := by
  simp only [cleanName, Option.map_some, Option.filter_eq_some_iff, Option.some.injEq] at h
  exact h.1.symm

/-! ## Ledger transactions -/

/-- The checks of a create that the invariants rest on. -/
structure Creatable (env : Env) (userId : Uuid) (body : TransactionCreateRequest) (db : Db) :
    Prop where
  amount : body.amountCents ≠ 0
  account : HasActiveAccount db userId body.accountId
  category : HasActiveCategory db userId body.categoryId
  inserts : Inserts db .transactions (requestedRow env userId body)
  hashtags : ∀ h ∈ body.hashtagIds, HasActiveHashtag db userId h

/-- The database after a create. -/
def Db.created (env : Env) (userId : Uuid) (body : TransactionCreateRequest) (db : Db) : Db :=
  Db.tagged env body.id userId .ledger body.hashtagIds
    (db.put .transactions (requestedRow env userId body))

theorem hasActiveAccount_congr (h : db.rows .bankAccounts = db'.rows .bankAccounts) {a : Uuid} :
    HasActiveAccount db userId a ↔ HasActiveAccount db' userId a := by
  simp only [HasActiveAccount, h]

theorem hasActiveCategory_congr (h : db.rows .categories = db'.rows .categories) {c : Uuid} :
    HasActiveCategory db userId c ↔ HasActiveCategory db' userId c := by
  simp only [HasActiveCategory, h]

theorem hasActiveHashtag_congr (h : db.rows .hashtags = db'.rows .hashtags) {x : Uuid} :
    HasActiveHashtag db userId x ↔ HasActiveHashtag db' userId x := by
  simp only [HasActiveHashtag, h]

theorem exec_createTransaction {body : TransactionCreateRequest} {allowSystemCategory : Bool}
    {b : Body}
    (h : exec (createTransaction env userId body allowSystemCategory) db = .ok (b, db')) :
    Creatable env userId body db ∧ CoreEq db' (db.created env userId body) := by
  simp only [createTransaction, insertTransactionRow, exec_bind_ok, exec_dbNow_ok,
    exec_raiseIf_ok, exec_insertRow_ok, exec_pure_ok, exec_attachHashtagIds_ok, ne_eq,
    not_not] at h
  obtain ⟨_, _, ⟨rfl, rfl⟩, _, _, ⟨herr, rfl⟩, _, _, hacc, _, _, hcat, _, _, ⟨-, rfl⟩, h⟩ := h
  obtain ⟨_, _, ⟨_, _, ⟨hins, rfl⟩, _, _, ⟨rfl, rfl⟩, rfl, rfl⟩, h⟩ := h
  obtain ⟨_, _, hsync, _, _, ⟨rfl, rfl⟩, _, _, hlog, rfl, rfl⟩ := h
  obtain ⟨rfl, hacc⟩ := exec_validateActiveAccount hacc
  obtain ⟨rfl, hcat⟩ := exec_validateActiveCategory hcat
  obtain ⟨rfl, htags⟩ := exec_syncIfAny hsync
  obtain ⟨log, rfl⟩ := exec_writeActivityLog hlog
  refine ⟨⟨?_, hacc, hcat, hins, fun x hx => ?_⟩, CoreEq.log log⟩
  · rintro hzero
    simp [hzero] at herr
  · exact (hasActiveHashtag_congr (by simp)).mp (htags x hx)

/-- The items of a batch, created one after another. -/
inductive CreatedAll (env : Env) (userId : Uuid) :
    List TransactionCreateRequest → Db → Db → Prop
  | nil {db : Db} : CreatedAll env userId [] db db
  | cons {item : TransactionCreateRequest} {items : List TransactionCreateRequest} {db db' : Db} :
      Creatable env userId item db → CreatedAll env userId items (db.created env userId item) db' →
      CreatedAll env userId (item :: items) db db'

namespace BatchLemmas

theorem exec_activeAccountIds {ids valid : List Uuid}
    (h : exec (activeAccountIds ids userId) db = .ok (valid, db')) :
    db' = db ∧ ∀ a ∈ valid, HasActiveAccount db userId a := by
  unfold activeAccountIds at h
  split at h
  · obtain ⟨rfl, rfl⟩ := exec_pure_ok.mp h
    simp
  · simp only [exec_bind_ok, exec_fetch_ok, exec_pure_ok] at h
    obtain ⟨_, _, ⟨rfl, rfl⟩, rfl, rfl⟩ := h
    refine ⟨rfl, fun a ha => ?_⟩
    obtain ⟨r, hr, rfl⟩ := List.mem_map.mp ha
    obtain ⟨hr, hw⟩ := List.mem_filter.mp hr
    simp only [Bool.and_eq_true] at hw
    exact ⟨r, hr, rfl, hw.2⟩

theorem exec_activeCategoryIds {ids : List Uuid} {valid : List (Uuid × Bool)}
    (h : exec (activeCategoryIds ids userId) db = .ok (valid, db')) :
    db' = db ∧ ∀ c ∈ valid, HasActiveCategory db userId c.1 := by
  unfold activeCategoryIds at h
  split at h
  · obtain ⟨rfl, rfl⟩ := exec_pure_ok.mp h
    simp
  · simp only [exec_bind_ok, exec_fetch_ok, exec_pure_ok] at h
    obtain ⟨_, _, ⟨rfl, rfl⟩, rfl, rfl⟩ := h
    refine ⟨rfl, fun c hc => ?_⟩
    obtain ⟨r, hr, rfl⟩ := List.mem_map.mp hc
    obtain ⟨hr, hw⟩ := List.mem_filter.mp hr
    simp only [Bool.and_eq_true] at hw
    exact ⟨r, hr, rfl, hw.2⟩

omit [Platform] in
theorem mem_of_lookup {l : List (Uuid × Bool)} {c : Uuid} {b : Bool} (h : l.lookup c = some b) :
    (c, b) ∈ l := by
  induction l with
  | nil => cases h
  | cons x l ih =>
    rw [List.lookup_cons] at h
    split at h
    · next hx =>
      cases h
      rw [beq_iff_eq] at hx
      simp [hx]
    · exact List.mem_cons_of_mem _ (ih h)

omit [Platform] in
/-- An item without errors passes each rule. -/
theorem of_batchItemErrors {now : Timestamp} {accounts seen : List Uuid}
    {categories : List (Uuid × Bool)} {item : TransactionCreateRequest}
    (h : batchItemErrors now accounts categories seen item = []) :
    item.amountCents ≠ 0 ∧ item.accountId ∈ accounts ∧ ∃ b, (item.categoryId, b) ∈ categories := by
  simp only [batchItemErrors, List.append_eq_nil_iff, ite_eq_right_iff, List.cons_ne_self,
    imp_false, not_not] at h
  obtain ⟨⟨⟨⟨⟨-, hamount⟩, -⟩, hacc⟩, hcat⟩, -⟩ := h
  refine ⟨hamount, hacc, ?_⟩
  split at hcat
  · cases hcat
  · cases hcat
  · next hlookup => exact ⟨_, mem_of_lookup hlookup⟩

omit [Platform] in
theorem of_batchErrors {now : Timestamp} {accounts seen : List Uuid}
    {categories : List (Uuid × Bool)} {items : List TransactionCreateRequest} {i : Nat}
    (h : batchErrors now accounts categories items seen i = []) :
    ∀ item ∈ items, item.amountCents ≠ 0 ∧ item.accountId ∈ accounts ∧
      ∃ b, (item.categoryId, b) ∈ categories := by
  induction items generalizing seen i with
  | nil => simp
  | cons item items ih =>
    simp only [batchErrors] at h
    split at h
    · next hnil =>
      rw [List.isEmpty_iff] at hnil
      rintro x (_ | ⟨_, hx⟩)
      · exact of_batchItemErrors hnil
      · exact ih h x hx
    · cases h

theorem exec_createItems {items : List TransactionCreateRequest} {rows : List (Row .transactions)}
    (hitems : ∀ item ∈ items, item.amountCents ≠ 0 ∧ HasActiveAccount db userId item.accountId ∧
      HasActiveCategory db userId item.categoryId)
    (h : exec (createItems env userId items) db = .ok (rows, db')) :
    CreatedAll env userId items db db' := by
  induction items generalizing db rows db' with
  | nil =>
    obtain ⟨-, rfl⟩ := exec_pure_ok.mp h
    exact .nil
  | cons item items ih =>
    simp only [createItems, insertTransactionRow, exec_bind_ok, exec_insertRow_ok,
      exec_raiseIf_ok, exec_pure_ok, ne_eq, not_not] at h
    obtain ⟨_, _, ⟨_, _, ⟨hins, rfl⟩, _, _, ⟨rfl, rfl⟩, rfl, rfl⟩, _, _, hsync, _, _, hrest, -,
      rfl⟩ := h
    obtain ⟨rfl, htags⟩ := exec_syncIfAny hsync
    obtain ⟨hamount, hacc, hcat⟩ := hitems item List.mem_cons_self
    refine .cons ⟨hamount, hacc, hcat, hins, fun x hx => ?_⟩ (ih (fun x hx => ?_) hrest)
    · exact (hasActiveHashtag_congr (by simp)).mp (htags x hx)
    · obtain ⟨h₁, h₂, h₃⟩ := hitems x (List.mem_cons_of_mem _ hx)
      refine ⟨h₁, (hasActiveAccount_congr ?_).mp h₂, (hasActiveCategory_congr ?_).mp h₃⟩
      all_goals simp [Db.rows, Db.created]

theorem exec_logCreated {responses : List TransactionResponse} {i : Nat} {u : Unit}
    (h : exec (logCreated env userId responses i) db = .ok (u, db')) : CoreEq db' db := by
  induction responses generalizing db i with
  | nil =>
    obtain ⟨-, rfl⟩ := exec_pure_ok.mp h
    exact .refl _
  | cons response responses ih =>
    simp only [logCreated, exec_bind_ok] at h
    obtain ⟨_, _, hlog, h⟩ := h
    obtain ⟨log, rfl⟩ := exec_writeActivityLog hlog
    exact (ih h).trans (.log log)

end BatchLemmas

open BatchLemmas

theorem exec_createBatch {transactions : List TransactionCreateRequest} {b : Body}
    (h : exec (createBatch env userId transactions) db = .ok (b, db')) :
    ∃ db₁, CreatedAll env userId transactions db db₁ ∧ CoreEq db' db₁ := by
  simp only [createBatch, exec_bind_ok, exec_raiseIf_ok, exec_dbNow_ok, attachHashtagIdsAll,
    exec_read_ok, exec_pure_ok] at h
  obtain ⟨_, _, ⟨-, rfl⟩, _, _, ⟨rfl, rfl⟩, _, _, hacc, _, _, hcat, _, _, ⟨herr, rfl⟩, _, _,
    hitems, _, _, ⟨rfl, rfl⟩, _, _, hlog, rfl, rfl⟩ := h
  obtain ⟨rfl, hacc⟩ := exec_activeAccountIds hacc
  obtain ⟨rfl, hcat⟩ := exec_activeCategoryIds hcat
  simp only [Bool.not_eq_true', Bool.not_eq_false, List.isEmpty_iff] at herr
  refine ⟨_, exec_createItems (fun item hitem => ?_) hitems, exec_logCreated hlog⟩
  obtain ⟨hamount, ha, c, hc⟩ := of_batchErrors herr item hitem
  exact ⟨hamount, hacc _ ha, hcat _ hc⟩

/-- The SET list's fields, once the title is normalized. -/
def TransactionFields.normalized (fields : TransactionFields) : TransactionFields :=
  { fields with title := fields.title.map strip }

/-- Every check that an update makes of the row it locked and of its request. -/
structure Updatable (env : Env) (userId transactionId : Uuid) (fields : TransactionFields)
    (hashtagIds : Option (List Uuid)) (reconId : Sent Uuid) (row : Row .transactions) (db : Db) :
    Prop where
  found : row ∈ db.rows .transactions
  owned : row.id = transactionId ∧ row.userId = userId ∧ row.deletedAt = none
  /-- A completed reconciliation locks the fields it settled. -/
  unlocked : ∀ rec ∈ db.rows .reconciliations, row.reconciliationId = some rec.id →
    rec.userId = userId → rec.status = .completed → attemptedLocked fields reconId = []
  assignment : ∀ rid, reconId = some (some rid) → ∃ rec ∈ db.rows .reconciliations,
    rec.id = rid ∧ rec.userId = userId ∧ rec.deletedAt = none ∧ rec.status = .draft ∧
      rec.accountId = fields.accountId.getD row.accountId
  amount : fields.amountCents ≠ some 0
  account : ∀ a, fields.accountId = some a → HasActiveAccount db userId a
  category : ∀ c, fields.categoryId = some c → HasUserCategory db userId c
  title : ∀ t, fields.title = some t → cleanName (some t) ≠ none
  date : ∀ d, fields.date = some d → d ≤ env.now
  hashtags : ∀ ids, hashtagIds = some ids → ∀ x ∈ ids, HasActiveHashtag db userId x

/-- The database after an update. -/
def Db.updated (env : Env) (userId transactionId : Uuid) (fields : TransactionFields)
    (hashtagIds : Option (List Uuid)) (reconId : Sent Uuid) (db : Db) : Db :=
  Db.retagged env transactionId userId .ledger hashtagIds
    (db.modify .transactions (owns .transactions transactionId userId .active)
      (bumped .transactions env.now (setTransaction fields.normalized reconId)))

namespace UpdateLemmas

variable {fields : TransactionFields} {reconId : Sent Uuid} {row : Row .transactions} {u : Unit}

theorem exec_fetchReconStatus_ok {rid : Uuid} {o : Option (Row .reconciliations)} :
    exec (fetchReconStatus userId rid) db = .ok (o, db') ↔
      o = (db.rows .reconciliations).find? (fun r => decide (r.id = rid ∧ r.userId = userId)) ∧
        db' = db :=
  exec_fetchRow_ok

/-- The status a service reads is that of the user's row with the id. -/
theorem find?_recon {rec : Row .reconciliations} (hrec : rec ∈ db.rows .reconciliations)
    (hu : rec.userId = userId) :
    (db.rows .reconciliations).find? (fun r => decide (r.id = rec.id ∧ r.userId = userId)) =
      some rec :=
  find?_of_mem (fun _ hx => (of_decide_eq_true hx).1) hrec (decide_eq_true ⟨rfl, hu⟩)

theorem exec_checkCompletedLock
    (h : exec (checkCompletedLock userId row fields reconId) db = .ok (u, db')) :
    db' = db ∧ ∀ rec ∈ db.rows .reconciliations, row.reconciliationId = some rec.id →
      rec.userId = userId → rec.status = .completed → attemptedLocked fields reconId = [] := by
  unfold checkCompletedLock at h
  split at h
  · next hnone =>
    obtain ⟨-, rfl⟩ := exec_pure_ok.mp h
    simp [hnone]
  · next rid hrid =>
    simp only [exec_bind_ok, exec_fetchReconStatus_ok, exec_raiseIf_ok] at h
    obtain ⟨_, _, ⟨rfl, rfl⟩, hlock, rfl⟩ := h
    refine ⟨rfl, fun rec hrec hid hu hstatus => ?_⟩
    rw [hrid, Option.some.injEq] at hid
    subst hid
    rw [find?_recon hrec hu] at hlock
    simpa [hstatus] using hlock

theorem exec_checkAssignment
    (h : exec (checkAssignment userId row fields reconId) db = .ok (u, db')) :
    db' = db ∧ ∀ rid, reconId = some (some rid) → ∃ rec ∈ db.rows .reconciliations,
      rec.id = rid ∧ rec.userId = userId ∧ rec.deletedAt = none ∧ rec.status = .draft ∧
        rec.accountId = fields.accountId.getD row.accountId := by
  unfold checkAssignment at h
  split at h
  · simp only [exec_bind_ok, exec_fetchRow_ok, exec_orRaise_ok, exec_raiseIf_ok] at h
    obtain ⟨_, _, ⟨rfl, rfl⟩, rec, _, ⟨hfind, rfl⟩, _, _, ⟨haccount, rfl⟩, hstatus, rfl⟩ := h
    obtain ⟨hrec, hw⟩ := find?_row hfind
    simp only [decide_eq_true_eq] at hw
    refine ⟨rfl, ?_⟩
    rintro _ ⟨⟩
    refine ⟨rec, hrec, hw.1, hw.2.1, hw.2.2, ?_, by simpa using haccount⟩
    cases hs : rec.status with
    | draft => rfl
    | completed => exact absurd hs hstatus
  · next hnone =>
    obtain ⟨-, rfl⟩ := exec_pure_ok.mp h
    refine ⟨rfl, fun rid hrid => ?_⟩
    exact absurd hrid (hnone rid)

theorem exec_validateNewAccount {a : Option Uuid}
    (h : exec (validateNewAccount userId a) db = .ok (u, db')) :
    db' = db ∧ ∀ x, a = some x → HasActiveAccount db userId x := by
  unfold validateNewAccount at h
  split at h
  · obtain ⟨-, rfl⟩ := exec_pure_ok.mp h
    simp
  · simp only [exec_bind_ok, exec_pure_ok] at h
    obtain ⟨_, _, h, -, rfl⟩ := h
    obtain ⟨rfl, hacc⟩ := exec_validateActiveAccount h
    refine ⟨rfl, ?_⟩
    rintro _ ⟨⟩
    exact hacc

theorem exec_validateNewCategory {c : Option Uuid}
    (h : exec (validateNewCategory userId c) db = .ok (u, db')) :
    db' = db ∧ ∀ x, c = some x → HasUserCategory db userId x := by
  unfold validateNewCategory at h
  split at h
  · obtain ⟨-, rfl⟩ := exec_pure_ok.mp h
    simp
  · simp only [exec_bind_ok, rejectSystemCategory, exec_raiseIf_ok, validateActiveCategory,
      activeCategoryRow, exec_fetchRow_ok, exec_orRaise_ok, not_not] at h
    obtain ⟨category, _, ⟨_, _, ⟨rfl, rfl⟩, hfind, rfl⟩, hkey, rfl⟩ := h
    obtain ⟨hmem, hw⟩ := find?_row hfind
    rw [Bool.and_eq_true, decide_eq_true_eq] at hw
    refine ⟨rfl, ?_⟩
    rintro _ ⟨⟩
    exact ⟨category, hmem, hw.1, hw.2, hkey⟩

theorem exec_normalizeNewTitle {t t' : Option Text}
    (h : exec (normalizeNewTitle t) db = .ok (t', db')) :
    db' = db ∧ t' = t.map strip ∧ ∀ x, t = some x → cleanName (some x) ≠ none := by
  unfold normalizeNewTitle at h
  split at h
  · obtain ⟨rfl, rfl⟩ := exec_pure_ok.mp h
    simp
  · simp only [map_eq_pure_bind, exec_bind_ok, exec_normalizeName_ok, exec_pure_ok] at h
    obtain ⟨_, _, ⟨hname, rfl⟩, rfl, rfl⟩ := h
    refine ⟨rfl, by rw [cleanName_some hname, Option.map_some], ?_⟩
    rintro _ ⟨⟩
    rw [hname]
    exact Option.some_ne_none _

theorem exec_validateNewDate {d : Option Timestamp}
    (h : exec (validateNewDate env d) db = .ok (u, db')) :
    db' = db ∧ ∀ x, d = some x → x ≤ env.now := by
  unfold validateNewDate at h
  split at h
  · obtain ⟨-, rfl⟩ := exec_pure_ok.mp h
    simp
  · simp only [exec_bind_ok, exec_dbNow_ok, exec_raiseIf_ok] at h
    obtain ⟨_, _, ⟨rfl, rfl⟩, hfuture, rfl⟩ := h
    refine ⟨rfl, ?_⟩
    rintro _ ⟨⟩
    exact not_lt.mp hfuture

end UpdateLemmas

open UpdateLemmas

theorem exec_updateTransaction {transactionId : Uuid} {fields : TransactionFields}
    {hashtagIds : Option (List Uuid)} {reconId : Sent Uuid} {b : Body}
    (h : exec (updateTransaction env userId transactionId fields hashtagIds reconId) db =
      .ok (b, db')) :
    (fields = .none ∧ hashtagIds = none ∧ reconId = none ∧ db' = db) ∨
      ∃ row, Updatable env userId transactionId fields hashtagIds reconId row db ∧
        CoreEq db' (db.updated env userId transactionId fields hashtagIds reconId) := by
  unfold updateTransaction at h
  split at h
  · next hempty =>
    simp only [exec_bind_ok, exec_fetchOwnedRowOr404_ok, exec_attachHashtagIds_ok,
      exec_pure_ok] at h
    obtain ⟨_, _, ⟨-, rfl⟩, _, _, ⟨-, rfl⟩, -, rfl⟩ := h
    exact .inl ⟨hempty.1, hempty.2.1, hempty.2.2, rfl⟩
  · simp only [exec_bind_ok, exec_lockOwnedRowOr404_ok, exec_attachHashtagIds_ok, dynamicUpdate,
      exec_rejectZeroAmount_ok, exec_orRaise_ok, exec_pure_ok] at h
    obtain ⟨row, _, ⟨hfind, rfl⟩, _, _, ⟨-, rfl⟩, _, _, hlock, _, _, hassign, h⟩ := h
    obtain ⟨_, _, ⟨hamount, rfl⟩, _, _, hacc, _, _, hcat, _, _, htitle, _, _, hdate, h⟩ := h
    obtain ⟨_, _, hupd, _, _, ⟨-, rfl⟩, _, _, hsync, _, _, ⟨-, rfl⟩, _, _, hlog, -, rfl⟩ := h
    obtain ⟨rfl, hlock⟩ := exec_checkCompletedLock hlock
    obtain ⟨rfl, hassign⟩ := exec_checkAssignment hassign
    obtain ⟨rfl, hacc⟩ := exec_validateNewAccount hacc
    obtain ⟨rfl, hcat⟩ := exec_validateNewCategory hcat
    obtain ⟨rfl, rfl, hnamed⟩ := exec_normalizeNewTitle htitle
    obtain ⟨rfl, hpast⟩ := exec_validateNewDate hdate
    obtain ⟨-, rfl⟩ := exec_updateRow hupd
    obtain ⟨rfl, htags⟩ := exec_syncIfGiven hsync
    obtain ⟨log, rfl⟩ := exec_writeActivityLog hlog
    obtain ⟨hrow, hw⟩ := find?_row hfind
    refine .inr ⟨row, ⟨hrow, owns_active.mp hw, hlock, hassign, hamount, hacc, hcat, hnamed,
      hpast, fun ids hids x hx => ?_⟩, CoreEq.log log⟩
    exact (hasActiveHashtag_congr (by simp)).mp (htags ids hids x hx)

/-- The database after a delete. -/
def Db.transactionDeleted (env : Env) (userId transactionId : Uuid) (db : Db) : Db :=
  Db.cascaded env userId transactionId .ledger []
    (db.modify .transactions (owns .transactions transactionId userId .either)
      (marked .transactions env.now (some env.now)))

theorem exec_checkNotCompleted {reconId : Option Uuid} {u : Unit}
    (h : exec (checkNotCompleted userId reconId) db = .ok (u, db')) :
    db' = db ∧ ∀ rec ∈ db.rows .reconciliations, reconId = some rec.id → rec.userId = userId →
      rec.status = .draft := by
  unfold checkNotCompleted at h
  split at h
  · obtain ⟨-, rfl⟩ := exec_pure_ok.mp h
    simp
  · simp only [exec_bind_ok, exec_fetchReconStatus_ok, exec_raiseIf_ok] at h
    obtain ⟨_, _, ⟨rfl, rfl⟩, hstatus, rfl⟩ := h
    refine ⟨rfl, fun rec hrec hid hu => ?_⟩
    rw [Option.some.injEq] at hid
    subst hid
    rw [find?_recon hrec hu] at hstatus
    cases hs : rec.status with
    | draft => rfl
    | completed => simp [hs] at hstatus

theorem exec_deleteTransaction {transactionId : Uuid} {b : Body}
    (h : exec (deleteTransaction env userId transactionId) db = .ok (b, db')) :
    (∃ row ∈ db.rows .transactions, (row.id = transactionId ∧ row.userId = userId ∧
      row.deletedAt = none) ∧ ∀ rec ∈ db.rows .reconciliations,
        row.reconciliationId = some rec.id → rec.userId = userId → rec.status = .draft) ∧
      CoreEq db' (db.transactionDeleted env userId transactionId) := by
  simp only [deleteTransaction, exec_bind_ok, exec_lockOwnedRowOr404_ok, softDelete,
    exec_attachHashtagIds_ok, exec_orRaise_ok, exec_pure_ok] at h
  obtain ⟨row, _, ⟨hfind, rfl⟩, _, _, hcheck, _, _, ⟨-, rfl⟩, _, _, hupd, _, _, ⟨-, rfl⟩, _, _,
    hcascade, _, _, ⟨-, rfl⟩, _, _, hlog, -, rfl⟩ := h
  obtain ⟨rfl, hcheck⟩ := exec_checkNotCompleted hcheck
  obtain ⟨-, rfl⟩ := exec_updateRow hupd
  obtain rfl := exec_cascadeDelete hcascade
  obtain ⟨log, rfl⟩ := exec_writeActivityLog hlog
  obtain ⟨hrow, hw⟩ := find?_row hfind
  exact ⟨⟨row, hrow, owns_active.mp hw, hcheck⟩, .log log⟩

/-- What a restore checks of the row it locked, and when it keeps the link to
the row's reconciliation. -/
structure Restorable (userId transactionId : Uuid) (row : Row .transactions) (unlink : Bool)
    (db : Db) : Prop where
  found : row ∈ db.rows .transactions
  owned : row.id = transactionId ∧ row.userId = userId ∧ row.deletedAt ≠ none
  account : HasActiveAccount db userId row.accountId
  category : HasActiveCategory db userId row.categoryId
  keeps : unlink = false ↔ ∀ rid, row.reconciliationId = some rid →
    ∃ rec ∈ db.rows .reconciliations, rec.id = rid ∧ rec.userId = userId ∧
      rec.deletedAt = none ∧ rec.status = .draft

/-- The database after a restore of `row`. -/
def Db.transactionRestored (env : Env) (userId transactionId : Uuid) (row : Row .transactions)
    (unlink : Bool) (db : Db) : Db :=
  Db.revived env userId transactionId .ledger row.deletedAt
    (db.modify .transactions (owns .transactions transactionId userId .either)
      (bumped .transactions env.now (setRestored unlink)))

namespace RestoreLemmas

omit [Platform] in
theorem unlinkWarning_eq_none {o : Option (Row .reconciliations)} :
    (unlinkWarning o).isSome = false ↔
      ∃ rec, o = some rec ∧ rec.deletedAt = none ∧ rec.status = .draft := by
  cases o with
  | none => simp [unlinkWarning]
  | some rec =>
    simp only [unlinkWarning, Option.some.injEq]
    cases hd : rec.deletedAt with
    | some d => simp [hd]
    | none => cases hs : rec.status <;> simp [hs, hd]

theorem exec_decideUnlink {reconId : Option Uuid} {warning : Option String}
    (h : exec (decideUnlink userId reconId) db = .ok (warning, db')) :
    db' = db ∧ (warning.isSome = false ↔ ∀ rid, reconId = some rid →
      ∃ rec ∈ db.rows .reconciliations, rec.id = rid ∧ rec.userId = userId ∧
        rec.deletedAt = none ∧ rec.status = .draft) := by
  unfold decideUnlink at h
  split at h
  · obtain ⟨rfl, rfl⟩ := exec_pure_ok.mp h
    simp
  · simp only [exec_bind_ok, exec_fetchReconStatus_ok, exec_pure_ok] at h
    obtain ⟨_, _, ⟨rfl, rfl⟩, rfl, rfl⟩ := h
    refine ⟨rfl, ?_⟩
    rw [unlinkWarning_eq_none]
    constructor
    · rintro ⟨rec, hfind, hd, hs⟩ _ ⟨⟩
      obtain ⟨hrec, hw⟩ := find?_row hfind
      simp only [decide_eq_true_eq] at hw
      exact ⟨rec, hrec, hw.1, hw.2, hd, hs⟩
    · intro hkeep
      obtain ⟨rec, hrec, rfl, hu, hd, hs⟩ := hkeep _ rfl
      exact ⟨rec, find?_recon hrec hu, hd, hs⟩

end RestoreLemmas

open RestoreLemmas

theorem exec_restoreTransaction {transactionId : Uuid} {b : Body}
    (h : exec (restoreTransaction env userId transactionId) db = .ok (b, db')) :
    ∃ row unlink, Restorable userId transactionId row unlink db ∧
      CoreEq db' (db.transactionRestored env userId transactionId row unlink) := by
  simp only [restoreTransaction, exec_bind_ok, exec_lockOwnedRowOr404_ok, exec_raiseIf_ok,
    exec_attachHashtagIds_ok, exec_orRaise_ok, exec_pure_ok] at h
  obtain ⟨row, _, ⟨hfind, rfl⟩, _, _, hacc, _, _, hcat, _, _, ⟨herr, rfl⟩, _, _, hlink, h⟩ := h
  obtain ⟨_, _, ⟨-, rfl⟩, _, _, hupd, _, _, ⟨-, rfl⟩, h⟩ := h
  obtain ⟨_, _, hrestore, _, _, ⟨-, rfl⟩, _, _, hlog, -, rfl⟩ := h
  obtain ⟨rfl, hacc⟩ := exec_activeAccountRow hacc
  obtain ⟨rfl, hcat⟩ := exec_activeCategoryRow hcat
  obtain ⟨rfl, hlink⟩ := exec_decideUnlink hlink
  obtain ⟨-, rfl⟩ := exec_updateRow hupd
  obtain rfl := exec_cascadeRestore hrestore
  obtain ⟨log, rfl⟩ := exec_writeActivityLog hlog
  obtain ⟨hrow, hw⟩ := find?_row hfind
  simp only [Bool.not_eq_true', Bool.not_eq_false, List.isEmpty_iff, List.append_eq_nil_iff,
    ite_eq_right_iff, List.cons_ne_self, imp_false, Bool.not_eq_true, Option.isNone_eq_false_iff]
    at herr
  exact ⟨row, _, ⟨hrow, owns_deleted.mp hw, hacc herr.1, hcat herr.2, hlink⟩, .log log⟩

/-! ## Drafts -/

/-- What a draft's create and update check of the amount and the references they
were sent. -/
structure DraftFieldsValid (userId : Uuid) (amountCents : Option Int)
    (accountId categoryId : Option Uuid) (db : Db) : Prop where
  amount : amountCents ≠ some 0
  account : ∀ a, accountId = some a → HasActiveAccount db userId a
  category : ∀ c, categoryId = some c → HasActiveCategory db userId c

theorem exec_validateDraftCategory {c : Option Uuid} {u : Unit}
    (h : exec (validateDraftCategory userId c) db = .ok (u, db')) :
    db' = db ∧ ∀ x, c = some x → HasActiveCategory db userId x := by
  unfold validateDraftCategory at h
  split at h
  · obtain ⟨-, rfl⟩ := exec_pure_ok.mp h
    simp
  · simp only [exec_bind_ok, exec_pure_ok] at h
    obtain ⟨_, _, h, -, rfl⟩ := h
    obtain ⟨rfl, hcat⟩ := exec_validateActiveCategory h
    refine ⟨rfl, ?_⟩
    rintro _ ⟨⟩
    exact hcat

/-- The database after a draft's create. -/
def Db.drafted (env : Env) (userId : Uuid) (body : InboxCreateRequest) (db : Db) : Db :=
  Db.tagged env body.id userId .inbox body.hashtagIds
    (db.put .transactionInbox (requestedDraft env userId body))

theorem exec_createInboxItem {body : InboxCreateRequest} {b : Body}
    (h : exec (createInboxItem env userId body) db = .ok (b, db')) :
    (DraftFieldsValid userId body.amountCents body.accountId body.categoryId db ∧
      Inserts db .transactionInbox (requestedDraft env userId body) ∧
      ∀ x ∈ body.hashtagIds, HasActiveHashtag db userId x) ∧
      CoreEq db' (db.drafted env userId body) := by
  simp only [createInboxItem, exec_bind_ok, exec_rejectZeroAmount_ok, exec_insertRow_ok,
    exec_raiseIf_ok, exec_attachInboxHashtagIds_ok, exec_pure_ok, ne_eq, not_not] at h
  obtain ⟨_, _, ⟨hamount, rfl⟩, _, _, hacc, _, _, hcat, _, _, ⟨hins, rfl⟩, _, _, ⟨rfl, rfl⟩, _, _,
    hsync, _, _, ⟨rfl, rfl⟩, _, _, hlog, -, rfl⟩ := h
  obtain ⟨rfl, hacc⟩ := exec_validateNewAccount hacc
  obtain ⟨rfl, hcat⟩ := exec_validateDraftCategory hcat
  obtain ⟨rfl, htags⟩ := exec_syncIfAny hsync
  obtain ⟨log, rfl⟩ := exec_writeActivityLog hlog
  refine ⟨⟨⟨hamount, hacc, hcat⟩, hins, fun x hx => ?_⟩, .log log⟩
  exact (hasActiveHashtag_congr (by simp)).mp (htags x hx)

/-- The checks of a draft's update that the invariants rest on. -/
structure DraftUpdatable (userId inboxId : Uuid) (fields : InboxFields)
    (hashtagIds : Option (List Uuid)) (row : Row .transactionInbox) (db : Db) : Prop where
  found : row ∈ db.rows .transactionInbox
  owned : row.id = inboxId ∧ row.userId = userId ∧ row.deletedAt = none
  fieldsValid : DraftFieldsValid userId fields.amountCents fields.accountId fields.categoryId db
  hashtags : ∀ ids, hashtagIds = some ids → ∀ x ∈ ids, HasActiveHashtag db userId x

/-- The columns an update of a draft was sent. -/
def InboxUpdateRequest.fields (body : InboxUpdateRequest) : InboxFields :=
  ⟨body.title.join, body.description.join, body.amountCents.join, body.date.join,
    body.accountId.join, body.categoryId.join⟩

/-- The database after an update of a draft. -/
def Db.draftUpdated (env : Env) (userId inboxId : Uuid) (fields : InboxFields)
    (hashtagIds : Option (List Uuid)) (db : Db) : Db :=
  Db.retagged env inboxId userId .inbox hashtagIds
    (db.modify .transactionInbox (owns .transactionInbox inboxId userId .active)
      (bumped .transactionInbox env.now (setInbox fields)))

theorem exec_liftExcept_ok {α : Type} {e : Except AppError α} {a : α} :
    exec (liftExcept e) db = .ok (a, db') ↔ e = .ok a ∧ db' = db := by
  cases e with
  | error e => simp [liftExcept]
  | ok x => simp [liftExcept, eq_comm]

omit [Platform] in
theorem extract_eq_ok {body : InboxUpdateRequest} {fields : InboxFields}
    (h : body.extract = .ok fields) : fields = body.fields := by
  unfold InboxUpdateRequest.extract at h
  cases hnull : extractUpdateFields [("title", body.title.isNull),
      ("description", body.description.isNull), ("amount_cents", body.amountCents.isNull),
      ("date", body.date.isNull), ("account_id", body.accountId.isNull),
      ("category_id", body.categoryId.isNull), ("hashtag_ids", body.hashtagIds.isNull)] with
  | error e =>
    rw [hnull] at h
    cases h
  | ok u =>
    rw [hnull] at h
    cases h
    rfl

theorem exec_updateInboxItem {inboxId : Uuid} {body : InboxUpdateRequest} {b : Body}
    (h : exec (updateInboxItem env userId inboxId body) db = .ok (b, db')) :
    (body.fields = .none ∧ body.hashtagIds.join = none ∧ db' = db) ∨
      ∃ row, DraftUpdatable userId inboxId body.fields body.hashtagIds.join row db ∧
        CoreEq db' (db.draftUpdated env userId inboxId body.fields body.hashtagIds.join) := by
  simp only [updateInboxItem, exec_bind_ok, exec_liftExcept_ok] at h
  obtain ⟨fields, _, ⟨hextract, rfl⟩, h⟩ := h
  obtain rfl := extract_eq_ok hextract
  split at h
  · next hempty =>
    simp only [exec_bind_ok, exec_fetchOwnedRowOr404_ok, exec_attachInboxHashtagIds_ok,
      exec_pure_ok] at h
    obtain ⟨_, _, ⟨-, rfl⟩, _, _, ⟨-, rfl⟩, -, rfl⟩ := h
    exact .inl ⟨hempty.1, hempty.2, rfl⟩
  · simp only [exec_bind_ok, exec_rejectZeroAmount_ok, exec_lockOwnedRowOr404_ok, dynamicUpdate,
      exec_attachInboxHashtagIds_ok, exec_orRaise_ok, exec_pure_ok] at h
    obtain ⟨_, _, ⟨hamount, rfl⟩, row, _, ⟨hfind, rfl⟩, _, _, ⟨-, rfl⟩, _, _, hacc, _, _, hcat, _,
      _, hupd, _, _, ⟨-, rfl⟩, _, _, hsync, _, _, ⟨-, rfl⟩, _, _, hlog, -, rfl⟩ := h
    obtain ⟨rfl, hacc⟩ := exec_validateNewAccount hacc
    obtain ⟨rfl, hcat⟩ := exec_validateDraftCategory hcat
    obtain ⟨-, rfl⟩ := exec_updateRow hupd
    obtain ⟨rfl, htags⟩ := exec_syncIfGiven hsync
    obtain ⟨log, rfl⟩ := exec_writeActivityLog hlog
    obtain ⟨hrow, hw⟩ := find?_row hfind
    refine .inr ⟨row, ⟨hrow, owns_active.mp hw, ⟨hamount, hacc, hcat⟩, fun ids hids x hx => ?_⟩,
      .log log⟩
    exact (hasActiveHashtag_congr (by simp)).mp (htags ids hids x hx)

/-- The database after a dismissal. -/
def Db.dismissed (env : Env) (userId inboxId : Uuid) (db : Db) : Db :=
  Db.cascaded env userId inboxId .inbox []
    (db.modify .transactionInbox (owns .transactionInbox inboxId userId .either)
      (marked .transactionInbox env.now (some env.now)))

theorem exec_deleteInboxItem {inboxId : Uuid} {b : Body}
    (h : exec (deleteInboxItem env userId inboxId) db = .ok (b, db')) :
    (∃ row ∈ db.rows .transactionInbox, row.id = inboxId ∧ row.userId = userId ∧
      row.deletedAt = none) ∧ CoreEq db' (db.dismissed env userId inboxId) := by
  simp only [deleteInboxItem, exec_bind_ok, exec_fetchOwnedRowOr404_ok, softDelete,
    exec_attachInboxHashtagIds_ok, exec_orRaise_ok, exec_pure_ok] at h
  obtain ⟨row, _, ⟨hfind, rfl⟩, _, _, ⟨-, rfl⟩, _, _, hupd, _, _, ⟨-, rfl⟩, _, _, hcascade, _, _,
    ⟨-, rfl⟩, _, _, hlog, -, rfl⟩ := h
  obtain ⟨-, rfl⟩ := exec_updateRow hupd
  obtain rfl := exec_cascadeDelete hcascade
  obtain ⟨log, rfl⟩ := exec_writeActivityLog hlog
  obtain ⟨hrow, hw⟩ := find?_row hfind
  exact ⟨⟨row, hrow, owns_active.mp hw⟩, .log log⟩

/-- The checks of a promotion that the invariants rest on. -/
structure Promotable (env : Env) (userId inboxId targetId : Uuid) (draft : Row .transactionInbox)
    (transactionType : TransactionType) (db : Db) : Prop where
  found : draft ∈ db.rows .transactionInbox
  pending : draft.id = inboxId ∧ draft.userId = userId ∧ draft.status = .pending ∧
    draft.deletedAt = none
  amount : draft.amountCents.isSome
  direction : draft.transactionType = some transactionType
  account : ∃ a, draft.accountId = some a ∧ HasActiveAccount db userId a
  category : ∃ c, draft.categoryId = some c ∧ HasActiveCategory db userId c
  inserts : Inserts db .transactions (promotedRow env userId targetId draft transactionType)
  hashtags : ∀ x ∈ hashtagIdsOf db inboxId .inbox, HasActiveHashtag db userId x

/-- The database after a promotion. -/
def Db.promoted (env : Env) (userId inboxId targetId : Uuid) (draft : Row .transactionInbox)
    (transactionType : TransactionType) (db : Db) : Db :=
  Db.cascaded env userId inboxId .inbox []
    (Sql.Db.modify
      (Db.tagged env targetId userId .ledger (hashtagIdsOf db inboxId .inbox)
        (db.put .transactions (promotedRow env userId targetId draft transactionType)))
      .transactionInbox (owns .transactionInbox inboxId userId .either)
      (bumped .transactionInbox env.now (setPromoted env)))

namespace PromoteLemmas

theorem exec_promoteAccount {a : Option Uuid} {o : Option (Row .bankAccounts)}
    (h : exec (promoteAccount userId a) db = .ok (o, db')) :
    db' = db ∧ (o.isSome → ∃ x, a = some x ∧ HasActiveAccount db userId x) := by
  unfold promoteAccount at h
  split at h
  · obtain ⟨rfl, rfl⟩ := exec_pure_ok.mp h
    simp
  · obtain ⟨rfl, hacc⟩ := exec_activeAccountRow h
    exact ⟨rfl, fun ho => ⟨_, rfl, hacc ho⟩⟩

theorem exec_promoteCategory {c : Option Uuid} {o : Option (Row .categories)}
    (h : exec (promoteCategory userId c) db = .ok (o, db')) :
    db' = db ∧ (o.isSome → ∃ x, c = some x ∧ HasActiveCategory db userId x) := by
  unfold promoteCategory at h
  split at h
  · obtain ⟨rfl, rfl⟩ := exec_pure_ok.mp h
    simp
  · obtain ⟨rfl, hcat⟩ := exec_activeCategoryRow h
    exact ⟨rfl, fun ho => ⟨_, rfl, hcat ho⟩⟩

omit [Platform] in
theorem of_promoteErrors {now : Timestamp} {draft : Row .transactionInbox}
    {account : Option (Row .bankAccounts)} {category : Option (Row .categories)}
    (h : promoteErrors now draft account category = []) :
    draft.amountCents.isSome ∧ account.isSome ∧ category.isSome := by
  simp only [promoteErrors, List.append_eq_nil_iff, ite_eq_right_iff, List.cons_ne_self,
    imp_false] at h
  obtain ⟨⟨⟨⟨-, hamount⟩, -⟩, hacc⟩, hcat⟩ := h
  refine ⟨?_, by simpa [Option.isSome_iff_ne_none] using hacc, ?_⟩
  · cases ha : draft.amountCents with
    | none => simp [ha] at hamount
    | some n => rfl
  · cases category with
    | none => cases hcat
    | some c => rfl

end PromoteLemmas

open PromoteLemmas

theorem exec_promoteInboxItem {inboxId targetId : Uuid} {b : Body}
    (h : exec (promoteInboxItem env userId inboxId targetId) db = .ok (b, db')) :
    ∃ draft ty, Promotable env userId inboxId targetId draft ty db ∧
      CoreEq db' (db.promoted env userId inboxId targetId draft ty) := by
  simp only [promoteInboxItem, insertTransactionRow, exec_bind_ok, exec_fetchRowForUpdate_ok,
    exec_orRaise_ok, exec_fetchHashtagIds_ok, exec_dbNow_ok, exec_raiseIf_ok, exec_insertRow_ok,
    exec_attachHashtagIds_ok, exec_attachInboxHashtagIds_ok, exec_pure_ok, ne_eq, not_not] at h
  obtain ⟨_, _, ⟨rfl, rfl⟩, draft, _, ⟨hfind, rfl⟩, _, _, ⟨rfl, rfl⟩, _, _, ⟨rfl, rfl⟩, _, _, hacc,
    _, _, hcat, h⟩ := h
  obtain ⟨_, _, ⟨herr, rfl⟩, ty, _, ⟨hty, rfl⟩, _, _, hrow, h⟩ := h
  obtain ⟨_, _, ⟨hins, rfl⟩, _, _, ⟨rfl, rfl⟩, rfl, rfl⟩ := hrow
  obtain ⟨_, _, hsync, _, _, ⟨rfl, rfl⟩, _, _, hlog, h⟩ := h
  obtain ⟨_, _, hupd, _, _, ⟨-, rfl⟩, _, _, hcascade, h⟩ := h
  obtain ⟨_, _, ⟨rfl, rfl⟩, _, _, hlog', -, rfl⟩ := h
  obtain ⟨rfl, hacc⟩ := exec_promoteAccount hacc
  obtain ⟨rfl, hcat⟩ := exec_promoteCategory hcat
  obtain ⟨rfl, htags⟩ := exec_syncIfAny hsync
  obtain ⟨log, rfl⟩ := exec_writeActivityLog hlog
  obtain ⟨-, rfl⟩ := exec_updateRow hupd
  obtain rfl := exec_cascadeDelete hcascade
  obtain ⟨log', rfl⟩ := exec_writeActivityLog hlog'
  obtain ⟨hrow, hw⟩ := find?_row hfind
  simp only [Bool.not_eq_true', Bool.not_eq_false, List.isEmpty_iff] at herr
  obtain ⟨hamount, haccount, hcategory⟩ := of_promoteErrors herr
  refine ⟨draft, ty, ⟨hrow, of_decide_eq_true hw, hamount, hty, hacc haccount, hcat hcategory,
    hins, fun x hx => ?_⟩, (CoreEq.log log').trans (CoreEq.log log |>.modify _ _ |>.cascaded)⟩
  exact (hasActiveHashtag_congr (by simp)).mp (htags x hx)

end ExpenseEngine
