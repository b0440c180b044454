import ExpenseEngine.Refinement.Tags

/-!
# Delete and restore

A delete marks the live links of its transaction with the timestamp of its
database transaction, and a restore revives the links that carry the marker of
the row. The marker of every older link is the timestamp of an older call, so a
restore revives what its delete dropped and nothing else.

Results:
1. `Stamped.step`, `reachable_stamped`: the markers of links are timestamps of
   calls.
2. `Untouched.step`: what calls on other rows leave alone.
3. `restore_deleted`: a restore of a deleted transaction.
4. `delete_restore_identity`: in every run, whatever happens to other rows in
   between.
-/

namespace ExpenseEngine

open Sql Sql.Prog

section Undo

open IntegrityLemmas LinkLemmas VersionLemmas DraftLemmas ReadinessLemmas TagLemmas

variable [Platform] {db db' : Db} {env env' : Env} {userId p : Uuid} {source : TransactionSource}
  {ids : List Uuid} {request : Request} {P : Timestamp → Prop}

/-! ## Markers -/

/-- The markers of dropped links meet `P`. -/
def Stamped (P : Timestamp → Prop) (db : Db) : Prop :=
  ∀ l ∈ db.rows .transactionHashtags, ∀ d, l.deletedAt = some d → P d

namespace UndoLemmas

theorem stamped_congr (h : db' .transactionHashtags = db .transactionHashtags) :
    Stamped P db' ↔ Stamped P db := by
  rw [Stamped, Stamped, Sql.Db.rows, Sql.Db.rows, h]

/-- An UPDATE that revives its rows, or drops them now. -/
theorem stamped_modify {w : Row .transactionHashtags → Bool} {d : Option Timestamp}
    (h : Stamped P db) (hd : ∀ x, d = some x → P x) :
    Stamped P (db.modify .transactionHashtags w (linkMarked env.now d)) := by
  intro l hl x hx
  rw [Db.rows_modify_same] at hl
  obtain ⟨l₀, hl₀, rfl⟩ := List.mem_map.mp hl
  split at hx
  · exact hd x hx
  · exact h l₀ hl₀ x hx

omit [Platform] in
theorem stamped_now (hnow : P env.now) : ∀ x, some env.now = some x → P x := by
  rintro x ⟨⟩
  exact hnow

theorem stamped_synced (h : Stamped P db) (hnow : P env.now) :
    Stamped P (db.synced env p userId source ids) := by
  have hcascade : Stamped P (db.cascaded env userId p source ids) :=
    stamped_modify h (stamped_now hnow)
  unfold Db.synced Stamped
  rw [Sql.Db.rows, Db.upsert_same]
  refine Table.forall_upsert hcascade (fun l hl => ?_) fun _ _ _ _ _ _ h => by cases h
  obtain ⟨x, -, rfl⟩ := List.mem_map.mp hl
  exact fun _ h => by cases h

theorem stamped_tagged (h : Stamped P db) (hnow : P env.now) :
    Stamped P (db.tagged env p userId source ids) := by
  unfold Db.tagged
  split
  · exact h
  · exact stamped_synced h hnow

theorem stamped_retagged {given : Option (List Uuid)} (h : Stamped P db) (hnow : P env.now) :
    Stamped P (Db.retagged env p userId source given db) := by
  cases given with
  | none => exact h
  | some ids => exact stamped_synced h hnow

theorem stamped_created {body : TransactionCreateRequest} (h : Stamped P db) (hnow : P env.now) :
    Stamped P (db.created env userId body) :=
  stamped_tagged ((stamped_congr (Db.put_ne _ _ (by simp))).mpr h) hnow

theorem stamped_effect (heffect : Effect env userId db request db') (h : Stamped P db)
    (hnow : P env.now) : Stamped P db' := by
  cases heffect with
  | idle => exact h
  | transactionCreated => exact stamped_created h hnow
  | batchCreated hall =>
    induction hall with
    | nil => exact h
    | cons _ _ ih => exact ih (stamped_created h hnow)
  | openingBalanceCreated _ _ hseed =>
    refine stamped_created ?_ hnow
    rcases hseed with ⟨rfl, -⟩ | ⟨r, -, -, -, -, rfl⟩
    · exact h
    · exact (stamped_congr (Db.put_ne _ _ (by simp))).mpr h
  | transactionUpdated | draftUpdated =>
    exact stamped_retagged ((stamped_congr (Db.modify_ne _ _ _ (by simp))).mpr h) hnow
  | transactionDeleted | draftDismissed =>
    exact stamped_modify ((stamped_congr (Db.modify_ne _ _ _ (by simp))).mpr h) (stamped_now hnow)
  | transactionRestored =>
    exact stamped_modify ((stamped_congr (Db.modify_ne _ _ _ (by simp))).mpr h) nofun
  | draftCreated => exact stamped_tagged ((stamped_congr (Db.put_ne _ _ (by simp))).mpr h) hnow
  | draftPromoted =>
    refine stamped_modify ((stamped_congr (Db.modify_ne _ _ _ (by simp))).mpr ?_) (stamped_now hnow)
    exact stamped_tagged ((stamped_congr (Db.put_ne _ _ (by simp))).mpr h) hnow
  | hashtagDeleted =>
    unfold Db.hashtagDeleted Db.parentsBumped
    refine (stamped_congr (Db.modify_ne _ _ _ (by simp))).mpr ?_
    refine (stamped_congr (Db.modify_ne _ _ _ (by simp))).mpr ?_
    refine (stamped_congr (Db.modify_ne _ _ _ (by simp))).mpr ?_
    exact stamped_modify h (stamped_now hnow)
  | reconciliationCompleted | reconciliationReverted | reconciliationDeleted =>
    refine (stamped_congr ?_).mpr h
    simp [Db.transitioned, Db.reconciliationDeleted]
  | reconciliationCreated | accountCreated | categoryCreated | hashtagCreated =>
    exact (stamped_congr (Db.put_ne _ _ (by simp))).mpr h
  | _ => exact (stamped_congr (Db.modify_ne _ _ _ (by simp))).mpr h

end UndoLemmas

open UndoLemmas

theorem Stamped.step (h : Stamped P db) {c : Call} (hnow : P c.env.now) :
    Stamped P (step db c) := by
  rcases step_effect db c with hsame | ⟨db₁, heffect, hcore⟩
  · exact (stamped_congr (hsame _ rfl)).mpr h
  · exact (stamped_congr (hcore _ rfl)).mpr (stamped_effect heffect h hnow)

/-- A link that is not live was dropped by a call of the run. -/
theorem reachable_stamped {db₀ : Db} (hfresh : Fresh db₀) {calls : List Call}
    (h : ∀ c ∈ calls, P c.env.now) : Stamped P (run db₀ calls) := by
  have hinit : Stamped P db₀ := by simp [Stamped, hfresh.transactionHashtags]
  clear hfresh
  induction calls generalizing db₀ with
  | nil => exact hinit
  | cons c calls ih =>
    exact ih (fun x hx => h x (List.mem_cons_of_mem _ hx)) (hinit.step (h c List.mem_cons_self))

/-! ## Calls on other rows -/

/-- The request names the transaction, its account, its category or its
reconciliation. -/
def Request.namesRow (t : Row .transactions) : Request → Prop
  | .updateTransaction id _ | .deleteTransaction id | .restoreTransaction id => id = t.id
  | .updateAccount id _ | .deleteAccount id | .restoreAccount id | .archiveAccount id
  | .unarchiveAccount id => id = t.accountId
  | .updateCategory id _ | .deleteCategory id | .restoreCategory id => id = t.categoryId
  | .updateReconciliation id _ | .completeReconciliation id | .revertReconciliation id
  | .deleteReconciliation id | .restoreReconciliation id => t.reconciliationId = some id
  | _ => False

/-- The request writes a hashtag. -/
def Request.writesHashtag : Request → Prop
  | .createHashtag _ | .updateHashtag _ _ | .deleteHashtag _ | .restoreHashtag _ => True
  | _ => False

/-- The call is on the transaction, on what it refers to, or on a hashtag. -/
def Call.Touches (t : Row .transactions) (c : Call) : Prop :=
  c.userId = t.userId ∧ c.request.namesRow t ∨ c.request.writesHashtag

namespace UndoLemmas

theorem step_kept_self {c : Call} {t : Tbl} {r : Row t} (hr : r ∈ db.rows t)
    (h : ∀ r', ¬c.Updates t r r') : r ∈ (step db c).rows t := by
  obtain ⟨r', hr', -, hchain⟩ := step_kept c hr
  rwa [(Relation.reflTransGen_iff_eq h).mp hchain] at hr'

theorem run_kept_self {calls : List Call} {t : Tbl} {r : Row t} (hr : r ∈ db.rows t)
    (h : ∀ c ∈ calls, ∀ r', ¬c.Updates t r r') : r ∈ (run db calls).rows t := by
  induction calls generalizing db with
  | nil => exact hr
  | cons c calls ih =>
    exact ih (step_kept_self hr (h c List.mem_cons_self))
      fun x hx => h x (List.mem_cons_of_mem _ hx)

omit [Platform] in
theorem owns_id {t : Tbl} [OwnedTable t] {id : Uuid} {s : RowState} {r : Row t}
    (h : owns t id userId s r = true) :
    (OwnedTable.resource r).id = id ∧ (OwnedTable.resource r).userId = userId :=
  of_decide_eq_true (Bool.and_eq_true_iff.mp h).1

omit [Platform] in
/-- What a call on other rows may not rewrite. -/
theorem touches_of_names {t : Row .transactions} {c : Call} (hu : c.userId = t.userId)
    (hreq : c.request = request) (h : request.namesRow t) : c.Touches t :=
  .inl ⟨hu, hreq ▸ h⟩

variable {t : Row .transactions} {c : Call}

theorem account_untouched (hc : ¬c.Touches t) {a : Row .bankAccounts} (hid : a.id = t.accountId)
    (hu : a.userId = t.userId) (a' : Row .bankAccounts) : ¬c.Updates .bankAccounts a a' := by
  intro h
  unfold Call.Updates at h
  generalize hreq : c.request = request at h
  cases h with
  | accountUpdated h | accountArchived h | accountUnarchived h | accountDeleted h
  | accountRestored h =>
    obtain ⟨hida, hua⟩ := owns_id h
    exact hc (touches_of_names (hua.symm.trans hu) hreq (hida.symm.trans hid))

theorem category_untouched (hc : ¬c.Touches t) {a : Row .categories} (hid : a.id = t.categoryId)
    (hu : a.userId = t.userId) (a' : Row .categories) : ¬c.Updates .categories a a' := by
  intro h
  unfold Call.Updates at h
  generalize hreq : c.request = request at h
  cases h with
  | categoryUpdated h | categoryDeleted h | categoryRestored h =>
    obtain ⟨hida, hua⟩ := owns_id h
    exact hc (touches_of_names (hua.symm.trans hu) hreq (hida.symm.trans hid))

theorem reconciliation_untouched (hc : ¬c.Touches t) {a : Row .reconciliations}
    (hid : t.reconciliationId = some a.id) (hu : a.userId = t.userId)
    (a' : Row .reconciliations) : ¬c.Updates .reconciliations a a' := by
  intro h
  unfold Call.Updates at h
  generalize hreq : c.request = request at h
  cases h with
  | reconciliationUpdated h | reconciliationCompleted h | reconciliationReverted h
  | reconciliationDeleted h | reconciliationRestored h =>
    obtain ⟨hida, hua⟩ := owns_id h
    exact hc (touches_of_names (hua.symm.trans hu) hreq (hid.trans (congrArg some hida)))

/-- A deleted transaction is no member of its reconciliation. -/
theorem transaction_untouched (hc : ¬c.Touches t) (hd : t.deletedAt ≠ none)
    (t' : Row .transactions) : ¬c.Updates .transactions t t' := by
  intro h
  unfold Call.Updates at h
  generalize hreq : c.request = request at h
  cases h with
  | transactionUpdated h | transactionDeleted h | transactionRestored h =>
    obtain ⟨hida, hua⟩ := owns_id h
    exact hc (touches_of_names hua.symm hreq hida.symm)
  | memberCompleted h | memberReverted h | memberUnassigned h =>
    exact hd (of_decide_eq_true h).2.2
  | transactionUntagged => exact hc (.inr (hreq ▸ trivial))

/-- The links of a deleted transaction stay. A request that writes them would
bump its row. -/
theorem step_link_untouched (hc : ¬c.Touches t) (ht : t ∈ db.rows .transactions)
    (hd : t.deletedAt ≠ none) (x : Uuid) :
    linkOf (step db c) t.id .ledger x = linkOf db t.id .ledger x := by
  have hkept : t ∈ (step db c).rows .transactions :=
    step_kept_self ht (transaction_untouched hc hd)
  rcases step_cases db c with hsame | ⟨b, db₁, hwork, hdb⟩
  · rw [hsame]
  · have hlinks : step db c .transactionHashtags = db₁ .transactionHashtags := hdb _ (by simp)
    have hrequest : ∀ id, c.request ≠ .deleteHashtag id :=
      fun id hreq => hc (.inr (hreq ▸ trivial))
    by_cases hp : (t.id, TransactionSource.ledger) ∈ c.request.parents
    · rcases ledger_bumped hwork ht hp with rfl | ⟨t', ht', hid, hversion⟩
      · rw [linkOf, hlinks, linkOf]
      · -- the row is as it was
        have hkept : t ∈ db₁.rows .transactions := by
          rwa [Sql.Db.rows, ← hdb _ (by simp)]
        obtain rfl : t' = t := EvolutionLemmas.eq_of_id ht' hkept hid
        omega
    · have hiff : ∀ l, linkOf (step db c) t.id .ledger x = some l ↔
          linkOf db t.id .ledger x = some l := by
        intro l
        rw [linkOf_eq_some, linkOf_eq_some, Sql.Db.rows, hlinks]
        refine and_congr_left ?_
        rintro ⟨hpl, hsl, -⟩
        exact links_kept hrequest hwork (by rw [hpl, hsl]; exact hp)
      exact Option.ext hiff

theorem run_link_untouched {calls : List Call} (hcalls : ∀ c ∈ calls, ¬c.Touches t)
    (ht : t ∈ db.rows .transactions) (hd : t.deletedAt ≠ none) (x : Uuid) :
    linkOf (run db calls) t.id .ledger x = linkOf db t.id .ledger x := by
  induction calls generalizing db with
  | nil => rfl
  | cons c calls ih =>
    have hc := hcalls c List.mem_cons_self
    refine (ih (fun c' hc' => hcalls c' (List.mem_cons_of_mem _ hc')) ?_).trans
      (step_link_untouched hc ht hd x)
    exact step_kept_self ht (transaction_untouched hc hd)

/-! ## The restore -/

/-- An UPDATE of a ledger row that keeps its amount and its references is refused
only when the version runs over. -/
theorem updateLedgerRow_iff (env : Env) {w : Row .transactions → Bool}
    {fields : Change Row .transactions} (ht : t ∈ db.rows .transactions)
    (hkey : ∀ x, w x = true → x.id = t.id) (hw : w t = true)
    (hrows : Constrained .transactions db)
    (hfields : ∃ title description date deletedAt, fields.apply t =
      ({ t with title := title, description := description, date := date
                deletedAt := deletedAt } : TransactionRow))
    {o : Option (Row .transactions)} :
    exec (updateRow .transactions w (bumped .transactions env.now fields)) db = .ok (o, db') ↔
      t.version + 1 < 2 ^ 31 ∧ o = some ((bumped .transactions env.now fields).apply t) ∧
        db' = db.modify .transactions w (bumped .transactions env.now fields) := by
  obtain ⟨hchecks, hrefs⟩ := hrows t ht
  obtain ⟨hamount, hversion⟩ := Bool.and_eq_true_iff.mp hchecks
  obtain ⟨title, description, date, deletedAt, happly⟩ := hfields
  have hrow : (bumped .transactions env.now fields).apply t =
      ({ t with updatedAt := env.now, version := t.version + 1, title := title
                description := description, date := date, deletedAt := deletedAt } :
        TransactionRow) := by
    show OwnedTable.mapResource (Resource.bump env.now) (fields.apply t) = _
    rw [happly]
    rfl
  have hone : (db.rows .transactions).filter w = [t] := filter_of_mem (k := t.id) hkey ht hw
  have haccepts : db.accepts .transactions ((bumped .transactions env.now fields).apply t) = true ↔
      t.version + 1 < 2 ^ 31 := by
    rw [hrow]
    constructor
    · intro hacc
      have hint := (Bool.and_eq_true_iff.mp (constraints_of_accepts hacc).1).2
      exact (of_decide_eq_true hint).2
    · intro hlt
      refine accepts_of_free (Bool.and_eq_true_iff.mpr ⟨hamount, ?_⟩) (fun _ _ => rfl) hrefs
      have hle : -2 ^ 31 ≤ t.version := (of_decide_eq_true hversion).1
      exact decide_eq_true ⟨by show -2 ^ 31 ≤ t.version + 1; omega, hlt⟩
  simp only [updateRow, exec_bind_ok, exec_updateWhere_one hone, haccepts, exec_pure_ok]
  constructor
  · rintro ⟨_, _, ⟨hlt, rfl, rfl⟩, rfl, rfl⟩
    exact ⟨hlt, rfl, rfl⟩
  · rintro ⟨hlt, rfl, rfl⟩
    exact ⟨_, _, ⟨hlt, rfl, rfl⟩, rfl, rfl⟩

theorem isUser_of_row (hrows : Constrained .transactions db) (ht : t ∈ db.rows .transactions) :
    IsUser db t.userId :=
  (Bool.and_eq_true_iff.mp (Bool.and_eq_true_iff.mp (Bool.and_eq_true_iff.mp
    (Bool.and_eq_true_iff.mp (hrows t ht).2).1).1).1).1

theorem cascadeRestore_total (env : Env) (userId parentId : Uuid) (source : TransactionSource)
    (marker : Option Timestamp) (hlinks : Constrained .transactionHashtags db) :
    exec (cascadeRestore env userId parentId source marker) db =
      .ok ((), db.revived env userId parentId source marker) := by
  rw [cascadeRestore, exec_bind, exec_updateWhere_total]
  · rfl
  · intro l hl _ db₁ hagree
    refine accepts_of_free rfl (fun _ _ => rfl) ?_
    obtain ⟨huser, hhashtag⟩ := Bool.and_eq_true_iff.mp (hlinks l hl).2
    refine Bool.and_eq_true_iff.mpr ⟨?_, ?_⟩
    · rwa [Sql.Db.rows, hagree .users (by simp)]
    · rwa [Sql.Db.rows, hagree .hashtags (by simp)]

end UndoLemmas

/-- What a deleted transaction needs to come back as it was. -/
structure Restores (env : Env) (t : Row .transactions) (db : Db) : Prop where
  found : t ∈ db.rows .transactions
  deleted : t.deletedAt ≠ none
  account : HasActiveAccount db t.userId t.accountId
  category : HasActiveCategory db t.userId t.categoryId
  reconciliation : ∀ rid, t.reconciliationId = some rid → ∃ r ∈ db.rows .reconciliations,
    r.id = rid ∧ r.userId = t.userId ∧ r.deletedAt = none ∧ r.status = .draft
  rows : Constrained .transactions db
  links : Constrained .transactionHashtags db
  log : ∀ e ∈ db.rows .activityLog, e.id ≠ env.uuid 0
  version : t.version + 1 < 2 ^ 31

/-- A restore of such a transaction succeeds without a warning. -/
theorem restore_deleted (h : Restores env t db) : ∃ db',
    exec (restoreTransaction env t.userId t.id) db =
      .ok (.restoredTransaction
        ⟨({ t with deletedAt := none, updatedAt := env.now, version := t.version + 1 } :
          TransactionRow), hashtagIdsOf db' t.id .ledger⟩ [], db') ∧
      db' .transactionHashtags =
        (db.revived env t.userId t.id .ledger t.deletedAt) .transactionHashtags := by
  have hfind : (db.rows .transactions).find? (owns .transactions t.id t.userId .deleted) =
      some t :=
    find?_of_mem (k := t.id) (fun x hx => (owns_deleted.mp hx).1) h.found
      (owns_deleted.mpr ⟨rfl, rfl, h.deleted⟩)
  -- the checks
  obtain ⟨a, ha, haid, hactive⟩ := h.account
  have haccount : (db.rows .bankAccounts).find?
      (fun r => decide (r.id = t.accountId) && isActiveAccount t.userId r) = some a := by
    refine find?_of_mem (k := t.accountId) (fun x hx => ?_) ha (by simp [haid, hactive])
    exact of_decide_eq_true (Bool.and_eq_true_iff.mp hx).1
  obtain ⟨c, hc, hcid, hcactive⟩ := h.category
  have hcategory : (db.rows .categories).find?
      (fun r => decide (r.id = t.categoryId) && isActiveCategory t.userId r) = some c := by
    refine find?_of_mem (k := t.categoryId) (fun x hx => ?_) hc (by simp [hcid, hcactive])
    exact of_decide_eq_true (Bool.and_eq_true_iff.mp hx).1
  have hlink : exec (decideUnlink t.userId t.reconciliationId) db = .ok (none, db) := by
    cases hrid : t.reconciliationId with
    | none => rfl
    | some rid =>
      obtain ⟨r, hr, rfl, hu, hd, hs⟩ := h.reconciliation rid hrid
      have hwarning : unlinkWarning (some r) = none := by simp [unlinkWarning, hd, hs]
      simp only [decideUnlink, exec_bind_ok, UpdateLemmas.exec_fetchReconStatus_ok, exec_pure_ok]
      exact ⟨_, _, ⟨rfl, rfl⟩, by rw [UpdateLemmas.find?_recon hr hu, hwarning], rfl⟩
  -- the row
  set db₁ := db.modify .transactions (owns .transactions t.id t.userId .either)
    (bumped .transactions env.now (setRestored false)) with hdb₁
  have hupdate : exec (updateRow .transactions (owns .transactions t.id t.userId .either)
      (bumped .transactions env.now (setRestored false))) db = .ok (some _, db₁) :=
    (updateLedgerRow_iff env h.found (fun x hx => (owns_either.mp hx).1)
      (owns_either.mpr ⟨rfl, rfl⟩) h.rows ⟨_, _, _, _, rfl⟩).mpr ⟨h.version, rfl, hdb₁⟩
  -- its links
  have hlinks := exec_constrained refsByKey h.links hupdate
  have hcascade := cascadeRestore_total env t.userId t.id .ledger t.deletedAt hlinks
  set db₂ := Db.revived env t.userId t.id .ledger t.deletedAt db₁ with hdb₂
  -- its log entry
  have huser₂ := isUser_grows (exec_grows hcascade)
    (isUser_grows (exec_grows hupdate) (isUser_of_row h.rows h.found))
  have hlog₂ : ∀ e ∈ Sql.Db.rows db₂ .activityLog, e.id ≠ env.uuid 0 := by
    simpa [hdb₂, hdb₁, Sql.Db.rows] using h.log
  obtain ⟨log, -, hwrite⟩ := writeActivityLog_total env "transaction" t.id .restored
    (some (.transaction (attached db t))) (some (.transaction (attached db₂
      ((bumped .transactions env.now (setRestored false)).apply t)))) huser₂ hlog₂
  have hsame : (db₂.put .activityLog log) .transactionHashtags = db₂ .transactionHashtags :=
    Db.put_ne _ _ (by simp)
  have htable : db₂ .transactionHashtags =
      (db.revived env t.userId t.id .ledger t.deletedAt) .transactionHashtags := by
    simp [hdb₂, hdb₁, Db.revived]
  refine ⟨db₂.put .activityLog log, ?_, hsame.trans htable⟩
  have htags : hashtagIdsOf (db₂.put .activityLog log) t.id .ledger =
      hashtagIdsOf db₂ t.id .ledger := by
    rw [hashtagIdsOf, hashtagIdsOf, Sql.Db.rows, Sql.Db.rows, hsame]
  rw [htags, restoreTransaction]
  simp only [exec_bind_ok, exec_lockOwnedRowOr404_ok, activeAccountRow, activeCategoryRow,
    exec_fetchRow_ok, exec_raiseIf_ok, exec_attachHashtagIds_ok, exec_orRaise_ok, exec_pure_ok]
  exact ⟨t, _, ⟨hfind, rfl⟩, some a, _, ⟨haccount.symm, rfl⟩, some c, _, ⟨hcategory.symm, rfl⟩,
    (), _, ⟨by simp, rfl⟩, none, _, hlink, _, _, ⟨rfl, rfl⟩, _, _, hupdate, _, _, ⟨rfl, rfl⟩,
    (), _, hcascade, _, _, ⟨rfl, rfl⟩, (), _, hwrite, rfl, rfl⟩

/-! ## There and back -/

namespace UndoLemmas

theorem linkOf_revived {marker : Option Timestamp} {x : Uuid} :
    linkOf (db.revived env userId p source marker) p source x = (linkOf db p source x).map fun l =>
      if droppedAt userId p source marker l then (linkMarked env.now none).apply l else l := by
  unfold linkOf Db.revived
  rw [Db.modify_same]
  exact Table.find?_modify ..

/-- A drop and the revival of what it dropped, where no other link carries the
marker of the drop. -/
theorem linkOf_revived_cascaded (howned : ∀ l ∈ db.rows .transactionHashtags,
      l.transactionId = p → l.transactionSource = source → l.userId = userId)
    (hnow : Stamped (fun d => d ≠ env.now) db) {x : Uuid} :
    linkOf (Db.revived env' userId p source (some env.now)
        (db.cascaded env userId p source [])) p source x =
      (linkOf db p source x).map fun l =>
        if l.deletedAt = none then (linkMarked env'.now none).apply l else l := by
  rw [linkOf_revived, linkOf_cascaded, Option.map_map]
  refine Option.map_congr fun l hl => ?_
  obtain ⟨hmem, hp, hs, -⟩ := linkOf_eq_some.mp hl
  have hu := howned l hmem hp hs
  rw [Function.comp_apply]
  by_cases hlive : l.deletedAt = none
  · have hdropped : leaves userId p source [] l = true :=
      decide_eq_true ⟨hp, hs, hu, hlive, List.not_mem_nil⟩
    have hback : droppedAt userId p source (some env.now)
        ((linkMarked env.now (some env.now)).apply l) = true :=
      decide_eq_true ⟨hp, hs, hu, Option.some_ne_none _, rfl⟩
    rw [if_pos hdropped, if_pos hback, if_pos hlive]
    rfl
  · have hstays : ¬leaves userId p source [] l = true :=
      fun hw => hlive (of_decide_eq_true hw).2.2.2.1
    have hold : ¬droppedAt userId p source (some env.now) l = true :=
      fun hw => hnow l hmem env.now (of_decide_eq_true hw).2.2.2.2 rfl
    rw [if_neg hstays, if_neg hold, if_neg hlive]

theorem mem_transactionDeleted (ht : t ∈ db.rows .transactions) :
    (marked .transactions env.now (some env.now)).apply t ∈
      (db.transactionDeleted env t.userId t.id).rows .transactions := by
  rw [Db.transactionDeleted, Sql.Db.rows, cascaded_ne (by simp), Db.modify_same]
  exact List.mem_map.mpr ⟨t, ht, if_pos (owns_either.mpr ⟨rfl, rfl⟩)⟩

/-- The tags of the parent are back. -/
theorem tags_of_links {p' : Uuid} (h : ∀ x, linkOf db' p' source x =
      (linkOf db p source x).map fun l =>
        if l.deletedAt = none then (linkMarked env'.now none).apply l else l) :
    hashtagIdsOf db' p' source = hashtagIdsOf db p source := by
  refine hashtagIdsOf_eq fun x => ?_
  rw [mem_hashtagIdsOf, mem_hashtagIdsOf, h x]
  cases hl : linkOf db p source x with
  | none => simp
  | some l =>
    by_cases hlive : l.deletedAt = none
    · simp only [Option.map_some, hlive, if_true, Option.some.injEq]
      exact ⟨fun _ => ⟨l, rfl, hlive⟩, fun _ => ⟨_, rfl, rfl⟩⟩
    · simp only [Option.map_some, hlive, if_false]

end UndoLemmas

/-- In every run, a transaction that is deleted and, after calls on other rows,
restored is what it was, two versions later. -/
theorem delete_restore_identity {db₀ : Db} (hfresh : Fresh db₀) (calls : List Call)
    (ht : t ∈ (run db₀ calls).rows .transactions) (hactive : t.deletedAt = none)
    (haccount : ∀ a ∈ (run db₀ calls).rows .bankAccounts, a.id = t.accountId →
      a.isArchived = false)
    (hnow : ∀ c ∈ calls, c.env.now ≠ env.now) {b : Body} {db₁ : Db}
    (hdelete : exec (deleteTransaction env t.userId t.id) (run db₀ calls) = .ok (b, db₁))
    {between : List Call} (hbetween : ∀ c ∈ between, ¬c.Touches t)
    (hlog : ∀ e ∈ (run db₁ between).rows .activityLog, e.id ≠ env'.uuid 0)
    (hversion : t.version + 2 < 2 ^ 31) :
    ∃ db₂, exec (restoreTransaction env' t.userId t.id) (run db₁ between) =
        .ok (.restoredTransaction { attached (run db₀ calls) t with
          updatedAt := env'.now, version := t.version + 2 } [], db₂) ∧
      ∀ x, x ∉ hashtagIdsOf (run db₀ calls) t.id .ledger →
        linkOf db₂ t.id .ledger x = linkOf (run db₀ calls) t.id .ledger x := by
  have hintegrity : Integrity (run db₀ calls) := hfresh.integrity.run calls
  have htaggable : Taggable (run db₀ calls) t.userId t.id .ledger :=
    reachable_taggable hfresh calls ⟨t, ht, rfl, rfl⟩
  have hstamped : Stamped (fun d => d ≠ env.now) (run db₀ calls) :=
    reachable_stamped hfresh hnow
  have hrows : Constrained .transactions (run db₀ calls) := by
    refine constrained_run ?_ calls
    simp [Constrained, hfresh.transactions]
  set db := run db₀ calls with hdb
  obtain ⟨⟨row, hrow, howned, hdraft⟩, hcore⟩ := exec_deleteTransaction hdelete
  obtain rfl : row = t := EvolutionLemmas.eq_of_id hrow ht howned.1
  -- the delete marks the row and drops its links
  set t₁ := (marked .transactions env.now (some env.now)).apply row with ht₁
  have hdeleted : t₁ ∈ db₁.rows .transactions := by
    rw [hcore.rows rfl]
    exact mem_transactionDeleted hrow
  have hsame : ∀ {s : Tbl}, s.isCore = true → s ≠ .transactions → s ≠ .transactionHashtags →
      db₁.rows s = db.rows s := by
    intro s hs h₁ h₂
    rw [hcore.rows hs, Sql.Db.rows, Db.transactionDeleted, cascaded_ne h₂, Db.modify_ne _ _ _ h₁,
      Sql.Db.rows]
  have haccounts : db₁.rows .bankAccounts = db.rows .bankAccounts :=
    hsame rfl (by simp) (by simp)
  have hcategories : db₁.rows .categories = db.rows .categories := hsame rfl (by simp) (by simp)
  have hrecs : db₁.rows .reconciliations = db.rows .reconciliations :=
    hsame rfl (by simp) (by simp)
  have hdropped : ∀ x, linkOf db₁ row.id .ledger x =
      linkOf (db.cascaded env row.userId row.id .ledger []) row.id .ledger x := by
    intro x
    rw [linkOf, hcore _ rfl, Db.transactionDeleted, Db.cascaded, Db.cascaded, linkOf]
    simp
  -- the calls in between leave alone what the row needs
  have huntouched : ∀ c ∈ between, ¬c.Touches t₁ := hbetween
  have hmarked : t₁.deletedAt ≠ none := Option.some_ne_none _
  have hrestores : Restores env' t₁ (run db₁ between) := by
    refine ⟨run_kept_self hdeleted fun c hc => transaction_untouched (huntouched c hc) hmarked,
      hmarked, ?_, ?_, ?_, ?_, ?_, hlog, ?_⟩
    · obtain ⟨a, ha, hid, hu, hd⟩ := hintegrity.account row hrow hactive
      refine ⟨a, run_kept_self (haccounts ▸ ha)
        fun c hc => account_untouched (huntouched c hc) hid hu, hid, ?_⟩
      exact decide_eq_true ⟨hu, hd, haccount a ha hid⟩
    · obtain ⟨c, hc, hid, hu, hd⟩ := hintegrity.category row hrow hactive
      exact ⟨c, run_kept_self (hcategories ▸ hc)
        fun c hc => category_untouched (huntouched c hc) hid hu, hid, decide_eq_true ⟨hu, hd⟩⟩
    · intro rid hrid
      obtain ⟨r, hr, rfl, hu, hd⟩ := hintegrity.reconciliation row hrow hactive rid hrid
      exact ⟨r, run_kept_self (hrecs ▸ hr)
        fun c hc => reconciliation_untouched (huntouched c hc) hrid hu, rfl, hu, hd,
        hdraft r hr hrid hu⟩
    · exact constrained_run (exec_constrained refsByKey hrows hdelete) between
    · exact constrained_run (exec_constrained refsByKey htaggable.links hdelete) between
    · show row.version + 1 + 1 < 2 ^ 31
      omega
  obtain ⟨db₂, hrestore, hlinks⟩ := restore_deleted hrestores
  have hmap : ∀ x, linkOf db₂ row.id .ledger x = (linkOf db row.id .ledger x).map fun l =>
      if l.deletedAt = none then (linkMarked env'.now none).apply l else l := by
    intro x
    rw [← linkOf_revived_cascaded htaggable.owned hstamped, linkOf_revived, ← hdropped x]
    have huntouched : linkOf (run db₁ between) row.id .ledger x = linkOf db₁ row.id .ledger x :=
      run_link_untouched huntouched hdeleted hmarked x
    rw [← huntouched, ← linkOf_revived, linkOf, hlinks]
    rfl
  refine ⟨db₂, ?_, fun x hx => ?_⟩
  · refine hrestore.trans ?_
    have htags : hashtagIdsOf db₂ row.id .ledger = hashtagIdsOf db row.id .ledger :=
      tags_of_links hmap
    show Except.ok (Body.restoredTransaction ⟨_, hashtagIdsOf db₂ row.id .ledger⟩ [], db₂) = _
    rw [htags]
    have hversion : t₁.version + 1 = row.version + 2 := by
      show row.version + 1 + 1 = row.version + 2
      omega
    rw [hversion, ← hactive]
    rfl
  · rw [hmap x]
    cases hl : linkOf db row.id .ledger x with
    | none => rfl
    | some l =>
      rw [Option.map_some, if_neg fun hlive => hx (mem_hashtagIdsOf.mpr ⟨l, hl, hlive⟩)]

/-! ## A transaction at the end of its version column -/

namespace UndoLemmas

/-- `PUT /transactions/{id}` with a description only, sent without a key. -/
def redescribe (env : Env) (userId id : Uuid) (s : Text) : Call :=
  ⟨env, userId, none, none, .updateTransaction id
    ⟨none, none, none, none, none, some (some s), none, none⟩⟩

def redescribed (s : Text) : TransactionFields := ⟨none, none, none, none, none, some s⟩

theorem step_redescribe (env : Env) {s : Text} (ht : t ∈ db.rows .transactions)
    (hactive : t.deletedAt = none) (hrec : t.reconciliationId = none)
    (hrows : Constrained .transactions db)
    (hlog : ∀ e ∈ db.rows .activityLog, e.id ≠ env.uuid 0) (hversion : t.version + 1 < 2 ^ 31) :
    ∃ log : Row .activityLog, log.id = env.uuid 0 ∧
      step db (redescribe env t.userId t.id s) =
        (db.modify .transactions (owns .transactions t.id t.userId .active)
          (bumped .transactions env.now (setTransaction (redescribed s) none))).put
            .activityLog log := by
  have howns : owns .transactions t.id t.userId .active t = true :=
    owns_active.mpr ⟨rfl, rfl, hactive⟩
  set db₁ := db.modify .transactions (owns .transactions t.id t.userId .active)
    (bumped .transactions env.now (setTransaction (redescribed s) none)) with hdb₁
  have hupdate : exec (updateRow .transactions (owns .transactions t.id t.userId .active)
      (bumped .transactions env.now (setTransaction (redescribed s) none))) db =
        .ok (some _, db₁) :=
    (updateLedgerRow_iff env (w := owns .transactions t.id t.userId .active) ht
      (fun x hx => (owns_active.mp hx).1) howns hrows ⟨_, _, _, _, rfl⟩).mpr ⟨hversion, rfl, hdb₁⟩
  obtain ⟨log, hid, hwrite⟩ := writeActivityLog_total env "transaction" t.id .updated
    (some (.transaction (attached db t))) (some (.transaction (attached db₁
      ((bumped .transactions env.now (setTransaction (redescribed s) none)).apply t))))
    (isUser_grows (exec_grows hupdate) (isUser_of_row hrows ht))
    fun e he => hlog e (by simpa [hdb₁, Sql.Db.rows] using he)
  refine ⟨log, hid, ?_⟩
  have hfind : (db.rows .transactions).find? (owns .transactions t.id t.userId .active) =
      some t :=
    find?_of_mem (k := t.id) (fun x hx => (owns_active.mp hx).1) ht howns
  have hwork : exec (updateTransaction env t.userId t.id (redescribed s) none none) db =
      .ok (.transaction (attached db₁
        ((bumped .transactions env.now (setTransaction (redescribed s) none)).apply t)),
        db₁.put .activityLog log) := by
    rw [updateTransaction, if_neg (by simp [redescribed, TransactionFields.none])]
    simp only [exec_bind_ok, exec_lockOwnedRowOr404_ok, exec_attachHashtagIds_ok,
      exec_rejectZeroAmount_ok, exec_orRaise_ok, dynamicUpdate, checkCompletedLock]
    exact ⟨t, _, ⟨hfind, rfl⟩, _, _, ⟨rfl, rfl⟩, (), _, by rw [hrec]; rfl, (), _, rfl, (), _,
      ⟨by simp [redescribed], rfl⟩, (), _, rfl, (), _, rfl, none, _, rfl, (), _, rfl, _, _,
      hupdate, _, _, ⟨rfl, rfl⟩, (), _, rfl, _, _, ⟨rfl, rfl⟩, (), _, hwrite, rfl⟩
  exact step_of_work rfl rfl hwork

/-- The SET list of a delete, without the columns of every UPDATE. -/
def setDeleted (env : Env) : Change Row .transactions :=
  ⟨fun r => { r with deletedAt := some env.now }, fun _ => rfl⟩

theorem deleteTransaction_total (env : Env) (ht : t ∈ db.rows .transactions)
    (hactive : t.deletedAt = none) (hrec : t.reconciliationId = none)
    (hrows : Constrained .transactions db) (hlinks : Constrained .transactionHashtags db)
    (hlog : ∀ e ∈ db.rows .activityLog, e.id ≠ env.uuid 0) (hversion : t.version + 1 < 2 ^ 31) :
    ∃ b db', exec (deleteTransaction env t.userId t.id) db = .ok (b, db') ∧
      ∀ e ∈ db'.rows .activityLog, e ∈ db.rows .activityLog ∨ e.id = env.uuid 0 := by
  have hfind : (db.rows .transactions).find? (owns .transactions t.id t.userId .active) =
      some t :=
    find?_of_mem (k := t.id) (fun x hx => (owns_active.mp hx).1) ht
      (owns_active.mpr ⟨rfl, rfl, hactive⟩)
  set db₁ := db.modify .transactions (owns .transactions t.id t.userId .either)
    (bumped .transactions env.now (setDeleted env)) with hdb₁
  have hupdate : exec (updateRow .transactions (owns .transactions t.id t.userId .either)
      (bumped .transactions env.now (setDeleted env))) db = .ok (some _, db₁) :=
    (updateLedgerRow_iff env ht (fun x hx => (owns_either.mp hx).1)
      (owns_either.mpr ⟨rfl, rfl⟩) hrows ⟨_, _, _, _, rfl⟩).mpr ⟨hversion, rfl, hdb₁⟩
  have hcascade := cascadeDelete_total env t.userId t.id .ledger []
    (exec_constrained refsByKey hlinks hupdate)
  set db₂ := Db.cascaded env t.userId t.id .ledger [] db₁ with hdb₂
  have hlogs : Sql.Db.rows db₂ .activityLog = db.rows .activityLog := by
    simp [hdb₂, hdb₁, Sql.Db.rows]
  obtain ⟨log, hid, hwrite⟩ := writeActivityLog_total env "transaction" t.id .deleted
    (some (.transaction (attached db t))) (some (.transaction (attached db₂
      ((bumped .transactions env.now (setDeleted env)).apply t))))
    (isUser_grows (exec_grows hcascade) (isUser_grows (exec_grows hupdate)
      (isUser_of_row hrows ht)))
    fun e he => hlog e (hlogs ▸ he)
  refine ⟨.transaction (attached db₂ ((bumped .transactions env.now (setDeleted env)).apply t)),
    db₂.put .activityLog log, ?_, fun e he => ?_⟩
  · rw [deleteTransaction]
    simp only [exec_bind_ok, exec_lockOwnedRowOr404_ok, exec_attachHashtagIds_ok,
      exec_orRaise_ok, softDelete, exec_pure_ok]
    exact ⟨t, _, ⟨hfind, rfl⟩, (), _, by rw [hrec]; rfl, _, _, ⟨rfl, rfl⟩, _, _, hupdate, _, _,
      ⟨rfl, rfl⟩, (), _, hcascade, _, _, ⟨rfl, rfl⟩, (), _, hwrite, rfl, rfl⟩
  · rw [Sql.Db.rows, Db.put_same] at he
    rcases Table.mem_put.mp he with rfl | ⟨he, -⟩
    · exact .inr hid
    · exact .inl (hlogs ▸ he)

/-- A row at the end of its version column is not restored. -/
theorem not_restored (ht : t ∈ db.rows .transactions) (hrows : Constrained .transactions db)
    (hversion : 2 ^ 31 ≤ t.version + 1) :
    ¬∃ x, exec (restoreTransaction env t.userId t.id) db = .ok x := by
  rintro ⟨⟨b, db'⟩, hrun⟩
  obtain ⟨row, unlink, hres, hcore⟩ := exec_restoreTransaction hrun
  obtain rfl : row = t := EvolutionLemmas.eq_of_id hres.found ht hres.owned.1
  have hmem : (bumped .transactions env.now (setRestored unlink)).apply row ∈
      db'.rows .transactions := by
    rw [hcore.rows rfl, Db.transactionRestored, Sql.Db.rows, revived_ne (by simp), Db.modify_same]
    exact List.mem_map.mpr ⟨row, ht, if_pos (owns_either.mpr ⟨rfl, rfl⟩)⟩
  have hchecks := (exec_constrained refsByKey hrows hrun _ hmem).1
  have hlt : row.version + 1 < 2 ^ 31 :=
    (of_decide_eq_true (Bool.and_eq_true_iff.mp hchecks).2).2
  omega

end UndoLemmas

end Undo

namespace Ascii

/-- The database after a service that commits. -/
def committed (p : Op Body) (db : Db) : Db :=
  match exec p db with
  | .ok x => x.2
  | .error _ => db

theorem exec_committed {p : Op Body} {db : Db} (h : (exec p db).isOk = true) :
    ∃ b, exec p db = .ok (b, committed p db) := by
  unfold committed
  cases hp : exec p db with
  | error e =>
    rw [hp] at h
    cases h
  | ok x => exact ⟨x.1, rfl⟩

/-- A taxi ride, the transaction 31, that carries the hashtag 50. -/
def taxi : List Call :=
  tagging ++ [callAt 7 (.createTransaction ⟨31, "Taxi".toList, -900, 7, 10, 20, none, [50]⟩)]

def taxiRow : Row .transactions :=
  requestedRow (envAt 7) 1 ⟨31, "Taxi".toList, -900, 7, 10, 20, none, [50]⟩

/-- Another ride on the same account, with the same hashtag. -/
def wayBack : List Call :=
  [callAt 9 (.createTransaction ⟨32, "Taxi".toList, -900, 7, 10, 20, none, [50]⟩)]

/-- The lunch of the setup after `n` updates of its description. -/
def lunches (n : Nat) : List Call :=
  setup ++ (List.range n).map fun i : Nat => callAt (6 + (i : Int)) (.updateTransaction 30
    ⟨none, none, none, none, none, some (some "Soup".toList), none, none⟩)

/-- The lunch after `n` updates. -/
structure Aged (n : Nat) (t : Row .transactions) (db : Db) : Prop where
  rows : Constrained .transactions db
  links : Constrained .transactionHashtags db
  found : t ∈ db.rows .transactions
  owned : t.id = 30 ∧ t.userId = 1 ∧ t.deletedAt = none ∧ t.reconciliationId = none
  version : t.version = 1 + n
  account : ∀ a ∈ db.rows .bankAccounts, a.isArchived = false
  log : ∀ e ∈ db.rows .activityLog, e.id < 1000 * (n + 7)

namespace UndoLemmas

open ExpenseEngine.UndoLemmas DraftLemmas

theorem aged_zero : ∃ t, Aged 0 t (run blank (lunches 0)) := by
  have hfacts : ∃ t ∈ (run blank (lunches 0)).rows .transactions,
      (t.id = 30 ∧ t.userId = 1 ∧ t.deletedAt = none ∧ t.reconciliationId = none) ∧
        t.version = 1 := by
    decide +kernel
  obtain ⟨t, ht, howned, hversion⟩ := hfacts
  refine ⟨t, constrained_run ?_ _, constrained_run ?_ _, ht, howned, hversion, by decide +kernel,
    by decide +kernel⟩
  · simp [Constrained, fresh_blank.transactions]
  · simp [Constrained, fresh_blank.transactionHashtags]

theorem Aged.update {n : Nat} {t : Row .transactions} {db : Db} (h : Aged n t db)
    (hn : n + 2 < 2 ^ 31) : ∃ t', Aged (n + 1) t' (step db (callAt (6 + n) (.updateTransaction 30
      ⟨none, none, none, none, none, some (some "Soup".toList), none, none⟩))) := by
  obtain ⟨hid, hu, hactive, hrec⟩ := h.owned
  have huuid : ∀ k, (envAt (6 + n)).uuid k = 1000 * (n + 7) + k := by
    intro k
    show 1000 * ((6 + (n : Int)).toNat + 1) + k = _
    omega
  obtain ⟨log, hlogid, hstep⟩ := step_redescribe (envAt (6 + n)) (s := "Soup".toList) h.found
    hactive hrec h.rows (fun e he => by rw [huuid]; exact (Nat.lt_add_right 0 (h.log e he)).ne)
    (by rw [h.version]; omega)
  have hcall : redescribe (envAt (6 + n)) t.userId t.id "Soup".toList =
      callAt (6 + n) (.updateTransaction 30
        ⟨none, none, none, none, none, some (some "Soup".toList), none, none⟩) := by
    rw [hu, hid]
    rfl
  rw [← hcall]
  have hrows : ∀ s, s ≠ .transactions → s ≠ .activityLog →
      (step db (redescribe (envAt (6 + n)) t.userId t.id "Soup".toList)).rows s = db.rows s := by
    intro s h₁ h₂
    rw [hstep, Db.rows_put_ne _ _ h₂, Db.rows_modify_ne _ _ _ h₁]
  refine ⟨(bumped .transactions (envAt (6 + n)).now
    (setTransaction (redescribed "Soup".toList) none)).apply t, constrained_step h.rows _,
    constrained_step h.links _, ?_, ⟨hid, hu, hactive, hrec⟩, ?_, ?_, ?_⟩
  · rw [hstep, Db.rows_put_ne _ _ (by simp), Db.rows_modify_same]
    exact List.mem_map.mpr ⟨t, h.found, if_pos (owns_active.mpr ⟨rfl, rfl, hactive⟩)⟩
  · show t.version + 1 = _
    rw [h.version]
    push_cast
    omega
  · rw [hrows .bankAccounts (by simp) (by simp)]
    exact h.account
  · intro e he
    rw [hstep, Sql.Db.rows, Db.put_same] at he
    rcases Table.mem_put.mp he with rfl | ⟨he, -⟩
    · rw [hlogid, huuid]
      show (1000 * (n + 7) + 0 : Nat) < 1000 * (n + 1 + 7)
      omega
    · have hlt : (e.id : Nat) < 1000 * (n + 7) := h.log e (by simpa [Sql.Db.rows] using he)
      exact Nat.lt_trans hlt (by omega)

theorem aged_lunches {n : Nat} (hn : n + 1 < 2 ^ 31) : ∃ t, Aged n t (run blank (lunches n)) := by
  induction n with
  | zero => exact aged_zero
  | succ n ih =>
    obtain ⟨t, ht⟩ := ih (by omega)
    have hrun : run blank (lunches (n + 1)) = step (run blank (lunches n))
        (callAt (6 + n) (.updateTransaction 30
          ⟨none, none, none, none, none, some (some "Soup".toList), none, none⟩)) := by
      simp only [run, lunches, List.range_succ, List.map_append, List.map_cons, List.map_nil,
        ← List.append_assoc, List.foldl_append, List.foldl_cons, List.foldl_nil]
    rw [hrun]
    exact Aged.update ht hn

end UndoLemmas

end Ascii

open Ascii in
/-- The ride is deleted, and restored with its hashtag after the way back. -/
theorem delete_restore_identity_taxi : ∃ b db₁ db₂,
    exec (deleteTransaction (envAt 8) 1 31) (run blank taxi) = .ok (b, db₁) ∧
      exec (restoreTransaction (envAt 10) 1 31) (run db₁ wayBack) =
        .ok (.restoredTransaction { attached (run blank taxi) taxiRow with
          updatedAt := 10, version := 3 } [], db₂) := by
  have hok : (exec (deleteTransaction (envAt 8) 1 31) (run blank taxi)).isOk = true := by
    decide +kernel
  obtain ⟨b, hdelete⟩ := exec_committed hok
  have hnow : ∀ c ∈ taxi, c.env.now ≠ (envAt 8).now := by decide
  have hbetween : ∀ c ∈ wayBack, ¬c.Touches taxiRow := by
    simp [wayBack, Call.Touches, callAt, Request.namesRow, Request.writesHashtag]
  have hlog : ∀ e ∈ (run (committed (deleteTransaction (envAt 8) 1 31) (run blank taxi))
      wayBack).rows .activityLog, e.id ≠ (envAt 10).uuid 0 := by
    decide +kernel
  obtain ⟨db₂, hrestore, -⟩ := delete_restore_identity fresh_blank taxi
    (t := taxiRow) (by decide +kernel) rfl (by decide +kernel) hnow hdelete hbetween hlog
    (by decide)
  exact ⟨b, _, db₂, hdelete, hrestore⟩

open Ascii UndoLemmas Ascii.UndoLemmas in
/-- After 2147483645 updates the lunch can be deleted, and not restored. -/
theorem aged_lunch_not_restored :
    ∃ t ∈ (run blank (lunches (2 ^ 31 - 3))).rows .transactions, t.deletedAt = none ∧
      (∀ a ∈ (run blank (lunches (2 ^ 31 - 3))).rows .bankAccounts, a.id = t.accountId →
        a.isArchived = false) ∧
      (∀ c ∈ lunches (2 ^ 31 - 3), c.env.now ≠ (envAt (2 ^ 31 + 10)).now) ∧
      ∃ b db₁, exec (deleteTransaction (envAt (2 ^ 31 + 10)) t.userId t.id)
          (run blank (lunches (2 ^ 31 - 3))) = .ok (b, db₁) ∧
        (∀ e ∈ db₁.rows .activityLog, e.id ≠ (envAt (2 ^ 31 + 11)).uuid 0) ∧
        ¬∃ x, exec (restoreTransaction (envAt (2 ^ 31 + 11)) t.userId t.id) (run db₁ []) =
          .ok x := by
  obtain ⟨t, h⟩ := aged_lunches (n := 2 ^ 31 - 3) (by decide)
  have hdeleteId : (envAt (2 ^ 31 + 10)).uuid 0 = 1000 * (2 ^ 31 + 11) := rfl
  have hrestoreId : (envAt (2 ^ 31 + 11)).uuid 0 = 1000 * (2 ^ 31 + 12) := rfl
  have hlog : ∀ e ∈ (run blank (lunches (2 ^ 31 - 3))).rows .activityLog,
      (e.id : Nat) < 1000 * (2 ^ 31 + 11) :=
    fun e he => Nat.lt_trans (h.log e he) (by decide)
  have hversion : t.version = 2 ^ 31 - 2 := h.version
  obtain ⟨b, db₁, hdelete, hlogs⟩ := deleteTransaction_total (envAt (2 ^ 31 + 10)) h.found
    h.owned.2.2.1 h.owned.2.2.2 h.rows h.links
    (fun e he => by rw [hdeleteId]; exact (hlog e he).ne) (by rw [hversion]; decide)
  refine ⟨t, h.found, h.owned.2.2.1, fun a ha _ => h.account a ha, ?_, b, db₁, hdelete, ?_, ?_⟩
  · intro c hc
    have hlast : c.env.now < 2 ^ 31 + 10 := by
      rcases List.mem_append.mp hc with hc | hc
      · have hsetup : ∀ c ∈ setup, c.env.now < 2 ^ 31 + 10 := by decide
        exact hsetup c hc
      · obtain ⟨i, hi, rfl⟩ := List.mem_map.mp hc
        have hi := List.mem_range.mp hi
        show (6 + (i : Int)) < 2 ^ 31 + 10
        omega
    exact hlast.ne
  · intro e he
    rw [hrestoreId]
    rcases hlogs e he with he | he
    · exact (Nat.lt_trans (hlog e he) (by decide)).ne
    · rw [he, hdeleteId]
      decide
  · obtain ⟨-, hcore⟩ := exec_deleteTransaction hdelete
    have hmarked : (marked .transactions (envAt (2 ^ 31 + 10)).now
        (some (envAt (2 ^ 31 + 10)).now)).apply t ∈ db₁.rows .transactions := by
      rw [hcore.rows rfl]
      exact mem_transactionDeleted h.found
    have hfull : (2 : Int) ^ 31 ≤ t.version + 1 + 1 := by
      rw [hversion]
      decide
    have hrefused : ¬∃ x, exec (restoreTransaction (envAt (2 ^ 31 + 11)) _ _) db₁ = .ok x :=
      not_restored hmarked (exec_constrained DraftLemmas.refsByKey h.rows hdelete) hfull
    exact hrefused

end ExpenseEngine
