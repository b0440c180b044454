import ExpenseEngine.Effects.Step

/-!
# How the rows of each table evolve

An accepted call rewrites each row of a table in place and appends new rows; it
removes none. For each table, `…Step` lists what can become of one row and
`New…` what a new row is like.

Results:
1. `transactions_evolve`, `reconciliations_evolve`, `drafts_evolve`.
2. `accounts_evolve`, `categories_evolve`, `hashtags_evolve`.
-/

namespace ExpenseEngine

open Sql Sql.Prog

/-! ## Tables that only grow -/

/-- The rows are rewritten in place as `step` allows, and rows that are `new`
are appended. -/
def Evolves {α : Type} (rows rows' : List α) (step : α → α → Prop) (new : α → Prop) : Prop :=
  ∃ (g : α → α) (added : List α), rows' = rows.map g ++ added ∧ (∀ r ∈ rows, step r (g r)) ∧
    ∀ r ∈ added, new r

namespace Evolves

variable {α : Type} {rows rows' : List α} {step : α → α → Prop} {new : α → Prop}

theorem refl (hstep : ∀ r ∈ rows, step r r) : Evolves rows rows step new :=
  ⟨id, [], by simp, hstep, by simp⟩

theorem of_eq (h : rows' = rows) (hstep : ∀ r ∈ rows, step r r) : Evolves rows rows' step new := by
  rw [h]
  exact refl hstep

theorem append {added : List α} (h : rows' = rows ++ added) (hstep : ∀ r ∈ rows, step r r)
    (hnew : ∀ r ∈ added, new r) : Evolves rows rows' step new :=
  ⟨id, added, by simp [h], hstep, hnew⟩

theorem map {g : α → α} (h : rows' = rows.map g) (hstep : ∀ r ∈ rows, step r (g r)) :
    Evolves rows rows' step new :=
  ⟨g, [], by simp [h], hstep, by simp⟩

/-- Where a row of the later table comes from. -/
theorem origin (h : Evolves rows rows' step new) {r' : α} (hr' : r' ∈ rows') :
    (∃ r ∈ rows, step r r') ∨ new r' := by
  obtain ⟨g, added, rfl, hstep, hnew⟩ := h
  rcases List.mem_append.mp hr' with hr' | hr'
  · obtain ⟨r, hr, rfl⟩ := List.mem_map.mp hr'
    exact .inl ⟨r, hr, hstep r hr⟩
  · exact .inr (hnew r' hr')

/-- What became of a row of the earlier table. -/
theorem fate (h : Evolves rows rows' step new) {r : α} (hr : r ∈ rows) :
    ∃ r' ∈ rows', step r r' := by
  obtain ⟨g, added, rfl, hstep, -⟩ := h
  exact ⟨g r, List.mem_append_left _ (List.mem_map_of_mem hr), hstep r hr⟩

end Evolves

variable [Platform] {db db₁ db' : Db} {env : Env} {userId : Uuid} {request : Request}

/-- An UPDATE rewrites the rows it selects. -/
theorem evolves_modify {t : Tbl} {rows : List (Row t)} {w : Row t → Bool} {f : Change Row t}
    {step : Row t → Row t → Prop} {new : Row t → Prop} (hrows : db.rows t = rows)
    (hw : ∀ r ∈ rows, w r = true → step r (f.apply r)) (hskip : ∀ r, step r r) :
    Evolves rows ((db.modify t w f).rows t) step new := by
  subst hrows
  refine .map (Db.rows_modify_same db t w f) fun r hr => ?_
  split
  · next h => exact hw r hr h
  · exact hskip r

/-- An INSERT appends its row. -/
theorem evolves_put {t : Tbl} {r : Row t} {step : Row t → Row t → Prop} {new : Row t → Prop}
    {skip : Row t → Bool} (hins : db.tryInsert t r skip = some .inserted)
    (hskip : ∀ r, step r r) (hnew : new r) :
    Evolves (db.rows t) ((db.put t r).rows t) step new :=
  .append (Db.rows_put_of_inserted hins) (fun r _ => hskip r) (by simpa using hnew)

/-! ## Ledger transactions -/

/-- Only `version` and `updated_at` may differ. -/
def BumpedTo (t : Tbl) [OwnedTable t] (r r' : Row t) : Prop :=
  r' = r ∨ ∃ now, r' = OwnedTable.mapResource (Resource.bump now) r

/-- What a request can make of one ledger row. -/
inductive TransactionStep (env : Env) (userId : Uuid) (request : Request) (db : Db) :
    Row .transactions → Row .transactions → Prop
  | kept {t t' : Row .transactions} (h : BumpedTo .transactions t t') :
    TransactionStep env userId request db t t'
  | updated {t : Row .transactions} {body : TransactionUpdateRequest}
      (hreq : request = .updateTransaction t.id body)
      (h : Updatable env userId t.id body.fields body.hashtagIds.join body.reconciliationId t
        db) :
    TransactionStep env userId request db t ((bumped .transactions env.now
      (setTransaction body.fields.normalized body.reconciliationId)).apply t)
  | deleted {t : Row .transactions} (hreq : request = .deleteTransaction t.id)
      (hu : t.userId = userId) (hd : t.deletedAt = none)
      (hdraft : ∀ rec ∈ db.rows .reconciliations, t.reconciliationId = some rec.id →
        rec.userId = userId → rec.status = .draft) :
    TransactionStep env userId request db t
      ((marked .transactions env.now (some env.now)).apply t)
  | restored {t : Row .transactions} {unlink : Bool} (hreq : request = .restoreTransaction t.id)
      (h : Restorable userId t.id t unlink db) :
    TransactionStep env userId request db t
      ((bumped .transactions env.now (setRestored unlink)).apply t)
  | unassigned {t : Row .transactions} {rid : Uuid} (hreq : request = .deleteReconciliation rid)
      (h : isMember rid userId t = true)
      (hdraft : ∀ rec ∈ db.rows .reconciliations, rec.id = rid → rec.status = .draft) :
    TransactionStep env userId request db t ((bumped .transactions env.now setUnassigned).apply t)

/-- The signed amounts a request sends for ledger rows. -/
def Request.ledgerAmounts : Request → List (Uuid × Int)
  | .createTransaction body => [(body.id, body.amountCents)]
  | .batchCreateTransactions items => items.map fun item => (item.id, item.amountCents)
  | .createOpeningBalance _ body => [(body.transactionId, body.amountCents)]
  | .updateTransaction id body => (body.amountCents.join.map fun n => (id, n)).toList
  | _ => []

/-- A ledger row a request has inserted. Its category may have been seeded by
the same request. -/
structure NewTransaction (env : Env) (userId : Uuid) (request : Request) (db db' : Db)
    (t : Row .transactions) : Prop where
  inserts : request.inserts = true
  /-- The amount is one the request sent, or that of the draft it promoted. -/
  amount : (∃ n, (t.id, n) ∈ request.ledgerAmounts ∧ t.amountCents = absCents n ∧
      t.transactionType = inferTransactionType n) ∨
    ∃ id draft, request = .promoteInboxItem id t.id ∧
      Promotable env userId id t.id draft t.transactionType db ∧
      draft.amountCents = some t.amountCents
  fresh : ∀ x ∈ db.rows .transactions, x.id ≠ t.id
  user : t.userId = userId
  active : t.deletedAt = none
  unassigned : t.reconciliationId = none
  account : HasActiveAccount db userId t.accountId
  category : HasActiveCategory db' userId t.categoryId

namespace EvolutionLemmas

omit [Platform] in
theorem BumpedTo.refl {t : Tbl} [OwnedTable t] (r : Row t) : BumpedTo t r r := .inl rfl

theorem TransactionStep.skip (t : Row .transactions) :
    TransactionStep env userId request db t t :=
  .kept (.inl rfl)

theorem fresh_of_inserts {t : Tbl} {r : Row t} (h : Inserts db t r) :
    ∀ x ∈ db.rows t, keyOf t x ≠ keyOf t r :=
  Table.find?_eq_none.mp (Db.find?_of_inserted h)

/-- A transaction of the user with the id of a known one is that one. -/
theorem eq_of_id {t : Tbl} {r r' : Row t} (hr : r ∈ db.rows t) (hr' : r' ∈ db.rows t)
    (h : keyOf t r = keyOf t r') : r = r' :=
  Table.eq_of_key_eq hr hr' h

theorem created_ne {body : TransactionCreateRequest} {t : Tbl} (h₁ : t ≠ .transactions)
    (h₂ : t ≠ .transactionHashtags) : db.created env userId body t = db t := by
  simp [Db.created, h₁, h₂]

theorem rows_created {body : TransactionCreateRequest} (h : Creatable env userId body db) :
    (db.created env userId body).rows .transactions =
      db.rows .transactions ++ [requestedRow env userId body] := by
  rw [← Db.rows_put_of_inserted h.inserts]
  simp [Db.created, Sql.Db.rows]

theorem createdAll_ne {items : List TransactionCreateRequest}
    (h : CreatedAll env userId items db db') {t : Tbl} (h₁ : t ≠ .transactions)
    (h₂ : t ≠ .transactionHashtags) : db' t = db t := by
  induction h with
  | nil => rfl
  | cons _ _ ih => exact ih.trans (created_ne h₁ h₂)

theorem rows_createdAll {items : List TransactionCreateRequest}
    (h : CreatedAll env userId items db db') :
    db'.rows .transactions = db.rows .transactions ++ items.map (requestedRow env userId) ∧
      ∀ item ∈ items, (∀ x ∈ db.rows .transactions, x.id ≠ item.id) ∧
        HasActiveAccount db userId item.accountId ∧
        HasActiveCategory db userId item.categoryId := by
  induction h with
  | nil => simp
  | @cons item items db db' hc _ ih =>
    obtain ⟨hrows, hitems⟩ := ih
    rw [rows_created hc] at hrows hitems
    refine ⟨by simp [hrows], ?_⟩
    rintro x (_ | ⟨_, hx⟩)
    · exact ⟨fresh_of_inserts hc.inserts, hc.account, hc.category⟩
    · obtain ⟨hfresh, ha, hcat⟩ := hitems x hx
      refine ⟨fun y hy => hfresh y (List.mem_append_left _ hy), ?_, ?_⟩
      · exact (hasActiveAccount_congr (by simp [Sql.Db.rows, created_ne])).mp ha
      · exact (hasActiveCategory_congr (by simp [Sql.Db.rows, created_ne])).mp hcat

theorem rows_promoted {id targetId : Uuid} {draft : Row .transactionInbox} {ty : TransactionType}
    (h : Promotable env userId id targetId draft ty db) :
    (db.promoted env userId id targetId draft ty).rows .transactions =
      db.rows .transactions ++ [promotedRow env userId targetId draft ty] := by
  rw [← Db.rows_put_of_inserted h.inserts]
  simp [Sql.Db.rows, Db.promoted]

end EvolutionLemmas

open EvolutionLemmas

theorem transactions_evolve (h : Effect env userId db request db') :
    Evolves (db.rows .transactions) (db'.rows .transactions)
      (TransactionStep env userId request db) (NewTransaction env userId request db db') := by
  have hskip : ∀ t, TransactionStep env userId request db t t := TransactionStep.skip
  have bump : ∀ (now : Timestamp) (t : Row .transactions), TransactionStep env userId request db t
      (OwnedTable.mapResource (Resource.bump now) t) := fun now _ => .kept (.inr ⟨now, rfl⟩)
  cases h with
  | idle => exact .refl fun t _ => hskip t
  | transactionCreated hc =>
    refine .append (rows_created hc) (fun t _ => hskip t) fun t ht => ?_
    rw [List.mem_singleton] at ht
    subst ht
    refine ⟨rfl, .inl ⟨_, List.mem_singleton_self _, rfl, rfl⟩, fresh_of_inserts hc.inserts, rfl,
      rfl, rfl, hc.account, ?_⟩
    exact (hasActiveCategory_congr (by simp [Sql.Db.rows, created_ne])).mp hc.category
  | batchCreated hc =>
    obtain ⟨hrows, hitems⟩ := rows_createdAll hc
    refine .append hrows (fun t _ => hskip t) fun t ht => ?_
    obtain ⟨item, hitem, rfl⟩ := List.mem_map.mp ht
    obtain ⟨hfresh, ha, hcat⟩ := hitems item hitem
    refine ⟨rfl, .inl ⟨_, List.mem_map_of_mem hitem, rfl, rfl⟩, hfresh, rfl, rfl, rfl, ha, ?_⟩
    exact (hasActiveCategory_congr (by simp [Sql.Db.rows, createdAll_ne hc])).mp hcat
  | @openingBalanceCreated _ body item db₁ hid hamount hseed hc =>
    have hrows : db₁.rows .transactions = db.rows .transactions ∧
        db₁.rows .bankAccounts = db.rows .bankAccounts := by
      rcases hseed with ⟨rfl, -⟩ | ⟨r, -, -, -, -, rfl⟩
      · exact ⟨rfl, rfl⟩
      · simp
    refine .append ((rows_created hc).trans (by rw [hrows.1])) (fun t _ => hskip t) fun t ht => ?_
    rw [List.mem_singleton] at ht
    subst ht
    have hsent : ((requestedRow env userId item).id, item.amountCents) ∈
        [(body.transactionId, body.amountCents)] := by
      rw [← hid, ← hamount]
      exact List.mem_singleton_self _
    refine ⟨rfl, .inl ⟨_, hsent, rfl, rfl⟩, ?_, rfl, rfl, rfl,
      (hasActiveAccount_congr hrows.2).mp hc.account, ?_⟩
    · rw [← hrows.1]
      exact fresh_of_inserts hc.inserts
    · exact (hasActiveCategory_congr (by simp [Sql.Db.rows, created_ne])).mp hc.category
  | @transactionUpdated id body row hrow =>
    rw [show (db.updated env userId id body.fields body.hashtagIds.join
        body.reconciliationId).rows .transactions = _ from
      congrArg Table.rows (retagged_ne (by simp))]
    refine evolves_modify rfl (fun t ht hw => ?_) hskip
    obtain rfl : t = row :=
      eq_of_id ht hrow.found ((owns_active.mp hw).1.trans hrow.owned.1.symm)
    obtain rfl := hrow.owned.1
    exact .updated rfl hrow
  | @transactionDeleted id row hrow howned hdraft =>
    rw [show (db.transactionDeleted env userId id).rows .transactions = _ from
      congrArg Table.rows (cascaded_ne (by simp))]
    refine evolves_modify rfl (fun t ht hw => ?_) hskip
    obtain rfl : t = row := eq_of_id ht hrow ((owns_either.mp hw).1.trans howned.1.symm)
    obtain rfl := howned.1
    exact .deleted rfl howned.2.1 howned.2.2 hdraft
  | @transactionRestored id row unlink hrow =>
    rw [show (db.transactionRestored env userId id row unlink).rows .transactions = _ from
      congrArg Table.rows (revived_ne (by simp))]
    refine evolves_modify rfl (fun t ht hw => ?_) hskip
    obtain rfl : t = row :=
      eq_of_id ht hrow.found ((owns_either.mp hw).1.trans hrow.owned.1.symm)
    obtain rfl := hrow.owned.1
    exact .restored rfl hrow
  | draftCreated | draftUpdated | draftDismissed =>
    refine .of_eq ?_ fun t _ => hskip t
    simp [Sql.Db.rows, Db.drafted, Db.draftUpdated, Db.dismissed]
  | @draftPromoted id targetId draft ty hp =>
    refine .append (rows_promoted hp) (fun t _ => hskip t) fun t ht => ?_
    rw [List.mem_singleton] at ht
    subst ht
    obtain ⟨a, ha, hacc⟩ := hp.account
    obtain ⟨c, hc, hcat⟩ := hp.category
    obtain ⟨n, hn⟩ := Option.isSome_iff_exists.mp hp.amount
    refine ⟨rfl, .inr ⟨id, draft, rfl, hp, ?_⟩, fresh_of_inserts hp.inserts, rfl, rfl, rfl, ?_, ?_⟩
    · simp [promotedRow, newTransactionRow, hn]
    · simpa [promotedRow, newTransactionRow, ha] using hacc
    · rw [show (promotedRow env userId targetId draft ty).categoryId = c by
        simp [promotedRow, newTransactionRow, hc]]
      exact (hasActiveCategory_congr (by simp [Sql.Db.rows, Db.promoted])).mp hcat
  | reconciliationCompleted | reconciliationReverted =>
    exact evolves_modify (by simp) (fun t _ _ => bump env.now t) hskip
  | @reconciliationDeleted id rec hrec howned hdraft =>
    rw [Db.reconciliationDeleted, Db.rows_modify_ne _ _ _ (by simp)]
    refine evolves_modify rfl (fun t _ hw => .unassigned rfl hw fun r hr hid => ?_) hskip
    obtain rfl : r = rec := eq_of_id hr hrec (hid.trans howned.1.symm)
    exact hdraft
  | @hashtagDeleted id ledgerIds inboxIds =>
    rw [Db.hashtagDeleted, Db.rows_modify_ne _ _ _ (by simp), Db.parentsBumped,
      Db.rows_modify_ne _ _ _ (by simp)]
    exact evolves_modify (by simp) (fun t _ _ => bump env.now t) hskip
  | reconciliationCreated | reconciliationUpdated | reconciliationRestored | accountCreated
  | accountEdited | accountDeleted | accountRestored | categoryCreated | categoryEdited
  | categoryDeleted | categoryRestored | hashtagCreated | hashtagEdited | hashtagRestored =>
    exact .of_eq (by simp) fun t _ => hskip t

/-! ## Reconciliations -/

/-- What a request can make of one reconciliation. -/
inductive ReconciliationStep (env : Env) (userId : Uuid) (request : Request) (db : Db) :
    Row .reconciliations → Row .reconciliations → Prop
  | kept {r : Row .reconciliations} : ReconciliationStep env userId request db r r
  | edited {r : Row .reconciliations} {body : ReconciliationUpdateRequest}
      (hreq : request = .updateReconciliation r.id body) (hu : r.userId = userId)
      (hd : r.deletedAt = none)
      (hfrozen : r.status = .completed → attemptedFrozen body.fields = []) :
    ReconciliationStep env userId request db r
      ((bumped .reconciliations env.now (setReconciliation body.fields.normalized)).apply r)
  | completed {r : Row .reconciliations} (hreq : request = .completeReconciliation r.id)
      (hu : r.userId = userId) (hd : r.deletedAt = none)
      (hassigned : ∃ t ∈ db.rows .transactions, isMember r.id userId t = true) :
    ReconciliationStep env userId request db r
      ((bumped .reconciliations env.now (setStatus .completed)).apply r)
  | reverted {r : Row .reconciliations} (hreq : request = .revertReconciliation r.id)
      (hu : r.userId = userId) (hd : r.deletedAt = none) :
    ReconciliationStep env userId request db r
      ((bumped .reconciliations env.now (setStatus .draft)).apply r)
  | deleted {r : Row .reconciliations} (hreq : request = .deleteReconciliation r.id)
      (hu : r.userId = userId) (hd : r.deletedAt = none) (hdraft : r.status = .draft) :
    ReconciliationStep env userId request db r
      ((marked .reconciliations env.now (some env.now)).apply r)
  | restored {r : Row .reconciliations} (hreq : request = .restoreReconciliation r.id)
      (hu : r.userId = userId) (hd : r.deletedAt ≠ none) :
    ReconciliationStep env userId request db r ((marked .reconciliations env.now none).apply r)

/-- A reconciliation a request has inserted. -/
structure NewReconciliation (userId : Uuid) (request : Request) (r : Row .reconciliations) :
    Prop where
  request : ∃ body, request = .createReconciliation body
  user : r.userId = userId
  active : r.deletedAt = none
  draft : r.status = .draft

theorem reconciliations_evolve (h : Effect env userId db request db') :
    Evolves (db.rows .reconciliations) (db'.rows .reconciliations)
      (ReconciliationStep env userId request db) (NewReconciliation userId request) := by
  have hskip : ∀ r, ReconciliationStep env userId request db r r := fun _ => .kept
  cases h with
  | reconciliationCreated haccount hins =>
    exact evolves_put hins hskip ⟨⟨_, rfl⟩, rfl, rfl, rfl⟩
  | @reconciliationUpdated id body rec hrec howned hfrozen =>
    refine evolves_modify rfl (fun r hr hw => ?_) hskip
    obtain rfl : r = rec := eq_of_id hr hrec ((owns_active.mp hw).1.trans howned.1.symm)
    obtain rfl := howned.1
    exact .edited rfl howned.2.1 howned.2.2 hfrozen
  | @reconciliationCompleted id rec hrec howned hassigned =>
    rw [Db.transitioned, Db.rows_modify_ne _ _ _ (by simp)]
    refine evolves_modify rfl (fun r hr hw => ?_) hskip
    obtain rfl : r = rec := eq_of_id hr hrec ((owns_either.mp hw).1.trans howned.1.symm)
    obtain rfl := howned.1
    exact .completed rfl howned.2.1 howned.2.2 hassigned
  | @reconciliationReverted id rec hrec howned =>
    rw [Db.transitioned, Db.rows_modify_ne _ _ _ (by simp)]
    refine evolves_modify rfl (fun r hr hw => ?_) hskip
    obtain rfl : r = rec := eq_of_id hr hrec ((owns_either.mp hw).1.trans howned.1.symm)
    obtain rfl := howned.1
    exact .reverted rfl howned.2.1 howned.2.2
  | @reconciliationDeleted id rec hrec howned hdraft =>
    refine evolves_modify (by simp) (fun r hr hw => ?_) hskip
    obtain rfl : r = rec := eq_of_id hr hrec ((owns_either.mp hw).1.trans howned.1.symm)
    obtain rfl := howned.1
    exact .deleted rfl howned.2.1 howned.2.2 hdraft
  | reconciliationRestored =>
    refine evolves_modify rfl (fun r hr hw => ?_) hskip
    obtain ⟨rfl, hu, hd⟩ := owns_deleted.mp hw
    exact .restored rfl hu hd
  | batchCreated hc => exact .of_eq (by simp [Sql.Db.rows, createdAll_ne hc]) fun r _ => hskip r
  | openingBalanceCreated hid hamount hseed hc =>
    refine .of_eq ?_ fun r _ => hskip r
    rcases hseed with ⟨rfl, -⟩ | ⟨r, -, -, -, -, rfl⟩ <;> simp [Sql.Db.rows, created_ne]
  | _ =>
    refine .of_eq ?_ fun r _ => hskip r
    simp [Sql.Db.rows, created_ne, Db.updated, Db.transactionDeleted, Db.transactionRestored,
      Db.drafted, Db.draftUpdated, Db.dismissed, Db.promoted, Db.hashtagDeleted, Db.parentsBumped]

/-! ## Drafts -/

/-- What a request can make of one draft. -/
inductive DraftStep (env : Env) (userId : Uuid) (request : Request) (db : Db) :
    Row .transactionInbox → Row .transactionInbox → Prop
  | kept {d d' : Row .transactionInbox} (h : BumpedTo .transactionInbox d d') :
    DraftStep env userId request db d d'
  | updated {d : Row .transactionInbox} {body : InboxUpdateRequest}
      (hreq : request = .updateInboxItem d.id body)
      (h : DraftUpdatable userId d.id body.fields body.hashtagIds.join d db) :
    DraftStep env userId request db d
      ((bumped .transactionInbox env.now (setInbox body.fields)).apply d)
  | dismissed {d : Row .transactionInbox} (hreq : request = .deleteInboxItem d.id)
      (hu : d.userId = userId) (hd : d.deletedAt = none) :
    DraftStep env userId request db d ((marked .transactionInbox env.now (some env.now)).apply d)
  | promoted {d : Row .transactionInbox} {targetId : Uuid} {ty : TransactionType}
      (hreq : request = .promoteInboxItem d.id targetId)
      (h : Promotable env userId d.id targetId d ty db) :
    DraftStep env userId request db d
      ((bumped .transactionInbox env.now (setPromoted env)).apply d)

/-- A draft a request has inserted. -/
structure NewDraft (env : Env) (userId : Uuid) (request : Request) (db : Db)
    (d : Row .transactionInbox) : Prop where
  request : ∃ body, request = .createInboxItem body ∧ d = requestedDraft env userId body ∧
    DraftFieldsValid userId body.amountCents body.accountId body.categoryId db
  fresh : ∀ x ∈ db.rows .transactionInbox, x.id ≠ d.id

theorem drafts_evolve (h : Effect env userId db request db') :
    Evolves (db.rows .transactionInbox) (db'.rows .transactionInbox)
      (DraftStep env userId request db) (NewDraft env userId request db) := by
  have hskip : ∀ d, DraftStep env userId request db d d := fun _ => .kept (.inl rfl)
  cases h with
  | @draftCreated body hvalid hins htags =>
    rw [show (db.drafted env userId body).rows .transactionInbox = _ from
      congrArg Table.rows (tagged_ne (by simp))]
    exact evolves_put hins hskip ⟨⟨_, rfl, rfl, hvalid⟩, fresh_of_inserts hins⟩
  | @draftUpdated id body row hrow =>
    rw [show (db.draftUpdated env userId id body.fields body.hashtagIds.join).rows
      .transactionInbox = _ from congrArg Table.rows (retagged_ne (by simp))]
    refine evolves_modify rfl (fun d hd hw => ?_) hskip
    obtain rfl : d = row :=
      eq_of_id hd hrow.found ((owns_active.mp hw).1.trans hrow.owned.1.symm)
    obtain rfl := hrow.owned.1
    exact .updated rfl hrow
  | @draftDismissed id row hrow howned =>
    rw [show (db.dismissed env userId id).rows .transactionInbox = _ from
      congrArg Table.rows (cascaded_ne (by simp))]
    refine evolves_modify rfl (fun d hd hw => ?_) hskip
    obtain rfl : d = row := eq_of_id hd hrow ((owns_either.mp hw).1.trans howned.1.symm)
    obtain rfl := howned.1
    exact .dismissed rfl howned.2.1 howned.2.2
  | @draftPromoted id targetId draft ty hp =>
    rw [show (db.promoted env userId id targetId draft ty).rows .transactionInbox = _ from
      congrArg Table.rows (cascaded_ne (by simp))]
    refine evolves_modify (by simp [Sql.Db.rows]) (fun d hd hw => ?_) hskip
    obtain rfl : d = draft :=
      eq_of_id hd hp.found ((owns_either.mp hw).1.trans hp.pending.1.symm)
    obtain rfl := hp.pending.1
    exact .promoted rfl hp
  | hashtagDeleted =>
    rw [Db.hashtagDeleted, Db.rows_modify_ne _ _ _ (by simp), Db.parentsBumped]
    refine evolves_modify ?_ (fun d _ _ => .kept (.inr ⟨env.now, rfl⟩)) hskip
    simp [Sql.Db.rows, Db.parentsBumped]
  | batchCreated hc => exact .of_eq (by simp [Sql.Db.rows, createdAll_ne hc]) fun r _ => hskip r
  | openingBalanceCreated hid hamount hseed hc =>
    refine .of_eq ?_ fun r _ => hskip r
    rcases hseed with ⟨rfl, -⟩ | ⟨r, -, -, -, -, rfl⟩ <;> simp [Sql.Db.rows, created_ne]
  | _ =>
    refine .of_eq ?_ fun r _ => hskip r
    simp [Sql.Db.rows, created_ne, Db.updated, Db.transactionDeleted, Db.transactionRestored,
      Db.transitioned, Db.reconciliationDeleted]

/-! ## Accounts, categories and hashtags -/

/-- The row keeps its owner, and stays active unless the request may delete
it. -/
def Survives (t : Tbl) [OwnedTable t] (mayDelete : Row t → Prop) (r r' : Row t) : Prop :=
  ((OwnedTable.resource r').id = (OwnedTable.resource r).id ∧
    (OwnedTable.resource r').userId = (OwnedTable.resource r).userId) ∧
    ((OwnedTable.resource r).deletedAt = none →
      (OwnedTable.resource r').deletedAt = none ∨ mayDelete r)

theorem accounts_evolve (h : Effect env userId db request db') :
    Evolves (db.rows .bankAccounts) (db'.rows .bankAccounts)
      (Survives .bankAccounts fun a => request = .deleteAccount a.id ∧ a.userId = userId ∧
        AccountUnreferenced userId a.id db)
      fun a => a.userId = userId ∧ a.deletedAt = none := by
  have hskip : ∀ a, Survives .bankAccounts (fun a => request = .deleteAccount a.id ∧
      a.userId = userId ∧ AccountUnreferenced userId a.id db) a a :=
    fun _ => ⟨⟨rfl, rfl⟩, .inl⟩
  cases h with
  | accountCreated _ hu hd hins => exact evolves_put hins hskip ⟨hu, hd⟩
  | @accountEdited _ w f _ hf =>
    refine evolves_modify rfl (fun a _ _ => ⟨⟨f.key_apply a, (hf a).1⟩, fun hd => ?_⟩) hskip
    exact .inl ((hf a).2.trans hd)
  | accountDeleted hfree =>
    refine evolves_modify rfl (fun a _ hw => ⟨⟨rfl, rfl⟩, fun _ => .inr ?_⟩) hskip
    obtain ⟨rfl, hu⟩ := owns_either.mp hw
    exact ⟨rfl, hu, hfree⟩
  | accountRestored =>
    exact evolves_modify rfl (fun a _ _ => ⟨⟨rfl, rfl⟩, fun _ => .inl rfl⟩) hskip
  | batchCreated hc => exact .of_eq (by simp [Sql.Db.rows, createdAll_ne hc]) fun r _ => hskip r
  | openingBalanceCreated hid hamount hseed hc =>
    refine .of_eq ?_ fun r _ => hskip r
    rcases hseed with ⟨rfl, -⟩ | ⟨r, -, -, -, -, rfl⟩ <;> simp [Sql.Db.rows, created_ne]
  | _ =>
    refine .of_eq ?_ fun r _ => hskip r
    simp [Sql.Db.rows, created_ne, Db.updated, Db.transactionDeleted, Db.transactionRestored,
      Db.drafted, Db.draftUpdated, Db.dismissed, Db.promoted, Db.hashtagDeleted, Db.parentsBumped,
      Db.transitioned, Db.reconciliationDeleted]

theorem categories_evolve (h : Effect env userId db request db') :
    Evolves (db.rows .categories) (db'.rows .categories)
      (Survives .categories fun c => request = .deleteCategory c.id ∧ c.userId = userId ∧
        CategoryUnreferenced userId c.id db)
      fun c => c.userId = userId ∧ c.deletedAt = none := by
  have hskip : ∀ c, Survives .categories (fun c => request = .deleteCategory c.id ∧
      c.userId = userId ∧ CategoryUnreferenced userId c.id db) c c :=
    fun _ => ⟨⟨rfl, rfl⟩, .inl⟩
  cases h with
  | categoryCreated _ hu hd hins => exact evolves_put hins hskip ⟨hu, hd⟩
  | @categoryEdited _ w f _ hf =>
    refine evolves_modify rfl (fun c _ _ => ⟨⟨f.key_apply c, (hf c).1⟩, fun hd => ?_⟩) hskip
    exact .inl ((hf c).2.trans hd)
  | categoryDeleted hfree =>
    refine evolves_modify rfl (fun c _ hw => ⟨⟨rfl, rfl⟩, fun _ => .inr ?_⟩) hskip
    obtain ⟨rfl, hu⟩ := owns_either.mp hw
    exact ⟨rfl, hu, hfree⟩
  | categoryRestored =>
    exact evolves_modify rfl (fun c _ _ => ⟨⟨rfl, rfl⟩, fun _ => .inl rfl⟩) hskip
  | batchCreated hc => exact .of_eq (by simp [Sql.Db.rows, createdAll_ne hc]) fun r _ => hskip r
  | openingBalanceCreated hid hamount hseed hc =>
    rcases hseed with ⟨rfl, -⟩ | ⟨r, -, hu, hd, hins, rfl⟩
    · exact .of_eq (by simp [Sql.Db.rows, created_ne]) fun r _ => hskip r
    · rw [show (Db.created env userId _ (db.put .categories r)).rows .categories = _ from
        congrArg Table.rows (created_ne (by simp) (by simp))]
      exact evolves_put hins hskip ⟨hu, hd⟩
  | _ =>
    refine .of_eq ?_ fun r _ => hskip r
    simp [Sql.Db.rows, created_ne, Db.updated, Db.transactionDeleted, Db.transactionRestored,
      Db.drafted, Db.draftUpdated, Db.dismissed, Db.promoted, Db.hashtagDeleted, Db.parentsBumped,
      Db.transitioned, Db.reconciliationDeleted]

theorem hashtags_evolve (h : Effect env userId db request db') :
    Evolves (db.rows .hashtags) (db'.rows .hashtags)
      (Survives .hashtags fun x => request = .deleteHashtag x.id ∧ x.userId = userId)
      fun x => x.userId = userId ∧ x.deletedAt = none := by
  have hskip : ∀ x, Survives .hashtags (fun x => request = .deleteHashtag x.id ∧
      x.userId = userId) x x :=
    fun _ => ⟨⟨rfl, rfl⟩, .inl⟩
  cases h with
  | hashtagCreated _ hu hd hins => exact evolves_put hins hskip ⟨hu, hd⟩
  | @hashtagEdited _ w f _ hf =>
    refine evolves_modify rfl (fun x _ _ => ⟨⟨f.key_apply x, (hf x).1⟩, fun hd => ?_⟩) hskip
    exact .inl ((hf x).2.trans hd)
  | hashtagDeleted =>
    refine evolves_modify ?_ (fun x _ hw => ⟨⟨rfl, rfl⟩, fun _ => .inr ?_⟩) hskip
    · simp [Sql.Db.rows, Db.parentsBumped]
    · obtain ⟨rfl, hu⟩ := owns_either.mp hw
      exact ⟨rfl, hu⟩
  | hashtagRestored =>
    exact evolves_modify rfl (fun x _ _ => ⟨⟨rfl, rfl⟩, fun _ => .inl rfl⟩) hskip
  | batchCreated hc => exact .of_eq (by simp [Sql.Db.rows, createdAll_ne hc]) fun r _ => hskip r
  | openingBalanceCreated hid hamount hseed hc =>
    refine .of_eq ?_ fun r _ => hskip r
    rcases hseed with ⟨rfl, -⟩ | ⟨r, -, -, -, -, rfl⟩ <;> simp [Sql.Db.rows, created_ne]
  | _ =>
    refine .of_eq ?_ fun r _ => hskip r
    simp [Sql.Db.rows, created_ne, Db.updated, Db.transactionDeleted, Db.transactionRestored,
      Db.drafted, Db.draftUpdated, Db.dismissed, Db.promoted, Db.transitioned,
      Db.reconciliationDeleted]

end ExpenseEngine
