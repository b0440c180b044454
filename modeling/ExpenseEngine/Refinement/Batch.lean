import ExpenseEngine.Effects.Evolution
import ExpenseEngine.Sql.Respects
import Mathlib.Data.List.Dedup

/-!
# A batch is its items, created one after another

`createEach` runs `createTransaction` on the items in order, in one transaction.
A batch checks all items before it inserts the first one, and logs them after it
has inserted the last one. Neither is visible: an insert leaves what the checks
read as it was, and no insert reads the log.

Results:
1. `exec_createTransaction_iff`, `exec_createBatch_iff`: the two paths, as checks
   followed by inserts and log entries.
2. `exec_createEach`: the log entries move behind the inserts.
3. `batch_refines_creates`: the two paths accept the same items, answer the same
   and leave the same database.
-/

namespace ExpenseEngine

open Sql Sql.Prog

section Batch

variable [Platform] {db db' : Db} {env : Env} {userId : Uuid}

/-! ## The sequential path -/

/-- The same request with its uuids drawn from the `i`-th on. -/
def Env.drawing (env : Env) (i : Nat) : Env := { env with uuid := fun n => env.uuid (i + n) }

/-- `create_transaction` on the items one after another, with one `now()`. -/
def createEach (env : Env) (userId : Uuid) : List TransactionCreateRequest → Nat → Op (List Body)
  | [], _ => pure []
  | item :: items, i => do
    let body ← createTransaction (env.drawing i) userId item false
    return body :: (← createEach env userId items (i + 1))

/-! ## Checks -/

/-- What both paths check of an item, in the same state. -/
structure ItemValid (env : Env) (userId : Uuid) (db : Db) (item : TransactionCreateRequest) :
    Prop where
  title : cleanName (some item.title) ≠ none
  amount : item.amountCents ≠ 0
  date : ¬env.now < item.date
  account : HasActiveAccount db userId item.accountId
  category : ∃ c ∈ db.rows .categories, c.id = item.categoryId ∧ isActiveCategory userId c = true ∧
    c.systemKey = none

/-- The statements of one item before its log entry. -/
def createItem (env : Env) (userId : Uuid) (item : TransactionCreateRequest) :
    Op (Row .transactions) := do
  let row ← insertTransactionRow env userId item.id (strip item.title) item.description
    (absCents item.amountCents) (inferTransactionType item.amountCents) item.date
    item.accountId item.categoryId none
  syncIfAny env row.id userId item.hashtagIds .ledger
  return row

/-- The answer for a stored row. -/
def attached (db : Db) (row : Row .transactions) : TransactionResponse :=
  { row with hashtagIds := hashtagIdsOf db row.id .ledger }

/-- The CREATED entry of a transaction. -/
def logOne (env : Env) (userId : Uuid) (i : Nat) (response : TransactionResponse) : Op Unit :=
  writeActivityLog env (env.uuid i) userId "transaction" response.id .created none
    (some (.transaction response))

namespace BatchRefinementLemmas

theorem exec_validateActiveAccount_ok {a : Uuid} {r : Row .bankAccounts} :
    exec (validateActiveAccount a userId) db = .ok (r, db') ↔
      (db.rows .bankAccounts).find? (fun r => decide (r.id = a) && isActiveAccount userId r) =
        some r ∧ db' = db := by
  simp only [validateActiveAccount, activeAccountRow, exec_bind_ok, exec_fetchRow_ok,
    exec_orRaise_ok]
  constructor
  · rintro ⟨_, _, ⟨rfl, rfl⟩, h⟩
    exact h
  · exact fun h => ⟨_, _, ⟨rfl, rfl⟩, h⟩

theorem exec_validateActiveCategory_ok {c : Uuid} {r : Row .categories} :
    exec (validateActiveCategory c userId) db = .ok (r, db') ↔
      (db.rows .categories).find? (fun r => decide (r.id = c) && isActiveCategory userId r) =
        some r ∧ db' = db := by
  simp only [validateActiveCategory, activeCategoryRow, exec_bind_ok, exec_fetchRow_ok,
    exec_orRaise_ok]
  constructor
  · rintro ⟨_, _, ⟨rfl, rfl⟩, h⟩
    exact h
  · exact fun h => ⟨_, _, ⟨rfl, rfl⟩, h⟩

omit [Platform] in
theorem itemErrors_eq_nil {item : TransactionCreateRequest} :
    ((if (cleanName (some item.title)).isNone then [("title", msgNotEmpty)] else []) ++
      (if item.amountCents = 0 then [("amount_cents", msgNotZero)] else []) ++
      (if env.now < item.date then [("date", msgNotFuture)] else []) :
        List (String × String)) = [] ↔
      cleanName (some item.title) ≠ none ∧ item.amountCents ≠ 0 ∧ ¬env.now < item.date := by
  simp only [List.append_eq_nil_iff, ite_eq_right_iff, List.cons_ne_self, imp_false,
    Option.isNone_iff_eq_none, and_assoc]

end BatchRefinementLemmas

open BatchRefinementLemmas

/-- One create: its checks, its insert, its log entry. -/
theorem exec_createTransaction_iff {item : TransactionCreateRequest} {i : Nat} {b : Body} :
    exec (createTransaction (env.drawing i) userId item false) db = .ok (b, db') ↔
      ItemValid env userId db item ∧ ∃ row db₁,
        exec (createItem env userId item) db = .ok (row, db₁) ∧
          b = .transaction (attached db₁ row) ∧
            exec (logOne env userId i (attached db₁ row)) db₁ = .ok ((), db') := by
  simp only [createTransaction, exec_bind_ok, exec_dbNow_ok, exec_raiseIf_ok, exec_pure_ok,
    exec_attachHashtagIds_ok, exec_validateActiveAccount_ok, exec_validateActiveCategory_ok,
    Bool.not_eq_true', Bool.not_eq_false, List.isEmpty_iff, createItem]
  constructor
  · rintro ⟨_, _, ⟨rfl, rfl⟩, _, _, ⟨herr, rfl⟩, account, _, ⟨hacc, rfl⟩, category, _, ⟨hcat, rfl⟩,
      _, _, ⟨hsys, rfl⟩, row, db₁, hins, _, db₂, hsync, _, _, ⟨rfl, rfl⟩, _, _, hlog, rfl, rfl⟩
    obtain ⟨htitle, hamount, hdate⟩ := itemErrors_eq_nil.mp herr
    obtain ⟨hamem, haw⟩ := find?_row hacc
    obtain ⟨hcmem, hcw⟩ := find?_row hcat
    simp only [Bool.and_eq_true, decide_eq_true_eq] at haw hcw
    refine ⟨⟨htitle, hamount, hdate, ⟨account, hamem, haw⟩, category, hcmem, hcw.1, hcw.2, ?_⟩,
      row, _, ⟨row, db₁, hins, (), _, hsync, rfl, rfl⟩, rfl, hlog⟩
    simpa using hsys
  · rintro ⟨hv, row, db₁, ⟨_, db₀, hins, _, _, hsync, rfl, rfl⟩, rfl, hlog⟩
    obtain ⟨account, hamem, haw⟩ := hv.account
    obtain ⟨category, hcmem, hcid, hcw, hsys⟩ := hv.category
    refine ⟨_, _, ⟨rfl, rfl⟩, (), _, ⟨?_, rfl⟩, account, _, ⟨?_, rfl⟩, category, _, ⟨?_, rfl⟩,
      (), _, ⟨by simp [hsys], rfl⟩, _, db₀, hins, (), _, hsync, _, _, ⟨rfl, rfl⟩, (), _, hlog,
      rfl, rfl⟩
    · exact itemErrors_eq_nil.mpr ⟨hv.title, hv.amount, hv.date⟩
    · exact find?_of_mem (k := item.accountId) (by simp +contextual [keyOf]) hamem
        (by simpa using haw)
    · exact find?_of_mem (k := item.categoryId) (by simp +contextual [keyOf]) hcmem
        (by simp [hcid, hcw])

/-! ## The batch path -/

namespace BatchRefinementLemmas

theorem exec_activeAccountIds_total (db : Db) (userId : Uuid) (ids : List Uuid) :
    ∃ valid, exec (activeAccountIds ids userId) db = .ok (valid, db) ∧
      ∀ a ∈ ids, a ∈ valid ↔ HasActiveAccount db userId a := by
  unfold activeAccountIds
  split
  · next hnil => exact ⟨[], rfl, by simp [List.isEmpty_iff.mp hnil]⟩
  · refine ⟨_, rfl, fun a ha => ?_⟩
    simp only [List.mem_map, List.mem_filter, Bool.and_eq_true, decide_eq_true_eq,
      HasActiveAccount]
    constructor
    · rintro ⟨r, ⟨hr, -, hw⟩, hid⟩
      exact ⟨r, hr, hid, hw⟩
    · rintro ⟨r, hr, hid, hw⟩
      exact ⟨r, ⟨hr, hid ▸ ha, hw⟩, hid⟩

omit [Platform] in
/-- Looking a row up by its id. -/
theorem lookup_map_eq_some {α : Type} {rows : List (Row .categories)}
    {g : Row .categories → α} {c : Uuid} {x : α}
    (hnd : (rows.map fun r => r.id).Nodup) :
    (rows.map fun r => (r.id, g r)).lookup c = some x ↔ ∃ r ∈ rows, r.id = c ∧ g r = x := by
  induction rows with
  | nil => simp
  | cons r rs ih =>
    simp only [List.map_cons, List.nodup_cons, List.mem_map, not_exists, not_and] at hnd
    rw [List.map_cons, List.lookup_cons]
    by_cases hr : c = r.id
    · subst hr
      simp only [beq_self_eq_true, Option.some.injEq, List.mem_cons]
      constructor
      · exact fun h => ⟨r, .inl rfl, rfl, h⟩
      · rintro ⟨y, rfl | hy, hid, h⟩
        · exact h
        · exact absurd hid (hnd.1 y hy)
    · simp only [beq_eq_false_iff_ne.mpr hr, List.mem_cons]
      rw [ih hnd.2]
      constructor
      · rintro ⟨y, hy, h⟩
        exact ⟨y, .inr hy, h⟩
      · rintro ⟨y, rfl | hy, hid, h⟩
        · exact absurd hid.symm hr
        · exact ⟨y, hy, hid, h⟩

theorem exec_activeCategoryIds_total (db : Db) (userId : Uuid) (ids : List Uuid) :
    ∃ valid, exec (activeCategoryIds ids userId) db = .ok (valid, db) ∧
      ∀ c ∈ ids, valid.lookup c = some false ↔ ∃ r ∈ db.rows .categories, r.id = c ∧
        isActiveCategory userId r = true ∧ r.systemKey = none := by
  unfold activeCategoryIds
  split
  · next hnil => exact ⟨[], rfl, by simp [List.isEmpty_iff.mp hnil]⟩
  · refine ⟨_, rfl, fun c hc => ?_⟩
    have hnd : (((db.rows .categories).filter fun r =>
        decide (r.id ∈ ids) && isActiveCategory userId r).map fun r => r.id).Nodup :=
      (db .categories).nodup.sublist (List.filter_sublist.map _)
    rw [lookup_map_eq_some hnd]
    simp only [List.mem_filter, Bool.and_eq_true, decide_eq_true_eq, Option.isSome_eq_false_iff,
      Option.isNone_iff_eq_none]
    constructor
    · rintro ⟨r, ⟨hr, -, hw⟩, hid, hsys⟩
      exact ⟨r, hr, hid, hw, hsys⟩
    · rintro ⟨r, hr, hid, hw, hsys⟩
      exact ⟨r, ⟨hr, hid ▸ hc, hw⟩, hid, hsys⟩

omit [Platform] in
theorem batchItemErrors_eq_nil {now : Timestamp} {accounts seen : List Uuid}
    {categories : List (Uuid × Bool)} {item : TransactionCreateRequest} :
    batchItemErrors now accounts categories seen item = [] ↔
      (cleanName (some item.title) ≠ none ∧ item.amountCents ≠ 0 ∧ ¬now < item.date) ∧
        item.accountId ∈ accounts ∧ categories.lookup item.categoryId = some false ∧
          item.id ∉ seen := by
  simp only [batchItemErrors, List.append_eq_nil_iff, ite_eq_right_iff, List.cons_ne_self,
    imp_false, not_not, Option.isNone_iff_eq_none, and_assoc]
  rcases categories.lookup item.categoryId with _ | _ | _ <;> simp

omit [Platform] in
/-- A batch has no errors when its items have none and their ids are new. -/
theorem batchErrors_eq_nil {now : Timestamp} {accounts seen : List Uuid}
    {categories : List (Uuid × Bool)} {items : List TransactionCreateRequest} {i : Nat} :
    batchErrors now accounts categories items seen i = [] ↔
      (∀ item ∈ items,
        (cleanName (some item.title) ≠ none ∧ item.amountCents ≠ 0 ∧ ¬now < item.date) ∧
          item.accountId ∈ accounts ∧ categories.lookup item.categoryId = some false) ∧
        (items.map fun item => item.id).Nodup ∧ ∀ item ∈ items, item.id ∉ seen := by
  induction items generalizing seen i with
  | nil => simp [batchErrors]
  | cons item items ih =>
    rw [batchErrors]
    by_cases hnil : batchItemErrors now accounts categories seen item = []
    · rw [hnil, List.isEmpty_nil, if_pos rfl, ih]
      rw [batchItemErrors_eq_nil] at hnil
      simp only [List.forall_mem_cons, List.map_cons, List.nodup_cons, List.mem_map]
      grind
    · rw [if_neg (by simpa using hnil)]
      rw [batchItemErrors_eq_nil] at hnil
      simp only [List.forall_mem_cons]
      grind

end BatchRefinementLemmas

/-- A batch: the checks of all items, their inserts, their log entries. -/
theorem exec_createBatch_iff {items : List TransactionCreateRequest} {b : Body} :
    exec (createBatch env userId items) db = .ok (b, db') ↔
      items ≠ [] ∧ (∀ item ∈ items, ItemValid env userId db item) ∧
        (items.map fun item => item.id).Nodup ∧ ∃ rows db₁,
          exec (createItems env userId items) db = .ok (rows, db₁) ∧
            b = .batch (rows.map (attached db₁)) ∧
              exec (logCreated env userId (rows.map (attached db₁)) 0) db₁ = .ok ((), db') := by
  obtain ⟨accounts, haccounts, hacc⟩ := exec_activeAccountIds_total db userId
    ((items.map fun item => item.accountId).dedup)
  obtain ⟨categories, hcategories, hcat⟩ := exec_activeCategoryIds_total db userId
    ((items.map fun item => item.categoryId).dedup)
  have hvalid : ∀ item ∈ items, ItemValid env userId db item ↔
      (cleanName (some item.title) ≠ none ∧ item.amountCents ≠ 0 ∧ ¬env.now < item.date) ∧
        item.accountId ∈ accounts ∧ categories.lookup item.categoryId = some false := by
    intro item hitem
    rw [hacc _ (List.mem_dedup.mpr (List.mem_map_of_mem hitem)),
      hcat _ (List.mem_dedup.mpr (List.mem_map_of_mem hitem))]
    exact ⟨fun h => ⟨⟨h.title, h.amount, h.date⟩, h.account, h.category⟩,
      fun h => ⟨h.1.1, h.1.2.1, h.1.2.2, h.2.1, h.2.2⟩⟩
  have herrors : batchErrors env.now accounts categories items [] 0 = [] ↔
      (∀ item ∈ items, ItemValid env userId db item) ∧
        (items.map fun item => item.id).Nodup := by
    rw [batchErrors_eq_nil]
    simp only [List.not_mem_nil, not_false_eq_true, implies_true, and_true]
    exact and_congr_left fun _ => forall₂_congr fun item hitem => (hvalid item hitem).symm
  simp only [createBatch, exec_bind_ok, exec_raiseIf_ok, exec_dbNow_ok, attachHashtagIdsAll,
    exec_read_ok, exec_pure_ok]
  constructor
  · rintro ⟨_, _, ⟨hne, rfl⟩, _, _, ⟨rfl, rfl⟩, _, _, ha, _, _, hc, _, _,
      ⟨herr, rfl⟩, rows, db₁, hitems, _, _, ⟨rfl, rfl⟩, _, _, hlog, rfl, rfl⟩
    rw [haccounts] at ha
    cases ha
    rw [hcategories] at hc
    cases hc
    simp only [Bool.not_eq_true', Bool.not_eq_false, List.isEmpty_iff] at herr
    obtain ⟨hall, hnd⟩ := herrors.mp herr
    exact ⟨by simpa using hne, hall, hnd, rows, _, hitems, rfl, hlog⟩
  · rintro ⟨hne, hall, hnd, rows, db₁, hitems, rfl, hlog⟩
    refine ⟨(), _, ⟨by simpa using hne, rfl⟩, _, _, ⟨rfl, rfl⟩, _, _, haccounts, _, _,
      hcategories, (), _, ⟨?_, rfl⟩, rows, db₁, hitems, _, _, ⟨rfl, rfl⟩, (), _, hlog, rfl, rfl⟩
    simp [herrors.mpr ⟨hall, hnd⟩]

/-! ## The log entries move behind the inserts -/

namespace BatchRefinementLemmas

/-- No foreign key refers to the log. -/
theorem refsSkip_activityLog (t : Tbl) : RefsSkip Row .activityLog t := by
  intro db x r
  cases t <;> rfl

section Log

variable (x : Sql.Table Row .activityLog)

theorem respects_cascadeDelete {parentId : Uuid} {source : TransactionSource} {keep : List Uuid} :
    (cascadeDelete env userId parentId source keep).Respects (Replaces .activityLog x) :=
  respects_bind (respects_updateWhere (sameRows_replaces (by simp) _)
    (sameUpdate_replaces (by simp) (refsSkip_activityLog _) _ _)) fun _ => respects_pure _

theorem respects_syncIfAny {parentId : Uuid} {source : TransactionSource} {ids : List Uuid} :
    (syncIfAny env parentId userId ids source).Respects (Replaces .activityLog x) := by
  unfold syncIfAny syncHashtags
  split
  · exact respects_pure ()
  · split
    · exact respects_cascadeDelete x
    · refine respects_bind (respects_bind (respects_read fun db db' hR => ?_) fun _ =>
        respects_pure _) fun valid => ?_
      · rw [Sql.Db.rows, Sql.Db.rows, hR.table (by simp)]
      · refine respects_bind (respects_raiseIf _ _) fun _ =>
          respects_bind (respects_cascadeDelete x) fun _ => ?_
        exact respects_upsertEach (sameRows_replaces (by simp) _)
          (sameUpdate_replaces (by simp) (refsSkip_activityLog _) _ _)
          (fun r _ => sameInsert_replaces (by simp) (refsSkip_activityLog _) r _) _

/-- No statement of a create reads the log before its entry is written. -/
theorem respects_createItem (item : TransactionCreateRequest) :
    (createItem env userId item).Respects (Replaces .activityLog x) := by
  refine respects_bind (respects_bind ?_ fun o => ?_) fun row => ?_
  · exact respects_insertRow (sameInsert_replaces (by simp) (refsSkip_activityLog _) _ _)
  · exact respects_bind (respects_raiseIf _ _) fun _ => respects_pure _
  · exact respects_bind (respects_syncIfAny x) fun _ => respects_pure _

omit x in
/-- The items of a batch, with the statements of each in one program. -/
theorem createItems_cons (item : TransactionCreateRequest)
    (items : List TransactionCreateRequest) :
    createItems env userId (item :: items) = (do
      let row ← createItem env userId item
      return row :: (← createItems env userId items)) := by
  simp only [createItems, createItem, LawfulMonad.bind_assoc, pure_bind]

theorem respects_createItems (items : List TransactionCreateRequest) :
    (createItems env userId items).Respects (Replaces .activityLog x) := by
  induction items with
  | nil => exact respects_pure []
  | cons item items ih =>
    rw [createItems_cons]
    exact respects_bind (respects_createItem x item) fun _ =>
      respects_bind ih fun _ => respects_pure _

end Log

/-- The hashtags of another parent. -/
theorem hashtagIdsOf_created {item : TransactionCreateRequest} {p : Uuid} (hp : p ≠ item.id) :
    hashtagIdsOf (db.created env userId item) p .ledger = hashtagIdsOf db p .ledger := by
  have hlinks : ((db.created env userId item).rows .transactionHashtags).filter
      (isLiveLink p .ledger) = (db.rows .transactionHashtags).filter (isLiveLink p .ledger) := by
    unfold Db.created Db.tagged
    split
    · simp [Sql.Db.rows]
    · unfold Db.synced Db.cascaded
      rw [Sql.Db.rows, Db.upsert_same, Table.filter_upsert, Db.modify_same, Table.filter_modify]
      · simp [Sql.Db.rows]
      · intro r hr
        simp only [leaves, decide_eq_true_eq] at hr
        simp [isLiveLink, linkMarked, hr.1, hp.symm]
      · intro r hr y hy
        obtain ⟨h, -, rfl⟩ := List.mem_map.mp hr
        have hparent : y.transactionId = item.id := congrArg Prod.fst hy
        simp [isLiveLink, hparent, hp.symm]
  rw [hashtagIdsOf, hashtagIdsOf, hlinks]

theorem hashtagIdsOf_createdAll {items : List TransactionCreateRequest} {p : Uuid}
    (h : CreatedAll env userId items db db') (hp : ∀ item ∈ items, p ≠ item.id) :
    hashtagIdsOf db' p .ledger = hashtagIdsOf db p .ledger := by
  induction h with
  | nil => rfl
  | cons _ _ ih =>
    rw [List.forall_mem_cons] at hp
    rw [ih hp.2, hashtagIdsOf_created hp.1]

/-- Two databases have the same accounts and categories. -/
theorem ItemValid.congr {item : TransactionCreateRequest}
    (ha : db .bankAccounts = db' .bankAccounts) (hc : db .categories = db' .categories)
    (h : ItemValid env userId db item) :
    ItemValid env userId db' item := by
  refine ⟨h.title, h.amount, h.date, ?_, ?_⟩
  · exact (hasActiveAccount_congr (congrArg Table.rows ha)).mp h.account
  · rw [Sql.Db.rows, ← hc]
    exact h.category

/-- The entry of a create. -/
theorem exec_logOne_ok (env : Env) (userId : Uuid) (i : Nat) (response : TransactionResponse) :
    ∃ log : Row .activityLog, ∀ db db',
      exec (logOne env userId i response) db = .ok ((), db') ↔
        Inserts db .activityLog log ∧ db' = db.put .activityLog log :=
  ⟨_, fun _ _ => exec_insertOrAbort_ok⟩

theorem inserts_activityLog_congr {log : Row .activityLog} (hu : db .users = db' .users)
    (hl : db .activityLog = db' .activityLog) :
    Inserts db .activityLog log ↔ Inserts db' .activityLog log := by
  have hrefs : refsOf db.rows .activityLog log = refsOf db'.rows .activityLog log := by
    simp only [refsOf, Sql.Db.rows, hu]
  unfold Inserts Sql.Db.tryInsert
  rw [hl]
  show (if _ then (if _ then _ else if _ then _ else if refsOf db.rows .activityLog log = true then
    _ else _) else _) = _ ↔ _
  rw [hrefs]
  rfl

theorem exec_createItem {item : TransactionCreateRequest} {row : Row .transactions}
    (hv : ItemValid env userId db item)
    (h : exec (createItem env userId item) db = .ok (row, db')) :
    Creatable env userId item db ∧ db' = db.created env userId item ∧
      row = requestedRow env userId item := by
  simp only [createItem, insertTransactionRow, exec_bind_ok, exec_insertRow_ok, exec_raiseIf_ok,
    exec_pure_ok, ne_eq, not_not] at h
  obtain ⟨_, _, ⟨_, _, ⟨hins, rfl⟩, _, _, ⟨rfl, rfl⟩, rfl, rfl⟩, _, _, hsync, rfl, rfl⟩ := h
  obtain ⟨rfl, htags⟩ := exec_syncIfAny hsync
  obtain ⟨c, hc, hid, hw, -⟩ := hv.category
  refine ⟨⟨hv.amount, hv.account, ⟨c, hc, hid, hw⟩, hins, fun x hx => ?_⟩, rfl, rfl⟩
  exact (hasActiveHashtag_congr (by simp)).mp (htags x hx)

theorem createdAll_of_valid {items : List TransactionCreateRequest}
    {rows : List (Row .transactions)} (hv : ∀ item ∈ items, ItemValid env userId db item)
    (h : exec (createItems env userId items) db = .ok (rows, db')) :
    CreatedAll env userId items db db' := by
  refine BatchLemmas.exec_createItems (fun item hitem => ?_) h
  have hvalid := hv item hitem
  obtain ⟨c, hc, hid, hw, -⟩ := hvalid.category
  exact ⟨hvalid.amount, hvalid.account, c, hc, hid, hw⟩

/-- What the rest of a batch leaves alone. -/
theorem kept_by_items {item : TransactionCreateRequest} {items : List TransactionCreateRequest}
    {row : Row .transactions} {rows : List (Row .transactions)} {d : Db}
    (hv : ItemValid env userId db item)
    (hitem : exec (createItem env userId item) db = .ok (row, d))
    (hvs : ∀ x ∈ items, ItemValid env userId d x)
    (hitems : exec (createItems env userId items) d = .ok (rows, db')) :
    db' .activityLog = d .activityLog ∧ db' .users = d .users ∧
      attached db' row = attached d row := by
  have hall := createdAll_of_valid hvs hitems
  obtain ⟨hc, rfl, rfl⟩ := exec_createItem hv hitem
  have hrow : requestedRow env userId item ∈
      (db.created env userId item).rows .transactions := by
    rw [EvolutionLemmas.rows_created hc]
    simp
  refine ⟨EvolutionLemmas.createdAll_ne hall (by simp) (by simp),
    EvolutionLemmas.createdAll_ne hall (by simp) (by simp), ?_⟩
  have hfresh : ∀ x ∈ items, (requestedRow env userId item).id ≠ x.id := fun x hx =>
    ((EvolutionLemmas.rows_createdAll hall).2 x hx).1 _ hrow
  unfold attached
  rw [hashtagIdsOf_createdAll hall hfresh]

theorem attached_put (log : Row .activityLog) :
    attached (db.put .activityLog log) = attached db := by
  funext row
  simp [attached, hashtagIdsOf]

theorem ItemValid.created {item x : TransactionCreateRequest} :
    ItemValid env userId (db.created env userId item) x ↔ ItemValid env userId db x := by
  have ha : db.created env userId item .bankAccounts = db .bankAccounts :=
    EvolutionLemmas.created_ne (by simp) (by simp)
  have hc : db.created env userId item .categories = db .categories :=
    EvolutionLemmas.created_ne (by simp) (by simp)
  exact ⟨ItemValid.congr ha hc, ItemValid.congr ha.symm hc.symm⟩

theorem ItemValid.logged {log : Row .activityLog} {x : TransactionCreateRequest} :
    ItemValid env userId (db.put .activityLog log) x ↔ ItemValid env userId db x :=
  ⟨ItemValid.congr (by simp) (by simp), ItemValid.congr (by simp) (by simp)⟩

theorem exec_logCreated_cons {response : TransactionResponse}
    {responses : List TransactionResponse} {i : Nat} {u : Unit} :
    exec (logCreated env userId (response :: responses) i) db = .ok (u, db') ↔
      ∃ db₁, exec (logOne env userId i response) db = .ok ((), db₁) ∧
        exec (logCreated env userId responses (i + 1)) db₁ = .ok (u, db') := by
  show exec (logOne env userId i response >>= fun _ => logCreated env userId responses (i + 1)) db =
    _ ↔ _
  rw [exec_bind_ok]
  exact ⟨fun ⟨_, h⟩ => h, fun h => ⟨(), h⟩⟩

end BatchRefinementLemmas

/-- Creating the items one after another is checking all of them, inserting all
of them, and logging all of them. The induction is on the items; the log entry
of the first one moves behind the inserts of the rest. -/
theorem exec_createEach {items : List TransactionCreateRequest} {i : Nat} {bodies : List Body} :
    exec (createEach env userId items i) db = .ok (bodies, db') ↔
      (∀ item ∈ items, ItemValid env userId db item) ∧ ∃ rows db₁,
        exec (createItems env userId items) db = .ok (rows, db₁) ∧
          bodies = rows.map (fun row => .transaction (attached db₁ row)) ∧
            exec (logCreated env userId (rows.map (attached db₁)) i) db₁ = .ok ((), db') := by
  induction items generalizing db db' i bodies with
  | nil =>
    simp only [createEach, createItems, exec_pure_ok]
    constructor
    · rintro ⟨rfl, rfl⟩
      exact ⟨by simp, [], _, ⟨rfl, rfl⟩, rfl, rfl⟩
    · rintro ⟨-, _, _, ⟨rfl, rfl⟩, rfl, h⟩
      exact ⟨rfl, (exec_pure_ok.mp h).2⟩
  | cons item items ih =>
    rw [createItems_cons]
    simp only [createEach, exec_bind_ok, exec_createTransaction_iff, ih, exec_pure_ok,
      List.forall_mem_cons]
    constructor
    · rintro ⟨_, _, ⟨hv, row, d, hitem, rfl, hlog⟩, _, _, ⟨hvs, rows, _, hitems, rfl, hlogs⟩,
        rfl, rfl⟩
      obtain ⟨log, hone⟩ := exec_logOne_ok env userId i (attached d row)
      obtain ⟨hins, rfl⟩ := (hone _ _).mp hlog
      -- the rest of the items, run without the entry of the first one
      have hlogged : Replaces .activityLog ((d .activityLog).put log) d
        (d.put .activityLog log) := rfl
      obtain ⟨d', hitems', rfl⟩ := (respects_createItems _ items).ok_right hlogged hitems
      have hvs' : ∀ x ∈ items, ItemValid env userId d x :=
        fun x hx => ItemValid.logged.mp (hvs x hx)
      obtain ⟨hl, hu, hattached⟩ := kept_by_items hv hitem hvs' hitems'
      rw [← hl, ← Db.put, attached_put] at hlogs
      obtain ⟨-, hdb, -⟩ := exec_createItem hv hitem
      refine ⟨⟨hv, fun x hx => ?_⟩, _, d', ⟨row, d, hitem, rows, _, hitems', rfl, rfl⟩, ?_, ?_⟩
      · rw [hdb] at hvs'
        exact ItemValid.created.mp (hvs' x hx)
      · rw [List.map_cons, hattached, ← hl, ← Db.put, attached_put]
      · rw [List.map_cons, hattached, exec_logCreated_cons]
        exact ⟨_, (hone _ _).mpr ⟨(inserts_activityLog_congr hu hl).mpr hins, rfl⟩, hlogs⟩
    · rintro ⟨⟨hv, hvs⟩, _, d', ⟨row, d, hitem, rows, _, hitems, rfl, rfl⟩, rfl, hlogs⟩
      have hvs' : ∀ x ∈ items, ItemValid env userId d x := by
        obtain ⟨-, hdb, -⟩ := exec_createItem hv hitem
        rw [hdb]
        exact fun x hx => ItemValid.created.mpr (hvs x hx)
      obtain ⟨hl, hu, hattached⟩ := kept_by_items hv hitem hvs' hitems
      rw [List.map_cons, hattached, exec_logCreated_cons] at hlogs
      obtain ⟨_, hlog, hlogs⟩ := hlogs
      obtain ⟨log, hone⟩ := exec_logOne_ok env userId i (attached d row)
      obtain ⟨hins, rfl⟩ := (hone _ _).mp hlog
      have hlogged : Replaces .activityLog ((d .activityLog).put log) d
        (d.put .activityLog log) := rfl
      obtain ⟨_, hitems', rfl⟩ := (respects_createItems _ items).ok hlogged hitems
      refine ⟨_, _, ⟨hv, row, d, hitem, rfl,
        (hone _ _).mpr ⟨(inserts_activityLog_congr hu hl).mp hins, rfl⟩⟩, _, _,
        ⟨fun x hx => ItemValid.logged.mpr (hvs' x hx), rows, _, hitems', rfl, ?_⟩, ?_, rfl⟩
      · rwa [← hl, ← Db.put, attached_put]
      · rw [List.map_cons, hattached, ← hl, ← Db.put, attached_put]

/-! ## The two paths -/

namespace BatchRefinementLemmas

/-- Items that are all inserted have distinct ids. -/
theorem nodup_of_createItems {items : List TransactionCreateRequest}
    {rows : List (Row .transactions)} (hv : ∀ item ∈ items, ItemValid env userId db item)
    (h : exec (createItems env userId items) db = .ok (rows, db')) :
    (items.map fun item => item.id).Nodup := by
  have hrows := (EvolutionLemmas.rows_createdAll (createdAll_of_valid hv h)).1
  have hnd : ((db'.rows .transactions).map fun r => r.id).Nodup := (db' .transactions).nodup
  rw [hrows, List.map_append, List.map_map] at hnd
  exact hnd.of_append_right

end BatchRefinementLemmas

/-- A non-empty batch is accepted just when its items, created one after another
in one transaction, all are; it answers the same transactions and leaves the same
database, and a batch that fails leaves every table as it was. -/
theorem batch_refines_creates {items : List TransactionCreateRequest} (hne : items ≠ []) :
    (∀ b db', exec (createBatch env userId items) db = .ok (b, db') ↔
      ∃ created, b = .batch created ∧
        exec (createEach env userId items 0) db = .ok (created.map .transaction, db')) ∧
    ∀ c : Call, c.request = .batchCreateTransactions items →
      (∀ reply db', exec c.handle db ≠ .ok (reply, db')) → step db c = db := by
  refine ⟨fun b db' => ?_, fun c _ hfail => ?_⟩
  · rw [exec_createBatch_iff]
    simp only [exec_createEach]
    constructor
    · rintro ⟨-, hv, -, rows, db₁, hitems, rfl, hlogs⟩
      exact ⟨_, rfl, hv, rows, db₁, hitems, by simp, hlogs⟩
    · rintro ⟨created, rfl, hv, rows, db₁, hitems, hcreated, hlogs⟩
      have hrows : created = rows.map (attached db₁) :=
        List.map_injective_iff.mpr (fun _ _ h => Body.transaction.inj h)
          (hcreated.trans List.map_map.symm)
      exact ⟨hne, hv, nodup_of_createItems hv hitems, rows, db₁, hitems, by rw [hrows], hlogs⟩
  · unfold step
    split
    · next reply db' h => exact absurd h (hfail reply db')
    · rfl

end Batch

namespace Ascii

/-- A dinner and a taxi, on two accounts. -/
def evening : List TransactionCreateRequest := [
  ⟨31, "Dinner".toList, -700, 5, 10, 20, none, []⟩,
  ⟨32, "Taxi".toList, -900, 5, 11, 20, none, []⟩]

end Ascii

open Ascii in
/-- The batch of the evening, and its two creates. -/
theorem batch_refines_creates_evening : ∃ created db',
    exec (createBatch (envAt 9) 1 evening) (run blank setup) = .ok (.batch created, db') ∧
      exec (createEach (envAt 9) 1 evening 0) (run blank setup) =
        .ok (created.map .transaction, db') := by
  have hok : (exec (createBatch (envAt 9) 1 evening) (run blank setup)).isOk = true := by
    decide +kernel
  cases h : exec (createBatch (envAt 9) 1 evening) (run blank setup) with
  | error e =>
    rw [h] at hok
    cases hok
  | ok x =>
    obtain ⟨b, db'⟩ := x
    have hne : evening ≠ [] := by simp [evening]
    obtain ⟨created, rfl, heach⟩ := ((batch_refines_creates hne).1 b db').mp h
    exact ⟨created, db', rfl, heach⟩

end ExpenseEngine
