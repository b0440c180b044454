import ExpenseEngine.Effects.Statements
import ExpenseEngine.Sql.Hoare

/-!
# The audit trail

Every account, category, hashtag, reconciliation, draft and ledger row has log
entries, and the newest of them shows what the row stores. The one statement
that changes a row without an entry for it is the UPDATE by which the deletion
of a reconciliation unlinks its members.

Results:
1. `log_current`: an entry for the changed row restores the trail.
2. `audited_work`: every request keeps the trail current, unless it unlinks.
3. `trail_current`: the trail is current in every run that unlinks nothing.
4. `unlinked_lunch_stale`: a run that unlinks a transaction, after which its
   newest entry still shows the link.
-/

namespace ExpenseEngine

open Sql Sql.Prog

/-! ## What an entry shows -/

/-- The stored fields of a response body: version, `updated_at` and what is
computed on read are blanked. -/
def Body.stored : Body → Body
  | .account r => .account { r with
      version := 0, updatedAt := 0, currentBalanceCents := 0, currentBalanceHomeCents := none }
  | .category r => .category { r with version := 0, updatedAt := 0 }
  | .hashtag r => .hashtag { r with version := 0, updatedAt := 0 }
  | .reconciliation r =>
    .reconciliation { r with version := 0, updatedAt := 0, differenceCents := 0 }
  | .inbox r => .inbox { r with version := 0, updatedAt := 0, hashtagIds := [] }
  | .transaction r => .transaction { r with version := 0, updatedAt := 0, hashtagIds := [] }
  | b => b

/-- The wire representation of an audited row, with nothing in its computed
fields. System categories are seeded without an entry. -/
def wire : (t : Tbl) → Row t → Option Body
  | .bankAccounts, r => some (accountFromRow r 0 none)
  | .categories, r => if r.systemKey = none then some (categoryFromRow r) else none
  | .hashtags, r => some (.hashtag r)
  | .reconciliations, r => some (.reconciliation { r with differenceCents := 0 })
  | .transactionInbox, r => some (.inbox { r with hashtagIds := [] })
  | .transactions, r => some (.transaction { r with hashtagIds := [] })
  | _, _ => none

/-- The `resource_type` of the rows of a table. -/
def Tbl.resourceType : Tbl → String
  | .bankAccounts => "account"
  | .categories => "category"
  | .hashtags => "hashtag"
  | .reconciliations => "reconciliation"
  | .transactionInbox => "inbox"
  | .transactions => "transaction"
  | _ => ""

def Tbl.isAudited : Tbl → Bool
  | .bankAccounts | .categories | .hashtags | .reconciliations | .transactionInbox
  | .transactions => true
  | _ => false

/-- The `resource_id` of an audited row. -/
def rowId : (t : Tbl) → Row t → Uuid
  | .bankAccounts, r => r.id
  | .categories, r => r.id
  | .hashtags, r => r.id
  | .reconciliations, r => r.id
  | .transactionInbox, r => r.id
  | .transactions, r => r.id
  | _, _ => 0

section

variable [Platform] {db db' : Db} {env : Env} {userId : Uuid}

def isEntryOf (resourceType : String) (id : Uuid) (e : Row .activityLog) : Bool :=
  decide (e.resourceType = resourceType ∧ e.resourceId = id)

/-- The after-snapshot of the newest entry, by its stored fields. -/
def lastShown (db : Db) (resourceType : String) (id : Uuid) : Option Body :=
  (((db.rows .activityLog).filter (isEntryOf resourceType id)).getLast?.bind
    fun e => e.afterSnapshot).map Body.stored

/-- The body shows what the row stores. -/
def Shows (t : Tbl) (b : Body) (r : Row t) : Prop :=
  ∀ w, wire t r = some w → b.stored = w.stored

/-- The newest entry for the row shows what it stores. -/
def Logged (db : Db) (t : Tbl) (r : Row t) : Prop :=
  ∀ w, wire t r = some w → lastShown db t.resourceType (rowId t r) = some w.stored

/-- Every audited row but those of `t` with an id in `ids` is logged. -/
def CurrentBut (t : Tbl) (ids : List Uuid) (db : Db) : Prop :=
  ∀ t' (r : Row t'), r ∈ db.rows t' → (t' = t → rowId t' r ∉ ids) → Logged db t' r

/-- The newest entry of every audited row shows what the row stores. -/
def TrailCurrent (db : Db) : Prop := ∀ t (r : Row t), r ∈ db.rows t → Logged db t r

/-- The rows `rs` of `t` have been written and not yet logged; all other rows
are logged. -/
def Unlogged (t : Tbl) (rs : List (Row t)) (db : Db) : Prop :=
  CurrentBut t (rs.map (rowId t)) db ∧ ∀ r ∈ rs, r ∈ db.rows t

namespace AuditLemmas

variable {t : Tbl}

theorem currentBut_nil : CurrentBut t [] db ↔ TrailCurrent db :=
  ⟨fun h t' r hr => h t' r hr fun _ => List.not_mem_nil, fun h t' r hr _ => h t' r hr⟩

theorem unlogged_nil : Unlogged t [] db ↔ TrailCurrent db := by
  simp [Unlogged, currentBut_nil]

theorem unlogged_one {r : Row t} (h : CurrentBut t [rowId t r] db) (hr : r ∈ db.rows t) :
    Unlogged t [r] db :=
  ⟨h, fun _ hx => List.mem_singleton.mp hx ▸ hr⟩

omit [Platform] in
theorem wire_of_not_audited (h : t.isAudited = false) (r : Row t) : wire t r = none := by
  cases t <;> first | rfl | cases h

theorem rowId_apply (f : Change Row t) (h : t.isAudited = true) (r : Row t) :
    rowId t (f.apply r) = rowId t r := by
  cases t <;> first | exact f.key_apply r | cases h

theorem eq_of_rowId (h : t.isAudited = true) {r r' : Row t} (hr : r ∈ db.rows t)
    (hr' : r' ∈ db.rows t) (hid : rowId t r = rowId t r') : r = r' := by
  cases t <;> first | exact Table.eq_of_key_eq hr hr' hid | cases h

omit [Platform] in
theorem resourceType_inj {t t' : Tbl} (h : t.isAudited = true) (h' : t'.isAudited = true)
    (he : t.resourceType = t'.resourceType) : t = t' := by
  cases t <;> cases t' <;>
    first | rfl | exact absurd he (by decide) | exact absurd h' (by decide)

theorem logged_of_not_audited (h : t.isAudited = false) (r : Row t) : Logged db t r := by
  intro w hw
  rw [wire_of_not_audited h] at hw
  cases hw

/-! ### Frames -/

/-- The tables the trail does not depend on. -/
def untracked (t : Tbl) : Prop := t.isAudited = false ∧ t ≠ .activityLog

theorem logged_congr (h : db'.rows .activityLog = db.rows .activityLog) {r : Row t} :
    Logged db' t r ↔ Logged db t r := by
  simp only [Logged, lastShown, h]

theorem currentBut_framed {ids : List Uuid} : Triple.Framed untracked (CurrentBut t ids) := by
  intro db db' h hcur t' r hr hids
  by_cases ht : t'.isAudited = true
  · have hrows : db'.rows t' = db.rows t' := congrArg Table.rows (h t' (by simp [untracked, ht]))
    have hlog : db'.rows .activityLog = db.rows .activityLog :=
      congrArg Table.rows (h .activityLog (by simp [untracked]))
    exact (logged_congr hlog).mpr (hcur t' r (hrows ▸ hr) hids)
  · exact logged_of_not_audited (by simpa using ht) r

theorem trail_framed : Triple.Framed untracked TrailCurrent := fun _ _ h hcur =>
  currentBut_nil.mp (currentBut_framed (t := .users) h (currentBut_nil.mpr hcur))

theorem unlogged_framed (ht : t.isAudited = true) {rs : List (Row t)} :
    Triple.Framed untracked (Unlogged t rs) := by
  intro db db' h hun
  have hrows : db'.rows t = db.rows t := congrArg Table.rows (h t (by simp [untracked, ht]))
  exact ⟨currentBut_framed h hun.1, fun r hr => hrows ▸ hun.2 r hr⟩

/-! ### Writes and entries -/

/-- An UPDATE that changes stored fields only of rows that are to be logged. -/
theorem currentBut_modify {t₀ : Tbl} {ids : List Uuid} (ht : t.isAudited = true)
    {w : Row t → Bool} {f : Change Row t}
    (hf : ∀ r ∈ db.rows t, w r = true → (t = t₀ ∧ rowId t r ∈ ids) ∨
      (wire t (f.apply r)).map Body.stored = (wire t r).map Body.stored)
    (h : CurrentBut t₀ ids db) : CurrentBut t₀ ids (db.modify t w f) := by
  intro t' r hr hids
  have hlog : (db.modify t w f).rows .activityLog = db.rows .activityLog :=
    Db.rows_modify_ne _ _ _ (by rintro rfl; cases ht)
  rw [logged_congr hlog]
  by_cases htt : t' = t
  · subst htt
    rw [Db.rows_modify_same, List.mem_map] at hr
    obtain ⟨r, hr, rfl⟩ := hr
    by_cases hw : w r = true
    · have hid := rowId_apply f ht r
      simp only [hw, if_true, hid] at hids ⊢
      rcases hf r hr hw with ⟨ht₀, hmem⟩ | hkeep
      · exact absurd hmem (hids ht₀)
      · intro b hb
        rw [hb, Option.map_some, eq_comm, Option.map_eq_some_iff] at hkeep
        obtain ⟨b', hb', hbb⟩ := hkeep
        rw [hid, h t' r hr hids b' hb', hbb]
    · simp only [hw] at hids ⊢
      exact h t' r hr hids
  · rw [Db.rows_modify_ne _ _ _ htt] at hr
    exact h t' r hr hids

theorem currentBut_of_trail (h : TrailCurrent db) (ids : List Uuid) : CurrentBut t ids db :=
  fun t' r hr _ => h t' r hr

/-- An INSERT leaves its row to be logged. -/
theorem unlogged_put (ht : t.isAudited = true) {rs : List (Row t)} {r : Row t}
    (hins : db.tryInsert t r (fun _ => false) = some .inserted) (h : Unlogged t rs db) :
    Unlogged t (rs ++ [r]) (db.put t r) := by
  have hrows := Db.rows_put_of_inserted hins
  have hlog : (db.put t r).rows .activityLog = db.rows .activityLog :=
    Db.rows_put_ne _ _ (by rintro rfl; cases ht)
  refine ⟨fun t' x hx hids => ?_, fun x hx => ?_⟩
  · rw [logged_congr hlog]
    by_cases htt : t' = t
    · subst htt
      simp only [List.map_append, List.map_cons, List.map_nil, List.mem_append,
        List.mem_singleton, not_or, forall_const] at hids
      rw [hrows, List.mem_append, List.mem_singleton] at hx
      rcases hx with hx | rfl
      · exact h.1 t' x hx fun _ => hids.1
      · exact absurd rfl hids.2
    · rw [Db.rows_put_ne _ _ htt] at hx
      exact h.1 t' x hx fun he => absurd he htt
  · rw [hrows, List.mem_append]
    exact (List.mem_append.mp hx).imp (h.2 x) id

theorem lastShown_put {e : Row .activityLog} {ty : String} {id : Uuid}
    (hins : db.tryInsert .activityLog e (fun _ => false) = some .inserted) :
    lastShown (db.put .activityLog e) ty id =
      if isEntryOf ty id e then e.afterSnapshot.map Body.stored else lastShown db ty id := by
  rw [lastShown, Db.rows_put_of_inserted hins, List.filter_append, List.filter_singleton]
  cases he : isEntryOf ty id e <;> simp [lastShown]

/-- An entry that shows a row logs it, and changes nothing for other rows. -/
theorem currentBut_log (ht : t.isAudited = true) {ids : List Uuid} {id : Uuid} {b : Body}
    {e : Row .activityLog} (hins : db.tryInsert .activityLog e (fun _ => false) = some .inserted)
    (htype : e.resourceType = t.resourceType) (hid : e.resourceId = id)
    (hafter : e.afterSnapshot = some b) (hb : ∀ r ∈ db.rows t, rowId t r = id → Shows t b r)
    (h : CurrentBut t (id :: ids) db) : CurrentBut t ids (db.put .activityLog e) := by
  intro t' r hr hids w hw
  have haudited : t'.isAudited = true := by
    by_contra hno
    rw [wire_of_not_audited (by simpa using hno)] at hw
    cases hw
  have hr' : r ∈ db.rows t' := by
    rwa [Db.rows_put_ne _ _ (by rintro rfl; cases haudited)] at hr
  rw [lastShown_put hins]
  split
  · next he =>
    obtain ⟨hty, hid'⟩ := of_decide_eq_true he
    obtain rfl := resourceType_inj haudited ht (hty.symm.trans htype)
    rw [hafter, Option.map_some, hb r hr' (hid'.symm.trans hid) w hw]
  · next he =>
    refine h t' r hr' ?_ w hw
    rintro rfl hmem
    rcases List.mem_cons.mp hmem with hid' | hmem
    · exact he (decide_eq_true ⟨htype, hid.trans hid'.symm⟩)
    · exact hids rfl hmem

/-- An entry of another resource type changes nothing. -/
theorem trail_logOther {e : Row .activityLog}
    (hins : db.tryInsert .activityLog e (fun _ => false) = some .inserted)
    (htype : ∀ t : Tbl, t.isAudited = true → e.resourceType ≠ t.resourceType)
    (h : TrailCurrent db) : TrailCurrent (db.put .activityLog e) := by
  intro t r hr w hw
  have haudited : t.isAudited = true := by
    by_contra hno
    rw [wire_of_not_audited (by simpa using hno)] at hw
    cases hw
  rw [Db.rows_put_ne _ _ (by rintro rfl; cases haudited)] at hr
  rw [lastShown_put hins, if_neg]
  · exact h t r hr w hw
  · exact fun he => htype t haudited (of_decide_eq_true he).1

/-! ### The statements of a service -/

variable {r : Row t} {rs : List (Row t)} {α : Type} {Q : α → Db → Prop}

/-- A read, or a write to the junction table. -/
theorem trail_skip {β : Type} {p : Op β} {g : β → Op α} (hp : p.WritesOnly untracked)
    (hg : ∀ x, Triple TrailCurrent (g x) Q) : Triple TrailCurrent (p >>= g) Q :=
  Triple.skip hp trail_framed hg

theorem unlogged_skip {β : Type} {p : Op β} {g : β → Op α} (ht : t.isAudited = true)
    (hp : p.WritesOnly untracked) (hg : ∀ x, Triple (Unlogged t rs) (g x) Q) :
    Triple (Unlogged t rs) (p >>= g) Q :=
  Triple.skip hp (unlogged_framed ht) hg

theorem unlogged_logRow {logId resourceId : Uuid} {resourceType : String}
    {action : ActivityAction} {before : Option Body} {b : Body} (ht : t.isAudited = true)
    (htype : resourceType = t.resourceType) (hid : resourceId = rowId t r) (hb : Shows t b r) :
    Triple (Unlogged t (r :: rs))
      (writeActivityLog env logId userId resourceType resourceId action before (some b))
      fun _ => Unlogged t rs := by
  refine Triple.insertOrAbort fun db h hins => ?_
  have hrows : ∀ e, (db.put .activityLog e).rows t = db.rows t := fun e =>
    Db.rows_put_ne _ _ (by rintro rfl; cases ht)
  refine ⟨currentBut_log ht hins htype hid rfl (fun r' hr' hid' => ?_) h.1, fun x hx => ?_⟩
  · rwa [eq_of_rowId ht hr' (h.2 r List.mem_cons_self) hid']
  · exact (hrows _).symm ▸ h.2 x (List.mem_cons_of_mem _ hx)

/-- The entry of the row, the last statement of a service. -/
theorem trail_log {logId resourceId : Uuid} {resourceType : String} {action : ActivityAction}
    {before : Option Body} {b b' : Body} (ht : t.isAudited = true)
    (htype : resourceType = t.resourceType) (hid : resourceId = rowId t r) (hb : Shows t b r) :
    Triple (Unlogged t [r])
      (do
        writeActivityLog env logId userId resourceType resourceId action before (some b)
        return b')
      fun _ => TrailCurrent :=
  (unlogged_logRow ht htype hid hb).bind fun _ => Triple.pure fun _ => unlogged_nil.mp

theorem trail_logOther' {logId resourceId : Uuid} {resourceType : String}
    {action : ActivityAction} {before after : Option Body}
    (htype : ∀ t : Tbl, t.isAudited = true → resourceType ≠ t.resourceType) :
    Triple TrailCurrent
      (writeActivityLog env logId userId resourceType resourceId action before after)
      fun _ => TrailCurrent :=
  Triple.insertOrAbort fun _ h hins => trail_logOther hins htype h

/-- `UPDATE … RETURNING *` of one row, and the error when there is none. -/
theorem trail_updateRow {id : Uuid} {w : Row t → Bool} {f : Change Row t} {e : AppError}
    {g : Row t → Op α} (ht : t.isAudited = true) (hw : ∀ r, w r = true → rowId t r = id)
    (hg : ∀ r, rowId t r = id → Triple (Unlogged t [r]) (g r) Q) :
    Triple TrailCurrent (updateRow t w f >>= fun o => orRaise o e >>= g) Q := by
  intro db a db' h he
  simp only [exec_bind_ok, exec_orRaise_ok] at he
  obtain ⟨o, _, hupd, r', _, ⟨rfl, rfl⟩, he⟩ := he
  obtain ⟨hfind, rfl⟩ := exec_updateRow hupd
  obtain ⟨r, hr, rfl⟩ := Option.map_eq_some_iff.mp hfind.symm
  obtain ⟨hmem, hwr⟩ := find?_row hr
  have hid : rowId t (f.apply r) = id := (rowId_apply f ht r).trans (hw r hwr)
  refine hg _ hid (unlogged_one ?_ ?_) he
  · rw [hid]
    refine currentBut_modify ht (fun r _ hr => .inl ⟨rfl, ?_⟩) (currentBut_of_trail h _)
    exact List.mem_singleton.mpr (hw r hr)
  · rw [Db.rows_modify_same, List.mem_map]
    exact ⟨r, hmem, by rw [if_pos hwr]⟩

/-- An INSERT and the error when a row is in its way. -/
theorem unlogged_insertRow {e : AppError} {g : Op α} (ht : t.isAudited = true)
    (hg : Triple (Unlogged t (rs ++ [r])) g Q) :
    Triple (Unlogged t rs)
      (insertRow t r >>= fun o => raiseIf (o ≠ .inserted) e >>= fun _ => g) Q := by
  refine (Triple.insertRow fun db h hins => unlogged_put ht hins h).bind fun o => ?_
  refine (Triple.raiseIf.bind fun _ => ?_)
  refine hg.weaken (fun db h => h.1 ?_) fun _ _ h => h
  simpa using h.2

theorem trail_unlogged {p : Op α} (h : Triple (Unlogged t []) p Q) : Triple TrailCurrent p Q :=
  h.weaken (fun _ h => unlogged_nil.mpr h) fun _ _ h => h

theorem trail_insertRow {e : AppError} {g : Op α} (ht : t.isAudited = true)
    (hg : Triple (Unlogged t [r]) g Q) :
    Triple TrailCurrent
      (insertRow t r >>= fun o => raiseIf (o ≠ .inserted) e >>= fun _ => g) Q :=
  trail_unlogged (unlogged_insertRow ht hg)

end AuditLemmas

open AuditLemmas StatementLemmas EffectLemmas

/-! ## Ledger transactions -/

omit [Platform] in
theorem shows_attached {r : Row .transactions} {ids : List Uuid} :
    Shows .transactions (.transaction { r with hashtagIds := ids }) r := by
  rintro _ ⟨⟩
  rfl

/-- A snapshot with its hashtags, before the rest. -/
theorem unlogged_attach {α : Type} {Q : α → Db → Prop} {rs : List (Row .transactions)}
    {r : Row .transactions} {g : TransactionResponse → Op α}
    (hg : ∀ ids, Triple (Unlogged .transactions rs) (g { r with hashtagIds := ids }) Q) :
    Triple (Unlogged .transactions rs) (attachHashtagIds r >>= g) Q := by
  rw [attachHashtagIds, LawfulMonad.bind_assoc]
  exact unlogged_skip rfl readOnly_fetchHashtagIds hg

omit [Platform] in
theorem untracked_links : untracked .transactionHashtags := ⟨rfl, by simp⟩

theorem writesOnly_cascadeDelete {W : Tbl → Prop} (h : W .transactionHashtags) {parentId : Uuid}
    {source : TransactionSource} {keep : List Uuid} :
    (cascadeDelete env userId parentId source keep).WritesOnly W :=
  WritesOnly.bind (writesOnly_updateWhere h) fun _ => trivial

theorem writesOnly_cascadeRestore {W : Tbl → Prop} (h : W .transactionHashtags) {parentId : Uuid}
    {source : TransactionSource} {marker : Option Timestamp} :
    (cascadeRestore env userId parentId source marker).WritesOnly W :=
  WritesOnly.bind (writesOnly_updateWhere h) fun _ => trivial

theorem writesOnly_syncHashtags {W : Tbl → Prop} (h : W .transactionHashtags) {parentId : Uuid}
    {source : TransactionSource} {ids : List Uuid} :
    (syncHashtags env parentId userId ids source).WritesOnly W := by
  unfold syncHashtags
  split
  · exact writesOnly_cascadeDelete h
  · refine WritesOnly.bind readOnly_fetchValidHashtags fun _ => ?_
    refine WritesOnly.bind (writesOnly_raiseIf _ _) fun _ => ?_
    exact WritesOnly.bind (writesOnly_cascadeDelete h) fun _ => writesOnly_upsertEach h

theorem writesOnly_syncIfAny {W : Tbl → Prop} (h : W .transactionHashtags) {parentId : Uuid}
    {source : TransactionSource} {ids : List Uuid} :
    (syncIfAny env parentId userId ids source).WritesOnly W := by
  unfold syncIfAny
  split
  · trivial
  · exact writesOnly_syncHashtags h

theorem writesOnly_syncIfGiven {W : Tbl → Prop} (h : W .transactionHashtags) {parentId : Uuid}
    {source : TransactionSource} {ids : Option (List Uuid)} :
    (syncIfGiven env parentId userId ids source).WritesOnly W := by
  cases ids with
  | none => trivial
  | some ids => exact writesOnly_syncHashtags h

theorem unlogged_insertTransactionRow {rs : List (Row .transactions)}
    {id accountId categoryId : Uuid} {title : Text} {description : Option Text} {cents : Int}
    {ty : TransactionType} {date : Timestamp} {inboxId : Option Uuid} {α : Type} {Q : α → Db → Prop}
    {g : Row .transactions → Op α}
    (hg : ∀ r, Triple (Unlogged .transactions (rs ++ [r])) (g r) Q) :
    Triple (Unlogged .transactions rs)
      (insertTransactionRow env userId id title description cents ty date accountId categoryId
        inboxId >>= g) Q := by
  simp only [insertTransactionRow, LawfulMonad.bind_assoc, pure_bind]
  exact unlogged_insertRow rfl (hg _)

theorem audited_createTransaction {body : TransactionCreateRequest} {allowSystem : Bool} :
    Triple TrailCurrent (createTransaction env userId body allowSystem) fun _ => TrailCurrent := by
  unfold createTransaction
  refine trail_skip readOnly_dbNow fun now => ?_
  refine trail_skip (writesOnly_raiseIf _ _) fun _ => ?_
  refine trail_skip readOnly_validateActiveAccount fun _ => ?_
  refine trail_skip readOnly_validateActiveCategory fun category => ?_
  refine trail_skip (writesOnly_raiseIf _ _) fun _ => ?_
  refine trail_unlogged (unlogged_insertTransactionRow fun row => ?_)
  refine unlogged_skip rfl (writesOnly_syncIfAny untracked_links) fun _ => ?_
  exact unlogged_attach fun ids => trail_log rfl rfl rfl shows_attached

theorem audited_updateTransaction {id : Uuid} {fields : TransactionFields}
    {hashtagIds : Option (List Uuid)} {reconId : Sent Uuid} :
    Triple TrailCurrent (updateTransaction env userId id fields hashtagIds reconId)
      fun _ => TrailCurrent := by
  unfold updateTransaction
  split
  · refine trail_skip readOnly_fetchOwnedRowOr404 fun row => ?_
    exact trail_skip readOnly_attachHashtagIds fun _ => Triple.pure fun _ h => h
  · refine trail_skip readOnly_lockOwnedRowOr404 fun beforeRow => ?_
    refine trail_skip readOnly_attachHashtagIds fun before => ?_
    refine trail_skip readOnly_checkCompletedLock fun _ => ?_
    refine trail_skip readOnly_checkAssignment fun _ => ?_
    refine trail_skip readOnly_rejectZeroAmount fun _ => ?_
    refine trail_skip readOnly_validateNewAccount fun _ => ?_
    refine trail_skip readOnly_validateNewCategory fun _ => ?_
    refine trail_skip readOnly_normalizeNewTitle fun title => ?_
    refine trail_skip readOnly_validateNewDate fun _ => ?_
    refine trail_updateRow rfl (fun r hr => (owns_active.mp hr).1) fun afterRow hid => ?_
    refine unlogged_skip rfl (writesOnly_syncIfGiven untracked_links) fun _ => ?_
    exact unlogged_attach fun ids => trail_log rfl rfl hid.symm shows_attached

theorem audited_deleteTransaction {id : Uuid} :
    Triple TrailCurrent (deleteTransaction env userId id) fun _ => TrailCurrent := by
  unfold deleteTransaction
  refine trail_skip readOnly_lockOwnedRowOr404 fun row => ?_
  refine trail_skip readOnly_checkNotCompleted fun _ => ?_
  refine trail_skip readOnly_attachHashtagIds fun before => ?_
  refine trail_updateRow rfl (fun r hr => (owns_either.mp hr).1) fun afterRow hid => ?_
  refine unlogged_skip rfl (writesOnly_cascadeDelete untracked_links) fun _ => ?_
  exact unlogged_attach fun ids => trail_log rfl rfl hid.symm shows_attached

theorem audited_restoreTransaction {id : Uuid} :
    Triple TrailCurrent (restoreTransaction env userId id) fun _ => TrailCurrent := by
  unfold restoreTransaction
  refine trail_skip readOnly_lockOwnedRowOr404 fun row => ?_
  refine trail_skip readOnly_activeAccountRow fun account => ?_
  refine trail_skip readOnly_activeCategoryRow fun category => ?_
  refine trail_skip (writesOnly_raiseIf _ _) fun _ => ?_
  refine trail_skip readOnly_decideUnlink fun warning => ?_
  refine trail_skip readOnly_attachHashtagIds fun before => ?_
  refine trail_updateRow rfl (fun r hr => (owns_either.mp hr).1) fun afterRow hid => ?_
  refine unlogged_skip rfl (writesOnly_cascadeRestore untracked_links) fun _ => ?_
  exact unlogged_attach fun ids => trail_log rfl rfl hid.symm shows_attached

/-! ### Batches -/

theorem unlogged_createItems {items : List TransactionCreateRequest}
    {rs : List (Row .transactions)} :
    Triple (Unlogged .transactions rs) (createItems env userId items)
      fun rows => Unlogged .transactions (rs ++ rows) := by
  induction items generalizing rs with
  | nil => exact Triple.pure fun _ h => by rwa [List.append_nil]
  | cons item items ih =>
    unfold createItems
    refine unlogged_insertTransactionRow fun row => ?_
    refine unlogged_skip rfl (writesOnly_syncIfAny untracked_links) fun _ => ?_
    refine ih.bind fun rows => Triple.pure fun db h => ?_
    rwa [List.append_assoc] at h

theorem unlogged_logCreated {responses : List TransactionResponse} {i : Nat} :
    Triple (Unlogged .transactions (responses.map fun r => r.toTransactionRow))
      (logCreated env userId responses i) fun _ => TrailCurrent := by
  induction responses generalizing i with
  | nil => exact Triple.pure fun _ => unlogged_nil.mp
  | cons response responses ih =>
    unfold logCreated
    exact (unlogged_logRow rfl rfl rfl shows_attached).bind fun _ => ih

theorem rows_attachedAll (db : Db) (rows : List (Row .transactions)) :
    (rows.map fun row => ({ row with hashtagIds := hashtagIdsOf db row.id .ledger } :
      TransactionResponse)).map (fun r => r.toTransactionRow) = rows := by
  rw [List.map_map]
  exact List.map_id rows

theorem audited_createBatch {items : List TransactionCreateRequest} :
    Triple TrailCurrent (createBatch env userId items) fun _ => TrailCurrent := by
  unfold createBatch
  refine trail_skip (writesOnly_raiseIf _ _) fun _ => ?_
  refine trail_skip readOnly_dbNow fun now => ?_
  refine trail_skip readOnly_activeAccountIds fun accounts => ?_
  refine trail_skip readOnly_activeCategoryIds fun categories => ?_
  refine trail_skip (writesOnly_raiseIf _ _) fun _ => ?_
  refine trail_unlogged (unlogged_createItems.bind fun rows => ?_)
  refine Triple.read.bind fun created => ?_
  refine (unlogged_logCreated.weaken ?_ fun _ _ h => h).bind fun _ => Triple.pure fun _ h => h
  rintro db ⟨h, rfl⟩
  exact (rows_attachedAll db rows).symm ▸ h

/-! ## Drafts -/

omit [Platform] in
theorem shows_attachedDraft {r : Row .transactionInbox} {ids : List Uuid} :
    Shows .transactionInbox (.inbox { r with hashtagIds := ids }) r := by
  rintro _ ⟨⟩
  rfl

theorem unlogged_attachDraft {α : Type} {Q : α → Db → Prop} {rs : List (Row .transactionInbox)}
    {r : Row .transactionInbox} {g : InboxResponse → Op α}
    (hg : ∀ ids, Triple (Unlogged .transactionInbox rs) (g { r with hashtagIds := ids }) Q) :
    Triple (Unlogged .transactionInbox rs) (attachInboxHashtagIds r >>= g) Q := by
  rw [attachInboxHashtagIds, LawfulMonad.bind_assoc]
  exact unlogged_skip rfl readOnly_fetchHashtagIds hg

theorem audited_createInboxItem {body : InboxCreateRequest} :
    Triple TrailCurrent (createInboxItem env userId body) fun _ => TrailCurrent := by
  unfold createInboxItem
  refine trail_skip readOnly_rejectZeroAmount fun _ => ?_
  refine trail_skip readOnly_validateDraftAccount fun _ => ?_
  refine trail_skip readOnly_validateDraftCategory fun _ => ?_
  refine trail_insertRow rfl ?_
  refine unlogged_skip rfl (writesOnly_syncIfAny untracked_links) fun _ => ?_
  exact unlogged_attachDraft fun ids => trail_log rfl rfl rfl shows_attachedDraft

theorem audited_updateInboxItem {id : Uuid} {body : InboxUpdateRequest} :
    Triple TrailCurrent (updateInboxItem env userId id body) fun _ => TrailCurrent := by
  unfold updateInboxItem
  refine trail_skip readOnly_liftExcept fun fields => ?_
  show Triple _ (if _ then _ else _) _
  split
  · refine trail_skip readOnly_fetchOwnedRowOr404 fun row => ?_
    exact trail_skip readOnly_attachInboxHashtagIds fun _ => Triple.pure fun _ h => h
  · refine trail_skip readOnly_rejectZeroAmount fun _ => ?_
    refine trail_skip readOnly_lockOwnedRowOr404 fun beforeRow => ?_
    refine trail_skip readOnly_attachInboxHashtagIds fun before => ?_
    refine trail_skip readOnly_validateDraftAccount fun _ => ?_
    refine trail_skip readOnly_validateDraftCategory fun _ => ?_
    refine trail_updateRow rfl (fun r hr => (owns_active.mp hr).1) fun afterRow hid => ?_
    refine unlogged_skip rfl (writesOnly_syncIfGiven untracked_links) fun _ => ?_
    exact unlogged_attachDraft fun ids => trail_log rfl rfl hid.symm shows_attachedDraft

theorem audited_deleteInboxItem {id : Uuid} :
    Triple TrailCurrent (deleteInboxItem env userId id) fun _ => TrailCurrent := by
  unfold deleteInboxItem
  refine trail_skip readOnly_fetchOwnedRowOr404 fun row => ?_
  refine trail_skip readOnly_attachInboxHashtagIds fun before => ?_
  refine trail_updateRow rfl (fun r hr => (owns_either.mp hr).1) fun afterRow hid => ?_
  refine unlogged_skip rfl (writesOnly_cascadeDelete untracked_links) fun _ => ?_
  exact unlogged_attachDraft fun ids => trail_log rfl rfl hid.symm shows_attachedDraft

/-- Two rows change, one after the other, and each gets its entry. -/
theorem audited_promoteInboxItem {id targetId : Uuid} :
    Triple TrailCurrent (promoteInboxItem env userId id targetId) fun _ => TrailCurrent := by
  unfold promoteInboxItem
  refine trail_skip readOnly_fetchRowForUpdate fun _ => ?_
  refine trail_skip (writesOnly_orRaise _ _) fun inboxRow => ?_
  refine trail_skip readOnly_fetchHashtagIds fun tags => ?_
  refine trail_skip readOnly_dbNow fun now => ?_
  refine trail_skip readOnly_promoteAccount fun account => ?_
  refine trail_skip readOnly_promoteCategory fun category => ?_
  refine trail_skip (writesOnly_raiseIf _ _) fun _ => ?_
  refine trail_skip (writesOnly_orRaise _ _) fun ty => ?_
  refine trail_unlogged (unlogged_insertTransactionRow fun row => ?_)
  refine unlogged_skip rfl (writesOnly_syncIfAny untracked_links) fun _ => ?_
  refine unlogged_attach fun ids => ?_
  refine (unlogged_logRow rfl rfl rfl shows_attached).bind fun _ => ?_
  refine Triple.weaken ?_ (fun _ => unlogged_nil.mp) fun _ _ h => h
  refine trail_updateRow rfl (fun r hr => (owns_either.mp hr).1) fun afterRow hid => ?_
  refine unlogged_skip rfl (writesOnly_cascadeDelete untracked_links) fun _ => ?_
  exact unlogged_attachDraft fun ids => trail_log rfl rfl hid.symm shows_attachedDraft

/-! ## Reconciliations -/

omit [Platform] in
theorem shows_difference {r : Row .reconciliations} {n : Int} :
    Shows .reconciliations (.reconciliation { r with differenceCents := n }) r := by
  rintro _ ⟨⟩
  rfl

/-- The after-snapshot of a written reconciliation is read from its row. -/
theorem trail_fetchReconciliation {α : Type} {Q : α → Db → Prop} {l : Label} {id : Uuid}
    {s : RowState} {e : AppError} {g : ReconciliationResponse → Op α}
    (hg : ∀ (r : Row .reconciliations) n, r.id = id →
      Triple (Unlogged .reconciliations [r]) (g { r with differenceCents := n }) Q) :
    Triple (CurrentBut .reconciliations [id])
      (fetchReconciliation l userId id s >>= fun o => orRaise o e >>= g) Q := by
  intro db a db' h he
  simp only [exec_bind_ok, exec_orRaise_ok] at he
  obtain ⟨o, _, hfetch, row, _, ⟨rfl, rfl⟩, he⟩ := he
  obtain ⟨rfl, hmem, hw, -⟩ := exec_fetchReconciliation_some hfetch
  have hid : row.id = id := by
    simp only [owns, Bool.and_eq_true, decide_eq_true_eq] at hw
    exact hw.1.1
  refine hg row.toReconciliationRow row.differenceCents hid (unlogged_one ?_ hmem) he
  rwa [show rowId .reconciliations row.toReconciliationRow = id from hid]

theorem unlogged_fetchReconciliation {α : Type} {Q : α → Db → Prop} {r : Row .reconciliations}
    {l : Label} {id : Uuid} {s : RowState} {e : AppError} {g : ReconciliationResponse → Op α}
    (hid : r.id = id) (hg : ∀ (r : Row .reconciliations) n, r.id = id →
      Triple (Unlogged .reconciliations [r]) (g { r with differenceCents := n }) Q) :
    Triple (Unlogged .reconciliations [r])
      (fetchReconciliation l userId id s >>= fun o => orRaise o e >>= g) Q :=
  (trail_fetchReconciliation hg).weaken (fun _ h => hid ▸ h.1) fun _ _ h => h

theorem audited_createReconciliation {body : ReconciliationCreateRequest} :
    Triple TrailCurrent (createReconciliation env userId body) fun _ => TrailCurrent := by
  unfold createReconciliation
  refine trail_skip readOnly_validateActiveAccount fun _ => ?_
  refine trail_skip readOnly_normalizeName fun name => ?_
  refine trail_insertRow rfl ?_
  refine unlogged_fetchReconciliation rfl fun r n hid => ?_
  exact trail_log rfl rfl hid.symm shows_difference

theorem audited_updateReconciliation {id : Uuid} {fields : ReconciliationFields} :
    Triple TrailCurrent (updateReconciliation env userId id fields) fun _ => TrailCurrent := by
  unfold updateReconciliation
  split
  · refine trail_skip writesOnly_fetchReconciliation fun _ => ?_
    exact trail_skip (writesOnly_orRaise _ _) fun _ => Triple.pure fun _ h => h
  · refine trail_skip readOnly_normalizeNewName fun name => ?_
    refine trail_skip writesOnly_fetchReconciliation fun _ => ?_
    refine trail_skip (writesOnly_orRaise _ _) fun before => ?_
    refine trail_skip (writesOnly_raiseIf _ _) fun _ => ?_
    refine trail_updateRow rfl (fun r hr => (owns_active.mp hr).1) fun afterRow hid => ?_
    refine unlogged_fetchReconciliation hid fun r n hid => ?_
    exact trail_log rfl rfl hid.symm shows_difference

/-- Completing and reverting move the versions of the members, which no snapshot
has to show. -/
theorem audited_transitionStatus {id : Uuid} {target : ReconciliationStatus} {assigned : Bool} :
    Triple TrailCurrent (transitionStatus env userId id target assigned) fun _ => TrailCurrent := by
  unfold transitionStatus
  refine trail_skip writesOnly_fetchReconciliation fun _ => ?_
  refine trail_skip (writesOnly_orRaise _ _) fun row => ?_
  show Triple _ (if _ then _ else _) _
  split
  · exact Triple.pure fun _ h => h
  · refine trail_skip (writesOnly_selectForUpdate _ _ _) fun assignedTxns => ?_
    refine trail_skip (writesOnly_raiseIf _ _) fun _ => ?_
    refine (Triple.updateWhere (Q := fun _ => CurrentBut .reconciliations [id])
      fun db h => ?_).bind fun _ => ?_
    · refine currentBut_modify rfl (fun r _ hr => .inl ⟨rfl, ?_⟩) (currentBut_of_trail h _)
      exact List.mem_singleton.mpr (owns_either.mp hr).1
    refine (Triple.updateWhere (Q := fun _ => CurrentBut .reconciliations [id])
      fun db h => currentBut_modify rfl (fun _ _ _ => .inr rfl) h).bind fun _ => ?_
    refine trail_fetchReconciliation fun r n hid => ?_
    exact trail_log rfl rfl hid.symm shows_difference

/-! ## Deletion and restoration through the shared helpers -/

/-- The serializer of the row `id` answers with a body of the row it gets. -/
def Serializes (t : Tbl) (id : Uuid) (serialize : Row t → Op Body) : Prop :=
  ∀ r, rowId t r = id →
    Triple (Unlogged t [r]) (serialize r) fun b db => Unlogged t [r] db ∧ Shows t b r

theorem serializes_pure {t : Tbl} {id : Uuid} {f : Row t → Body} (h : ∀ r, Shows t (f r) r) :
    Serializes t id fun r => pure (f r) :=
  fun r _ => Triple.pure fun _ hun => ⟨hun, h r⟩

theorem serializes_refetch {id : Uuid} {s : RowState} :
    Serializes .reconciliations id fun _ => refetchReconciliation userId id s := by
  intro r hid db b db' h he
  simp only [refetchReconciliation, exec_bind_ok, exec_orRaise_ok, exec_pure_ok] at he
  obtain ⟨o, _, hfetch, row, _, ⟨rfl, rfl⟩, rfl, rfl⟩ := he
  obtain ⟨rfl, hmem, hw, -⟩ := exec_fetchReconciliation_some hfetch
  have hid' : row.id = id := by
    simp only [owns, Bool.and_eq_true, decide_eq_true_eq] at hw
    exact hw.1.1
  obtain rfl : row.toReconciliationRow = r :=
    eq_of_rowId (t := .reconciliations) rfl hmem (h.2 r List.mem_cons_self) (hid'.trans hid.symm)
  exact ⟨h, shows_difference⟩

theorem audited_mutateWithAudit {t : Tbl} [OwnedTable t] {row : Row t} {resourceType : String}
    {before : Body} {serialize : Row t → Op Body} {action : ActivityAction}
    {mutate : Uuid → Uuid → Op (Option (Row t))} {w : Row t → Bool} {f : Change Row t}
    (ht : t.isAudited = true) (htype : resourceType = t.resourceType)
    (hmutate : mutate (OwnedTable.resource row).id userId = updateRow t w f)
    (hw : ∀ r, w r = true → rowId t r = (OwnedTable.resource row).id)
    (hser : Serializes t (OwnedTable.resource row).id serialize) :
    Triple TrailCurrent
      (mutateWithAudit env userId t resourceType row before serialize mutate action)
      fun _ => TrailCurrent := by
  simp only [mutateWithAudit, hmutate]
  refine trail_updateRow ht hw fun r hid => ?_
  refine (hser r hid).bind fun b => Triple.assume fun hb => ?_
  exact trail_log ht htype hid.symm hb

section Audited

variable {t : Tbl} [OwnedTable t] {row : Row t} {resourceType : String} {before : Body}
  {serialize : Row t → Op Body}

theorem audited_softDelete (ht : t.isAudited = true) (htype : resourceType = t.resourceType)
    (hid : ∀ r : Row t, (OwnedTable.resource r).id = rowId t r)
    (hser : Serializes t (OwnedTable.resource row).id serialize) :
    Triple TrailCurrent (softDeleteWithAudit env userId t resourceType row before serialize)
      fun _ => TrailCurrent :=
  audited_mutateWithAudit ht htype rfl
    (fun r hr => (hid r).symm.trans (owns_either.mp hr).1) hser

theorem audited_restore (ht : t.isAudited = true) (htype : resourceType = t.resourceType)
    (hid : ∀ r : Row t, (OwnedTable.resource r).id = rowId t r)
    (hser : Serializes t (OwnedTable.resource row).id serialize) :
    Triple TrailCurrent (restoreWithAudit env userId t resourceType row before serialize)
      fun _ => TrailCurrent :=
  audited_mutateWithAudit ht htype rfl
    (fun r hr => (hid r).symm.trans (owns_deleted.mp hr).1) hser

end Audited

/-- The deletion of the reconciliation unlinks no transaction: it has no active
member, or it is not deleted at all. -/
def UnlinksNothing (userId reconciliationId : Uuid) (db : Db) : Prop :=
  ∀ rec ∈ db.rows .reconciliations,
    owns .reconciliations reconciliationId userId .active rec = true → rec.status = .draft →
      ∀ r ∈ db.rows .transactions, isMember reconciliationId userId r = false

theorem audited_deleteReconciliation {id : Uuid} :
    Triple (fun db => TrailCurrent db ∧ UnlinksNothing userId id db)
      (deleteReconciliation env userId id) fun _ => TrailCurrent := by
  intro db b db' h he
  simp only [deleteReconciliation, exec_bind_ok, exec_orRaise_ok, exec_raiseIf_ok] at he
  obtain ⟨o, _, hfetch, row, _, ⟨rfl, rfl⟩, _, _, ⟨hstatus, rfl⟩, _, db₁, hupd, he⟩ := he
  obtain ⟨rfl, hmem, hw, -⟩ := exec_fetchReconciliation_some hfetch
  obtain ⟨-, rfl⟩ := exec_updateWhere hupd
  have hdraft : row.status = .draft := by
    cases hs : row.status with
    | draft => rfl
    | completed => exact absurd hs hstatus
  have hno := h.2 row.toReconciliationRow hmem hw hdraft
  have htrail := currentBut_modify (f := bumped .transactions env.now setUnassigned) rfl
    (fun r hr hr' => absurd ((hno r hr).symm.trans hr') (by decide))
    (currentBut_nil (t := .users).mpr h.1)
  have hid : row.id = id := (owns_active.mp hw).1
  exact audited_softDelete rfl rfl (fun _ => rfl) (hid ▸ serializes_refetch)
    (currentBut_nil.mp htrail) he

theorem audited_restoreReconciliation {id : Uuid} :
    Triple TrailCurrent (restoreReconciliation env userId id) fun _ => TrailCurrent := by
  intro db b db' h he
  simp only [restoreReconciliation, exec_bind_ok, exec_orRaise_ok] at he
  obtain ⟨o, _, hfetch, row, _, ⟨rfl, rfl⟩, he⟩ := he
  obtain ⟨rfl, -, hw, -⟩ := exec_fetchReconciliation_some hfetch
  have hid : row.id = id := (owns_deleted.mp hw).1
  exact audited_restore rfl rfl (fun _ => rfl) (hid ▸ serializes_refetch) h he

/-! ## Accounts, categories and hashtags -/

omit [Platform] in
theorem shows_account {r : Row .bankAccounts} {n : Int} {home : Option Int} :
    Shows .bankAccounts (accountFromRow r n home) r := by
  rintro _ ⟨⟩
  rfl

omit [Platform] in
theorem shows_category {r : Row .categories} : Shows .categories (categoryFromRow r) r := by
  intro w hw
  change (if r.systemKey = none then some (categoryFromRow r) else none) = some w at hw
  split at hw
  · cases hw
    rfl
  · cases hw

omit [Platform] in
theorem shows_hashtag {r : Row .hashtags} : Shows .hashtags (.hashtag r) r := by
  rintro _ ⟨⟩
  rfl

theorem audited_createAccount {body : AccountCreateRequest} {isPerson : Bool} :
    Triple TrailCurrent (createAccount env userId body isPerson) fun _ => TrailCurrent := by
  unfold createAccount
  refine trail_skip readOnly_normalizeName fun name => ?_
  refine trail_skip readOnly_validateColor fun _ => ?_
  split
  · exact Triple.raise
  · refine trail_skip readOnly_nameTaken fun _ => ?_
    refine trail_skip (writesOnly_raiseIf _ _) fun _ => ?_
    refine trail_skip readOnly_slotOrNext fun sortOrder => ?_
    refine trail_insertRow rfl ?_
    refine unlogged_skip rfl readOnly_fetchHomeBalance fun home => ?_
    exact trail_log rfl rfl rfl shows_account

theorem audited_updateAccount {id : Uuid} {fields : AccountFields} :
    Triple TrailCurrent (updateAccount env userId id fields) fun _ => TrailCurrent := by
  unfold updateAccount
  refine trail_skip readOnly_validateColor fun _ => ?_
  refine trail_skip (writesOnly_raiseIf _ _) fun _ => ?_
  refine trail_skip readOnly_fetchOwnedRowOr404 fun beforeRow => ?_
  show Triple _ (if _ then _ else _) _
  split
  · exact trail_skip readOnly_fetchBothBalances fun _ => Triple.pure fun _ h => h
  · refine trail_skip readOnly_renameAccount fun name => ?_
    refine trail_skip readOnly_fetchBothBalances fun balances => ?_
    refine trail_updateRow rfl (fun r hr => (owns_active.mp hr).1) fun afterRow hid => ?_
    exact trail_log rfl rfl hid.symm shows_account

theorem audited_setAccountArchive {id : Uuid} {archived : Bool} :
    Triple TrailCurrent (setAccountArchive env userId id archived) fun _ => TrailCurrent := by
  unfold setAccountArchive
  refine trail_skip readOnly_fetchOwnedRowOr404 fun beforeRow => ?_
  refine trail_skip readOnly_fetchBothBalances fun balances => ?_
  refine trail_updateRow rfl (fun r hr => (owns_either.mp hr).1) fun afterRow hid => ?_
  exact trail_log rfl rfl hid.symm shows_account

theorem audited_deleteAccount {id : Uuid} :
    Triple TrailCurrent (deleteAccount env userId id) fun _ => TrailCurrent := by
  unfold deleteAccount
  refine trail_skip readOnly_fetchOwnedRowOr404 fun row => ?_
  refine trail_skip readOnly_fetchRow fun _ => ?_
  refine trail_skip (writesOnly_raiseIf _ _) fun _ => ?_
  refine trail_skip readOnly_fetchBothBalances fun balances => ?_
  exact audited_softDelete rfl rfl (fun _ => rfl) (serializes_pure fun _ => shows_account)

theorem audited_restoreAccount {id : Uuid} :
    Triple TrailCurrent (restoreAccount env userId id) fun _ => TrailCurrent := by
  unfold restoreAccount
  refine trail_skip readOnly_fetchOwnedRowOr404 fun beforeRow => ?_
  refine trail_skip readOnly_nameTaken fun _ => ?_
  refine trail_skip (writesOnly_raiseIf _ _) fun _ => ?_
  refine trail_skip readOnly_fetchBothBalances fun balances => ?_
  exact audited_restore rfl rfl (fun _ => rfl) (serializes_pure fun _ => shows_account)

theorem audited_updateNamedResource {t : Tbl} [NamedTable t] {resourceType : String} {id : Uuid}
    {isEmpty : Bool} {rename color : Option Text} {set : Option Text → Change Row t}
    {serialize : Row t → Body} {checkName : Row t → Text → Op Unit} (ht : t.isAudited = true)
    (htype : resourceType = t.resourceType)
    (hid : ∀ r : Row t, rowId t r = (OwnedTable.resource r).id)
    (hser : ∀ r, Shows t (serialize r) r)
    (hcheck : ∀ r n, (checkName r n).WritesOnly untracked) :
    Triple TrailCurrent (updateNamedResource env userId t resourceType id isEmpty rename color set
      serialize checkName) fun _ => TrailCurrent := by
  unfold updateNamedResource
  refine trail_skip readOnly_fetchOwnedRowOr404 fun beforeRow => ?_
  split
  · exact Triple.pure fun _ h => h
  · refine trail_skip readOnly_validateColor fun _ => ?_
    refine trail_skip (readOnly_normalizeRename hcheck) fun name => ?_
    refine trail_updateRow ht (fun r hr => (hid r).trans (owns_active.mp hr).1) fun r hrid => ?_
    exact trail_log ht htype hrid.symm (hser r)

theorem audited_createCategory {body : CategoryCreateRequest} :
    Triple TrailCurrent (createCategory env userId body) fun _ => TrailCurrent := by
  unfold createCategory
  refine trail_skip readOnly_normalizeName fun name => ?_
  refine trail_skip readOnly_rejectReservedName fun _ => ?_
  refine trail_skip readOnly_validateColor fun _ => ?_
  refine trail_skip readOnly_nameTaken fun _ => ?_
  refine trail_skip (writesOnly_raiseIf _ _) fun _ => ?_
  refine trail_skip readOnly_slotOrNext fun sortOrder => ?_
  refine trail_insertRow rfl ?_
  exact trail_log rfl rfl rfl shows_category

theorem audited_updateCategory {id : Uuid} {fields : CategoryFields} :
    Triple TrailCurrent (updateCategory env userId id fields) fun _ => TrailCurrent :=
  audited_updateNamedResource rfl rfl (fun _ => rfl) (fun _ => shows_category)
    fun _ _ => writesOnly_checkCategoryName

theorem audited_deleteCategory {id : Uuid} :
    Triple TrailCurrent (deleteCategory env userId id) fun _ => TrailCurrent := by
  unfold deleteCategory
  refine trail_skip readOnly_fetchOwnedRowOr404 fun row => ?_
  refine trail_skip (writesOnly_raiseIf _ _) fun _ => ?_
  refine trail_skip readOnly_fetchRow fun hasTxns => ?_
  refine trail_skip (writesOnly_raiseIf _ _) fun _ => ?_
  refine trail_skip readOnly_fetchRow fun hasInbox => ?_
  refine trail_skip (writesOnly_raiseIf _ _) fun _ => ?_
  exact audited_softDelete rfl rfl (fun _ => rfl) (serializes_pure fun _ => shows_category)

theorem audited_restoreCategory {id : Uuid} :
    Triple TrailCurrent (restoreCategory env userId id) fun _ => TrailCurrent := by
  unfold restoreCategory
  refine trail_skip readOnly_fetchOwnedRowOr404 fun beforeRow => ?_
  refine trail_skip writesOnly_checkCategoryName fun _ => ?_
  refine trail_skip readOnly_nameTaken fun _ => ?_
  refine trail_skip (writesOnly_raiseIf _ _) fun _ => ?_
  exact audited_restore rfl rfl (fun _ => rfl) (serializes_pure fun _ => shows_category)

theorem audited_createHashtag {body : HashtagCreateRequest} :
    Triple TrailCurrent (createHashtag env userId body) fun _ => TrailCurrent := by
  unfold createHashtag
  refine trail_skip readOnly_normalizeName fun name => ?_
  refine trail_skip readOnly_nameTaken fun _ => ?_
  refine trail_skip (writesOnly_raiseIf _ _) fun _ => ?_
  refine trail_skip readOnly_slotOrNext fun sortOrder => ?_
  refine trail_insertRow rfl ?_
  exact trail_log rfl rfl rfl shows_hashtag

theorem audited_updateHashtag {id : Uuid} {fields : HashtagFields} :
    Triple TrailCurrent (updateHashtag env userId id fields) fun _ => TrailCurrent :=
  audited_updateNamedResource rfl rfl (fun _ => rfl) (fun _ => shows_hashtag) fun _ _ => trivial

/-- Bumping a parent moves its version and `updated_at` alone. -/
theorem trail_bumpParents {t : Tbl} [OwnedTable t] {ids : List Uuid} (ht : t.isAudited = true)
    (hbump : ∀ r : Row t, (wire t ((bumped t env.now ⟨fun r => r, fun _ => rfl⟩).apply r)).map
      Body.stored = (wire t r).map Body.stored) :
    Triple TrailCurrent (bumpParents env t userId ids) fun _ => TrailCurrent := by
  unfold bumpParents
  split
  · exact Triple.pure fun _ h => h
  · refine (Triple.updateWhere (Q := fun _ => TrailCurrent) fun db h => ?_).bind
      fun _ => Triple.pure fun _ h => h
    refine (currentBut_nil (t := t)).mp ?_
    exact currentBut_modify ht (fun r _ _ => .inr (hbump r)) (currentBut_nil.mpr h)

theorem audited_deleteHashtag {id : Uuid} :
    Triple TrailCurrent (deleteHashtag env userId id) fun _ => TrailCurrent := by
  unfold deleteHashtag
  refine trail_skip readOnly_fetchOwnedRowOr404 fun row => ?_
  refine trail_skip (writesOnly_updateWhere untracked_links) fun affected => ?_
  refine (trail_bumpParents rfl fun _ => rfl).bind fun _ => ?_
  refine (trail_bumpParents rfl fun _ => rfl).bind fun _ => ?_
  exact audited_softDelete rfl rfl (fun _ => rfl) (serializes_pure fun _ => shows_hashtag)

theorem audited_restoreHashtag {id : Uuid} :
    Triple TrailCurrent (restoreHashtag env userId id) fun _ => TrailCurrent := by
  unfold restoreHashtag
  refine trail_skip readOnly_fetchOwnedRowOr404 fun beforeRow => ?_
  refine trail_skip readOnly_nameTaken fun _ => ?_
  refine trail_skip (writesOnly_raiseIf _ _) fun _ => ?_
  exact audited_restore rfl rfl (fun _ => rfl) (serializes_pure fun _ => shows_hashtag)

/-- A seeded system category has no entry, and needs none. -/
theorem trail_ensureSystemCategory {key : SystemCategoryKey} :
    Triple TrailCurrent (ensureSystemCategory env userId key) fun _ => TrailCurrent := by
  unfold ensureSystemCategory
  refine trail_skip readOnly_fetchRow fun found => ?_
  cases found with
  | some row => exact Triple.pure fun _ h => h
  | none =>
    intro db categoryId db' h he
    rw [exec_bind_ok] at he
    obtain ⟨o, db₁, hinsert, he⟩ := he
    obtain ⟨hins, rfl⟩ := exec_insertOrSkip_ok.mp hinsert
    cases o with
    | violation => cases he
    | skipped =>
      simp only [exec_bind_ok, exec_fetchRow_ok, exec_orRaise_ok, exec_pure_ok] at he
      obtain ⟨_, _, ⟨rfl, rfl⟩, _, _, ⟨-, rfl⟩, -, rfl⟩ := he
      exact h
    | inserted =>
      obtain ⟨rfl, rfl⟩ := exec_pure_ok.mp he
      intro t r hr w hw
      rw [if_pos rfl] at hr ⊢
      have hlog : (db.put .categories (newSystemCategoryRow env userId key)).rows .activityLog =
          db.rows .activityLog := Db.rows_put_ne _ _ (by decide)
      refine (logged_congr hlog).mpr ?_ w hw
      by_cases ht : t = .categories
      · subst ht
        rw [Db.rows_put_of_inserted hins, List.mem_append, List.mem_singleton] at hr
        rcases hr with hr | rfl
        · exact h _ r hr
        · exact fun _ => nofun
      · rw [Db.rows_put_ne _ _ ht] at hr
        exact h t r hr

theorem audited_createOpeningBalance {accountId : Uuid} {body : OpeningBalanceRequest} :
    Triple TrailCurrent (createOpeningBalance env userId accountId body)
      fun _ => TrailCurrent := by
  unfold createOpeningBalance
  refine trail_skip readOnly_validateActiveAccount fun account => ?_
  refine trail_skip (writesOnly_raiseIf _ _) fun _ => ?_
  refine trail_skip (writesOnly_read _ _) fun existing => ?_
  refine trail_skip (writesOnly_raiseIf _ _) fun _ => ?_
  exact trail_ensureSystemCategory.bind fun categoryId => audited_createTransaction

/-! ## Users, settings and tokens -/

omit [Platform] in
theorem resourceType_ne {ty : String} (h : ty ∈ ["user", "user_settings", "personal_access_token"])
    (t : Tbl) (ht : t.isAudited = true) : ty ≠ t.resourceType := by
  rintro rfl
  revert h
  cases t <;> first | (cases ht; done) | decide

theorem audited_bootstrap {displayName timezone : Text} :
    Triple TrailCurrent (bootstrap env userId displayName timezone) fun _ => TrailCurrent := by
  unfold bootstrap
  refine trail_skip readOnly_validateTimezone fun _ => ?_
  refine Triple.bind (Q := fun _ => TrailCurrent) ?_ fun userRow => ?_
  · unfold upsertUser
    refine trail_skip readOnly_fetchRow fun found => ?_
    cases found with
    | none =>
      refine trail_skip (writesOnly_insertOrAbort ⟨rfl, by simp⟩) fun _ => ?_
      exact (trail_logOther' (resourceType_ne (by simp))).bind fun _ => Triple.pure fun _ h => h
    | some row =>
      refine trail_skip (writesOnly_updateRow ⟨rfl, by simp⟩) fun _ => ?_
      exact Triple.frame (writesOnly_orRaise _ _) trail_framed
  · refine Triple.bind (Q := fun _ => TrailCurrent) ?_ fun _ => Triple.pure fun _ h => h
    unfold ensureSettings
    refine trail_skip readOnly_fetchRow fun found => ?_
    cases found with
    | some row => exact Triple.pure fun _ h => h
    | none =>
      refine trail_skip (writesOnly_insertOrAbort ⟨rfl, by simp⟩) fun _ => ?_
      exact (trail_logOther' (resourceType_ne (by simp))).bind fun _ => Triple.pure fun _ h => h

theorem audited_updateSettings {fields : SettingsFields} :
    Triple TrailCurrent (updateSettings env userId fields) fun _ => TrailCurrent := by
  unfold updateSettings
  split
  · refine trail_skip readOnly_fetchRow fun _ => ?_
    exact trail_skip (writesOnly_orRaise _ _) fun _ => Triple.pure fun _ h => h
  · refine trail_skip (writesOnly_raiseIf _ _) fun _ => ?_
    refine trail_skip readOnly_validateNewTimezone fun _ => ?_
    refine trail_skip readOnly_fetchRow fun _ => ?_
    refine trail_skip (writesOnly_orRaise _ _) fun before => ?_
    refine trail_skip (writesOnly_updateRow ⟨rfl, by simp⟩) fun _ => ?_
    refine trail_skip (writesOnly_orRaise _ _) fun after => ?_
    exact (trail_logOther' (resourceType_ne (by simp))).bind fun _ => Triple.pure fun _ h => h

theorem audited_updateProfile {displayName : Option Text} :
    Triple TrailCurrent (updateProfile env userId displayName) fun _ => TrailCurrent := by
  unfold updateProfile
  refine trail_skip (writesOnly_orRaise _ _) fun name => ?_
  refine trail_skip readOnly_fetchRow fun _ => ?_
  refine trail_skip (writesOnly_orRaise _ _) fun before => ?_
  refine trail_skip (writesOnly_updateRow ⟨rfl, by simp⟩) fun _ => ?_
  refine trail_skip (writesOnly_orRaise _ _) fun after => ?_
  exact (trail_logOther' (resourceType_ne (by simp))).bind fun _ => Triple.pure fun _ h => h

theorem audited_createPat {name : Option Text} :
    Triple TrailCurrent (createPat env userId name) fun _ => TrailCurrent := by
  unfold createPat
  refine trail_skip (writesOnly_insertOrAbort ⟨rfl, by simp⟩) fun _ => ?_
  exact (trail_logOther' (resourceType_ne (by simp))).bind fun _ => Triple.pure fun _ h => h

theorem audited_revokePat {id : Uuid} :
    Triple TrailCurrent (revokePat env userId id) fun _ => TrailCurrent := by
  unfold revokePat
  refine trail_skip readOnly_fetchRow fun _ => ?_
  refine trail_skip (writesOnly_orRaise _ _) fun before => ?_
  refine trail_skip (writesOnly_updateRow ⟨rfl, by simp⟩) fun _ => ?_
  refine trail_skip (writesOnly_orRaise _ _) fun after => ?_
  exact (trail_logOther' (resourceType_ne (by simp))).bind fun _ => Triple.pure fun _ h => h

/-! ## Runs -/

theorem audited_work {request : Request} (h : ∀ id, request ≠ .deleteReconciliation id) :
    Triple TrailCurrent (request.work env userId) fun _ => TrailCurrent := by
  cases request with
  | createTransaction body => exact audited_createTransaction
  | batchCreateTransactions items => exact audited_createBatch
  | updateTransaction id body => exact audited_updateTransaction
  | deleteTransaction id => exact audited_deleteTransaction
  | restoreTransaction id => exact audited_restoreTransaction
  | createInboxItem body => exact audited_createInboxItem
  | updateInboxItem id body => exact audited_updateInboxItem
  | deleteInboxItem id => exact audited_deleteInboxItem
  | promoteInboxItem id targetId => exact audited_promoteInboxItem
  | createReconciliation body => exact audited_createReconciliation
  | updateReconciliation id body => exact audited_updateReconciliation
  | completeReconciliation id => exact audited_transitionStatus
  | revertReconciliation id => exact audited_transitionStatus
  | deleteReconciliation id => exact absurd rfl (h id)
  | restoreReconciliation id => exact audited_restoreReconciliation
  | createAccount body => exact audited_createAccount
  | createPerson body => exact audited_createAccount
  | createOpeningBalance accountId body => exact audited_createOpeningBalance
  | updateAccount id body => exact audited_updateAccount
  | deleteAccount id => exact audited_deleteAccount
  | restoreAccount id => exact audited_restoreAccount
  | archiveAccount id => exact audited_setAccountArchive
  | unarchiveAccount id => exact audited_setAccountArchive
  | createCategory body => exact audited_createCategory
  | updateCategory id body => exact audited_updateCategory
  | deleteCategory id => exact audited_deleteCategory
  | restoreCategory id => exact audited_restoreCategory
  | createHashtag body => exact audited_createHashtag
  | updateHashtag id body => exact audited_updateHashtag
  | deleteHashtag id => exact audited_deleteHashtag
  | restoreHashtag id => exact audited_restoreHashtag
  | bootstrap displayName timezone => exact audited_bootstrap
  | updateSettings body => exact audited_updateSettings
  | updateProfile displayName => exact audited_updateProfile
  | createPat name => exact audited_createPat
  | revokePat id => exact audited_revokePat

/-- The call unlinks no transaction: it deletes no reconciliation with active
members, or only replays the deletion. -/
def Call.KeepsLinks (db : Db) (c : Call) : Prop :=
  ∀ id, c.request = .deleteReconciliation id → c.IsStored db ∨ UnlinksNothing c.userId id db

theorem TrailCurrent.step {c : Call} (h : TrailCurrent db) (hc : c.KeepsLinks db) :
    TrailCurrent (step db c) := by
  rcases step_cases db c with hsame | ⟨b, db₁, hwork, hdb⟩
  · rwa [hsame]
  · have htrail : TrailCurrent db₁ ∨ c.IsStored db := by
      by_cases hreq : ∃ id, c.request = .deleteReconciliation id
      · obtain ⟨id, hreq⟩ := hreq
        rcases hc id hreq with hstored | hno
        · exact .inr hstored
        · rw [hreq] at hwork
          exact .inl (audited_deleteReconciliation ⟨h, hno⟩ hwork)
      · exact .inl (audited_work (fun id hid => hreq ⟨id, hid⟩) h hwork)
    rcases htrail with htrail | hstored
    · -- beside its work, a call writes its idempotency row, which is not audited
      refine trail_framed (fun t ht => hdb t ?_) htrail
      rintro rfl
      exact ht ⟨rfl, by simp⟩
    · rwa [step_of_stored hstored]

theorem trail_fresh (h : Fresh db) : TrailCurrent db := by
  intro t r hr
  cases t with
  | bankAccounts => simp [h.bankAccounts] at hr
  | categories => simp [h.categories] at hr
  | hashtags => simp [h.hashtags] at hr
  | reconciliations => simp [h.reconciliations] at hr
  | transactionInbox => simp [h.transactionInbox] at hr
  | transactions => simp [h.transactions] at hr
  | _ => exact logged_of_not_audited rfl r

/-- In every state of a run that unlinks no transaction, the newest entry of
every row shows what the row stores. -/
theorem trail_current {db₀ : Db} (hfresh : Fresh db₀) (calls : List Call)
    (hok : Along (fun db c => c.KeepsLinks db) db₀ calls) : TrailCurrent (run db₀ calls) :=
  run_invariant (fun _ _ h hc => h.step hc) (trail_fresh hfresh) hok

end

open Ascii in
/-- The reconciliation 40 is deleted while it has no members. -/
theorem trail_current_empty :
    TrailCurrent (run blank (setup ++ [callAt 6 (.createReconciliation
      ⟨40, 10, "May".toList, none, none, 0, some (-500)⟩),
      callAt 7 (.deleteReconciliation 40)])) := by
  refine trail_current fresh_blank _ ⟨?_, ?_, ?_, ?_, ?_, ?_, ?_, trivial⟩
  · exact fun _ h => by cases h
  · exact fun _ h => by cases h
  · exact fun _ h => by cases h
  · exact fun _ h => by cases h
  · exact fun _ h => by cases h
  · exact fun _ h => by cases h
  · rintro _ ⟨⟩
    refine .inr fun _ _ _ _ => ?_
    decide +kernel

open Ascii in
/-- The deletion of the reconciliation 40 unlinks the lunch, and no entry of the
lunch shows it. -/
theorem unlinked_lunch_stale : ¬ TrailCurrent
    (run blank (setup ++ assign ++ [callAt 8 (.deleteReconciliation 40)])) := by
  have hstale : ∃ r ∈ Sql.Db.rows
      (run blank (setup ++ assign ++ [callAt 8 (.deleteReconciliation 40)])) Tbl.transactions,
      ∃ w ∈ wire .transactions r, lastShown
        (run blank (setup ++ assign ++ [callAt 8 (.deleteReconciliation 40)]))
        (Tbl.resourceType .transactions) (rowId .transactions r) ≠ some w.stored := by
    decide +kernel
  intro h
  obtain ⟨r, hr, w, hw, hne⟩ := hstale
  exact hne (h .transactions r hr w hw)

end ExpenseEngine
