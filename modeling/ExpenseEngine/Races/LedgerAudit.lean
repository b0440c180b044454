import ExpenseEngine.Invariants.Audit
import ExpenseEngine.Races.Handlers

/-!
# The trail of one transaction beside cascades

Updates, deletes and restores of a ledger row lock it before they read the
before-image, and their UPDATE names the columns they set. Hashtag deletes and
the status changes of reconciliations move the version of the same row, and its
link, without an entry of their own.

Results:
1. `traces_work`: what each of the requests leaves of the row and of the log.
2. `ledger_entries_coherent`: along every interleaving, the two snapshots of an
   entry are one version apart and differ in what the request set; the row has
   what the last request to set it wrote.
-/

namespace ExpenseEngine

open Sql Sql.Prog HandlerLemmas StatementLemmas EffectLemmas

/-! ## Fields -/

/-- The columns of a ledger row, all but `updated_at` and `version`. -/
inductive LedgerField
  | id | userId | createdAt | deletedAt | title | description | amountCents | transactionType
  | date | accountId | categoryId | inboxId | reconciliationId
  deriving DecidableEq

inductive LedgerValue
  | text (v : Option Text)
  | number (v : Int)
  | direction (v : TransactionType)
  | stamp (v : Option Timestamp)
  | uuid (v : Option Uuid)
  deriving DecidableEq

namespace LedgerField

def get (r : TransactionRow) : LedgerField → LedgerValue
  | .id => .uuid (some r.id)
  | .userId => .uuid (some r.userId)
  | .createdAt => .stamp (some r.createdAt)
  | .deletedAt => .stamp r.deletedAt
  | .title => .text (some r.title)
  | .description => .text r.description
  | .amountCents => .number r.amountCents
  | .transactionType => .direction r.transactionType
  | .date => .stamp (some r.date)
  | .accountId => .uuid (some r.accountId)
  | .categoryId => .uuid (some r.categoryId)
  | .inboxId => .uuid r.inboxId
  | .reconciliationId => .uuid r.reconciliationId

end LedgerField

/-! ## What a request sets -/

/-- The columns that a PUT names, with what it writes there. Amount and
direction move together. -/
def setByUpdate (body : TransactionUpdateRequest) : LedgerField → Option LedgerValue
  | .title => (cleanName body.title.join).map fun v => .text (some v)
  | .description => body.description.join.map fun v => .text (some v)
  | .amountCents => body.amountCents.join.map fun n => .number (absCents n)
  | .transactionType => body.amountCents.join.map fun n => .direction (inferTransactionType n)
  | .date => body.date.join.map fun d => .stamp (some d)
  | .accountId => body.accountId.join.map fun a => .uuid (some a)
  | .categoryId => body.categoryId.join.map fun c => .uuid (some c)
  | .reconciliationId => body.reconciliationId.map .uuid
  | _ => none

def setByDelete (now : Timestamp) : LedgerField → Option LedgerValue
  | .deletedAt => some (.stamp (some now))
  | _ => none

/-- A restore clears the link as well when it warns that it does. -/
def setByRestore (warned : Bool) : LedgerField → Option LedgerValue
  | .deletedAt => some (.stamp none)
  | .reconciliationId => if warned then some (.uuid none) else none
  | _ => none

/-- The delete of a reconciliation clears the link of the rows it rewrites. -/
def setByUnassign (rewritten : Bool) : LedgerField → Option LedgerValue
  | .reconciliationId => if rewritten then some (.uuid none) else none
  | _ => none

def Body.isWarned : Body → Bool
  | .restoredTransaction _ warnings => !warnings.isEmpty
  | _ => false

/-- The requests on the transaction `x`, and those that touch it by cascade. -/
inductive Touches (x : Uuid) : Request → Prop
  | update (body : TransactionUpdateRequest) : Touches x (.updateTransaction x body)
  | delete : Touches x (.deleteTransaction x)
  | restore : Touches x (.restoreTransaction x)
  | deleteHashtag (id : Uuid) : Touches x (.deleteHashtag id)
  | complete (id : Uuid) : Touches x (.completeReconciliation id)
  | revert (id : Uuid) : Touches x (.revertReconciliation id)
  | deleteReconciliation (id : Uuid) : Touches x (.deleteReconciliation id)

section

variable [Platform] {env : Env} {userId : Uuid}

/-- The transaction has rewritten the ledger row `x`. -/
def rewrites (x : Uuid) (l : Loc) : Bool := (l.own .transactions).any fun r => decide (r.id = x)

/-- What a call that has committed set of the ledger row `x`. A replay sets
nothing. -/
def written (x : Uuid) (c : Call) (reply : Reply) (l : Loc) : LedgerField → Option LedgerValue :=
  match reply, c.request with
  | .fresh _, .updateTransaction _ body => setByUpdate body
  | .fresh _, .deleteTransaction _ => setByDelete c.env.now
  | .fresh body, .restoreTransaction _ => setByRestore body.isWarned
  | .fresh _, .deleteReconciliation _ => setByUnassign (rewrites x l)
  | _, _ => fun _ => none

/-! ## One request -/

/-- The entry shows the row before and after, one version apart, with what `set`
says in between. -/
def EntryShows (set : LedgerField → Option LedgerValue) (e : Row .activityLog) : Prop :=
  ∃ b a : TransactionResponse, e.beforeSnapshot = some (.transaction b) ∧
    e.afterSnapshot = some (.transaction a) ∧ a.version = b.version + 1 ∧
    ∀ f, f.get a.toTransactionRow = (set f).getD (f.get b.toTransactionRow)

/-- What a request leaves of the ledger row `x` and of its trail, when it sets
what `set` says. -/
structure Traces (x : Uuid) (set : LedgerField → Option LedgerValue) (l : Loc) : Prop where
  row : ∀ r' ∈ l.own .transactions, r'.id = x → ∃ r ∈ l.held .transactions, r.id = x ∧
    ∀ f, f.get r' = (set f).getD (f.get r)
  unset : (∀ r' ∈ l.own .transactions, r'.id ≠ x) → ∀ f, set f = none
  entry : ∀ e ∈ l.own .activityLog, isEntryOf "transaction" x e = true → EntryShows set e

theorem Traces.of_clean {x : Uuid} {set : LedgerField → Option LedgerValue} {l : Loc}
    (h : Clean .transactions l) (hset : ∀ f, set f = none) : Traces x set l where
  row r' hr' := by
    rw [h.1] at hr'
    exact absurd hr' List.not_mem_nil
  unset _ := hset
  entry e he := by
    rw [h.2] at he
    exact absurd he List.not_mem_nil

theorem traces_framed {x : Uuid} {set : LedgerField → Option LedgerValue} :
    Among.Framed (· = .idempotencyKeys) (Traces x set) := by
  intro l l' hg h
  have hown : l'.own .transactions = l.own .transactions := hg.own _ (by simp)
  have hlog : l'.own .activityLog = l.own .activityLog := hg.own _ (by simp)
  refine ⟨?_, ?_, ?_⟩
  · rw [hown]
    intro r' hr' hx
    obtain ⟨r, hr, h⟩ := h.row r' hr' hx
    exact ⟨r, (hg.extended.held _).subset hr, h⟩
  · rw [hown]
    exact h.unset
  · rw [hlog]
    exact h.entry

/-! ### Requests on the row itself -/

theorem among_attachHashtagIds {P : Loc → Prop} {row : Row .transactions} {α : Type}
    {g : TransactionResponse → Op α} {Q : α → Loc → Prop}
    (hP : Among.Framed (fun _ => False) P)
    (hg : ∀ resp, resp.toTransactionRow = row → Among P (g resp) Q) :
    Among P (attachHashtagIds row >>= g) Q := by
  intro l a l' hl h
  obtain ⟨resp, l₁, hattach, h⟩ := runs_bind_ok.mp h
  refine hg resp ?_ (hP (hattach.grows readOnly_attachHashtagIds) hl) h
  obtain ⟨ids, l₂, -, hresp⟩ := runs_bind_ok.mp hattach
  rw [(runs_pure_ok.mp hresp).1]

omit [Platform] in
theorem key_of_owned {x : Uuid} {s s' : RowState} {r r' : Row .transactions}
    (h : owns .transactions x userId s r = true) (h' : owns .transactions x userId s' r' = true) :
    keyOf .transactions r = keyOf .transactions r' := by
  simp only [owns, Bool.and_eq_true, decide_eq_true_eq] at h h'
  exact h.1.1.trans h'.1.1.symm

/-- The row that was locked is rewritten as `set` says, and the entry shows the
two images. -/
theorem traces_of_logged {x logId : Uuid} {set : LedgerField → Option LedgerValue}
    {r r' : Row .transactions} {b a : TransactionResponse} {action : ActivityAction} {l : Loc}
    (hrow : Rewrote .transactions r r' l)
    (hentered : Entered (logEntry env logId userId "transaction" x action
      (some (.transaction b)) (some (.transaction a))) l)
    (hb : b.toTransactionRow = r) (ha : a.toTransactionRow = r') (hx : r.id = x)
    (hversion : r'.version = r.version + 1)
    (hset : ∀ f : LedgerField, f.get r' = (set f).getD (f.get r)) : Traces x set l := by
  have hown : ∀ y ∈ l.own .transactions, y = r' := by
    rw [hrow.own]
    exact fun y hy => List.mem_singleton.mp hy
  refine ⟨fun y hy _ => ⟨r, hrow.held, hx, ?_⟩, fun hne => ?_, fun e he _ => ?_⟩
  · rw [hown y hy]
    exact hset
  · refine absurd (hrow.key.trans hx) (hne r' ?_)
    rw [hrow.own]
    exact List.mem_singleton_self r'
  · rw [hentered.own] at he
    rw [List.mem_singleton.mp he]
    refine ⟨b, a, rfl, rfl, ?_, ?_⟩
    · rw [← hb, ← ha] at hversion
      exact hversion
    · rw [hb, ha]
      exact hset

theorem among_normalizeNewTitle {P : Loc → Prop} {title : Option Text} {α : Type}
    {g : Option Text → Op α} {Q : α → Loc → Prop} (hP : Among.Framed (fun _ => False) P)
    (hg : Among P (g (cleanName title)) Q) : Among P (normalizeNewTitle title >>= g) Q := by
  intro l a l' hl h
  obtain ⟨o, l₁, ho, h⟩ := runs_bind_ok.mp h
  have hl₁ := hP (ho.grows readOnly_normalizeNewTitle) hl
  have hclean : o = cleanName title := by
    cases title with
    | none => exact (runs_pure_ok.mp ho).1
    | some t =>
      rw [normalizeNewTitle, map_eq_pure_bind] at ho
      obtain ⟨n, l₂, hn, ho⟩ := runs_bind_ok.mp ho
      rw [(runs_pure_ok.mp ho).1]
      exact (runs_orRaise_ok.mp hn).1.symm
  rw [← hclean] at hg
  exact hg hl₁ h

theorem get_updated {body : TransactionUpdateRequest} {now : Timestamp} {r : Row .transactions}
    (f : LedgerField) : f.get ((bumped .transactions now (setTransaction
      { body.fields with title := cleanName body.title.join } body.reconciliationId)).apply r) =
        (setByUpdate body f).getD (f.get r) := by
  cases f with
  | title =>
    show LedgerValue.text _ = _
    simp only [setByUpdate]
    cases cleanName body.title.join <;> rfl
  | description =>
    show LedgerValue.text (if body.description.join.isSome then body.description.join
      else TransactionRow.description r) = _
    simp only [setByUpdate]
    cases body.description.join <;> rfl
  | amountCents | transactionType =>
    simp only [setByUpdate, bumped, setTransaction, TransactionUpdateRequest.fields]
    cases body.amountCents.join <;> rfl
  | date =>
    simp only [setByUpdate, bumped, setTransaction, TransactionUpdateRequest.fields]
    cases body.date.join <;> rfl
  | accountId =>
    simp only [setByUpdate, bumped, setTransaction, TransactionUpdateRequest.fields]
    cases body.accountId.join <;> rfl
  | categoryId =>
    simp only [setByUpdate, bumped, setTransaction, TransactionUpdateRequest.fields]
    cases body.categoryId.join <;> rfl
  | reconciliationId =>
    simp only [setByUpdate, bumped, setTransaction]
    cases body.reconciliationId <;> rfl
  | id | userId | createdAt | deletedAt | inboxId => rfl

theorem traces_updateTransaction {x : Uuid} {body : TransactionUpdateRequest} :
    Among Blank
      (updateTransaction env userId x body.fields body.hashtagIds.join body.reconciliationId)
      fun _ => Traces x (setByUpdate body) := by
  refine Among.weaken (P := Clean .transactions) ?_ (fun _ h => Blank.clean h _) fun _ _ h => h
  unfold updateTransaction
  split
  · next hempty =>
    -- an empty PUT reads the row and sets nothing
    obtain ⟨hfields, -, hrecon⟩ := hempty
    refine among_fetchOwnedRow clean_reads fun row _ => ?_
    refine among_attachHashtagIds clean_reads fun resp _ => Among.pure fun l h => ?_
    refine .of_clean h fun f => ?_
    simp only [TransactionUpdateRequest.fields, TransactionFields.none,
      TransactionFields.mk.injEq] at hfields
    obtain ⟨htitle, hamount, hdate, haccount, hcategory, hdescription⟩ := hfields
    cases f <;> simp [setByUpdate, cleanName, *]
  · refine among_lockOwnedRow fun row hrow => ?_
    refine among_attachHashtagIds has_reads fun before hbefore => ?_
    refine among_guard has_reads readOnly_checkCompletedLock fun _ => ?_
    refine among_guard has_reads readOnly_checkAssignment fun _ => ?_
    refine among_guard has_reads readOnly_rejectZeroAmount fun _ => ?_
    refine among_guard has_reads readOnly_validateNewAccount fun _ => ?_
    refine among_guard has_reads readOnly_validateNewCategory fun _ => ?_
    refine among_normalizeNewTitle has_reads ?_
    refine among_guard has_reads readOnly_validateNewDate fun _ => ?_
    refine among_updateHad (by simp) (fun r hr => key_of_owned hr hrow) ?_
    refine Among.skip (writesOnly_syncIfGiven (W := (· = .transactionHashtags)) rfl)
      (and_framed (rewrote_framed (by simp)) (logless_framed (by simp))) fun _ => ?_
    refine among_attachHashtagIds rewrote_reads fun after hafter => ?_
    refine (among_log (rewrote_framed (by simp))).bind fun _ => Among.pure fun l h => ?_
    refine traces_of_logged h.1 h.2 hbefore hafter ?_ rfl get_updated
    simp only [owns, Bool.and_eq_true, decide_eq_true_eq] at hrow
    exact hrow.1.1

omit [Platform] in
theorem id_of_owns {x : Uuid} {s : RowState} {r : Row .transactions}
    (h : owns .transactions x userId s r = true) : r.id = x := by
  simp only [owns, Bool.and_eq_true, decide_eq_true_eq] at h
  exact h.1.1

theorem get_deleted {now : Timestamp} {r : Row .transactions} (f : LedgerField) :
    f.get ((marked .transactions now (some now)).apply r) =
      (setByDelete now f).getD (f.get r) := by
  cases f <;> rfl

theorem traces_deleteTransaction {x : Uuid} :
    Among Blank (deleteTransaction env userId x) fun _ => Traces x (setByDelete env.now) := by
  refine Among.weaken (P := Clean .transactions) ?_ (fun _ h => Blank.clean h _) fun _ _ h => h
  unfold deleteTransaction
  refine among_lockOwnedRow fun row hrow => ?_
  refine among_guard has_reads readOnly_checkNotCompleted fun _ => ?_
  refine among_attachHashtagIds has_reads fun before hbefore => ?_
  refine among_updateHad (by simp) (fun r hr => key_of_owned hr hrow) ?_
  refine Among.skip (writesOnly_cascadeDelete (W := (· = .transactionHashtags)) rfl)
    (and_framed (rewrote_framed (by simp)) (logless_framed (by simp))) fun _ => ?_
  refine among_attachHashtagIds rewrote_reads fun after hafter => ?_
  refine (among_log (rewrote_framed (by simp))).bind fun _ => Among.pure fun l h => ?_
  exact traces_of_logged h.1 h.2 hbefore hafter (id_of_owns hrow) rfl get_deleted

theorem get_restored {now : Timestamp} {unlink : Bool} {r : Row .transactions} (f : LedgerField) :
    f.get ((bumped .transactions now (setRestored unlink)).apply r) =
      (setByRestore unlink f).getD (f.get r) := by
  cases f with
  | reconciliationId => cases unlink <;> rfl
  | _ => rfl

theorem traces_restoreTransaction {x : Uuid} :
    Among Blank (restoreTransaction env userId x)
      fun body => Traces x (setByRestore body.isWarned) := by
  refine Among.weaken (P := Clean .transactions) ?_ (fun _ h => Blank.clean h _) fun _ _ h => h
  unfold restoreTransaction
  refine among_lockOwnedRow fun row hrow => ?_
  refine among_guard has_reads readOnly_activeAccountRow fun account => ?_
  refine among_guard has_reads readOnly_activeCategoryRow fun category => ?_
  refine among_guard has_reads (writesOnly_raiseIf _ _) fun _ => ?_
  refine among_guard has_reads readOnly_decideUnlink fun warning => ?_
  refine among_attachHashtagIds has_reads fun before hbefore => ?_
  refine among_updateHad (by simp) (fun r hr => key_of_owned hr hrow) ?_
  refine Among.skip (writesOnly_cascadeRestore (W := (· = .transactionHashtags)) rfl)
    (and_framed (rewrote_framed (by simp)) (logless_framed (by simp))) fun _ => ?_
  refine among_attachHashtagIds rewrote_reads fun after hafter => ?_
  refine (among_log (rewrote_framed (by simp))).bind fun _ => Among.pure fun l h => ?_
  have hwarned : (Body.restoredTransaction after warning.toList).isWarned = warning.isSome := by
    cases warning <;> rfl
  rw [hwarned]
  exact traces_of_logged h.1 h.2 hbefore hafter (id_of_owns hrow) rfl get_restored

/-! ### Cascades -/

/-- Rows that were locked are rewritten, and the entry is of another resource. -/
theorem traces_of_cascade {x logId resourceId : Uuid} {set : LedgerField → Option LedgerValue}
    {w : Row .transactions → Bool} {f : Change Row .transactions} {resourceType : String}
    {action : ActivityAction} {before after : Option Body} {l : Loc}
    (hrows : RewroteEach .transactions w f l)
    (hentered : Entered (logEntry env logId userId resourceType resourceId action before after) l)
    (hset : ∀ r field, rewrites x l = true →
      LedgerField.get (f.apply r) field = (set field).getD (LedgerField.get r field))
    (hunset : rewrites x l = false → ∀ field, set field = none)
    (hty : resourceType ≠ "transaction") : Traces x set l := by
  refine ⟨fun r' hr' hx => ?_, fun hne => hunset ?_, fun e he hentry => ?_⟩
  · obtain ⟨r, hr, -, rfl⟩ := hrows r' hr'
    have hrewrites : rewrites x l = true := List.any_eq_true.mpr ⟨_, hr', decide_eq_true hx⟩
    exact ⟨r, hr, (f.key_apply r).symm.trans hx, fun field => hset r field hrewrites⟩
  · exact List.any_eq_false.mpr fun r hr => by simpa using hne r hr
  · rw [hentered.own] at he
    rw [List.mem_singleton.mp he, isEntryOf, decide_eq_true_eq] at hentry
    exact absurd hentry.1 hty

theorem rewroteEach_transactions {W : Tbl → Prop} {t : Tbl} {w : Row .transactions → Bool}
    {f : Change Row .transactions} (ht : t ≠ .transactions)
    (hW : ∀ t', W t' → t' = t ∨ t' = .activityLog) :
    Among.Framed W (RewroteEach .transactions w f) :=
  rewroteEach_framed fun h => (hW _ h).elim (fun h => ht h.symm) (by simp)

theorem among_bumpParents {ids : List Uuid} {α : Type} {g : Unit → Op α} {Q : α → Loc → Prop}
    (hg : Among (fun l => RewroteEach .transactions (fun _ => true)
      (bumped .transactions env.now ⟨fun r => r, fun _ => rfl⟩) l ∧ l.own .activityLog = [])
        (g ()) Q) :
    Among (Clean .transactions) (bumpParents env .transactions userId ids >>= g) Q := by
  unfold bumpParents
  split
  · rw [pure_bind]
    refine hg.weaken (fun l h => ⟨fun x hx => ?_, h.2⟩) fun _ _ h => h
    rw [h.1] at hx
    exact absurd hx List.not_mem_nil
  · rw [LawfulMonad.bind_assoc]
    refine among_updateRows (by simp) fun rs => ?_
    refine hg.weaken (fun l h => ⟨fun x hx => ?_, h.2⟩) fun _ _ h => h
    obtain ⟨r, hr, -, hxr⟩ := h.1 x hx
    exact ⟨r, hr, rfl, hxr⟩

theorem get_bumped {now : Timestamp} {r : Row .transactions} (f : LedgerField) :
    f.get ((bumped .transactions now ⟨fun r => r, fun _ => rfl⟩).apply r) = f.get r := by
  cases f <;> rfl

theorem traces_deleteHashtag {x id : Uuid} :
    Among Blank (deleteHashtag env userId id) fun _ => Traces x fun _ => none := by
  refine Among.weaken (P := Clean .transactions) ?_ (fun _ h => Blank.clean h _) fun _ _ h => h
  unfold deleteHashtag
  refine among_fetchOwnedRow clean_reads fun row _ => ?_
  refine Among.skip (W := (· = .transactionHashtags)) (writesOnly_updateWhere rfl)
    (clean_framed (by simp) (by simp)) fun affected => ?_
  refine among_bumpParents ?_
  refine Among.skip (writesOnly_bumpParents (W := (· = .transactionInbox)) rfl)
    (and_framed (rewroteEach_framed (by simp)) (logless_framed (by simp))) fun _ => ?_
  refine (among_auditOther (by simp) (fun W hW => rewroteEach_transactions (by simp) hW)
    (fun _ _ => ?_) fun _ => ?_).weaken (fun _ h => h) ?_
  · exact WritesOnly.bind (writesOnly_updateWhere rfl) fun _ => trivial
  · trivial
  · rintro _ l ⟨hrows, logId, resourceId, before, after, hentered⟩
    exact traces_of_cascade hrows hentered (fun r f _ => get_bumped f) (fun _ _ => rfl) (by simp)

theorem traces_transitionStatus {x id : Uuid} {target : ReconciliationStatus}
    {requireAssigned : Bool} :
    Among Blank (transitionStatus env userId id target requireAssigned)
      fun _ => Traces x fun _ => none := by
  refine Among.weaken (P := Clean .transactions) ?_ (fun _ h => Blank.clean h _) fun _ _ h => h
  unfold transitionStatus
  refine among_fetchReconciliation clean_reads fun row _ => ?_
  split
  · exact Among.pure fun l h => .of_clean h fun _ => rfl
  · refine among_guard clean_reads (writesOnly_selectForUpdate _ _ _) fun assigned => ?_
    refine among_guard clean_reads (writesOnly_raiseIf _ _) fun _ => ?_
    refine Among.skip (W := (· = .reconciliations)) (writesOnly_updateWhere rfl)
      (clean_framed (by simp) (by simp)) fun _ => ?_
    refine among_updateRows (by simp) fun rs => ?_
    refine among_fetchReconciliation
      (and_framed (rewroteEach_framed not_false) (logless_framed not_false)) fun after _ => ?_
    refine (among_log (rewroteEach_framed (by simp))).bind fun _ => Among.pure fun l h => ?_
    exact traces_of_cascade h.1 h.2 (fun r f _ => get_bumped f) (fun _ _ => rfl) (by simp)

theorem get_unassigned {now : Timestamp} {r : Row .transactions} (f : LedgerField) :
    f.get ((bumped .transactions now setUnassigned).apply r) =
      (setByUnassign true f).getD (f.get r) := by
  cases f <;> rfl

theorem traces_deleteReconciliation {x id : Uuid} :
    Among Blank (deleteReconciliation env userId id)
      fun _ l => Traces x (setByUnassign (rewrites x l)) l := by
  refine Among.weaken (P := Clean .transactions) ?_ (fun _ h => Blank.clean h _) fun _ _ h => h
  unfold deleteReconciliation
  refine among_fetchReconciliation clean_reads fun row _ => ?_
  refine among_guard clean_reads (writesOnly_raiseIf _ _) fun _ => ?_
  refine among_updateRows (by simp) fun rs => ?_
  refine (among_auditOther (by simp) (fun W hW => rewroteEach_transactions (by simp) hW)
    (fun _ _ => ?_) fun _ => writesOnly_refetchReconciliation).weaken (fun _ h => h) ?_
  · exact WritesOnly.bind (writesOnly_updateWhere rfl) fun _ => trivial
  · rintro _ l ⟨hrows, logId, resourceId, before, after, hentered⟩
    refine traces_of_cascade hrows hentered (fun r f h => ?_) (fun h f => ?_) (by simp)
    · rw [h]
      exact get_unassigned f
    · rw [h]
      cases f <;> rfl

/-! ### The handler -/

theorem written_framed {x : Uuid} {c : Call} {reply : Reply} :
    Among.Framed (· = .idempotencyKeys) fun l => Traces x (written x c reply l) l := by
  intro l l' hg h
  have hrewrites : rewrites x l' = rewrites x l := by
    rw [rewrites, hg.own .transactions (by simp)]
    rfl
  have hwritten : written x c reply l' = written x c reply l := by
    simp only [written, hrewrites]
  simp only [hwritten]
  exact traces_framed hg h

theorem traces_work {x : Uuid} {c : Call} (hc : Touches x c.request) :
    Among Blank (c.request.work c.env c.userId)
      fun body l => Traces x (written x c (.fresh body) l) l := by
  simp only [written]
  cases hreq : c.request with
  | updateTransaction y body =>
    rw [hreq] at hc
    cases hc
    exact traces_updateTransaction
  | deleteTransaction y =>
    rw [hreq] at hc
    cases hc
    exact traces_deleteTransaction
  | restoreTransaction y =>
    rw [hreq] at hc
    cases hc
    exact traces_restoreTransaction
  | deleteHashtag id => exact traces_deleteHashtag
  | completeReconciliation id => exact traces_transitionStatus
  | revertReconciliation id => exact traces_transitionStatus
  | deleteReconciliation id => exact traces_deleteReconciliation
  | _ =>
    rw [hreq] at hc
    cases hc

/-- A call that commits leaves the trace of what it has written; a replay has
written nothing. -/
theorem traces_handle {x : Uuid} {c : Call} (hc : Touches x c.request) {reply : Reply} {l : Loc}
    (h : c.handle.Runs .init (.ok reply) l) : Traces x (written x c reply l) l := by
  have hends := among_handle (traces_work hc) (fun _ => written_framed) rfl h
  cases reply with
  | fresh body => exact hends.1 body rfl
  | cached body status =>
    have hnone := hends.2 body status rfl
    exact .of_clean ⟨hnone _, hnone _⟩ fun _ => rfl

/-! ## Runs -/

section Runs

variable {ι : Type} [DecidableEq ι] {x : Uuid} {calls : ι → Call} {db : Db} {s : Race ι}
  {past : List (ι × Reply)} {i : ι}

/-- The committed row `x`. -/
def ledgerRow (db : Db) (x : Uuid) : Option TransactionRow := (db .transactions).find? x

/-- What the last of the commits to set the field wrote there. -/
def lastSet (x : Uuid) (calls : ι → Call) (s : Race ι) (past : List (ι × Reply))
    (f : LedgerField) : Option LedgerValue :=
  past.reverse.findSome? fun p => written x (calls p.1) p.2 (s.party p.1).loc f

omit [DecidableEq ι] in
theorem lastSet_congr {s' : Race ι} (h : ∀ p ∈ past, s'.party p.1 = s.party p.1)
    (f : LedgerField) : lastSet x calls s' past f = lastSet x calls s past f := by
  unfold lastSet
  induction past with
  | nil => rfl
  | cons p past ih =>
    rw [List.reverse_cons, List.findSome?_append, List.findSome?_append,
      ih fun q hq => h q (List.mem_cons_of_mem _ hq)]
    simp only [List.findSome?_cons, List.findSome?_nil, h p List.mem_cons_self]

omit [DecidableEq ι] in
theorem lastSet_append {p : ι × Reply} (f : LedgerField) :
    lastSet x calls s (past ++ [p]) f =
      (written x (calls p.1) p.2 (s.party p.1).loc f).or (lastSet x calls s past f) := by
  rw [lastSet, List.reverse_append, List.reverse_singleton, List.singleton_append,
    List.findSome?_cons, lastSet]
  cases written x (calls p.1) p.2 (s.party p.1).loc f <;> rfl

/-- What the commits of a run from `db` have left. -/
structure Audited (x : Uuid) (calls : ι → Call) (db : Db) (s : Race ι)
    (past : List (ι × Reply)) : Prop where
  committed : ∀ p ∈ past, (s.party p.1).phase = .committed p.2
  entries : ∀ e ∈ s.db.rows .activityLog, e ∈ db.rows .activityLog ∨
    ∃ p ∈ past, e ∈ (s.party p.1).loc.own .activityLog
  values : ∀ r₀, ledgerRow db x = some r₀ → ∃ r, ledgerRow s.db x = some r ∧
    ∀ f, f.get r = (lastSet x calls s past f).getD (f.get r₀)

omit [DecidableEq ι] in
theorem Audited.congr {s' : Race ι} (h : Audited x calls db s past) (hdb : s'.db = s.db)
    (hparty : ∀ p ∈ past, s'.party p.1 = s.party p.1) : Audited x calls db s' past where
  committed p hp := by rw [hparty p hp, h.committed p hp]
  entries e he := by
    rw [hdb] at he
    refine (h.entries e he).imp_right ?_
    rintro ⟨p, hp, he⟩
    exact ⟨p, hp, by rwa [hparty p hp]⟩
  values r₀ hr₀ := by
    obtain ⟨r, hr, hget⟩ := h.values r₀ hr₀
    refine ⟨r, by rw [hdb, hr], fun f => ?_⟩
    rw [lastSet_congr hparty, hget f]

/-- The row after a commit that has left its trace. -/
theorem row_of_commit (hs : Sound (fun i => (calls i).handle) s) (reply : Reply)
    (hp : (s.party i).phase = .running (.ret reply)) {set : LedgerField → Option LedgerValue}
    (h : Traces x set (s.party i).loc) {r : Row .transactions}
    (hr : (s.db .transactions).find? x = some r) :
    ∃ r', ((s.commit i reply).db .transactions).find? x = some r' ∧
      ∀ f : LedgerField, f.get r' = (set f).getD (f.get r) := by
  have hrun : (s.party i).isRunning = true := by rw [Party.isRunning, hp]
  have hfind : ((s.commit i reply).db .transactions).find? x =
      (((s.party i).loc.own .transactions).reverse.find? fun r => decide
        (keyOf .transactions r = x)).or ((s.db .transactions).find? x) :=
    find?_overlay _ _ _ _
  cases hown : ((s.party i).loc.own .transactions).reverse.find? fun r => decide
      (keyOf .transactions r = x) with
  | none =>
    rw [hown, Option.none_or, hr] at hfind
    refine ⟨r, hfind, fun f => ?_⟩
    rw [h.unset (fun r' hr' => ?_) f]
    · rfl
    · exact of_decide_eq_false (Bool.eq_false_iff.mpr
        (List.find?_eq_none.mp hown r' (List.mem_reverse.mpr hr')))
  | some r' =>
    rw [hown, Option.some_or] at hfind
    have hmem := List.mem_reverse.mp (List.mem_of_find?_eq_some hown)
    have hkey : r'.id = x := of_decide_eq_true (List.find?_some hown :)
    obtain ⟨r₁, hheld, hx, hget⟩ := h.row r' hmem hkey
    have hcommitted := (hs.anchored i hrun).held .transactions r₁ hheld
    have hr₁ : (s.db .transactions).find? x = some r₁ := by
      rw [← hx]
      exact hcommitted
    obtain rfl := Option.some.inj (hr.symm.trans hr₁)
    exact ⟨r', hfind, hget⟩

theorem Audited.commit (hcalls : ∀ i, Touches x (calls i).request)
    (hs : Sound (fun i => (calls i).handle) s) (h : Audited x calls db s past) {reply : Reply}
    (hp : (s.party i).phase = .running (.ret reply)) :
    Audited x calls db (s.commit i reply) (past ++ [(i, reply)]) := by
  have htraces : Traces x (written x (calls i) reply (s.party i).loc) (s.party i).loc :=
    traces_handle (hcalls i) ((hs.trace i).running _ hp _ _ ⟨rfl, rfl⟩)
  have hparty : ∀ p ∈ past, (s.commit i reply).party p.1 = s.party p.1 := by
    intro p hmem
    refine State.party_commit_ne _ _ fun heq => ?_
    have hcommitted := h.committed p hmem
    rw [heq, hp] at hcommitted
    cases hcommitted
  refine ⟨fun p hmem => ?_, fun e he => ?_, fun r₀ hr₀ => ?_⟩
  · rcases List.mem_append.mp hmem with hmem | hmem
    · rw [hparty p hmem, h.committed p hmem]
    · rw [List.mem_singleton.mp hmem, State.party_commit_self]
  · rcases mem_overlay he with he | ⟨he, -⟩
    · refine .inr ⟨(i, reply), List.mem_append_right _ List.mem_cons_self, ?_⟩
      rw [State.party_commit_self]
      exact he
    · refine (h.entries e he).imp_right ?_
      rintro ⟨p, hmem, he⟩
      exact ⟨p, List.mem_append_left _ hmem, by rwa [hparty p hmem]⟩
  · obtain ⟨r, hr, hget⟩ := h.values r₀ hr₀
    obtain ⟨r', hr', hget'⟩ := row_of_commit hs reply hp htraces hr
    refine ⟨r', hr', fun f => ?_⟩
    rw [hget', lastSet_append, lastSet_congr hparty, State.party_commit_self, hget f]
    cases written x (calls i) reply (s.party i).loc f <;> rfl

variable [Fintype ι]

/-- Updates, deletes and restores of a transaction beside the requests that
touch it by cascade, in any interleaving. Every new entry of the transaction is
of a request that committed, shows two images one version apart, and they differ
only in fields that this request set. In the end every field has what the last
committed request that set it wrote there. -/
theorem ledger_entries_coherent (x : Uuid) (calls : ι → Call)
    (hcalls : ∀ i, Touches x (calls i).request) (db : Db) (events : List (Event ι)) :
    let s := (State.start db fun i => (calls i).handle).run events
    let past := (State.start db fun i => (calls i).handle).history events
    (∀ e ∈ s.db.rows .activityLog, e ∉ db.rows .activityLog →
      isEntryOf "transaction" x e = true →
      ∃ p ∈ past, e ∈ (s.party p.1).loc.own .activityLog ∧
        ∃ b a : TransactionResponse, e.beforeSnapshot = some (.transaction b) ∧
          e.afterSnapshot = some (.transaction a) ∧ a.version = b.version + 1 ∧
          ∀ f : LedgerField, f.get a.toTransactionRow ≠ f.get b.toTransactionRow →
            (written x (calls p.1) p.2 (s.party p.1).loc f).isSome) ∧
    ∀ r₀, ledgerRow db x = some r₀ → ∃ r, ledgerRow s.db x = some r ∧
      ∀ f : LedgerField, f.get r = (lastSet x calls s past f).getD (f.get r₀) := by
  intro s past
  have hstart := sound_start db fun i => (calls i).handle
  have hs : Sound (fun i => (calls i).handle) s := State.sound_run hstart
  have haudited : Audited x calls db s ([] ++ past) := by
    refine State.run_history ?_ ?_ hstart ?_ (State.along_true _ _)
    · intro s past i p phase l' _ h hp _
      refine h.congr rfl fun q hq => State.party_set_ne _ _ _ fun heq => ?_
      have hcommitted := h.committed q hq
      rw [heq, hp] at hcommitted
      cases hcommitted
    · exact fun s past i reply hs h _ hp _ => h.commit hcalls hs hp
    · exact ⟨fun p hp => absurd hp List.not_mem_nil, fun e he => .inl he,
        fun r₀ hr₀ => ⟨r₀, hr₀, fun _ => rfl⟩⟩
  refine ⟨fun e he hnew hentry => ?_, haudited.values⟩
  obtain hold | ⟨p, hp, hown⟩ := haudited.entries e he
  · exact absurd hold hnew
  · have htraces := traces_handle (hcalls p.1)
      ((hs.trace p.1).committed p.2 (haudited.committed p hp))
    obtain ⟨b, a, hb, ha, hversion, hset⟩ := htraces.entry e hown hentry
    refine ⟨p, hp, hown, b, a, hb, ha, hversion, fun f hne => ?_⟩
    rw [hset f] at hne
    cases hw : written x (calls p.1) p.2 (s.party p.1).loc f with
    | none => exact absurd (by rw [hw]; rfl) hne
    | some v => rfl

end Runs

end

section Ledger

open Ascii

/-- Two PUTs of the lunch, the transaction 30: one names the title, the other
the amount. -/
def lunchEdits (i : Fin 2) : Call :=
  callAt (10 + i.val) (.updateTransaction 30
    { title := if i = 0 then some (some "Dinner".toList) else none
      amountCents := if i = 0 then none else some (some (-700))
      date := none, accountId := none, categoryId := none, description := none, hashtagIds := none
      reconciliationId := none })

/-- Both look before the first one has the lock; the second waits for it. -/
def lunchRace : List (Event (Fin 2)) :=
  [Event.act 0, .act 1] ++ List.replicate 5 (Event.act 0) ++ [Event.act 1] ++
    List.replicate 2 (Event.act 0) ++ List.replicate 7 (Event.act 1)

theorem ledger_entries_coherent_lunch :
    ∃ r, ledgerRow ((State.start (run blank setup) fun i => (lunchEdits i).handle).run
        lunchRace).db 30 = some r ∧ r.title = "Dinner".toList ∧ r.amountCents = 700 := by
  have h := ledger_entries_coherent 30 lunchEdits (fun i => .update _) (run blank setup) lunchRace
  obtain ⟨r₀, hr₀⟩ := Option.isSome_iff_exists.mp
    (by decide +kernel : (ledgerRow (run blank setup) 30).isSome)
  obtain ⟨r, hr, hget⟩ := h.2 r₀ hr₀
  have htitle := hget .title
  have hamount := hget .amountCents
  rw [show lastSet 30 lunchEdits _ _ .title = some (.text (some "Dinner".toList)) by
    decide +kernel] at htitle
  rw [show lastSet 30 lunchEdits _ _ .amountCents = some (.number 700) by
    decide +kernel] at hamount
  exact ⟨r, hr, by simpa [LedgerField.get] using htitle, by simpa [LedgerField.get] using hamount⟩

end Ledger

end ExpenseEngine
