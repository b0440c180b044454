import ExpenseEngine.Effects.Step

/-!
# Helpers that only read

The guards of the services: fetches, checks and snapshots. They write no table,
so the statements of a service are those of its other helpers.
-/

namespace ExpenseEngine

open Sql Sql.Prog

namespace StatementLemmas

variable [Platform] {W : Tbl → Prop} {env : Env} {userId : Uuid}

@[simp] theorem readOnly_fetch {l : Label} {t : Tbl} {w : Row t → Bool} :
    (fetch l t w).WritesOnly W := writesOnly_read _ _

@[simp] theorem readOnly_fetchRow {l : Label} {t : Tbl} {w : Row t → Bool} :
    (fetchRow l t w).WritesOnly W := writesOnly_read _ _

@[simp] theorem readOnly_fetchRowForUpdate {t : Tbl} {w : Row t → Bool} :
    (fetchRowForUpdate t w).WritesOnly W :=
  WritesOnly.bind (writesOnly_selectForUpdate _ _ _) fun _ => trivial

section Owned

variable {t : Tbl} [OwnedTable t] {id : Uuid} {resource : String} {s : RowState}

@[simp] theorem readOnly_fetchOwnedRowOr404 :
    (fetchOwnedRowOr404 t id userId resource s).WritesOnly W :=
  WritesOnly.bind readOnly_fetchRow fun _ => writesOnly_orRaise _ _

@[simp] theorem readOnly_lockOwnedRowOr404 :
    (lockOwnedRowOr404 t id userId resource s).WritesOnly W :=
  WritesOnly.bind readOnly_fetchRowForUpdate fun _ => writesOnly_orRaise _ _

end Owned

/-! ## References and links -/

@[simp] theorem readOnly_normalizeName {name : Text} {field : String} :
    (normalizeName name field).WritesOnly W := writesOnly_orRaise _ _

@[simp] theorem readOnly_validateColor {value : Option Text} :
    (validateColor value).WritesOnly W := writesOnly_raiseIf _ _

@[simp] theorem readOnly_rejectZeroAmount {value : Option Int} :
    (rejectZeroAmount value).WritesOnly W := writesOnly_raiseIf _ _

@[simp] theorem readOnly_rejectSystemCategory {category : Row .categories} :
    (rejectSystemCategory category).WritesOnly W := writesOnly_raiseIf _ _

@[simp] theorem readOnly_dbNow : (dbNow env).WritesOnly W := trivial

@[simp] theorem readOnly_activeAccountRow {a : Uuid} : (activeAccountRow a userId).WritesOnly W :=
  readOnly_fetchRow

@[simp] theorem readOnly_activeCategoryRow {c : Uuid} :
    (activeCategoryRow c userId).WritesOnly W := readOnly_fetchRow

@[simp] theorem readOnly_validateActiveAccount {a : Uuid} :
    (validateActiveAccount a userId).WritesOnly W :=
  WritesOnly.bind readOnly_activeAccountRow fun _ => writesOnly_orRaise _ _

@[simp] theorem readOnly_validateActiveCategory {c : Uuid} :
    (validateActiveCategory c userId).WritesOnly W :=
  WritesOnly.bind readOnly_activeCategoryRow fun _ => writesOnly_orRaise _ _

@[simp] theorem readOnly_activeAccountIds {ids : List Uuid} :
    (activeAccountIds ids userId).WritesOnly W := by
  unfold activeAccountIds
  split
  · trivial
  · exact WritesOnly.bind readOnly_fetch fun _ => trivial

@[simp] theorem readOnly_activeCategoryIds {ids : List Uuid} :
    (activeCategoryIds ids userId).WritesOnly W := by
  unfold activeCategoryIds
  split
  · trivial
  · exact WritesOnly.bind readOnly_fetch fun _ => trivial

@[simp] theorem readOnly_fetchHashtagIds {parentId : Uuid} {source : TransactionSource} :
    (fetchHashtagIds parentId source).WritesOnly W := writesOnly_read _ _

@[simp] theorem readOnly_attachHashtagIds {row : Row .transactions} :
    (attachHashtagIds row).WritesOnly W :=
  WritesOnly.bind readOnly_fetchHashtagIds fun _ => trivial

@[simp] theorem readOnly_attachHashtagIdsAll {rows : List (Row .transactions)} :
    (attachHashtagIdsAll rows).WritesOnly W := writesOnly_read _ _

@[simp] theorem readOnly_attachInboxHashtagIds {row : Row .transactionInbox} :
    (attachInboxHashtagIds row).WritesOnly W :=
  WritesOnly.bind readOnly_fetchHashtagIds fun _ => trivial

@[simp] theorem readOnly_fetchValidHashtags {ids : List Uuid} :
    (fetchValidHashtags userId ids).WritesOnly W :=
  WritesOnly.bind readOnly_fetch fun _ => trivial

/-! ## Transactions, drafts and reconciliations -/

@[simp] theorem readOnly_fetchReconStatus {id : Uuid} :
    (fetchReconStatus userId id).WritesOnly W := readOnly_fetchRow

@[simp] theorem readOnly_checkCompletedLock {row : Row .transactions}
    {fields : TransactionFields} {reconId : Sent Uuid} :
    (checkCompletedLock userId row fields reconId).WritesOnly W := by
  unfold checkCompletedLock
  split
  · trivial
  · exact WritesOnly.bind readOnly_fetchReconStatus fun _ => writesOnly_raiseIf _ _

@[simp] theorem readOnly_checkAssignment {row : Row .transactions}
    {fields : TransactionFields} {reconId : Sent Uuid} :
    (checkAssignment userId row fields reconId).WritesOnly W := by
  unfold checkAssignment
  split
  · refine WritesOnly.bind readOnly_fetchRow fun _ => ?_
    refine WritesOnly.bind (writesOnly_orRaise _ _) fun _ => ?_
    exact WritesOnly.bind (writesOnly_raiseIf _ _) fun _ => writesOnly_raiseIf _ _
  · trivial

@[simp] theorem readOnly_validateNewAccount {a : Option Uuid} :
    (validateNewAccount userId a).WritesOnly W := by
  cases a with
  | none => trivial
  | some a => exact WritesOnly.bind readOnly_validateActiveAccount fun _ => trivial

@[simp] theorem readOnly_validateNewCategory {c : Option Uuid} :
    (validateNewCategory userId c).WritesOnly W := by
  cases c with
  | none => trivial
  | some c =>
    exact WritesOnly.bind readOnly_validateActiveCategory fun _ => readOnly_rejectSystemCategory

@[simp] theorem readOnly_normalizeNewTitle {title : Option Text} :
    (normalizeNewTitle title).WritesOnly W := by
  cases title with
  | none => trivial
  | some t => exact WritesOnly.bind readOnly_normalizeName fun _ => trivial

@[simp] theorem readOnly_validateNewDate {d : Option Timestamp} :
    (validateNewDate env d).WritesOnly W := by
  cases d with
  | none => trivial
  | some d => exact WritesOnly.bind readOnly_dbNow fun _ => writesOnly_raiseIf _ _

@[simp] theorem readOnly_checkNotCompleted {id : Option Uuid} :
    (checkNotCompleted userId id).WritesOnly W := by
  cases id with
  | none => trivial
  | some id => exact WritesOnly.bind readOnly_fetchReconStatus fun _ => writesOnly_raiseIf _ _

@[simp] theorem readOnly_decideUnlink {id : Option Uuid} :
    (decideUnlink userId id).WritesOnly W := by
  cases id with
  | none => trivial
  | some id => exact WritesOnly.bind readOnly_fetchReconStatus fun _ => trivial

@[simp] theorem readOnly_liftExcept {α : Type} {e : Except AppError α} :
    (liftExcept e).WritesOnly W := by
  cases e <;> trivial

@[simp] theorem readOnly_validateDraftCategory {c : Option Uuid} :
    (validateDraftCategory userId c).WritesOnly W := by
  cases c with
  | none => trivial
  | some c => exact WritesOnly.bind readOnly_validateActiveCategory fun _ => trivial

@[simp] theorem readOnly_validateDraftAccount {a : Option Uuid} :
    (validateDraftAccount userId a).WritesOnly W := readOnly_validateNewAccount

@[simp] theorem readOnly_promoteAccount {a : Option Uuid} :
    (promoteAccount userId a).WritesOnly W := by
  cases a with
  | none => trivial
  | some a => exact readOnly_activeAccountRow

@[simp] theorem readOnly_promoteCategory {c : Option Uuid} :
    (promoteCategory userId c).WritesOnly W := by
  cases c with
  | none => trivial
  | some c => exact readOnly_activeCategoryRow

@[simp] theorem readOnly_normalizeNewName {name : Option Text} :
    (normalizeNewName name).WritesOnly W := by
  cases name with
  | none => trivial
  | some n => exact WritesOnly.bind readOnly_normalizeName fun _ => trivial

/-! ## Accounts, categories, hashtags and users -/

@[simp] theorem readOnly_nameTaken {t : Tbl} [NamedTable t] {name : Text} {exclude : Option Uuid}
    {scope : Row t → Bool} : (nameTaken t userId name exclude scope).WritesOnly W :=
  writesOnly_read _ _

@[simp] theorem readOnly_slotOrNext {t : Tbl} [NamedTable t] {scope : Row t → Bool}
    {given : Option Int} : (slotOrNext t userId scope given).WritesOnly W := by
  cases given with
  | none => exact writesOnly_nextSortOrder
  | some n => trivial

@[simp] theorem readOnly_rejectReservedName {name : Text} :
    (rejectReservedName name).WritesOnly W := writesOnly_raiseIf _ _

@[simp] theorem readOnly_normalizeRename {t : Tbl} [NamedTable t] {resourceType : String}
    {id : Uuid} {rename : Option Text} {checkName : Row t → Text → Op Unit} {row : Row t}
    (hcheck : ∀ r n, (checkName r n).WritesOnly W) :
    (updateNamedResource.normalizeRename userId t resourceType id rename checkName row).WritesOnly
      W := by
  cases rename with
  | none => trivial
  | some n =>
    refine WritesOnly.bind readOnly_normalizeName fun n => ?_
    refine WritesOnly.bind (hcheck row n) fun _ => ?_
    refine WritesOnly.bind readOnly_nameTaken fun _ => ?_
    exact WritesOnly.bind (writesOnly_raiseIf _ _) fun _ => trivial

@[simp] theorem readOnly_fetchBalance {accountId : Uuid} :
    (fetchBalance userId accountId).WritesOnly W := by
  refine WritesOnly.bind ?_ fun _ => trivial
  refine WritesOnly.bind (writesOnly_read _ _) fun balances => ?_
  show WritesOnly W (if _ then _ else _)
  split <;> trivial

@[simp] theorem readOnly_getUserReportSettings : (getUserReportSettings userId).WritesOnly W := by
  refine WritesOnly.bind readOnly_fetchRow fun _ => WritesOnly.bind (writesOnly_orRaise _ _) ?_
  exact fun _ => WritesOnly.bind (writesOnly_raiseIf _ _) fun _ => trivial

@[simp] theorem readOnly_getRate {source target : Text} {asOf : Date} :
    (getRate env source target asOf).WritesOnly W := by
  simp only [getRate]
  split
  · trivial
  · exact WritesOnly.bind (writesOnly_read _ _) fun _ => writesOnly_orRaise _ _

@[simp] theorem readOnly_convertBalance {cents : Int} {rate : Option Rat} :
    (convertBalance cents rate).WritesOnly W := by
  cases rate with
  | none => trivial
  | some _ => exact WritesOnly.bind (writesOnly_orRaise _ _) fun _ => trivial

@[simp] theorem readOnly_fetchHomeBalance {currency : Text} {cents : Int} :
    (fetchHomeBalance env userId currency cents).WritesOnly W :=
  WritesOnly.bind readOnly_getUserReportSettings fun _ =>
    WritesOnly.bind readOnly_getRate fun _ => readOnly_convertBalance

@[simp] theorem readOnly_fetchBothBalances {row : Row .bankAccounts} :
    (fetchBothBalances env userId row).WritesOnly W :=
  WritesOnly.bind readOnly_fetchBalance fun _ =>
    WritesOnly.bind readOnly_fetchHomeBalance fun _ => trivial

@[simp] theorem readOnly_renameAccount {row : Row .bankAccounts} {name : Option Text} :
    (renameAccount userId row name).WritesOnly W := by
  cases name with
  | none => trivial
  | some n =>
    refine WritesOnly.bind readOnly_normalizeName fun _ => ?_
    refine WritesOnly.bind readOnly_nameTaken fun _ => ?_
    exact WritesOnly.bind (writesOnly_raiseIf _ _) fun _ => trivial

@[simp] theorem readOnly_validateTimezone {tz : Text} {field : String} :
    (validateTimezone tz field).WritesOnly W := EffectLemmas.writesOnly_validateTimezone

@[simp] theorem readOnly_validateNewTimezone {tz : Option Text} :
    (validateNewTimezone tz).WritesOnly W := by
  cases tz with
  | none => trivial
  | some tz => exact readOnly_validateTimezone

end StatementLemmas

end ExpenseEngine
