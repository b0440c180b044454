import ExpenseEngine.Invariants.Audit
import ExpenseEngine.Races.Handlers

/-!
# Deletes and restores of one row

Accounts, categories, hashtags and reconciliations are deleted and restored
through `soft_delete_with_audit` and `restore_with_audit`. The UPDATE of a
restore asks for a deleted row; that of a delete asks for nothing, so a delete
whose row another transaction has deleted since it looked deletes it again.

Results:
1. `among_flips`: a request that succeeds flips a row it has locked and enters
   that in the log.
2. `ends_flip`: a request that fails is refused with a 404 or 409, or found the
   row in the state it wants.
3. `flips_alternate`: while no delete locks a deleted row, the entries alternate,
   one flip and one version to each.
4. `double_delete_entries`: two deletes that look before either writes.
-/

namespace ExpenseEngine

open Sql Sql.Prog HandlerLemmas StatementLemmas EffectLemmas

/-! ## The requests -/

/-- The resources that are deleted and restored through the audited helpers. -/
inductive Named | account | category | hashtag | reconciliation
  deriving DecidableEq

inductive Flip | delete | restore
  deriving DecidableEq

namespace Named

def tbl : Named → Tbl
  | .account => .bankAccounts
  | .category => .categories
  | .hashtag => .hashtags
  | .reconciliation => .reconciliations

def resourceType : Named → String
  | .account => "account"
  | .category => "category"
  | .hashtag => "hashtag"
  | .reconciliation => "reconciliation"

instance : (n : Named) → OwnedTable n.tbl
  | .account => inferInstanceAs (OwnedTable .bankAccounts)
  | .category => inferInstanceAs (OwnedTable .categories)
  | .hashtag => inferInstanceAs (OwnedTable .hashtags)
  | .reconciliation => inferInstanceAs (OwnedTable .reconciliations)

end Named

namespace Flip

def request : Flip → Named → Uuid → Request
  | .delete, .account, id => .deleteAccount id
  | .delete, .category, id => .deleteCategory id
  | .delete, .hashtag, id => .deleteHashtag id
  | .delete, .reconciliation, id => .deleteReconciliation id
  | .restore, .account, id => .restoreAccount id
  | .restore, .category, id => .restoreCategory id
  | .restore, .hashtag, id => .restoreHashtag id
  | .restore, .reconciliation, id => .restoreReconciliation id

def action : Flip → ActivityAction
  | .delete => .deleted
  | .restore => .restored

/-- The `deleted_at` that the request writes. -/
def deletedAt (now : Timestamp) : Flip → Option Timestamp
  | .delete => some now
  | .restore => none

end Flip

/-! ## What the log shows -/

/-- The state of a row after the entries, which have to alternate: a row is
deleted while it is active and restored while it is not. -/
def afterFlips : Bool → List ActivityAction → Option Bool
  | active, [] => some active
  | true, .deleted :: rest => afterFlips false rest
  | false, .restored :: rest => afterFlips true rest
  | _, _ :: _ => none

theorem afterFlips_append (active : Bool) (l l' : List ActivityAction) :
    afterFlips active (l ++ l') = (afterFlips active l).bind fun a => afterFlips a l' := by
  fun_induction afterFlips active l <;> simp_all [afterFlips]

/-- What has a state after it alternates. -/
theorem isChain_of_afterFlips {active after : Bool} {flips : List Flip}
    (h : afterFlips active (flips.map Flip.action) = some after) : flips.IsChain (· ≠ ·) := by
  induction flips generalizing active with
  | nil => exact .nil
  | cons k flips ih =>
    cases flips with
    | nil => exact .singleton k
    | cons k' flips =>
      have hne : k ≠ k' := by
        rintro rfl
        cases active <;> cases k <;> simp [afterFlips, Flip.action] at h
      refine .cons_cons hne ?_
      cases active <;> cases k <;>
        simp only [List.map_cons, Flip.action, afterFlips, reduceCtorEq] at h
      · exact ih h
      · exact ih h

/-- The flips of the commits that are not replays, in order. -/
def flipsOf {ι : Type} (kind : ι → Flip) (past : List (ι × Reply)) : List Flip :=
  past.filterMap fun x =>
    match x.2 with
    | .fresh _ => some (kind x.1)
    | .cached _ _ => none

theorem flipsOf_fresh {ι : Type} {kind : ι → Flip} {past : List (ι × Reply)} {i : ι} {body : Body} :
    flipsOf kind (past ++ [(i, .fresh body)]) = flipsOf kind past ++ [kind i] := by
  simp [flipsOf]

theorem flipsOf_cached {ι : Type} {kind : ι → Flip} {past : List (ι × Reply)} {i : ι} {body : Body}
    {status : Nat} :
    flipsOf kind (past ++ [(i, .cached body status)]) = flipsOf kind past := by
  simp [flipsOf]

section

variable [Platform] {env : Env} {userId : Uuid}

/-! ## One request -/

/-- The transaction flips a row `id` that it has locked, and enters that in the
log. The UPDATE of a restore asks for a deleted row. -/
def FlipsRow (n : Named) (id : Uuid) (k : Flip) (now : Timestamp) (l : Loc) : Prop :=
  ∃ (r : Row n.tbl) (e : Row .activityLog),
    Rewrote n.tbl r ((marked n.tbl now (k.deletedAt now)).apply r) l ∧ Entered e l ∧
      (OwnedTable.resource r).id = id ∧
      (k = .restore → (OwnedTable.resource r).deletedAt ≠ none) ∧
      isEntryOf n.resourceType id e = true ∧ e.action = k.action

/-- The UPDATE of the request. -/
def Flip.mutate (env : Env) (n : Named) : Flip → Uuid → Uuid → Op (Option (Row n.tbl))
  | .delete => softDelete env n.tbl
  | .restore => ExpenseEngine.restore env n.tbl

/-- The state of `deleted_at` that the UPDATE asks for. -/
def Flip.asks : Flip → RowState
  | .delete => .either
  | .restore => .deleted

omit [Platform] in
theorem key_of_owns {n : Named} {id : Uuid} {s s' : RowState} {r r' : Row n.tbl}
    (h : owns n.tbl id userId s r = true) (h' : owns n.tbl id userId s' r' = true) :
    keyOf n.tbl r = keyOf n.tbl r' := by
  simp only [owns, Bool.and_eq_true, decide_eq_true_eq] at h h'
  cases n <;> exact h.1.1.trans h'.1.1.symm

theorem among_flip {n : Named} {id : Uuid} {k : Flip} {s : RowState} {row : Row n.tbl}
    {before : Body} {serialize : Row n.tbl → Op Body} (hrow : owns n.tbl id userId s row = true)
    (hser : ∀ r, (serialize r).WritesOnly fun _ => False) :
    Among (Clean n.tbl)
      (mutateWithAudit env userId n.tbl n.resourceType row before serialize (k.mutate env n)
        k.action)
      fun _ => FlipsRow n id k env.now := by
  obtain rfl : (OwnedTable.resource row).id = id := by
    simp only [owns, Bool.and_eq_true, decide_eq_true_eq] at hrow
    exact hrow.1.1
  refine (among_mutateWithAudit (w := owns n.tbl (OwnedTable.resource row).id userId k.asks)
    (f := marked n.tbl env.now (k.deletedAt env.now)) (by cases n <;> simp [Named.tbl])
    (by cases k <;> rfl) (fun r hr => key_of_owns hr hrow) hser).weaken (fun _ h => h) ?_
  rintro after l ⟨r, after, hr, hrewrote, hentered⟩
  simp only [owns, Bool.and_eq_true, decide_eq_true_eq] at hr
  refine ⟨r, _, hrewrote, hentered, hr.1.1, ?_, by simp [isEntryOf, logEntry], rfl⟩
  rintro rfl
  exact Option.isSome_iff_ne_none.mp hr.2

theorem among_deleteAccount {id : Uuid} :
    Among (Clean .bankAccounts) (deleteAccount env userId id)
      fun _ => FlipsRow .account id .delete env.now := by
  unfold deleteAccount
  refine among_fetchOwnedRow clean_reads fun row hrow => ?_
  refine among_guard clean_reads readOnly_fetchRow fun _ => ?_
  refine among_guard clean_reads (writesOnly_raiseIf _ _) fun _ => ?_
  refine among_guard clean_reads readOnly_fetchBothBalances fun _ => ?_
  exact among_flip (k := .delete) (n := .account) hrow fun _ => trivial

theorem among_restoreAccount {id : Uuid} :
    Among (Clean .bankAccounts) (restoreAccount env userId id)
      fun _ => FlipsRow .account id .restore env.now := by
  unfold restoreAccount
  refine among_fetchOwnedRow clean_reads fun row hrow => ?_
  refine among_guard clean_reads readOnly_nameTaken fun _ => ?_
  refine among_guard clean_reads (writesOnly_raiseIf _ _) fun _ => ?_
  refine among_guard clean_reads readOnly_fetchBothBalances fun _ => ?_
  exact among_flip (k := .restore) (n := .account) hrow fun _ => trivial

theorem among_deleteCategory {id : Uuid} :
    Among (Clean .categories) (deleteCategory env userId id)
      fun _ => FlipsRow .category id .delete env.now := by
  unfold deleteCategory
  refine among_fetchOwnedRow clean_reads fun row hrow => ?_
  refine among_guard clean_reads (writesOnly_raiseIf _ _) fun _ => ?_
  refine among_guard clean_reads readOnly_fetchRow fun _ => ?_
  refine among_guard clean_reads (writesOnly_raiseIf _ _) fun _ => ?_
  refine among_guard clean_reads readOnly_fetchRow fun _ => ?_
  refine among_guard clean_reads (writesOnly_raiseIf _ _) fun _ => ?_
  exact among_flip (k := .delete) (n := .category) hrow fun _ => trivial

theorem among_restoreCategory {id : Uuid} :
    Among (Clean .categories) (restoreCategory env userId id)
      fun _ => FlipsRow .category id .restore env.now := by
  unfold restoreCategory
  refine among_fetchOwnedRow clean_reads fun row hrow => ?_
  refine among_guard clean_reads writesOnly_checkCategoryName fun _ => ?_
  refine among_guard clean_reads readOnly_nameTaken fun _ => ?_
  refine among_guard clean_reads (writesOnly_raiseIf _ _) fun _ => ?_
  exact among_flip (k := .restore) (n := .category) hrow fun _ => trivial

/-- The junction rows and their parents are written on the way. -/
theorem among_deleteHashtag {id : Uuid} :
    Among (Clean .hashtags) (deleteHashtag env userId id)
      fun _ => FlipsRow .hashtag id .delete env.now := by
  unfold deleteHashtag
  refine among_fetchOwnedRow clean_reads fun row hrow => ?_
  refine Among.skip (W := (· = .transactionHashtags)) (writesOnly_updateWhere rfl)
    (clean_framed (by simp) (by simp)) fun affected => ?_
  refine Among.skip (W := (· = .transactions)) (writesOnly_bumpParents rfl)
    (clean_framed (by simp) (by simp)) fun _ => ?_
  refine Among.skip (W := (· = .transactionInbox)) (writesOnly_bumpParents rfl)
    (clean_framed (by simp) (by simp)) fun _ => ?_
  exact among_flip (k := .delete) (n := .hashtag) hrow fun _ => trivial

theorem among_restoreHashtag {id : Uuid} :
    Among (Clean .hashtags) (restoreHashtag env userId id)
      fun _ => FlipsRow .hashtag id .restore env.now := by
  unfold restoreHashtag
  refine among_fetchOwnedRow clean_reads fun row hrow => ?_
  refine among_guard clean_reads readOnly_nameTaken fun _ => ?_
  refine among_guard clean_reads (writesOnly_raiseIf _ _) fun _ => ?_
  exact among_flip (k := .restore) (n := .hashtag) hrow fun _ => trivial

/-- The members are unassigned on the way. -/
theorem among_deleteReconciliation {id : Uuid} :
    Among (Clean .reconciliations) (deleteReconciliation env userId id)
      fun _ => FlipsRow .reconciliation id .delete env.now := by
  unfold deleteReconciliation
  refine among_fetchReconciliation clean_reads fun row hrow => ?_
  refine among_guard clean_reads (writesOnly_raiseIf _ _) fun _ => ?_
  refine Among.skip (W := (· = .transactions)) (writesOnly_updateWhere rfl)
    (clean_framed (by simp) (by simp)) fun _ => ?_
  exact among_flip (k := .delete) (n := .reconciliation) hrow
    fun _ => writesOnly_refetchReconciliation

theorem among_restoreReconciliation {id : Uuid} :
    Among (Clean .reconciliations) (restoreReconciliation env userId id)
      fun _ => FlipsRow .reconciliation id .restore env.now := by
  unfold restoreReconciliation
  refine among_fetchReconciliation clean_reads fun row hrow => ?_
  exact among_flip (k := .restore) (n := .reconciliation) hrow
    fun _ => writesOnly_refetchReconciliation

theorem among_flips {n : Named} {id : Uuid} {k : Flip} :
    Among Blank ((k.request n id).work env userId) fun _ => FlipsRow n id k env.now := by
  have hclean : ∀ l : Loc, Blank l → Clean n.tbl l := fun _ h => Blank.clean h _
  cases n <;> cases k
  · exact among_deleteAccount.weaken hclean fun _ _ h => h
  · exact among_restoreAccount.weaken hclean fun _ _ h => h
  · exact among_deleteCategory.weaken hclean fun _ _ h => h
  · exact among_restoreCategory.weaken hclean fun _ _ h => h
  · exact among_deleteHashtag.weaken hclean fun _ _ h => h
  · exact among_restoreHashtag.weaken hclean fun _ _ h => h
  · exact among_deleteReconciliation.weaken hclean fun _ _ h => h
  · exact among_restoreReconciliation.weaken hclean fun _ _ h => h

theorem flipsRow_framed {n : Named} {id : Uuid} {k : Flip} {now : Timestamp} :
    Among.Framed (· = .idempotencyKeys) (FlipsRow n id k now) := by
  rintro l l' hg ⟨r, e, hr, he, h⟩
  have ht : n.tbl ≠ .idempotencyKeys := by cases n <;> simp [Named.tbl]
  exact ⟨r, e, rewrote_framed (W := (· = .idempotencyKeys)) ht hg hr,
    entered_framed (by simp) hg he, h⟩

/-! ## What a request answers -/

/-- The state of `deleted_at` in which the request changes the row. -/
def Flip.wants : Flip → RowState
  | .delete => .active
  | .restore => .deleted

/-- The request has looked at the row and found it in the state it wants. -/
def Looked (n : Named) (id userId : Uuid) (k : Flip) (l : Loc) : Prop :=
  ∃ e ∈ l.seen, ∃ r ∈ e.view.rows n.tbl, owns n.tbl id userId k.wants r = true

/-- No UPDATE has been looked up yet, and no row of the table is locked. -/
def Unwritten (n : Named) (l : Loc) : Prop :=
  (∀ e ∈ l.seen, e.label ≠ .scan) ∧ l.held n.tbl = [] ∧ l.own n.tbl = []

/-- A restore that has come to its UPDATE has found the row deleted. -/
def Restored (n : Named) (l : Loc) : Prop :=
  ((∀ e ∈ l.seen, e.label ≠ .scan) ∨ l.held n.tbl ≠ []) ∧
    ∀ r ∈ l.held n.tbl, (OwnedTable.resource r).deletedAt ≠ none

def OnTime (n : Named) (id userId : Uuid) (k : Flip) (l : Loc) : Prop :=
  Looked n id userId k l ∧ (k = .restore → Restored n l)

def Refused : Failure AppError → Prop
  | .raised e => e.statusCode = 404 ∨ e.statusCode = 409
  | .database => False

/-- The request is refused with a 404 or 409, or the row was in the state it
wants whenever it came to it. -/
def Answers {α : Type} (n : Named) (id userId : Uuid) (k : Flip) :
    Except (Failure AppError) α → Loc → Prop
  | .ok _, l => OnTime n id userId k l
  | .error f, l => Refused f ∨ OnTime n id userId k l

section Answers

variable {n : Named} {id : Uuid} {k : Flip} {α β : Type}

theorem answers_of_onTime {res : Except (Failure AppError) α} {l : Loc}
    (h : OnTime n id userId k l) : Answers n id userId k res l := by
  cases res with
  | ok a => exact h
  | error f => exact .inr h

theorem looked_framed {W : Tbl → Prop} : Among.Framed W (Looked n id userId k) :=
  fun _ _ hg ⟨e, he, h⟩ => ⟨e, hg.extended.seen.subset he, h⟩

theorem Restored.of_unwritten {l : Loc} (h : Unwritten n l) : Restored n l :=
  ⟨.inl h.1, by simp [h.2.1]⟩

/-- A program without locks and scans of its own leaves the rows as they are. -/
theorem restored_locksNone {p : Op α} (hp : p.LocksNone (· ≠ .scan)) {l l' : Loc}
    {res : Except (Failure AppError) α} (hl : Restored n l) (h : p.Runs l res l') :
    Restored n l' := by
  obtain ⟨hheld, hseen⟩ := h.locksNone hp
  rw [Restored, hheld]
  exact ⟨hl.1.imp_left fun hscan e he => (hseen e he).elim (hscan e) (fun h => h), hl.2⟩

theorem onTime_locksNone {p : Op α} (hp : p.LocksNone (· ≠ .scan)) {l l' : Loc}
    {res : Except (Failure AppError) α} (hl : OnTime n id userId k l) (h : p.Runs l res l') :
    OnTime n id userId k l' :=
  ⟨looked_framed (h.grows (writesOnly_true p)) hl.1, fun hk => restored_locksNone hp (hl.2 hk) h⟩

theorem unwritten_locksNone {p : Op α} (hp : p.LocksNone (· ≠ .scan))
    (hw : p.WritesOnly fun _ => False) {l l' : Loc} {res : Except (Failure AppError) α}
    (hl : Unwritten n l) (h : p.Runs l res l') : Unwritten n l' := by
  obtain ⟨hheld, hseen⟩ := h.locksNone hp
  refine ⟨fun e he => (hseen e he).elim (hl.1 e) (fun h => h), ?_, ?_⟩
  · rw [hheld, hl.2.1]
  · rw [h.own_eq hw not_false, hl.2.2]

/-- What comes after the look of a delete does not matter. -/
theorem ends_delete {p : Op α} :
    Ends (fun l => Unwritten n l ∧ Looked n id userId .delete l) p
      (Answers n id userId .delete) := by
  intro l res l' hl h
  exact answers_of_onTime ⟨looked_framed (h.grows (writesOnly_true p)) hl.2, nofun⟩

/-- A guard of a restore. -/
theorem ends_guard {p : Op β} {g : β → Op α} (hp : p.LocksNone (· ≠ .scan))
    (hw : p.WritesOnly fun _ => False)
    (hg : ∀ b, Ends (fun l => Unwritten n l ∧ Looked n id userId k l) (g b)
      (Answers n id userId k)) :
    Ends (fun l => Unwritten n l ∧ Looked n id userId k l) (p >>= g) (Answers n id userId k) := by
  refine Ends.bind (Q := fun _ l => Unwritten n l ∧ Looked n id userId k l) ?_ ?_ hg
  · intro l f l' hl h
    refine .inr (onTime_locksNone hp ⟨hl.2, fun _ => .of_unwritten hl.1⟩ h)
  · intro l b l' hl h
    exact ⟨unwritten_locksNone hp hw hl.1 h, looked_framed (h.grows hw) hl.2⟩

/-- The UPDATE of a restore finds the row deleted, or the request is refused. -/
theorem ends_restore {s : RowState} {row : Row n.tbl} {before : Body}
    {serialize : Row n.tbl → Op Body} (hrow : owns n.tbl id userId s row = true)
    (hser : ∀ r, (serialize r).LocksNone (· ≠ .scan)) :
    Ends (fun l => Unwritten n l ∧ Looked n id userId .restore l)
      (restoreWithAudit env userId n.tbl n.resourceType row before serialize)
      (Answers n id userId .restore) := by
  obtain rfl : (OwnedTable.resource row).id = id := by
    simp only [owns, Bool.and_eq_true, decide_eq_true_eq] at hrow
    exact hrow.1.1
  intro l res l' hl h
  have hlooked := looked_framed (h.grows (writesOnly_true _)) hl.2
  obtain ⟨res₁, l₁, hupdate, h⟩ : ∃ res₁ l₁, (updateWhere .scan n.tbl
      (owns n.tbl (OwnedTable.resource row).id userId .deleted)
      (marked n.tbl env.now none) : Op _).Runs l res₁ l₁ ∧ ((∃ f, res₁ = .error f ∧
        res = .error f ∧ l' = l₁) ∨ ∃ rs, res₁ = .ok rs ∧ (do
          let afterRow ← orRaise rs.head? (conflict (n.resourceType ++
            " was changed by a concurrent request. Re-fetch and retry."))
          let after ← serialize afterRow
          writeActivityLog env (env.uuid 0) userId n.resourceType (OwnedTable.resource row).id
            .restored (some before) (some after)
          return after : Op Body).Runs l₁ res l') := by
    simp only [restoreWithAudit, mutateWithAudit, ExpenseEngine.restore, updateRow,
      LawfulMonad.bind_assoc, pure_bind] at h
    rcases runs_bind.mp h with ⟨f, rfl, hf⟩ | ⟨rs, l₁, hrs, h⟩
    · exact ⟨_, _, hf, .inl ⟨f, rfl, rfl, rfl⟩⟩
    · exact ⟨_, _, hrs, .inr ⟨rs, rfl, h⟩⟩
  rcases Runs.updateWhere_first (fun r hr => key_of_owns hr hrow) hl.1.2.2 hl.1.2.1 hupdate with
    rfl | ⟨r, hr, hheld⟩
  · -- the row was restored in between
    obtain ⟨f, hf, -⟩ | ⟨rs, hrs, h⟩ := h
    · cases hf
    · cases hrs
      rcases runs_bind.mp h with ⟨f, rfl, hf⟩ | ⟨r, l₂, hsome, -⟩
      · obtain ⟨-, rfl, -⟩ := runs_orRaise_error.mp hf
        exact .inl (.inr rfl)
      · cases (runs_orRaise_ok.mp hsome).1
  · have hrestored : Restored n l₁ := by
      refine ⟨.inr (by simp [hheld]), ?_⟩
      simp only [owns, Bool.and_eq_true] at hr
      simpa [hheld] using Option.isSome_iff_ne_none.mp hr.2
    refine answers_of_onTime ⟨hlooked, fun _ => ?_⟩
    obtain ⟨f, -, -, rfl⟩ | ⟨rs, -, h⟩ := h
    · exact hrestored
    · refine restored_locksNone ?_ hrestored h
      refine LocksNone.bind (locksNone_orRaise _ _) fun r => LocksNone.bind (hser r) fun after => ?_
      exact LocksNone.bind (locksNone_insertOrAbort _ _) fun _ => trivial

/-! ### The looks and the guards -/

theorem ends_fetchOwnedRow {resource : String} {g : Row n.tbl → Op α}
    (hg : ∀ r, owns n.tbl id userId k.wants r = true →
      Ends (fun l => Unwritten n l ∧ Looked n id userId k l) (g r) (Answers n id userId k)) :
    Ends (Unwritten n) (fetchOwnedRowOr404 n.tbl id userId resource k.wants >>= g)
      (Answers n id userId k) := by
  have hlocks : (fetchOwnedRowOr404 n.tbl id userId resource k.wants).LocksNone (· ≠ .scan) :=
    LocksNone.bind (locksNone_read _ (by simp)) fun _ => locksNone_orRaise _ _
  intro l res l' hl h
  rcases runs_bind.mp h with ⟨f, rfl, hf⟩ | ⟨r, l₁, hr, h⟩
  · obtain hread | ⟨o, l₁, -, hraise⟩ := runs_bind_error.mp hf
    · obtain ⟨db, m, -, hread, -⟩ := hread
      cases hread
    · obtain ⟨-, rfl, -⟩ := runs_orRaise_error.mp hraise
      exact .inl (.inl rfl)
  · obtain ⟨o, l₂, hread, hraise⟩ := runs_bind_ok.mp hr
    obtain ⟨db, m, -, rfl, rfl⟩ := runs_read_ok.mp hread
    obtain ⟨ho, rfl⟩ := runs_orRaise_ok.mp hraise
    obtain ⟨hmem, howns⟩ := find?_row ho
    refine hg r howns ⟨unwritten_locksNone hlocks readOnly_fetchOwnedRowOr404 hl hr, ?_⟩ h
    exact ⟨_, List.mem_cons_self, r, hmem, howns⟩

theorem locksNone_fetchReconciliation {label : Label} {s : RowState} (hlabel : label ≠ .scan) :
    (fetchReconciliation label userId id s).LocksNone (· ≠ .scan) := by
  refine LocksNone.bind (locksNone_read _ hlabel) fun found => ?_
  cases found with
  | none => trivial
  | some x =>
    show LocksNone _ (if _ then _ else _)
    split <;> trivial

theorem ends_fetchReconciliation {label : Label} (hlabel : label ≠ .scan)
    {g : ReconciliationResponse → Op α}
    (hg : ∀ row, owns .reconciliations id userId k.wants row.toReconciliationRow = true →
      Ends (fun l => Unwritten .reconciliation l ∧ Looked .reconciliation id userId k l) (g row)
        (Answers .reconciliation id userId k)) :
    Ends (Unwritten .reconciliation)
      (fetchReconciliation label userId id k.wants >>=
        fun o => orRaise o (notFound "reconciliation") >>= g)
      (Answers .reconciliation id userId k) := by
  have hlocks : (fetchReconciliation label userId id k.wants).LocksNone (· ≠ .scan) :=
    locksNone_fetchReconciliation hlabel
  intro l res l' hl h
  -- the answer of the look, and whether it saw the row
  have hlook : ∀ res₁ l₁, (fetchReconciliation label userId id k.wants).Runs l res₁ l₁ →
      res₁ = .ok none ∨ Looked .reconciliation id userId k l₁ ∧ ∀ o, res₁ = .ok o →
        ∃ row, o = some row ∧
          owns .reconciliations id userId k.wants row.toReconciliationRow = true := by
    intro res₁ l₁ hrun
    rcases runs_bind.mp hrun with ⟨f, rfl, hread⟩ | ⟨found, l₂, hread, hfound⟩
    · obtain ⟨db, m, -, hread, -⟩ := hread
      cases hread
    · obtain ⟨db, m, -, rfl, rfl⟩ := runs_read_ok.mp hread
      cases hfind : (db.rows .reconciliations).find?
          (owns .reconciliations id userId k.wants) with
      | none =>
        rw [hfind] at hfound
        exact .inl (runs_pure.mp hfound).1
      | some rec =>
        obtain ⟨hmem, howns⟩ := find?_row hfind
        rw [hfind] at hfound
        simp only [Option.map_some] at hfound
        have hlooked : Looked .reconciliation id userId k (l.saw label db m) :=
          ⟨_, List.mem_cons_self, rec, hmem, howns⟩
        split at hfound
        · obtain ⟨rfl, rfl⟩ := runs_pure.mp hfound
          exact .inr ⟨hlooked, fun o ho => ⟨_, (Except.ok.inj ho).symm, howns⟩⟩
        · obtain ⟨rfl, rfl⟩ := hfound
          exact .inr ⟨hlooked, fun o ho => by cases ho⟩
  rcases runs_bind.mp h with ⟨f, rfl, hf⟩ | ⟨o, l₁, ho, h⟩
  · obtain hnone | ⟨hlooked, -⟩ := hlook _ _ hf
    · cases hnone
    · exact .inr ⟨hlooked, fun _ => .of_unwritten
        (unwritten_locksNone hlocks writesOnly_fetchReconciliation hl hf)⟩
  · have hunwritten := unwritten_locksNone hlocks writesOnly_fetchReconciliation hl ho
    rcases runs_bind.mp h with ⟨f, rfl, hf⟩ | ⟨row, l₂, hrow, h⟩
    · obtain ⟨-, rfl, -⟩ := runs_orRaise_error.mp hf
      exact .inl (.inl rfl)
    · obtain ⟨rfl, rfl⟩ := runs_orRaise_ok.mp hrow
      obtain hnone | ⟨hlooked, hrow⟩ := hlook _ _ ho
      · cases hnone
      · obtain ⟨row', ⟨⟩, howns⟩ := hrow _ rfl
        exact hg row howns ⟨hunwritten, hlooked⟩ h

theorem locksNone_nameTaken {t : Tbl} [NamedTable t] {name : Text} {exclude : Option Uuid}
    {scope : Row t → Bool} : (nameTaken t userId name exclude scope).LocksNone (· ≠ .scan) :=
  locksNone_read _ (by simp)

theorem locksNone_fetchBothBalances {row : Row .bankAccounts} :
    (fetchBothBalances env userId row).LocksNone (· ≠ .scan) := by
  refine LocksNone.bind ?_ fun _ => LocksNone.bind ?_ fun _ => trivial
  · refine LocksNone.bind (LocksNone.bind (locksNone_read _ (by simp)) fun _ => ?_) fun _ => trivial
    show LocksNone _ (if _ then _ else _)
    split <;> trivial
  · refine LocksNone.bind ?_ fun _ => LocksNone.bind ?_ fun result => ?_
    · refine LocksNone.bind (locksNone_read _ (by simp)) fun _ => ?_
      refine LocksNone.bind (locksNone_orRaise _ _) fun _ => ?_
      exact LocksNone.bind (locksNone_raiseIf _ _) fun _ => trivial
    · simp only [getRate]
      split
      · trivial
      · exact LocksNone.bind (locksNone_read _ (by simp)) fun _ => locksNone_orRaise _ _
    · cases result with
      | none => trivial
      | some _ => exact LocksNone.bind (locksNone_orRaise _ _) fun _ => trivial

theorem locksNone_checkCategoryName {row : Row .categories} {name : Text} :
    (checkCategoryName row name).LocksNone (· ≠ .scan) := by
  unfold checkCategoryName
  split
  · exact locksNone_raiseIf _ _
  · trivial

theorem locksNone_refetchReconciliation {s : RowState} :
    (refetchReconciliation userId id s).LocksNone (· ≠ .scan) :=
  LocksNone.bind (locksNone_fetchReconciliation (by simp)) fun _ =>
    LocksNone.bind (locksNone_orRaise _ _) fun _ => trivial

/-! ### The requests -/

theorem ends_flip : Ends (Unwritten n) ((k.request n id).work env userId)
    (Answers n id userId k) := by
  cases k with
  | delete =>
    cases n with
    | account | category | hashtag => exact ends_fetchOwnedRow fun _ _ => ends_delete
    | reconciliation => exact ends_fetchReconciliation (by simp) fun _ _ => ends_delete
  | restore =>
    cases n with
    | account =>
      show Ends _ (restoreAccount env userId id) _
      unfold restoreAccount
      refine ends_fetchOwnedRow (n := .account) (k := .restore) fun row hrow => ?_
      refine ends_guard locksNone_nameTaken readOnly_nameTaken fun _ => ?_
      refine ends_guard (locksNone_raiseIf _ _) (writesOnly_raiseIf _ _) fun _ => ?_
      refine ends_guard locksNone_fetchBothBalances readOnly_fetchBothBalances fun _ => ?_
      exact ends_restore (n := .account) hrow fun _ => trivial
    | category =>
      show Ends _ (restoreCategory env userId id) _
      unfold restoreCategory
      refine ends_fetchOwnedRow (n := .category) (k := .restore) fun row hrow => ?_
      refine ends_guard locksNone_checkCategoryName writesOnly_checkCategoryName fun _ => ?_
      refine ends_guard locksNone_nameTaken readOnly_nameTaken fun _ => ?_
      refine ends_guard (locksNone_raiseIf _ _) (writesOnly_raiseIf _ _) fun _ => ?_
      exact ends_restore (n := .category) hrow fun _ => trivial
    | hashtag =>
      show Ends _ (restoreHashtag env userId id) _
      unfold restoreHashtag
      refine ends_fetchOwnedRow (n := .hashtag) (k := .restore) fun row hrow => ?_
      refine ends_guard locksNone_nameTaken readOnly_nameTaken fun _ => ?_
      refine ends_guard (locksNone_raiseIf _ _) (writesOnly_raiseIf _ _) fun _ => ?_
      exact ends_restore (n := .hashtag) hrow fun _ => trivial
    | reconciliation =>
      show Ends _ (restoreReconciliation env userId id) _
      unfold restoreReconciliation
      refine ends_fetchReconciliation (k := .restore) (by simp) fun row hrow => ?_
      exact ends_restore (n := .reconciliation) hrow fun _ => locksNone_refetchReconciliation

/-! ### The handler -/

theorem locksNone_claim {key fingerprint : Text} :
    (claim userId key fingerprint).LocksNone (· ≠ .scan) := by
  refine LocksNone.bind (locksNone_advisoryLock _) fun _ => ?_
  refine LocksNone.bind (locksNone_read _ (by simp)) fun found => ?_
  cases found with
  | none => trivial
  | some row =>
    simp only
    split
    · trivial
    · exact locksNone_raise _

theorem locksNone_store {key fingerprint : Text} {body : Option Body} {status : Nat} :
    (store env userId key fingerprint body status).LocksNone (· ≠ .scan) := by
  refine LocksNone.bind (locksNone_insertOrSkip _ _ _) fun o => ?_
  split <;> trivial

/-- A handler fails before it looks at anything, or as its work answers. -/
theorem handle_answers {c : Call} (hc : c.request = k.request n id) {f : Failure AppError}
    {l : Loc} (h : c.handle.Runs .init (.error f) l) :
    Refused f ∨ l = .init ∨ OnTime n id c.userId k l := by
  have hwork : Ends (Unwritten n) (c.request.work c.env c.userId) (Answers n id c.userId k) := by
    rw [hc]
    exact ends_flip
  have hnull : c.request.nonNullable = [] := by
    rw [hc]
    cases n <;> cases k <;> rfl
  have hinit : Unwritten n (.init : Loc) := ⟨nofun, rfl, rfl⟩
  rw [Call.handle, hnull] at h
  change (runIdempotent _ _ _ _ _ _ _).Runs _ _ _ at h
  unfold runIdempotent at h
  split at h
  · rw [map_eq_pure_bind] at h
    obtain h | ⟨body, l₁, -, h⟩ := runs_bind_error.mp h
    · exact (hwork hinit h : Refused f ∨ _).imp_right .inr
    · exact absurd (runs_pure.mp h).1 (by simp)
  · exact .inr (.inl h.2)
  · obtain h | ⟨o, l₁, ho, h⟩ := runs_bind_error.mp h
    · obtain rfl | rfl := claim_error h
      · exact .inl (.inr rfl)
      · exact .inl (.inr rfl)
    · have hl₁ := unwritten_locksNone locksNone_claim readOnly_claim hinit ho
      cases o with
      | some reply => exact absurd (runs_pure.mp h).1 (by simp)
      | none =>
        obtain h | ⟨body, l₂, hbody, h⟩ := runs_bind_error.mp h
        · exact (hwork hl₁ h : Refused f ∨ _).imp_right .inr
        · have hontime : OnTime n id c.userId k l₂ := hwork hl₁ hbody
          refine .inr (.inr ?_)
          obtain h | ⟨u, l₃, -, h⟩ := runs_bind_error.mp h
          · exact onTime_locksNone locksNone_store hontime h
          · exact absurd (runs_pure.mp h).1 (by simp)

end Answers

/-! ## Runs -/

namespace Named

/-- The owned columns of the row. -/
def find (n : Named) (db : Db) (id : Uuid) : Option Resource :=
  ((db.rows n.tbl).find? fun r => decide ((OwnedTable.resource r).id = id)).map
    OwnedTable.resource

def key (id : Uuid) : (n : Named) → Key n.tbl
  | .account | .category | .hashtag | .reconciliation => id

theorem find_eq {n : Named} {db : Db} {id : Uuid} :
    n.find db id = ((db n.tbl).find? (n.key id)).map OwnedTable.resource := by
  cases n <;> rfl

omit [Platform] in
theorem keyOf_eq {n : Named} {r : Row n.tbl} :
    keyOf n.tbl r = n.key (OwnedTable.resource r).id := by
  cases n <;> rfl

theorem resource_marked {n : Named} {now : Timestamp} {d : Option Timestamp} {r : Row n.tbl} :
    OwnedTable.resource ((marked n.tbl now d).apply r) =
      { (OwnedTable.resource r).bump now with deletedAt := d } := by
  cases n <;> rfl

end Named

/-- The deletions and restorations of the row that the log has, oldest first. -/
def lifecycle (n : Named) (db : Db) (id : Uuid) : List ActivityAction :=
  ((db.rows .activityLog).filter fun e =>
    isEntryOf n.resourceType id e && decide (e.action = .deleted ∨ e.action = .restored)).map
      fun e => e.action

section Runs

variable {ι : Type} {n : Named} {id : Uuid} {calls : ι → Call} {kind : ι → Flip}
  {s : Race ι} {past : List (ι × Reply)} {db : Db} {i : ι}

/-- A delete that has locked the row found it active. -/
def StillActive (n : Named) (kind : ι → Flip) (s : Race ι) : Prop :=
  ∀ i, kind i = .delete → ∀ r ∈ (s.party i).loc.held n.tbl,
    (OwnedTable.resource r).deletedAt = none

instance [Fintype ι] (n : Named) (kind : ι → Flip) (s : Race ι) :
    Decidable (StillActive n kind s) :=
  inferInstanceAs (Decidable (∀ _, _))

variable [DecidableEq ι]

/-- What the commit of a flip does: the row is flipped with one version bump,
and the log gets the entry. -/
structure FlipsAt (n : Named) (id : Uuid) (k : Flip) (db db' : Db) : Prop where
  row : ∃ (r : Resource) (now : Timestamp), n.find db id = some r ∧
    r.deletedAt.isNone = decide (k = .delete) ∧
    n.find db' id = some { r.bump now with deletedAt := k.deletedAt now }
  log : lifecycle n db' id = lifecycle n db id ++ [k.action]

theorem flip_commit (hs : Sound (fun i => (calls i).handle) s)
    (hcall : (calls i).request = (kind i).request n id) (hactive : StillActive n kind s)
    {body : Body} (hp : (s.party i).phase = .running (.ret (.fresh body)))
    (h : ((calls i).handle).Runs .init (.ok (.fresh body)) (s.party i).loc) :
    FlipsAt n id (kind i) s.db (s.commit i (.fresh body)).db := by
  have hrun : (s.party i).isRunning = true := by rw [Party.isRunning, hp]
  have hflips : FlipsRow n id (kind i) (calls i).env.now (s.party i).loc := by
    have hwork : Among Blank ((calls i).request.work (calls i).env (calls i).userId)
        fun _ => FlipsRow n id (kind i) (calls i).env.now := by
      rw [hcall]
      exact among_flips
    exact (among_handle hwork (fun _ => flipsRow_framed) rfl h).1 body rfl
  obtain ⟨r, e, hr, he, rfl, hdeleted, hentry, haction⟩ := hflips
  refine ⟨⟨OwnedTable.resource r, (calls i).env.now, ?_, ?_, ?_⟩, ?_⟩
  · rw [Named.find_eq, ← Named.keyOf_eq, (rewritten_commit hs hrun hr (.fresh body)).1]
    rfl
  · cases hk : kind i with
    | delete => simp [hactive i hk r hr.held]
    | restore => simpa [Option.isSome_iff_ne_none] using hdeleted hk
  · rw [Named.find_eq, ← Named.keyOf_eq, rewritten_find hs hrun hr (.fresh body), Option.map_some,
      Named.resource_marked]
  · rw [lifecycle, entered_commit hs hrun he, List.filter_append, List.map_append, lifecycle]
    have haction' : e.action = .deleted ∨ e.action = .restored := by
      rw [haction]
      cases kind i
      · exact .inl rfl
      · exact .inr rfl
    rw [List.filter_singleton, hentry, decide_eq_true haction']
    simp [haction]

/-- The row and the log after the flips of a run that started at `db`. -/
structure Flipped (n : Named) (id : Uuid) (db db' : Db) (flips : List Flip) : Prop where
  entries : lifecycle n db' id = lifecycle n db id ++ flips.map Flip.action
  row : ∀ r₀, n.find db id = some r₀ → ∃ r, n.find db' id = some r ∧
    afterFlips r₀.deletedAt.isNone (flips.map Flip.action) = some r.deletedAt.isNone ∧
    r.version = r₀.version + flips.length
  absent : n.find db id = none → flips = [] ∧ n.find db' id = none

theorem Flipped.refl (n : Named) (id : Uuid) (db : Db) : Flipped n id db db [] where
  entries := (List.append_nil _).symm
  row r₀ h := ⟨r₀, h, rfl, by simp⟩
  absent h := ⟨rfl, h⟩

theorem Flipped.flip {db₀ db db' : Db} {flips : List Flip} {k : Flip}
    (h : Flipped n id db₀ db flips) (hk : FlipsAt n id k db db') :
    Flipped n id db₀ db' (flips ++ [k]) where
  entries := by
    rw [hk.log, h.entries, List.map_append, List.append_assoc]
    rfl
  row r₀ hr₀ := by
    obtain ⟨r, hr, hafter, hversion⟩ := h.row r₀ hr₀
    obtain ⟨r', now, hr', hstate, hflip⟩ := hk.row
    cases hr.symm.trans hr'
    refine ⟨_, hflip, ?_, ?_⟩
    · rw [List.map_append, afterFlips_append, hafter, Option.bind_some, hstate]
      cases k <;> rfl
    · simp only [Resource.bump, hversion, List.length_append, List.length_singleton]
      push_cast
      exact Int.add_assoc _ _ _
  absent hnone := by
    obtain ⟨r, now, hr, -⟩ := hk.row
    cases ((h.absent hnone).2.symm.trans hr)

/-- Whenever the request came to the row, the row was in the state it wants. -/
structure InTime (n : Named) (id userId : Uuid) (k : Flip) (l : Loc) : Prop where
  looked : l.seen = [] ∨ Looked n id userId k l
  wrote : k = .restore → (∀ e ∈ l.seen, e.label ≠ .scan) ∨ l.held n.tbl ≠ []
  held : ∀ r ∈ l.held n.tbl, k.wants.holds (OwnedTable.resource r).deletedAt = true

omit [DecidableEq ι] in
theorem inTime_of_failed (hs : Sound (fun i => (calls i).handle) s)
    (hcall : (calls i).request = (kind i).request n id) (hactive : StillActive n kind s)
    {f : Failure AppError} (hf : (s.party i).phase = .failed f) :
    Refused f ∨ InTime n id (calls i).userId (kind i) (s.party i).loc := by
  rcases handle_answers hcall ((hs.trace i).failed f hf) with h | h | h
  · exact .inl h
  · rw [h]
    exact .inr ⟨.inl rfl, fun _ => .inl nofun, nofun⟩
  · refine .inr ⟨.inr h.1, fun hk => (h.2 hk).1, fun r hr => ?_⟩
    cases hk : kind i with
    | delete => simp [Flip.wants, RowState.holds, hactive i hk r hr]
    | restore => exact Option.isSome_iff_ne_none.mpr ((h.2 hk).2 r hr)

variable [Fintype ι] {events : List (Event ι)}

/-- Requests that delete and restore one row, in any interleaving in which no
delete locks the row after another has deleted it: the deletions and
restorations alternate in the order of the commits, each request that succeeds
flips the row once with one version bump, all other events leave the tables
alone, and a request that fails is refused with a 404 or 409 unless the row was
in the state it wants whenever it came to it. -/
theorem flips_alternate (n : Named) (id : Uuid) (calls : ι → Call) (kind : ι → Flip)
    (hcalls : ∀ i, (calls i).request = (kind i).request n id) (db : Db) (events : List (Event ι))
    (hactive : State.Throughout (StillActive n kind) (State.start db fun i => (calls i).handle)
      events) :
    let s := (State.start db fun i => (calls i).handle).run events
    let flips := flipsOf kind ((State.start db fun i => (calls i).handle).history events)
    (lifecycle n s.db id = lifecycle n db id ++ flips.map Flip.action ∧ flips.IsChain (· ≠ ·)) ∧
    (∀ r₀, n.find db id = some r₀ → ∃ r, n.find s.db id = some r ∧
      r.version = r₀.version + flips.length ∧
      afterFlips r₀.deletedAt.isNone (flips.map Flip.action) = some r.deletedAt.isNone ∧
      ∀ active, afterFlips active (lifecycle n db id) = some r₀.deletedAt.isNone →
        afterFlips active (lifecycle n s.db id) = some r.deletedAt.isNone) ∧
    (∀ i body, (s.party i).phase = .running (.ret (.fresh body)) →
      FlipsAt n id (kind i) s.db (s.commit i (.fresh body)).db) ∧
    (∀ e, (∀ i body, s.committing e ≠ some (i, .fresh body)) → (s.step e).db = s.db) ∧
    ∀ i f, (s.party i).phase = .failed f →
      Refused f ∨ InTime n id (calls i).userId (kind i) (s.party i).loc := by
  intro s flips
  have hstart := sound_start db fun i => (calls i).handle
  have hs : Sound (fun i => (calls i).handle) s := State.sound_run hstart
  have hcached : ∀ s : Race ι, Sound (fun i => (calls i).handle) s → ∀ i body status,
      (s.party i).phase = .running (.ret (.cached body status)) →
      (s.commit i (.cached body status)).db = s.db := by
    intro s hs i body status hp
    have hwork : Among Blank ((calls i).request.work (calls i).env (calls i).userId)
        fun _ => FlipsRow n id (kind i) (calls i).env.now := by
      rw [hcalls]
      exact among_flips
    have hnone := (among_handle hwork (fun _ => flipsRow_framed) rfl
      ((hs.trace i).running _ hp _ _ ⟨rfl, rfl⟩)).2 body status rfl
    exact funext fun t => kept_commit (hnone t) _
  let Inv : Race ι → List (ι × Reply) → Prop :=
    fun s past => Flipped n id db s.db (flipsOf kind past)
  have hrun : Inv s ([] ++ (State.start db fun i => (calls i).handle).history events) := by
    refine State.run_history ?_ ?_ hstart (Flipped.refl n id db) hactive.along
    · exact fun s past i p phase l' _ h _ _ => h
    · intro s past i reply hs h hok hp hrun
      cases reply with
      | fresh body =>
        show Flipped n id db _ _
        rw [flipsOf_fresh]
        exact h.flip (flip_commit hs (hcalls i) hok hp hrun)
      | cached body status =>
        show Flipped n id db _ _
        rw [flipsOf_cached, hcached s hs i body status hp]
        exact h
  have hflipped : Flipped n id db s.db flips := hrun
  refine ⟨⟨hflipped.entries, ?_⟩, ?_, ?_, ?_, ?_⟩
  · cases hfind : n.find db id with
    | none =>
      rw [(hflipped.absent hfind).1]
      exact .nil
    | some r₀ =>
      obtain ⟨r, -, hafter, -⟩ := hflipped.row r₀ hfind
      exact isChain_of_afterFlips hafter
  · intro r₀ hr₀
    obtain ⟨r, hr, hafter, hversion⟩ := hflipped.row r₀ hr₀
    refine ⟨r, hr, hversion, hafter, fun active h => ?_⟩
    rw [hflipped.entries, afterFlips_append, h]
    exact hafter
  · intro i body hp
    exact flip_commit hs (hcalls i) hactive.last hp ((hs.trace i).running _ hp _ _ ⟨rfl, rfl⟩)
  · intro e he
    cases hc : s.committing e with
    | none => exact State.db_step_of_not_committing hs hc
    | some x =>
      obtain ⟨i, reply⟩ := x
      rw [State.step_of_committing hc]
      cases reply with
      | fresh body => exact absurd hc (he i body)
      | cached body status => exact hcached s hs i body status (State.committing_eq_some.mp hc).2
  · exact fun i f hf => inTime_of_failed hs (hcalls i) hactive.last hf

end Runs

end

/-! ## Two runs -/

section Runs

open Ascii

/-- A user with the active hashtag 50. -/
def tagged : Db :=
  run blank [callAt 1 (.bootstrap "Ann".toList "UTC".toList),
    callAt 2 (.createHashtag ⟨50, "trip".toList, none⟩)]

/-- A delete and two restores. -/
def tagFlip (i : Fin 3) : Flip := if i = 0 then .delete else .restore

def tagCalls (i : Fin 3) : Call := callAt (10 + i.val) ((tagFlip i).request .hashtag 50)

/-- The delete commits, both restores look, and the first one to write wins. -/
def tagRace : List (Event (Fin 3)) :=
  List.replicate 6 (Event.act 0) ++ [Event.act 1, .act 2, .act 1, .act 2, .act 1, .act 2] ++
    List.replicate 3 (Event.act 1) ++ List.replicate 2 (Event.act 2)

theorem flips_alternate_hashtag :
    (flipsOf tagFlip ((State.start tagged fun i => (tagCalls i).handle).history tagRace) =
      [.delete, .restore]) ∧
    lifecycle .hashtag ((State.start tagged fun i => (tagCalls i).handle).run tagRace).db 50 =
      lifecycle .hashtag tagged 50 ++ [.deleted, .restored] := by
  have hflips : flipsOf tagFlip
      ((State.start tagged fun i => (tagCalls i).handle).history tagRace) =
        [.delete, .restore] := by
    decide +kernel
  have h := flips_alternate .hashtag 50 tagCalls tagFlip (fun _ => rfl) tagged tagRace
    (by decide +kernel)
  refine ⟨hflips, ?_⟩
  rw [h.1.1, hflips]
  rfl

/-- Two deletes of the hashtag, at the times 10 and 11. -/
def deleteTwice (i : Fin 2) : Call := callAt (10 + i.val) (.deleteHashtag 50)

/-- Both look before either writes. The UPDATE of the second asks for nothing,
so it deletes the row again: a second entry, and a second version. -/
theorem double_delete_entries :
    let s := (State.start tagged fun i => (deleteTwice i).handle).run
      (.act 0 :: .act 1 :: (List.replicate 5 (.act 0) ++ List.replicate 5 (.act 1)))
    lifecycle .hashtag s.db 50 = [.deleted, .deleted] ∧
      ¬(lifecycle .hashtag s.db 50).IsChain (· ≠ ·) ∧
      (Named.hashtag.find tagged 50).map (fun r => r.version) = some 1 ∧
      (Named.hashtag.find s.db 50).map (fun r => r.version) = some 3 := by
  decide +kernel

end Runs

end ExpenseEngine
