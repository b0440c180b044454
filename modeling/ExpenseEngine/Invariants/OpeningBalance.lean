import ExpenseEngine.Effects.Statements
import ExpenseEngine.Invariants.Integrity
import ExpenseEngine.Refinement.Batch

/-!
# Opening balances over sequential runs

The seed of an account is a ledger row like any other: what makes it one is its
category. The endpoint that creates seeds refuses a second one and refuses
person accounts; an update that moves a seed and a restore that brings one back
check neither.

Results:
1. `SeedsSettled.step`: what a call preserves.
2. `opening_balance_singular`: at most one active seed on an account and none on
   a person account, in every run without such a move or restore;
   `moved_seed_doubles` are runs with one.
-/

namespace ExpenseEngine

open Sql Sql.Prog IntegrityLemmas

section Seeds

variable [Platform] {db db' : Db} {env : Env} {userId : Uuid} {request : Request} {c : Call}

/-! ## Seeds -/

/-- The category is an opening-balance category. -/
def IsOpening (db : Db) (categoryId : Uuid) : Prop :=
  ∃ r ∈ db.rows .categories, r.id = categoryId ∧ r.systemKey = some .openingBalance

/-- No active seed is on the account. -/
def Unseeded (db : Db) (accountId : Uuid) : Prop :=
  ∀ t ∈ db.rows .transactions, t.deletedAt = none → t.accountId = accountId →
    ¬IsOpening db t.categoryId

/-- The account is not a person's. -/
def NotPerson (db : Db) (accountId : Uuid) : Prop :=
  ∀ a ∈ db.rows .bankAccounts, a.id = accountId → a.isPerson = false

/-- Every account has at most one active seed, and a person's account has none. -/
structure SingularOpening (db : Db) : Prop where
  single : ∀ t ∈ db.rows .transactions, ∀ t' ∈ db.rows .transactions, t.deletedAt = none →
    t'.deletedAt = none → IsOpening db t.categoryId → IsOpening db t'.categoryId →
    t.accountId = t'.accountId → t = t'
  person : ∀ t ∈ db.rows .transactions, t.deletedAt = none → IsOpening db t.categoryId →
    NotPerson db t.accountId

/-- A PUT that comes to its work, passes every check of an update and moves a
seed names an account that may have one; a restore that comes to its work and
passes its checks brings no seed back to an account that has one. -/
structure SeedMoves (db : Db) (c : Call) : Prop where
  move : c.Enters db → ∀ body t a, c.request = .updateTransaction t.id body →
    Updatable c.env c.userId t.id body.fields body.hashtagIds.join body.reconciliationId t db →
    IsOpening db t.categoryId → body.fields.categoryId = none → body.fields.accountId = some a →
    a ≠ t.accountId → Unseeded db a ∧ NotPerson db a
  restore : c.Enters db → ∀ t unlink, c.request = .restoreTransaction t.id →
    Restorable c.userId t.id t unlink db → IsOpening db t.categoryId → Unseeded db t.accountId

/-! ## The categories of new and updated rows -/

/-- The category is there and is not a system category. -/
def PlainCategory (db : Db) (categoryId : Uuid) : Prop :=
  ∃ r ∈ db.rows .categories, r.id = categoryId ∧ r.systemKey = none

namespace OpeningLemmas

theorem not_isOpening_of_plain {cid : Uuid} (h : PlainCategory db cid) :
    ¬IsOpening db cid := by
  rintro ⟨r, hr, hid, hkey⟩
  obtain ⟨x, hx, hxid, hnone⟩ := h
  obtain rfl : x = r := EvolutionLemmas.eq_of_id hx hr (hxid.trans hid.symm)
  rw [hnone] at hkey
  cases hkey

theorem plain_of_find? {cid : Uuid} {category : Row .categories}
    (h : (db.rows .categories).find? (fun r => decide (r.id = cid) && isActiveCategory userId r) =
      some category) (hkey : category.systemKey = none) : PlainCategory db cid := by
  obtain ⟨hmem, hw⟩ := find?_row h
  simp only [Bool.and_eq_true, decide_eq_true_eq] at hw
  exact ⟨category, hmem, hw.1, hkey⟩

theorem exec_createTransaction_plain {body : TransactionCreateRequest} {b : Body}
    (h : exec (createTransaction env userId body false) db = .ok (b, db')) :
    PlainCategory db body.categoryId := by
  simp only [createTransaction, exec_bind_ok, exec_dbNow_ok, exec_raiseIf_ok,
    BatchRefinementLemmas.exec_validateActiveCategory_ok, true_and, not_not] at h
  obtain ⟨_, _, ⟨rfl, rfl⟩, _, _, ⟨-, rfl⟩, _, _, hacc, category, _, ⟨hfind, rfl⟩, _, _,
    ⟨hkey, rfl⟩, -⟩ := h
  obtain ⟨rfl, -⟩ := exec_validateActiveAccount hacc
  exact plain_of_find? hfind hkey

theorem plain_of_user {cid : Uuid} (h : HasUserCategory db userId cid) : PlainCategory db cid := by
  obtain ⟨r, hr, hid, -, hkey⟩ := h
  exact ⟨r, hr, hid, hkey⟩

theorem exec_promoteInboxItem_plain {id targetId : Uuid} {b : Body}
    (h : exec (promoteInboxItem env userId id targetId) db = .ok (b, db')) :
    ∃ draft ∈ db.rows .transactionInbox, draft.id = id ∧
      PlainCategory db (draft.categoryId.getD 0) := by
  simp only [promoteInboxItem, exec_bind_ok, exec_fetchRowForUpdate_ok, exec_orRaise_ok,
    exec_fetchHashtagIds_ok, exec_dbNow_ok, exec_raiseIf_ok] at h
  obtain ⟨_, _, ⟨rfl, rfl⟩, draft, _, ⟨hfind, rfl⟩, _, _, ⟨rfl, rfl⟩, _, _, ⟨rfl, rfl⟩, _, _, hacc,
    found, _, hcat, _, db, ⟨herr, rfl⟩, -⟩ := h
  obtain ⟨rfl, -⟩ := PromoteLemmas.exec_promoteAccount hacc
  obtain ⟨hdraft, hw⟩ := find?_row hfind
  refine ⟨draft, hdraft, (of_decide_eq_true hw).1, ?_⟩
  simp only [Bool.not_eq_true', Bool.not_eq_false, List.isEmpty_iff, promoteErrors,
    List.append_eq_nil_iff] at herr
  cases hd : draft.categoryId with
  | none =>
    rw [hd] at hcat
    obtain ⟨rfl, rfl⟩ := exec_pure_ok.mp hcat
    cases herr.2
  | some cid =>
    rw [hd] at hcat
    obtain ⟨rfl, rfl⟩ := exec_fetchRow_ok.mp hcat
    cases hfound : (db.rows .categories).find?
        (fun r => decide (r.id = cid) && isActiveCategory userId r) with
    | none =>
      rw [hfound] at herr
      cases herr.2
    | some category =>
      have hsystem := herr.2
      rw [hfound] at hsystem
      refine plain_of_find? hfound ?_
      by_contra hkey
      have hsome : category.systemKey.isSome = true := Option.isSome_iff_ne_none.mpr hkey
      change (if category.systemKey.isSome then _ else _) = _ at hsystem
      rw [if_pos hsome] at hsystem
      cases hsystem

/-- A ledger row that a request has inserted is under a plain category, unless it
is the seed that the request was for. -/
theorem new_category {b : Body} (h : exec (request.work env userId) db = .ok (b, db'))
    {t' : Row .transactions} (ht' : t' ∈ db'.rows .transactions)
    (hnew : ∀ t ∈ db.rows .transactions, t.id ≠ t'.id) :
    PlainCategory db t'.categoryId ∨ ∃ accountId body,
      request = .createOpeningBalance accountId body ∧ t'.id = body.transactionId ∧
        t'.accountId = accountId := by
  rcases exec_rewrites_origin (work_rewrites env userId request) h (Table.mem_rows_iff.mp ht') with
    ⟨t, ht, -⟩ | ⟨-, r, hr, -, hchain⟩
  · exact absurd (Table.key_of_find? ht) (hnew t (Table.mem_of_find? ht))
  · cases hr with
    | transaction =>
      obtain rfl := eq_of_not_updatesTable rfl hchain
      exact .inl (exec_createTransaction_plain h)
    | @batchItem items item hitem =>
      obtain rfl := eq_of_not_updatesTable rfl hchain
      obtain ⟨-, hvalid, -⟩ := exec_createBatch_iff.mp h
      obtain ⟨category, hmem, hid, -, hkey⟩ := (hvalid item hitem).category
      exact .inl ⟨category, hmem, hid, hkey⟩
    | openingBalance =>
      obtain rfl := eq_of_not_updatesTable rfl hchain
      exact .inr ⟨_, _, rfl, rfl, rfl⟩
    | @promoted id targetId =>
      -- the draft that was promoted is the one whose category was checked
      obtain ⟨draft, ty, hp, hcore⟩ := exec_promoteInboxItem h
      rw [hcore.rows rfl, EvolutionLemmas.rows_promoted hp, List.mem_append,
        List.mem_singleton] at ht'
      rcases ht' with ht' | rfl
      · exact absurd rfl (hnew t' ht')
      · obtain ⟨x, hx, hid, hplain⟩ := exec_promoteInboxItem_plain h
        obtain rfl : x = draft :=
          EvolutionLemmas.eq_of_id hx hp.found (hid.trans hp.pending.1.symm)
        exact .inl hplain

/-- The endpoint for seeds finds no seed on the account, and no person. -/
theorem exec_createOpeningBalance_guard {accountId : Uuid} {body : OpeningBalanceRequest}
    {b : Body} (h : exec (createOpeningBalance env userId accountId body) db = .ok (b, db')) :
    ∃ a ∈ db.rows .bankAccounts, a.id = accountId ∧ a.userId = userId ∧ a.isPerson = false ∧
      hasOpeningBalance db userId accountId = false := by
  simp only [createOpeningBalance, exec_bind_ok, exec_raiseIf_ok, exec_read_ok,
    BatchRefinementLemmas.exec_validateActiveAccount_ok] at h
  obtain ⟨a, _, ⟨hfind, rfl⟩, _, _, ⟨hperson, rfl⟩, _, _, ⟨rfl, rfl⟩, _, db, ⟨hseed, rfl⟩, -⟩ := h
  obtain ⟨ha, hw⟩ := find?_row hfind
  simp only [Bool.and_eq_true, decide_eq_true_eq] at hw
  obtain ⟨hu, -, -⟩ := of_decide_eq_true hw.2
  exact ⟨a, ha, hw.1, hu, Bool.eq_false_iff.mpr hperson, Bool.eq_false_iff.mpr hseed⟩

end OpeningLemmas

open OpeningLemmas

/-! ## The invariant -/

/-- Seeds are single, none is a person's, not even a deleted one, and every
ledger row has its account and its category. -/
structure SeedsSettled (db : Db) : Prop where
  integrity : Integrity db
  category : ∀ t ∈ db.rows .transactions, ∃ r ∈ db.rows .categories, r.id = t.categoryId
  account : ∀ t ∈ db.rows .transactions, ∃ a ∈ db.rows .bankAccounts, a.id = t.accountId
  single : ∀ t ∈ db.rows .transactions, ∀ t' ∈ db.rows .transactions, t.deletedAt = none →
    t'.deletedAt = none → IsOpening db t.categoryId → IsOpening db t'.categoryId →
    t.accountId = t'.accountId → t = t'
  person : ∀ t ∈ db.rows .transactions, IsOpening db t.categoryId → NotPerson db t.accountId

/-- The row a request may make an active seed of an account that it was not
before. -/
def Request.seedTarget : Request → Option Uuid
  | .updateTransaction id _ | .restoreTransaction id => some id
  | .createOpeningBalance _ body => some body.transactionId
  | _ => none

/-- How a row of the later state came to be a seed of its account. -/
inductive SeedFate (db : Db) (c : Call) (t' : Row .transactions) : Prop
  | stayed (t : Row .transactions) (ht : t ∈ db.rows .transactions) (hid : t.id = t'.id)
      (hseed : IsOpening db t.categoryId) (haccount : t'.accountId = t.accountId)
      (hlive : t'.deletedAt = none → t.deletedAt = none)
  | arrived (htarget : c.request.seedTarget = some t'.id) (hfree : Unseeded db t'.accountId)
      (hperson : NotPerson db t'.accountId)

namespace OpeningLemmas

theorem updates_systemKey {r r' : Row .categories}
    (h : Updates env userId request .categories r r') : r'.systemKey = r.systemKey := by
  cases h <;> rfl

theorem updates_isPerson {r r' : Row .bankAccounts}
    (h : Updates env userId request .bankAccounts r r') : r'.isPerson = r.isPerson := by
  cases h <;> rfl

/-- A category keeps its system key. -/
theorem isOpening_step {cid : Uuid} (hmem : ∃ r ∈ db.rows .categories, r.id = cid) :
    IsOpening (step db c) cid ↔ IsOpening db cid := by
  obtain ⟨r, hr, rfl⟩ := hmem
  obtain ⟨r', hr', hid, hkey⟩ := step_kept_of (c := c) (P := fun r r' : Row .categories =>
    r'.systemKey = r.systemKey) (fun _ => rfl) (fun h h' => h'.trans h)
    (fun _ _ => updates_systemKey) hr
  constructor
  · rintro ⟨x, hx, hxid, hopening⟩
    obtain rfl : x = r' := EvolutionLemmas.eq_of_id hx hr' (hxid.trans hid.symm)
    exact ⟨r, hr, rfl, hkey.symm.trans hopening⟩
  · rintro ⟨x, hx, hxid, hopening⟩
    obtain rfl : x = r := EvolutionLemmas.eq_of_id hx hr hxid
    exact ⟨r', hr', hid, hkey.trans hopening⟩

/-- An account stays a person's, or not. -/
theorem notPerson_step {a : Uuid} (hmem : ∃ r ∈ db.rows .bankAccounts, r.id = a)
    (h : NotPerson db a) : NotPerson (step db c) a := by
  obtain ⟨r, hr, rfl⟩ := hmem
  obtain ⟨r', hr', hid, hperson⟩ := step_kept_of (c := c) (P := fun r r' : Row .bankAccounts =>
    r'.isPerson = r.isPerson) (fun _ => rfl) (fun h h' => h'.trans h)
    (fun _ _ => updates_isPerson) hr
  intro x hx hxid
  obtain rfl : x = r' := EvolutionLemmas.eq_of_id hx hr' (hxid.trans hid.symm)
  exact hperson.trans (h r hr rfl)

/-- Seeds of the later state, row by row. -/
theorem seedFate_of_step (hinv : SeedsSettled db) (henters : c.Enters db) (hok : SeedMoves db c)
    {t' : Row .transactions} {t : Row .transactions} (ht : t ∈ db.rows .transactions)
    (hstep : TransactionStep c.env c.userId c.request db t t')
    (hseed : IsOpening db t'.categoryId) : SeedFate db c t' := by
  cases hstep with
  | kept hb =>
    obtain ⟨hid, -, hlive, hacc, hcat, -⟩ := bumpedTo_columns hb
    exact .stayed t ht hid.symm (hcat ▸ hseed) hacc fun h => hlive ▸ h
  | @updated body hreq hupd =>
    cases hc : body.fields.categoryId with
    | some cid =>
      have hcid : IsOpening db (body.fields.categoryId.getD t.categoryId) := hseed
      rw [hc, Option.getD_some] at hcid
      exact absurd hcid (not_isOpening_of_plain (plain_of_user (hupd.category cid hc)))
    | none =>
      have hcid : IsOpening db (body.fields.categoryId.getD t.categoryId) := hseed
      rw [hc, Option.getD_none] at hcid
      have hlive := hupd.owned.2.2
      by_cases hacc : body.fields.accountId.getD t.accountId = t.accountId
      · exact .stayed t ht rfl hcid hacc fun _ => hlive
      · cases ha : body.fields.accountId with
        | none => simp [ha] at hacc
        | some a =>
          rw [ha, Option.getD_some] at hacc
          obtain ⟨hfree, hperson⟩ := hok.move henters body t a hreq hupd hcid hc ha hacc
          refine .arrived (by rw [hreq]; rfl) ?_ ?_
          · show Unseeded db (body.fields.accountId.getD t.accountId)
            rwa [ha, Option.getD_some]
          · show NotPerson db (body.fields.accountId.getD t.accountId)
            rwa [ha, Option.getD_some]
  | deleted hreq hu hd hdraft => exact .stayed t ht rfl hseed rfl fun _ => hd
  | restored hreq hres =>
    refine .arrived (by rw [hreq]; rfl) (hok.restore henters t _ hreq hres hseed) ?_
    exact hinv.person t ht hseed
  | unassigned hreq hm hdraft =>
    exact .stayed t ht rfl hseed rfl fun _ => (of_decide_eq_true hm).2.2

theorem unseeded_of_guard (hinv : SeedsSettled db) {accountId : Uuid} {a : Row .bankAccounts}
    (ha : a ∈ db.rows .bankAccounts) (hid : a.id = accountId) (hu : a.userId = userId)
    (h : hasOpeningBalance db userId accountId = false) : Unseeded db accountId := by
  intro t ht hlive hacc hopening
  -- the seed would be the user's, under an active category
  obtain ⟨x, hx, hxid, hxu, -⟩ := hinv.integrity.account t ht hlive
  obtain ⟨r, hr, hrid, -, hrd⟩ := hinv.integrity.category t ht hlive
  obtain ⟨r', hr', hrid', hkey⟩ := hopening
  obtain rfl : x = a := EvolutionLemmas.eq_of_id hx ha ((hxid.trans hacc).trans hid.symm)
  obtain rfl : r = r' := EvolutionLemmas.eq_of_id hr hr' (hrid.trans hrid'.symm)
  have hfound : hasOpeningBalance db userId accountId = true := by
    unfold hasOpeningBalance
    rw [List.any_eq_true]
    refine ⟨t, ht, Bool.and_eq_true_iff.mpr ⟨decide_eq_true ⟨hxu.symm.trans hu, hacc, hlive⟩, ?_⟩⟩
    exact List.any_eq_true.mpr ⟨r, hr, decide_eq_true ⟨hrid', hkey, hrd⟩⟩
  rw [h] at hfound
  cases hfound

/-- The account and the category of a rewritten row were the row's before, or
the request has just checked them. -/
theorem account_of_step (hinv : SeedsSettled db) {t t' : Row .transactions}
    (ht : t ∈ db.rows .transactions) (hstep : TransactionStep env userId request db t t') :
    ∃ r ∈ db.rows .bankAccounts, r.id = t'.accountId := by
  cases hstep with
  | kept hb =>
    obtain ⟨-, -, -, hacc, -, -⟩ := bumpedTo_columns hb
    rw [hacc]
    exact hinv.account t ht
  | @updated body hreq hupd =>
    show ∃ r ∈ db.rows .bankAccounts, r.id = body.fields.accountId.getD t.accountId
    cases ha : body.fields.accountId with
    | none => exact hinv.account t ht
    | some a =>
      obtain ⟨r, hr, hid, -⟩ := hupd.account a ha
      exact ⟨r, hr, hid⟩
  | deleted | restored | unassigned => exact hinv.account t ht

theorem category_of_step (hinv : SeedsSettled db) {t t' : Row .transactions}
    (ht : t ∈ db.rows .transactions) (hstep : TransactionStep env userId request db t t') :
    ∃ r ∈ db.rows .categories, r.id = t'.categoryId := by
  cases hstep with
  | kept hb =>
    obtain ⟨-, -, -, -, hcat, -⟩ := bumpedTo_columns hb
    rw [hcat]
    exact hinv.category t ht
  | @updated body hreq hupd =>
    show ∃ r ∈ db.rows .categories, r.id = body.fields.categoryId.getD t.categoryId
    cases hc : body.fields.categoryId with
    | none => exact hinv.category t ht
    | some cid =>
      obtain ⟨r, hr, hid, -⟩ := hupd.category cid hc
      exact ⟨r, hr, hid⟩
  | deleted | restored | unassigned => exact hinv.category t ht

/-- The account of a ledger row of the later state is there before the call. -/
theorem account_row (hinv : SeedsSettled db) {t' : Row .transactions}
    (ht' : t' ∈ (step db c).rows .transactions) :
    ∃ r ∈ db.rows .bankAccounts, r.id = t'.accountId := by
  rcases step_effect db c with hsame | ⟨db₁, heffect, hcore⟩
  · rw [hsame.rows rfl] at ht'
    exact hinv.account t' ht'
  · rw [hcore.rows rfl] at ht'
    rcases (transactions_evolve heffect).origin ht' with ⟨t, ht, hstep⟩ | hnew
    · exact account_of_step hinv ht hstep
    · obtain ⟨r, hr, hid, -⟩ := hnew.account
      exact ⟨r, hr, hid⟩

/-- The category may have been seeded by the call. -/
theorem category_row (hinv : SeedsSettled db) {t' : Row .transactions}
    (ht' : t' ∈ (step db c).rows .transactions) :
    (∃ r ∈ db.rows .categories, r.id = t'.categoryId) ∨
      ∃ r ∈ (step db c).rows .categories, r.id = t'.categoryId := by
  rcases step_effect db c with hsame | ⟨db₁, heffect, hcore⟩
  · rw [hsame.rows rfl] at ht'
    exact .inl (hinv.category t' ht')
  · rw [hcore.rows rfl] at ht'
    rcases (transactions_evolve heffect).origin ht' with ⟨t, ht, hstep⟩ | hnew
    · exact .inl (category_of_step hinv ht hstep)
    · obtain ⟨r, hr, hid, -⟩ := hnew.category
      exact .inr ⟨r, (hcore.rows (t := .categories) rfl).symm ▸ hr, hid⟩

/-- A row of a table is still there after a call. -/
theorem row_kept {t : Tbl} {k : Key t} (h : ∃ r ∈ db.rows t, keyOf t r = k) :
    ∃ r ∈ (step db c).rows t, keyOf t r = k := by
  obtain ⟨r, hr, rfl⟩ := h
  obtain ⟨r', hr', hkey, -⟩ := step_kept c hr
  exact ⟨r', hr', hkey⟩

theorem seedFate (hinv : SeedsSettled db) (hok : SeedMoves db c) {t' : Row .transactions}
    (ht' : t' ∈ (step db c).rows .transactions) (hseed : IsOpening (step db c) t'.categoryId) :
    SeedFate db c t' := by
  have hback : (∃ r ∈ db.rows .categories, r.id = t'.categoryId) → IsOpening db t'.categoryId :=
    fun hmem => (isOpening_step hmem).mp hseed
  have hsame : step db c = db → SeedFate db c t' := by
    intro hsame
    rw [hsame] at ht'
    exact .stayed t' ht' rfl (hback (hinv.category t' ht')) rfl id
  by_cases henters : c.Enters db
  swap
  · exact hsame (step_of_not_enters henters)
  rcases step_cases db c with hstep | ⟨b, db₁, hwork, hdb⟩
  · exact hsame hstep
  · obtain ⟨db₂, heffect, hcore₂⟩ := work_effect hwork
    have ht₁ : t' ∈ db₁.rows .transactions := by
      rwa [Sql.Db.rows, hdb .transactions (by simp)] at ht'
    have ht₂ : t' ∈ db₂.rows .transactions := by rwa [← hcore₂.rows rfl]
    rcases (transactions_evolve heffect).origin ht₂ with ⟨t, ht, hstep⟩ | hnew
    · exact seedFate_of_step hinv henters hok ht hstep (hback (category_of_step hinv ht hstep))
    · rcases new_category hwork ht₁ hnew.fresh with hcat | ⟨accountId, body, hreq, hid, hacc⟩
      · obtain ⟨r, hr, hrid, -⟩ := id hcat
        exact absurd (hback ⟨r, hr, hrid⟩) (not_isOpening_of_plain hcat)
      · rw [hreq] at hwork
        obtain ⟨a, ha, haid, hau, hperson, hnone⟩ := exec_createOpeningBalance_guard hwork
        refine .arrived (by rw [hreq, hid]; rfl) ?_ ?_
        · rw [hacc]
          exact unseeded_of_guard hinv ha haid hau hnone
        · intro x hx hxid
          obtain rfl : x = a :=
            EvolutionLemmas.eq_of_id hx ha ((hxid.trans hacc).trans haid.symm)
          exact hperson

end OpeningLemmas

/-! ## Every call preserves it -/

theorem SeedsSettled.step (hinv : SeedsSettled db) (hok : SeedMoves db c) :
    SeedsSettled (step db c) where
  integrity := hinv.integrity.step c
  category t' ht' := (category_row hinv ht').elim row_kept id
  account t' ht' := row_kept (account_row hinv ht')
  single t ht t' ht' hlive hlive' hseed hseed' hacc := by
    -- two rows that stayed were there, two that arrived are one, and none joins another
    rcases seedFate hinv hok ht hseed with
      ⟨x, hx, hid, hxs, hxa, hxl⟩ | ⟨htarget, hfree, -⟩ <;>
    rcases seedFate hinv hok ht' hseed' with
      ⟨y, hy, hid', hys, hya, hyl⟩ | ⟨htarget', hfree', -⟩
    · obtain rfl := hinv.single x hx y hy (hxl hlive) (hyl hlive') hxs hys
        (hxa.symm.trans (hacc.trans hya))
      exact EvolutionLemmas.eq_of_id ht ht' (hid.symm.trans hid')
    · exact absurd hxs (hfree' x hx (hxl hlive) (hxa.symm.trans hacc))
    · exact absurd hys (hfree y hy (hyl hlive') (hya.symm.trans hacc.symm))
    · exact EvolutionLemmas.eq_of_id ht ht' (Option.some.inj (htarget.symm.trans htarget'))
  person t' ht' hseed := by
    refine notPerson_step (account_row hinv ht') ?_
    rcases seedFate hinv hok ht' hseed with ⟨t, ht, -, hold, hacc, -⟩ | ⟨-, -, hperson⟩
    · rw [hacc]
      exact hinv.person t ht hold
    · exact hperson

/-- A call that neither updates nor restores a transaction meets the condition. -/
theorem seedMoves_of_ne (hupdate : ∀ id body, c.request ≠ .updateTransaction id body)
    (hrestore : ∀ id, c.request ≠ .restoreTransaction id) : SeedMoves db c where
  move _ _ _ _ hreq := absurd hreq (hupdate _ _)
  restore _ _ _ hreq := absurd hreq (hrestore _)

theorem SeedsSettled.singularOpening (h : SeedsSettled db) : SingularOpening db :=
  ⟨h.single, fun t ht _ hseed => h.person t ht hseed⟩

theorem Fresh.seedsSettled (h : Fresh db) : SeedsSettled db where
  integrity := h.integrity
  category := by simp [h.transactions]
  account := by simp [h.transactions]
  single := by simp [h.transactions]
  person := by simp [h.transactions]

/-- In every run whose moves and restores of seeds find their account free, an
account has at most one active seed, and a person's account has none. -/
theorem opening_balance_singular {db₀ : Db} (hfresh : Fresh db₀) {calls : List Call}
    (hmoves : Along SeedMoves db₀ calls) : SingularOpening (run db₀ calls) :=
  (run_invariant (fun _ _ => SeedsSettled.step) hfresh.seedsSettled hmoves).singularOpening

end Seeds

namespace Ascii

/-- A person with the account 12, and seeds on the accounts 10 and 11: the rows
50 and 51. -/
def seeds : List Call := [
  callAt 1 (.bootstrap "Ann".toList "UTC".toList),
  callAt 2 (.createAccount ⟨10, "Cash".toList, "PEN".toList, none, none⟩),
  callAt 3 (.createAccount ⟨11, "Bank".toList, "PEN".toList, none, none⟩),
  callAt 4 (.createPerson ⟨12, "Bob".toList, "PEN".toList, none, none⟩),
  callAt 5 (.createOpeningBalance 10 ⟨50, 1000, 5, none⟩),
  callAt 6 (.createOpeningBalance 11 ⟨51, 2000, 6, none⟩)]

/-- `PUT /transactions/{id}` with an account only. -/
def moveTo (now : Timestamp) (id accountId : Uuid) : Call :=
  callAt now (.updateTransaction id
    ⟨none, none, none, some (some accountId), none, none, none, none⟩)

instance (db : Db) (cid : Uuid) : Decidable (IsOpening db cid) :=
  inferInstanceAs (Decidable (∃ r ∈ db.rows .categories, r.id = cid ∧
    r.systemKey = some .openingBalance))

instance (db : Db) (a : Uuid) : Decidable (Unseeded db a) :=
  inferInstanceAs (Decidable (∀ t ∈ db.rows .transactions, t.deletedAt = none →
    t.accountId = a → ¬IsOpening db t.categoryId))

instance (db : Db) (a : Uuid) : Decidable (NotPerson db a) :=
  inferInstanceAs (Decidable (∀ r ∈ db.rows .bankAccounts, r.id = a → r.isPerson = false))

instance (db : Db) : Decidable (SingularOpening db) :=
  decidable_of_iff ((∀ t ∈ db.rows .transactions, ∀ t' ∈ db.rows .transactions,
      t.deletedAt = none → t'.deletedAt = none → IsOpening db t.categoryId →
      IsOpening db t'.categoryId → t.accountId = t'.accountId → t = t') ∧
    ∀ t ∈ db.rows .transactions, t.deletedAt = none → IsOpening db t.categoryId →
      NotPerson db t.accountId)
    ⟨fun h => ⟨h.1, h.2⟩, fun h => ⟨h.single, h.person⟩⟩

end Ascii

open Ascii in
/-- The second seed is deleted, and the first may then move to its account. -/
theorem opening_balance_singular_move : SingularOpening
    (run blank (seeds ++ [callAt 7 (.deleteTransaction 51), moveTo 8 50 11])) :=
  opening_balance_singular fresh_blank (by
    refine ⟨?_, ?_, ?_, ?_, ?_, ?_, ?_, ⟨?_, fun _ _ _ h => by cases h⟩, trivial⟩
    iterate 7 exact seedMoves_of_ne (fun _ _ h => by cases h) fun _ h => by cases h
    intro _ body t a hreq _ _ _ ha _
    obtain ⟨-, rfl⟩ := Request.updateTransaction.inj hreq
    cases ha
    decide +kernel)

open Ascii in
/-- A seed moved to an account that has one, a seed moved to a person's account,
and a deleted seed restored beside its successor. -/
theorem moved_seed_doubles :
    ¬SingularOpening (run blank (seeds ++ [moveTo 7 50 11])) ∧
      ¬SingularOpening (run blank (seeds ++ [moveTo 7 50 12])) ∧
      ¬SingularOpening (run blank (seeds ++ [callAt 7 (.deleteTransaction 50),
        callAt 8 (.createOpeningBalance 10 ⟨52, 500, 8, none⟩),
        callAt 9 (.restoreTransaction 50)])) := by
  decide +kernel

end ExpenseEngine
