import ExpenseEngine.Invariants.OpeningBalance

/-!
# System categories over sequential runs

A ledger row under a system category is the seed that an opening balance put
there. Every other path that takes a category checks that it is plain: creates
and batch items on their own, updates when the request names a category, and
promotion, since a draft may hold a system category. Restores keep the category
the row has.

Results:
1. `category_fate`: the category of a ledger row after a call.
2. `system_category_boundary`: where the rows under system categories come from,
   in every run.
-/

namespace ExpenseEngine

open Sql Sql.Prog IntegrityLemmas OpeningLemmas

section SystemCategories

variable [Platform] {db db' : Db} {env : Env} {userId : Uuid} {request : Request} {c : Call}

/-! ## The categories of ledger rows -/

/-- The category has a system key. -/
def IsSystem (db : Db) (categoryId : Uuid) : Prop :=
  ∃ r ∈ db.rows .categories, r.id = categoryId ∧ r.systemKey ≠ none

/-- Every ledger row has its category. -/
def Categorized (db : Db) : Prop :=
  ∀ t ∈ db.rows .transactions, ∃ r ∈ db.rows .categories, r.id = t.categoryId

/-- The call opens the balance of an account with the ledger row `id`. -/
def Call.opens (c : Call) (id : Uuid) : Prop :=
  ∃ accountId body, c.request = .createOpeningBalance accountId body ∧ body.transactionId = id

/-- How a ledger row of the later state came to its category. -/
inductive CategoryFate (db : Db) (c : Call) (t' : Row .transactions) : Prop
  | kept (t : Row .transactions) (ht : t ∈ db.rows .transactions) (hid : t.id = t'.id)
      (hcategory : t.categoryId = t'.categoryId)
  | plain (h : PlainCategory db t'.categoryId)
  | seed (hopens : c.opens t'.id) (hnew : ∀ t ∈ db.rows .transactions, t.id ≠ t'.id)

namespace SystemCategoryLemmas

/-- A category keeps its system key, or the lack of one. -/
theorem isSystem_step {cid : Uuid} (hmem : ∃ r ∈ db.rows .categories, r.id = cid) :
    IsSystem (step db c) cid ↔ IsSystem db cid := by
  obtain ⟨r, hr, rfl⟩ := hmem
  obtain ⟨r', hr', hid, hkey⟩ := step_kept_of (c := c) (P := fun r r' : Row .categories =>
    r'.systemKey = r.systemKey) (fun _ => rfl) (fun h h' => h'.trans h)
    (fun _ _ => updates_systemKey) hr
  constructor
  · rintro ⟨x, hx, hxid, hsystem⟩
    obtain rfl : x = r' := EvolutionLemmas.eq_of_id hx hr' (hxid.trans hid.symm)
    exact ⟨r, hr, rfl, fun h => hsystem (hkey.trans h)⟩
  · rintro ⟨x, hx, hxid, hsystem⟩
    obtain rfl : x = r := EvolutionLemmas.eq_of_id hx hr hxid
    exact ⟨r', hr', hid, fun h => hsystem (hkey.symm.trans h)⟩

theorem not_isSystem_of_plain {cid : Uuid} (h : PlainCategory db cid) : ¬IsSystem db cid := by
  rintro ⟨r, hr, hid, hkey⟩
  obtain ⟨x, hx, hxid, hnone⟩ := h
  obtain rfl : x = r := EvolutionLemmas.eq_of_id hx hr (hxid.trans hid.symm)
  exact hkey hnone

/-- A statement on one row changes its category only when the request is an
update that names a plain one. -/
theorem fate_of_step {t t' : Row .transactions} (ht : t ∈ db.rows .transactions)
    (hstep : TransactionStep c.env c.userId c.request db t t') : CategoryFate db c t' := by
  cases hstep with
  | kept hb =>
    obtain ⟨hid, -, -, -, hcat, -⟩ := bumpedTo_columns hb
    exact .kept t ht hid.symm hcat.symm
  | @updated body hreq hupd =>
    cases hc : body.fields.categoryId with
    | none =>
      refine .kept t ht rfl ?_
      show t.categoryId = body.fields.categoryId.getD t.categoryId
      rw [hc, Option.getD_none]
    | some cid =>
      refine .plain ?_
      show PlainCategory db (body.fields.categoryId.getD t.categoryId)
      rw [hc, Option.getD_some]
      exact plain_of_user (hupd.category cid hc)
  | deleted hreq hu hd hdraft => exact .kept t ht rfl rfl
  | restored hreq hres => exact .kept t ht rfl rfl
  | unassigned hreq hm hdraft => exact .kept t ht rfl rfl

end SystemCategoryLemmas

open SystemCategoryLemmas

theorem category_fate (db : Db) (c : Call) {t' : Row .transactions}
    (ht' : t' ∈ (step db c).rows .transactions) : CategoryFate db c t' := by
  rcases step_cases db c with hsame | ⟨b, db₁, hwork, hdb⟩
  · rw [hsame] at ht'
    exact .kept t' ht' rfl rfl
  · obtain ⟨db₂, heffect, hcore⟩ := work_effect hwork
    have ht₁ : t' ∈ db₁.rows .transactions := by
      rwa [Sql.Db.rows, hdb .transactions (by simp)] at ht'
    have ht₂ : t' ∈ db₂.rows .transactions := by rwa [← hcore.rows rfl]
    rcases (transactions_evolve heffect).origin ht₂ with ⟨t, ht, hstep⟩ | hnew
    · exact fate_of_step ht hstep
    · rcases new_category hwork ht₁ hnew.fresh with hplain | ⟨accountId, body, hreq, hid, -⟩
      · exact .plain hplain
      · exact .seed ⟨accountId, body, hreq, hid.symm⟩ hnew.fresh

/-! ## Every ledger row has its category -/

theorem Categorized.step (h : Categorized db) (c : Call) : Categorized (step db c) := by
  intro t' ht'
  rcases step_effect db c with hsame | ⟨db₁, heffect, hcore⟩
  · rw [hsame.rows rfl] at ht'
    exact row_kept (h t' ht')
  · rw [hcore.rows rfl] at ht'
    rcases (transactions_evolve heffect).origin ht' with ⟨t, ht, hstep⟩ | hnew
    · refine row_kept ?_
      cases hstep with
      | kept hb =>
        obtain ⟨-, -, -, -, hcat, -⟩ := bumpedTo_columns hb
        rw [hcat]
        exact h t ht
      | @updated body hreq hupd =>
        show ∃ r ∈ db.rows .categories, r.id = body.fields.categoryId.getD t.categoryId
        cases hc : body.fields.categoryId with
        | none => exact h t ht
        | some cid =>
          obtain ⟨r, hr, hid, -⟩ := hupd.category cid hc
          exact ⟨r, hr, hid⟩
      | deleted | restored | unassigned => exact h t ht
    · obtain ⟨r, hr, hid, -⟩ := hnew.category
      exact ⟨r, (hcore.rows (t := .categories) rfl).symm ▸ hr, hid⟩

theorem Fresh.categorized (h : Fresh db) : Categorized db := by
  simp [Categorized, h.transactions]

theorem Categorized.run (h : Categorized db) (calls : List Call) : Categorized (run db calls) :=
  run_invariant (fun _ c hdb _ => hdb.step c) h (along_true db calls)

/-! ## The boundary -/

/-- A call of the run has opened a balance with this ledger row, which was not
there before and had this category then. -/
def SeededBy (db₀ : Db) (calls : List Call) (id categoryId : Uuid) : Prop :=
  ∃ before c after, calls = before ++ c :: after ∧ c.opens id ∧
    (∀ t ∈ (run db₀ before).rows .transactions, t.id ≠ id) ∧
    ∃ t ∈ (step (run db₀ before) c).rows .transactions, t.id = id ∧ t.categoryId = categoryId

namespace SystemCategoryLemmas

theorem SeededBy.append {db₀ : Db} {calls : List Call} {id cid : Uuid}
    (h : SeededBy db₀ calls id cid) (c : Call) : SeededBy db₀ (calls ++ [c]) id cid := by
  obtain ⟨before, seed, after, rfl, hopens, hnew, hrow⟩ := h
  exact ⟨before, seed, after ++ [c], by simp, hopens, hnew, hrow⟩

/-- A call that opens no balance with the row leaves it under the system
category it had. -/
theorem stays_of_system (hdb : Categorized db) {t' : Row .transactions}
    (ht' : t' ∈ (step db c).rows .transactions) (hsystem : IsSystem (step db c) t'.categoryId)
    (hopens : ¬c.opens t'.id) :
    ∃ t ∈ db.rows .transactions, t.id = t'.id ∧ t.categoryId = t'.categoryId ∧
      IsSystem db t'.categoryId := by
  cases category_fate db c ht' with
  | kept t ht hid hcat =>
    refine ⟨t, ht, hid, hcat, (isSystem_step ?_).mp hsystem⟩
    rw [← hcat]
    exact hdb t ht
  | plain hplain =>
    obtain ⟨r, hr, hid, -⟩ := id hplain
    exact absurd ((isSystem_step ⟨r, hr, hid⟩).mp hsystem) (not_isSystem_of_plain hplain)
  | seed hopens' => exact absurd hopens' hopens

theorem seededBy_run {db₀ : Db} (hfresh : Fresh db₀) (calls : List Call) :
    ∀ t ∈ (run db₀ calls).rows .transactions, IsSystem (run db₀ calls) t.categoryId →
      SeededBy db₀ calls t.id t.categoryId := by
  induction calls using List.reverseRecOn with
  | nil =>
    intro t ht
    rw [run, List.foldl_nil, hfresh.transactions] at ht
    cases ht
  | append_singleton calls c ih =>
    intro t' ht' hsystem
    rw [run_append] at ht' hsystem
    have hdb := hfresh.categorized.run calls
    -- the row was under its category before the call, or the call put it there
    cases category_fate (run db₀ calls) c ht' with
    | kept t ht hid hcat =>
      have hbefore := (isSystem_step (hdb t ht)).mp (hcat ▸ hsystem)
      rw [← hid, ← hcat]
      exact SeededBy.append (ih t ht hbefore) c
    | plain hplain =>
      obtain ⟨r, hr, hid, -⟩ := id hplain
      exact absurd ((isSystem_step ⟨r, hr, hid⟩).mp hsystem) (not_isSystem_of_plain hplain)
    | seed hopens hnew => exact ⟨calls, c, [], rfl, hopens, hnew, t', ht', rfl, rfl⟩

end SystemCategoryLemmas

/-- In every state reached, a ledger row under a system category, deleted or not,
was inserted there by the opening of a balance; and a call that opens no balance
leaves no row under a system category that was not under it before. -/
theorem system_category_boundary {db₀ : Db} (hfresh : Fresh db₀) (calls : List Call) :
    (∀ t ∈ (run db₀ calls).rows .transactions, IsSystem (run db₀ calls) t.categoryId →
      SeededBy db₀ calls t.id t.categoryId) ∧
    ∀ c : Call, (∀ accountId body, c.request ≠ .createOpeningBalance accountId body) →
      ∀ t' ∈ (step (run db₀ calls) c).rows .transactions,
        IsSystem (step (run db₀ calls) c) t'.categoryId →
        ∃ t ∈ (run db₀ calls).rows .transactions, t.id = t'.id ∧ t.categoryId = t'.categoryId := by
  refine ⟨seededBy_run hfresh calls, fun c hne t' ht' hsystem => ?_⟩
  have hopens : ¬c.opens t'.id := fun ⟨accountId, body, hreq, _⟩ => hne accountId body hreq
  obtain ⟨t, ht, hid, hcat, -⟩ :=
    stays_of_system (hfresh.categorized.run calls) ht' hsystem hopens
  exact ⟨t, ht, hid, hcat⟩

end SystemCategories

namespace Ascii

/-- The system category of the user 1, and a draft that holds it: the row 60. -/
def systemDraft : List Call := seeds ++ [
  callAt 7 (.createInboxItem ⟨60, some "Seed".toList, none, some 900, some 7, some 10,
    some ((envAt 5).uuid 1), []⟩)]

end Ascii

open Ascii in
/-- The draft is there with its system category, and is not promoted. -/
theorem system_category_boundary_draft :
    (∀ t ∈ (run blank (systemDraft ++ [callAt 8 (.promoteInboxItem 60 61)])).rows .transactions,
      IsSystem (run blank (systemDraft ++ [callAt 8 (.promoteInboxItem 60 61)])) t.categoryId →
      SeededBy blank (systemDraft ++ [callAt 8 (.promoteInboxItem 60 61)]) t.id t.categoryId) ∧
    ((run blank systemDraft).rows .transactionInbox).map (fun d => d.categoryId) =
      [some ((envAt 5).uuid 1)] ∧
    ((run blank (systemDraft ++ [callAt 8 (.promoteInboxItem 60 61)])).rows .transactions).map
      (fun t => t.id) = [50, 51] :=
  ⟨(system_category_boundary fresh_blank _).1, by decide +kernel, by decide +kernel⟩

end ExpenseEngine
