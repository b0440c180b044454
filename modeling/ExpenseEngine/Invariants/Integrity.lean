import ExpenseEngine.Effects.Evolution

/-!
# Referential integrity over sequential runs

Rows are soft-deleted, so no foreign key keeps a transaction from pointing at a
deleted account, category or reconciliation. The guards of the services do.

Results:
1. `Integrity.step`, `Integrity.run`: every call preserves the invariant.
2. `reachable_integrity`: what holds of the active rows of every state reached,
   and of a restored reconciliation.
-/

namespace ExpenseEngine

open Sql Sql.Prog

section Invariant

variable [Platform] {db db' : Db} {env : Env} {userId : Uuid} {request : Request}

/-! ## The invariant -/

/-- The table has an active row with this id and owner. -/
def HasActive (t : Tbl) [OwnedTable t] (db : Db) (id userId : Uuid) : Prop :=
  ∃ r ∈ db.rows t, (OwnedTable.resource r).id = id ∧ (OwnedTable.resource r).userId = userId ∧
    (OwnedTable.resource r).deletedAt = none

/-- Every active row refers to active rows of its own user. -/
structure Integrity (db : Db) : Prop where
  account : ∀ t ∈ db.rows .transactions, t.deletedAt = none →
    HasActive .bankAccounts db t.accountId t.userId
  category : ∀ t ∈ db.rows .transactions, t.deletedAt = none →
    HasActive .categories db t.categoryId t.userId
  reconciliation : ∀ t ∈ db.rows .transactions, t.deletedAt = none →
    ∀ rid, t.reconciliationId = some rid → HasActive .reconciliations db rid t.userId
  draftCategory : ∀ d ∈ db.rows .transactionInbox, d.deletedAt = none →
    ∀ c, d.categoryId = some c → HasActive .categories db c d.userId

namespace IntegrityLemmas

theorem HasActiveAccount.hasActive {a : Uuid} (h : HasActiveAccount db userId a) :
    HasActive .bankAccounts db a userId := by
  obtain ⟨r, hr, hid, hw⟩ := h
  obtain ⟨hu, hd, -⟩ := of_decide_eq_true hw
  exact ⟨r, hr, hid, hu, hd⟩

theorem HasActiveCategory.hasActive {c : Uuid} (h : HasActiveCategory db userId c) :
    HasActive .categories db c userId := by
  obtain ⟨r, hr, hid, hw⟩ := h
  exact ⟨r, hr, hid, of_decide_eq_true hw⟩

theorem hasActive_congr {t : Tbl} [OwnedTable t] {id : Uuid} (h : db.rows t = db'.rows t) :
    HasActive t db id userId ↔ HasActive t db' id userId := by
  simp only [HasActive, h]

/-- An active row stays active unless the request may delete it. -/
theorem hasActive_survives {t : Tbl} [OwnedTable t] {mayDelete new : Row t → Prop} {id : Uuid}
    (h : Evolves (db.rows t) (db'.rows t) (Survives t mayDelete) new)
    (hactive : HasActive t db id userId) :
    HasActive t db' id userId ∨ ∃ r ∈ db.rows t, ((OwnedTable.resource r).id = id ∧
      (OwnedTable.resource r).userId = userId) ∧ mayDelete r := by
  obtain ⟨r, hr, hid, hu, hd⟩ := hactive
  obtain ⟨r', hr', ⟨hid', hu'⟩, hlive⟩ := h.fate hr
  rcases hlive hd with hlive | hdel
  · exact .inl ⟨r', hr', hid'.trans hid, hu'.trans hu, hlive⟩
  · exact .inr ⟨r, hr, ⟨hid, hu⟩, hdel⟩

omit [Platform] in
/-- A bump leaves the columns of a ledger row as they were. -/
theorem bumpedTo_columns {t t' : Row .transactions} (h : BumpedTo .transactions t t') :
    t'.id = t.id ∧ t'.userId = t.userId ∧ t'.deletedAt = t.deletedAt ∧
      t'.accountId = t.accountId ∧ t'.categoryId = t.categoryId ∧
      t'.reconciliationId = t.reconciliationId := by
  rcases h with rfl | ⟨now, rfl⟩ <;> exact ⟨rfl, rfl, rfl, rfl, rfl, rfl⟩

/-- The account of an active row was that of the same active row, or the
request has just checked it. -/
theorem account_origin (h : Effect env userId db request db') {t' : Row .transactions}
    (ht' : t' ∈ db'.rows .transactions) (hd : t'.deletedAt = none) :
    (∃ t ∈ db.rows .transactions, t.deletedAt = none ∧ t.userId = t'.userId ∧
        t.accountId = t'.accountId) ∨
      HasActiveAccount db t'.userId t'.accountId ∧ ∀ a, request ≠ .deleteAccount a := by
  rcases (transactions_evolve h).origin ht' with ⟨t, ht, hstep⟩ | hnew
  · cases hstep with
    | kept hb =>
      obtain ⟨-, hu, hdel, ha, -, -⟩ := bumpedTo_columns hb
      exact .inl ⟨t, ht, hdel ▸ hd, hu.symm, ha.symm⟩
    | @updated body hreq hupd =>
      cases hacc : body.fields.accountId with
      | none =>
        refine .inl ⟨t, ht, hupd.owned.2.2, rfl, ?_⟩
        show _ = body.fields.accountId.getD t.accountId
        rw [hacc, Option.getD_none]
      | some a =>
        refine .inr ⟨?_, by simp [hreq]⟩
        show HasActiveAccount db t.userId (body.fields.accountId.getD t.accountId)
        rw [hacc, Option.getD_some, hupd.owned.2.1]
        exact hupd.account a hacc
    | deleted => cases hd
    | restored hreq hres =>
      refine .inr ⟨?_, by simp [hreq]⟩
      show HasActiveAccount db t.userId t.accountId
      rw [hres.owned.2.1]
      exact hres.account
    | unassigned hreq hm _ =>
      exact .inl ⟨t, ht, (of_decide_eq_true hm).2.2, rfl, rfl⟩
  · refine .inr ⟨hnew.user ▸ hnew.account, ?_⟩
    rintro a rfl
    cases hnew.inserts

/-- The category of an active row was that of the same active row, or the
request has just checked or seeded it. -/
theorem category_origin (h : Effect env userId db request db') {t' : Row .transactions}
    (ht' : t' ∈ db'.rows .transactions) (hd : t'.deletedAt = none) :
    (∃ t ∈ db.rows .transactions, t.deletedAt = none ∧ t.userId = t'.userId ∧
        t.categoryId = t'.categoryId) ∨
      (HasActiveCategory db t'.userId t'.categoryId ∧ ∀ c, request ≠ .deleteCategory c) ∨
      HasActiveCategory db' t'.userId t'.categoryId := by
  rcases (transactions_evolve h).origin ht' with ⟨t, ht, hstep⟩ | hnew
  · cases hstep with
    | kept hb =>
      obtain ⟨-, hu, hdel, -, hc, -⟩ := bumpedTo_columns hb
      exact .inl ⟨t, ht, hdel ▸ hd, hu.symm, hc.symm⟩
    | @updated body hreq hupd =>
      cases hcat : body.fields.categoryId with
      | none =>
        refine .inl ⟨t, ht, hupd.owned.2.2, rfl, ?_⟩
        show _ = body.fields.categoryId.getD t.categoryId
        rw [hcat, Option.getD_none]
      | some c =>
        refine .inr (.inl ⟨?_, by simp [hreq]⟩)
        show HasActiveCategory db t.userId (body.fields.categoryId.getD t.categoryId)
        rw [hcat, Option.getD_some, hupd.owned.2.1]
        exact (hupd.category c hcat).hasActive
    | deleted => cases hd
    | restored hreq hres =>
      refine .inr (.inl ⟨?_, by simp [hreq]⟩)
      show HasActiveCategory db t.userId t.categoryId
      rw [hres.owned.2.1]
      exact hres.category
    | unassigned hreq hm _ =>
      exact .inl ⟨t, ht, (of_decide_eq_true hm).2.2, rfl, rfl⟩
  · exact .inr (.inr (hnew.user ▸ hnew.category))

/-- The reconciliation of an active row was that of the same active row, or the
request has just checked that it is active. -/
theorem reconciliation_origin (h : Effect env userId db request db') {t' : Row .transactions}
    (ht' : t' ∈ db'.rows .transactions) (hd : t'.deletedAt = none) {rid : Uuid}
    (hr : t'.reconciliationId = some rid) :
    (∃ t ∈ db.rows .transactions, t.deletedAt = none ∧ t.userId = t'.userId ∧
        t.reconciliationId = some rid) ∨
      HasActive .reconciliations db rid t'.userId ∧ ∀ r, request ≠ .deleteReconciliation r := by
  rcases (transactions_evolve h).origin ht' with ⟨t, ht, hstep⟩ | hnew
  · cases hstep with
    | kept hb =>
      obtain ⟨-, hu, hdel, -, -, hrec⟩ := bumpedTo_columns hb
      exact .inl ⟨t, ht, hdel ▸ hd, hu.symm, hrec ▸ hr⟩
    | @updated body hreq hupd =>
      have hr : body.reconciliationId.getD t.reconciliationId = some rid := hr
      cases hsent : body.reconciliationId with
      | none =>
        rw [hsent, Option.getD_none] at hr
        exact .inl ⟨t, ht, hupd.owned.2.2, rfl, hr⟩
      | some sent =>
        rw [hsent, Option.getD_some] at hr
        subst hr
        obtain ⟨rec, hrec, hid, hu, hdel, -, -⟩ := hupd.assignment rid hsent
        exact .inr ⟨⟨rec, hrec, hid, hu.trans hupd.owned.2.1.symm, hdel⟩, by simp [hreq]⟩
    | deleted => cases hd
    | @restored unlink hreq hres =>
      have hr : (if unlink then none else t.reconciliationId) = some rid := hr
      split at hr
      · cases hr
      · next hkeep =>
        obtain ⟨rec, hrec, hid, hu, hdel, -⟩ :=
          hres.keeps.mp (Bool.eq_false_iff.mpr hkeep) rid hr
        exact .inr ⟨⟨rec, hrec, hid, hu.trans hres.owned.2.1.symm, hdel⟩, by simp [hreq]⟩
    | unassigned => cases hr
  · rw [hnew.unassigned] at hr
    cases hr

/-- The category of an active draft was that of the same active draft, or the
request has just checked it. -/
theorem draftCategory_origin (h : Effect env userId db request db') {d' : Row .transactionInbox}
    (hd' : d' ∈ db'.rows .transactionInbox) (hdel : d'.deletedAt = none) {c : Uuid}
    (hc : d'.categoryId = some c) :
    (∃ d ∈ db.rows .transactionInbox, d.deletedAt = none ∧ d.userId = d'.userId ∧
        d.categoryId = some c) ∨
      HasActiveCategory db d'.userId c ∧ ∀ c, request ≠ .deleteCategory c := by
  rcases (drafts_evolve h).origin hd' with ⟨d, hd, hstep⟩ | hnew
  · cases hstep with
    | kept hb =>
      rcases hb with rfl | ⟨now, rfl⟩
      · exact .inl ⟨d', hd, hdel, rfl, hc⟩
      · exact .inl ⟨d, hd, hdel, rfl, hc⟩
    | @updated body hreq hupd =>
      have hc : (if body.fields.categoryId.isSome then body.fields.categoryId
        else d.categoryId) = some c := hc
      split at hc
      · refine .inr ⟨?_, by simp [hreq]⟩
        show HasActiveCategory db d.userId c
        rw [hupd.owned.2.1]
        exact hupd.fieldsValid.category c hc
      · exact .inl ⟨d, hd, hupd.owned.2.2, rfl, hc⟩
    | dismissed => cases hdel
    | promoted => cases hdel
  · obtain ⟨body, rfl, rfl, hvalid⟩ := hnew.request
    exact .inr ⟨hvalid.category c hc, by simp⟩

/-- A deleted reconciliation has lost its active members. -/
theorem reconciliation_survives (h : Effect env userId db request db') {rid u : Uuid}
    (hactive : HasActive .reconciliations db rid u) :
    HasActive .reconciliations db' rid u ∨
      ∃ r, request = .deleteReconciliation r ∧ ∀ t ∈ db'.rows .transactions,
        t.deletedAt = none → t.userId = u → t.reconciliationId ≠ some rid := by
  obtain ⟨r, hr, rfl, rfl, hd⟩ := hactive
  obtain ⟨r', hr', hstep⟩ := (reconciliations_evolve h).fate hr
  cases hstep with
  | kept => exact .inl ⟨r, hr', rfl, rfl, hd⟩
  | edited | completed | reverted => exact .inl ⟨_, hr', rfl, rfl, hd⟩
  | restored _ _ hdel => exact absurd hd hdel
  | deleted hreq hu _ _ =>
    subst hreq
    refine .inr ⟨r.id, rfl, fun t ht hlive hut hrid => ?_⟩
    cases h with
    | reconciliationDeleted =>
      rw [Db.reconciliationDeleted, Db.rows_modify_ne _ _ _ (by simp), Db.rows_modify_same] at ht
      obtain ⟨t₀, -, rfl⟩ := List.mem_map.mp ht
      split at hrid
      · cases hrid
      · next hm =>
        rw [if_neg hm] at hlive hut
        exact hm (decide_eq_true ⟨hrid, hut.trans hu, hlive⟩)
    | idle hp | accountCreated hp | accountEdited hp | categoryCreated hp | categoryEdited hp
    | hashtagCreated hp | hashtagEdited hp => cases hp

end IntegrityLemmas

open IntegrityLemmas

/-! ## Every call preserves it -/

theorem Integrity.effect (hinv : Integrity db) (h : Effect env userId db request db') :
    Integrity db' where
  account t' ht' hd := by
    rcases account_origin h ht' hd with ⟨t, ht, hdel, hu, ha⟩ | ⟨hnew, hreq⟩
    · rcases hasActive_survives (accounts_evolve h) (hinv.account t ht hdel) with
        hok | ⟨a, -, ⟨hid, hau⟩, -, hau', hfree⟩
      · rwa [hu, ha] at hok
      · exact absurd hdel (hfree t ht hid.symm (hau.symm.trans hau'))
    · rcases hasActive_survives (accounts_evolve h) (HasActiveAccount.hasActive hnew) with
        hok | ⟨a, -, -, hdelete, -⟩
      · exact hok
      · exact absurd hdelete (hreq a.id)
  category t' ht' hd := by
    rcases category_origin h ht' hd with ⟨t, ht, hdel, hu, hc⟩ | ⟨hnew, hreq⟩ | hnew
    · rcases hasActive_survives (categories_evolve h) (hinv.category t ht hdel) with
        hok | ⟨c, -, ⟨hid, hcu⟩, -, hcu', hfree⟩
      · rwa [hu, hc] at hok
      · exact absurd hdel (hfree.1 t ht hid.symm (hcu.symm.trans hcu'))
    · rcases hasActive_survives (categories_evolve h) (HasActiveCategory.hasActive hnew) with
        hok | ⟨c, -, -, hdelete, -⟩
      · exact hok
      · exact absurd hdelete (hreq c.id)
    · exact HasActiveCategory.hasActive hnew
  reconciliation t' ht' hd rid hr := by
    rcases reconciliation_origin h ht' hd hr with ⟨t, ht, hdel, hu, htr⟩ | ⟨hnew, hreq⟩
    · rcases reconciliation_survives h (hinv.reconciliation t ht hdel rid htr) with
        hok | ⟨r, -, hfree⟩
      · rwa [hu] at hok
      · exact absurd hr (hfree t' ht' hd hu.symm)
    · rcases reconciliation_survives h hnew with hok | ⟨r, hdelete, -⟩
      · exact hok
      · exact absurd hdelete (hreq r)
  draftCategory d' hd' hdel c hc := by
    rcases draftCategory_origin h hd' hdel hc with ⟨d, hd, hdd, hu, hdc⟩ | ⟨hnew, hreq⟩
    · rcases hasActive_survives (categories_evolve h) (hinv.draftCategory d hd hdd c hdc) with
        hok | ⟨x, -, ⟨hid, hxu⟩, -, hxu', hfree⟩
      · rwa [hu] at hok
      · have hdx : d.categoryId = some x.id := hdc.trans (congrArg some hid.symm)
        exact absurd hdd (hfree.2 d hd hdx (hxu.symm.trans hxu'))
    · rcases hasActive_survives (categories_evolve h) (HasActiveCategory.hasActive hnew) with
        hok | ⟨x, -, -, hdelete, -⟩
      · exact hok
      · exact absurd hdelete (hreq x.id)

theorem Integrity.congr (hinv : Integrity db) (h : CoreEq db' db) : Integrity db' where
  account t ht hd := by
    rw [h.rows rfl] at ht
    exact (hasActive_congr (h.rows rfl)).mpr (hinv.account t ht hd)
  category t ht hd := by
    rw [h.rows rfl] at ht
    exact (hasActive_congr (h.rows rfl)).mpr (hinv.category t ht hd)
  reconciliation t ht hd rid hr := by
    rw [h.rows rfl] at ht
    exact (hasActive_congr (h.rows rfl)).mpr (hinv.reconciliation t ht hd rid hr)
  draftCategory d hd hdel c hc := by
    rw [h.rows rfl] at hd
    exact (hasActive_congr (h.rows rfl)).mpr (hinv.draftCategory d hd hdel c hc)

theorem Integrity.step (hinv : Integrity db) (c : Call) : Integrity (step db c) := by
  rcases step_effect db c with hsame | ⟨db₁, heffect, hcore⟩
  · exact hinv.congr hsame
  · exact (hinv.effect heffect).congr hcore

theorem Fresh.integrity (h : Fresh db) : Integrity db where
  account := by simp [h.transactions]
  category := by simp [h.transactions]
  reconciliation := by simp [h.transactions]
  draftCategory := by simp [h.transactionInbox]

theorem Integrity.run (hinv : Integrity db) (calls : List Call) : Integrity (run db calls) :=
  run_invariant (fun _ c hdb _ => hdb.step c) hinv (along_true db calls)

/-! ## Reached states -/

/-- The active transactions assigned to a reconciliation. -/
def activeMembers (db : Db) (reconciliationId : Uuid) : List (Row .transactions) :=
  (db.rows .transactions).filter fun t =>
    decide (t.reconciliationId = some reconciliationId ∧ t.deletedAt = none)

theorem mem_activeMembers {rid : Uuid} {t : Row .transactions} :
    t ∈ activeMembers db rid ↔
      t ∈ db.rows .transactions ∧ t.reconciliationId = some rid ∧ t.deletedAt = none := by
  rw [activeMembers, List.mem_filter, decide_eq_true_eq]

theorem activeMembers_congr (h : CoreEq db' db) (rid : Uuid) :
    activeMembers db' rid = activeMembers db rid := by
  rw [activeMembers, h.rows rfl]
  rfl

theorem Integrity.activeMembers_of_deleted (hinv : Integrity db) {rec : Row .reconciliations}
    (hrec : rec ∈ db.rows .reconciliations) (hd : rec.deletedAt ≠ none) :
    activeMembers db rec.id = [] := by
  rw [List.eq_nil_iff_forall_not_mem]
  intro t ht
  obtain ⟨ht, hr, hdel⟩ := mem_activeMembers.mp ht
  obtain ⟨r, hrmem, hid, -, hlive⟩ := hinv.reconciliation t ht hdel rec.id hr
  obtain rfl : r = rec := EvolutionLemmas.eq_of_id hrmem hrec hid
  exact hd hlive

/-- A restore of a reconciliation leaves the ledger as it was. -/
theorem activeMembers_restore {c : Call} {rid : Uuid}
    (h : c.request = .restoreReconciliation rid) (r : Uuid) :
    activeMembers (step db c) r = activeMembers db r := by
  rcases step_effect db c with hsame | ⟨db₁, heffect, hcore⟩
  · exact activeMembers_congr hsame r
  · rw [activeMembers_congr hcore]
    rw [h] at heffect
    cases heffect with
    | idle | accountCreated | categoryCreated | hashtagCreated | accountEdited | categoryEdited
    | hashtagEdited | reconciliationRestored =>
      simp [activeMembers]

/-- In every state reached by calls one after another, active transactions and
drafts refer to active rows of their own user, a deleted reconciliation has no
active member, and a restored one comes back empty. -/
theorem reachable_integrity {db₀ : Db} (hfresh : Fresh db₀) (calls : List Call) :
    Integrity (run db₀ calls) ∧
      ∀ rec ∈ (run db₀ calls).rows .reconciliations, rec.deletedAt ≠ none →
        activeMembers (run db₀ calls) rec.id = [] ∧
        ∀ c : Call, c.request = .restoreReconciliation rec.id →
          activeMembers (step (run db₀ calls) c) rec.id = [] := by
  have hinv := hfresh.integrity.run calls
  refine ⟨hinv, fun rec hrec hd => ?_⟩
  have hnil := hinv.activeMembers_of_deleted hrec hd
  exact ⟨hnil, fun c hc => (activeMembers_restore hc rec.id).trans hnil⟩

end Invariant

open Ascii in
/-- The lunch is on an active account of its user. -/
theorem reachable_integrity_setup : HasActive .bankAccounts (run blank setup) 10 1 :=
  (reachable_integrity fresh_blank setup).1.account
    (requestedRow (envAt 5) 1 ⟨30, "Lunch".toList, -500, 5, 10, 20, none, []⟩)
    (by decide +kernel) rfl

end ExpenseEngine
