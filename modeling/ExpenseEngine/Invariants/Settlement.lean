import ExpenseEngine.Invariants.Integrity

/-!
# Reconciliations over sequential runs

A completed reconciliation is a settled statement: until it is reverted, no call
changes what it settled. The lock is spread over the guards of several services;
the invariant `Settled` is what they have in common.

Results:
1. `completed_frozen`: a call other than a revert leaves a completed
   reconciliation, its members and its difference as they were.
2. `reconciliation_shares_account`: members are on the account of their
   reconciliation, in every run without a PUT that moves a member to another
   account; `moved_member_leaves_account` is such a PUT.
-/

namespace ExpenseEngine

open Sql Sql.Prog

section Settled

variable [Platform] {db db' : Db} {env : Env} {userId : Uuid} {request : Request}

/-! ## Settled reconciliations -/

/-- The columns of a member that completion settles. -/
def settledColumns (t : Row .transactions) :
    Uuid × Int × TransactionType × Uuid × Text × Timestamp :=
  (t.id, t.amountCents, t.transactionType, t.accountId, t.title, t.date)

/-- A completed reconciliation is not deleted and has an active member. -/
def Settled (db : Db) : Prop :=
  ∀ rec ∈ db.rows .reconciliations, rec.status = .completed →
    rec.deletedAt = none ∧ activeMembers db rec.id ≠ []

/-- `rec` is settled in `db'` as it was in `db`. -/
structure Frozen (db db' : Db) (rec : Row .reconciliations) : Prop where
  reconciliation : ∃ rec' ∈ db'.rows .reconciliations, rec'.id = rec.id ∧
    rec'.status = .completed ∧ rec'.deletedAt = none ∧ rec'.accountId = rec.accountId ∧
    rec'.dateStart = rec.dateStart ∧ rec'.dateEnd = rec.dateEnd ∧
    rec'.beginningBalanceCents = rec.beginningBalanceCents ∧
    rec'.endingBalanceCents = rec.endingBalanceCents ∧
    differenceCents db' rec' = differenceCents db rec
  members : (activeMembers db' rec.id).map settledColumns =
    (activeMembers db rec.id).map settledColumns
  nonempty : activeMembers db' rec.id ≠ []

namespace SettlementLemmas

omit [Platform] in
/-- Members that stay members, with the columns `c` they had. -/
theorem map_filter_map {α β : Type} {l : List α} {g : α → α} {p : α → Bool} {c : α → β}
    (h : ∀ x ∈ l, p (g x) = p x ∧ (p x = true → c (g x) = c x)) :
    ((l.map g).filter p).map c = (l.filter p).map c := by
  induction l with
  | nil => rfl
  | cons x l ih =>
    obtain ⟨hp, hc⟩ := h x List.mem_cons_self
    have ih := ih fun y hy => h y (List.mem_cons_of_mem _ hy)
    rw [List.map_cons, List.filter_cons, List.filter_cons, hp]
    split
    · next hx => rw [List.map_cons, List.map_cons, ih, hc hx]
    · exact ih

/-- The user of a reconciliation owns its active members. -/
theorem Integrity.memberUser (hinv : Integrity db) {rec : Row .reconciliations}
    (hrec : rec ∈ db.rows .reconciliations) {t : Row .transactions}
    (ht : t ∈ db.rows .transactions) (hd : t.deletedAt = none)
    (hr : t.reconciliationId = some rec.id) : rec.userId = t.userId := by
  obtain ⟨r, hrmem, hid, hu, -⟩ := hinv.reconciliation t ht hd rec.id hr
  obtain rfl : r = rec := EvolutionLemmas.eq_of_id hrmem hrec hid
  exact hu

theorem Integrity.membersOf_eq (hinv : Integrity db) {rec : Row .reconciliations}
    (hrec : rec ∈ db.rows .reconciliations) : membersOf db rec = activeMembers db rec.id := by
  apply List.filter_congr
  intro t ht
  rw [isMember, decide_eq_decide]
  constructor
  · rintro ⟨hr, -, hd⟩
    exact ⟨hr, hd⟩
  · rintro ⟨hr, hd⟩
    exact ⟨hr, (Integrity.memberUser hinv hrec ht hd hr).symm, hd⟩

omit [Platform] in
theorem sumSigned_eq (rows : List (Row .transactions)) :
    sumSigned rows =
      ((rows.map settledColumns).map fun c => signedCents c.2.2.1 c.2.1).sum := by
  rw [sumSigned, List.map_map]
  rfl

/-- What a call other than a revert makes of a completed reconciliation. -/
theorem completed_fate (hsettled : Settled db) (h : Effect env userId db request db')
    {rec : Row .reconciliations} (hrec : rec ∈ db.rows .reconciliations)
    (hstatus : rec.status = .completed) (hreq : request ≠ .revertReconciliation rec.id) :
    ∃ rec' ∈ db'.rows .reconciliations, rec'.id = rec.id ∧ rec'.userId = rec.userId ∧
      rec'.status = .completed ∧ rec'.deletedAt = none ∧ rec'.accountId = rec.accountId ∧
      rec'.dateStart = rec.dateStart ∧ rec'.dateEnd = rec.dateEnd ∧
      rec'.beginningBalanceCents = rec.beginningBalanceCents ∧
      rec'.endingBalanceCents = rec.endingBalanceCents := by
  obtain ⟨rec', hrec', hstep⟩ := (reconciliations_evolve h).fate hrec
  have hd := (hsettled rec hrec hstatus).1
  cases hstep with
  | kept => exact ⟨rec, hrec', rfl, rfl, hstatus, hd, rfl, rfl, rfl, rfl, rfl⟩
  | @edited body _ _ _ hfrozen =>
    have hnone := hfrozen hstatus
    simp only [attemptedFrozen, List.append_eq_nil_iff, ite_eq_right_iff, List.cons_ne_self,
      imp_false, Bool.not_eq_true, Option.isSome_eq_false_iff, Option.isNone_iff_eq_none] at hnone
    obtain ⟨⟨⟨hbegin, hend⟩, hstart⟩, hstop⟩ := hnone
    refine ⟨_, hrec', rfl, rfl, hstatus, hd, rfl, ?_, ?_, ?_, ?_⟩
    · show body.fields.dateStart.getD rec.dateStart = _
      rw [hstart, Option.getD_none]
    · show body.fields.dateEnd.getD rec.dateEnd = _
      rw [hstop, Option.getD_none]
    · show body.fields.beginningBalanceCents.getD rec.beginningBalanceCents = _
      rw [hbegin, Option.getD_none]
    · show body.fields.endingBalanceCents.getD rec.endingBalanceCents = _
      rw [hend, Option.getD_none]
  | completed => exact ⟨_, hrec', rfl, rfl, rfl, hd, rfl, rfl, rfl, rfl, rfl⟩
  | reverted hrevert => exact absurd hrevert hreq
  | deleted _ _ _ hdraft => exact absurd (hstatus.symm.trans hdraft) (by simp)
  | restored _ _ hdel => exact absurd hd hdel

/-- No call but a revert moves a row into or out of a completed reconciliation,
or changes what it settled of a member. -/
theorem member_fate (hinv : Integrity db) {rec : Row .reconciliations}
    (hrec : rec ∈ db.rows .reconciliations) (hstatus : rec.status = .completed)
    {t t' : Row .transactions} (ht : t ∈ db.rows .transactions)
    (hstep : TransactionStep env userId request db t t') :
    ((t'.reconciliationId = some rec.id ∧ t'.deletedAt = none) ↔
        (t.reconciliationId = some rec.id ∧ t.deletedAt = none)) ∧
      ((t.reconciliationId = some rec.id ∧ t.deletedAt = none) →
        settledColumns t' = settledColumns t) := by
  have hnotDraft : ∀ r ∈ db.rows .reconciliations, r.id = rec.id → r.status ≠ .draft := by
    intro r hr hid hdraft
    obtain rfl : r = rec := EvolutionLemmas.eq_of_id hr hrec hid
    exact absurd (hstatus.symm.trans hdraft) (by simp)
  cases hstep with
  | kept hb => rcases hb with rfl | ⟨now, rfl⟩ <;> exact ⟨Iff.rfl, fun _ => rfl⟩
  | @updated body hreq hupd =>
    show
    ((body.reconciliationId.getD t.reconciliationId = some rec.id ∧ t.deletedAt = none) ↔ _) ∧ _
    by_cases hm : t.reconciliationId = some rec.id
    · have hu := Integrity.memberUser hinv hrec ht hupd.owned.2.2 hm
      have hnone := hupd.unlocked rec hrec hm (hu.trans hupd.owned.2.1) hstatus
      simp only [attemptedLocked, List.append_eq_nil_iff, ite_eq_right_iff, List.cons_ne_self,
        imp_false, Bool.not_eq_true, Option.isSome_eq_false_iff,
        Option.isNone_iff_eq_none] at hnone
      obtain ⟨⟨⟨⟨hamount, haccount⟩, htitle⟩, hdate⟩, hrecon⟩ := hnone
      rw [hrecon, Option.getD_none]
      refine ⟨Iff.rfl, fun _ => ?_⟩
      show (t.id, (body.fields.amountCents.map absCents).getD t.amountCents,
        (body.fields.amountCents.map inferTransactionType).getD t.transactionType,
        body.fields.accountId.getD t.accountId, (body.fields.title.map strip).getD t.title,
        body.fields.date.getD t.date) = _
      rw [hamount, haccount, htitle, hdate]
      rfl
    · refine ⟨⟨fun ⟨hr, _⟩ => ?_, fun ⟨hr, _⟩ => absurd hr hm⟩, fun ⟨hr, _⟩ => absurd hr hm⟩
      cases hsent : body.reconciliationId with
      | none =>
        rw [hsent, Option.getD_none] at hr
        exact absurd hr hm
      | some sent =>
        rw [hsent, Option.getD_some] at hr
        obtain ⟨r, hrmem, hid, -, -, hdraft, -⟩ := hupd.assignment rec.id (hr ▸ hsent)
        exact absurd hdraft (hnotDraft r hrmem hid)
  | deleted _ hu hd hdraft =>
    have hm : ¬t.reconciliationId = some rec.id := fun hr =>
      hnotDraft rec hrec rfl (hdraft rec hrec hr
        ((Integrity.memberUser hinv hrec ht hd hr).trans hu))
    refine ⟨⟨fun hr => ?_, fun hr => absurd hr.1 hm⟩, fun hr => absurd hr.1 hm⟩
    exact absurd hr.1 hm
  | @restored unlink _ hres =>
    have hd := hres.owned.2.2
    refine ⟨⟨fun ⟨hr, _⟩ => ?_, fun hr => absurd hr.2 hd⟩, fun hr => absurd hr.2 hd⟩
    have hr : (if unlink then none else t.reconciliationId) = some rec.id := hr
    split at hr
    · cases hr
    · next hkeep =>
      obtain ⟨r, hrmem, hid, -, -, hdraft⟩ :=
        hres.keeps.mp (Bool.eq_false_iff.mpr hkeep) rec.id hr
      exact absurd hdraft (hnotDraft r hrmem hid)
  | @unassigned rid _ hm hdraft =>
    have hne : ¬t.reconciliationId = some rec.id := by
      intro hr
      obtain ⟨hrid, -, -⟩ := of_decide_eq_true hm
      have hid : rec.id = rid := Option.some.inj (hr.symm.trans hrid)
      exact hnotDraft rec hrec rfl (hdraft rec hrec hid)
    exact ⟨⟨fun hr => absurd hr.1 (by simp [bumped, setUnassigned, OwnedTable.mapResource]),
      fun hr => absurd hr.1 hne⟩, fun hr => absurd hr.1 hne⟩

theorem members_fate (hinv : Integrity db) (h : Effect env userId db request db')
    {rec : Row .reconciliations} (hrec : rec ∈ db.rows .reconciliations)
    (hstatus : rec.status = .completed) :
    (activeMembers db' rec.id).map settledColumns =
      (activeMembers db rec.id).map settledColumns := by
  obtain ⟨g, added, hrows, hstep, hnew⟩ := transactions_evolve h
  have hadded : added.filter (fun t => decide (t.reconciliationId = some rec.id ∧
      t.deletedAt = none)) = [] := by
    rw [List.filter_eq_nil_iff]
    intro t ht
    simp [(hnew t ht).unassigned]
  rw [activeMembers, hrows, List.filter_append, hadded, List.append_nil]
  refine map_filter_map fun t ht => ?_
  obtain ⟨hiff, hcols⟩ := member_fate hinv hrec hstatus ht (hstep t ht)
  exact ⟨decide_eq_decide.mpr hiff, fun hm => hcols (of_decide_eq_true hm)⟩

end SettlementLemmas

open SettlementLemmas IntegrityLemmas

/-- A call with an effect keeps a completed reconciliation frozen, unless it
reverts it. -/
theorem Frozen.of_effect (hinv : Integrity db) (hsettled : Settled db)
    (h : Effect env userId db request db') {rec : Row .reconciliations}
    (hrec : rec ∈ db.rows .reconciliations) (hstatus : rec.status = .completed)
    (hreq : request ≠ .revertReconciliation rec.id) : Frozen db db' rec := by
  have hmembers := members_fate hinv h hrec hstatus
  obtain ⟨rec', hrec', hid, hu, hstat, hd, hacc, hstart, hstop, hbegin, hend⟩ :=
    completed_fate hsettled h hrec hstatus hreq
  refine ⟨⟨rec', hrec', hid, hstat, hd, hacc, hstart, hstop, hbegin, hend, ?_⟩, hmembers, ?_⟩
  · rw [differenceCents, differenceCents, hbegin, hend,
      Integrity.membersOf_eq (hinv.effect h) hrec', Integrity.membersOf_eq hinv hrec, hid,
      sumSigned_eq, sumSigned_eq, hmembers]
  · intro hnil
    rw [hnil, List.map_nil, eq_comm, List.map_eq_nil_iff] at hmembers
    exact (hsettled rec hrec hstatus).2 hmembers

theorem Settled.effect (hinv : Integrity db) (hsettled : Settled db)
    (h : Effect env userId db request db') : Settled db' := by
  have hkeeps : ∀ rec ∈ db.rows .reconciliations, rec.status = .completed →
      activeMembers db' rec.id ≠ [] := by
    intro rec hrec hstatus hnil
    have hmembers := members_fate hinv h hrec hstatus
    rw [hnil, List.map_nil, eq_comm, List.map_eq_nil_iff] at hmembers
    exact (hsettled rec hrec hstatus).2 hmembers
  intro rec' hrec' hstatus
  rcases (reconciliations_evolve h).origin hrec' with ⟨rec, hrec, hstep⟩ | hnew
  · cases hstep with
    | kept => exact ⟨(hsettled rec' hrec hstatus).1, hkeeps rec' hrec hstatus⟩
    | edited _ _ hd _ => exact ⟨hd, hkeeps rec hrec hstatus⟩
    | completed hreq _ hd hassigned =>
      obtain ⟨t, ht, hm⟩ := hassigned
      obtain ⟨hr, -, hdel⟩ := of_decide_eq_true hm
      obtain ⟨t', ht', hstep'⟩ := (transactions_evolve h).fate ht
      refine ⟨hd, List.ne_nil_of_mem (mem_activeMembers.mpr (?_ : t' ∈ _ ∧ _))⟩
      cases hstep' with
      | kept hb =>
        obtain ⟨-, -, hdel', -, -, hr'⟩ := bumpedTo_columns hb
        exact ⟨ht', hr'.trans hr, hdel'.trans hdel⟩
      | updated hreq' | deleted hreq' | restored hreq' | unassigned hreq' =>
        rw [hreq] at hreq'
        cases hreq'
    | reverted => cases hstatus
    | deleted _ _ _ hdraft => exact absurd (hstatus.symm.trans hdraft) (by simp)
    | restored _ _ hd => exact absurd (hsettled rec hrec hstatus).1 hd
  · exact absurd (hstatus.symm.trans hnew.draft) (by simp)

theorem Settled.congr (hsettled : Settled db) (h : CoreEq db' db) : Settled db' := by
  intro rec hrec hstatus
  rw [h.rows rfl] at hrec
  rw [activeMembers_congr h]
  exact hsettled rec hrec hstatus

theorem Frozen.congr {db₁ : Db} {rec : Row .reconciliations} (hfrozen : Frozen db db₁ rec)
    (h : CoreEq db' db₁) : Frozen db db' rec where
  reconciliation := by
    have hrows : db'.rows .reconciliations = db₁.rows .reconciliations := h.rows rfl
    have hdiff : ∀ r, differenceCents db' r = differenceCents db₁ r := by
      intro r
      rw [differenceCents, differenceCents, membersOf, membersOf, h.rows rfl]
    simpa only [hrows, hdiff] using hfrozen.reconciliation
  members := by
    rw [activeMembers_congr h]
    exact hfrozen.members
  nonempty := by
    rw [activeMembers_congr h]
    exact hfrozen.nonempty

theorem Frozen.refl (hsettled : Settled db) {rec : Row .reconciliations}
    (hrec : rec ∈ db.rows .reconciliations) (hstatus : rec.status = .completed) :
    Frozen db db rec where
  reconciliation :=
    ⟨rec, hrec, rfl, hstatus, (hsettled rec hrec hstatus).1, rfl, rfl, rfl, rfl, rfl, rfl⟩
  members := rfl
  nonempty := (hsettled rec hrec hstatus).2

theorem settled_step (hinv : Integrity db) (hsettled : Settled db) (c : Call) :
    Settled (step db c) := by
  rcases step_effect db c with hsame | ⟨db₁, heffect, hcore⟩
  · exact hsettled.congr hsame
  · exact (Settled.effect hinv hsettled heffect).congr hcore

theorem settled_run {db₀ : Db} (hfresh : Fresh db₀) (calls : List Call) :
    Integrity (run db₀ calls) ∧ Settled (run db₀ calls) := by
  have hstep : ∀ db c, Integrity db ∧ Settled db → True →
      Integrity (step db c) ∧ Settled (step db c) :=
    fun _ c hdb _ => ⟨hdb.1.step c, settled_step hdb.1 hdb.2 c⟩
  exact run_invariant hstep
    ⟨hfresh.integrity, fun rec hrec => by simp [hfresh.reconciliations] at hrec⟩
    (along_true db₀ calls)

/-- In every reached state, a call that does not revert a completed
reconciliation leaves it completed and undeleted, its set of active members
non-empty and the same, and its period, balances and difference unchanged. -/
theorem completed_frozen {db₀ : Db} (hfresh : Fresh db₀) (calls : List Call)
    {rec : Row .reconciliations} (hrec : rec ∈ (run db₀ calls).rows .reconciliations)
    (hstatus : rec.status = .completed) {c : Call}
    (hreq : c.request ≠ .revertReconciliation rec.id) :
    Frozen (run db₀ calls) (step (run db₀ calls) c) rec := by
  obtain ⟨hinv, hsettled⟩ := settled_run hfresh calls
  rcases step_effect (run db₀ calls) c with hsame | ⟨db₁, heffect, hcore⟩
  · exact (Frozen.refl hsettled hrec hstatus).congr hsame
  · exact (Frozen.of_effect hinv hsettled heffect hrec hstatus hreq).congr hcore

end Settled

/-- The reconciliation of the concrete calls, once it is completed. -/
def Ascii.settledRow : Row .reconciliations :=
  ({ id := 40, userId := 1, createdAt := 6, updatedAt := 8, version := 2, deletedAt := none
     accountId := 10, name := "May".toList, dateStart := none, dateEnd := none
     status := .completed, beginningBalanceCents := 0, endingBalanceCents := -500 } :
    ReconciliationRow)

open Ascii in
/-- A delete of its only member leaves the completed reconciliation frozen. -/
theorem completed_frozen_delete :
    Frozen (run blank (setup ++ assign ++ [callAt 8 (.completeReconciliation 40)]))
      (step (run blank (setup ++ assign ++ [callAt 8 (.completeReconciliation 40)]))
        (callAt 9 (.deleteTransaction 30))) settledRow :=
  completed_frozen fresh_blank _ (by decide +kernel) rfl (by simp [callAt])

/-! ## One account -/

section Account

open SettlementLemmas IntegrityLemmas

variable [Platform] {db db' : Db} {env : Env} {userId : Uuid} {request : Request}

/-- Every active member of a reconciliation is on the reconciliation's account. -/
def SharesAccount (db : Db) : Prop :=
  ∀ rec ∈ db.rows .reconciliations, ∀ t ∈ activeMembers db rec.id, t.accountId = rec.accountId

/-- Every row that names a reconciliation, deleted ones too, names one of its
own account. -/
def LinksAccount (db : Db) : Prop :=
  ∀ t ∈ db.rows .transactions, ∀ rid, t.reconciliationId = some rid →
    ∃ rec ∈ db.rows .reconciliations, rec.id = rid ∧ rec.accountId = t.accountId

/-- A PUT that comes to its work, passes every check of an update and sends an
account, but no reconciliation, names the account of the row's reconciliation. -/
def MoveMatches (db : Db) (c : Call) : Prop :=
  c.Enters db → ∀ body t a, c.request = .updateTransaction t.id body →
    Updatable c.env c.userId t.id body.fields body.hashtagIds.join body.reconciliationId t db →
    body.fields.accountId = some a → body.reconciliationId = none →
    ∀ rec ∈ db.rows .reconciliations, t.reconciliationId = some rec.id → rec.accountId = a

theorem LinksAccount.sharesAccount (h : LinksAccount db) : SharesAccount db := by
  intro rec hrec t ht
  obtain ⟨ht, hr, -⟩ := mem_activeMembers.mp ht
  obtain ⟨r, hrmem, hid, hacc⟩ := h t ht rec.id hr
  obtain rfl : r = rec := EvolutionLemmas.eq_of_id hrmem hrec hid
  exact hacc.symm

theorem LinksAccount.congr (hlinks : LinksAccount db) (h : CoreEq db' db) : LinksAccount db' := by
  intro t ht
  rw [h.rows rfl] at ht
  simpa only [h.rows (t := .reconciliations) rfl] using hlinks t ht

/-- No request moves a reconciliation to another account. -/
theorem reconciliation_account (h : Effect env userId db request db')
    {rec : Row .reconciliations} (hrec : rec ∈ db.rows .reconciliations) :
    ∃ rec' ∈ db'.rows .reconciliations, rec'.id = rec.id ∧ rec'.accountId = rec.accountId := by
  obtain ⟨rec', hrec', hstep⟩ := (reconciliations_evolve h).fate hrec
  refine ⟨rec', hrec', ?_⟩
  cases hstep <;> exact ⟨rfl, rfl⟩

theorem LinksAccount.effect {c : Call} (hlinks : LinksAccount db) (henters : c.Enters db)
    (hmove : MoveMatches db c) (h : Effect c.env c.userId db c.request db') :
    LinksAccount db' := by
  -- A link of the earlier state, or one to a reconciliation of the account.
  have hkeep : ∀ rid a, (∃ rec ∈ db.rows .reconciliations, rec.id = rid ∧ rec.accountId = a) →
      ∃ rec ∈ db'.rows .reconciliations, rec.id = rid ∧ rec.accountId = a := by
    rintro _ _ ⟨rec, hrec, rfl, rfl⟩
    exact reconciliation_account h hrec
  intro t' ht' rid hr
  refine hkeep rid t'.accountId ?_
  rcases (transactions_evolve h).origin ht' with ⟨t, ht, hstep⟩ | hnew
  · cases hstep with
    | kept hb =>
      obtain ⟨-, -, -, hacc, -, hr'⟩ := bumpedTo_columns hb
      rw [hacc]
      exact hlinks t ht rid (hr' ▸ hr)
    | @updated body hreq hupd =>
      have hr : body.reconciliationId.getD t.reconciliationId = some rid := hr
      show ∃ rec ∈ db.rows .reconciliations, rec.id = rid ∧
        rec.accountId = body.fields.accountId.getD t.accountId
      cases hsent : body.reconciliationId with
      | none =>
        rw [hsent, Option.getD_none] at hr
        obtain ⟨rec, hrec, hid, hacc⟩ := hlinks t ht rid hr
        refine ⟨rec, hrec, hid, ?_⟩
        cases ha : body.fields.accountId with
        | none => exact hacc
        | some a =>
          exact hmove henters body t a hreq (hsent ▸ hupd) ha hsent rec hrec (hid ▸ hr)
      | some sent =>
        rw [hsent, Option.getD_some] at hr
        obtain ⟨rec, hrec, hid, -, -, -, hacc⟩ := hupd.assignment rid (hr ▸ hsent)
        exact ⟨rec, hrec, hid, hacc⟩
    | deleted => exact hlinks t ht rid hr
    | @restored unlink _ hres =>
      have hr : (if unlink then none else t.reconciliationId) = some rid := hr
      split at hr
      · cases hr
      · exact hlinks t ht rid hr
    | unassigned => cases hr
  · rw [hnew.unassigned] at hr
    cases hr

theorem LinksAccount.step {c : Call} (hlinks : LinksAccount db) (hmove : MoveMatches db c) :
    LinksAccount (step db c) := by
  by_cases henters : c.Enters db
  · rcases step_effect db c with hsame | ⟨db₁, heffect, hcore⟩
    · exact hlinks.congr hsame
    · exact (hlinks.effect henters hmove heffect).congr hcore
  · -- a call that is refused or answered before its work moves nothing
    rwa [step_of_not_enters henters]

/-- In every run without a PUT that moves an assigned transaction to another
account behind the back of its reconciliation, members are on the account of
their reconciliation. -/
theorem reconciliation_shares_account {db₀ : Db} (hfresh : Fresh db₀) {calls : List Call}
    (hmoves : Along MoveMatches db₀ calls) : SharesAccount (run db₀ calls) := by
  have hlinks : LinksAccount db₀ := fun t ht => by simp [hfresh.transactions] at ht
  exact (run_invariant (fun _ _ => LinksAccount.step) hlinks hmoves).sharesAccount

end Account

namespace Ascii

/-- `PUT /transactions/30` with an account only. -/
def lunchTo (now : Timestamp) (accountId : Uuid) : Call :=
  callAt now (.updateTransaction 30
    ⟨none, none, none, some (some accountId), none, none, none, none⟩)

/-- `PUT /transactions/30` with a reconciliation only. -/
def lunchIn (now : Timestamp) (reconciliationId : Option Uuid) : Call :=
  callAt now (.updateTransaction 30
    ⟨none, none, none, none, none, none, none, some reconciliationId⟩)

/-- The assigned lunch is sent its own account, is then unassigned, moved to
account 11, and assigned to a reconciliation of that account. -/
def moves : List Call := [
  lunchTo 8 10,
  lunchIn 9 none,
  lunchTo 10 11,
  callAt 11 (.createReconciliation ⟨41, 11, "June".toList, none, none, 0, some 0⟩),
  lunchIn 12 (some 41)]

/-- A call that sends no account meets the condition. -/
theorem moveMatches_of_ne {db : Db} {c : Call} (h : ∀ id body,
    c.request = .updateTransaction id body → body.fields.accountId = none) : MoveMatches db c := by
  intro _ body t a hreq _ ha
  rw [h t.id body hreq] at ha
  cases ha

theorem moveMatches_lunchTo {db : Db} {now : Timestamp} {a : Uuid}
    (h : ∀ t ∈ db.rows .transactions, t.id = 30 → ∀ rec ∈ db.rows .reconciliations,
      t.reconciliationId = some rec.id → rec.accountId = a) : MoveMatches db (lunchTo now a) := by
  intro _ body t b hreq hupd hb _
  obtain ⟨hid, rfl⟩ := Request.updateTransaction.inj hreq
  obtain rfl : a = b := Option.some.inj hb
  exact h t hupd.found hid.symm

end Ascii

open Ascii in
/-- Each of the two PUTs that send an account is permitted: the first names the
account of the reconciliation, the second finds the lunch unassigned. -/
theorem reconciliation_shares_account_assign :
    SharesAccount (run blank (setup ++ assign ++ moves)) :=
  reconciliation_shares_account fresh_blank (by
    refine ⟨?_, ?_, ?_, ?_, ?_, ?_, ?_, ?_, ?_, ?_, ?_, ?_, trivial⟩
    iterate 6 exact moveMatches_of_ne fun _ _ h => by cases h
    · exact moveMatches_of_ne fun _ _ h => by cases h; rfl
    · exact moveMatches_lunchTo (by decide +kernel)
    · exact moveMatches_of_ne fun _ _ h => by cases h; rfl
    · exact moveMatches_lunchTo (by decide +kernel)
    · exact moveMatches_of_ne fun _ _ h => by cases h
    · exact moveMatches_of_ne fun _ _ h => by cases h; rfl)

open Ascii in
/-- A PUT of the account alone moves a member of a draft reconciliation to
another account. -/
theorem moved_member_leaves_account : ¬SharesAccount (run blank (setup ++ assign ++
    [callAt 8 (.updateTransaction 30
      ⟨none, none, none, some (some 11), none, none, none, none⟩)])) := by
  unfold SharesAccount
  decide +kernel

end ExpenseEngine
