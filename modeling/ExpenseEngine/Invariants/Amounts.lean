import ExpenseEngine.Invariants.Integrity

/-!
# Signed amounts over sequential runs

A client sends one signed amount; the tables keep its absolute value and its
direction, and balances and responses put the sign back. The last amounts sent
are followed beside the run, and every row stands for its own.

Results:
1. `LedgerAmounts.effect`, `DraftAmounts.effect`: every request keeps the
   correspondence.
2. `balances_report_sent_amounts`: balances and signed responses are those of
   the amounts sent.
-/

namespace ExpenseEngine

open Sql Sql.Prog

/-! ## The amounts sent -/

/-- The last signed amount sent for each ledger row and for each draft. -/
structure SentAmounts where
  ledger : Uuid → Option Int
  draft : Uuid → Option Int

namespace SentAmounts

variable {sent : SentAmounts}

def empty : SentAmounts := ⟨fun _ => none, fun _ => none⟩

def note (sent : SentAmounts) (p : Uuid × Int) : SentAmounts :=
  { sent with ledger := Function.update sent.ledger p.1 (some p.2) }

/-- What is known after an accepted request. A promotion hands the amount of the
draft over to the new transaction. -/
def after (sent : SentAmounts) : Request → SentAmounts
  | .createInboxItem body =>
    { sent with draft := Function.update sent.draft body.id body.amountCents }
  | .updateInboxItem id body =>
    { sent with
      draft := Function.update sent.draft id (body.amountCents.join.or (sent.draft id)) }
  | .promoteInboxItem id targetId =>
    { sent with ledger := Function.update sent.ledger targetId (sent.draft id) }
  | request => request.ledgerAmounts.foldl note sent

theorem draft_foldl_note (ps : List (Uuid × Int)) : (ps.foldl note sent).draft = sent.draft := by
  induction ps generalizing sent with
  | nil => rfl
  | cons p ps ih => exact ih

theorem after_of_none {request : Request} (h : request.ledgerAmounts = [])
    (hpromote : ∀ id targetId, request ≠ .promoteInboxItem id targetId) :
    (sent.after request).ledger = sent.ledger := by
  cases request with
  | promoteInboxItem id targetId => exact absurd rfl (hpromote id targetId)
  | createTransaction | batchCreateTransactions | createOpeningBalance | updateTransaction =>
    simp only [after, h, List.foldl_nil]
  | _ => rfl

/-- Only requests on drafts send an amount for a draft. -/
theorem after_draft {request : Request} (hcreate : ∀ body, request ≠ .createInboxItem body)
    (hupdate : ∀ id body, request = .updateInboxItem id body → body.amountCents.join = none) :
    (sent.after request).draft = sent.draft := by
  cases request with
  | createInboxItem body => exact absurd rfl (hcreate body)
  | updateInboxItem id body =>
    simp only [after, hupdate id body rfl, Option.none_or, Function.update_eq_self]
  | promoteInboxItem => rfl
  | _ => exact draft_foldl_note _

end SentAmounts

section Amounts

variable [Platform] {db db' : Db} {env : Env} {userId : Uuid} {request : Request}
  {sent : SentAmounts}

/-- The amounts sent by the accepted calls of a run. -/
def sentStep (db : Db) (sent : SentAmounts) (c : Call) : SentAmounts :=
  match exec c.handle db with
  | .ok (.fresh _, _) => sent.after c.request
  | _ => sent

def sentAlong : Db → SentAmounts → List Call → SentAmounts
  | _, sent, [] => sent
  | db, sent, c :: calls => sentAlong (step db c) (sentStep db sent c) calls

/-- The amount and the direction stand for the signed amount `n`. -/
def StandsFor (n amountCents : Int) (transactionType : TransactionType) : Prop :=
  n ≠ 0 ∧ amountCents = absCents n ∧ transactionType = inferTransactionType n

/-- Every ledger row stands for the last amount sent for it. -/
def LedgerAmounts (sent : SentAmounts) (db : Db) : Prop :=
  ∀ t ∈ db.rows .transactions, ∃ n, sent.ledger t.id = some n ∧
    StandsFor n t.amountCents t.transactionType

/-- Every draft stands for the last amount sent for it, if any was. -/
def DraftAmounts (sent : SentAmounts) (db : Db) : Prop :=
  ∀ d ∈ db.rows .transactionInbox, sent.draft d.id ≠ some 0 ∧
    d.amountCents = (sent.draft d.id).map absCents ∧
    d.transactionType = (sent.draft d.id).map inferTransactionType

namespace AmountLemmas

/-! ## The sign -/

omit [Platform] in
theorem signedCents_infer (n : Int) : signedCents (inferTransactionType n) (absCents n) = n := by
  unfold inferTransactionType absCents
  split <;> simp only [signedCents] <;> omega

omit [Platform] in
theorem StandsFor.signed {n amountCents : Int} {ty : TransactionType}
    (h : StandsFor n amountCents ty) : signedCents ty amountCents = n := by
  rw [h.2.1, h.2.2, signedCents_infer]

omit [Platform] in
theorem standsFor_self {n : Int} (h : n ≠ 0) : StandsFor n (absCents n) (inferTransactionType n) :=
  ⟨h, rfl, rfl⟩

/-- The amount of an updated row, and its direction with it. -/
theorem updated_amounts {fields : TransactionFields} {reconId : Sent Uuid} {now : Timestamp}
    {t : Row .transactions} :
    ((bumped .transactions now (setTransaction fields reconId)).apply t).id = t.id ∧
      ((bumped .transactions now (setTransaction fields reconId)).apply t).amountCents =
        (fields.amountCents.map absCents).getD t.amountCents ∧
      ((bumped .transactions now (setTransaction fields reconId)).apply t).transactionType =
        (fields.amountCents.map inferTransactionType).getD t.transactionType :=
  ⟨rfl, rfl, rfl⟩

theorem draftUpdated_amounts {fields : InboxFields} {now : Timestamp} {d : Row .transactionInbox} :
    ((bumped .transactionInbox now (setInbox fields)).apply d).id = d.id ∧
      ((bumped .transactionInbox now (setInbox fields)).apply d).amountCents =
        (if fields.amountCents.isSome then fields.amountCents.map absCents else d.amountCents) ∧
      ((bumped .transactionInbox now (setInbox fields)).apply d).transactionType =
        (if fields.amountCents.isSome then fields.amountCents.map inferTransactionType
        else d.transactionType) :=
  ⟨rfl, rfl, rfl⟩

end AmountLemmas

open AmountLemmas

/-! ## The ledger -/

/-- Rows that keep their amounts. -/
theorem LedgerAmounts.kept (hA : LedgerAmounts sent db) (h : Effect env userId db request db')
    (hnone : request.ledgerAmounts = [])
    (hpromote : ∀ id targetId, request ≠ .promoteInboxItem id targetId) :
    LedgerAmounts (sent.after request) db' := by
  intro t' ht'
  rw [SentAmounts.after_of_none hnone hpromote]
  rcases (transactions_evolve h).origin ht' with ⟨t, ht, hstep⟩ | hnew
  · cases hstep with
    | kept hb =>
      rcases hb with rfl | ⟨now, rfl⟩
      · exact hA t' ht
      · exact hA t ht
    | @updated body hreq =>
      subst hreq
      have hsent : body.amountCents.join = none := by simpa [Request.ledgerAmounts] using hnone
      have hsent : body.fields.normalized.amountCents = none := hsent
      obtain ⟨n, hn, hstands⟩ := hA t ht
      refine ⟨n, hn, ?_⟩
      rw [updated_amounts.2.1, updated_amounts.2.2, hsent]
      exact hstands
    | deleted | restored | unassigned => exact hA t ht
  · rcases hnew.amount with ⟨n, hn, -⟩ | ⟨id, draft, hreq, -⟩
    · rw [hnone] at hn
      cases hn
    · exact absurd hreq (hpromote id t'.id)

/-- A new row that stands for the amount noted for it. -/
theorem LedgerAmounts.append {r : Row .transactions} {n : Int} (hA : LedgerAmounts sent db)
    (hrows : db'.rows .transactions = db.rows .transactions ++ [r])
    (hfresh : ∀ t ∈ db.rows .transactions, t.id ≠ r.id)
    (hr : StandsFor n r.amountCents r.transactionType) :
    LedgerAmounts (sent.note (r.id, n)) db' := by
  intro t ht
  rw [hrows, List.mem_append, List.mem_singleton] at ht
  rcases ht with ht | rfl
  · obtain ⟨m, hm, hstands⟩ := hA t ht
    exact ⟨m, (Function.update_of_ne (hfresh t ht) _ _).trans hm, hstands⟩
  · exact ⟨n, Function.update_self _ _ _, hr⟩

theorem LedgerAmounts.created {body : TransactionCreateRequest} (hA : LedgerAmounts sent db)
    (h : Creatable env userId body db) :
    LedgerAmounts (sent.note (body.id, body.amountCents)) (db.created env userId body) :=
  hA.append (EvolutionLemmas.rows_created h) (EvolutionLemmas.fresh_of_inserts h.inserts)
    (standsFor_self h.amount)

theorem LedgerAmounts.createdAll {items : List TransactionCreateRequest}
    (hA : LedgerAmounts sent db) (h : CreatedAll env userId items db db') :
    LedgerAmounts ((items.map fun item => (item.id, item.amountCents)).foldl
      SentAmounts.note sent) db' := by
  induction h generalizing sent with
  | nil => exact hA
  | cons hc _ ih => exact ih (hA.created hc)

theorem LedgerAmounts.congr (hA : LedgerAmounts sent db)
    (hrows : db'.rows .transactions = db.rows .transactions) : LedgerAmounts sent db' := by
  intro t ht
  rw [hrows] at ht
  exact hA t ht

theorem LedgerAmounts.updated {id : Uuid} {body : TransactionUpdateRequest}
    {row : Row .transactions} {n : Int} (hA : LedgerAmounts sent db)
    (h : Updatable env userId id body.fields body.hashtagIds.join body.reconciliationId row
        db)
    (hn : body.fields.amountCents = some n) :
    LedgerAmounts (sent.note (id, n))
      (db.updated env userId id body.fields body.hashtagIds.join body.reconciliationId) := by
  intro t' ht'
  rw [Db.updated, Sql.Db.rows, retagged_ne (by simp), ← Sql.Db.rows, Db.rows_modify_same] at ht'
  obtain ⟨t, ht, rfl⟩ := List.mem_map.mp ht'
  split
  · next hw =>
    refine ⟨n, ?_, ?_⟩
    · have hid : t.id = id := (owns_active.mp hw).1
      rw [updated_amounts.1, hid]
      exact Function.update_self _ _ _
    · have hfields : body.fields.normalized.amountCents = some n := hn
      rw [updated_amounts.2.1, updated_amounts.2.2, hfields]
      exact standsFor_self fun hzero => h.amount (hzero ▸ hn)
  · next hw =>
    obtain ⟨m, hm, hstands⟩ := hA t ht
    refine ⟨m, (Function.update_of_ne ?_ _ _).trans hm, hstands⟩
    intro hid
    obtain rfl : t = row := EvolutionLemmas.eq_of_id ht h.found (hid.trans h.owned.1.symm)
    exact hw (owns_active.mpr h.owned)

theorem LedgerAmounts.effect (hA : LedgerAmounts sent db) (hD : DraftAmounts sent db)
    (h : Effect env userId db request db') : LedgerAmounts (sent.after request) db' := by
  have heffect := h
  have hplain : request.isPlain = true → LedgerAmounts (sent.after request) db' := by
    intro hreq
    refine hA.kept heffect ?_ ?_
    · cases request with
      | updateTransaction id body => simpa [Request.ledgerAmounts, Request.isPlain] using hreq
      | createTransaction | batchCreateTransactions | createOpeningBalance => cases hreq
      | _ => rfl
    · rintro id targetId rfl
      cases hreq
  cases h with
  | transactionCreated hc => exact hA.created hc
  | batchCreated hc => exact hA.createdAll hc
  | openingBalanceCreated hid hamount hseed hc =>
    show LedgerAmounts (sent.note (_, _)) _
    rw [← hid, ← hamount]
    refine LedgerAmounts.created (hA.congr ?_) hc
    rcases hseed with ⟨rfl, -⟩ | ⟨r, -, -, -, -, rfl⟩ <;> simp
  | @transactionUpdated id body row hrow =>
    cases hn : body.fields.amountCents with
    | none =>
      refine hA.kept heffect ?_ (by simp)
      exact (congrArg (fun o => (Option.map (fun n => (id, n)) o).toList) hn)
    | some n =>
      have hsent : sent.after (.updateTransaction id body) = sent.note (id, n) := by
        have hn : body.amountCents.join = some n := hn
        simp [SentAmounts.after, Request.ledgerAmounts, hn]
      rw [hsent]
      exact hA.updated hrow hn
  | @draftPromoted id targetId draft ty hp =>
    obtain ⟨hzero, hamount, hty⟩ := hD draft hp.found
    obtain ⟨m, hm⟩ := Option.isSome_iff_exists.mp hp.amount
    rw [hp.pending.1] at hzero hamount hty
    rw [hm] at hamount
    obtain ⟨n, hn, hmn⟩ := Option.map_eq_some_iff.mp hamount.symm
    rw [hn, hp.direction] at hty
    rw [hn] at hzero
    have hsent : sent.after (.promoteInboxItem id targetId) = sent.note (targetId, n) := by
      simp [SentAmounts.after, SentAmounts.note, hn]
    rw [hsent]
    refine hA.append (EvolutionLemmas.rows_promoted hp)
      (EvolutionLemmas.fresh_of_inserts hp.inserts)
      ⟨fun h0 => hzero (congrArg some h0), ?_, Option.some.inj hty⟩
    simp [promotedRow, newTransactionRow, hm, hmn]
  | idle hreq | accountCreated hreq | accountEdited hreq | categoryCreated hreq
  | categoryEdited hreq | hashtagCreated hreq | hashtagEdited hreq => exact hplain hreq
  | _ => exact hA.kept heffect rfl (by simp)

/-! ## The drafts -/

/-- Drafts that keep their amounts. -/
theorem DraftAmounts.kept (hD : DraftAmounts sent db) (h : Effect env userId db request db')
    (hcreate : ∀ body, request ≠ .createInboxItem body)
    (hupdate : ∀ id body, request = .updateInboxItem id body → body.amountCents.join = none) :
    DraftAmounts (sent.after request) db' := by
  intro d' hd'
  rw [SentAmounts.after_draft hcreate hupdate]
  rcases (drafts_evolve h).origin hd' with ⟨d, hd, hstep⟩ | hnew
  · cases hstep with
    | kept hb =>
      rcases hb with rfl | ⟨now, rfl⟩
      · exact hD d' hd
      · exact hD d hd
    | @updated body hreq =>
      have hsent : body.fields.amountCents = none := hupdate _ _ hreq
      obtain ⟨hzero, hamount, hty⟩ := hD d hd
      refine ⟨hzero, ?_, ?_⟩
      · rw [draftUpdated_amounts.2.1, hsent]
        exact hamount
      · rw [draftUpdated_amounts.2.2, hsent]
        exact hty
    | dismissed | promoted => exact hD d hd
  · obtain ⟨body, hreq, -⟩ := hnew.request
    exact absurd hreq (hcreate body)

theorem DraftAmounts.updated {id : Uuid} {body : InboxUpdateRequest} {row : Row .transactionInbox}
    (hD : DraftAmounts sent db)
    (h : DraftUpdatable userId id body.fields body.hashtagIds.join row db) :
    DraftAmounts (sent.after (.updateInboxItem id body))
      (db.draftUpdated env userId id body.fields body.hashtagIds.join) := by
  have hself : (sent.after (.updateInboxItem id body)).draft id =
      body.fields.amountCents.or (sent.draft id) := Function.update_self _ _ _
  intro d' hd'
  rw [Db.draftUpdated, Sql.Db.rows, retagged_ne (by simp), ← Sql.Db.rows,
    Db.rows_modify_same] at hd'
  obtain ⟨d, hd, rfl⟩ := List.mem_map.mp hd'
  split
  · next hw =>
    have hid : d.id = id := (owns_active.mp hw).1
    rw [draftUpdated_amounts.1, draftUpdated_amounts.2.1, draftUpdated_amounts.2.2, hid, hself]
    cases hn : body.fields.amountCents with
    | none => simpa [hid] using hD d hd
    | some n =>
      refine ⟨?_, rfl, rfl⟩
      rw [← hn]
      simpa [hn] using h.fieldsValid.amount
  · next hw =>
    have hne : d.id ≠ id := by
      intro hid
      obtain rfl : d = row := EvolutionLemmas.eq_of_id hd h.found (hid.trans h.owned.1.symm)
      exact hw (owns_active.mpr h.owned)
    simpa [SentAmounts.after, Function.update_of_ne hne] using hD d hd

theorem DraftAmounts.effect (hD : DraftAmounts sent db) (h : Effect env userId db request db') :
    DraftAmounts (sent.after request) db' := by
  have heffect := h
  have hplain : request.isPlain = true → DraftAmounts (sent.after request) db' := by
    intro hreq
    refine hD.kept heffect ?_ ?_
    · rintro body rfl
      cases hreq
    · rintro id body rfl
      simpa [Request.isPlain] using hreq
  cases h with
  | @draftCreated body hvalid hins htags =>
    intro d hd
    rw [Db.drafted, Sql.Db.rows, tagged_ne (by simp), ← Sql.Db.rows, Db.rows_put_of_inserted hins,
      List.mem_append, List.mem_singleton] at hd
    rcases hd with hd | rfl
    · have hne : d.id ≠ body.id := EvolutionLemmas.fresh_of_inserts hins d hd
      simpa [SentAmounts.after, Function.update_of_ne hne] using hD d hd
    · simpa [SentAmounts.after, requestedDraft] using hvalid.amount
  | @draftUpdated id body row hrow => exact hD.updated hrow
  | idle hreq | accountCreated hreq | accountEdited hreq | categoryCreated hreq
  | categoryEdited hreq | hashtagCreated hreq | hashtagEdited hreq => exact hplain hreq
  | _ => exact hD.kept heffect (by simp) (by simp)

/-! ## Runs -/

/-- The tables stand for the amounts sent. -/
structure Conserved (sent : SentAmounts) (db : Db) : Prop where
  ledger : LedgerAmounts sent db
  draft : DraftAmounts sent db

theorem Conserved.congr (h : Conserved sent db) (hcore : CoreEq db' db) : Conserved sent db' where
  ledger := h.ledger.congr (hcore.rows rfl)
  draft d hd := by
    rw [hcore.rows rfl] at hd
    exact h.draft d hd

theorem Conserved.step (h : Conserved sent db) (c : Call) :
    Conserved (sentStep db sent c) (step db c) := by
  unfold sentStep ExpenseEngine.step
  cases hexec : exec c.handle db with
  | error e => exact h
  | ok x =>
    obtain ⟨reply, db'⟩ := x
    cases reply with
    | fresh body =>
      obtain ⟨db₁, heffect, hcore⟩ := fresh_effect hexec
      exact Conserved.congr ⟨h.ledger.effect h.draft heffect, h.draft.effect heffect⟩ hcore
    | cached body status =>
      rcases exec_handle_ok hexec with ⟨_, _, -, rfl⟩ | ⟨_, _, hfresh, -⟩
      · exact h
      · cases hfresh

theorem Conserved.run (h : Conserved sent db) (calls : List Call) :
    Conserved (sentAlong db sent calls) (run db calls) := by
  induction calls generalizing db sent with
  | nil => exact h
  | cons c calls ih => exact ih (h.step c)

theorem Fresh.conserved (h : Fresh db) : Conserved sent db where
  ledger := by simp [LedgerAmounts, h.transactions]
  draft := by simp [DraftAmounts, h.transactionInbox]

/-! ## Balances and responses -/

/-- The active ledger rows on an account. -/
def activeOn (db : Db) (accountId : Uuid) : List (Row .transactions) :=
  (db.rows .transactions).filter fun t => decide (t.accountId = accountId ∧ t.deletedAt = none)

/-- The sum of the amounts last sent for the active rows on an account. -/
def sentTotal (sent : SentAmounts) (db : Db) (accountId : Uuid) : Int :=
  ((activeOn db accountId).map fun t => (sent.ledger t.id).getD 0).sum

/-- The balances of accounts by the amounts sent. -/
def sentBalances (sent : SentAmounts) (db : Db) (accountIds : List Uuid) : List (Uuid × Int) :=
  accountIds.map fun a => (a, sentTotal sent db a)

/-- An active transaction has the user of its account. -/
theorem Integrity.user_eq (hinv : Integrity db) {acc : Row .bankAccounts}
    (hacc : acc ∈ db.rows .bankAccounts) {t : Row .transactions} (ht : t ∈ db.rows .transactions)
    (hd : t.deletedAt = none) (ha : t.accountId = acc.id) : t.userId = acc.userId := by
  obtain ⟨r, hr, hid, hu, -⟩ := hinv.account t ht hd
  obtain rfl : r = acc := EvolutionLemmas.eq_of_id hr hacc (hid.trans ha)
  exact hu.symm

theorem balanceOf_eq_sentTotal (hinv : Integrity db) (h : Conserved sent db)
    {acc : Row .bankAccounts} (hacc : acc ∈ db.rows .bankAccounts) :
    balanceOf db acc.userId acc.id = sentTotal sent db acc.id := by
  have hrows : (db.rows .transactions).filter (fun t =>
      decide (t.userId = acc.userId ∧ t.deletedAt = none ∧ t.accountId = acc.id)) =
      activeOn db acc.id := by
    refine List.filter_congr fun t ht => decide_eq_decide.mpr ⟨fun h => ⟨h.2.2, h.2.1⟩, ?_⟩
    exact fun ⟨ha, hd⟩ => ⟨hinv.user_eq hacc ht hd ha, hd, ha⟩
  rw [balanceOf, sentTotal, hrows]
  refine congrArg List.sum (List.map_congr_left fun t ht => ?_)
  obtain ⟨n, hn, hstands⟩ := h.ledger t (List.mem_of_mem_filter ht)
  rw [hn, StandsFor.signed hstands, Option.getD_some]

theorem exec_fetchBalances (ids : List Uuid) :
    exec (fetchBalances userId ids) db =
      if (ids.map fun a => (a, balanceOf db userId a)).all fun b => inInt8 b.2 then
        .ok (ids.map fun a => (a, balanceOf db userId a), db)
      else .error .database := by
  unfold fetchBalances
  cases ids with
  | nil => rfl
  | cons a ids =>
    rw [if_neg (by simp), exec_bind, exec_read]
    dsimp only
    split <;> rfl

theorem exec_fetchBalance_ok {accountId : Uuid} {n : Int}
    (h : exec (fetchBalance userId accountId) db = .ok (n, db')) :
    n = balanceOf db userId accountId ∧ db' = db := by
  rw [fetchBalance, exec_bind_ok] at h
  obtain ⟨balances, db₁, hfetch, h⟩ := h
  rw [exec_fetchBalances] at hfetch
  obtain ⟨rfl, rfl⟩ := exec_pure_ok.mp h
  split at hfetch
  · cases hfetch
    simp
  · cases hfetch

/-- A GET of an account answers with its row and its balance. -/
theorem exec_getAccount {accountId : Uuid} {b : Body}
    (h : exec (getAccount env userId accountId) db = .ok (b, db')) :
    ∃ acc home, acc ∈ db.rows .bankAccounts ∧ acc.id = accountId ∧ acc.userId = userId ∧
      b = accountFromRow acc (balanceOf db userId accountId) home := by
  simp only [getAccount, fetchBothBalances, exec_bind_ok, exec_fetchOwnedRowOr404_ok,
    exec_pure_ok] at h
  obtain ⟨acc, _, ⟨hfind, rfl⟩, _, _, ⟨n, _, hbalance, home, _, hhome, rfl, rfl⟩, rfl, -⟩ := h
  obtain ⟨hacc, hw⟩ := find?_row hfind
  obtain ⟨rfl, rfl⟩ := exec_fetchBalance_ok hbalance
  have hid : acc.id = accountId := (owns_active.mp hw).1
  exact ⟨acc, home, hacc, hid, (owns_active.mp hw).2.1, by rw [← hid]⟩

/-- A GET of an active transaction with debits negative has its signed amount. -/
theorem exec_getTransaction {t : Row .transactions} (ht : t ∈ db.rows .transactions)
    (hd : t.deletedAt = none) :
    ∃ r, exec (getTransaction t.userId t.id true) db = .ok (r, db) ∧
      r.amountCents = signedCents t.transactionType t.amountCents := by
  have hfind : (db.rows .transactions).find? (owns .transactions t.id t.userId .active) = some t :=
    find?_of_mem (fun x hx => (owns_active.mp hx).1) ht (owns_active.mpr ⟨rfl, rfl, hd⟩)
  refine ⟨applyDebitAsNegative { t with hashtagIds := hashtagIdsOf db t.id .ledger }, ?_, ?_⟩
  · simp only [getTransaction, exec_bind_ok, exec_fetchOwnedRowOr404_ok, exec_attachHashtagIds_ok,
      exec_pure_ok]
    exact ⟨t, db, ⟨hfind, rfl⟩, _, _, ⟨rfl, rfl⟩, by simp⟩
  · cases hty : t.transactionType <;> simp [applyDebitAsNegative, hty, signedCents]

/-- In every reached state, the balances the engine reports are the sums of the
last amounts sent for the active rows of the accounts, unless a sum is out of
range and the query fails; so are those of a GET of an account, and a GET of a
transaction with debits negative has the last amount sent for it. -/
theorem balances_report_sent_amounts {db₀ : Db} (hfresh : Fresh db₀) (calls : List Call) :
    (∀ userId ids, (∀ a ∈ ids, ∃ acc ∈ (run db₀ calls).rows .bankAccounts,
        acc.id = a ∧ acc.userId = userId) →
      exec (fetchBalances userId ids) (run db₀ calls) =
        if (sentBalances (sentAlong db₀ .empty calls) (run db₀ calls) ids).all
            fun b => inInt8 b.2 then
          .ok (sentBalances (sentAlong db₀ .empty calls) (run db₀ calls) ids, run db₀ calls)
        else .error .database) ∧
    (∀ env userId accountId body db', exec (getAccount env userId accountId) (run db₀ calls) =
        .ok (body, db') → ∃ acc home, body = accountFromRow acc
          (sentTotal (sentAlong db₀ .empty calls) (run db₀ calls) accountId) home) ∧
    ∀ t ∈ (run db₀ calls).rows .transactions, t.deletedAt = none →
      ∃ n r, (sentAlong db₀ .empty calls).ledger t.id = some n ∧ n ≠ 0 ∧
        exec (getTransaction t.userId t.id true) (run db₀ calls) = .ok (r, run db₀ calls) ∧
        r.amountCents = n := by
  have hinv := hfresh.integrity.run calls
  have hstart : Conserved .empty db₀ := hfresh.conserved
  have hcons := hstart.run calls
  refine ⟨fun userId ids hids => ?_, fun env userId accountId body db' h => ?_, fun t ht hd => ?_⟩
  · have htotal : (ids.map fun a => (a, balanceOf (run db₀ calls) userId a)) =
        sentBalances (sentAlong db₀ .empty calls) (run db₀ calls) ids := by
      refine List.map_congr_left fun a ha => ?_
      obtain ⟨acc, hacc, rfl, rfl⟩ := hids a ha
      rw [balanceOf_eq_sentTotal hinv hcons hacc]
    rw [exec_fetchBalances, htotal]
  · obtain ⟨acc, home, hacc, rfl, rfl, rfl⟩ := exec_getAccount h
    exact ⟨acc, home, by rw [balanceOf_eq_sentTotal hinv hcons hacc]⟩
  · obtain ⟨n, hn, hstands⟩ := hcons.ledger t ht
    obtain ⟨r, hexec, hr⟩ := exec_getTransaction ht hd
    exact ⟨n, r, hn, hstands.1, hexec, hr.trans (StandsFor.signed hstands)⟩

end Amounts

open Ascii in
/-- The lunch of 5.00 is the whole balance of the account. -/
theorem balances_report_sent_amounts_setup :
    exec (fetchBalances 1 [10]) (run blank setup) = .ok ([(10, -500)], run blank setup) := by
  have h := (balances_report_sent_amounts fresh_blank setup).1 1 [10] ?_
  · have htotal : sentBalances (sentAlong blank .empty setup) (run blank setup) [10] =
        [(10, -500)] := by
      decide +kernel
    rwa [htotal] at h
  · decide +kernel

end ExpenseEngine
