import ExpenseEngine.Effects.Statements
import ExpenseEngine.Invariants.Integrity

/-!
# Reconciliations do not touch each other

A request changes a reconciliation, its members or its difference only when it
names it: as the reconciliation it is on, or as the old or the new one of the
transaction it is on.

Results:
1. `transaction_local`: what a request does to a ledger row, seen from a
   reconciliation that it does not name.
2. `reconciliation_local`: the row, the members and the difference of such a
   reconciliation.
-/

namespace ExpenseEngine

open Sql Sql.Prog IntegrityLemmas

section Locality

variable [Platform] {db db' : Db} {env : Env} {userId : Uuid} {request : Request} {c : Call}

/-! ## Named reconciliations -/

/-- The ledger row `id` is assigned to the reconciliation `rid`. -/
def AssignedTo (db : Db) (id rid : Uuid) : Prop :=
  ∃ t ∈ db.rows .transactions, t.id = id ∧ t.reconciliationId = some rid

/-- The request is on the reconciliation `rid`, or on a transaction that it is
the old or the new reconciliation of. -/
def Request.names (db : Db) (rid : Uuid) : Request → Prop
  | .updateReconciliation id _ | .completeReconciliation id | .revertReconciliation id
  | .deleteReconciliation id | .restoreReconciliation id => id = rid
  | .updateTransaction id body => AssignedTo db id rid ∨ body.reconciliationId = some (some rid)
  | .deleteTransaction id | .restoreTransaction id => AssignedTo db id rid
  | _ => False

namespace LocalityLemmas

/-- What `difference_cents` and the member list take from a ledger row. -/
def memberPart (rec : Row .reconciliations) (t : Row .transactions) : Option (Uuid × Int) :=
  if isMember rec.id rec.userId t then some (t.id, signedCents t.transactionType t.amountCents)
  else none

omit [Platform] in
theorem memberPart_eq_none {rec : Row .reconciliations} {t : Row .transactions}
    (h : t.reconciliationId ≠ some rec.id ∨ t.deletedAt ≠ none) : memberPart rec t = none := by
  refine if_neg fun hm => ?_
  obtain ⟨hrec, -, hlive⟩ := of_decide_eq_true hm
  exact h.elim (fun hne => hne hrec) fun hne => hne hlive

omit [Platform] in
theorem memberPart_bumped {rec : Row .reconciliations} {t t' : Row .transactions}
    (h : BumpedTo .transactions t t') : memberPart rec t' = memberPart rec t := by
  rcases h with rfl | ⟨now, rfl⟩ <;> rfl

/-- A request leaves what a reconciliation that it does not name takes from a
row. -/
theorem transaction_local {rec : Row .reconciliations} {t t' : Row .transactions}
    (ht : t ∈ db.rows .transactions) (hstep : TransactionStep env userId request db t t')
    (hnames : ¬request.names db rec.id) : memberPart rec t' = memberPart rec t := by
  cases hstep with
  | kept hb => exact memberPart_bumped hb
  | @updated body hreq hupd =>
    subst hreq
    have hold : t.reconciliationId ≠ some rec.id := fun h => hnames (.inl ⟨t, ht, rfl, h⟩)
    have hnew : body.reconciliationId ≠ some (some rec.id) := fun h => hnames (.inr h)
    have hafter : body.reconciliationId.getD t.reconciliationId ≠ some rec.id := by
      cases hsent : body.reconciliationId with
      | none => exact hold
      | some sent =>
        rw [hsent] at hnew
        exact fun h => hnew (congrArg some h)
    exact (memberPart_eq_none (.inl hafter)).trans (memberPart_eq_none (.inl hold)).symm
  | deleted hreq hu hd hdraft =>
    subst hreq
    have hold : t.reconciliationId ≠ some rec.id := fun h => hnames ⟨t, ht, rfl, h⟩
    have hafter : memberPart rec ((marked .transactions env.now (some env.now)).apply t) = none :=
      memberPart_eq_none (.inl hold)
    exact hafter.trans (memberPart_eq_none (.inl hold)).symm
  | @restored unlink hreq hres =>
    subst hreq
    have hold : t.reconciliationId ≠ some rec.id := fun h => hnames ⟨t, ht, rfl, h⟩
    have hafter : (if unlink then none else t.reconciliationId) ≠ some rec.id := by
      split
      · exact nofun
      · exact hold
    exact (memberPart_eq_none (.inl hafter)).trans (memberPart_eq_none (.inl hold)).symm
  | @unassigned rid hreq hm hdraft =>
    subst hreq
    have hold : t.reconciliationId ≠ some rec.id := by
      rw [(of_decide_eq_true hm).1]
      exact fun h => hnames (Option.some.inj h)
    have hafter : (none : Option Uuid) ≠ some rec.id := nofun
    exact (memberPart_eq_none (.inl hafter)).trans (memberPart_eq_none (.inl hold)).symm

omit [Platform] in
theorem filterMap_memberPart (rec : Row .reconciliations) (rows : List (Row .transactions)) :
    rows.filterMap (memberPart rec) = (rows.filter (isMember rec.id rec.userId)).map
      fun t => (t.id, signedCents t.transactionType t.amountCents) := by
  induction rows with
  | nil => rfl
  | cons t rows ih =>
    rw [List.filterMap_cons, List.filter_cons, ih, memberPart]
    cases isMember rec.id rec.userId t with
    | true => rfl
    | false => rfl

/-- The ids and the signed amounts of the members. -/
theorem members_local (h : Effect env userId db request db') {rec : Row .reconciliations}
    (hnames : ¬request.names db rec.id) :
    (membersOf db' rec).map (fun t => (t.id, signedCents t.transactionType t.amountCents)) =
      (membersOf db rec).map fun t => (t.id, signedCents t.transactionType t.amountCents) := by
  obtain ⟨g, added, hrows, hstep, hnew⟩ := transactions_evolve h
  have hadded : added.filterMap (memberPart rec) = [] := by
    rw [List.filterMap_eq_nil_iff]
    intro t ht
    refine memberPart_eq_none (.inl ?_)
    rw [(hnew t ht).unassigned]
    exact nofun
  have hkept : (db.rows .transactions).filterMap (memberPart rec ∘ g) =
      (db.rows .transactions).filterMap (memberPart rec) := by
    refine List.filterMap_congr fun t ht => ?_
    exact transaction_local ht (hstep t ht) hnames
  rw [membersOf, membersOf, ← filterMap_memberPart, ← filterMap_memberPart, hrows,
    List.filterMap_append, hadded, List.append_nil, List.filterMap_map, hkept]

theorem row_local (h : Effect env userId db request db') {rec : Row .reconciliations}
    (hrec : rec ∈ db.rows .reconciliations) (hnames : ¬request.names db rec.id) :
    rec ∈ db'.rows .reconciliations := by
  obtain ⟨r', hr', hstep⟩ := (reconciliations_evolve h).fate hrec
  cases hstep with
  | kept => exact hr'
  | edited hreq | completed hreq | reverted hreq | deleted hreq | restored hreq =>
    subst hreq
    exact absurd rfl hnames

end LocalityLemmas

open LocalityLemmas

/-- A call that does not name a reconciliation leaves its row, its active members
and its difference as they were. -/
theorem reconciliation_local (db : Db) (c : Call) (rec : Row .reconciliations)
    (hrec : rec ∈ db.rows .reconciliations) (hnames : ¬c.request.names db rec.id) :
    rec ∈ (step db c).rows .reconciliations ∧
      (membersOf (step db c) rec).map (fun t => t.id) = (membersOf db rec).map (fun t => t.id) ∧
      differenceCents (step db c) rec = differenceCents db rec := by
  have hrow_members : rec ∈ (step db c).rows .reconciliations ∧
      (membersOf (step db c) rec).map
        (fun t => (t.id, signedCents t.transactionType t.amountCents)) =
      (membersOf db rec).map fun t => (t.id, signedCents t.transactionType t.amountCents) := by
    rcases step_effect db c with hsame | ⟨db₁, heffect, hcore⟩
    · rw [membersOf, hsame.rows rfl, hsame.rows rfl]
      exact ⟨hrec, rfl⟩
    · rw [membersOf, hcore.rows rfl, hcore.rows rfl]
      exact ⟨row_local heffect hrec hnames, members_local heffect hnames⟩
  obtain ⟨hrow, hmembers⟩ := hrow_members
  have hids := congrArg (List.map Prod.fst) hmembers
  have hcents := congrArg (List.map Prod.snd) hmembers
  rw [List.map_map, List.map_map] at hids hcents
  exact ⟨hrow, hids, congrArg (fun cents => _ - List.sum cents) hcents⟩

end Locality

namespace Ascii

/-- A second reconciliation of account 10, the row 41, over the same period. -/
def sibling : List Call := setup ++ assign ++ [
  callAt 8 (.createReconciliation ⟨41, 10, "Again".toList, none, none, 0, some (-500)⟩)]

end Ascii

open Ascii in
/-- Completing the first reconciliation leaves the second as it was. -/
theorem reconciliation_local_sibling : ∃ rec ∈ (run blank sibling).rows .reconciliations,
    rec.id = 41 ∧
    let db := run blank sibling
    let db' := step db (callAt 9 (.completeReconciliation 40))
    rec ∈ db'.rows .reconciliations ∧
      (membersOf db' rec).map (fun t => t.id) = (membersOf db rec).map (fun t => t.id) ∧
      differenceCents db' rec = differenceCents db rec := by
  have hsecond : ∃ rec ∈ (run blank sibling).rows .reconciliations, rec.id = 41 := by
    decide +kernel
  obtain ⟨rec, hrec, hid⟩ := hsecond
  refine ⟨rec, hrec, hid, reconciliation_local _ _ rec hrec fun h => ?_⟩
  have h : (40 : Uuid) = rec.id := h
  rw [hid] at h
  cases h

end ExpenseEngine
