import ExpenseEngine.Effects.Statements
import ExpenseEngine.Invariants.Integrity

/-!
# Archived accounts

An archived account keeps its ledger and takes no new rows. Six paths could make
a row active on an account: creates, batch items, opening balances, promotions,
restores, and updates that name an account; each of them asks for an account
that is not archived. Deleting and restoring the account keeps the flag.

Results:
1. `Archived.step`: the flag lasts until an unarchive.
2. `archived_only_shrinks`: the active rows on an archived account, along every
   run that does not unarchive it.
-/

namespace ExpenseEngine

open Sql Sql.Prog IntegrityLemmas

section Archived

variable [Platform] {db db' : Db} {env : Env} {userId : Uuid} {request : Request} {c : Call}

/-- The account `a` of the user is there and archived. -/
def Archived (db : Db) (a userId : Uuid) : Prop :=
  ∃ r ∈ db.rows .bankAccounts, r.id = a ∧ r.userId = userId ∧ r.isArchived = true

/-- The ledger row `id` is active on the account `a`. -/
def ActiveOn (db : Db) (a id : Uuid) : Prop :=
  ∃ t ∈ db.rows .transactions, t.id = id ∧ t.accountId = a ∧ t.deletedAt = none

namespace ArchivedLemmas

/-- What a statement makes of an account row of `userId`: its owner stays, and
only an unarchive of that user clears the flag. -/
def KeepsArchive (c : Call) (r r' : Row .bankAccounts) : Prop :=
  r'.userId = r.userId ∧
    ((c.userId = r.userId → c.request ≠ .unarchiveAccount r.id) → r.isArchived = true →
      r'.isArchived = true)

theorem updates_keepsArchive {r r' : Row .bankAccounts} (h : c.Updates .bankAccounts r r') :
    r'.id = r.id ∧ KeepsArchive c r r' := by
  have h : Updates c.env c.userId c.request .bankAccounts r r' := h
  generalize hreq : c.request = request at h
  cases h with
  | accountUpdated => exact ⟨rfl, rfl, fun _ harchived => harchived⟩
  | accountArchived => exact ⟨rfl, rfl, fun _ _ => rfl⟩
  | accountUnarchived hw =>
    obtain ⟨hid, hu⟩ := owns_either.mp hw
    refine ⟨rfl, rfl, fun hne _ => ?_⟩
    rw [hreq] at hne
    exact absurd (congrArg Request.unarchiveAccount hid.symm) (hne hu.symm)
  | accountDeleted => exact ⟨rfl, rfl, fun _ harchived => harchived⟩
  | accountRestored => exact ⟨rfl, rfl, fun _ harchived => harchived⟩

/-- An account the services may use is not archived. -/
theorem not_hasActiveAccount {a owner : Uuid} (h : Archived db a owner) :
    ¬HasActiveAccount db userId a := by
  rintro ⟨r, hr, hid, hactive⟩
  obtain ⟨r', hr', hid', -, harchived⟩ := h
  obtain rfl : r = r' := EvolutionLemmas.eq_of_id hr hr' (hid.trans hid'.symm)
  obtain ⟨-, -, hfalse⟩ := of_decide_eq_true hactive
  rw [harchived] at hfalse
  cases hfalse

/-- A row that a request leaves active on an archived account was active on it
before. -/
theorem activeOn_of_effect {a owner : Uuid} (harchived : Archived db a owner)
    (h : Effect env userId db request db') {t' : Row .transactions}
    (ht' : t' ∈ db'.rows .transactions) (hacc : t'.accountId = a) (hlive : t'.deletedAt = none) :
    ActiveOn db a t'.id := by
  have hfree : ¬HasActiveAccount db userId a := not_hasActiveAccount harchived
  rcases (transactions_evolve h).origin ht' with ⟨t, ht, hstep⟩ | hnew
  · cases hstep with
    | kept hb =>
      obtain ⟨hid, -, hdel, hkept, -, -⟩ := bumpedTo_columns hb
      exact ⟨t, ht, hid.symm, hkept.symm.trans hacc, hdel.symm.trans hlive⟩
    | @updated body hreq hupd =>
      have hacc : body.fields.accountId.getD t.accountId = a := hacc
      cases hsent : body.fields.accountId with
      | none =>
        rw [hsent, Option.getD_none] at hacc
        exact ⟨t, ht, rfl, hacc, hupd.owned.2.2⟩
      | some a' =>
        rw [hsent, Option.getD_some] at hacc
        exact absurd (hacc ▸ hupd.account a' hsent) hfree
    | deleted => cases hlive
    | restored hreq hres =>
      have hacc : t.accountId = a := hacc
      exact absurd (hacc ▸ hres.account) hfree
    | unassigned hreq hm hdraft =>
      exact ⟨t, ht, rfl, hacc, (of_decide_eq_true hm).2.2⟩
  · exact absurd (hacc ▸ hnew.account) hfree

end ArchivedLemmas

open ArchivedLemmas

theorem Archived.step {a owner : Uuid} (h : Archived db a owner)
    (hc : c.userId = owner → c.request ≠ .unarchiveAccount a) :
    Archived (step db c) a owner := by
  obtain ⟨r, hr, rfl, rfl, harchived⟩ := h
  obtain ⟨r', hr', hid, hchain⟩ := step_kept c hr
  have hkept : r'.id = r.id ∧ KeepsArchive c r r' := by
    clear hr' hid
    induction hchain with
    | refl => exact ⟨rfl, rfl, fun _ h => h⟩
    | tail _ hstep ih =>
      obtain ⟨hid, hu, hkeep⟩ := ih
      obtain ⟨hid', hu', hkeep'⟩ := updates_keepsArchive hstep
      rw [hu, hid] at hkeep'
      exact ⟨hid'.trans hid, hu'.trans hu, fun hne h => hkeep' hne (hkeep hne h)⟩
  exact ⟨r', hr', hid, hkept.2.1, hkept.2.2 hc harchived⟩

theorem activeOn_step {a owner id : Uuid} (harchived : Archived db a owner)
    (h : ActiveOn (step db c) a id) : ActiveOn db a id := by
  obtain ⟨t', ht', rfl, hacc, hlive⟩ := h
  rcases step_effect db c with hsame | ⟨db₁, heffect, hcore⟩
  · rw [hsame.rows rfl] at ht'
    exact ⟨t', ht', rfl, hacc, hlive⟩
  · rw [hcore.rows rfl] at ht'
    exact activeOn_of_effect harchived heffect ht' hacc hlive

/-- Along a run in which its owner does not unarchive the account, the account
stays archived and the set of active ledger rows on it only shrinks. -/
theorem archived_only_shrinks (db : Db) (a owner : Uuid) (harchived : Archived db a owner)
    (calls : List Call)
    (hcalls : ∀ c ∈ calls, c.userId = owner → c.request ≠ .unarchiveAccount a) :
    Archived (run db calls) a owner ∧ ∀ id, ActiveOn (run db calls) a id → ActiveOn db a id := by
  induction calls generalizing db with
  | nil => exact ⟨harchived, fun _ h => h⟩
  | cons c calls ih =>
    have hnext := harchived.step (hcalls c List.mem_cons_self)
    obtain ⟨hlast, hshrinks⟩ := ih _ hnext fun x hx => hcalls x (List.mem_cons_of_mem _ hx)
    exact ⟨hlast, fun id h => activeOn_step harchived (hshrinks id h)⟩

end Archived

namespace Ascii

/-- Account 10, with the deleted transaction 31 beside the lunch, is archived. -/
def archive : List Call := setup ++ [
  callAt 6 (.createTransaction ⟨31, "Taxi".toList, -900, 6, 10, 20, none, []⟩),
  callAt 7 (.deleteTransaction 31), callAt 8 (.archiveAccount 10)]

/-- The account loses its last transaction, is deleted and restored, and is then
asked to take rows back. -/
def knocks : List Call := [
  callAt 9 (.restoreTransaction 31), callAt 10 (.deleteTransaction 30),
  callAt 11 (.deleteAccount 10), callAt 12 (.restoreAccount 10),
  callAt 13 (.restoreTransaction 30),
  callAt 14 (.createTransaction ⟨32, "Tea".toList, -100, 14, 10, 20, none, []⟩),
  callAt 15 (.createOpeningBalance 10 ⟨33, 500, 15, none⟩)]

instance (db : Db) (a userId : Uuid) : Decidable (Archived db a userId) :=
  inferInstanceAs (Decidable (∃ r ∈ db.rows .bankAccounts, r.id = a ∧ r.userId = userId ∧
    r.isArchived = true))

instance (db : Db) (a id : Uuid) : Decidable (ActiveOn db a id) :=
  inferInstanceAs (Decidable (∃ t ∈ db.rows .transactions, t.id = id ∧ t.accountId = a ∧
    t.deletedAt = none))

end Ascii

open Ascii in
theorem archived_only_shrinks_knocks :
    Archived (run (run blank archive) knocks) 10 1 ∧
      ActiveOn (run blank archive) 10 30 ∧ ¬ActiveOn (run (run blank archive) knocks) 10 30 ∧
      ∀ id, ActiveOn (run (run blank archive) knocks) 10 id →
        ActiveOn (run blank archive) 10 id := by
  obtain ⟨harchived, hshrinks⟩ := archived_only_shrinks (run blank archive) 10 1
    (by decide +kernel) knocks (by
      intro c hc _ hreq
      simp only [knocks, List.mem_cons, List.not_mem_nil, or_false] at hc
      rcases hc with rfl | rfl | rfl | rfl | rfl | rfl | rfl <;> cases hreq)
  exact ⟨harchived, by decide +kernel, by decide +kernel, hshrinks⟩

end ExpenseEngine
