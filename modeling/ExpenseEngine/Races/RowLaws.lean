import ExpenseEngine.Effects.Statements
import ExpenseEngine.Sql.Descent
import ExpenseEngine.Sql.Histories
import ExpenseEngine.Tenancy.Territory

/-!
# What becomes of a stored row

No statement of the engine deletes a row, and most columns are in no SET list.
What the lists of statements allow holds of the committed tables whichever
requests run side by side, and however often they are killed and sent again.

Results:
1. `heir_of_updates`: one rewrite.
2. `rows_lawful`: between any two moments of any interleaving.
-/

namespace ExpenseEngine

open Sql Sql.Prog

section RowLaws

variable [Platform]

/-! ## The law of each table -/

/-- The row belongs to the same user, and whoever has a version of it notices
when it has changed. -/
structure Newer (t : Tbl) [OwnedTable t] (r r' : Row t) : Prop where
  user : (OwnedTable.resource r').userId = (OwnedTable.resource r).userId
  created : (OwnedTable.resource r').createdAt = (OwnedTable.resource r).createdAt
  version : r' = r ∨ (OwnedTable.resource r).version < (OwnedTable.resource r').version

/-- What can be said of a stored row and a later version of it. -/
def Heir : (t : Tbl) → Row t → Row t → Prop
  | .users, r, r' => r'.createdAt = r.createdAt
  | .userSettings, r, r' => r'.createdAt = r.createdAt ∧ r'.mainCurrency = r.mainCurrency ∧
    (r' = r ∨ r.version < r'.version)
  | .exchangeRates, r, r' | .idempotencyKeys, r, r' | .activityLog, r, r' => r' = r
  | .bankAccounts, r, r' => Newer .bankAccounts r r' ∧ r'.currencyCode = r.currencyCode ∧
    r'.isPerson = r.isPerson
  | .categories, r, r' => Newer .categories r r' ∧ r'.systemKey = r.systemKey
  | .reconciliations, r, r' => Newer .reconciliations r r' ∧ r'.accountId = r.accountId
  | .transactionInbox, r, r' => Newer .transactionInbox r r' ∧
    (r.deletedAt ≠ none → r'.deletedAt ≠ none) ∧ (r.status = .promoted → r'.status = .promoted)
  | .transactions, r, r' => Newer .transactions r r' ∧ r'.inboxId = r.inboxId
  | .hashtags, r, r' => Newer .hashtags r r'
  | .transactionHashtags, r, r' => r'.userId = r.userId ∧ r'.createdAt = r.createdAt
  | .personalAccessTokens, r, r' => r' = { r with revokedAt := r'.revokedAt } ∧
    (r.revokedAt ≠ none → r'.revokedAt ≠ none)

omit [Platform] in
theorem Newer.refl {t : Tbl} [OwnedTable t] (r : Row t) : Newer t r r := ⟨rfl, rfl, .inl rfl⟩

omit [Platform] in
theorem Newer.trans {t : Tbl} [OwnedTable t] {r₁ r₂ r₃ : Row t} (h : Newer t r₁ r₂)
    (h' : Newer t r₂ r₃) : Newer t r₁ r₃ where
  user := h'.user.trans h.user
  created := h'.created.trans h.created
  version := by
    rcases h'.version with rfl | hlt'
    · exact h.version
    · rcases h.version with rfl | hlt
      · exact .inr hlt'
      · exact .inr (hlt.trans hlt')

omit [Platform] in
theorem Heir.refl (t : Tbl) (r : Row t) : Heir t r r := by
  cases t with
  | users | exchangeRates | idempotencyKeys | activityLog => rfl
  | userSettings => exact ⟨rfl, rfl, .inl rfl⟩
  | bankAccounts => exact ⟨.refl r, rfl, rfl⟩
  | categories | reconciliations | transactions => exact ⟨.refl r, rfl⟩
  | transactionInbox => exact ⟨.refl r, id, id⟩
  | hashtags => exact Newer.refl r
  | transactionHashtags => exact ⟨rfl, rfl⟩
  | personalAccessTokens => exact ⟨rfl, id⟩

omit [Platform] in
theorem Heir.trans {t : Tbl} {r₁ r₂ r₃ : Row t} (h : Heir t r₁ r₂) (h' : Heir t r₂ r₃) :
    Heir t r₁ r₃ := by
  cases t with
  | users | exchangeRates | idempotencyKeys | activityLog => exact Eq.trans h' h
  | userSettings =>
    obtain ⟨hcreated, hcurrency, hversion⟩ := h
    obtain ⟨hcreated', hcurrency', hversion'⟩ := h'
    refine ⟨hcreated'.trans hcreated, hcurrency'.trans hcurrency, ?_⟩
    rcases hversion' with rfl | hlt'
    · exact hversion
    · rcases hversion with rfl | hlt
      · exact .inr hlt'
      · exact .inr (hlt.trans hlt')
  | bankAccounts => exact ⟨h.1.trans h'.1, h'.2.1.trans h.2.1, h'.2.2.trans h.2.2⟩
  | categories | reconciliations | transactions => exact ⟨h.1.trans h'.1, h'.2.trans h.2⟩
  | transactionInbox =>
    exact ⟨h.1.trans h'.1, fun hd => h'.2.1 (h.2.1 hd), fun hs => h'.2.2 (h.2.2 hs)⟩
  | hashtags => exact Newer.trans h h'
  | transactionHashtags => exact ⟨h'.1.trans h.1, h'.2.trans h.2⟩
  | personalAccessTokens =>
    refine ⟨?_, fun hr => h'.2 (h.2 hr)⟩
    rw [h'.1, h.1]

namespace RowLemmas

omit [Platform] in
theorem heir_of_chain {t : Tbl} {upd : Row t → Row t → Prop} (hupd : ∀ r r', upd r r' → Heir t r r')
    {r r' : Row t} (h : Relation.ReflTransGen upd r r') : Heir t r r' := by
  induction h with
  | refl => exact Heir.refl t r
  | tail _ hstep ih => exact Heir.trans ih (hupd _ _ hstep)

end RowLemmas

open RowLemmas

variable {env : Env} {userId : Uuid} {request : Request}

/-- Every SET list of a versioned table ends in `version = version + 1`. -/
theorem heir_of_updates {t : Tbl} {r r' : Row t} (h : Updates env userId request t r r') :
    Heir t r r' := by
  cases h with
  | link | linkDropped => exact ⟨rfl, rfl⟩
  | transactionUpdated | transactionDeleted | transactionRestored | memberCompleted
  | memberReverted | memberUnassigned | transactionUntagged =>
    exact ⟨⟨rfl, rfl, .inr (Int.lt_succ _)⟩, rfl⟩
  | draftUpdated | draftUntagged => exact ⟨⟨rfl, rfl, .inr (Int.lt_succ _)⟩, id, id⟩
  | draftDismissed => exact ⟨⟨rfl, rfl, .inr (Int.lt_succ _)⟩, fun _ => nofun, id⟩
  | draftPromoted => exact ⟨⟨rfl, rfl, .inr (Int.lt_succ _)⟩, fun _ => nofun, fun _ => rfl⟩
  | reconciliationUpdated | reconciliationCompleted | reconciliationReverted
  | reconciliationDeleted | reconciliationRestored =>
    exact ⟨⟨rfl, rfl, .inr (Int.lt_succ _)⟩, rfl⟩
  | accountUpdated | accountArchived | accountUnarchived | accountDeleted | accountRestored =>
    exact ⟨⟨rfl, rfl, .inr (Int.lt_succ _)⟩, rfl, rfl⟩
  | categoryUpdated | categoryDeleted | categoryRestored =>
    exact ⟨⟨rfl, rfl, .inr (Int.lt_succ _)⟩, rfl⟩
  | hashtagUpdated | hashtagDeleted | hashtagRestored =>
    exact ⟨rfl, rfl, .inr (Int.lt_succ _)⟩
  | login | profileUpdated => rfl
  | settingsUpdated => exact ⟨rfl, rfl, .inr (Int.lt_succ _)⟩
  | tokenRevoked => exact ⟨rfl, fun _ => nofun⟩

/-! ## Side by side -/

namespace RowLemmas

omit [Platform] in
/-- The owner column is in no SET list. -/
theorem ownerOf_heir {t : Tbl} {r r' : Row t} (h : Heir t r r') (hkey : keyOf t r' = keyOf t r) :
    ownerOf t r' = ownerOf t r := by
  cases t with
  | users | userSettings => exact congrArg some hkey
  | exchangeRates => rfl
  | idempotencyKeys | activityLog => rw [h]
  | bankAccounts | categories | reconciliations | transactionInbox | transactions =>
    exact congrArg some h.1.user
  | hashtags => exact congrArg some (Newer.user h)
  | transactionHashtags => exact congrArg some h.1
  | personalAccessTokens =>
    rw [h.1]
    rfl

/-- A call inserts rows of its own user. -/
theorem ownerOf_proposed {c : Call} {t : Tbl} {r : Row t} (h : c.Proposes t r) :
    ownerOf t r = some c.userId := by
  have hrequest : ∀ request, Proposes c.env c.userId request t r → ownerOf t r = some c.userId := by
    intro request h
    cases h <;> rfl
  rcases h with h | h
  · cases t with
    | idempotencyKeys => exact congrArg some h.1
    | _ => exact h.elim
  · exact hrequest c.request h

theorem not_updates_fixed {t : Tbl} {r r' : Row t}
    (ht : t = .activityLog ∨ t = .idempotencyKeys ∨ t = .exchangeRates) :
    ¬Updates env userId request t r r' := by
  rintro h
  cases h <;> simp at ht

end RowLemmas

/-- The tables at one moment and at a later one. -/
structure RowsLawful (calls : ι → Call) (db db' : Db) : Prop where
  kept : ∀ t, ∀ r ∈ db.rows t, ∃ r' ∈ db'.rows t, keyOf t r' = keyOf t r ∧ Heir t r r'
  new : ∀ t, ∀ r' ∈ db'.rows t, (∃ r ∈ db.rows t, keyOf t r = keyOf t r') ∨
    ∃ i, ownerOf t r' = some (calls i).userId
  log : db.rows .activityLog <+: db'.rows .activityLog
  keys : db.rows .idempotencyKeys <+: db'.rows .idempotencyKeys
  rates : ∀ r, r ∈ db'.rows .exchangeRates ↔ r ∈ db.rows .exchangeRates

variable {ι : Type} [Fintype ι] [DecidableEq ι]

/-- Between any two moments of any interleaving no row is lost, and each is the
heir of what it was; a new row belongs to a user who sent a request; the log and
the keys only grow at their end. -/
theorem rows_lawful (db : Db) (calls : ι → Call) (past future : List (Event ι)) :
    let s := (State.start db fun i => (calls i).handle).run past
    RowsLawful calls s.db (s.run future).db := by
  intro s
  have hs : Sound (fun i => (calls i).handle) s :=
    State.sound_run (sound_start db _)
  have hp := fun i => handle_rewrites (calls i)
  have hdescends := State.descends_run hs hp future
  have hheir : ∀ t r r', (∃ i, (calls i).Updates t r r') → Heir t r r' := by
    rintro t r r' ⟨i, h⟩
    exact heir_of_updates h
  constructor
  · intro t r hr
    obtain ⟨r', hr', hkey, hchain⟩ := hdescends.kept t r hr
    exact ⟨r', hr', hkey, heir_of_chain (hheir t) hchain⟩
  · intro t r' hr'
    obtain ⟨r, hkey, hchain, hr | ⟨⟨i, hins⟩, -⟩⟩ := hdescends.origin t r' hr'
    · exact .inl ⟨r, hr, hkey⟩
    · exact .inr ⟨i, (ownerOf_heir (heir_of_chain (hheir t) hchain) hkey.symm).trans
        (ownerOf_proposed hins)⟩
  · exact State.rows_prefix_run hs hp (fun _ _ _ => not_updates_fixed (.inl rfl)) future
  · exact State.rows_prefix_run hs hp (fun _ _ _ => not_updates_fixed (.inr (.inl rfl))) future
  · intro r
    have hfixed : ∀ r r' : Row .exchangeRates, ¬∃ i, (calls i).Updates .exchangeRates r r' := by
      rintro r r' ⟨i, h⟩
      exact not_updates_fixed (.inr (.inr rfl)) h
    refine ⟨fun hr => ?_, hdescends.mem_of_fixed hfixed⟩
    obtain ⟨x, -, hchain, hx | ⟨⟨i, hins⟩, -⟩⟩ := hdescends.origin .exchangeRates r hr
    · rwa [(Relation.reflTransGen_iff_eq (hfixed x)).mp hchain]
    · cases ownerOf_proposed hins

end RowLaws

end ExpenseEngine
