import ExpenseEngine.Api
import ExpenseEngine.Sql.Tenants

/-!
# Users as tenants

Every table but `exchange_rates` has an owner column. A territory says which ids
and token hashes are whose; a row fits when its own id and the ids it refers to
are of its owner's territory. The tables do not ask for that: foreign keys look
at ids alone, and `transaction_hashtags` has no foreign key to its parent.

Results:
1. `lawful`: territories keep the rows of two users apart, with their keys,
   unique indexes and foreign keys.
-/

namespace ExpenseEngine

open Sql Sql.Prog TenantLemmas

/-- Which ids and token hashes are whose. -/
structure Territory where
  ids : Uuid → Uuid → Prop
  hashes : Uuid → Text → Prop
  ids_apart : ∀ {u v x}, ids u x → ids v x → v = u
  hashes_apart : ∀ {u v x}, hashes u x → hashes v x → v = u

def ownerOf : (t : Tbl) → Row t → Option Uuid
  | .users, r => some r.id
  | .userSettings, r => some r.userId
  | .exchangeRates, _ => none
  | .idempotencyKeys, r => some r.userId
  | .activityLog, r => some r.userId
  | .bankAccounts, r => some r.userId
  | .categories, r => some r.userId
  | .reconciliations, r => some r.userId
  | .transactionInbox, r => some r.userId
  | .transactions, r => some r.userId
  | .hashtags, r => some r.userId
  | .transactionHashtags, r => some r.userId
  | .personalAccessTokens, r => some r.userId

namespace Territory

variable (W : Territory)

/-- The ids and hashes of the row are of the territory of `u`. -/
def fits (u : Uuid) : (t : Tbl) → Row t → Prop
  | .users, _ | .userSettings, _ | .exchangeRates, _ => True
  | .idempotencyKeys, r => W.ids u r.id
  | .activityLog, r => W.ids u r.id ∧ r.changedBy = u
  | .bankAccounts, r => W.ids u r.id
  | .categories, r => W.ids u r.id
  | .reconciliations, r => W.ids u r.id ∧ W.ids u r.accountId
  | .transactionInbox, r =>
    W.ids u r.id ∧ (∀ a, r.accountId = some a → W.ids u a) ∧ ∀ c, r.categoryId = some c → W.ids u c
  | .transactions, r =>
    W.ids u r.id ∧ W.ids u r.accountId ∧ W.ids u r.categoryId ∧
      (∀ i, r.inboxId = some i → W.ids u i) ∧ ∀ i, r.reconciliationId = some i → W.ids u i
  | .hashtags, r => W.ids u r.id
  | .transactionHashtags, r => W.ids u r.transactionId ∧ W.ids u r.hashtagId
  | .personalAccessTokens, r => W.ids u r.id ∧ W.hashes u r.tokenHash

def tenancy : Tenancy Row Uuid := ⟨ownerOf, W.fits⟩

end Territory

section Lawful

variable [Platform] {W : Territory} {u v : Uuid} {db db' : Db}

namespace TerritoryLemmas

/-- A row of the table has this id, as a foreign key asks. -/
theorem any_id {t : Tbl} (h : W.tenancy.Alike u db db') {f : Row t → Uuid}
    (hf : ∀ v x, W.tenancy.Owned v t x → W.ids v (f x)) {i : Uuid} (hi : W.ids u i) :
    ((db.rows t).any fun x => decide (f x = i)) = (db'.rows t).any fun x => decide (f x = i) := by
  refine (h.any_eq fun v x hv hx => decide_eq_false ?_).symm
  rintro rfl
  exact hv (W.ids_apart hi (hf v x hx))

/-- The user of a row is there. -/
theorem any_user (h : W.tenancy.Alike u db db') :
    ((db.rows .users).any fun x => decide (x.id = u)) =
      (db'.rows .users).any fun x => decide (x.id = u) := by
  refine (h.any_eq fun v x hv hx => decide_eq_false fun hxu => hv ?_).symm
  exact (Option.some.inj hx.1).symm.trans hxu

theorem apart (W : Territory) {t : Tbl} {r x : Row t} (hr : W.tenancy.Owned u t r)
    (hx : W.tenancy.Owned v t x) (hv : v ≠ u) :
    keyOf t x ≠ keyOf t r ∧ clashOf t x r = false := by
  obtain ⟨hru, hrf⟩ := hr
  obtain ⟨hxv, hxf⟩ := hx
  have hids : ∀ {i j}, W.ids u i → W.ids v j → j ≠ i := by
    rintro i _ hi hj rfl
    exact hv (W.ids_apart hi hj)
  cases t with
  | users | userSettings =>
    obtain rfl := Option.some.inj hru
    obtain rfl := Option.some.inj hxv
    exact ⟨hv, rfl⟩
  | exchangeRates => cases hru
  | idempotencyKeys =>
    refine ⟨fun hkey => hv ?_, decide_eq_false (hids hrf hxf)⟩
    exact (Option.some.inj hxv).symm.trans ((Prod.mk.inj hkey).1.trans (Option.some.inj hru))
  | activityLog => exact ⟨hids hrf.1 hxf.1, rfl⟩
  | bankAccounts | categories | hashtags =>
    refine ⟨hids hrf hxf, decide_eq_false fun h => hv ?_⟩
    exact (Option.some.inj hxv).symm.trans (h.2.2.1.trans (Option.some.inj hru))
  | reconciliations => exact ⟨hids hrf.1 hxf.1, rfl⟩
  | transactionInbox => exact ⟨hids hrf.1 hxf.1, rfl⟩
  | transactions => exact ⟨hids hrf.1 hxf.1, rfl⟩
  | transactionHashtags =>
    exact ⟨fun hkey => hids hrf.1 hxf.1 (Prod.mk.inj hkey).1, rfl⟩
  | personalAccessTokens =>
    refine ⟨hids hrf.1 hxf.1, decide_eq_false fun h => hv (W.hashes_apart hrf.2 ?_)⟩
    rw [← h]
    exact hxf.2

/-- A reference that may be missing. -/
theorem all_id {t : Tbl} (h : W.tenancy.Alike u db db') {f : Row t → Uuid}
    (hf : ∀ v x, W.tenancy.Owned v t x → W.ids v (f x)) {o : Option Uuid}
    (ho : ∀ i, o = some i → W.ids u i) :
    (o.all fun i => (db.rows t).any fun x => decide (f x = i)) =
      o.all fun i => (db'.rows t).any fun x => decide (f x = i) := by
  cases o with
  | none => rfl
  | some i => exact any_id h hf (ho i rfl)

theorem refs_eq (h : W.tenancy.Alike u db db') {t : Tbl} {r : Row t}
    (hr : W.tenancy.Owned u t r) : refsOf db.rows t r = refsOf db'.rows t r := by
  obtain ⟨hru, hrf⟩ := hr
  have huser := any_user h
  have haccount : ∀ v (x : Row .bankAccounts), W.tenancy.Owned v .bankAccounts x →
      W.ids v x.id := fun _ _ hx => hx.2
  have hcategory : ∀ v (x : Row .categories), W.tenancy.Owned v .categories x →
      W.ids v x.id := fun _ _ hx => hx.2
  cases t with
  | users => rfl
  | exchangeRates => rfl
  | userSettings | idempotencyKeys | bankAccounts | categories | hashtags |
      personalAccessTokens =>
    obtain rfl := Option.some.inj hru
    simp only [refsOf, huser]
  | activityLog =>
    obtain rfl := Option.some.inj hru
    simp only [refsOf, hrf.2, huser]
  | reconciliations =>
    obtain rfl := Option.some.inj hru
    simp only [refsOf, huser, any_id h haccount hrf.2]
  | transactionInbox =>
    obtain rfl := Option.some.inj hru
    obtain ⟨-, ha, hc⟩ := hrf
    simp only [refsOf, huser, all_id h haccount ha, all_id h hcategory hc]
  | transactions =>
    obtain rfl := Option.some.inj hru
    obtain ⟨-, ha, hc, hi, hrec⟩ := hrf
    simp only [refsOf, huser, any_id h haccount ha, any_id h hcategory hc,
      all_id h (t := .transactionInbox) (f := fun x => x.id) (fun _ _ hx => hx.2.1) hi,
      all_id h (t := .reconciliations) (f := fun x => x.id) (fun _ _ hx => hx.2.1) hrec]
  | transactionHashtags =>
    obtain rfl := Option.some.inj hru
    simp only [refsOf, huser,
      any_id h (t := .hashtags) (f := fun x => x.id) (fun _ _ hx => hx.2) hrf.2]

end TerritoryLemmas

open TerritoryLemmas

/-- Territories keep the rows of two users apart, with their keys, unique indexes
and foreign keys. -/
theorem Territory.lawful (W : Territory) : W.tenancy.Lawful where
  shared t x r hx := by
    cases t with
    | exchangeRates => rfl
    | _ => cases hx
  apart hr hx hv := apart W hr hx hv
  refs h hr := refs_eq h hr

end Lawful

end ExpenseEngine
