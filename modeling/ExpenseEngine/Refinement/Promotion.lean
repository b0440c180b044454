import ExpenseEngine.Refinement.Tags

/-!
# A promotion moves its draft

A promotion writes one ledger row and closes one draft. The tags go from one
parent of the junction table to another, which may have the same id: the source
alone keeps their links apart.

Results:
1. `linkOf_promoted`: every link after a promotion.
2. `balanceOf_append`: one more ledger row moves one balance, by its amount.
3. `promotion_moves_draft`: in every run.
-/

namespace ExpenseEngine

open Sql Sql.Prog

section Promotion

open ReadinessLemmas TagLemmas

variable [Platform] {db db' : Db} {env : Env} {userId targetId p : Uuid}
  {source : TransactionSource} {ids : List Uuid}

/-! ## The links -/

namespace PromotionLemmas

theorem linkOf_congr (h : db' .transactionHashtags = db .transactionHashtags) {x : Uuid} :
    linkOf db' p source x = linkOf db p source x := by
  rw [linkOf, linkOf, h]

theorem hashtagIdsOf_rows (h : db' .transactionHashtags = db .transactionHashtags) :
    hashtagIdsOf db' p source = hashtagIdsOf db p source := by
  rw [hashtagIdsOf, hashtagIdsOf, Sql.Db.rows, Sql.Db.rows, h]

/-- `if hashtag_ids: sync_hashtags(…)` on a parent that has no links yet. -/
theorem hashtagIdsOf_tagged {x : Uuid} (hfree : ∀ l ∈ db.rows .transactionHashtags,
    ¬(l.transactionId = p ∧ l.transactionSource = source)) :
    x ∈ hashtagIdsOf (db.tagged env p userId source ids) p source ↔ x ∈ ids := by
  unfold Db.tagged
  split
  · next hnil =>
    subst hnil
    refine iff_of_false (fun hx => ?_) (List.not_mem_nil)
    obtain ⟨l, hl, -⟩ := mem_hashtagIdsOf.mp hx
    obtain ⟨hmem, hp, hs, -⟩ := linkOf_eq_some.mp hl
    exact hfree l hmem ⟨hp, hs⟩
  · exact tags_synced fun l hl hp hs => absurd ⟨hp, hs⟩ (hfree l hl)

theorem linkOf_tagged_of_ne {q : Uuid} {source' : TransactionSource} {x : Uuid}
    (hq : (q, source') ≠ (p, source)) :
    linkOf (db.tagged env p userId source ids) q source' x = linkOf db q source' x := by
  unfold Db.tagged
  split
  · rfl
  · exact others_synced hq

/-- A cascade over all of the tags leaves none. -/
theorem hashtagIdsOf_cascaded (howned : ∀ l ∈ db.rows .transactionHashtags,
    l.transactionId = p → l.transactionSource = source → l.userId = userId) :
    hashtagIdsOf (db.cascaded env userId p source []) p source = [] := by
  refine List.eq_nil_iff_forall_not_mem.mpr fun x hx => ?_
  obtain ⟨l, hl, hlive⟩ := mem_hashtagIdsOf.mp hx
  exact linkOf_cascaded_live howned List.not_mem_nil hl hlive

end PromotionLemmas

open PromotionLemmas

section Promoted

variable {d : Row .transactionInbox} {ty : TransactionType}

/-- The links of the draft are dropped, those of its ledger row are written, and
no other link changes. -/
theorem linkOf_promoted {q : Uuid} {source' : TransactionSource} {x : Uuid}
    (hq : (q, source') ≠ (targetId, .ledger)) (hd : (q, source') ≠ (d.id, .inbox)) :
    linkOf (db.promoted env userId d.id targetId d ty) q source' x = linkOf db q source' x := by
  refine (linkOf_cascaded_of_ne hd).trans ((linkOf_congr (Db.modify_ne _ _ _ (by simp))).trans ?_)
  exact (linkOf_tagged_of_ne hq).trans (linkOf_congr (Db.put_ne _ _ (by simp)))

namespace PromotionLemmas

/-- The ledger row has the tags of the draft, though both may have one id. -/
theorem hashtagIdsOf_target (hfree : ∀ l ∈ db.rows .transactionHashtags,
    ¬(l.transactionId = targetId ∧ l.transactionSource = .ledger)) :
    hashtagIdsOf (db.promoted env userId d.id targetId d ty) targetId .ledger =
      hashtagIdsOf db d.id .inbox := by
  refine hashtagIdsOf_eq fun x => ?_
  have hcascade : linkOf (db.promoted env userId d.id targetId d ty) targetId .ledger x =
      linkOf (Db.tagged env targetId userId .ledger (hashtagIdsOf db d.id .inbox)
        (db.put .transactions (promotedRow env userId targetId d ty))) targetId .ledger x :=
    (linkOf_cascaded_of_ne (by simp)).trans (linkOf_congr (Db.modify_ne _ _ _ (by simp)))
  rw [mem_hashtagIdsOf, hcascade, ← mem_hashtagIdsOf]
  exact hashtagIdsOf_tagged (by simpa [Sql.Db.rows] using hfree)

theorem hashtagIdsOf_draft (howned : ∀ l ∈ db.rows .transactionHashtags,
    l.transactionId = d.id → l.transactionSource = .inbox → l.userId = userId) :
    hashtagIdsOf (db.promoted env userId d.id targetId d ty) d.id .inbox = [] := by
  refine hashtagIdsOf_cascaded fun l hl hp hs => ?_
  -- the links of the draft are still the ones it had
  have hlink : linkOf (Db.tagged env targetId userId .ledger (hashtagIdsOf db d.id .inbox)
      (db.put .transactions (promotedRow env userId targetId d ty))) d.id .inbox l.hashtagId =
      some l := by
    refine linkOf_eq_some.mpr ⟨?_, hp, hs, rfl⟩
    rwa [Db.rows_modify_ne _ _ _ (by simp)] at hl
  rw [linkOf_tagged_of_ne (by simp), linkOf_congr (Db.put_ne _ _ (by simp))] at hlink
  exact howned l (linkOf_eq_some.mp hlink).1 hp hs

end PromotionLemmas

end Promoted

/-! ## The balances -/

/-- One more ledger row moves the balance of its account, by its signed amount. -/
theorem balanceOf_append {r : Row .transactions}
    (hrows : db'.rows .transactions = db.rows .transactions ++ [r]) (u a : Uuid) :
    balanceOf db' u a = balanceOf db u a +
      if r.userId = u ∧ r.deletedAt = none ∧ r.accountId = a then
        signedCents r.transactionType r.amountCents
      else 0 := by
  rw [balanceOf, balanceOf, hrows, List.filter_append, List.map_append, List.sum_append,
    List.filter_singleton]
  by_cases h : r.userId = u ∧ r.deletedAt = none ∧ r.accountId = a
  · simp [h]
  · simp [h]

/-! ## The ledger row -/

/-- The ledger row carries what the draft says. -/
structure Carries (d : Row .transactionInbox) (t : Row .transactions) : Prop where
  amount : d.amountCents = some t.amountCents
  direction : d.transactionType = some t.transactionType
  title : d.title = some t.title
  description : d.description = t.description
  date : d.date = some t.date
  account : d.accountId = some t.accountId
  category : d.categoryId = some t.categoryId
  inbox : t.inboxId = some d.id

namespace PromotionLemmas

omit [Platform] in
/-- None of the defaults is used. -/
theorem carries_promotedRow {d : Row .transactionInbox} {ty : TransactionType}
    {now : Timestamp} {account : Option (Row .bankAccounts)} {category : Option (Row .categories)}
    (herrors : promoteErrors now d account category = []) (hty : d.transactionType = some ty)
    (haccount : d.accountId.isSome) (hcategory : d.categoryId.isSome) :
    Carries d (promotedRow env userId targetId d ty) := by
  simp only [promoteErrors, List.append_eq_nil_iff, ite_eq_right_iff, List.cons_ne_self,
    imp_false, not_or] at herrors
  obtain ⟨⟨⟨⟨⟨htitle, -⟩, hamount⟩, hdate⟩, -⟩, -⟩ := herrors
  have hsome : ∀ {α : Type} {o : Option α} {a : α}, o.isSome → o = some (o.getD a) := by
    intro α o a ho
    obtain ⟨x, rfl⟩ := Option.isSome_iff_exists.mp ho
    rfl
  refine ⟨hsome ?_, hty, hsome ?_, rfl, hsome ?_, hsome haccount, hsome hcategory, rfl⟩
  · cases h : d.amountCents with
    | none => simp [h] at hamount
    | some n => rfl
  · cases h : d.title with
    | none => simp [h] at htitle
    | some s => rfl
  · cases h : d.date with
    | none => simp [h] at hdate
    | some t => rfl

end PromotionLemmas

/-! ## What a promotion does -/

/-- The draft became the ledger row `targetId`, and nothing else moved. -/
structure MovesDraft (env : Env) (userId targetId : Uuid) (d : Row .transactionInbox)
    (db db' : Db) : Prop where
  unused : ∀ t ∈ db.rows .transactions, t.id ≠ targetId
  ledger : ∃ t, db'.rows .transactions = db.rows .transactions ++ [t] ∧ t.id = targetId ∧
    t.userId = userId ∧ t.deletedAt = none ∧ Carries d t
  tags : hashtagIdsOf db' targetId .ledger = hashtagIdsOf db d.id .inbox
  closed : ∃ d' ∈ db'.rows .transactionInbox, d'.id = d.id ∧ d'.status = .promoted ∧
    d'.deletedAt = some env.now
  untagged : hashtagIdsOf db' d.id .inbox = []
  links : ∀ q source x, (q, source) ≠ (targetId, .ledger) → (q, source) ≠ (d.id, .inbox) →
    linkOf db' q source x = linkOf db q source x
  balances : ∀ u a, balanceOf db' u a = balanceOf db u a +
    if u = userId ∧ d.accountId = some a then
      (d.transactionType.elim 0 fun ty => signedCents ty (d.amountCents.getD 0))
    else 0

/-- In every run, a promotion that is accepted moves its draft. -/
theorem promotion_moves_draft {db₀ : Db} (hfresh : Fresh db₀) (calls : List Call)
    {d : Row .transactionInbox} (hd : d ∈ (run db₀ calls).rows .transactionInbox) {b : Body}
    (h : exec (promoteInboxItem env userId d.id targetId) (run db₀ calls) = .ok (b, db')) :
    MovesDraft env userId targetId d (run db₀ calls) db' := by
  set db := run db₀ calls with hdb
  have hdrafts := reachable_drafts hfresh calls
  obtain ⟨draft, ty, hp, hcore⟩ := exec_promoteInboxItem h
  obtain rfl : draft = d := EvolutionLemmas.eq_of_id hp.found hd hp.pending.1
  obtain ⟨-, rfl, -, -⟩ := hp.pending
  obtain ⟨-, herrors, -⟩ := (exec_promoteInboxItem_iff hd).mp h
  obtain ⟨a, ha, -⟩ := hp.account
  obtain ⟨c, hc, -⟩ := hp.category
  have hcarries : Carries draft (promotedRow env draft.userId targetId draft ty) :=
    carries_promotedRow herrors hp.direction (ha ▸ rfl) (hc ▸ rfl)
  have hunused : ∀ t ∈ db.rows .transactions, t.id ≠ targetId :=
    EvolutionLemmas.fresh_of_inserts hp.inserts
  -- the target has no links, and those of the draft are its user's
  have hfree : ∀ l ∈ db.rows .transactionHashtags,
      ¬(l.transactionId = targetId ∧ l.transactionSource = .ledger) := by
    rintro l hl ⟨hid, hsource⟩
    have hparent := hdrafts.owned l hl
    rw [hid, hsource] at hparent
    obtain ⟨t, ht, htid, -⟩ := hparent
    exact hunused t ht htid
  have htaggable : Taggable db draft.userId draft.id .inbox :=
    reachable_taggable hfresh calls ⟨draft, hd, rfl, rfl⟩
  have hlinks := hcore .transactionHashtags rfl
  have hrows : db'.rows .transactions =
      db.rows .transactions ++ [promotedRow env draft.userId targetId draft ty] := by
    rw [hcore.rows rfl, EvolutionLemmas.rows_promoted hp]
  refine ⟨hunused, ⟨_, hrows, rfl, rfl, rfl, hcarries⟩, ?_, ?_, ?_, ?_, ?_⟩
  · rw [hashtagIdsOf_rows hlinks, hashtagIdsOf_target hfree]
  · refine ⟨(bumped .transactionInbox env.now (setPromoted env)).apply draft, ?_, rfl, rfl, rfl⟩
    rw [hcore.rows rfl]
    exact mem_promoted hd
  · rw [hashtagIdsOf_rows hlinks, hashtagIdsOf_draft htaggable.owned]
  · intro q source x hq hne
    rw [linkOf_congr hlinks, linkOf_promoted hq hne]
  · intro u a
    rw [balanceOf_append hrows, hp.direction, ha, hcarries.amount]
    refine congrArg _ (if_congr ?_ rfl rfl)
    show draft.userId = u ∧ none = none ∧ draft.accountId.getD 0 = a ↔ _
    simp [ha, eq_comm]

end Promotion

namespace Ascii

/-- A draft of a taxi ride, the row 61, that carries the hashtag 50. -/
def ride : List Call := tagging ++ [
  callAt 7 (.createInboxItem
    ⟨61, some "Taxi".toList, none, some (-900), some 5, some 10, some 20, [50]⟩)]

def rideRow : Row .transactionInbox :=
  ({ id := 61, userId := 1, createdAt := 7, updatedAt := 7, version := 1, deletedAt := none
     title := some "Taxi".toList, description := none, amountCents := some 900
     transactionType := some .outflow, date := some 5, accountId := some 10, categoryId := some 20
     status := .pending } : InboxRow)

end Ascii

open Ascii in
/-- The ride moves into the ledger under the id of its draft. -/
theorem promotion_moves_draft_ride : ∃ b db',
    exec (promoteInboxItem (envAt 8) 1 61 61) (run blank ride) = .ok (b, db') ∧
      MovesDraft (envAt 8) 1 61 rideRow (run blank ride) db' := by
  have hok : (exec (promoteInboxItem (envAt 8) 1 61 61) (run blank ride)).isOk = true := by
    decide +kernel
  have hdraft : rideRow ∈ (run blank ride).rows .transactionInbox := by decide +kernel
  cases h : exec (promoteInboxItem (envAt 8) 1 61 61) (run blank ride) with
  | error e =>
    rw [h] at hok
    cases hok
  | ok x => exact ⟨x.1, x.2, rfl, promotion_moves_draft fresh_blank ride hdraft h⟩

end ExpenseEngine
