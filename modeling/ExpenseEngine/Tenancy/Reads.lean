import ExpenseEngine.Lookups
import ExpenseEngine.Sql.Grouping
import ExpenseEngine.Tenancy.Requests

/-!
# Every read keeps to its user

A list names the user in its conditions, and what it joins with a row it has
found is found by an id of that row. The stored rates are the same for
everybody.

Results:
1. `confined_computeMonthFlow`: a month of the ledger in the home currency.
2. `confined_answer`: every reading endpoint.
-/

namespace ExpenseEngine

open Sql Sql.Prog TenantLemmas TenantStatements TenantRequests

section Reads

variable [Platform] {W : Territory} {env : Env} {userId : Uuid} {db db' : Db}

namespace TenantReads

/-! ## Pages -/

/-- Conditions that name the user pick the same rows, when they agree on the rows
of the user. -/
theorem filter_conditions {t : Tbl} {p : Db → Row t → Bool}
    (h : W.tenancy.Alike userId db db')
    (howner : ∀ db r, p db r = true → ownerOf t r = some userId)
    (hcongr : ∀ r, W.tenancy.Owned userId t r → p db' r = p db r) :
    (db'.rows t).filter (p db') = (db.rows t).filter (p db) := by
  rw [h.filter_eq (skips_of_owner (howner db'))]
  refine List.filter_congr fun r hr => ?_
  by_cases hr' : ownerOf t r = some userId
  · exact hcongr r (owned_of_mem h.left hr hr')
  · rw [Bool.eq_iff_iff]
    exact ⟨fun hc => absurd (howner db' r hc) hr', fun hc => absurd (howner db r hc) hr'⟩

theorem confined_listPage {t : Tbl} {conditions : Db → Row t → Bool}
    {orderBy : Row t → Row t → Prop} [DecidableRel orderBy] {limit offset : Nat}
    (hrows : ∀ db db', W.tenancy.Alike userId db db' →
      (db'.rows t).filter (conditions db') = (db.rows t).filter (conditions db)) :
    (listPage t conditions orderBy limit offset).Confined W.tenancy userId
      fun p => ∃ db, W.tenancy.Partitioned db ∧
        ∀ r ∈ p.1, r ∈ db.rows t ∧ conditions db r = true := by
  refine confined_bind (φ := fun _ => True) (confined_read (fun db db' h => ?_)
    fun _ _ => trivial) fun total _ => ?_
  · exact congrArg List.length (hrows db db' h)
  refine confined_bind (confined_read (fun db db' h => ?_) fun db hdb => ?_) fun rows hrows' =>
    confined_pure hrows'
  · rw [hrows db db' h]
  · refine ⟨db, hdb, fun r hr => ?_⟩
    have hmem := List.mem_of_mem_drop (List.mem_of_mem_take hr)
    exact List.mem_filter.mp ((List.mem_insertionSort _).mp hmem)

/-- A page of the user's rows. -/
theorem confined_ownPage {t : Tbl} {conditions : Db → Row t → Bool}
    {orderBy : Row t → Row t → Prop} [DecidableRel orderBy] {limit offset : Nat}
    (howner : ∀ db r, conditions db r = true → ownerOf t r = some userId)
    (hcongr : ∀ db db', W.tenancy.Alike userId db db' → ∀ r, W.tenancy.Owned userId t r →
      conditions db' r = conditions db r) :
    (listPage t conditions orderBy limit offset).Confined W.tenancy userId
      fun p => ∀ r ∈ p.1, W.tenancy.Owned userId t r := by
  refine (confined_listPage fun db db' h => filter_conditions h howner (hcongr db db' h)).mono
    fun p hp r hr => ?_
  obtain ⟨db, hdb, hrows⟩ := hp
  obtain ⟨hr, hcond⟩ := hrows r hr
  exact owned_of_mem hdb hr (howner db r hcond)

omit [Platform] in
theorem owner_of_first {t : Tbl} {owner : Row t → Uuid} (hown : ∀ r, ownerOf t r = some (owner r))
    {q : Bool} {r : Row t} (h : (decide (owner r = userId) && q) = true) :
    ownerOf t r = some userId := by
  rw [Bool.and_eq_true] at h
  rw [hown, of_decide_eq_true h.1]

/-! ## Lists -/

theorem confined_collectionPage {t : Tbl} [OwnedTable t] [TenantTable t] {includeDeleted : Bool}
    {orderBy : Row t → Row t → Prop} [DecidableRel orderBy] {limit offset : Nat} :
    (listPage t (collectionConditions t userId includeDeleted) orderBy limit offset).Confined
      W.tenancy userId fun _ => True :=
  confined_any (confined_ownPage (fun _ _ h => owner_of_first TenantTable.owner h)
    fun _ _ _ _ _ => rfl)

theorem any_owned {t : Tbl} (h : W.tenancy.Alike userId db db') {q : Row t → Bool}
    {f : Row t → Uuid}
    {i : Uuid} (hf : ∀ v x, W.tenancy.Owned v t x → W.ids v (f x)) (hi : W.ids userId i)
    (hq : ∀ x, q x = true → f x = i) : (db'.rows t).any q = (db.rows t).any q := by
  refine h.any_eq fun v x hv hx => ?_
  by_contra hne
  rw [Bool.not_eq_false] at hne
  exact hv (W.ids_apart hi (hq x hne ▸ hf v x hx))

/-- The account and the category of one's own draft are one's own. -/
theorem isReady_eq (h : W.tenancy.Alike userId db db') {now : Timestamp}
    {i : Row .transactionInbox} (hi : W.tenancy.Owned userId .transactionInbox i) :
    isReady now db' i = isReady now db i := by
  obtain ⟨-, -, hacc, hcat⟩ := hi
  unfold isReady
  congr 1
  · congr 1
    refine h.any_eq fun v a hv ha => decide_eq_false fun hw => hv ?_
    exact W.ids_apart (hacc _ hw.1) ha.2
  · congr 1
    refine h.any_eq fun v c hv hc => decide_eq_false fun hw => hv ?_
    exact W.ids_apart (hcat _ hw.1) hc.2

theorem confined_applyInboxDebit {data : InboxResponse} :
    (applyInboxDebit data).Confined W.tenancy userId fun _ => True := by
  unfold applyInboxDebit
  split
  · exact confined_bind (confined_any confined_orRaise) fun _ _ => trivial
  · trivial

theorem confined_listInbox {ready overdue includeDeleted debitAsNegative : Bool}
    {limit offset : Nat} :
    (listInbox env userId ready overdue includeDeleted debitAsNegative limit offset).Confined
      W.tenancy userId fun _ => True := by
  unfold listInbox
  refine confined_bind (confined_ownPage (fun db r hr => ?_) fun db db' h r hr => ?_)
    fun p hp => ?_
  · simp only [inboxConditions, Bool.and_eq_true, decide_eq_true_eq] at hr
    exact congrArg some hr.1.1.1.1
  · rw [inboxConditions, inboxConditions, isReady_eq h hr]
  · refine confined_bind (φ := fun _ => True) (confined_read (fun db db' h => ?_)
      fun _ _ => trivial) fun data _ => ?_
    · refine List.map_congr_left fun row hrow => ?_
      rw [hashtagIdsOf_alike h (hp row hrow).2.1]
    · split
      · refine confined_bind (confined_any (confined_mapM fun _ _ => confined_applyInboxDebit)) ?_
        exact fun _ _ => trivial
      · exact confined_pure trivial

theorem confined_getInboxItem {id : Uuid} {debitAsNegative : Bool} :
    (getInboxItem userId id debitAsNegative).Confined W.tenancy userId fun _ => True := by
  unfold getInboxItem
  refine confined_bind confined_fetchOwnedRowOr404 fun row hrow => ?_
  refine confined_bind (confined_attachInboxHashtagIds (id_of_owned hrow.2)) fun data _ => ?_
  split
  · exact confined_bind confined_applyInboxDebit fun _ _ => trivial
  · exact confined_pure trivial

/-- The hashtags of one's own transaction are one's own links. -/
theorem transactionConditions_eq [CaseFolding] (h : W.tenancy.Alike userId db db')
    {filters : TransactionFilters} {t : Row .transactions}
    (ht : W.tenancy.Owned userId .transactions t) :
    transactionConditions userId filters db' t = transactionConditions userId filters db t := by
  have hlinks : ∀ x, ((db'.rows .transactionHashtags).any fun l =>
        decide (l.transactionId = t.id ∧ l.hashtagId = x ∧ l.transactionSource = .ledger ∧
          l.deletedAt = none)) =
      (db.rows .transactionHashtags).any fun l =>
        decide (l.transactionId = t.id ∧ l.hashtagId = x ∧ l.transactionSource = .ledger ∧
          l.deletedAt = none) := fun x =>
    any_owned h (f := fun l => l.transactionId) (fun _ _ hl => hl.2.1) ht.2.1
      fun l hl => (of_decide_eq_true hl).1
  simp only [transactionConditions, hlinks]

theorem confined_listTransactions [CaseFolding] {filters : TransactionFilters}
    {debitAsNegative : Bool} {limit offset : Nat} :
    (listTransactions userId filters debitAsNegative limit offset).Confined W.tenancy userId
      fun _ => True := by
  unfold listTransactions
  refine confined_bind (confined_ownPage (fun db r hr => ?_)
    fun db db' h r hr => transactionConditions_eq h hr) fun p hp => ?_
  · simp only [transactionConditions, Bool.and_eq_true, decide_eq_true_eq] at hr
    exact congrArg some hr.1.1.1.1.1.1.1.1
  · exact confined_bind (confined_attachHashtagIdsAll fun row hrow => (hp row hrow).2.1)
      fun _ _ => trivial

theorem confined_getTransaction {id : Uuid} {debitAsNegative : Bool} :
    (getTransaction userId id debitAsNegative).Confined W.tenancy userId fun _ => True := by
  unfold getTransaction
  refine confined_bind confined_fetchOwnedRowOr404 fun row hrow => ?_
  exact confined_bind (confined_attachHashtagIds (id_of_owned hrow.2)) fun _ _ => trivial

/-! ## Accounts -/

theorem confined_batchGetRates {currencies : List Text} {target : Text} {asOf : Date} :
    (batchGetRates env currencies target asOf).Confined W.tenancy userId fun _ => True := by
  refine confined_bind (confined_any (confined_mapM (ψ := fun _ => True) fun currency _ => ?_))
    fun _ _ => trivial
  exact confined_map (confined_any confined_getRate)

theorem confined_fetchHomeBalances {mainCurrency : Text} {today : Date}
    {balances : List (Uuid × Int)} {currencies : List (Uuid × Text)} :
    (fetchHomeBalances env mainCurrency today balances currencies).Confined W.tenancy userId
      fun _ => True := by
  refine confined_bind confined_batchGetRates fun rates _ => ?_
  refine confined_any (confined_mapM (ψ := fun _ => True) fun b _ => ?_)
  exact confined_map (confined_any confined_convertBalance)

theorem confined_listAccounts {includePeople includeArchived includeDeleted : Bool}
    {limit offset : Nat} :
    (listAccounts env userId includePeople includeArchived includeDeleted limit offset).Confined
      W.tenancy userId fun _ => True := by
  unfold listAccounts
  refine confined_bind (confined_ownPage (fun db r hr => ?_) fun _ _ _ _ _ => rfl) fun p _ => ?_
  · simp only [accountConditions, Bool.and_eq_true, decide_eq_true_eq] at hr
    exact congrArg some hr.1.1.1
  · refine confined_bind confined_getUserReportSettings fun settings _ => ?_
    refine confined_bind confined_fetchBalances fun balances _ => ?_
    exact confined_bind confined_fetchHomeBalances fun homes _ => trivial

theorem confined_getAccount {id : Uuid} :
    (getAccount env userId id).Confined W.tenancy userId fun _ => True := by
  refine confined_bind confined_fetchOwnedRowOr404 fun row _ => ?_
  exact confined_bind confined_fetchBothBalances fun _ _ => trivial

theorem confined_loadAccounts [Locale] {mainCurrency : Text} {today : Date}
    {isPerson archived : Bool} :
    (loadAccounts env userId mainCurrency today isPerson archived).Confined W.tenancy userId
      fun _ => True := by
  refine confined_bind (φ := fun _ => True) (confined_read (fun db db' h => ?_)
    fun _ _ => trivial) fun rows _ => ?_
  · have hskips : W.tenancy.Skips userId .bankAccounts fun a => decide (a.userId = userId ∧
        a.deletedAt = none ∧ a.isPerson = isPerson ∧ a.isArchived = archived) :=
      skips_of_owner fun a ha => congrArg some (of_decide_eq_true ha).1
    rw [h.filter_eq hskips]
  · refine confined_bind confined_fetchBalances fun balances _ => ?_
    exact confined_bind confined_fetchHomeBalances fun homes _ => trivial

/-! ## Reconciliations -/

theorem confined_listReconciliations {accountId : Option Uuid} {includeDeleted : Bool}
    {limit offset : Nat} :
    (listReconciliations userId accountId includeDeleted limit offset).Confined W.tenancy userId
      fun _ => True := by
  have howner : ∀ r : Row .reconciliations,
      reconciliationConditions userId accountId includeDeleted r = true →
        ownerOf .reconciliations r = some userId := by
    intro r hr
    simp only [reconciliationConditions, Bool.and_eq_true, decide_eq_true_eq] at hr
    exact congrArg some hr.1.1
  unfold listReconciliations
  refine confined_bind (φ := fun _ => True) (confined_read (fun db db' h => ?_)
    fun _ _ => trivial) fun total _ => ?_
  · rw [h.filter_eq (skips_of_owner howner)]
  refine confined_bind (φ := fun _ => True) (confined_read (fun db db' h => ?_)
    fun _ _ => trivial) fun p _ => ?_
  · rw [h.filter_eq (skips_of_owner howner)]
    generalize hpage : ((((db.rows .reconciliations).filter
      (reconciliationConditions userId accountId includeDeleted)).insertionSort
        fun r s => reconciliationLe accountId r s).drop offset).take limit = page
    have hmembers : ∀ rec ∈ page, membersOf db' rec = membersOf db rec := by
      intro rec hrec
      rw [← hpage] at hrec
      have hmem := List.mem_of_mem_drop (List.mem_of_mem_take hrec)
      obtain ⟨-, hcond⟩ := List.mem_filter.mp ((List.mem_insertionSort _).mp hmem)
      exact membersOf_eq h (Option.some.inj (howner rec hcond))
    refine Prod.ext (List.map_congr_left fun rec hrec => ?_) ?_
    · simp only [differenceCents, hmembers rec hrec]
    · dsimp only
      rw [Bool.eq_iff_iff, List.all_eq_true, List.all_eq_true]
      refine forall₂_congr fun rec hrec => ?_
      simp only [differenceInRange, differenceCents, hmembers rec hrec]
  · dsimp only
    split <;> trivial

theorem confined_getReconciliation {id : Uuid} {debitAsNegative : Bool} {limit offset : Nat} :
    (getReconciliation userId id debitAsNegative limit offset).Confined W.tenancy userId
      fun _ => True := by
  unfold getReconciliation
  refine confined_bind confined_fetchReconciliation fun o _ => ?_
  refine confined_bind (confined_any confined_orRaise) fun recon _ => ?_
  refine confined_bind (confined_ownPage (fun _ _ => owner_of_isMember) fun _ _ _ _ _ => rfl)
    fun p hp => ?_
  exact confined_bind (confined_attachHashtagIdsAll fun row hrow => (hp row hrow).2.1)
    fun _ _ => trivial

/-! ## The month -/

section Month

variable [Locale]

/-- The account of one's own transaction is one's own, and the rates are
everybody's. -/
theorem homeCents_eq (h : W.tenancy.Alike userId db db') {tz : Text} {t : Row .transactions}
    (ht : W.tenancy.Owned userId .transactions t) : homeCents db' tz t = homeCents db tz t := by
  have haccount : accountJoin db' t = accountJoin db t := by
    refine h.find?_eq fun v a hv ha => decide_eq_false fun hid => hv ?_
    exact W.ids_apart ht.2.2.1 (hid ▸ ha.2)
  have hrate : ∀ currency day, storedRate db' currency day = storedRate db currency day := by
    intro currency day
    rw [storedRate, storedRate, h.filter_eq skips_rates]
  simp only [homeCents, homeRateJoin, haccount, hrate]

omit [Locale] in
theorem monthRows_eq (h : W.tenancy.Alike userId db db') {startUtc endUtc : Timestamp} :
    monthRows db' userId startUtc endUtc = monthRows db userId startUtc endUtc := by
  refine filter_conditions h (p := fun db => isInMonth db userId startUtc endUtc)
    (fun db r hr => ?_) fun t ht => ?_
  · rw [isInMonth, Bool.and_eq_true, decide_eq_true_eq] at hr
    exact congrArg some hr.1.1
  · unfold isInMonth
    congr 2
    exact any_owned h (f := fun c => c.id) (fun _ _ hc => hc.2) ht.2.2.2.1
      fun c hc => (of_decide_eq_true hc).1

omit [Locale] in
theorem owned_of_monthRows (hdb : W.tenancy.Partitioned db) {startUtc endUtc : Timestamp}
    {t : Row .transactions} (ht : t ∈ monthRows db userId startUtc endUtc) :
    W.tenancy.Owned userId .transactions t := by
  obtain ⟨ht, hmonth⟩ := List.mem_filter.mp ht
  rw [isInMonth, Bool.and_eq_true, decide_eq_true_eq] at hmonth
  exact owned_of_mem hdb ht (congrArg some hmonth.1.1)

theorem confined_fetchSignedTxns {startUtc endUtc : Timestamp} {tz : Text} :
    (fetchSignedTxns userId startUtc endUtc tz).Confined W.tenancy userId fun _ => True := by
  unfold fetchSignedTxns
  refine confined_bind (φ := fun _ => True) (confined_read (fun db db' h => ?_)
    fun _ _ => trivial) fun txns _ => ?_
  · rw [monthRows_eq h]
    refine mapM_congr_left fun t ht => ?_
    have howned := owned_of_monthRows h.left ht
    simp only [signedTxn, signedHomeCents, unconvertibleFlag, homeCents_eq h howned,
      hashtagIdsOf_alike h howned.2.1]
  · cases txns <;> trivial

/-- A month of the ledger in the home currency. -/
theorem confined_computeMonthFlow {startUtc endUtc : Timestamp} {tz : Text} :
    (computeMonthFlow userId startUtc endUtc tz).Confined W.tenancy userId fun _ => True := by
  unfold computeMonthFlow
  refine confined_bind (φ := fun _ => True) (confined_read (fun db db' h => ?_)
    fun _ _ => trivial) fun rows _ => ?_
  · have hskips : W.tenancy.Skips userId .categories fun c => decide (c.userId = userId ∧
        c.deletedAt = none ∧ c.systemKey ≠ some .openingBalance) :=
      skips_of_owner fun c hc => congrArg some (of_decide_eq_true hc).1
    rw [reportCategories, reportCategories, h.filter_eq hskips]
  refine confined_bind confined_fetchSignedTxns fun breakdownTxns _ => ?_
  split
  · refine confined_bind (confined_any confined_orRaise) fun breakdowns _ => ?_
    refine confined_bind (confined_any confined_orRaise) fun categories _ => ?_
    refine confined_bind confined_fetchSignedTxns fun totalsTxns _ => ?_
    split <;> trivial
  · trivial

theorem confined_getDashboard {thisMonth : Text → Int × Int} {includeArchived : Bool} :
    (getDashboard env thisMonth userId includeArchived).Confined W.tenancy userId
      fun _ => True := by
  unfold getDashboard
  refine confined_bind confined_getUserReportSettings fun settings _ => ?_
  refine confined_bind (confined_any confined_orRaise) fun bounds _ => ?_
  refine confined_bind confined_loadAccounts fun bankAccounts _ => ?_
  refine confined_bind confined_loadAccounts fun people _ => ?_
  refine confined_bind confined_computeMonthFlow fun flow _ => ?_
  refine confined_bind (φ := fun _ => True) ?_ fun _ _ => trivial
  unfold loadArchived
  split
  · refine confined_bind confined_loadAccounts fun accounts _ => ?_
    exact confined_bind confined_loadAccounts fun people _ => trivial
  · trivial

theorem confined_computeOne {tz : Text} {year month : Int} :
    (computeOne userId tz year month).Confined W.tenancy userId fun _ => True := by
  refine confined_bind (confined_any confined_orRaise) fun bounds _ => ?_
  exact confined_bind confined_computeMonthFlow fun flow _ => trivial

theorem confined_getMonthlyReport {q : MonthlyReportQuery} :
    (getMonthlyReport userId q).Confined W.tenancy userId fun _ => True := by
  unfold getMonthlyReport
  split
  · trivial
  · refine confined_bind confined_getUserReportSettings fun settings _ => ?_
    dsimp only
    split
    · exact confined_map (confined_any confined_computeOne)
    · split
      · trivial
      · exact confined_map (confined_any (confined_mapM fun _ _ => confined_computeOne))
    · trivial

end Month

/-! ## Rates -/

theorem confined_rateLookupDate {date : Option Date} :
    (rateLookupDate env userId date).Confined W.tenancy userId fun _ => True := by
  cases date with
  | some d => trivial
  | none => exact confined_bind (confined_fetchRow fun _ => owner_of_settings) fun _ _ => trivial

theorem confined_getExchangeRate {base target : Text} {date : Option Date} :
    (getExchangeRate env userId base target date).Confined W.tenancy userId fun _ => True := by
  unfold getExchangeRate
  refine confined_bind confined_check fun _ _ => ?_
  refine confined_bind confined_rateLookupDate fun targetDate _ => ?_
  refine confined_bind confined_getRate fun result _ => ?_
  exact confined_bind (confined_any confined_orRaise) fun found _ => trivial

theorem confined_listExchangeRateHistory [Locale] {date : Option Date} {limit offset : Nat} :
    (listExchangeRateHistory date limit offset).Confined W.tenancy userId fun _ => True := by
  unfold listExchangeRateHistory
  refine confined_bind (confined_any (confined_listPage fun db db' h => ?_)) fun _ _ => trivial
  exact h.filter_eq skips_rates

/-! ## The user -/

theorem confined_me : (me userId).Confined W.tenancy userId fun _ => True := by
  refine confined_bind (confined_fetchRow fun _ => owner_of_user) fun o _ => ?_
  refine confined_bind (confined_any confined_orRaise) fun userRow _ => ?_
  refine confined_bind (confined_fetchRow fun _ => owner_of_settings) fun o _ => ?_
  exact confined_bind (confined_any confined_orRaise) fun settingsRow _ => trivial

theorem confined_listActivity {resourceType : Option String} {resourceId : Option Uuid}
    {limit offset : Nat} :
    (listActivity userId resourceType resourceId limit offset).Confined W.tenancy userId
      fun _ => True := by
  unfold listActivity
  refine confined_bind (confined_ownPage (fun db r hr => ?_) fun _ _ _ _ _ => rfl) fun _ _ =>
    trivial
  rw [activityConditions, Bool.and_assoc, Bool.and_eq_true, decide_eq_true_eq] at hr
  exact congrArg some hr.1

end TenantReads

open TenantReads

/-- Every reading endpoint keeps to its user. -/
theorem confined_answer [Locale] [CaseFolding] {q : ReadRequest} :
    (q.answer env userId).Confined W.tenancy userId fun _ => True := by
  cases q with
  | me => exact confined_map confined_me
  | listAccounts => exact confined_map confined_listAccounts
  | getAccount => exact confined_map confined_getAccount
  | listCategories =>
    exact confined_map (confined_bind confined_collectionPage fun _ _ => confined_pure trivial)
  | getCategory => exact confined_map (confined_bind confined_fetchOwnedRowOr404 fun _ _ => trivial)
  | listHashtags =>
    exact confined_map (confined_bind confined_collectionPage fun _ _ => confined_pure trivial)
  | getHashtag => exact confined_map (confined_bind confined_fetchOwnedRowOr404 fun _ _ => trivial)
  | listTransactions => exact confined_map confined_listTransactions
  | getTransaction => exact confined_map confined_getTransaction
  | listInbox => exact confined_map confined_listInbox
  | getInboxItem => exact confined_map confined_getInboxItem
  | listReconciliations => exact confined_map confined_listReconciliations
  | getReconciliation => exact confined_map confined_getReconciliation
  | getDashboard => exact confined_map confined_getDashboard
  | getMonthlyReport => exact confined_map confined_getMonthlyReport
  | listActivity => exact confined_map confined_listActivity
  | getExchangeRate => exact confined_map confined_getExchangeRate
  | listExchangeRateHistory => exact confined_map confined_listExchangeRateHistory

end Reads

end ExpenseEngine
