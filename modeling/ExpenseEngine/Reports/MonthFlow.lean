import ExpenseEngine.Invariants.Integrity
import ExpenseEngine.Reports.MonthWindow
import ExpenseEngine.Sql.Grouping

/-!
# The monthly report adds up

Three queries compute one report: the categories, the groups of the breakdown
and the totals. On every reachable state the category of a counted row is one of
those listed, so that the figures of the three agree.

Results:
1. `computeMonthFlow_eq`: the report in closed form; it fails only when a figure
   is no `bigint`.
2. `monthFlow_reconciles`: on every reachable state it adds up.
-/

namespace ExpenseEngine

open Sql Sql.Prog

/-! ## The report in closed form -/

section ClosedForm

/-- What a row adds to a sum. -/
def SignedTxn.value (s : SignedTxn) : Int := s.signedHomeCents.getD 0

/-- The flag is up exactly on the rows without a home value. -/
def SignedTxn.Flagged (s : SignedTxn) : Prop :=
  s.isUnconvertible = if s.signedHomeCents.isNone then 1 else 0

def groupOf (txns : List SignedTxn) (k : Uuid × List Uuid) : List SignedTxn :=
  group SignedTxn.groupKey txns k

/-- The keys of the breakdown, in its order. -/
def groupKeys (txns : List SignedTxn) : List (Uuid × List Uuid) :=
  (txns.map SignedTxn.groupKey).dedup.insertionSort fun j k => groupKeyLe j k

def sumOf (txns : List SignedTxn) : Int := (txns.map SignedTxn.value).sum

/-- A figure that covers `txns`: their sum, or nothing when one of them has no
home value. -/
def figure (txns : List SignedTxn) : Option Int :=
  if unconvertedOf txns ≠ 0 then none else some (sumOf txns)

/-- The breakdown row of one group. -/
def rowOf (txns : List SignedTxn) (k : Uuid × List Uuid) : BreakdownRow :=
  ⟨k.2, figure (groupOf txns k), unconvertedOf (groupOf txns k)⟩

/-- The rows of one category. -/
def rowsOfCategory (txns : List SignedTxn) (id : Uuid) : List SignedTxn :=
  txns.filter fun s => decide (s.categoryId = id)

def categoryOf (txns : List SignedTxn) (c : Row .categories) : CategoryFlow :=
  ⟨c.id, c.name, figure (rowsOfCategory txns c.id), unconvertedOf (rowsOfCategory txns c.id),
    ((groupKeys txns).filter fun k => decide (k.1 = c.id)).map (rowOf txns)⟩

namespace FlowLemmas

variable {txns : List SignedTxn}

theorem mem_groupKeys {k : Uuid × List Uuid} :
    k ∈ groupKeys txns ↔ ∃ s ∈ txns, s.groupKey = k := by
  unfold groupKeys
  rw [(List.perm_insertionSort _ _).mem_iff, List.mem_dedup, List.mem_map]

theorem nodup_groupKeys (txns : List SignedTxn) : (groupKeys txns).Nodup := by
  unfold groupKeys
  exact (List.perm_insertionSort _ _).nodup_iff.mpr (List.nodup_dedup _)

theorem flagged_nonneg {s : SignedTxn} (h : s.Flagged) : 0 ≤ s.isUnconvertible := by
  unfold SignedTxn.Flagged at h
  split at h <;> omega

theorem flagged_of_mem_group (h : ∀ s ∈ txns, s.Flagged) {k : Uuid × List Uuid} :
    ∀ s ∈ groupOf txns k, s.Flagged :=
  fun s hs => h s (mem_group.mp hs).1

theorem unconvertedOf_eq_zero_iff (h : ∀ s ∈ txns, s.Flagged) :
    unconvertedOf txns = 0 ↔ ∀ s ∈ txns, s.signedHomeCents.isSome := by
  unfold unconvertedOf
  rw [sum_eq_zero_iff_forall fun s hs => flagged_nonneg (h s hs)]
  refine forall₂_congr fun s hs => ?_
  rw [h s hs]
  cases s.signedHomeCents <;> simp

/-- A row without a home value is counted. -/
theorem unconvertedOf_ne_zero (h : ∀ s ∈ txns, s.Flagged) {s : SignedTxn} (hs : s ∈ txns)
    (hnone : s.signedHomeCents = none) : unconvertedOf txns ≠ 0 := by
  intro hzero
  have hsome := (unconvertedOf_eq_zero_iff h).mp hzero s hs
  rw [hnone] at hsome
  cases hsome

/-- `SUM` over rows that all have a value. -/
theorem sqlSum_eq (hne : txns ≠ []) (h : ∀ s ∈ txns, s.signedHomeCents.isSome) :
    sqlSum (txns.map fun s => s.signedHomeCents) = some (sumOf txns) := by
  have hvalues : (txns.map fun s => s.signedHomeCents).filterMap id =
      txns.map SignedTxn.value := by
    clear hne
    induction txns with
    | nil => rfl
    | cons s ss ih =>
      obtain ⟨n, hn⟩ := Option.isSome_iff_exists.mp (h s List.mem_cons_self)
      rw [List.map_cons, List.map_cons, List.filterMap_cons,
        ih fun x hx => h x (List.mem_cons_of_mem _ hx)]
      simp [hn, SignedTxn.value]
  unfold sqlSum sumOf
  rw [hvalues]
  cases txns with
  | nil => exact absurd rfl hne
  | cons s ss => rfl

theorem breakdownRow_eq (h : ∀ s ∈ txns, s.Flagged) {k : Uuid × List Uuid}
    (hk : k ∈ groupKeys txns) :
    breakdownRow ⟨k.1, k.2, sqlSum ((groupOf txns k).map fun s => s.signedHomeCents),
      unconvertedOf (groupOf txns k)⟩ = some (k.1, rowOf txns k) := by
  unfold breakdownRow rowOf figure
  dsimp only
  by_cases hzero : unconvertedOf (groupOf txns k) = 0
  · have hne : groupOf txns k ≠ [] := by
      obtain ⟨s, hs, hsk⟩ := mem_groupKeys.mp hk
      exact List.ne_nil_of_mem (mem_group.mpr ⟨hs, hsk⟩)
    have hsome := (unconvertedOf_eq_zero_iff (flagged_of_mem_group h)).mp hzero
    rw [sqlSum_eq hne hsome]
    simp [hzero]
  · simp [hzero]

theorem breakdowns_eq (h : ∀ s ∈ txns, s.Flagged) :
    (breakdownGroups txns).mapM breakdownRow =
      some ((groupKeys txns).map fun k => (k.1, rowOf txns k)) := by
  unfold breakdownGroups
  rw [List.mapM_map]
  exact mapM_eq_map fun k hk => breakdownRow_eq h hk

theorem groupOf_rowsOfCategory {k : Uuid × List Uuid} {id : Uuid} (hk : k.1 = id) :
    groupOf (rowsOfCategory txns id) k = groupOf txns k := by
  unfold groupOf group rowsOfCategory
  rw [List.filter_filter]
  refine List.filter_congr fun s _ => ?_
  by_cases hs : s.groupKey = k
  · have : s.categoryId = id := (congrArg Prod.fst hs).trans hk
    simp [hs, this]
  · simp [hs]

/-- Summing over the groups of a category counts its rows once. -/
theorem sum_category_groups (f : SignedTxn → Int) (txns : List SignedTxn) (id : Uuid) :
    (((groupKeys txns).filter fun k => decide (k.1 = id)).map fun k =>
      ((groupOf txns k).map f).sum).sum = ((rowsOfCategory txns id).map f).sum := by
  have hnd := (nodup_groupKeys txns).filter fun k => decide (k.1 = id)
  rw [← sum_groups SignedTxn.groupKey f hnd]
  · congr 1
    refine List.map_congr_left fun k hk => ?_
    rw [← groupOf_rowsOfCategory (of_decide_eq_true (List.mem_filter.mp hk).2)]
    rfl
  · intro s hs
    obtain ⟨hs, hid⟩ := List.mem_filter.mp hs
    exact List.mem_filter.mpr ⟨mem_groupKeys.mpr ⟨s, hs, rfl⟩, hid⟩

/-- The rows of a category are without a home value exactly when one of its
groups is. -/
theorem figure_groups {id : Uuid} (h : ∀ s ∈ txns, s.Flagged)
    (hzero : unconvertedOf (rowsOfCategory txns id) = 0) :
    ∀ k ∈ (groupKeys txns).filter fun k => decide (k.1 = id),
      figure (groupOf txns k) = some (sumOf (groupOf txns k)) := by
  intro k hk
  have hflag : ∀ s ∈ rowsOfCategory txns id, s.Flagged :=
    fun s hs => h s (List.mem_filter.mp hs).1
  have hall := (unconvertedOf_eq_zero_iff hflag).mp hzero
  have hgroup : unconvertedOf (groupOf txns k) = 0 := by
    rw [unconvertedOf_eq_zero_iff (flagged_of_mem_group h),
      ← groupOf_rowsOfCategory (of_decide_eq_true (List.mem_filter.mp hk).2)]
    exact fun s hs => hall s (mem_group.mp hs).1
  simp [figure, hgroup]

theorem pySum_some (xs : List (Uuid × List Uuid)) (f : Uuid × List Uuid → Int) :
    pySum (xs.map fun k => some (f k)) = some (xs.map f).sum := by
  unfold pySum
  rw [List.mapM_map, Function.id_comp, mapM_eq_map fun _ _ => rfl, Option.map_some]

theorem pySum_none {α : Type} {xs : List α} {f : α → Option Int} {x : α} (hx : x ∈ xs)
    (h : f x = none) : pySum (xs.map f) = none := by
  unfold pySum
  rw [List.mapM_map, Function.id_comp, Option.map_eq_none_iff]
  induction xs with
  | nil => cases hx
  | cons y ys ih =>
    rw [List.mapM_cons]
    rcases List.mem_cons.mp hx with rfl | hx
    · simp [h]
    · cases f y with
      | none => simp
      | some n => simp [ih hx]

/-- The category's figure is Python's sum of its breakdown rows. -/
theorem pySum_category (h : ∀ s ∈ txns, s.Flagged) (id : Uuid) :
    pySum ((((groupKeys txns).filter fun k => decide (k.1 = id)).map (rowOf txns)).map
      fun r => r.spentHomeCents) = figure (rowsOfCategory txns id) := by
  rw [List.map_map]
  by_cases hzero : unconvertedOf (rowsOfCategory txns id) = 0
  · have hrows := figure_groups h hzero
    have hmap : ((groupKeys txns).filter fun k => decide (k.1 = id)).map
        ((fun r : BreakdownRow => r.spentHomeCents) ∘ rowOf txns) =
        ((groupKeys txns).filter fun k => decide (k.1 = id)).map
          fun k => some (sumOf (groupOf txns k)) :=
      List.map_congr_left hrows
    rw [hmap, pySum_some, figure, if_neg (by simpa using hzero)]
    exact congrArg some (sum_category_groups SignedTxn.value txns id)
  · have hflag : ∀ s ∈ rowsOfCategory txns id, s.Flagged :=
      fun s hs => h s (List.mem_filter.mp hs).1
    rw [unconvertedOf_eq_zero_iff hflag] at hzero
    simp only [not_forall] at hzero
    obtain ⟨s, hs, hnone⟩ := hzero
    obtain ⟨hmem, hid⟩ := List.mem_filter.mp hs
    have hk : s.groupKey ∈ (groupKeys txns).filter fun k => decide (k.1 = id) :=
      List.mem_filter.mpr ⟨mem_groupKeys.mpr ⟨s, hmem, rfl⟩, hid⟩
    have hgroup : unconvertedOf (groupOf txns s.groupKey) ≠ 0 := by
      rw [Ne, unconvertedOf_eq_zero_iff (flagged_of_mem_group h)]
      exact fun hall => hnone (hall s (mem_group.mpr ⟨hmem, rfl⟩))
    have hcat : unconvertedOf (rowsOfCategory txns id) ≠ 0 := by
      rw [Ne, unconvertedOf_eq_zero_iff hflag]
      exact fun hall => hnone (hall s hs)
    rw [pySum_none hk (by simp [rowOf, figure, hgroup]), figure, if_pos hcat]

theorem categoryFlow_eq (h : ∀ s ∈ txns, s.Flagged) (c : Row .categories) :
    categoryFlow ((groupKeys txns).map fun k => (k.1, rowOf txns k)) c =
      some (categoryOf txns c) := by
  have hrows : (((groupKeys txns).map fun k => (k.1, rowOf txns k)).filter
      fun b => decide (b.1 = c.id)).map Prod.snd =
      ((groupKeys txns).filter fun k => decide (k.1 = c.id)).map (rowOf txns) := by
    rw [List.filter_map, List.map_map]
    rfl
  have hcount : ((((groupKeys txns).filter fun k => decide (k.1 = c.id)).map (rowOf txns)).map
      fun r => r.unconvertedCount).sum = unconvertedOf (rowsOfCategory txns c.id) := by
    rw [List.map_map]
    exact sum_category_groups (fun s => s.isUnconvertible) txns c.id
  have hsum := pySum_category h c.id
  unfold categoryFlow categoryOf
  dsimp only
  rw [hrows, hcount, hsum]
  by_cases hzero : unconvertedOf (rowsOfCategory txns c.id) = 0
  · simp [hzero, figure]
  · simp [hzero, figure]

end FlowLemmas

open FlowLemmas

section Report

variable [Platform] [Locale] {db : Db} {userId : Uuid} {startUtc endUtc : Timestamp} {tz : Text}

/-- The signed home value of a row that a query returns. -/
def homeValue (db : Db) (tz : Text) (t : Row .transactions) : Option Int :=
  (signedHomeCents db tz t).toOption.join

/-- A row that a query returns. -/
def txnOf (db : Db) (tz : Text) (t : Row .transactions) : SignedTxn where
  categoryId := t.categoryId
  signedHomeCents := homeValue db tz t
  isUnconvertible := if (homeValue db tz t).isNone then 1 else 0
  hashtagIds := hashtagIdsOf db t.id .ledger

/-- The rows of the report as its queries see them. -/
def monthTxns (db : Db) (userId : Uuid) (startUtc endUtc : Timestamp) (tz : Text) :
    List SignedTxn :=
  (monthRows db userId startUtc endUtc).map (txnOf db tz)

/-- Every figure of the report is a `bigint`. -/
def figuresInRange (db : Db) (userId : Uuid) (startUtc endUtc : Timestamp) (tz : Text) : Bool :=
  (monthRows db userId startUtc endUtc).all (fun t => (homeCents db tz t).isOk) &&
    groupsInRange (monthTxns db userId startUtc endUtc tz) &&
    totalsInRange (monthTxns db userId startUtc endUtc tz)

def reportOf (db : Db) (userId : Uuid) (startUtc endUtc : Timestamp) (tz : Text) : MonthFlow where
  categories := (reportCategories db userId).map
    (categoryOf (monthTxns db userId startUtc endUtc tz))
  totals := flowTotals (monthTxns db userId startUtc endUtc tz)

theorem flagged_txnOf (t : Row .transactions) : (txnOf db tz t).Flagged := rfl

theorem flagged_monthTxns : ∀ s ∈ monthTxns db userId startUtc endUtc tz, s.Flagged := by
  intro s hs
  obtain ⟨t, -, rfl⟩ := List.mem_map.mp hs
  exact flagged_txnOf t

/-- A row has its expressions, unless the cast in them raises. -/
theorem signedTxn_eq (t : Row .transactions) :
    signedTxn db tz t =
      if (homeCents db tz t).isOk then .ok (txnOf db tz t) else .error .bigintOutOfRange := by
  unfold signedTxn txnOf homeValue signedHomeCents unconvertibleFlag
  cases homeCents db tz t with
  | error e =>
    cases e
    rfl
  | ok cents => cases cents <;> rfl

theorem mapM_signedTxn (rows : List (Row .transactions)) :
    rows.mapM (signedTxn db tz) =
      if rows.all fun t => (homeCents db tz t).isOk then .ok (rows.map (txnOf db tz))
      else .error .bigintOutOfRange := by
  induction rows with
  | nil => rfl
  | cons t rows ih =>
    rw [List.mapM_cons, ih, signedTxn_eq, List.all_cons]
    cases (homeCents db tz t).isOk with
    | false => rfl
    | true =>
      rw [Bool.true_and]
      cases rows.all fun t => (homeCents db tz t).isOk <;> rfl

theorem exec_fetchSignedTxns :
    exec (fetchSignedTxns userId startUtc endUtc tz) db =
      if (monthRows db userId startUtc endUtc).all fun t => (homeCents db tz t).isOk then
        .ok (monthTxns db userId startUtc endUtc tz, db)
      else .error .database := by
  unfold fetchSignedTxns
  rw [exec_bind, exec_read, mapM_signedTxn]
  cases (monthRows db userId startUtc endUtc).all fun t => (homeCents db tz t).isOk <;> rfl

/-- The report is `reportOf`, unless one of its figures is out of range. -/
theorem computeMonthFlow_eq (displayTimezone : Text) :
    exec (computeMonthFlow userId startUtc endUtc displayTimezone) db =
      if figuresInRange db userId startUtc endUtc (resolveTimezone displayTimezone) then
        .ok (reportOf db userId startUtc endUtc (resolveTimezone displayTimezone), db)
      else .error .database := by
  have hflag : ∀ s ∈ monthTxns db userId startUtc endUtc (resolveTimezone displayTimezone),
      s.Flagged := flagged_monthTxns
  have hrows := breakdowns_eq hflag
  have hcats : (reportCategories db userId).mapM (categoryFlow
      ((groupKeys (monthTxns db userId startUtc endUtc (resolveTimezone displayTimezone))).map
        fun k => (k.1, rowOf _ k))) = _ :=
    mapM_eq_map fun c _ => categoryFlow_eq flagged_monthTxns c
  unfold computeMonthFlow figuresInRange
  dsimp only
  rw [exec_bind, exec_read]
  dsimp only
  rw [exec_bind, exec_fetchSignedTxns]
  by_cases hall : ((monthRows db userId startUtc endUtc).all fun t =>
      (homeCents db (resolveTimezone displayTimezone) t).isOk) = true
  · rw [if_pos hall]
    dsimp only
    by_cases hgroups : groupsInRange
        (monthTxns db userId startUtc endUtc (resolveTimezone displayTimezone)) = true
    · rw [if_pos hgroups, exec_bind, hrows]
      dsimp only [orRaise, exec_pure]
      rw [exec_bind, hcats]
      dsimp only [orRaise, exec_pure]
      rw [exec_bind, exec_fetchSignedTxns, if_pos hall]
      dsimp only
      by_cases htotals : totalsInRange
          (monthTxns db userId startUtc endUtc (resolveTimezone displayTimezone)) = true
      · simp [hall, hgroups, htotals, reportOf]
      · simp [hall, hgroups, htotals]
    · simp [hall, hgroups]
  · rw [if_neg hall]
    simp [hall]

end Report

end ClosedForm

/-! ## The report adds up -/

section Reconciles

variable [Platform] [Locale] {db : Db} {userId : Uuid} {startUtc endUtc : Timestamp} {tz : Text}

/-- The row `t` is counted in the breakdown row `b` of the category `c`. -/
def CountedIn (db : Db) (flow : MonthFlow) (t : Row .transactions) (c : CategoryFlow)
    (b : BreakdownRow) : Prop :=
  c ∈ flow.categories ∧ b ∈ c.hashtagBreakdown ∧ c.id = t.categoryId ∧
    b.hashtagIds = hashtagIdsOf db t.id .ledger

/-- The figure over `rows`: the sum of their signed home values, or nothing when
one of them has none. -/
def homeTotal (db : Db) (tz : Text) (rows : List (Row .transactions)) : Option Int :=
  pySum (rows.map (homeValue db tz))

/-- How many of `rows` have no home value. -/
def unconvertible (db : Db) (tz : Text) (rows : List (Row .transactions)) : Int :=
  (rows.filter fun t => (homeValue db tz t).isNone).length

/-- What it means for a report on `rows` to add up. -/
structure Reconciles (db : Db) (tz : Text) (rows : List (Row .transactions)) (flow : MonthFlow) :
    Prop where
  /-- No category is listed twice. -/
  categories : (flow.categories.map fun c => c.id).Nodup
  /-- No breakdown row of a category is listed twice. -/
  breakdowns : ∀ c ∈ flow.categories, (c.hashtagBreakdown.map fun b => b.hashtagIds).Nodup
  /-- The hashtags of a row are a sorted set. -/
  hashtags : ∀ t ∈ rows, (hashtagIdsOf db t.id .ledger).Pairwise (· < ·)
  /-- Each row is counted once. -/
  counted : ∀ t ∈ rows, ∃! p : CategoryFlow × BreakdownRow, CountedIn db flow t p.1 p.2
  /-- A breakdown row is the figure over the rows it counts. -/
  breakdown : ∀ c ∈ flow.categories, ∀ b ∈ c.hashtagBreakdown,
    let covered := rows.filter fun t =>
      decide (t.categoryId = c.id ∧ hashtagIdsOf db t.id .ledger = b.hashtagIds)
    b.spentHomeCents = homeTotal db tz covered ∧
      b.unconvertedCount = unconvertible db tz covered
  /-- A category is the sum of its breakdown rows. -/
  category : ∀ c ∈ flow.categories,
    c.spentHomeCents = pySum (c.hashtagBreakdown.map fun b => b.spentHomeCents) ∧
      c.unconvertedCount = (c.hashtagBreakdown.map fun b => b.unconvertedCount).sum
  /-- The totals count what the categories count. -/
  unconverted : flow.totals.unconvertedCount =
    (flow.categories.map fun c => c.unconvertedCount).sum
  /-- When every row has a home value, the net is the sum of the categories. -/
  net : flow.totals.unconvertedCount = 0 → ∃ inflow outflow : Int,
    flow.totals.inflowHomeCents = some inflow ∧ flow.totals.outflowHomeCents = some outflow ∧
      flow.totals.netHomeCents = some (inflow - outflow) ∧
      pySum (flow.categories.map fun c => c.spentHomeCents) = some (inflow - outflow)
  /-- What covers a row without a home value has no figure. -/
  partials : ∀ t ∈ rows, homeValue db tz t = none →
    (flow.totals.inflowHomeCents = none ∧ flow.totals.outflowHomeCents = none ∧
      flow.totals.netHomeCents = none) ∧
    ∀ c b, CountedIn db flow t c b → c.spentHomeCents = none ∧ b.spentHomeCents = none

namespace FlowLemmas

omit [Locale] in
/-- The live links of a row carry distinct hashtags. -/
theorem hashtagIdsOf_sorted (db : Db) (id : Uuid) (source : TransactionSource) :
    (hashtagIdsOf db id source).Pairwise (· < ·) := by
  unfold hashtagIdsOf
  have hnd : (((db.rows .transactionHashtags).filter (isLiveLink id source)).map
      fun r => r.hashtagId).Nodup := by
    have hkeys := (db .transactionHashtags).nodup.sublist
      (((db .transactionHashtags).rows.filter_sublist
        (p := isLiveLink id source)).map (Schema.key Tbl.transactionHashtags))
    refine List.Nodup.map_on (fun r hr s hs h => ?_) (List.Nodup.of_map _ hkeys)
    obtain ⟨hr, hlive⟩ := List.mem_filter.mp hr
    obtain ⟨hs, hlive'⟩ := List.mem_filter.mp hs
    obtain ⟨hr₁, hr₂, -⟩ := of_decide_eq_true hlive
    obtain ⟨hs₁, hs₂, -⟩ := of_decide_eq_true hlive'
    refine Table.eq_of_key_eq hr hs ?_
    show (r.transactionId, r.transactionSource, r.hashtagId) =
      (s.transactionId, s.transactionSource, s.hashtagId)
    rw [hr₁, hr₂, hs₁, hs₂, h]
  have hsorted := List.pairwise_insertionSort (· ≤ ·)
    (((db.rows .transactionHashtags).filter (isLiveLink id source)).map fun r => r.hashtagId)
  have hnd' := (List.perm_insertionSort (· ≤ ·) _).nodup_iff.mpr hnd
  exact (hsorted.and hnd').imp fun h => lt_of_le_of_ne h.1 h.2

theorem unconvertedOf_map (rows : List (Row .transactions)) :
    unconvertedOf (rows.map (txnOf db tz)) = unconvertible db tz rows := by
  unfold unconvertedOf unconvertible
  induction rows with
  | nil => rfl
  | cons t rows ih =>
    rw [List.map_cons, List.map_cons, List.sum_cons, ih, List.filter_cons]
    have hflag : (txnOf db tz t).isUnconvertible =
        if (homeValue db tz t).isNone then 1 else 0 := flagged_txnOf t
    rw [hflag]
    cases homeValue db tz t with
    | none =>
      simp only [Option.isNone_none, if_true, List.length_cons]
      omega
    | some n => simp

theorem figure_map (rows : List (Row .transactions)) :
    figure (rows.map (txnOf db tz)) = homeTotal db tz rows := by
  have hflag : ∀ s ∈ rows.map (txnOf db tz), s.Flagged := by
    intro s hs
    obtain ⟨t, -, rfl⟩ := List.mem_map.mp hs
    exact flagged_txnOf t
  unfold figure homeTotal
  by_cases hzero : unconvertedOf (rows.map (txnOf db tz)) = 0
  · rw [if_neg (by simpa using hzero)]
    rw [unconvertedOf_eq_zero_iff hflag] at hzero
    unfold pySum sumOf
    rw [List.mapM_map, Function.id_comp,
      mapM_eq_map (g := fun t => (txnOf db tz t).value), List.map_map]
    · rfl
    · intro t ht
      obtain ⟨n, hn⟩ := Option.isSome_iff_exists.mp
        (hzero (txnOf db tz t) (List.mem_map.mpr ⟨t, ht, rfl⟩))
      have hn' : homeValue db tz t = some n := hn
      rw [hn', SignedTxn.value, hn, Option.getD_some]
  · rw [if_pos hzero]
    rw [unconvertedOf_eq_zero_iff hflag] at hzero
    simp only [not_forall] at hzero
    obtain ⟨s, hs, hnone⟩ := hzero
    obtain ⟨t, ht, rfl⟩ := List.mem_map.mp hs
    rw [pySum_none ht]
    exact Option.not_isSome_iff_eq_none.mp hnone

/-- The group of a breakdown row is made of the rows it counts. -/
theorem groupOf_monthTxns (db : Db) (tz : Text) (rows : List (Row .transactions))
    (k : Uuid × List Uuid) :
    groupOf (rows.map (txnOf db tz)) k =
      (rows.filter fun t =>
        decide (t.categoryId = k.1 ∧ hashtagIdsOf db t.id .ledger = k.2)).map
          (txnOf db tz) := by
  unfold groupOf group
  rw [List.filter_map]
  congr 1
  refine List.filter_congr fun t _ => ?_
  exact decide_eq_decide.mpr Prod.ext_iff

omit [Platform] [Locale] in
/-- What the totals say when every row has a home value. -/
theorem inflow_sub_outflow (txns : List SignedTxn) :
    inflowOf txns - outflowOf txns = sumOf txns := by
  unfold inflowOf outflowOf sumOf
  induction txns with
  | nil => rfl
  | cons s ss ih =>
    simp only [List.map_cons, List.sum_cons]
    unfold SignedTxn.value at ih ⊢
    cases hval : s.signedHomeCents with
    | none =>
      simp only [Option.getD_none]
      omega
    | some n =>
      simp only [Option.getD_some]
      split <;> split <;> omega

/-- The category of a counted row is listed. -/
theorem listed_of_integrity
    (hcategory : ∀ t ∈ db.rows .transactions, t.deletedAt = none →
      HasActive .categories db t.categoryId t.userId)
    {t : Row .transactions} (ht : t ∈ monthRows db userId startUtc endUtc) :
    ∃ c ∈ reportCategories db userId, c.id = t.categoryId := by
  obtain ⟨ht, hin⟩ := List.mem_filter.mp ht
  simp only [isInMonth, Bool.and_eq_true, decide_eq_true_eq, Bool.not_eq_true',
    List.any_eq_false] at hin
  obtain ⟨⟨huser, hactive, -⟩, hopening⟩ := hin
  obtain ⟨c, hc, hid, hu, hd⟩ := hcategory t ht hactive
  refine ⟨c, ?_, hid⟩
  unfold reportCategories
  rw [(List.perm_insertionSort _ _).mem_iff, List.mem_filter]
  refine ⟨hc, decide_eq_true ⟨hu.trans huser, hd, fun hkey => ?_⟩⟩
  exact hopening c hc ⟨hid, hkey⟩

theorem nodup_reportCategories (db : Db) (userId : Uuid) :
    ((reportCategories db userId).map fun c => c.id).Nodup := by
  have hsub := (db .categories).nodup.sublist (((db .categories).rows.filter_sublist
    (p := fun c => decide (c.userId = userId ∧ c.deletedAt = none ∧
      c.systemKey ≠ some .openingBalance))).map (Schema.key Tbl.categories))
  unfold reportCategories
  exact ((List.perm_insertionSort _ _).map _).nodup_iff.mpr hsub

omit [Platform] [Locale] in
/-- The groups of one category differ in their hashtags. -/
theorem nodup_breakdown (txns : List SignedTxn) (id : Uuid) :
    ((((groupKeys txns).filter fun k => decide (k.1 = id)).map (rowOf txns)).map
      fun b => b.hashtagIds).Nodup := by
  rw [List.map_map]
  refine List.Nodup.map_on (fun j hj k hk h => ?_) ((nodup_groupKeys txns).filter _)
  have hj₁ := of_decide_eq_true (List.mem_filter.mp hj).2
  have hk₁ := of_decide_eq_true (List.mem_filter.mp hk).2
  exact Prod.ext (hj₁.trans hk₁.symm) h

/-- Where a row is counted. -/
theorem counted_iff {t : Row .transactions} {c : CategoryFlow} {b : BreakdownRow}
    (ht : t ∈ monthRows db userId startUtc endUtc) :
    CountedIn db (reportOf db userId startUtc endUtc tz) t c b ↔
      ∃ r ∈ reportCategories db userId, r.id = t.categoryId ∧
        c = categoryOf (monthTxns db userId startUtc endUtc tz) r ∧
        b = rowOf (monthTxns db userId startUtc endUtc tz)
          (t.categoryId, hashtagIdsOf db t.id .ledger) := by
  have hkey : (t.categoryId, hashtagIdsOf db t.id .ledger) ∈
      groupKeys (monthTxns db userId startUtc endUtc tz) :=
    mem_groupKeys.mpr ⟨txnOf db tz t, List.mem_map.mpr ⟨t, ht, rfl⟩, rfl⟩
  constructor
  · rintro ⟨hc, hb, hid, htags⟩
    obtain ⟨r, hr, rfl⟩ := List.mem_map.mp hc
    obtain ⟨k, hk, rfl⟩ := List.mem_map.mp hb
    have hk₁ := of_decide_eq_true (List.mem_filter.mp hk).2
    refine ⟨r, hr, hid, rfl, ?_⟩
    rw [show k = (t.categoryId, hashtagIdsOf db t.id .ledger) from
      Prod.ext (hk₁.trans hid) htags]
  · rintro ⟨r, hr, hid, rfl, rfl⟩
    refine ⟨List.mem_map.mpr ⟨r, hr, rfl⟩, ?_, hid, rfl⟩
    exact List.mem_map.mpr ⟨_, List.mem_filter.mpr ⟨hkey, decide_eq_true hid.symm⟩, rfl⟩

omit [Platform] [Locale] in
/-- Figures that are all there. -/
theorem pySum_figures {rs : List (Row .categories)} {txns : List SignedTxn}
    (h : ∀ s ∈ txns, s.Flagged) (hzero : unconvertedOf txns = 0) :
    pySum ((rs.map (categoryOf txns)).map fun c => c.spentHomeCents) =
      some (rs.map fun c => sumOf (rowsOfCategory txns c.id)).sum := by
  have hall := (unconvertedOf_eq_zero_iff h).mp hzero
  unfold pySum
  rw [List.map_map, List.mapM_map, Function.id_comp,
    mapM_eq_map (g := fun c : Row .categories => sumOf (rowsOfCategory txns c.id))]
  · rfl
  · intro c _
    have hrows : ∀ s ∈ rowsOfCategory txns c.id, s.Flagged :=
      fun s hs => h s (List.mem_filter.mp hs).1
    have hcat : unconvertedOf (rowsOfCategory txns c.id) = 0 :=
      (unconvertedOf_eq_zero_iff hrows).mpr fun s hs => hall s (List.mem_filter.mp hs).1
    simp [categoryOf, figure, hcat]

omit [Platform] [Locale] in
/-- Summing category by category counts every row once, when every row's category
is listed. -/
theorem sum_categories (f : SignedTxn → Int) {rs : List (Row .categories)}
    {txns : List SignedTxn} (hnd : (rs.map fun c => c.id).Nodup)
    (hlisted : ∀ s ∈ txns, s.categoryId ∈ rs.map fun c => c.id) :
    (rs.map fun c => ((rowsOfCategory txns c.id).map f).sum).sum = (txns.map f).sum := by
  rw [← sum_groups SignedTxn.categoryId f hnd hlisted, List.map_map]
  rfl

end FlowLemmas

open FlowLemmas IntegrityLemmas

/-- A report adds up when every active transaction is under an active category of
its user. -/
theorem reconciles_reportOf
    (hcategory : ∀ t ∈ db.rows .transactions, t.deletedAt = none →
      HasActive .categories db t.categoryId t.userId) :
    Reconciles db tz (monthRows db userId startUtc endUtc)
      (reportOf db userId startUtc endUtc tz) := by
  have hflag : ∀ s ∈ monthTxns db userId startUtc endUtc tz, s.Flagged := flagged_monthTxns
  have hlisted : ∀ s ∈ monthTxns db userId startUtc endUtc tz,
      s.categoryId ∈ (reportCategories db userId).map fun c => c.id := by
    intro s hs
    obtain ⟨t, ht, rfl⟩ := List.mem_map.mp hs
    obtain ⟨c, hc, hid⟩ := listed_of_integrity hcategory ht
    exact List.mem_map.mpr ⟨c, hc, hid⟩
  have hnd := nodup_reportCategories db userId
  refine
    { categories := ?_, breakdowns := ?_, hashtags := ?_, counted := ?_, breakdown := ?_
      category := ?_, unconverted := ?_, net := ?_, partials := ?_ }
  · simpa [reportOf, List.map_map, Function.comp_def, categoryOf] using hnd
  · intro c hc
    obtain ⟨r, -, rfl⟩ := List.mem_map.mp hc
    exact nodup_breakdown _ r.id
  · exact fun t _ => hashtagIdsOf_sorted db t.id .ledger
  · intro t ht
    obtain ⟨r, hr, hid⟩ := listed_of_integrity hcategory ht
    refine ⟨(_, _), (counted_iff ht).mpr ⟨r, hr, hid, rfl, rfl⟩, ?_⟩
    rintro ⟨c, b⟩ hcb
    obtain ⟨r', hr', hid', rfl, rfl⟩ := (counted_iff ht).mp hcb
    -- the id of a listed category names one row
    have hsame : r' = r := List.inj_on_of_nodup_map hnd hr' hr (hid'.trans hid.symm)
    subst hsame
    rfl
  · intro c hc b hb
    obtain ⟨r, -, rfl⟩ := List.mem_map.mp hc
    obtain ⟨k, hk, rfl⟩ := List.mem_map.mp hb
    have hk₁ : k.1 = r.id := of_decide_eq_true (List.mem_filter.mp hk).2
    have hgroup := groupOf_monthTxns db tz (monthRows db userId startUtc endUtc) k
    rw [hk₁] at hgroup
    exact ⟨(congrArg figure hgroup).trans (figure_map _),
      (congrArg unconvertedOf hgroup).trans (unconvertedOf_map _)⟩
  · intro c hc
    obtain ⟨r, -, rfl⟩ := List.mem_map.mp hc
    refine ⟨(pySum_category hflag r.id).symm, ?_⟩
    show _ = (((_ : List _).map _).map _).sum
    rw [List.map_map]
    exact (sum_category_groups (fun s => s.isUnconvertible) _ r.id).symm
  · have hsum := sum_categories (fun s => s.isUnconvertible) hnd hlisted
    simp only [reportOf, flowTotals, List.map_map]
    split
    · exact hsum.symm
    · next hzero =>
      refine Eq.trans ?_ hsum.symm
      exact (not_not.mp hzero).symm
  · intro hzero
    have hzero' : unconvertedOf (monthTxns db userId startUtc endUtc tz) = 0 := by
      by_contra hne
      simp only [reportOf, flowTotals, if_pos hne] at hzero
      exact hne hzero
    have htotals : (reportOf db userId startUtc endUtc tz).totals = _ :=
      if_neg (not_not.mpr hzero')
    refine ⟨_, _, congrArg FlowTotals.inflowHomeCents htotals,
      congrArg FlowTotals.outflowHomeCents htotals,
      congrArg FlowTotals.netHomeCents htotals, ?_⟩
    rw [inflow_sub_outflow]
    refine (pySum_figures hflag hzero').trans (congrArg some ?_)
    exact sum_categories SignedTxn.value hnd hlisted
  · intro t ht hnone
    have hmem : txnOf db tz t ∈ monthTxns db userId startUtc endUtc tz :=
      List.mem_map.mpr ⟨t, ht, rfl⟩
    have hnull : (txnOf db tz t).signedHomeCents = none := hnone
    refine ⟨?_, ?_⟩
    · simp [reportOf, flowTotals, unconvertedOf_ne_zero hflag hmem hnull]
    · intro c b hcb
      obtain ⟨r, -, hid, rfl, rfl⟩ := (counted_iff ht).mp hcb
      constructor
      · refine if_pos (unconvertedOf_ne_zero (fun s hs => hflag s (List.mem_filter.mp hs).1) ?_
          hnull)
        exact List.mem_filter.mpr ⟨hmem, decide_eq_true hid.symm⟩
      · refine if_pos (unconvertedOf_ne_zero (flagged_of_mem_group hflag) ?_ hnull)
        exact mem_group.mpr ⟨hmem, rfl⟩

/-- On every reachable state and for every table of rates, a report adds up; it
fails only when one of its figures is no `bigint`. -/
theorem monthFlow_reconciles {db₀ : Db} (hfresh : Fresh db₀) (calls : List Call)
    (hdb : ∀ t, t ≠ .exchangeRates → db t = run db₀ calls t)
    (userId : Uuid) (startUtc endUtc : Timestamp) (displayTimezone : Text) :
    if figuresInRange db userId startUtc endUtc (resolveTimezone displayTimezone) then
      ∃ flow, exec (computeMonthFlow userId startUtc endUtc displayTimezone) db = .ok (flow, db) ∧
        Reconciles db (resolveTimezone displayTimezone) (monthRows db userId startUtc endUtc) flow
    else exec (computeMonthFlow userId startUtc endUtc displayTimezone) db = .error .database := by
  have hinv := hfresh.integrity.run calls
  have hcategory : ∀ t ∈ db.rows .transactions, t.deletedAt = none →
      HasActive .categories db t.categoryId t.userId := by
    intro t ht hd
    have htrans : db.rows .transactions = (run db₀ calls).rows .transactions :=
      congrArg Table.rows (hdb _ (by decide))
    have hcats : db.rows .categories = (run db₀ calls).rows .categories :=
      congrArg Table.rows (hdb _ (by decide))
    exact (hasActive_congr hcats).mpr (hinv.category t (htrans ▸ ht) hd)
  split
  · next hrange =>
    refine ⟨_, ?_, reconciles_reportOf hcategory⟩
    rw [computeMonthFlow_eq, if_pos hrange]
  · next hrange => rw [computeMonthFlow_eq, if_neg hrange]

end Reconciles

/-! ## A journey -/

namespace Ascii

/-- Rows in two categories, with the hashtag and without, and one of them on a
dollar account. No rate is stored. -/
def journey : List Call := setup ++ [
  callAt 6 (.createHashtag ⟨50, "trip".toList, none⟩),
  callAt 7 (.createAccount ⟨12, "Savings".toList, "USD".toList, none, none⟩),
  callAt 8 (.createCategory ⟨21, "Travel".toList, "#000000".toList, none⟩),
  callAt 9 (.createTransaction ⟨31, "Taxi".toList, -900, 6, 10, 21, none, [50]⟩),
  callAt 10 (.createTransaction ⟨32, "Hotel".toList, -4000, 7, 12, 21, none, [50]⟩),
  callAt 11 (.createTransaction ⟨33, "Dinner".toList, -1200, 8, 10, 20, none, [50]⟩),
  callAt 12 (.createTransaction ⟨34, "Refund".toList, 300, 8, 11, 20, none, []⟩)]

end Ascii

open Ascii in
/-- The food has its figures, with the hashtag and without. The travel and the totals
have none, as the hotel has no home value. -/
theorem monthFlow_reconciles_journey :
    ∃ flow, exec (computeMonthFlow 1 0 10 "UTC".toList) (run blank journey) =
        .ok (flow, run blank journey) ∧
      Reconciles (run blank journey) (resolveTimezone "UTC".toList)
        (monthRows (run blank journey) 1 0 10) flow ∧
      flow.categories = [
        ⟨20, "Food".toList, some (-1400), 0, [⟨[], some (-200), 0⟩, ⟨[50], some (-1200), 0⟩]⟩,
        ⟨21, "Travel".toList, none, 1, [⟨[50], none, 1⟩]⟩] ∧
      flow.totals = ⟨none, none, none, 1⟩ := by
  have h := monthFlow_reconciles fresh_blank journey (fun _ _ => rfl) 1 0 10 "UTC".toList
  rw [if_pos (by decide +kernel)] at h
  obtain ⟨flow, hexec, hreconciles⟩ := h
  have hflow : (exec (computeMonthFlow 1 0 10 "UTC".toList) (run blank journey)).map Prod.fst =
      .ok ⟨[
        ⟨20, "Food".toList, some (-1400), 0, [⟨[], some (-200), 0⟩, ⟨[50], some (-1200), 0⟩]⟩,
        ⟨21, "Travel".toList, none, 1, [⟨[50], none, 1⟩]⟩], ⟨none, none, none, 1⟩⟩ := by
    decide +kernel
  rw [hexec] at hflow
  cases hflow
  exact ⟨_, hexec, hreconciles, rfl, rfl⟩

end ExpenseEngine
