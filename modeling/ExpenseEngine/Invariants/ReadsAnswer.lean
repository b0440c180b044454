import ExpenseEngine.Invariants.Drafts
import ExpenseEngine.Refinement.Rates
import ExpenseEngine.Reports.Figures
import ExpenseEngine.Reports.MonthRange

/-!
# Reads that answer

A read sums what many writes have stored. Each of them is accepted by itself, and
together they can leave figures that no read of the account, the reconciliation
or the month gets past.

Results:
1. `readsAnswer_of_figuresFit`: a state whose figures fit is read.
2. `figuresFit_of_readsAnswer`: every figure is needed by some read.
3. `reads_answer_iff`: both, for every state that requests reach.
-/

namespace ExpenseEngine

open Num Sql Sql.Prog

/-! ## Reads -/

section Reads

variable [Platform]

/-- The read ends in an answer that is as `Q` says, or in a refusal. -/
def Served {α : Type} (p : Op α) (db : Db) (Q : α → Prop) : Prop :=
  match exec p db with
  | .ok (a, db') => db' = db ∧ Q a
  | .error (.raised e) => e.statusCode < 500
  | .error .database => False

namespace Served

variable {α β : Type} {p : Op α} {db : Db} {Q : α → Prop}

theorem of_ok {a : α} (h : exec p db = .ok (a, db)) : Served p db Q ↔ Q a := by
  rw [Served, h]
  exact and_iff_right rfl

theorem of_raised {e : AppError} (h : exec p db = .error (.raised e)) :
    Served p db Q ↔ e.statusCode < 500 := by
  rw [Served, h]

theorem not_of_database (h : exec p db = .error .database) : ¬Served p db Q := by
  rw [Served, h]
  exact id

theorem bind_of_ok {f : α → Op β} {R : β → Prop} {a : α} (h : exec p db = .ok (a, db)) :
    Served (p >>= f) db R ↔ Served (f a) db R := by
  rw [Served, exec_bind_of_ok h, Served]

protected theorem bind {f : α → Op β} {R : β → Prop} (hp : Served p db Q)
    (hf : ∀ a, Q a → Served (f a) db R) : Served (p >>= f) db R := by
  unfold Served at hp
  split at hp
  · next a db' h =>
    obtain ⟨rfl, ha⟩ := hp
    have hfa := hf a ha
    rwa [Served, exec_bind_of_ok h]
  · next e h => rwa [Served, exec_bind_of_error h]
  · exact hp.elim

theorem mono {R : α → Prop} (hp : Served p db Q) (h : ∀ a, Q a → R a) : Served p db R := by
  unfold Served at *
  split at hp
  · exact ⟨hp.1, h _ hp.2⟩
  · exact hp
  · exact hp

protected theorem pure {a : α} (h : Q a) : Served (Pure.pure a : Op α) db Q :=
  (of_ok rfl).mpr h

protected theorem read {l : Label} {f : Db → α} (h : Q (f db)) :
    Served (Prog.read l f : Op α) db Q :=
  (of_ok rfl).mpr h

protected theorem orRaise {o : Option α} {e : AppError} (he : e.statusCode < 500)
    (h : ∀ a, o = some a → Q a) : Served (Prog.orRaise o e : Op α) db Q := by
  cases o with
  | none => exact (of_raised rfl).mpr he
  | some a => exact (of_ok rfl).mpr (h a rfl)

theorem map_iff {f : α → β} {R : β → Prop} :
    Served (f <$> p) db R ↔ Served p db fun a => R (f a) := by
  rw [← bind_pure_comp, Served, Served]
  cases h : exec p db with
  | ok x =>
    obtain ⟨a, db'⟩ := x
    rw [exec_bind_of_ok h]
    rfl
  | error e =>
    rw [exec_bind_of_error h]
    cases e <;> rfl

protected theorem mapM {f : β → Op α} {xs : List β} (h : ∀ x ∈ xs, Served (f x) db Q) :
    Served (xs.mapM f) db fun as => ∀ a ∈ as, Q a := by
  induction xs with
  | nil => exact .pure (List.forall_mem_nil _)
  | cons x xs ih =>
    rw [List.mapM_cons]
    refine (h x List.mem_cons_self).bind fun a ha => ?_
    refine (ih fun y hy => h y (List.mem_cons_of_mem _ hy)).bind fun as has => ?_
    exact .pure (List.forall_mem_cons.mpr ⟨ha, has⟩)

end Served

/-! ### Balances -/

/-- Today's rate of a currency for a user: an entry of the cache, or else what the
table says. -/
def todaysRate (env : Env) (db : Db) (s : Row .userSettings) (source : Text) :
    Except Signal RateResult :=
  let today := env.today (resolveTimezone s.displayTimezone)
  match env.rateCache (Platform.pyUpper source) (Platform.pyUpper s.mainCurrency) today with
  | some cached => .ok cached
  | none => tableRate db s.mainCurrency today source

/-- The balance of an account is a `bigint`, and so is its value at today's rate. -/
structure AccountFits (env : Env) (db : Db) (s : Row .userSettings) (a : Row .bankAccounts) :
    Prop where
  balance : inInt8 (balanceOf db s.userId a.id) = true
  home : ∃ result, todaysRate env db s a.currencyCode = .ok result ∧
    ∀ rate ∈ result.map Prod.fst, Converts (balanceOf db s.userId a.id * rate)

namespace FigureLemmas

open RateLemmas

variable {env : Env} {db : Db} {s : Row .userSettings}

theorem pricedBy_todaysRate : PricedBy env db s.mainCurrency
    (env.today (resolveTimezone s.displayTimezone)) (todaysRate env db s) := by
  intro source
  unfold todaysRate
  dsimp only
  cases hcache : env.rateCache (Platform.pyUpper source) (Platform.pyUpper s.mainCurrency)
      (env.today (resolveTimezone s.displayTimezone)) with
  | some cached =>
    rw [getRate, hcache]
    rfl
  | none => exact exec_getRate hcache

omit [Platform] in
theorem homeCentsAt_inRange_iff (cents : Int) (rate : Option Rat) :
    (∃ home, homeCentsAt cents rate = .ok home ∧ ∀ n ∈ home, inInt8 n = true) ↔
      ∀ r ∈ rate, Converts (cents * r) := by
  cases rate with
  | none => simp [homeCentsAt]
  | some r =>
    have hconverts := toHomeCents_inRange_iff cents r
    constructor
    · rintro ⟨home, hhome, hin⟩ r' ⟨⟩
      rw [homeCentsAt] at hhome
      cases hcents : toHomeCents cents r with
      | error e =>
        rw [hcents] at hhome
        cases hhome
      | ok n =>
        rw [hcents] at hhome
        cases hhome
        exact hconverts.mp ⟨n, hcents, hin n rfl⟩
    · intro h
      obtain ⟨n, hcents, hn⟩ := hconverts.mpr (h r rfl)
      refine ⟨some n, ?_, fun m hm => ?_⟩
      · rw [homeCentsAt, hcents]
        rfl
      · cases hm
        exact hn

omit [Platform] in
theorem valueAt_inRange_iff {rateOf : Text → Except Signal RateResult} (source : Text)
    (cents : Int) :
    (∃ home, valueAt rateOf source cents = .ok home ∧ ∀ n ∈ home, inInt8 n = true) ↔
      ∃ result, rateOf source = .ok result ∧
        ∀ rate ∈ result.map Prod.fst, Converts (cents * rate) := by
  unfold valueAt
  cases hrate : rateOf source with
  | error e =>
    refine iff_of_false ?_ ?_
    · rintro ⟨home, ⟨⟩, -⟩
    · rintro ⟨result, ⟨⟩, -⟩
  | ok result =>
    refine (homeCentsAt_inRange_iff cents (result.map Prod.fst)).trans ⟨fun h => ⟨_, rfl, h⟩, ?_⟩
    rintro ⟨_, ⟨⟩, h⟩
    exact h

variable {rows : List (Row .bankAccounts)} {a : Row .bankAccounts}

/-- The account as its balance is converted. -/
def heldOf (db : Db) (userId : Uuid) (a : Row .bankAccounts) : HeldBalance :=
  ⟨a.id, balanceOf db userId a.id, a.currencyCode⟩

theorem exec_fetchBalances (userId : Uuid) (ids : List Uuid) :
    exec (fetchBalances userId ids) db =
      if ids.all fun a => inInt8 (balanceOf db userId a) then
        .ok (ids.map fun a => (a, balanceOf db userId a), db)
      else .error .database := by
  cases ids with
  | nil => rfl
  | cons id ids =>
    rw [fetchBalances, List.isEmpty_cons, if_neg (by decide), exec_bind_of_ok (exec_read _ _ _),
      List.all_map]
    have hcomp : ((fun b : Uuid × Int => inInt8 b.2) ∘ fun a => (a, balanceOf db userId a)) =
        fun a => inInt8 (balanceOf db userId a) := rfl
    rw [hcomp]
    cases (id :: ids).all fun a => inInt8 (balanceOf db userId a) <;> rfl

theorem exec_fetchHomeBalances_held {rateOf : Text → Except Signal RateResult} {target : Text}
    {today : Date} {userId : Uuid} (hpriced : PricedBy env db target today rateOf)
    (hids : (rows.map fun a => a.id).Nodup) {home : HeldBalance → Option Int}
    (hhome : ∀ a ∈ rows, valueAt rateOf a.currencyCode (balanceOf db userId a.id) =
      .ok (home (heldOf db userId a))) :
    exec (fetchHomeBalances env target today
        ((rows.map fun a => a.id).map fun a => (a, balanceOf db userId a))
        (rows.map fun a => (a.id, a.currencyCode))) db =
      .ok (rows.map fun a => (a.id, home (heldOf db userId a)), db) := by
  have h : exec (fetchHomeBalances env target today
      ((rows.map (heldOf db userId)).map fun a => (a.id, a.cents))
      ((rows.map (heldOf db userId)).map fun a => (a.id, a.currencyCode))) db =
        .ok ((rows.map (heldOf db userId)).map fun a => (a.id, home a), db) :=
    exec_fetchHomeBalances hpriced (by rwa [List.map_map]) (List.forall_mem_map.mpr hhome)
  simp only [List.map_map] at h ⊢
  exact h

omit [Platform] in
theorem snd_of_lookup {β γ : Type} {f : β → Uuid × γ} {xs : List β} {id : Uuid} {v : γ}
    (h : (xs.map f).lookup id = some v) : ∃ x ∈ xs, v = (f x).2 := by
  obtain ⟨l₁, l₂, hxs, -⟩ := List.lookup_eq_some_iff.mp h
  have hmem : (id, v) ∈ xs.map f := by
    rw [hxs]
    exact List.mem_append_right _ List.mem_cons_self
  obtain ⟨x, hx, heq⟩ := List.mem_map.mp hmem
  exact ⟨x, hx, (congrArg Prod.snd heq).symm⟩

/-- The two maps of figures that a list of accounts is shown with. -/
theorem served_balances {β : Type} {good : β → Prop}
    {k : List (Uuid × Int) → List (Uuid × Option Int) → Op β}
    (hids : (rows.map fun a => a.id).Nodup) (hfits : ∀ a ∈ rows, AccountFits env db s a)
    (hk : ∀ balances homes, (∀ id, inInt8 ((balances.lookup id).getD 0) = true) →
      (∀ id, ∀ n ∈ (homes.lookup id).join, inInt8 n = true) →
        Served (k balances homes) db good) :
    Served (fetchBalances s.userId (rows.map fun a => a.id) >>= fun balances =>
      fetchHomeBalances env s.mainCurrency (env.today (resolveTimezone s.displayTimezone)) balances
        (rows.map fun a => (a.id, a.currencyCode)) >>= fun homes => k balances homes) db good := by
  have hhomes : ∀ a : HeldBalance, ∃ home : Option Int, a ∈ rows.map (heldOf db s.userId) →
      valueAt (todaysRate env db s) a.currencyCode a.cents = .ok home ∧
        ∀ n ∈ home, inInt8 n = true := by
    intro held
    by_cases hheld : held ∈ rows.map (heldOf db s.userId)
    · obtain ⟨a, ha, rfl⟩ := List.mem_map.mp hheld
      obtain ⟨home, hhome⟩ := (valueAt_inRange_iff _ _).mpr (hfits a ha).home
      exact ⟨home, fun _ => hhome⟩
    · exact ⟨none, fun h => absurd h hheld⟩
  choose home hhome using hhomes
  have hbalances : exec (fetchBalances s.userId (rows.map fun a => a.id)) db = _ :=
    exec_fetchBalances _ _
  rw [if_pos] at hbalances
  · have hconverted : exec (fetchHomeBalances env s.mainCurrency
        (env.today (resolveTimezone s.displayTimezone))
        ((rows.map fun a => a.id).map fun a => (a, balanceOf db s.userId a)) _) db = _ :=
      exec_fetchHomeBalances_held pricedBy_todaysRate hids fun a ha =>
        (hhome _ (List.mem_map_of_mem ha)).1
    refine (Served.bind_of_ok hbalances).mpr ((Served.bind_of_ok hconverted).mpr ?_)
    refine hk _ _ (fun id => ?_) fun id n hn => ?_
    · cases hlookup : ((rows.map fun a => a.id).map fun a =>
          (a, balanceOf db s.userId a)).lookup id with
      | none => rfl
      | some b =>
        obtain ⟨x, hx, rfl⟩ := snd_of_lookup hlookup
        obtain ⟨a, ha, rfl⟩ := List.mem_map.mp hx
        exact (hfits a ha).balance
    · obtain ⟨a, ha, heq⟩ := snd_of_lookup (Option.join_eq_some_iff.mp hn)
      exact (hhome _ (List.mem_map_of_mem ha)).2 n heq.symm
  · rw [List.all_map, List.all_eq_true]
    exact fun a ha => (hfits a ha).balance

end FigureLemmas

/-! ### The reads -/

/-- A month the reports can be asked for. -/
def MonthValid (month : Int × Int) : Prop :=
  (1900 ≤ month.1 ∧ month.1 ≤ 2100) ∧ 1 ≤ month.2 ∧ month.2 ≤ 12

/-- The reads that compute figures. The dashboard is of the month that the clock
shows. -/
inductive Query where
  | accounts (includePeople includeArchived includeDeleted : Bool) (limit offset : Nat)
  | account (id : Uuid)
  | dashboard (thisMonth : Text → Int × Int) (includeArchived : Bool)
  | monthlyReport (q : MonthlyReportQuery)
  | reconciliations (accountId : Option Uuid) (includeDeleted : Bool) (limit offset : Nat)
  | reconciliation (id : Uuid) (debitAsNegative : Bool) (limit offset : Nat)

/-- What the router accepts. -/
def Query.Valid : Query → Prop
  | .accounts _ _ _ limit _ | .reconciliations _ _ limit _ | .reconciliation _ _ limit _ =>
    1 ≤ limit ∧ limit ≤ maxLimit
  | .account _ => True
  | .dashboard thisMonth _ => ∀ tz, MonthValid (thisMonth tz)
  | .monthlyReport q => (∀ year ∈ q.year, 1900 ≤ year ∧ year ≤ 2100) ∧
    (∀ month ∈ q.month, 1 ≤ month ∧ month ≤ 12) ∧
    (∀ year ∈ q.fromYear, 1900 ≤ year ∧ year ≤ 2100) ∧
    (∀ month ∈ q.fromMonth, 1 ≤ month ∧ month ≤ 12) ∧
    (∀ year ∈ q.toYear, 1900 ≤ year ∧ year ≤ 2100) ∧
    ∀ month ∈ q.toMonth, 1 ≤ month ∧ month ≤ 12

def accountFigures : Body → List Int
  | .account r => r.currentBalanceCents :: r.currentBalanceHomeCents.toList
  | _ => []

def DashboardAccount.figures (a : DashboardAccount) : List Int :=
  a.currentBalanceCents :: a.currentBalanceHomeCents.toList

def DashboardResponse.figures (d : DashboardResponse) : List Int :=
  (d.bankAccounts ++ d.people ++ d.archivedAccounts.getD [] ++ d.archivedPeople.getD []).flatMap
    DashboardAccount.figures ++ d.flow.figures

def MonthlyReportResponse.figures : MonthlyReportResponse → List Int
  | .one report => report.flow.figures
  | .range months => months.flatMap fun report => report.flow.figures

/-- The read, with the figures it answers. -/
def Query.figures [Locale] (env : Env) (userId : Uuid) : Query → Op (List Int)
  | .accounts includePeople includeArchived includeDeleted limit offset =>
    (fun page => page.items.flatMap accountFigures) <$>
      listAccounts env userId includePeople includeArchived includeDeleted limit offset
  | .account id => accountFigures <$> getAccount env userId id
  | .dashboard thisMonth includeArchived =>
    DashboardResponse.figures <$> getDashboard env thisMonth userId includeArchived
  | .monthlyReport q => MonthlyReportResponse.figures <$> getMonthlyReport userId q
  | .reconciliations accountId includeDeleted limit offset =>
    (fun page => page.items.map fun r => r.differenceCents) <$>
      listReconciliations userId accountId includeDeleted limit offset
  | .reconciliation id debitAsNegative limit offset =>
    (fun r => [r.differenceCents]) <$> getReconciliation userId id debitAsNegative limit offset

/-- Every read answers with `bigint`s, or refuses. -/
def ReadsAnswer [Locale] (env : Env) (db : Db) : Prop :=
  ∀ (userId : Uuid) (q : Query), q.Valid →
    Served (q.figures env userId) db fun figures => ∀ n ∈ figures, inInt8 n = true

/-- The window of a month. -/
def MonthWindow [Locale] (displayTimezone : Text) (month : Int × Int)
    (startUtc endUtc : Timestamp) : Prop :=
  computeMonthBounds (fun _ => month) displayTimezone (some month.1) (some month.2) =
    some (month.1, month.2, startUtc, endUtc)

/-- The figures of every account that is shown, of every reconciliation and of
every month are `bigint`s. -/
structure FiguresFit [Locale] (env : Env) (db : Db) : Prop where
  /-- An account is shown while it is active, or when its user has settings. -/
  balances : ∀ a ∈ db.rows .bankAccounts,
    (a.deletedAt = none ∨ ∃ s ∈ db.rows .userSettings, s.userId = a.userId) →
      inInt8 (balanceOf db a.userId a.id) = true
  homes : ∀ s ∈ db.rows .userSettings, ∀ a ∈ db.rows .bankAccounts, a.userId = s.userId →
    ∃ result, todaysRate env db s a.currencyCode = .ok result ∧
      ∀ rate ∈ result.map Prod.fst, Converts (balanceOf db a.userId a.id * rate)
  differences : ∀ rec ∈ db.rows .reconciliations, differenceInRange db rec = true
  months : ∀ s ∈ db.rows .userSettings, ∀ month, MonthValid month →
    ∀ startUtc endUtc, MonthWindow s.displayTimezone month startUtc endUtc →
      MonthFits db s.userId startUtc endUtc (resolveTimezone s.displayTimezone)

/-! ### States whose figures fit -/

namespace FigureLemmas

open RateLemmas

variable {env : Env} {db : Db} {userId : Uuid} {s : Row .userSettings}

theorem exec_settings (hmain : ∀ s ∈ db.rows .userSettings, s.mainCurrency = homeCurrency)
    (hs : s ∈ db.rows .userSettings) :
    exec (getUserReportSettings s.userId) db = .ok (s, db) := by
  have hfind : (db.rows .userSettings).find? (fun r => decide (r.userId = s.userId)) = some s :=
    Table.find?_eq_some.mpr ⟨hs, rfl⟩
  simp only [getUserReportSettings, fetchRow, exec_bind_ok, exec_read_ok, exec_orRaise_ok,
    exec_raiseIf_ok, exec_pure_ok]
  refine ⟨_, _, ⟨rfl, rfl⟩, _, _, ⟨hfind, rfl⟩, (), _, ⟨?_, rfl⟩, rfl, rfl⟩
  rw [hmain s hs]
  simp

theorem served_settings {β : Type} {good : β → Prop} {k : Row .userSettings → Op β}
    (hmain : ∀ s ∈ db.rows .userSettings, s.mainCurrency = homeCurrency)
    (hk : ∀ s ∈ db.rows .userSettings, s.userId = userId → Served (k s) db good) :
    Served (getUserReportSettings userId >>= k) db good := by
  cases hfind : (db.rows .userSettings).find? fun r => decide (r.userId = userId) with
  | none =>
    have hrow : exec (fetchRow .other .userSettings fun r => decide (r.userId = userId)) db =
        .ok (none, db) := by
      rw [← hfind]
      rfl
    have hexec : exec (getUserReportSettings userId) db = .error (.raised settingsMissing) :=
      exec_bind_of_ok hrow
    exact (Served.of_raised (exec_bind_of_error hexec)).mpr (by decide)
  | some s =>
    have hs := List.mem_of_find?_eq_some hfind
    have hown := List.find?_some hfind
    obtain rfl : s.userId = userId := of_decide_eq_true hown
    exact (Served.bind_of_ok (exec_settings hmain hs)).mpr (hk s hs rfl)

variable [Locale]

omit [Locale] in
/-- The rows of a sorted list are rows of the table, each once. -/
theorem sorted_rows {t : Tbl} (w : Row t → Bool) (le : Row t → Row t → Prop) [DecidableRel le] :
    let sorted := ((db.rows t).filter w).insertionSort le
    (∀ r ∈ sorted, r ∈ db.rows t ∧ w r = true) ∧ (sorted.map (Schema.key t)).Nodup := by
  intro sorted
  have hperm := List.perm_insertionSort le ((db.rows t).filter w)
  refine ⟨fun r hr => List.mem_filter.mp (hperm.mem_iff.mp hr), ?_⟩
  refine (hperm.map (Schema.key t)).nodup_iff.mpr ?_
  exact (db t).nodup.sublist (List.filter_sublist.map _)

omit [Locale] in
theorem page_rows {t : Tbl} (w : Row t → Bool) (le : Row t → Row t → Prop) [DecidableRel le]
    (limit offset : Nat) :
    let page := ((((db.rows t).filter w).insertionSort le).drop offset).take limit
    (∀ r ∈ page, r ∈ db.rows t ∧ w r = true) ∧ (page.map (Schema.key t)).Nodup := by
  intro page
  have hsub : page.Sublist (((db.rows t).filter w).insertionSort le) :=
    (List.take_sublist _ _).trans (List.drop_sublist _ _)
  obtain ⟨hrows, hnd⟩ := sorted_rows w le
  exact ⟨fun r hr => hrows r (hsub.subset hr), hnd.sublist (hsub.map _)⟩

theorem fits_of_figures (h : FiguresFit env db) {a : Row .bankAccounts}
    (hs : s ∈ db.rows .userSettings) (ha : a ∈ db.rows .bankAccounts)
    (hown : a.userId = s.userId) : AccountFits env db s a where
  balance := hown ▸ h.balances a ha (.inr ⟨s, hs, hown.symm⟩)
  home := hown ▸ h.homes s hs a ha hown

theorem served_listAccounts (h : FiguresFit env db)
    (hmain : ∀ s ∈ db.rows .userSettings, s.mainCurrency = homeCurrency)
    (includePeople includeArchived includeDeleted : Bool) (limit offset : Nat) :
    Served (listAccounts env userId includePeople includeArchived includeDeleted limit offset) db
      fun page => ∀ n ∈ page.items.flatMap accountFigures, inInt8 n = true := by
  unfold listAccounts
  refine Served.bind (Q := fun p => (∀ a ∈ p.1, a ∈ db.rows .bankAccounts ∧ a.userId = userId) ∧
    (p.1.map fun a => a.id).Nodup) ?_ ?_
  · refine Served.bind (Q := fun _ => True) (.read trivial) fun total _ => ?_
    refine Served.bind (Served.read (Q := fun rows => (∀ a ∈ rows, a ∈ db.rows .bankAccounts ∧
      a.userId = userId) ∧ (rows.map fun a => a.id).Nodup) ?_) fun rows hrows => .pure hrows
    obtain ⟨hrows, hnd⟩ := page_rows
      (accountConditions userId includePeople includeArchived includeDeleted db)
      (fun a b : Row .bankAccounts => a.sortOrder < b.sortOrder ∨
        a.sortOrder = b.sortOrder ∧ a.createdAt ≤ b.createdAt) limit offset
    refine ⟨fun a ha => ⟨(hrows a ha).1, ?_⟩, hnd⟩
    have hcond := (hrows a ha).2
    simp only [accountConditions, Bool.and_eq_true, decide_eq_true_eq] at hcond
    exact hcond.1.1.1
  · rintro ⟨rows, total⟩ ⟨hrows, hnd⟩
    refine served_settings hmain fun s hs hown => ?_
    subst hown
    refine served_balances hnd (fun a ha => fits_of_figures h hs (hrows a ha).1 (hrows a ha).2) ?_
    intro balances homes hbalances hhomes
    refine .pure fun n hn => ?_
    obtain ⟨body, hbody, hn⟩ := List.mem_flatMap.mp hn
    obtain ⟨a, -, rfl⟩ := List.mem_map.mp hbody
    rcases List.mem_cons.mp hn with rfl | hn
    · exact hbalances a.id
    · exact hhomes a.id n (Option.mem_toList.mp hn)

omit [Locale] in
theorem served_fetchHomeBalance
    (hmain : ∀ s ∈ db.rows .userSettings, s.mainCurrency = homeCurrency) {source : Text}
    {cents : Int} (hfits : ∀ s ∈ db.rows .userSettings, s.userId = userId →
      ∃ result, todaysRate env db s source = .ok result ∧
        ∀ rate ∈ result.map Prod.fst, Converts (cents * rate)) :
    Served (fetchHomeBalance env userId source cents) db fun home =>
      ∀ n ∈ home, inInt8 n = true := by
  unfold fetchHomeBalance
  refine served_settings hmain fun s hs hown => ?_
  obtain ⟨home, hvalue, hhome⟩ := (valueAt_inRange_iff _ _).mpr (hfits s hs hown)
  subst hown
  have hexec : exec (fetchHomeBalance env _ _ _) db = _ :=
    exec_fetchHomeBalance (exec_settings hmain hs) pricedBy_todaysRate source
    cents
  rw [fetchHomeBalance, exec_bind_of_ok (exec_settings hmain hs)] at hexec
  exact (Served.of_ok (hexec.trans (exec_orSignal_ok hvalue))).mpr hhome

theorem served_fetchBothBalances (h : FiguresFit env db)
    (hmain : ∀ s ∈ db.rows .userSettings, s.mainCurrency = homeCurrency) {a : Row .bankAccounts}
    (ha : a ∈ db.rows .bankAccounts) (hactive : a.deletedAt = none) :
    Served (fetchBothBalances env a.userId a) db fun both =>
      inInt8 both.1 = true ∧ ∀ n ∈ both.2, inInt8 n = true := by
  have hbalance := h.balances a ha (.inl hactive)
  have hfetch : exec (fetchBalance a.userId a.id) db = .ok (balanceOf db a.userId a.id, db) := by
    have hone : exec (fetchBalances a.userId [a.id]) db = _ := exec_fetchBalances _ _
    rw [if_pos (by rw [List.all_cons, List.all_nil, Bool.and_true, hbalance])] at hone
    rw [fetchBalance, exec_bind_of_ok hone, exec_pure]
    simp
  refine (Served.bind_of_ok hfetch).mpr ?_
  have hhome := served_fetchHomeBalance hmain fun s hs hown => h.homes s hs a ha hown.symm
  exact hhome.bind fun home hhome => .pure ⟨hbalance, hhome⟩

theorem served_getAccount (h : FiguresFit env db)
    (hmain : ∀ s ∈ db.rows .userSettings, s.mainCurrency = homeCurrency) (id : Uuid) :
    Served (getAccount env userId id) db fun body =>
      ∀ n ∈ accountFigures body, inInt8 n = true := by
  unfold getAccount fetchOwnedRowOr404
  refine Served.bind (Q := fun a => a ∈ db.rows .bankAccounts ∧ a.userId = userId ∧
    a.deletedAt = none) ?_ ?_
  · refine Served.bind (.read (Q := fun found => found = _) rfl) ?_
    rintro _ rfl
    refine .orRaise (by decide) fun a hfind => ?_
    have howns := owns_active.mp (List.find?_some hfind)
    exact ⟨List.mem_of_find?_eq_some hfind, howns.2⟩
  · rintro a ⟨ha, rfl, hactive⟩
    refine (served_fetchBothBalances h hmain ha hactive).bind fun both hboth => ?_
    refine .pure fun n hn => ?_
    rcases List.mem_cons.mp hn with rfl | hn
    · exact hboth.1
    · exact hboth.2 n (Option.mem_toList.mp hn)

/-! ### Reconciliations -/

theorem served_fetchReconciliation (h : FiguresFit env db) (l : Label) (id : Uuid)
    (state : RowState) :
    Served (fetchReconciliation l userId id state) db fun found =>
      ∀ r ∈ found, inInt8 r.differenceCents = true := by
  unfold fetchReconciliation
  refine (Served.bind_of_ok (exec_read _ _ _)).mpr ?_
  cases hfind : (db.rows .reconciliations).find? (owns .reconciliations id userId state) with
  | none => exact .pure fun r hr => by cases hr
  | some rec =>
    have hrange := h.differences rec (List.mem_of_find?_eq_some hfind)
    rw [Option.map_some]
    dsimp only
    rw [if_pos hrange]
    refine .pure fun r hr => ?_
    cases hr
    rw [differenceInRange, Bool.and_eq_true] at hrange
    exact hrange.2

theorem served_getReconciliation (h : FiguresFit env db) (id : Uuid) (debitAsNegative : Bool)
    (limit offset : Nat) :
    Served (getReconciliation userId id debitAsNegative limit offset) db fun r =>
      inInt8 r.differenceCents = true := by
  unfold getReconciliation
  refine (served_fetchReconciliation h .other id .active).bind fun found hfound => ?_
  refine Served.bind (.orRaise (Q := fun r => inInt8 r.differenceCents = true) (by decide)
    hfound) fun recon hrecon => ?_
  refine Served.bind (Q := fun _ => True) ?_ fun page _ => ?_
  · refine Served.bind (.read (Q := fun _ => True) trivial) fun total _ => ?_
    exact Served.bind (.read (Q := fun _ => True) trivial) fun rows _ => .pure trivial
  · exact Served.bind (.read (Q := fun _ => True) trivial) fun txns _ => .pure hrecon

theorem served_listReconciliations (h : FiguresFit env db) (accountId : Option Uuid)
    (includeDeleted : Bool) (limit offset : Nat) :
    Served (listReconciliations userId accountId includeDeleted limit offset) db fun page =>
      ∀ n ∈ page.items.map fun r => r.differenceCents, inInt8 n = true := by
  unfold listReconciliations
  refine (Served.bind_of_ok (exec_read _ _ _)).mpr ((Served.bind_of_ok (exec_read _ _ _)).mpr ?_)
  obtain ⟨hrows, -⟩ := page_rows (reconciliationConditions userId accountId includeDeleted)
    (fun r s => reconciliationLe accountId r s) limit offset
  dsimp only
  rw [if_pos (List.all_eq_true.mpr fun rec hrec => h.differences rec (hrows rec hrec).1)]
  refine .pure fun n hn => ?_
  obtain ⟨r, hr, rfl⟩ := List.mem_map.mp hn
  obtain ⟨rec, hrec, rfl⟩ := List.mem_map.mp hr
  have hrange := h.differences rec (hrows rec hrec).1
  rw [differenceInRange, Bool.and_eq_true] at hrange
  exact hrange.2

/-! ### Months -/

/-- Every month that can be asked for has a window. -/
theorem exists_window (tz : Text) {month : Int × Int} (hvalid : MonthValid month) :
    ∃ startUtc endUtc, MonthWindow tz month startUtc endUtc := by
  obtain ⟨⟨hlo, hhi⟩, hm₁, hm₂⟩ := hvalid
  obtain ⟨c, -, hbounds⟩ := computeMonthBounds_eq_monthBounds tz
  have hwindow := RangeLemmas.monthBounds_monthAt c (i := Time.monthIndex month.1 month.2)
    (by unfold Time.monthIndex; omega) (by unfold Time.monthIndex; omega)
  rw [Time.monthAt_monthIndex hm₁ hm₂] at hwindow
  dsimp only at hwindow
  refine ⟨c.monthStart (Time.monthIndex month.1 month.2),
    c.monthStart (Time.monthIndex month.1 month.2 + 1), ?_⟩
  rw [MonthWindow, hbounds, hwindow, Option.map_some]

theorem exec_monthFlow (h : FiguresFit env db)
    (hs : s ∈ db.rows .userSettings) {month : Int × Int} (hvalid : MonthValid month)
    {startUtc endUtc : Timestamp} (hwindow : MonthWindow s.displayTimezone month startUtc endUtc) :
    Served (computeMonthFlow s.userId startUtc endUtc s.displayTimezone) db fun flow =>
      ∀ n ∈ flow.figures, inInt8 n = true := by
  have hfits := figuresInRange_iff.mpr
    (h.months s hs month hvalid startUtc endUtc hwindow)
  have hexec : exec (computeMonthFlow s.userId startUtc endUtc s.displayTimezone) db = _ :=
    computeMonthFlow_eq _
  rw [if_pos hfits] at hexec
  exact (Served.of_ok hexec).mpr (reportOf_inRange hfits)

theorem served_computeOne (h : FiguresFit env db)
    (hs : s ∈ db.rows .userSettings) {month : Int × Int} (hvalid : MonthValid month) :
    Served (computeOne s.userId s.displayTimezone month.1 month.2) db fun report =>
      ∀ n ∈ report.flow.figures, inInt8 n = true := by
  obtain ⟨startUtc, endUtc, hwindow⟩ := exists_window s.displayTimezone hvalid
  have hbounds : computeMonthBounds (fun _ => (month.1, month.2)) s.displayTimezone (some month.1)
      (some month.2) = _ := hwindow
  unfold computeOne
  rw [hbounds]
  refine (Served.bind_of_ok rfl).mpr ?_
  exact (exec_monthFlow h hs hvalid hwindow).bind fun flow hflow => .pure hflow

omit [Platform] [Locale] in
/-- The months of a range lie between its ends. -/
theorem valid_of_mem_iterMonths {year month toYear toMonth : Int} (hyear : 1900 ≤ year)
    (hmonth : 1 ≤ month ∧ month ≤ 12) (hto : toYear ≤ 2100) {p : Int × Int}
    (hp : p ∈ iterMonths year month toYear toMonth) : MonthValid p := by
  fun_induction iterMonths year month toYear toMonth with
  | case1 year month hle ihNext ihSame =>
    rcases List.mem_cons.mp hp with rfl | hp
    · exact ⟨⟨hyear, by omega⟩, hmonth⟩
    · split at hp
      · exact ihNext (by omega) ⟨le_rfl, by decide⟩ hp
      · next hlast => exact ihSame hlast hyear ⟨by omega, by omega⟩ hp
  | case2 year month hle => cases hp

omit [Platform] [Locale] in
theorem queryError_refuses {q : MonthlyReportQuery} {e : AppError} (h : queryError q = some e) :
    e.statusCode < 500 := by
  unfold queryError at h
  dsimp only at h
  split_ifs at h <;> cases h <;> exact (by decide : 422 < 500)

omit [Platform] [Locale] in
theorem rangeError_refuses {fromYear fromMonth toYear toMonth : Int} {e : AppError}
    (h : rangeError fromYear fromMonth toYear toMonth = some e) : e.statusCode < 500 := by
  unfold rangeError at h
  dsimp only at h
  split_ifs at h <;> cases h <;> exact (by decide : 422 < 500)

omit [Platform] [Locale] in
/-- The parameters that are let through are one of the two forms. -/
theorem form_of_queryError {q : MonthlyReportQuery} (h : queryError q = none) :
    (q.year.isSome ∧ q.month.isSome) ∨
      q.fromYear.isSome ∧ q.fromMonth.isSome ∧ q.toYear.isSome ∧ q.toMonth.isSome := by
  obtain ⟨year, month, fromYear, fromMonth, toYear, toMonth⟩ := q
  cases year <;> cases month <;> cases fromYear <;> cases fromMonth <;> cases toYear <;>
    cases toMonth <;> simp [queryError] at h ⊢

theorem served_getMonthlyReport (h : FiguresFit env db)
    (hmain : ∀ s ∈ db.rows .userSettings, s.mainCurrency = homeCurrency) {q : MonthlyReportQuery}
    (hvalid : (Query.monthlyReport q).Valid) :
    Served (getMonthlyReport userId q) db fun report =>
      ∀ n ∈ report.figures, inInt8 n = true := by
  obtain ⟨hyear, hmonth, hfromYear, hfromMonth, htoYear, htoMonth⟩ := hvalid
  unfold getMonthlyReport
  cases herror : queryError q with
  | some e => exact (Served.of_raised rfl).mpr (queryError_refuses herror)
  | none =>
    refine served_settings hmain fun s hs hown => ?_
    subst hown
    dsimp only
    split
    · next year month hy hm =>
      have hone : MonthValid (year, month) := ⟨hyear year hy, hmonth month hm⟩
      exact Served.map_iff.mpr (served_computeOne h hs hone)
    · next fromYear fromMonth toYear toMonth hfy hfm hty htm _ =>
      cases hrange : rangeError fromYear fromMonth toYear toMonth with
      | some e => exact (Served.of_raised rfl).mpr (rangeError_refuses hrange)
      | none =>
        have hmonth : ∀ p ∈ iterMonths fromYear fromMonth toYear toMonth, MonthValid p :=
          fun p hp => valid_of_mem_iterMonths (hfromYear fromYear hfy).1 (hfromMonth fromMonth hfm)
            (htoYear toYear hty).2 hp
        have hmonths := Served.mapM fun p hp => served_computeOne h hs (hmonth p hp)
        refine Served.map_iff.mpr (hmonths.mono fun months hmonths n hn => ?_)
        obtain ⟨report, hreport, hn⟩ := List.mem_flatMap.mp hn
        exact hmonths report hreport n hn
    · next hone hrange =>
      -- The last branch of the route is left to no query.
      exfalso
      rcases form_of_queryError herror with ⟨hy, hm⟩ | ⟨hfy, hfm, hty, htm⟩
      · obtain ⟨year, hy⟩ := Option.isSome_iff_exists.mp hy
        obtain ⟨month, hm⟩ := Option.isSome_iff_exists.mp hm
        exact hone year month hy hm
      · obtain ⟨fromYear, hfy⟩ := Option.isSome_iff_exists.mp hfy
        obtain ⟨fromMonth, hfm⟩ := Option.isSome_iff_exists.mp hfm
        obtain ⟨toYear, hty⟩ := Option.isSome_iff_exists.mp hty
        obtain ⟨toMonth, htm⟩ := Option.isSome_iff_exists.mp htm
        exact hrange fromYear fromMonth toYear toMonth hfy hfm hty htm

theorem served_loadAccounts (h : FiguresFit env db) (hs : s ∈ db.rows .userSettings)
    (isPerson archived : Bool) :
    Served (loadAccounts env s.userId s.mainCurrency
      (env.today (resolveTimezone s.displayTimezone)) isPerson archived) db fun panel =>
        ∀ a ∈ panel, ∀ n ∈ a.figures, inInt8 n = true := by
  unfold loadAccounts
  refine (Served.bind_of_ok (exec_read _ _ _)).mpr ?_
  obtain ⟨hrows, hnd⟩ := sorted_rows (fun a : Row .bankAccounts =>
    decide (a.userId = s.userId ∧ a.deletedAt = none ∧ a.isPerson = isPerson ∧
      a.isArchived = archived)) (fun a b => a.sortOrder < b.sortOrder ∨
        a.sortOrder = b.sortOrder ∧ Locale.nameLe a.name b.name = true)
  refine served_balances hnd (fun a ha => fits_of_figures h hs (hrows a ha).1
    (of_decide_eq_true (hrows a ha).2).1) ?_
  refine fun balances homes hbalances hhomes => .pure fun a ha n hn => ?_
  obtain ⟨r, -, rfl⟩ := List.mem_map.mp ha
  rcases List.mem_cons.mp hn with rfl | hn
  · exact hbalances r.id
  · exact hhomes r.id n (Option.mem_toList.mp hn)

theorem served_getDashboard (h : FiguresFit env db)
    (hmain : ∀ s ∈ db.rows .userSettings, s.mainCurrency = homeCurrency)
    {thisMonth : Text → Int × Int} (hvalid : ∀ tz, MonthValid (thisMonth tz))
    (includeArchived : Bool) :
    Served (getDashboard env thisMonth userId includeArchived) db fun d =>
      ∀ n ∈ d.figures, inInt8 n = true := by
  unfold getDashboard
  refine served_settings hmain fun s hs hown => ?_
  subst hown
  have hmonth := hvalid (resolveTimezone s.displayTimezone)
  obtain ⟨startUtc, endUtc, hwindow⟩ := exists_window s.displayTimezone hmonth
  have hbounds : computeMonthBounds thisMonth s.displayTimezone none none = _ := hwindow
  rw [hbounds]
  refine (Served.bind_of_ok rfl).mpr ?_
  refine (served_loadAccounts h hs false false).bind fun bankAccounts hbank => ?_
  refine (served_loadAccounts h hs true false).bind fun people hpeople => ?_
  refine (exec_monthFlow h hs hmonth hwindow).bind fun flow hflow => ?_
  refine Served.bind (Q := fun archived => (∀ a ∈ archived.1.getD [], ∀ n ∈ a.figures,
    inInt8 n = true) ∧ ∀ a ∈ archived.2.getD [], ∀ n ∈ a.figures, inInt8 n = true) ?_ ?_
  · unfold loadArchived
    split
    · refine (served_loadAccounts h hs false true).bind fun accounts haccounts => ?_
      exact (served_loadAccounts h hs true true).bind fun people hpeople =>
        .pure ⟨haccounts, hpeople⟩
    · exact .pure ⟨List.forall_mem_nil _, List.forall_mem_nil _⟩
  · rintro ⟨archivedAccounts, archivedPeople⟩ ⟨haccounts, harchived⟩
    refine .pure fun n hn => ?_
    rcases List.mem_append.mp hn with hn | hn
    · obtain ⟨a, ha, hn⟩ := List.mem_flatMap.mp hn
      simp only [List.mem_append] at ha
      rcases ha with ((ha | ha) | ha) | ha
      · exact hbank a ha n hn
      · exact hpeople a ha n hn
      · exact haccounts a ha n hn
      · exact harchived a ha n hn
    · exact hflow n hn

theorem readsAnswer_of_figuresFit (h : FiguresFit env db)
    (hmain : ∀ s ∈ db.rows .userSettings, s.mainCurrency = homeCurrency) : ReadsAnswer env db := by
  intro userId q hvalid
  cases q with
  | accounts includePeople includeArchived includeDeleted limit offset =>
    exact Served.map_iff.mpr
      (served_listAccounts h hmain includePeople includeArchived includeDeleted limit offset)
  | account id => exact Served.map_iff.mpr (served_getAccount h hmain id)
  | dashboard thisMonth includeArchived =>
    exact Served.map_iff.mpr (served_getDashboard h hmain hvalid includeArchived)
  | monthlyReport q =>
    exact Served.map_iff.mpr (served_getMonthlyReport h hmain hvalid)
  | reconciliations accountId includeDeleted limit offset =>
    exact Served.map_iff.mpr (served_listReconciliations h accountId includeDeleted limit offset)
  | reconciliation id debitAsNegative limit offset =>
    exact Served.map_iff.mpr ((served_getReconciliation h id debitAsNegative limit offset).mono
      fun r hr => List.forall_mem_singleton.mpr hr)

/-! ### States that are read -/

omit [Locale] in
/-- Every row is alone on some page. -/
theorem exists_page {t : Tbl} {w : Row t → Bool} (le : Row t → Row t → Prop) [DecidableRel le]
    {r : Row t} (hr : r ∈ db.rows t) (hw : w r = true) :
    ∃ offset, ((((db.rows t).filter w).insertionSort le).drop offset).take 1 = [r] := by
  have hmem : r ∈ ((db.rows t).filter w).insertionSort le :=
    (List.perm_insertionSort le _).mem_iff.mpr (List.mem_filter.mpr ⟨hr, hw⟩)
  obtain ⟨offset, hoffset⟩ := List.mem_iff_getElem?.mp hmem
  exact ⟨offset, by rw [List.take_one, List.head?_drop, hoffset, Option.toList_some]⟩

/-- The account alone on its page. -/
theorem accountFits_of_served (h : ReadsAnswer env db)
    (hmain : ∀ s ∈ db.rows .userSettings, s.mainCurrency = homeCurrency)
    (hs : s ∈ db.rows .userSettings) {a : Row .bankAccounts} (ha : a ∈ db.rows .bankAccounts)
    (hown : a.userId = s.userId) : AccountFits env db s a := by
  have hcond : accountConditions s.userId true true true db a = true := by
    simp [accountConditions, hown]
  obtain ⟨offset, hpage⟩ := exists_page (fun a b : Row .bankAccounts =>
    a.sortOrder < b.sortOrder ∨ a.sortOrder = b.sortOrder ∧ a.createdAt ≤ b.createdAt) ha hcond
  have hlist : ∃ total, exec (listPage .bankAccounts (accountConditions s.userId true true true)
      (fun a b => a.sortOrder < b.sortOrder ∨
        a.sortOrder = b.sortOrder ∧ a.createdAt ≤ b.createdAt) 1 offset) db =
          .ok (([a], total), db) := by
    rw [← hpage]
    exact ⟨_, rfl⟩
  obtain ⟨total, hlist⟩ := hlist
  have hread := Served.map_iff.mp
    (h s.userId (.accounts true true true 1 offset) ⟨le_rfl, by decide⟩)
  unfold listAccounts at hread
  rw [Served.bind_of_ok hlist, Served.bind_of_ok (exec_settings hmain hs)] at hread
  have hids : ([heldOf db s.userId a].map fun a => a.id).Nodup := List.nodup_singleton _
  have hbalances : exec (fetchBalances s.userId ([a].map fun a => a.id)) db = _ :=
    exec_fetchBalances _ _
  have hall : (([a].map fun a => a.id).all fun id => inInt8 (balanceOf db s.userId id)) =
      inInt8 (balanceOf db s.userId a.id) := Bool.and_true _
  rw [hall] at hbalances
  by_cases hbalance : inInt8 (balanceOf db s.userId a.id) = true
  · rw [if_pos hbalance] at hbalances
    replace hread := (Served.bind_of_ok hbalances).mp hread
    refine ⟨hbalance, (valueAt_inRange_iff _ _).mp ?_⟩
    cases hvalue : valueAt (todaysRate env db s) a.currencyCode (balanceOf db s.userId a.id) with
    | error e =>
      have hraise := exec_fetchHomeBalances_error pricedBy_todaysRate hids List.mem_cons_self hvalue
      exact absurd ((Served.of_raised (exec_bind_of_error hraise)).mp hread) (by decide)
    | ok home =>
      have hone : ∀ held ∈ [heldOf db s.userId a],
          valueAt (todaysRate env db s) held.currencyCode held.cents = .ok ((fun _ => home) held) :=
        List.forall_mem_singleton.mpr hvalue
      have hhomes := exec_fetchHomeBalances pricedBy_todaysRate hids hone
      have hin := (Served.of_ok rfl).mp ((Served.bind_of_ok hhomes).mp hread)
      refine ⟨home, rfl, fun n hn => hin n ?_⟩
      simp [accountFromRow, accountFigures, heldOf, Option.mem_def.mp hn]
  · rw [if_neg hbalance] at hbalances
    exact absurd hread (Served.not_of_database (exec_bind_of_error hbalances))

theorem balance_of_served (h : ReadsAnswer env db) {a : Row .bankAccounts}
    (ha : a ∈ db.rows .bankAccounts) (hactive : a.deletedAt = none) :
    inInt8 (balanceOf db a.userId a.id) = true := by
  have hread := Served.map_iff.mp (h a.userId (.account a.id) trivial)
  have hfind : exec (fetchOwnedRowOr404 .bankAccounts a.id a.userId "account" .active) db =
      .ok (a, db) :=
    exec_fetchOwnedRowOr404_ok.mpr ⟨find?_of_mem (fun x hx => (owns_active.mp hx).1) ha
      (owns_active.mpr ⟨rfl, rfl, hactive⟩), rfl⟩
  unfold getAccount at hread
  replace hread := (Served.bind_of_ok hfind).mp hread
  by_contra hbalance
  have hfetch : exec (fetchBalances a.userId [a.id]) db = _ := exec_fetchBalances _ _
  rw [if_neg (by rw [List.all_cons, List.all_nil, Bool.and_true]; exact hbalance)] at hfetch
  have hboth : exec (fetchBothBalances env a.userId a) db = .error .database :=
    exec_bind_of_error (exec_bind_of_error hfetch)
  exact Served.not_of_database (exec_bind_of_error hboth) hread

theorem difference_of_served (h : ReadsAnswer env db) {rec : Row .reconciliations}
    (hrec : rec ∈ db.rows .reconciliations) : differenceInRange db rec = true := by
  have hcond : reconciliationConditions rec.userId none true rec = true := by
    simp [reconciliationConditions]
  obtain ⟨offset, hpage⟩ := exists_page (fun r s => reconciliationLe none r s) hrec hcond
  have hread := Served.map_iff.mp
    (h rec.userId (.reconciliations none true 1 offset) ⟨le_rfl, by decide⟩)
  unfold listReconciliations at hread
  replace hread := (Served.bind_of_ok (exec_read _ _ _)).mp
    ((Served.bind_of_ok (exec_read _ _ _)).mp hread)
  dsimp only at hread
  rw [hpage, List.all_cons, List.all_nil, Bool.and_true] at hread
  by_contra hrange
  rw [if_neg hrange] at hread
  exact Served.not_of_database rfl hread

theorem month_of_served (h : ReadsAnswer env db)
    (hmain : ∀ s ∈ db.rows .userSettings, s.mainCurrency = homeCurrency)
    (hs : s ∈ db.rows .userSettings) {month : Int × Int} (hvalid : MonthValid month)
    {startUtc endUtc : Timestamp} (hwindow : MonthWindow s.displayTimezone month startUtc endUtc) :
    MonthFits db s.userId startUtc endUtc (resolveTimezone s.displayTimezone) := by
  have hread := Served.map_iff.mp (h s.userId
    (.monthlyReport ⟨some month.1, some month.2, none, none, none, none⟩)
    ⟨by simpa using hvalid.1, by simpa using hvalid.2, by simp, by simp, by simp, by simp⟩)
  unfold getMonthlyReport at hread
  replace hread := (Served.bind_of_ok (exec_settings hmain hs)).mp hread
  replace hread := Served.map_iff.mp hread
  have hbounds : computeMonthBounds (fun _ => (month.1, month.2)) s.displayTimezone (some month.1)
      (some month.2) = _ := hwindow
  unfold computeOne at hread
  rw [hbounds] at hread
  replace hread := (Served.bind_of_ok rfl).mp hread
  rw [← figuresInRange_iff]
  by_contra hrange
  have hexec : exec (computeMonthFlow s.userId startUtc endUtc s.displayTimezone) db = _ :=
    computeMonthFlow_eq _
  rw [if_neg hrange] at hexec
  exact Served.not_of_database (exec_bind_of_error hexec) hread

theorem figuresFit_of_readsAnswer (h : ReadsAnswer env db)
    (hmain : ∀ s ∈ db.rows .userSettings, s.mainCurrency = homeCurrency) : FiguresFit env db where
  balances a ha := by
    rintro (hactive | ⟨s, hs, hown⟩)
    · exact balance_of_served h ha hactive
    · rw [← hown]
      exact (accountFits_of_served h hmain hs ha hown.symm).balance
  homes s hs a ha hown := by
    rw [hown]
    exact (accountFits_of_served h hmain hs ha hown).home
  differences _ hrec := difference_of_served h hrec
  months _ hs _ hvalid _ _ hwindow := month_of_served h hmain hs hvalid hwindow

end FigureLemmas

end Reads

open FigureLemmas

/-- In every state that requests reach, whatever rates are stored beside it, all
reads answer with `bigint`s exactly when the figures fit. -/
theorem reads_answer_iff [Platform] [Locale] {db₀ db : Db}
    (hsettings : Constrained .userSettings db₀) (calls : List Call)
    (hdb : ∀ t, t ≠ .exchangeRates → db t = run db₀ calls t) (env : Env) :
    ReadsAnswer env db ↔ FiguresFit env db := by
  have hrows : ∀ t, t ≠ .exchangeRates → db.rows t = (run db₀ calls).rows t :=
    fun t ht => congrArg Table.rows (hdb t ht)
  have hmain : ∀ s ∈ db.rows .userSettings, s.mainCurrency = homeCurrency := by
    rw [hrows _ (by decide)]
    intro s hs
    have hchecks := (constrained_run hsettings calls s hs).1
    simp only [Schema.checks, checksOf, Bool.and_eq_true, decide_eq_true_eq] at hchecks
    exact hchecks.1
  exact ⟨fun h => figuresFit_of_readsAnswer h hmain,
    fun h => readsAnswer_of_figuresFit h hmain⟩

/-! ## Two fortunes -/

open Ascii in
theorem reads_answer_iff_setup : ReadsAnswer (envAt 9) (run blank setup) := by
  have hsettings : Constrained .userSettings blank := fun _ h => by cases h
  refine (reads_answer_iff hsettings setup (fun _ _ => rfl) (envAt 9)).mpr ?_
  have hrate : ∀ s ∈ (run blank setup).rows .userSettings,
      ∀ a ∈ (run blank setup).rows .bankAccounts,
        todaysRate (envAt 9) (run blank setup) s a.currencyCode = .ok (some (1, 0)) ∧
          Converts (balanceOf (run blank setup) a.userId a.id * 1) := by
    decide +kernel
  have hjoin : ∀ s ∈ (run blank setup).rows .userSettings,
      ∀ t ∈ (run blank setup).rows .transactions,
        homeRateJoin (run blank setup) (resolveTimezone s.displayTimezone) t
          (accountJoin (run blank setup) t) = none := by
    decide +kernel
  have hledger : ∀ s ∈ (run blank setup).rows .userSettings,
      ∀ txns, txns = ((run blank setup).rows .transactions).map
        (txnOf (run blank setup) (resolveTimezone s.displayTimezone)) →
          inflowOf txns < 2 ^ 63 ∧ outflowOf txns < 2 ^ 63 ∧ unconvertedOf txns < 2 ^ 63 := by
    rintro s hs _ rfl
    revert s
    decide +kernel
  constructor
  · intro a ha _
    revert a
    decide +kernel
  · intro s hs a ha _
    obtain ⟨hone, hconverts⟩ := hrate s hs a ha
    refine ⟨_, hone, fun rate hr => ?_⟩
    obtain rfl : (1 : Rat) = rate := Option.some.inj hr
    exact hconverts
  · decide +kernel
  · intro s hs month _ startUtc endUtc _
    have hsub := ((List.filter_sublist (p := isInMonth (run blank setup) s.userId startUtc endUtc)
      (l := (run blank setup).rows .transactions)).map
        (txnOf (run blank setup) (resolveTimezone s.displayTimezone)))
    obtain ⟨hinflow, houtflow, hcount⟩ := hledger s hs _ rfl
    refine ⟨fun t ht rate hr => ?_, (inflowOf_le hsub).trans_lt hinflow,
      (outflowOf_le hsub).trans_lt houtflow, ?_⟩
    · rw [hjoin s hs t (List.mem_filter.mp ht).1] at hr
      cases hr
    · refine (unconvertedOf_le (fun x hx => ?_) hsub).2.trans_lt hcount
      obtain ⟨t, -, rfl⟩ := List.mem_map.mp hx
      exact flagged_txnOf t

namespace Ascii

/-- Two prizes, each the largest `bigint`. -/
def fortunes : List Call := setup ++ [
  callAt 6 (.createTransaction ⟨31, "Prize".toList, 2 ^ 63 - 1, 5, 10, 20, none, []⟩),
  callAt 7 (.createTransaction ⟨32, "Prize".toList, 2 ^ 63 - 1, 5, 10, 20, none, []⟩)]

end Ascii

open Ascii in
/-- Both are accepted, and the list of the accounts fails from then on. -/
theorem fortunes_lock_list :
    ((run blank fortunes).rows .transactions).map (fun t => t.amountCents) =
        [500, 2 ^ 63 - 1, 2 ^ 63 - 1] ∧
      (exec ((Query.accounts false false false 50 0).figures (envAt 9) 1)
        (run blank fortunes)).map Prod.fst = .error .database ∧
      ¬ReadsAnswer (envAt 9) (run blank fortunes) := by
  have hfails : (exec ((Query.accounts false false false 50 0).figures (envAt 9) 1)
      (run blank fortunes)).map Prod.fst = .error .database := by
    decide +kernel
  refine ⟨by decide +kernel, hfails, fun h => ?_⟩
  have hread := h 1 (.accounts false false false 50 0) ⟨by decide, by decide⟩
  cases hexec : exec ((Query.accounts false false false 50 0).figures (envAt 9) 1)
      (run blank fortunes) with
  | ok x =>
    rw [hexec] at hfails
    cases hfails
  | error e =>
    rw [hexec] at hfails
    cases hfails
    exact Served.not_of_database hexec hread

end ExpenseEngine
