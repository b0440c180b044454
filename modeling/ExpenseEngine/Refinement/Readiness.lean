import ExpenseEngine.Invariants.Drafts
import ExpenseEngine.Listings

/-!
# The ready list and the promotion agree

Which drafts are ready is written twice: as the conditions of `?ready=true` and
as the checks of a promotion. In a reachable state the two agree, and what a
promotion writes after its checks is refused for one reason only: the version of
the draft is at the end of its column.

Results:
1. `exec_promoteInboxItem_iff`: a promotion is its checks followed by its writes.
2. `promoteErrors_eq_nil`: the checks are the conditions of the list.
3. `promoteWrites_total`: the writes go through while the version fits.
4. `ready_iff_promotable`: in every run.
-/

namespace ExpenseEngine

open Sql Sql.Prog

section Readiness

open IntegrityLemmas LinkLemmas VersionLemmas DraftLemmas

variable [Platform] {db db' : Db} {env : Env} {userId : Uuid}

/-! ## A promotion in two parts -/

/-- What a promotion writes once its checks have passed. -/
def promoteWrites (env : Env) (userId targetId : Uuid) (draft : Row .transactionInbox)
    (draftHashtagIds : List Uuid) (transactionType : TransactionType) : Op Body := do
  let row ← insertTransactionRow env userId targetId (draft.title.getD []) draft.description
    (draft.amountCents.getD 0) transactionType (draft.date.getD 0) (draft.accountId.getD 0)
    (draft.categoryId.getD 0) (some draft.id)
  syncIfAny env row.id userId draftHashtagIds .ledger
  let response ← attachHashtagIds row
  writeActivityLog env (env.uuid 0) userId "transaction" row.id .created none
    (some (.transaction response))
  let inboxAfterRow ← orRaise
    (← updateRow .transactionInbox (owns .transactionInbox draft.id userId .either)
      (bumped .transactionInbox env.now (setPromoted env)))
    internalError
  cascadeDelete env userId draft.id .inbox []
  let inboxAfter ← attachInboxHashtagIds inboxAfterRow
  writeActivityLog env (env.uuid 1) userId "inbox" draft.id .deleted
    (some (.inbox { draft with hashtagIds := draftHashtagIds })) (some (.inbox inboxAfter))
  return .transaction response

/-- The account a promotion finds. -/
def draftAccount (userId : Uuid) (db : Db) (d : Row .transactionInbox) :
    Option (Row .bankAccounts) :=
  d.accountId.bind fun a =>
    (db.rows .bankAccounts).find? fun r => decide (r.id = a) && isActiveAccount userId r

/-- The category a promotion finds. -/
def draftCategory (userId : Uuid) (db : Db) (d : Row .transactionInbox) :
    Option (Row .categories) :=
  d.categoryId.bind fun c =>
    (db.rows .categories).find? fun r => decide (r.id = c) && isActiveCategory userId r

namespace ReadinessLemmas

theorem exec_promoteAccount_ok {d : Row .transactionInbox} {o : Option (Row .bankAccounts)} :
    exec (promoteAccount userId d.accountId) db = .ok (o, db') ↔
      o = draftAccount userId db d ∧ db' = db := by
  unfold draftAccount
  cases d.accountId with
  | none => exact exec_pure_ok
  | some a => exact exec_fetchRow_ok

theorem exec_promoteCategory_ok {d : Row .transactionInbox} {o : Option (Row .categories)} :
    exec (promoteCategory userId d.categoryId) db = .ok (o, db') ↔
      o = draftCategory userId db d ∧ db' = db := by
  unfold draftCategory
  cases d.categoryId with
  | none => exact exec_pure_ok
  | some c => exact exec_fetchRow_ok

end ReadinessLemmas

open ReadinessLemmas

theorem exec_promoteInboxItem_iff {d : Row .transactionInbox} (hd : d ∈ db.rows .transactionInbox)
    {targetId : Uuid} {x : Body × Db} :
    exec (promoteInboxItem env userId d.id targetId) db = .ok x ↔
      isPendingDraft d.id userId d = true ∧
        promoteErrors env.now d (draftAccount userId db d) (draftCategory userId db d) = [] ∧
          ∃ ty, d.transactionType = some ty ∧
            exec (promoteWrites env userId targetId d (hashtagIdsOf db d.id .inbox) ty) db =
              .ok x := by
  simp only [promoteInboxItem, exec_bind_ok, exec_fetchRowForUpdate_ok, exec_orRaise_ok,
    exec_fetchHashtagIds_ok, exec_dbNow_ok, exec_promoteAccount_ok, exec_promoteCategory_ok,
    exec_raiseIf_ok, Bool.not_eq_true', Bool.not_eq_false, List.isEmpty_iff]
  have hkey : ∀ r, isPendingDraft d.id userId r = true → keyOf .transactionInbox r = d.id :=
    fun r hr => (of_decide_eq_true hr).1
  constructor
  · rintro ⟨_, _, ⟨rfl, rfl⟩, draft, _, ⟨hfind, rfl⟩, h⟩
    obtain ⟨_, _, ⟨rfl, rfl⟩, _, _, ⟨rfl, rfl⟩, _, _, ⟨rfl, rfl⟩, _, _, ⟨rfl, rfl⟩, h⟩ := h
    obtain ⟨_, _, ⟨herr, rfl⟩, ty, _, ⟨hty, rfl⟩, hwrites⟩ := h
    obtain ⟨hmem, hpending⟩ := find?_row hfind
    obtain rfl : draft = d := EvolutionLemmas.eq_of_id hmem hd (hkey _ hpending)
    refine ⟨hpending, herr, ty, hty, ?_⟩
    simpa only [promoteWrites, exec_bind_ok, exec_orRaise_ok] using hwrites
  · rintro ⟨hpending, herr, ty, hty, hwrites⟩
    refine ⟨_, _, ⟨rfl, rfl⟩, d, _, ⟨find?_of_mem hkey hd hpending, rfl⟩, _, _, ⟨rfl, rfl⟩, _, _,
      ⟨rfl, rfl⟩, _, _, ⟨rfl, rfl⟩, _, _, ⟨rfl, rfl⟩, (), _, ⟨herr, rfl⟩, ty, _, ⟨hty, rfl⟩, ?_⟩
    simpa only [promoteWrites, exec_bind_ok, exec_orRaise_ok] using hwrites

/-! ## The checks -/

namespace ReadinessLemmas

theorem draftAccount_isSome {d : Row .transactionInbox} :
    (draftAccount d.userId db d).isSome = true ↔ d.accountId.isSome = true ∧
      (db.rows .bankAccounts).any (fun a => decide (d.accountId = some a.id ∧
        a.userId = d.userId ∧ a.deletedAt = none ∧ a.isArchived = false)) = true := by
  unfold draftAccount
  cases ha : d.accountId with
  | none => simp
  | some a =>
    rw [Option.bind_some, List.find?_isSome, List.any_eq_true]
    simp only [Bool.and_eq_true, decide_eq_true_eq, isActiveAccount, Option.isSome_some, true_and,
      Option.some.injEq, eq_comm (a := a)]

/-- The category is there, and no category of the system. -/
theorem draftCategory_ready {d : Row .transactionInbox} :
    (∃ c, draftCategory d.userId db d = some c ∧ c.systemKey = none) ↔
      d.categoryId.isSome = true ∧
        (db.rows .categories).any (fun c => decide (d.categoryId = some c.id ∧
          c.userId = d.userId ∧ c.deletedAt = none ∧ c.systemKey = none)) = true := by
  unfold draftCategory
  cases hc : d.categoryId with
  | none => simp
  | some cid =>
    simp only [Option.bind_some, Option.isSome_some, true_and, List.any_eq_true, decide_eq_true_eq,
      Option.some.injEq]
    constructor
    · rintro ⟨c, hfind, hsys⟩
      obtain ⟨hmem, hw⟩ := find?_row hfind
      simp only [Bool.and_eq_true, decide_eq_true_eq, isActiveCategory] at hw
      exact ⟨c, hmem, hw.1.symm, hw.2.1, hw.2.2, hsys⟩
    · rintro ⟨c, hmem, hid, hu, hdel, hsys⟩
      refine ⟨c, find?_of_mem (k := cid) ?_ hmem ?_, hsys⟩
      · simp +contextual [keyOf]
      · simp [isActiveCategory, hid, hu, hdel]

end ReadinessLemmas

/-- The checks of a promotion are the conditions of the list. -/
theorem promoteErrors_eq_nil {d : Row .transactionInbox} {now : Timestamp}
    (hshape : DraftShape d) :
    promoteErrors now d (draftAccount d.userId db d) (draftCategory d.userId db d) = [] ↔
      isReady now db d = true := by
  have htitle : ¬(d.title.getD [] = [] ∨ d.title = some "UNTITLED".toList) ↔
      d.title.isSome = true ∧ d.title ≠ some "UNTITLED".toList := by
    have hne := hshape.1
    cases ht : d.title with
    | none => simp
    | some s =>
      rw [ht] at hne
      simp only [Option.getD_some, not_or, Option.isSome_some, true_and, ne_eq]
      exact and_iff_right fun hs => hne (congrArg some hs)
  have hamount : ¬d.amountCents.getD 0 = 0 ↔
      d.amountCents.isSome = true ∧ d.amountCents ≠ some 0 := by
    cases d.amountCents with
    | none => simp
    | some n => simp
  have hdate : ¬(d.date.all fun t => decide (now < t)) = true ↔
      (d.date.any fun t => decide (t ≤ now)) = true := by
    cases d.date with
    | none => simp
    | some t => simp
  have haccount : ¬(draftAccount d.userId db d).isNone = true ↔
      (draftAccount d.userId db d).isSome = true := by
    cases draftAccount d.userId db d with
    | none => simp
    | some a => simp
  simp only [promoteErrors, List.append_eq_nil_iff, ite_eq_right_iff, List.cons_ne_self, imp_false,
    htitle, hamount, hdate, haccount, draftAccount_isSome]
  have hcategory : (∃ c, draftCategory d.userId db d = some c ∧ c.systemKey = none) ↔ _ :=
    draftCategory_ready
  refine Iff.trans (and_congr_right fun _ => Iff.trans ?_ hcategory) ?_
  · cases draftCategory d.userId db d with
    | none => simp
    | some c => simp
  · simp only [isReady, Bool.and_eq_true, decide_eq_true_eq, and_assoc]

/-! ## The writes -/

/-- The uuids a promotion draws for its two log entries are new. -/
structure LogIdsNew (env : Env) (db : Db) : Prop where
  fresh : ∀ e ∈ db.rows .activityLog, e.id ≠ env.uuid 0 ∧ e.id ≠ env.uuid 1
  distinct : env.uuid 0 ≠ env.uuid 1

/-- The foreign key of every table refers to a user that is there. -/
def IsUser (db : Db) (userId : Uuid) : Prop :=
  (db.rows .users).any (fun x => decide (x.id = userId)) = true

namespace ReadinessLemmas

theorem isUser_grows (h : Grows db db') (hu : IsUser db userId) : IsUser db' userId :=
  any_of_grows (t := .users) (k := userId) h (fun _ => decide_eq_true_iff) hu

theorem writeActivityLog_total {logId : Uuid} (env : Env) (resourceType : String)
    (resourceId : Uuid) (action : ActivityAction) (before after : Option Body)
    (hu : IsUser db userId) (hfresh : ∀ e ∈ db.rows .activityLog, e.id ≠ logId) :
    ∃ log : Row .activityLog, log.id = logId ∧
      exec (writeActivityLog env logId userId resourceType resourceId action before after) db =
        .ok ((), db.put .activityLog log) := by
  refine ⟨_, rfl, exec_insertOrAbort_total (inserted_of_free rfl (fun _ _ => rfl) ?_ ?_)⟩
  · exact fun e he => ⟨hfresh e he, rfl⟩
  · exact Bool.and_eq_true_iff.mpr ⟨hu, hu⟩

/-- A new parent takes active hashtags of its user. -/
theorem syncIfAny_total (env : Env) {parentId : Uuid} {source : TransactionSource}
    {ids : List Uuid} (hnd : ids.Nodup) (hactive : ∀ x ∈ ids, HasActiveHashtag db userId x)
    (hu : IsUser db userId)
    (hfree : ∀ l ∈ db.rows .transactionHashtags,
      ¬(l.transactionId = parentId ∧ l.transactionSource = source)) :
    ∃ db', exec (syncIfAny env parentId userId ids source) db = .ok ((), db') := by
  unfold syncIfAny
  split
  · exact ⟨db, rfl⟩
  · next hne =>
    unfold syncHashtags
    rw [if_neg (by simpa using hne)]
    -- no row of the junction table is the parent's
    have hnone : ∀ l ∈ db.rows .transactionHashtags, leaves userId parentId source ids l ≠ true :=
      fun l hl hw => hfree l hl ⟨(of_decide_eq_true hw).1, (of_decide_eq_true hw).2.1⟩
    have hsame : db.modify .transactionHashtags (leaves userId parentId source ids)
        (linkMarked env.now (some env.now)) = db := by
      rw [Sql.Db.modify, Function.update_eq_self_iff]
      ext1
      exact (List.map_congr_left fun l hl => if_neg (hnone l hl)).trans (List.map_id _)
    have hcascade : exec (cascadeDelete env userId parentId source ids) db = .ok ((), db) := by
      rw [cascadeDelete, exec_bind,
        exec_updateWhere_total fun l hl hw => absurd hw (hnone l hl), hsame]
      rfl
    have hvalid : ∀ x ∈ ids, ∃ r ∈ db.rows .hashtags,
        r.id ∈ ids ∧ r.userId = userId ∧ r.deletedAt = none ∧ r.id = x := by
      intro x hx
      obtain ⟨r, hr, hid, hru, hd⟩ := hactive x hx
      exact ⟨r, hr, hid ▸ hx, hru, hd, hid⟩
    obtain ⟨db', hupsert⟩ : ∃ db', exec (upsertEach .transactionHashtags
        (fun r => r.deletedAt.isSome) (linkMarked env.now none)
        (ids.map (newLink env userId parentId source)) [] : Op Unit) db = .ok ((), db') := by
      refine exec_upsertEach_total ?_ ?_ ?_
      · rw [List.map_map]
        exact hnd.map fun _ _ hxy => (Prod.mk.inj (Prod.mk.inj hxy).2).2
      · intro r hr
        obtain ⟨x, -, rfl⟩ := List.mem_map.mp hr
        refine Table.find?_eq_none.mpr fun l hl hk => hfree l hl ?_
        obtain ⟨hp, hk⟩ := Prod.mk.inj hk
        exact ⟨hp, (Prod.mk.inj hk).1⟩
      · intro r hr db₁ hagree hnew
        obtain ⟨x, hx, rfl⟩ := List.mem_map.mp hr
        have hnew := Table.find?_eq_none.mp hnew
        refine inserted_of_free rfl (fun l hl => decide_eq_false (hnew l hl))
          (fun l hl => ⟨hnew l hl, rfl⟩) ?_
        obtain ⟨h, hh, hid, -⟩ := hactive x hx
        refine Bool.and_eq_true_iff.mpr ⟨?_, ?_⟩
        · rwa [Sql.Db.rows, hagree .users (by simp)]
        · rw [Sql.Db.rows, hagree .hashtags (by simp)]
          exact List.any_eq_true.mpr ⟨h, hh, decide_eq_true hid⟩
    refine ⟨db', ?_⟩
    simp only [exec_bind_ok, fetchValidHashtags, exec_fetch_ok, exec_raiseIf_ok, exec_pure_ok]
    refine ⟨_, db, ⟨_, db, ⟨rfl, rfl⟩, rfl, rfl⟩, (), db, ⟨?_, rfl⟩, (), db, hcascade, hupsert⟩
    simpa using hvalid

theorem cascadeDelete_total (env : Env) (userId parentId : Uuid) (source : TransactionSource)
    (keep : List Uuid) (hlinks : Constrained .transactionHashtags db) :
    exec (cascadeDelete env userId parentId source keep) db =
      .ok ((), db.cascaded env userId parentId source keep) := by
  rw [cascadeDelete, exec_bind, exec_updateWhere_total]
  · rfl
  · intro l hl _ db₁ hagree
    refine accepts_of_free rfl (fun _ _ => rfl) ?_
    obtain ⟨huser, hhashtag⟩ := Bool.and_eq_true_iff.mp (hlinks l hl).2
    refine Bool.and_eq_true_iff.mpr ⟨?_, ?_⟩
    · rwa [Sql.Db.rows, hagree .users (by simp)]
    · rwa [Sql.Db.rows, hagree .hashtags (by simp)]

/-- A draft that is ready has what its ledger row needs. -/
structure Complete (d : Row .transactionInbox) (db : Db) : Prop where
  user : IsUser db d.userId
  amount : 0 < d.amountCents.getD 0 ∧ inInt8 (d.amountCents.getD 0) = true
  account : (db.rows .bankAccounts).any (fun x => decide (x.id = d.accountId.getD 0)) = true
  category : (db.rows .categories).any (fun x => decide (x.id = d.categoryId.getD 0)) = true

theorem complete_of_ready {d : Row .transactionInbox} {now : Timestamp} (h : DraftsHold db)
    (hd : d ∈ db.rows .transactionInbox) (hready : isReady now db d = true) : Complete d db := by
  obtain ⟨hchecks, hrefs⟩ := h.drafts d hd
  obtain ⟨hrefs, hcategory⟩ := Bool.and_eq_true_iff.mp hrefs
  obtain ⟨huser, haccount⟩ := Bool.and_eq_true_iff.mp hrefs
  obtain ⟨hchecks, -⟩ := Bool.and_eq_true_iff.mp hchecks
  simp only [isReady, Bool.and_eq_true] at hready
  obtain ⟨⟨⟨⟨⟨⟨-, hamount⟩, -⟩, -⟩, hacc⟩, -⟩, hcat, -⟩ := hready
  obtain ⟨n, hn⟩ := Option.isSome_iff_exists.mp hamount
  obtain ⟨a, ha⟩ := Option.isSome_iff_exists.mp hacc
  obtain ⟨c, hc⟩ := Option.isSome_iff_exists.mp hcat
  rw [hn] at hchecks
  rw [ha] at haccount
  rw [hc] at hcategory
  refine ⟨huser, ?_, ?_, ?_⟩
  · rw [hn]
    simpa using hchecks
  · rwa [ha]
  · rwa [hc]

theorem insertTransactionRow_total {d : Row .transactionInbox} {targetId : Uuid}
    {ty : TransactionType} (hd : d ∈ db.rows .transactionInbox) (hcomplete : Complete d db)
    (hunused : ∀ t ∈ db.rows .transactions, t.id ≠ targetId) :
    exec (insertTransactionRow env d.userId targetId (d.title.getD []) d.description
      (d.amountCents.getD 0) ty (d.date.getD 0) (d.accountId.getD 0) (d.categoryId.getD 0)
      (some d.id)) db =
      .ok (promotedRow env d.userId targetId d ty,
        db.put .transactions (promotedRow env d.userId targetId d ty)) := by
  have hins : db.tryInsert .transactions (promotedRow env d.userId targetId d ty)
      (fun _ => false) = some .inserted := by
    refine inserted_of_free ?_ (fun _ _ => rfl) (fun t ht => ⟨hunused t ht, rfl⟩) ?_
    · show (decide (0 < d.amountCents.getD 0) && inInt8 (d.amountCents.getD 0) && inInt4 1) = true
      rw [hcomplete.amount.2, decide_eq_true hcomplete.amount.1]
      decide
    · have hself : (db.rows .transactionInbox).any (fun x => decide (x.id = d.id)) = true :=
        List.any_eq_true.mpr ⟨d, hd, decide_eq_true rfl⟩
      refine Bool.and_eq_true_iff.mpr ⟨Bool.and_eq_true_iff.mpr ⟨Bool.and_eq_true_iff.mpr
        ⟨Bool.and_eq_true_iff.mpr ⟨hcomplete.user, hcomplete.account⟩, hcomplete.category⟩,
        hself⟩, rfl⟩
  rw [insertTransactionRow]
  refine exec_bind_ok.mpr ⟨.inserted, _, exec_insertRow_ok.mpr ⟨hins, rfl⟩, ?_⟩
  rfl

/-- An UPDATE by a condition that fixes the key has one candidate. -/
theorem filter_of_mem {t : Tbl} {w : Row t → Bool} {k : Key t}
    (hw : ∀ x, w x = true → keyOf t x = k) {r : Row t} (hr : r ∈ db.rows t) (hwr : w r = true) :
    (db.rows t).filter w = [r] := by
  have hnd : ((db.rows t).filter w).Nodup := ((db t).nodup.of_map _).filter _
  refine List.perm_singleton.mp ((List.perm_ext_iff_of_nodup hnd (List.nodup_singleton r)).mpr
    fun x => ?_)
  rw [List.mem_filter, List.mem_singleton]
  constructor
  · rintro ⟨hx, hwx⟩
    exact Table.eq_of_key_eq hx hr ((hw x hwx).trans (hw r hwr).symm)
  · rintro rfl
    exact ⟨hr, hwr⟩

theorem nodup_hashtagIdsOf {p : Uuid} {source : TransactionSource} :
    (hashtagIdsOf db p source).Nodup := by
  refine (List.perm_insertionSort _ _).nodup_iff.mpr ?_
  have hnd : ((db.rows .transactionHashtags).filter (isLiveLink p source)).Nodup :=
    ((db .transactionHashtags).nodup.of_map _).filter _
  refine List.Nodup.map_on (fun x hx y hy hxy => ?_) hnd
  obtain ⟨hx, hlx⟩ := List.mem_filter.mp hx
  obtain ⟨hy, hly⟩ := List.mem_filter.mp hy
  obtain ⟨hpx, hsx, -⟩ := of_decide_eq_true hlx
  obtain ⟨hpy, hsy, -⟩ := of_decide_eq_true hly
  have hkey : keyOf .transactionHashtags x = keyOf .transactionHashtags y := by
    simp only [keyOf, hpx, hpy, hsx, hsy, hxy]
  exact Table.eq_of_key_eq hx hy hkey

/-- The tags of a draft are active hashtags of its user. -/
theorem tag_active {d : Row .transactionInbox} (h : DraftsHold db)
    (hd : d ∈ db.rows .transactionInbox) {x : Uuid} (hx : x ∈ hashtagIdsOf db d.id .inbox) :
    HasActiveHashtag db d.userId x := by
  have hx := (List.perm_insertionSort _ _).mem_iff.mp hx
  obtain ⟨l, hl, rfl⟩ := List.mem_map.mp hx
  obtain ⟨hmem, hlive⟩ := List.mem_filter.mp hl
  obtain ⟨hp, hs, hdel⟩ := of_decide_eq_true hlive
  have hparent := h.owned l hmem
  rw [hp, hs] at hparent
  obtain ⟨d', hd', hid, hu⟩ := hparent
  obtain rfl : d' = d := EvolutionLemmas.eq_of_id hd' hd hid
  rw [hu]
  exact h.tags l hmem hs hdel

/-- An UPDATE of a draft that keeps its amount and its references is refused only
when the version runs over. -/
theorem updateDraft_iff (env : Env) {d : Row .transactionInbox} {state : RowState}
    {fields : Change Row .transactionInbox} (hd : d ∈ db.rows .transactionInbox)
    (hstate : owns .transactionInbox d.id d.userId state d = true)
    (hdrafts : Constrained .transactionInbox db)
    (hfields : ∃ title description transactionType date status deletedAt, fields.apply d =
      ({ d with title := title, description := description, transactionType := transactionType
                date := date, status := status, deletedAt := deletedAt } : InboxRow))
    {o : Option (Row .transactionInbox)} :
    exec (updateRow .transactionInbox (owns .transactionInbox d.id d.userId state)
      (bumped .transactionInbox env.now fields)) db = .ok (o, db') ↔
      d.version + 1 < 2 ^ 31 ∧
        o = some ((bumped .transactionInbox env.now fields).apply d) ∧
        db' = db.modify .transactionInbox (owns .transactionInbox d.id d.userId state)
          (bumped .transactionInbox env.now fields) := by
  obtain ⟨hchecks, hrefs⟩ := hdrafts d hd
  obtain ⟨hamount, hversion⟩ := Bool.and_eq_true_iff.mp hchecks
  obtain ⟨title, description, transactionType, date, status, deletedAt, happly⟩ := hfields
  have hrow : (bumped .transactionInbox env.now fields).apply d =
      ({ d with updatedAt := env.now, version := d.version + 1, title := title
                description := description, transactionType := transactionType, date := date
                status := status, deletedAt := deletedAt } : InboxRow) := by
    show OwnedTable.mapResource (Resource.bump env.now) (fields.apply d) = _
    rw [happly]
    rfl
  have hone : (db.rows .transactionInbox).filter
      (owns .transactionInbox d.id d.userId state) = [d] :=
    filter_of_mem (k := d.id) (fun x hx => (of_decide_eq_true (Bool.and_eq_true_iff.mp hx).1).1)
      hd hstate
  have haccepts : db.accepts .transactionInbox
      ((bumped .transactionInbox env.now fields).apply d) = true ↔ d.version + 1 < 2 ^ 31 := by
    rw [hrow]
    constructor
    · intro hacc
      have hint := (Bool.and_eq_true_iff.mp (constraints_of_accepts hacc).1).2
      exact (of_decide_eq_true hint).2
    · intro hlt
      refine accepts_of_free (Bool.and_eq_true_iff.mpr ⟨hamount, ?_⟩) (fun _ _ => rfl) hrefs
      have hle : -2 ^ 31 ≤ d.version := (of_decide_eq_true hversion).1
      exact decide_eq_true ⟨by show -2 ^ 31 ≤ d.version + 1; omega, hlt⟩
  simp only [updateRow, exec_bind_ok, exec_updateWhere_one hone, haccepts, exec_pure_ok]
  constructor
  · rintro ⟨_, _, ⟨hlt, rfl, rfl⟩, rfl, rfl⟩
    exact ⟨hlt, rfl, rfl⟩
  · rintro ⟨hlt, rfl, rfl⟩
    exact ⟨_, _, ⟨hlt, rfl, rfl⟩, rfl, rfl⟩

end ReadinessLemmas

/-- The writes of a promotion of a ready draft go through while its version
fits. -/
theorem promoteWrites_total {d : Row .transactionInbox} {targetId : Uuid} (ty : TransactionType)
    (h : DraftsHold db) (hd : d ∈ db.rows .transactionInbox) (hcomplete : Complete d db)
    (hunused : ∀ t ∈ db.rows .transactions, t.id ≠ targetId)
    (hlog : LogIdsNew env db) (hversion : d.version + 1 < 2 ^ 31) :
    ∃ x, exec (promoteWrites env d.userId targetId d (hashtagIdsOf db d.id .inbox) ty) db =
      .ok x := by
  -- the ledger row
  have hinsert : exec (insertTransactionRow env _ targetId _ _ _ ty _ _ _ _) db = .ok _ :=
    insertTransactionRow_total hd hcomplete hunused
  set db₁ := db.put .transactions (promotedRow env d.userId targetId d ty) with hdb₁
  have huser₁ : IsUser db₁ d.userId := isUser_grows (exec_grows hinsert) hcomplete.user
  -- its tags
  have htags : ∀ x ∈ hashtagIdsOf db d.id .inbox, HasActiveHashtag db₁ d.userId x :=
    fun x hx => (hasActiveHashtag_congr (by simp [hdb₁, Sql.Db.rows])).mp (tag_active h hd hx)
  have hfree : ∀ l ∈ db₁.rows .transactionHashtags,
      ¬(l.transactionId = targetId ∧ l.transactionSource = .ledger) := by
    rintro l hl ⟨hid, hsource⟩
    have hparent := h.owned l (by simpa [hdb₁, Sql.Db.rows] using hl)
    rw [hid, hsource] at hparent
    obtain ⟨t, ht, htid, -⟩ := hparent
    exact hunused t ht htid
  obtain ⟨db₂, hsync⟩ := syncIfAny_total env nodup_hashtagIdsOf htags huser₁ hfree
  have hsame₂ : ∀ t, t ≠ .transactionHashtags → db₂ t = db₁ t := by
    obtain ⟨rfl, -⟩ := exec_syncIfAny hsync
    exact fun t ht => tagged_ne ht
  have huser₂ : IsUser db₂ d.userId := isUser_grows (exec_grows hsync) huser₁
  -- its log entry
  have hlog₂ : ∀ e ∈ db₂.rows .activityLog, e.id ≠ env.uuid 0 ∧ e.id ≠ env.uuid 1 := by
    intro e he
    rw [Sql.Db.rows, hsame₂ _ (by simp)] at he
    exact hlog.fresh e (by simpa [hdb₁, Sql.Db.rows] using he)
  obtain ⟨log, hlogid, hwrite⟩ := writeActivityLog_total env "transaction" targetId .created none
    (some (.transaction (attached db₂ (promotedRow env d.userId targetId d ty)))) huser₂
    fun e he => (hlog₂ e he).1
  set db₃ := db₂.put .activityLog log with hdb₃
  have hd₃ : d ∈ db₃.rows .transactionInbox := by
    have hrows : db₃.rows .transactionInbox = db.rows .transactionInbox := by
      simp [hdb₃, Sql.Db.rows, hsame₂, hdb₁]
    rwa [hrows]
  have hconstrained₃ : ∀ {t : Tbl}, Constrained t db → Constrained t db₃ := fun hdb =>
    exec_constrained refsByKey (exec_constrained refsByKey (exec_constrained refsByKey hdb
      hinsert) hsync) hwrite
  -- the draft is closed, with its tags
  set db₄ := db₃.modify .transactionInbox (owns .transactionInbox d.id d.userId .either)
    (bumped .transactionInbox env.now (setPromoted env)) with hdb₄
  have hclose := (updateDraft_iff env hd₃ (owns_either.mpr ⟨rfl, rfl⟩) (hconstrained₃ h.drafts)
    ⟨_, _, _, _, _, _, rfl⟩).mpr ⟨hversion, rfl, hdb₄⟩
  have hlinks := exec_constrained refsByKey (hconstrained₃ h.links) hclose
  have hcascade := cascadeDelete_total env d.userId d.id .inbox [] hlinks
  have huser₅ := isUser_grows (exec_grows hcascade) (isUser_grows (exec_grows hclose)
    (isUser_grows (exec_grows hwrite) huser₂))
  have hlog₅ : ∀ e ∈ Sql.Db.rows (Db.cascaded env d.userId d.id .inbox [] db₄) Tbl.activityLog,
      e.id ≠ env.uuid 1 := by
    intro e he
    rw [Sql.Db.rows, cascaded_ne (by simp), hdb₄, Db.modify_ne _ _ _ (by simp), hdb₃,
      Db.put_same] at he
    rcases Table.mem_put.mp he with rfl | ⟨he, -⟩
    · rw [hlogid]
      exact hlog.distinct
    · exact (hlog₂ e he).2
  obtain ⟨log', -, hwrite'⟩ := writeActivityLog_total env "inbox" d.id .deleted
    (some (.inbox { d with hashtagIds := hashtagIdsOf db d.id .inbox })) _ huser₅ hlog₅
  simp only [promoteWrites, exec_bind_ok, exec_orRaise_ok]
  exact ⟨_, _, _, hinsert, (), _, hsync, _, _, exec_attachHashtagIds_ok.mpr ⟨rfl, rfl⟩, (), _,
    hwrite, _, _, hclose, _, _, ⟨rfl, rfl⟩, (), _, hcascade, _, _,
    exec_attachInboxHashtagIds_ok.mpr ⟨rfl, rfl⟩, (), _, hwrite', rfl⟩

/-! ## The two together -/

/-- The draft is on a page of the ready list of its user. -/
def ListedReady (env : Env) (db : Db) (d : Row .transactionInbox) : Prop :=
  ∃ limit offset page, 1 ≤ limit ∧ limit ≤ maxLimit ∧
    exec (listInbox env d.userId true false false false limit offset) db = .ok (page, db) ∧
    attachedDraft db d ∈ page.items

/-- A promotion of the draft into the ledger row `targetId` succeeds. -/
def Promotes (env : Env) (db : Db) (d : Row .transactionInbox) (targetId : Uuid) : Prop :=
  ∃ x, exec (promoteInboxItem env d.userId d.id targetId) db = .ok x

namespace ReadinessLemmas

theorem inboxConditions_ready {now : Timestamp} {d : Row .transactionInbox} :
    inboxConditions now userId true false false db d = true ↔
      d.userId = userId ∧ d.status = .pending ∧ d.deletedAt = none ∧ isReady now db d = true := by
  simp [inboxConditions, and_assoc]

/-- Every row that meets the conditions is on a page, and no other row is. -/
theorem listedReady_iff {d : Row .transactionInbox} (hd : d ∈ db.rows .transactionInbox) :
    ListedReady env db d ↔
      d.status = .pending ∧ d.deletedAt = none ∧ isReady env.now db d = true := by
  set listed := ((db.rows .transactionInbox).filter
    (inboxConditions env.now d.userId true false false db)).insertionSort
      fun r s => s.createdAt ≤ r.createdAt with hlisted
  have hmem : d ∈ listed ↔
      d.status = .pending ∧ d.deletedAt = none ∧ isReady env.now db d = true := by
    rw [hlisted, (List.perm_insertionSort _ _).mem_iff, List.mem_filter, inboxConditions_ready]
    simp [hd]
  have hexec : ∀ limit offset,
      exec (listInbox env d.userId true false false false limit offset) db =
        .ok (⟨((listed.drop offset).take limit).map (attachedDraft db),
          ((db.rows .transactionInbox).filter
            (inboxConditions env.now d.userId true false false db)).length, limit, offset⟩, db) :=
    fun _ _ => rfl
  rw [← hmem]
  constructor
  · rintro ⟨limit, offset, page, -, -, hpage, hitem⟩
    rw [hexec] at hpage
    cases hpage
    obtain ⟨r, hr, hrd⟩ := List.mem_map.mp hitem
    obtain rfl : r = d := congrArg (fun x : InboxResponse => x.toInboxRow) hrd
    exact List.mem_of_mem_drop (List.mem_of_mem_take hr)
  · intro h
    obtain ⟨i, hi, hget⟩ := List.getElem_of_mem h
    -- the page of one row that starts at the draft
    refine ⟨1, i, _, le_refl 1, by decide, hexec 1 i, List.mem_map.mpr ⟨d, ?_, rfl⟩⟩
    rw [List.drop_eq_getElem_cons hi, hget]
    simp

/-- A promotion closes its draft. -/
theorem mem_promoted {d : Row .transactionInbox} {targetId : Uuid} {ty : TransactionType}
    (hd : d ∈ db.rows .transactionInbox) :
    (bumped .transactionInbox env.now (setPromoted env)).apply d ∈
      (db.promoted env d.userId d.id targetId d ty).rows .transactionInbox := by
  have hrows : (db.promoted env d.userId d.id targetId d ty).rows .transactionInbox =
      (db.rows .transactionInbox).map fun r =>
        if owns .transactionInbox d.id d.userId .either r then
          (bumped .transactionInbox env.now (setPromoted env)).apply r else r := by
    refine (congrArg Table.rows (cascaded_ne (by simp))).trans ((Db.rows_modify_same ..).trans ?_)
    simp [Sql.Db.rows]
  rw [hrows]
  exact List.mem_map.mpr ⟨d, hd, if_pos (owns_either.mpr ⟨rfl, rfl⟩)⟩

/-- A promotion leaves its draft one version further. -/
theorem version_of_promotes {d : Row .transactionInbox} {targetId : Uuid}
    (hd : d ∈ db.rows .transactionInbox) (hdrafts : Constrained .transactionInbox db)
    (h : Promotes env db d targetId) : d.version + 1 < 2 ^ 31 := by
  obtain ⟨⟨b, db'⟩, hrun⟩ := h
  obtain ⟨draft, ty, hp, hdb⟩ := exec_promoteInboxItem hrun
  obtain rfl : draft = d := EvolutionLemmas.eq_of_id hp.found hd hp.pending.1
  have hmem : (bumped .transactionInbox env.now (setPromoted env)).apply draft ∈
      db'.rows .transactionInbox := by
    rw [hdb.rows rfl]
    exact mem_promoted hd
  have hchecks := (exec_constrained refsByKey hdrafts hrun _ hmem).1
  exact (of_decide_eq_true (Bool.and_eq_true_iff.mp hchecks).2).2

end ReadinessLemmas

/-- In every reachable state, a draft whose version is not at the end of its
column is on a page of the ready list iff a promotion of it succeeds at the same
time. -/
theorem ready_iff_promotable {db₀ : Db} (hfresh : Fresh db₀) (calls : List Call)
    {d : Row .transactionInbox} (hd : d ∈ (run db₀ calls).rows .transactionInbox)
    {targetId : Uuid} (hunused : ∀ t ∈ (run db₀ calls).rows .transactions, t.id ≠ targetId)
    (hlog : LogIdsNew env (run db₀ calls)) :
    Promotes env (run db₀ calls) d targetId ↔
      ListedReady env (run db₀ calls) d ∧ d.version + 1 < 2 ^ 31 := by
  have h := reachable_drafts hfresh calls
  have hshape := h.shape d hd
  rw [listedReady_iff hd]
  constructor
  · intro hp
    obtain ⟨x, hrun⟩ := hp
    obtain ⟨hpending, herr, -⟩ := (exec_promoteInboxItem_iff hd).mp hrun
    obtain ⟨-, -, hstatus, hactive⟩ := of_decide_eq_true hpending
    exact ⟨⟨hstatus, hactive, (promoteErrors_eq_nil hshape).mp herr⟩,
      version_of_promotes hd h.drafts ⟨x, hrun⟩⟩
  · rintro ⟨⟨hstatus, hactive, hready⟩, hversion⟩
    have hpending : isPendingDraft d.id d.userId d = true :=
      decide_eq_true ⟨rfl, rfl, hstatus, hactive⟩
    have hcomplete := complete_of_ready h hd hready
    -- an amount comes with its direction
    obtain ⟨ty, hty⟩ : ∃ ty, d.transactionType = some ty := by
      rw [← Option.isSome_iff_exists, ← hshape.2]
      simp only [isReady, Bool.and_eq_true] at hready
      exact hready.1.1.1.1.1.2
    obtain ⟨x, hwrites⟩ := promoteWrites_total ty h hd hcomplete hunused hlog hversion
    exact ⟨x, (exec_promoteInboxItem_iff hd).mpr
      ⟨hpending, (promoteErrors_eq_nil hshape).mpr hready, ty, hty, hwrites⟩⟩

/-! ## A draft at the end of its version column -/

namespace ReadinessLemmas

/-- `PUT /inbox/{id}` with a description only, sent without a key. -/
def describe (env : Env) (userId id : Uuid) (s : Text) : Call :=
  ⟨env, userId, none, none, .updateInboxItem id ⟨none, some (some s), none, none, none, none, none⟩⟩

def described (s : Text) : InboxFields := ⟨none, some s, none, none, none, none⟩

/-- A call without a key is its work. -/
theorem step_of_work {c : Call} {b : Body} (hnull : extractUpdateFields c.request.nonNullable =
    .ok ()) (hkey : c.key = none) (hwork : exec (c.request.work c.env c.userId) db = .ok (b, db')) :
    step db c = db' := by
  have hhandle : exec c.handle db = .ok (.fresh b, db') := by
    rw [Call.handle, hnull, exec_bind_ok]
    refine ⟨(), db, rfl, ?_⟩
    rw [hkey]
    show exec (Reply.fresh <$> c.request.work c.env c.userId) db = _
    rw [map_eq_pure_bind, exec_bind_ok]
    exact ⟨b, db', hwork, rfl⟩
  unfold step
  rw [hhandle]

theorem step_describe (env : Env) {s : Text} {d : Row .transactionInbox} (h : DraftsHold db)
    (hd : d ∈ db.rows .transactionInbox) (hactive : d.deletedAt = none)
    (hlog : ∀ e ∈ db.rows .activityLog, e.id ≠ env.uuid 0) (hversion : d.version + 1 < 2 ^ 31) :
    ∃ log : Row .activityLog, log.id = env.uuid 0 ∧
      step db (describe env d.userId d.id s) =
        (db.modify .transactionInbox (owns .transactionInbox d.id d.userId .active)
          (bumped .transactionInbox env.now (setInbox (described s)))).put .activityLog log := by
  have howns : owns .transactionInbox d.id d.userId .active d = true :=
    owns_active.mpr ⟨rfl, rfl, hactive⟩
  have huser : IsUser db d.userId :=
    (Bool.and_eq_true_iff.mp (Bool.and_eq_true_iff.mp (h.drafts d hd).2).1).1
  set db₁ := db.modify .transactionInbox (owns .transactionInbox d.id d.userId .active)
    (bumped .transactionInbox env.now (setInbox (described s))) with hdb₁
  have hupdate : exec (updateRow .transactionInbox
      (owns .transactionInbox d.id d.userId .active)
      (bumped .transactionInbox env.now (setInbox (described s)))) db = .ok (some _, db₁) :=
    (updateDraft_iff env hd howns h.drafts ⟨_, _, _, _, _, _, rfl⟩).mpr ⟨hversion, rfl, hdb₁⟩
  obtain ⟨log, hid, hwrite⟩ := writeActivityLog_total env "inbox" d.id .updated
    (some (.inbox (attachedDraft db d)))
    (some (.inbox (attachedDraft db₁
      ((bumped .transactionInbox env.now (setInbox (described s))).apply d))))
    (isUser_grows (exec_grows hupdate) huser)
    fun e he => hlog e (by simpa [hdb₁, Sql.Db.rows] using he)
  refine ⟨log, hid, ?_⟩
  have hfind : (db.rows .transactionInbox).find?
      (owns .transactionInbox d.id d.userId .active) = some d :=
    find?_of_mem (k := d.id) (fun x hx => (owns_active.mp hx).1) hd howns
  have hwork : exec (updateInboxItem env d.userId d.id
      ⟨none, some (some s), none, none, none, none, none⟩) db =
        .ok (.inbox (attachedDraft db₁
          ((bumped .transactionInbox env.now (setInbox (described s))).apply d)),
          db₁.put .activityLog log) := by
    rw [updateInboxItem]
    simp only [exec_bind_ok, exec_liftExcept_ok]
    refine ⟨described s, _, ⟨rfl, rfl⟩, ?_⟩
    rw [if_neg (by simp [described, InboxFields.none])]
    simp only [exec_bind_ok, exec_rejectZeroAmount_ok, exec_lockOwnedRowOr404_ok,
      exec_attachInboxHashtagIds_ok, exec_orRaise_ok, dynamicUpdate]
    exact ⟨(), _, ⟨by simp [described], rfl⟩, d, _, ⟨hfind, rfl⟩, _, _, ⟨rfl, rfl⟩, (), _, rfl,
      (), _, rfl, _, _, hupdate, _, _, ⟨rfl, rfl⟩, (), _, rfl, _, _, ⟨rfl, rfl⟩, (), _, hwrite, rfl⟩
  exact step_of_work rfl rfl hwork

end ReadinessLemmas

end Readiness

namespace Ascii

/-- A draft of a snack, the row 60, complete, and `n` updates of its
description. -/
def snack (n : Nat) : List Call :=
  setup ++ [callAt 6 (.createInboxItem ⟨60, some "Snack".toList, none, some (-300), some 5, some 10,
    some 20, []⟩)] ++
  (List.range n).map fun i : Nat => callAt (7 + (i : Int)) (.updateInboxItem 60
    ⟨none, some (some "Bread".toList), none, none, none, none, none⟩)

/-- The snack after `n` updates, still complete. -/
structure Worn (n : Nat) (d : Row .transactionInbox) (db : Db) : Prop where
  held : DraftsHold db
  found : d ∈ db.rows .transactionInbox
  owned : d.id = 60 ∧ d.userId = 1 ∧ d.deletedAt = none ∧ d.status = .pending
  version : d.version = 1 + n
  ready : isReady (2 ^ 31 + 10) db d = true
  log : ∀ e ∈ db.rows .activityLog, e.id < 1000 * (n + 8)
  unused : ∀ t ∈ db.rows .transactions, t.id ≠ 70

namespace ReadinessLemmas

open ExpenseEngine.ReadinessLemmas

theorem worn_zero : ∃ d, Worn 0 d (run blank (snack 0)) := by
  have hfacts : ∃ d ∈ (run blank (snack 0)).rows .transactionInbox,
      (d.id = 60 ∧ d.userId = 1 ∧ d.deletedAt = none ∧ d.status = .pending) ∧ d.version = 1 ∧
        isReady (2 ^ 31 + 10) (run blank (snack 0)) d = true := by
    decide +kernel
  obtain ⟨d, hd, howned, hversion, hready⟩ := hfacts
  exact ⟨d, reachable_drafts fresh_blank _, hd, howned, hversion, hready, by decide +kernel,
    by decide +kernel⟩

theorem Worn.update {n : Nat} {d : Row .transactionInbox} {db : Db} (h : Worn n d db)
    (hn : n + 2 < 2 ^ 31) : ∃ d', Worn (n + 1) d' (step db (callAt (7 + n) (.updateInboxItem 60
      ⟨none, some (some "Bread".toList), none, none, none, none, none⟩))) := by
  obtain ⟨hid, hu, hactive, hstatus⟩ := h.owned
  have huuid : ∀ k, (envAt (7 + n)).uuid k = 1000 * (n + 8) + k := by
    intro k
    show 1000 * ((7 + (n : Int)).toNat + 1) + k = _
    omega
  obtain ⟨log, hlogid, hstep⟩ := step_describe (envAt (7 + n))
    (s := "Bread".toList) h.held h.found hactive
    (fun e he => by rw [huuid]; exact (Nat.lt_add_right 0 (h.log e he)).ne)
    (by rw [h.version]; omega)
  have hcall : describe (envAt (7 + n)) d.userId d.id "Bread".toList =
      callAt (7 + n) (.updateInboxItem 60
        ⟨none, some (some "Bread".toList), none, none, none, none, none⟩) := by
    rw [hu, hid]
    rfl
  rw [← hcall]
  have hrows : ∀ t, t ≠ .transactionInbox → t ≠ .activityLog →
      (step db (describe (envAt (7 + n)) d.userId d.id "Bread".toList)).rows t = db.rows t := by
    intro t h₁ h₂
    rw [hstep, Db.rows_put_ne _ _ h₂, Db.rows_modify_ne _ _ _ h₁]
  refine ⟨(bumped .transactionInbox (envAt (7 + n)).now
    (setInbox (described "Bread".toList))).apply d, h.held.step _, ?_, ⟨hid, hu, hactive, hstatus⟩,
    ?_, ?_, ?_, ?_⟩
  · rw [hstep, Db.rows_put_ne _ _ (by simp), Db.rows_modify_same]
    exact List.mem_map.mpr ⟨d, h.found, if_pos (owns_active.mpr ⟨rfl, rfl, hactive⟩)⟩
  · show d.version + 1 = _
    rw [h.version]
    push_cast
    omega
  · rw [← h.ready]
    unfold isReady
    rw [hrows .bankAccounts (by simp) (by simp), hrows .categories (by simp) (by simp)]
    rfl
  · intro e he
    rw [hstep, Sql.Db.rows, Db.put_same] at he
    rcases Table.mem_put.mp he with rfl | ⟨he, -⟩
    · rw [hlogid, huuid]
      show (1000 * (n + 8) + 0 : Nat) < 1000 * (n + 1 + 8)
      omega
    · have hlt : (e.id : Nat) < 1000 * (n + 8) := h.log e (by simpa [Sql.Db.rows] using he)
      exact Nat.lt_trans hlt (by omega)
  · rw [hrows .transactions (by simp) (by simp)]
    exact h.unused

theorem worn_snack {n : Nat} (hn : n + 1 < 2 ^ 31) : ∃ d, Worn n d (run blank (snack n)) := by
  induction n with
  | zero => exact worn_zero
  | succ n ih =>
    obtain ⟨d, hd⟩ := ih (by omega)
    have hrun : run blank (snack (n + 1)) = step (run blank (snack n))
        (callAt (7 + n) (.updateInboxItem 60
          ⟨none, some (some "Bread".toList), none, none, none, none, none⟩)) := by
      simp only [run, snack, List.range_succ, List.map_append, List.map_cons, List.map_nil,
        ← List.append_assoc, List.foldl_append, List.foldl_cons, List.foldl_nil]
    rw [hrun]
    exact Worn.update hd hn

end ReadinessLemmas

/-- The snack as it was created. -/
def snackRow : Row .transactionInbox :=
  ({ id := 60, userId := 1, createdAt := 6, updatedAt := 6, version := 1, deletedAt := none
     title := some "Snack".toList, description := none, amountCents := some 300
     transactionType := some .outflow, date := some 5, accountId := some 10, categoryId := some 20
     status := .pending } : InboxRow)

end Ascii

open Ascii ReadinessLemmas in
/-- The new snack is listed, so it can be promoted. -/
theorem ready_iff_promotable_snack : Promotes (envAt 10) (run blank (snack 0)) snackRow 70 := by
  have hfound : snackRow ∈ (run blank (snack 0)).rows .transactionInbox := by decide +kernel
  have hunused : ∀ t ∈ (run blank (snack 0)).rows .transactions, t.id ≠ 70 := by decide +kernel
  have hlog : LogIdsNew (envAt 10) (run blank (snack 0)) := ⟨by decide +kernel, by decide⟩
  exact (ready_iff_promotable fresh_blank (snack 0) hfound hunused hlog).mpr
    ⟨(listedReady_iff hfound).mpr (by decide +kernel), by decide⟩

open Ascii ReadinessLemmas Ascii.ReadinessLemmas in
/-- After 2147483646 updates the snack is still listed, and every promotion of it
fails. -/
theorem worn_snack_not_promotable :
    ∃ d ∈ (run blank (snack (2 ^ 31 - 2))).rows .transactionInbox,
      (∀ t ∈ (run blank (snack (2 ^ 31 - 2))).rows .transactions, t.id ≠ 70) ∧
      LogIdsNew (envAt (2 ^ 31 + 10)) (run blank (snack (2 ^ 31 - 2))) ∧
      ListedReady (envAt (2 ^ 31 + 10)) (run blank (snack (2 ^ 31 - 2))) d ∧
      ¬Promotes (envAt (2 ^ 31 + 10)) (run blank (snack (2 ^ 31 - 2))) d 70 := by
  obtain ⟨d, h⟩ := worn_snack (n := 2 ^ 31 - 2) (by decide)
  refine ⟨d, h.found, h.unused, ⟨fun e he => ?_, by decide⟩, ?_, fun hp => ?_⟩
  · have hlt := h.log e he
    have huuid : ∀ k, (envAt (2 ^ 31 + 10)).uuid k = 1000 * (2 ^ 31 + 11) + k := fun _ => rfl
    rw [huuid, huuid]
    exact ⟨(Nat.lt_trans hlt (by decide)).ne, (Nat.lt_trans hlt (by decide)).ne⟩
  · exact (listedReady_iff h.found).mpr ⟨h.owned.2.2.2, h.owned.2.2.1, h.ready⟩
  · have hversion := version_of_promotes h.found h.held.drafts hp
    rw [h.version] at hversion
    exact absurd hversion (by decide)

end ExpenseEngine
