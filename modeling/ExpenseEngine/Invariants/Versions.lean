import ExpenseEngine.Effects.Evolution
import ExpenseEngine.Effects.Statements
import ExpenseEngine.Refinement.Batch

/-!
# Versions over sequential runs

Every SET list of a versioned table ends in `version = version + 1`, and every
change of the live links of a parent comes with an UPDATE of that parent. No
request updates one row twice.

Results:
1. `tags_or_bump`: who loses or gains a link is bumped.
2. `version_law`: a call moves the version of a row by one when it changes what
   is stored of it, and by one at most.
-/

namespace ExpenseEngine

open Sql Sql.Prog

section Versions

variable [Platform] {db db' : Db} {env : Env} {userId : Uuid} {request : Request} {c : Call}

/-! ## The law -/

/-- The version of a row moves by at most one, and by one unless what is stored
of the row stays the `same`. -/
structure VersionLaw (same : Prop) (v v' : Int) : Prop where
  moves : v' = v ∨ v' = v + 1
  changes : ¬same → v' = v + 1

/-- What is stored of a draft, as it is sent. -/
def attachedDraft (db : Db) (row : Row .transactionInbox) : InboxResponse :=
  { row with hashtagIds := hashtagIdsOf db row.id .inbox }

/-- Every row of `db` is in `db'`, and obeys the law. -/
def Lawful (t : Tbl) (version : Row t → Int) (same : Row t → Row t → Prop) (db db' : Db) : Prop :=
  ∀ r ∈ db.rows t, ∃ r' ∈ db'.rows t, keyOf t r' = keyOf t r ∧
    VersionLaw (same r r') (version r) (version r')

/-- The law for the rows of every versioned table. -/
structure VersionsLawful (db db' : Db) : Prop where
  accounts : Lawful .bankAccounts (fun r => r.version) (fun r r' => r' = r) db db'
  categories : Lawful .categories (fun r => r.version) (fun r r' => r' = r) db db'
  hashtags : Lawful .hashtags (fun r => r.version) (fun r r' => r' = r) db db'
  reconciliations : Lawful .reconciliations (fun r => r.version) (fun r r' => r' = r) db db'
  settings : Lawful .userSettings (fun r => r.version) (fun r r' => r' = r) db db'
  drafts : Lawful .transactionInbox (fun r => r.version)
    (fun r r' => attachedDraft db' r' = attachedDraft db r) db db'
  transactions : Lawful .transactions (fun r => r.version)
    (fun r r' => attached db' r' = attached db r) db db'

theorem Lawful.congr {t : Tbl} {version : Row t → Int} {same same' : Row t → Row t → Prop}
    {db₁ : Db} (h : Lawful t version same db db₁) (hrows : db₁.rows t = db'.rows t)
    (hsame : ∀ r r', same' r r' ↔ same r r') : Lawful t version same' db db' := by
  intro r hr
  obtain ⟨r', hr', hkey, hlaw⟩ := h r hr
  refine ⟨r', hrows ▸ hr', hkey, ?_⟩
  rwa [hsame]

namespace VersionLemmas

omit [Platform] in
theorem VersionLaw.kept {same : Prop} {v : Int} (h : same) : VersionLaw same v v :=
  ⟨.inl rfl, fun hne => absurd h hne⟩

omit [Platform] in
theorem VersionLaw.bumped {same : Prop} {v : Int} : VersionLaw same v (v + 1) :=
  ⟨.inr rfl, fun _ => rfl⟩

/-! ## Rows without links -/

/-- One UPDATE of the table, or none. -/
theorem lawful_modify {t : Tbl} {version : Row t → Int} {w : Row t → Bool} {f : Change Row t}
    (hdb : db' t = (db t).modify w f) (hf : ∀ r, version (f.apply r) = version r + 1) :
    Lawful t version (fun r r' => r' = r) db db' := by
  intro r hr
  refine ⟨if w r then f.apply r else r, ?_, ?_, ?_⟩
  · rw [Sql.Db.rows, hdb, Table.rows_modify]
    exact List.mem_map_of_mem hr
  · split
    · exact f.key_apply r
    · rfl
  · split
    · rw [hf]
      exact VersionLaw.bumped
    · exact VersionLaw.kept rfl

/-- A table the request does not update. -/
theorem lawful_of_not_updated {t : Tbl} {version : Row t → Int} {b : Body}
    (ht : request.updatesTable t = false)
    (h : exec (request.work env userId) db = .ok (b, db')) :
    Lawful t version (fun r r' => r' = r) db db' := by
  intro r hr
  obtain ⟨r', hr', hchain⟩ :=
    exec_rewrites_kept (work_rewrites env userId request) h (Table.mem_rows_iff.mp hr)
  obtain rfl := eq_of_not_updatesTable ht hchain
  exact ⟨r', Table.mem_of_find? hr', rfl, VersionLaw.kept rfl⟩

theorem lawful_refl {t : Tbl} {version : Row t → Int} (hdb : db' t = db t) :
    Lawful t version (fun r r' => r' = r) db db' := by
  intro r hr
  exact ⟨r, by rwa [Sql.Db.rows, hdb], rfl, VersionLaw.kept rfl⟩

theorem exec_updateSettings {fields : SettingsFields} {b : Body}
    (h : exec (updateSettings env userId fields) db = .ok (b, db')) :
    db' = db ∨ db' .userSettings =
      (db .userSettings).modify (fun r => decide (r.userId = userId)) (setSettings env fields) := by
  unfold updateSettings at h
  split at h
  · simp only [exec_bind_ok, exec_fetchRow_ok, exec_orRaise_ok, exec_pure_ok] at h
    obtain ⟨_, _, ⟨-, rfl⟩, _, _, ⟨-, rfl⟩, -, rfl⟩ := h
    exact .inl rfl
  · simp only [exec_bind_ok, exec_raiseIf_ok, exec_fetchRow_ok, exec_orRaise_ok,
      exec_pure_ok] at h
    obtain ⟨_, _, ⟨-, rfl⟩, _, _, hzone, _, _, ⟨-, rfl⟩, _, _, ⟨-, rfl⟩, _, _, hupd, _, _,
      ⟨-, rfl⟩, _, _, hlog, -, rfl⟩ := h
    obtain rfl := exec_readOnly StatementLemmas.readOnly_validateNewTimezone hzone
    obtain ⟨-, rfl⟩ := exec_updateRow hupd
    obtain ⟨log, rfl⟩ := exec_writeActivityLog hlog
    exact .inr (by simp)

theorem settings_lawful {b : Body} (h : exec (request.work env userId) db = .ok (b, db')) :
    Lawful .userSettings (fun r => r.version) (fun r r' => r' = r) db db' := by
  by_cases ht : request.updatesTable .userSettings = true
  · cases request with
    | updateSettings body =>
      rcases exec_updateSettings h with rfl | hdb
      · exact lawful_refl rfl
      · exact lawful_modify hdb fun _ => rfl
    | _ => cases ht
  · exact lawful_of_not_updated (Bool.eq_false_iff.mpr ht) h

theorem accounts_lawful {b : Body} (h : exec (request.work env userId) db = .ok (b, db')) :
    Lawful .bankAccounts (fun r => r.version) (fun r r' => r' = r) db db' := by
  by_cases ht : request.updatesTable .bankAccounts = true
  · cases request with
    | updateAccount id body =>
      rcases exec_updateAccount h with rfl | ⟨name, hdb⟩
      · exact lawful_refl rfl
      · exact lawful_modify ((hdb _ rfl).trans (Db.modify_same ..)) fun _ => rfl
    | deleteAccount id =>
      exact lawful_modify (((exec_deleteAccount h).2 _ rfl).trans (Db.modify_same ..)) fun _ => rfl
    | restoreAccount id =>
      exact lawful_modify ((exec_restoreAccount h _ rfl).trans (Db.modify_same ..)) fun _ => rfl
    | archiveAccount id | unarchiveAccount id =>
      exact lawful_modify ((exec_setAccountArchive h _ rfl).trans (Db.modify_same ..)) fun _ => rfl
    | _ => cases ht
  · exact lawful_of_not_updated (Bool.eq_false_iff.mpr ht) h

theorem categories_lawful {b : Body} (h : exec (request.work env userId) db = .ok (b, db')) :
    Lawful .categories (fun r => r.version) (fun r r' => r' = r) db db' := by
  by_cases ht : request.updatesTable .categories = true
  · cases request with
    | updateCategory id body =>
      rcases exec_updateNamedResource (fun _ _ => writesOnly_checkCategoryName) h with
        rfl | ⟨name, hdb⟩
      · exact lawful_refl rfl
      · exact lawful_modify ((hdb _ rfl).trans (Db.modify_same ..)) fun _ => rfl
    | deleteCategory id =>
      exact lawful_modify (((exec_deleteCategory h).2 _ rfl).trans (Db.modify_same ..)) fun _ => rfl
    | restoreCategory id =>
      exact lawful_modify ((exec_restoreCategory h _ rfl).trans (Db.modify_same ..)) fun _ => rfl
    | _ => cases ht
  · exact lawful_of_not_updated (Bool.eq_false_iff.mpr ht) h

theorem hashtags_lawful {b : Body} (h : exec (request.work env userId) db = .ok (b, db')) :
    Lawful .hashtags (fun r => r.version) (fun r r' => r' = r) db db' := by
  by_cases ht : request.updatesTable .hashtags = true
  · cases request with
    | updateHashtag id body =>
      rcases exec_updateNamedResource (fun _ _ => writesOnly_pure _) h with rfl | ⟨name, hdb⟩
      · exact lawful_refl rfl
      · exact lawful_modify ((hdb _ rfl).trans (Db.modify_same ..)) fun _ => rfl
    | deleteHashtag id =>
      obtain ⟨-, ledgerIds, inboxIds, hdb⟩ := exec_deleteHashtag h
      have hrows : db' .hashtags = (db .hashtags).modify (owns .hashtags id userId .either)
          (marked .hashtags env.now (some env.now)) := by
        rw [hdb _ rfl, Db.hashtagDeleted, Db.modify_same]
        simp [Db.parentsBumped]
      exact lawful_modify hrows fun _ => rfl
    | restoreHashtag id =>
      exact lawful_modify ((exec_restoreHashtag h _ rfl).trans (Db.modify_same ..)) fun _ => rfl
    | _ => cases ht
  · exact lawful_of_not_updated (Bool.eq_false_iff.mpr ht) h

theorem reconciliations_lawful {b : Body}
    (h : exec (request.work env userId) db = .ok (b, db')) :
    Lawful .reconciliations (fun r => r.version) (fun r r' => r' = r) db db' := by
  intro r hr
  obtain ⟨db₁, heffect, hcore⟩ := work_effect h
  obtain ⟨r', hr', hstep⟩ := (reconciliations_evolve heffect).fate hr
  rw [← hcore.rows rfl] at hr'
  refine ⟨r', hr', ?_⟩
  cases hstep with
  | kept => exact ⟨rfl, VersionLaw.kept rfl⟩
  | edited | completed | reverted | deleted | restored => exact ⟨rfl, VersionLaw.bumped⟩

/-! ## The links of a parent -/

/-- The tags of a parent are its live links. -/
theorem hashtagIdsOf_congr {p : Uuid} {source : TransactionSource}
    (h : ∀ x : Row .transactionHashtags, isLiveLink p source x = true →
      (x ∈ db'.rows .transactionHashtags ↔ x ∈ db.rows .transactionHashtags)) :
    hashtagIdsOf db' p source = hashtagIdsOf db p source := by
  have hnodup : ∀ d : Db, ((d.rows .transactionHashtags).filter (isLiveLink p source)).Nodup :=
    fun d => ((d .transactionHashtags).nodup.of_map _).filter _
  have hperm : ((db'.rows .transactionHashtags).filter (isLiveLink p source)).Perm
      ((db.rows .transactionHashtags).filter (isLiveLink p source)) := by
    refine (List.perm_ext_iff_of_nodup (hnodup db') (hnodup db)).mpr fun x => ?_
    simp only [List.mem_filter]
    exact and_congr_left (h x)
  refine List.Perm.eq_of_sortedLE List.sortedLE_insertionSort List.sortedLE_insertionSort ?_
  refine (List.perm_insertionSort _ _).trans (.trans ?_ (List.perm_insertionSort _ _).symm)
  exact hperm.map _

theorem updates_link {r r' : Row .transactionHashtags}
    (hrequest : ∀ id, request ≠ .deleteHashtag id)
    (h : Updates env userId request .transactionHashtags r r') :
    (r.transactionId, r.transactionSource) ∈ request.parents := by
  cases h with
  | link hparent => exact hparent
  | linkDropped => exact absurd rfl (hrequest _)

theorem proposes_link {r : Row .transactionHashtags}
    (h : Proposes env userId request .transactionHashtags r) :
    (r.transactionId, r.transactionSource) ∈ request.parents ∧ r.userId = userId := by
  cases h with
  | link hin => exact ⟨hin, rfl⟩

/-- A link of another parent is left alone. -/
theorem links_kept {b : Body} (hrequest : ∀ id, request ≠ .deleteHashtag id)
    (h : exec (request.work env userId) db = .ok (b, db')) {x : Row .transactionHashtags}
    (hx : (x.transactionId, x.transactionSource) ∉ request.parents) :
    x ∈ db'.rows .transactionHashtags ↔ x ∈ db.rows .transactionHashtags := by
  have hstill : ∀ {r r' : Row .transactionHashtags},
      (r.transactionId, r.transactionSource) ∉ request.parents →
      Relation.ReflTransGen (Updates env userId request .transactionHashtags) r r' → r' = r :=
    fun hr => (Relation.reflTransGen_iff_eq fun _ hu => hr (updates_link hrequest hu)).mp
  constructor
  · intro hmem
    rcases exec_rewrites_origin (work_rewrites env userId request) h
      (Table.mem_rows_iff.mp hmem) with ⟨r, hr, hchain⟩ | ⟨-, r, hr, hkey, -⟩
    · have hparent : (r.transactionId, r.transactionSource) =
          (x.transactionId, x.transactionSource) :=
        congrArg (fun k => (k.1, k.2.1)) (Table.key_of_find? hr)
      rw [hstill (hparent ▸ hx) hchain]
      exact Table.mem_of_find? hr
    · -- a proposed link is one of a parent of the request
      have hparent : (r.transactionId, r.transactionSource) =
          (x.transactionId, x.transactionSource) :=
        congrArg (fun k => (k.1, k.2.1)) hkey
      exact absurd (hparent ▸ (proposes_link hr).1) hx
  · intro hmem
    obtain ⟨r', hr', hchain⟩ :=
      exec_rewrites_kept (work_rewrites env userId request) h (Table.mem_rows_iff.mp hmem)
    rw [hstill hx hchain] at hr'
    exact Table.mem_of_find? hr'

theorem exec_deleteHashtag_parents {id : Uuid} {b : Body}
    (h : exec (deleteHashtag env userId id) db = .ok (b, db')) :
    let affected := ((db.rows .transactionHashtags).filter (isHashtagLink userId id)).map
      (linkMarked env.now (some env.now)).apply
    CoreEq db' (db.hashtagDeleted env userId id (parentIds affected .ledger)
      (parentIds affected .inbox)) := by
  simp only [deleteHashtag, exec_bind_ok, exec_fetchOwnedRowOr404_ok] at h
  obtain ⟨row, _, ⟨hfind, rfl⟩, _, _, hlinks, _, _, htxns, _, _, hinbox, h⟩ := h
  obtain ⟨rfl, rfl⟩ := exec_updateWhere hlinks
  obtain rfl := exec_bumpParents htxns
  obtain rfl := exec_bumpParents hinbox
  obtain ⟨log, rfl⟩ := exec_softDeleteWithAudit (fun _ => writesOnly_pure _) h
  have howned := owns_active.mp (find?_row hfind).2
  rw [howned.1]
  exact .log log

/-- A delete of a hashtag leaves the live links that are not the hashtag's. -/
theorem mem_links_deleteHashtag {id : Uuid} {b : Body}
    (h : exec (deleteHashtag env userId id) db = .ok (b, db')) {x : Row .transactionHashtags}
    (hlive : x.deletedAt = none) : x ∈ db'.rows .transactionHashtags ↔
      x ∈ db.rows .transactionHashtags ∧ isHashtagLink userId id x = false := by
  have hrows : db'.rows .transactionHashtags = (db.rows .transactionHashtags).map fun r =>
      if isHashtagLink userId id r then (linkMarked env.now (some env.now)).apply r else r := by
    rw [(exec_deleteHashtag_parents h).rows rfl]
    simp [Db.hashtagDeleted, Db.parentsBumped, Sql.Db.rows]
  rw [hrows, List.mem_map]
  constructor
  · rintro ⟨r, hr, rfl⟩
    split at hlive
    · cases hlive
    · next hw =>
      rw [if_neg hw]
      exact ⟨hr, Bool.eq_false_iff.mpr hw⟩
  · rintro ⟨hmem, hw⟩
    exact ⟨x, hmem, if_neg (Bool.eq_false_iff.mp hw)⟩

theorem mem_parentIds {links : List (Row .transactionHashtags)} {now : Timestamp}
    {d : Option Timestamp} {source : TransactionSource} {p : Uuid} :
    p ∈ parentIds (links.map (linkMarked now d).apply) source ↔
      ∃ l ∈ links, l.transactionId = p ∧ l.transactionSource = source := by
  simp only [parentIds, List.mem_dedup, List.mem_map, List.mem_filter, decide_eq_true_eq]
  constructor
  · rintro ⟨_, ⟨⟨l, hl, rfl⟩, hs⟩, rfl⟩
    exact ⟨l, hl, rfl, hs⟩
  · rintro ⟨l, hl, rfl, hs⟩
    exact ⟨_, ⟨⟨l, hl, rfl⟩, hs⟩, rfl⟩

end VersionLemmas

open VersionLemmas

/-! ## Whose links they are -/

/-- The user has the parent: a ledger row or a draft. -/
def ParentOf (db : Db) (userId : Uuid) : Uuid × TransactionSource → Prop
  | (p, .ledger) => ∃ t ∈ db.rows .transactions, t.id = p ∧ t.userId = userId
  | (p, .inbox) => ∃ d ∈ db.rows .transactionInbox, d.id = p ∧ d.userId = userId

/-- Every link, live or not, is its parent's user's. -/
def LinksOwned (db : Db) : Prop :=
  ∀ l ∈ db.rows .transactionHashtags, ParentOf db l.userId (l.transactionId, l.transactionSource)

namespace VersionLemmas

theorem updates_transactionOwner {r r' : Row .transactions}
    (h : Updates env userId request .transactions r r') : r'.userId = r.userId := by
  cases h <;> rfl

theorem updates_draftOwner {r r' : Row .transactionInbox}
    (h : Updates env userId request .transactionInbox r r') : r'.userId = r.userId := by
  cases h <;> rfl

theorem updates_linkOwner {r r' : Row .transactionHashtags}
    (h : Updates env userId request .transactionHashtags r r') : r'.userId = r.userId := by
  cases h <;> rfl

/-- What every statement of a request keeps of a row, the request keeps. -/
theorem chain_keeps {t : Tbl} {α : Type} {f : Row t → α}
    (hf : ∀ r r', Updates env userId request t r r' → f r' = f r) {r r' : Row t}
    (h : Relation.ReflTransGen (Updates env userId request t) r r') : f r' = f r := by
  induction h with
  | refl => rfl
  | tail _ hstep ih => exact (hf _ _ hstep).trans ih

theorem parentOf_kept {b : Body} {u : Uuid} {p : Uuid × TransactionSource}
    (h : exec (request.work env userId) db = .ok (b, db')) (hp : ParentOf db u p) :
    ParentOf db' u p := by
  obtain ⟨p, source⟩ := p
  cases source with
  | ledger =>
    obtain ⟨t, ht, rfl, rfl⟩ := hp
    obtain ⟨t', ht', hchain⟩ :=
      exec_rewrites_kept (work_rewrites env userId request) h (Table.mem_rows_iff.mp ht)
    exact ⟨t', Table.mem_of_find? ht', Table.key_of_find? ht',
      chain_keeps (fun _ _ => updates_transactionOwner) hchain⟩
  | inbox =>
    obtain ⟨d, hd, rfl, rfl⟩ := hp
    obtain ⟨d', hd', hchain⟩ :=
      exec_rewrites_kept (work_rewrites env userId request) h (Table.mem_rows_iff.mp hd)
    exact ⟨d', Table.mem_of_find? hd', Table.key_of_find? hd',
      chain_keeps (fun _ _ => updates_draftOwner) hchain⟩

/-- The parents of a request that writes are its user's. -/
theorem parents_owned {b : Body} (h : exec (request.work env userId) db = .ok (b, db')) :
    db' = db ∨ ∀ p ∈ request.parents, ParentOf db' userId p := by
  have hledger : ∀ t ∈ db.rows .transactions, t.userId = userId →
      ParentOf db' userId (t.id, .ledger) :=
    fun t ht hu => parentOf_kept h ⟨t, ht, rfl, hu⟩
  have hinbox : ∀ d ∈ db.rows .transactionInbox, d.userId = userId →
      ParentOf db' userId (d.id, .inbox) :=
    fun d hd hu => parentOf_kept h ⟨d, hd, rfl, hu⟩
  cases request with
  | createTransaction body =>
    obtain ⟨hc, hdb⟩ := exec_createTransaction h
    refine .inr (List.forall_mem_singleton.mpr ⟨requestedRow env userId body, ?_, rfl, rfl⟩)
    rw [hdb.rows rfl, EvolutionLemmas.rows_created hc]
    simp
  | batchCreateTransactions items =>
    obtain ⟨db₁, hc, hdb⟩ := exec_createBatch h
    refine .inr fun p hp => ?_
    obtain ⟨item, hitem, rfl⟩ := List.mem_map.mp hp
    refine ⟨requestedRow env userId item, ?_, rfl, rfl⟩
    rw [hdb.rows rfl, (EvolutionLemmas.rows_createdAll hc).1]
    exact List.mem_append_right _ (List.mem_map_of_mem hitem)
  | createOpeningBalance accountId body =>
    obtain ⟨db₁, item, hid, -, hseed, hc, hdb⟩ := exec_createOpeningBalance h
    refine .inr (List.forall_mem_singleton.mpr ⟨requestedRow env userId item, ?_, hid, rfl⟩)
    rw [hdb.rows rfl, EvolutionLemmas.rows_created hc]
    simp
  | updateTransaction id body =>
    rcases exec_updateTransaction h with ⟨-, -, -, rfl⟩ | ⟨row, hrow, -⟩
    · exact .inl rfl
    · obtain ⟨rfl, hu, -⟩ := hrow.owned
      exact .inr (List.forall_mem_singleton.mpr (hledger row hrow.found hu))
  | deleteTransaction id =>
    obtain ⟨⟨row, hrow, ⟨rfl, hu, -⟩, -⟩, -⟩ := exec_deleteTransaction h
    exact .inr (List.forall_mem_singleton.mpr (hledger row hrow hu))
  | restoreTransaction id =>
    obtain ⟨row, unlink, hres, -⟩ := exec_restoreTransaction h
    obtain ⟨rfl, hu, -⟩ := hres.owned
    exact .inr (List.forall_mem_singleton.mpr (hledger row hres.found hu))
  | createInboxItem body =>
    obtain ⟨⟨-, hins, -⟩, hdb⟩ := exec_createInboxItem h
    refine .inr (List.forall_mem_singleton.mpr ⟨requestedDraft env userId body, ?_, rfl, rfl⟩)
    rw [hdb.rows rfl, Sql.Db.rows, Db.drafted, tagged_ne (by simp)]
    exact Table.mem_of_find? (k := body.id) (by rw [Db.put_same]; exact Table.find?_put_self _ _)
  | updateInboxItem id body =>
    rcases exec_updateInboxItem h with ⟨-, -, rfl⟩ | ⟨row, hrow, -⟩
    · exact .inl rfl
    · obtain ⟨rfl, hu, -⟩ := hrow.owned
      exact .inr (List.forall_mem_singleton.mpr (hinbox row hrow.found hu))
  | deleteInboxItem id =>
    obtain ⟨⟨row, hrow, rfl, hu, -⟩, -⟩ := exec_deleteInboxItem h
    exact .inr (List.forall_mem_singleton.mpr (hinbox row hrow hu))
  | promoteInboxItem id targetId =>
    obtain ⟨draft, ty, hp, hdb⟩ := exec_promoteInboxItem h
    obtain ⟨rfl, hu, -, -⟩ := And.intro hp.pending.1 hp.pending.2
    refine .inr (List.forall_mem_cons.mpr ⟨⟨promotedRow env userId targetId draft ty, ?_, rfl, rfl⟩,
      List.forall_mem_singleton.mpr (hinbox draft hp.found hu)⟩)
    rw [hdb.rows rfl, EvolutionLemmas.rows_promoted hp]
    simp
  | _ => exact .inr (List.forall_mem_nil _)

end VersionLemmas

theorem LinksOwned.step (hlinks : LinksOwned db) (c : Call) : LinksOwned (step db c) := by
  rcases step_cases db c with hsame | ⟨b, db₁, hwork, hdb⟩
  · rwa [hsame]
  · have hrows : ∀ t, t ≠ .idempotencyKeys → (ExpenseEngine.step db c).rows t = db₁.rows t :=
      fun t ht => congrArg Table.rows (hdb t ht)
    have hback : ∀ {u p}, ParentOf db₁ u p → ParentOf (ExpenseEngine.step db c) u p := by
      rintro u ⟨p, source⟩ hp
      cases source with
      | ledger =>
        show ∃ t ∈ (ExpenseEngine.step db c).rows .transactions, _
        rwa [hrows .transactions (by simp)]
      | inbox =>
        show ∃ t ∈ (ExpenseEngine.step db c).rows .transactionInbox, _
        rwa [hrows .transactionInbox (by simp)]
    intro l hl
    rw [hrows .transactionHashtags (by simp)] at hl
    refine hback ?_
    rcases exec_rewrites_origin (work_rewrites c.env c.userId c.request) hwork
      (Table.mem_rows_iff.mp hl) with ⟨r, hr, hchain⟩ | ⟨hnone, r, hr, hkey, hchain⟩
    · have hkey := Table.key_of_find? hr
      have hparent : (r.transactionId, r.transactionSource) =
          (l.transactionId, l.transactionSource) :=
        congrArg (fun k => (k.1, k.2.1)) hkey
      rw [← hparent, chain_keeps (fun _ _ => updates_linkOwner) hchain]
      exact parentOf_kept hwork (hlinks r (Table.mem_of_find? hr))
    · have hparent : (r.transactionId, r.transactionSource) =
          (l.transactionId, l.transactionSource) :=
        congrArg (fun k => (k.1, k.2.1)) hkey
      rw [← hparent, chain_keeps (fun _ _ => updates_linkOwner) hchain]
      obtain ⟨hin, hu⟩ := proposes_link hr
      rw [hu]
      rcases parents_owned hwork with rfl | howned
      · rw [Table.mem_rows_iff.mp hl] at hnone
        cases hnone
      · exact howned _ hin

theorem Fresh.linksOwned (h : Fresh db) : LinksOwned db := by
  simp [LinksOwned, h.transactionHashtags]

theorem LinksOwned.run (hlinks : LinksOwned db) (calls : List Call) : LinksOwned (run db calls) :=
  run_invariant (fun _ c hdb _ => hdb.step c) hlinks (along_true db calls)

/-! ## Rows with links -/

namespace VersionLemmas

/-- One UPDATE of the row. -/
theorem bumped_of_rows {t : Tbl} {version : Row t → Int} {w : Row t → Bool} {f : Change Row t}
    {r : Row t} (hrows : db'.rows t = (db.rows t).map fun r => if w r then f.apply r else r)
    (hr : r ∈ db.rows t) (hw : w r = true) (hf : version (f.apply r) = version r + 1) :
    ∃ r' ∈ db'.rows t, keyOf t r' = keyOf t r ∧ version r' = version r + 1 := by
  refine ⟨f.apply r, ?_, f.key_apply r, hf⟩
  rw [hrows]
  exact List.mem_map.mpr ⟨r, hr, if_pos hw⟩

/-- A ledger row whose links a request writes is bumped. -/
theorem ledger_bumped {b : Body} (h : exec (request.work env userId) db = .ok (b, db'))
    {t : Row .transactions} (ht : t ∈ db.rows .transactions)
    (hp : (t.id, TransactionSource.ledger) ∈ request.parents) :
    db' = db ∨ ∃ t' ∈ db'.rows .transactions, t'.id = t.id ∧ t'.version = t.version + 1 := by
  cases request with
  | createTransaction body =>
    obtain ⟨hc, -⟩ := exec_createTransaction h
    obtain ⟨hid, -⟩ := Prod.mk.inj (List.mem_singleton.mp hp)
    exact absurd hid (EvolutionLemmas.fresh_of_inserts hc.inserts t ht)
  | batchCreateTransactions items =>
    obtain ⟨db₁, hc, -⟩ := exec_createBatch h
    obtain ⟨item, hitem, hid⟩ := List.mem_map.mp hp
    obtain ⟨hid, -⟩ := Prod.mk.inj hid
    exact absurd hid.symm (((EvolutionLemmas.rows_createdAll hc).2 item hitem).1 t ht)
  | createOpeningBalance accountId body =>
    obtain ⟨db₁, item, hid, -, hseed, hc, -⟩ := exec_createOpeningBalance h
    obtain ⟨hid', -⟩ := Prod.mk.inj (List.mem_singleton.mp hp)
    have hrows : db₁.rows .transactions = db.rows .transactions := by
      rcases hseed with ⟨rfl, -⟩ | ⟨r, -, -, -, -, rfl⟩
      · rfl
      · simp
    refine absurd (hid'.trans hid.symm) (EvolutionLemmas.fresh_of_inserts hc.inserts t ?_)
    rwa [hrows]
  | updateTransaction id body =>
    rcases exec_updateTransaction h with ⟨-, -, -, rfl⟩ | ⟨row, hrow, hdb⟩
    · exact .inl rfl
    · obtain ⟨rfl, -⟩ := Prod.mk.inj (List.mem_singleton.mp hp)
      obtain rfl : t = row := EvolutionLemmas.eq_of_id ht hrow.found hrow.owned.1.symm
      have hrows := (hdb.rows (t := .transactions) rfl).trans
        ((congrArg Table.rows (retagged_ne (by simp))).trans (Db.rows_modify_same ..))
      exact .inr (bumped_of_rows hrows ht (owns_active.mpr hrow.owned) rfl)
  | deleteTransaction id =>
    obtain ⟨⟨row, hrow, howned, -⟩, hdb⟩ := exec_deleteTransaction h
    obtain ⟨rfl, -⟩ := Prod.mk.inj (List.mem_singleton.mp hp)
    obtain rfl : t = row := EvolutionLemmas.eq_of_id ht hrow howned.1.symm
    have hrows := (hdb.rows (t := .transactions) rfl).trans
      ((congrArg Table.rows (cascaded_ne (by simp))).trans (Db.rows_modify_same ..))
    exact .inr (bumped_of_rows hrows ht (owns_either.mpr ⟨howned.1, howned.2.1⟩) rfl)
  | restoreTransaction id =>
    obtain ⟨row, unlink, hres, hdb⟩ := exec_restoreTransaction h
    obtain ⟨rfl, -⟩ := Prod.mk.inj (List.mem_singleton.mp hp)
    obtain rfl : t = row := EvolutionLemmas.eq_of_id ht hres.found hres.owned.1.symm
    have hrows := (hdb.rows (t := .transactions) rfl).trans
      ((congrArg Table.rows (revived_ne (by simp))).trans (Db.rows_modify_same ..))
    exact .inr (bumped_of_rows hrows ht (owns_either.mpr ⟨hres.owned.1, hres.owned.2.1⟩) rfl)
  | promoteInboxItem id targetId =>
    obtain ⟨draft, ty, hprom, -⟩ := exec_promoteInboxItem h
    have hid : t.id = targetId := by simpa [Request.parents] using hp
    exact absurd hid (EvolutionLemmas.fresh_of_inserts hprom.inserts t ht)
  | createInboxItem | updateInboxItem | deleteInboxItem => simp [Request.parents] at hp
  | _ => cases hp

/-- A draft whose links a request writes is bumped. -/
theorem draft_bumped {b : Body} (h : exec (request.work env userId) db = .ok (b, db'))
    {d : Row .transactionInbox} (hd : d ∈ db.rows .transactionInbox)
    (hp : (d.id, TransactionSource.inbox) ∈ request.parents) :
    db' = db ∨ ∃ d' ∈ db'.rows .transactionInbox, d'.id = d.id ∧ d'.version = d.version + 1 := by
  cases request with
  | createInboxItem body =>
    obtain ⟨⟨-, hins, -⟩, -⟩ := exec_createInboxItem h
    obtain ⟨hid, -⟩ := Prod.mk.inj (List.mem_singleton.mp hp)
    exact absurd hid (EvolutionLemmas.fresh_of_inserts hins d hd)
  | updateInboxItem id body =>
    rcases exec_updateInboxItem h with ⟨-, -, rfl⟩ | ⟨row, hrow, hdb⟩
    · exact .inl rfl
    · obtain ⟨rfl, -⟩ := Prod.mk.inj (List.mem_singleton.mp hp)
      obtain rfl : d = row := EvolutionLemmas.eq_of_id hd hrow.found hrow.owned.1.symm
      have hrows := (hdb.rows (t := .transactionInbox) rfl).trans
        ((congrArg Table.rows (retagged_ne (by simp))).trans (Db.rows_modify_same ..))
      exact .inr (bumped_of_rows hrows hd (owns_active.mpr hrow.owned) rfl)
  | deleteInboxItem id =>
    obtain ⟨⟨row, hrow, howned⟩, hdb⟩ := exec_deleteInboxItem h
    obtain ⟨rfl, -⟩ := Prod.mk.inj (List.mem_singleton.mp hp)
    obtain rfl : d = row := EvolutionLemmas.eq_of_id hd hrow howned.1.symm
    have hrows := (hdb.rows (t := .transactionInbox) rfl).trans
      ((congrArg Table.rows (cascaded_ne (by simp))).trans (Db.rows_modify_same ..))
    exact .inr (bumped_of_rows hrows hd (owns_either.mpr ⟨howned.1, howned.2.1⟩) rfl)
  | promoteInboxItem id targetId =>
    obtain ⟨draft, ty, hprom, hdb⟩ := exec_promoteInboxItem h
    have hid : d.id = id := by simpa [Request.parents] using hp
    subst hid
    obtain rfl : d = draft := EvolutionLemmas.eq_of_id hd hprom.found hprom.pending.1.symm
    have hbump : (db.promoted env userId d.id targetId d ty).rows .transactionInbox =
        (db.rows .transactionInbox).map fun r =>
          if owns .transactionInbox d.id userId .either r then
            (bumped .transactionInbox env.now (setPromoted env)).apply r else r := by
      refine (congrArg Table.rows (cascaded_ne (by simp))).trans ((Db.rows_modify_same ..).trans ?_)
      simp [Sql.Db.rows]
    exact .inr (bumped_of_rows ((hdb.rows (t := .transactionInbox) rfl).trans hbump) hd
      (owns_either.mpr ⟨rfl, hprom.pending.2.1⟩) rfl)
  | batchCreateTransactions | createTransaction | createOpeningBalance | updateTransaction
  | deleteTransaction | restoreTransaction => simp [Request.parents] at hp
  | _ => cases hp

/-- A request that deletes no hashtag keeps the tags of the parents whose links
it does not write. -/
theorem tags_kept {b : Body} (hrequest : ∀ id, request ≠ .deleteHashtag id)
    (h : exec (request.work env userId) db = .ok (b, db')) {p : Uuid} {source : TransactionSource}
    (hp : (p, source) ∉ request.parents) :
    hashtagIdsOf db' p source = hashtagIdsOf db p source := by
  refine hashtagIdsOf_congr fun x hx => links_kept hrequest h ?_
  obtain ⟨rfl, rfl, -⟩ := of_decide_eq_true hx
  exact hp

/-- The parents a delete of a hashtag bumps. -/
def untaggedIds (env : Env) (userId hashtagId : Uuid) (db : Db) (source : TransactionSource) :
    List Uuid :=
  parentIds (((db.rows .transactionHashtags).filter (isHashtagLink userId hashtagId)).map
    (linkMarked env.now (some env.now)).apply) source

/-- A parent that loses the deleted hashtag is the user's, and bumped. -/
theorem tags_or_untagged {id : Uuid} {b : Body} (hlinks : LinksOwned db)
    (h : exec (deleteHashtag env userId id) db = .ok (b, db')) (p : Uuid)
    (source : TransactionSource) : hashtagIdsOf db' p source = hashtagIdsOf db p source ∨
      (p ∈ untaggedIds env userId id db source ∧ ParentOf db userId (p, source)) := by
  by_cases hp : p ∈ untaggedIds env userId id db source
  · obtain ⟨l, hl, rfl, rfl⟩ := mem_parentIds.mp hp
    obtain ⟨hmem, hlink⟩ := List.mem_filter.mp hl
    obtain ⟨-, rfl, -⟩ := of_decide_eq_true hlink
    exact .inr ⟨hp, hlinks l hmem⟩
  · refine .inl (hashtagIdsOf_congr fun x hx => ?_)
    obtain ⟨rfl, rfl, hlive⟩ := of_decide_eq_true hx
    rw [mem_links_deleteHashtag h hlive, and_iff_left_iff_imp]
    intro hmem
    by_contra hlink
    have hlink := (Bool.not_eq_false _).mp hlink
    exact hp (mem_parentIds.mpr ⟨x, List.mem_filter.mpr ⟨hmem, hlink⟩, rfl, rfl⟩)

theorem rows_deleteHashtag {id : Uuid} {b : Body}
    (h : exec (deleteHashtag env userId id) db = .ok (b, db')) :
    db'.rows .transactions = (db.rows .transactions).map (fun r =>
        if decide (r.id ∈ untaggedIds env userId id db .ledger ∧ r.userId = userId) then
          (bumped .transactions env.now ⟨fun r => r, fun _ => rfl⟩).apply r else r) ∧
      db'.rows .transactionInbox = (db.rows .transactionInbox).map (fun r =>
        if decide (r.id ∈ untaggedIds env userId id db .inbox ∧ r.userId = userId) then
          (bumped .transactionInbox env.now ⟨fun r => r, fun _ => rfl⟩).apply r else r) := by
  have hcore := exec_deleteHashtag_parents h
  rw [hcore.rows (t := .transactions) rfl, hcore.rows (t := .transactionInbox) rfl]
  constructor <;>
  · simp only [Db.hashtagDeleted, Db.parentsBumped, Sql.Db.rows]
    simp only [untaggedIds, Sql.Db.rows]
    simp
    exact fun _ _ => rfl

theorem transactions_lawful {b : Body} (hlinks : LinksOwned db)
    (h : exec (request.work env userId) db = .ok (b, db')) :
    Lawful .transactions (fun r => r.version)
      (fun r r' => attached db' r' = attached db r) db db' := by
  intro t ht
  have hbump : (∃ t' ∈ db'.rows .transactions, t'.id = t.id ∧ t'.version = t.version + 1) →
      ∃ t' ∈ db'.rows .transactions, keyOf .transactions t' = keyOf .transactions t ∧
        VersionLaw (attached db' t' = attached db t) t.version t'.version := by
    rintro ⟨t', ht', hkey, hv⟩
    refine ⟨t', ht', hkey, ?_⟩
    rw [hv]
    exact VersionLaw.bumped
  have hsame : t ∈ db'.rows .transactions →
      hashtagIdsOf db' t.id .ledger = hashtagIdsOf db t.id .ledger →
      ∃ t' ∈ db'.rows .transactions, keyOf .transactions t' = keyOf .transactions t ∧
        VersionLaw (attached db' t' = attached db t) t.version t'.version := by
    intro ht' htags
    refine ⟨t, ht', rfl, VersionLaw.kept ?_⟩
    rw [attached, attached, htags]
  by_cases hp : (t.id, TransactionSource.ledger) ∈ request.parents
  · rcases ledger_bumped h ht hp with rfl | hbumped
    · exact hsame ht rfl
    · exact hbump hbumped
  · by_cases hrequest : ∃ id, request = .deleteHashtag id
    · obtain ⟨id, rfl⟩ := hrequest
      have hrows := (rows_deleteHashtag h).1
      by_cases hw : t.id ∈ untaggedIds env userId id db .ledger ∧ t.userId = userId
      · exact hbump (bumped_of_rows (t := .transactions) hrows ht (decide_eq_true hw) rfl)
      · refine hsame ?_ ?_
        · rw [hrows]
          exact List.mem_map.mpr ⟨t, ht, if_neg (by simpa using hw)⟩
        · rcases tags_or_untagged hlinks h t.id .ledger with htags | ⟨hid, t', ht', hkey, hu⟩
          · exact htags
          · -- the parent the link names is this row
            obtain rfl := EvolutionLemmas.eq_of_id ht' ht hkey
            exact absurd ⟨hid, hu⟩ hw
    · have htags := tags_kept (fun id hid => hrequest ⟨id, hid⟩) h hp
      obtain ⟨db₁, heffect, hcore⟩ := work_effect h
      obtain ⟨t', ht', hstep⟩ := (transactions_evolve heffect).fate ht
      rw [← hcore.rows (t := .transactions) rfl] at ht'
      cases hstep with
      | kept hto =>
        rcases hto with rfl | ⟨now, rfl⟩
        · exact hsame ht' htags
        · exact hbump ⟨_, ht', rfl, rfl⟩
      | updated | deleted | restored | unassigned => exact hbump ⟨_, ht', rfl, rfl⟩

theorem drafts_lawful {b : Body} (hlinks : LinksOwned db)
    (h : exec (request.work env userId) db = .ok (b, db')) :
    Lawful .transactionInbox (fun r => r.version)
      (fun r r' => attachedDraft db' r' = attachedDraft db r) db db' := by
  intro d hd
  have hbump : (∃ d' ∈ db'.rows .transactionInbox, d'.id = d.id ∧ d'.version = d.version + 1) →
      ∃ d' ∈ db'.rows .transactionInbox, keyOf .transactionInbox d' = keyOf .transactionInbox d ∧
        VersionLaw (attachedDraft db' d' = attachedDraft db d) d.version d'.version := by
    rintro ⟨d', hd', hkey, hv⟩
    refine ⟨d', hd', hkey, ?_⟩
    rw [hv]
    exact VersionLaw.bumped
  have hsame : d ∈ db'.rows .transactionInbox →
      hashtagIdsOf db' d.id .inbox = hashtagIdsOf db d.id .inbox →
      ∃ d' ∈ db'.rows .transactionInbox, keyOf .transactionInbox d' = keyOf .transactionInbox d ∧
        VersionLaw (attachedDraft db' d' = attachedDraft db d) d.version d'.version := by
    intro hd' htags
    refine ⟨d, hd', rfl, VersionLaw.kept ?_⟩
    rw [attachedDraft, attachedDraft, htags]
  by_cases hp : (d.id, TransactionSource.inbox) ∈ request.parents
  · rcases draft_bumped h hd hp with rfl | hbumped
    · exact hsame hd rfl
    · exact hbump hbumped
  · by_cases hrequest : ∃ id, request = .deleteHashtag id
    · obtain ⟨id, rfl⟩ := hrequest
      have hrows := (rows_deleteHashtag h).2
      by_cases hw : d.id ∈ untaggedIds env userId id db .inbox ∧ d.userId = userId
      · exact hbump (bumped_of_rows (t := .transactionInbox) hrows hd (decide_eq_true hw) rfl)
      · refine hsame ?_ ?_
        · rw [hrows]
          exact List.mem_map.mpr ⟨d, hd, if_neg (by simpa using hw)⟩
        · rcases tags_or_untagged hlinks h d.id .inbox with htags | ⟨hid, d', hd', hkey, hu⟩
          · exact htags
          · obtain rfl := EvolutionLemmas.eq_of_id hd' hd hkey
            exact absurd ⟨hid, hu⟩ hw
    · have htags := tags_kept (fun id hid => hrequest ⟨id, hid⟩) h hp
      obtain ⟨db₁, heffect, hcore⟩ := work_effect h
      obtain ⟨d', hd', hstep⟩ := (drafts_evolve heffect).fate hd
      rw [← hcore.rows (t := .transactionInbox) rfl] at hd'
      cases hstep with
      | kept hto =>
        rcases hto with rfl | ⟨now, rfl⟩
        · exact hsame hd' htags
        · exact hbump ⟨_, hd', rfl, rfl⟩
      | updated | dismissed | promoted => exact hbump ⟨_, hd', rfl, rfl⟩

theorem VersionsLawful.refl (db : Db) : VersionsLawful db db where
  accounts := lawful_refl rfl
  categories := lawful_refl rfl
  hashtags := lawful_refl rfl
  reconciliations := lawful_refl rfl
  settings := lawful_refl rfl
  drafts d hd := ⟨d, hd, rfl, VersionLaw.kept rfl⟩
  transactions t ht := ⟨t, ht, rfl, VersionLaw.kept rfl⟩

end VersionLemmas

/-- In every reachable state, a request moves the version of each row by at most
one, and by one when it changes what is stored of the row or its tags. -/
theorem version_law {db₀ : Db} (hfresh : Fresh db₀) (calls : List Call) (c : Call) :
    VersionsLawful (run db₀ calls) (step (run db₀ calls) c) := by
  rcases step_cases (run db₀ calls) c with hsame | ⟨b, db₁, hwork, hdb⟩
  · rw [hsame]
    exact VersionsLawful.refl _
  · have hlinks := hfresh.linksOwned.run calls
    have hrows : ∀ t, t ≠ .idempotencyKeys → db₁.rows t = (step (run db₀ calls) c).rows t :=
      fun t ht => (congrArg Table.rows (hdb t ht)).symm
    have htags : ∀ p source, hashtagIdsOf (step (run db₀ calls) c) p source =
        hashtagIdsOf db₁ p source := by
      intro p source
      rw [hashtagIdsOf, ← hrows _ (by simp), ← hashtagIdsOf]
    -- the idempotency row the call may add is no versioned row and no link
    refine ⟨?_, ?_, ?_, ?_, ?_, ?_, ?_⟩
    · exact (accounts_lawful hwork).congr (hrows _ (by simp)) fun _ _ => Iff.rfl
    · exact (categories_lawful hwork).congr (hrows _ (by simp)) fun _ _ => Iff.rfl
    · exact (hashtags_lawful hwork).congr (hrows _ (by simp)) fun _ _ => Iff.rfl
    · exact (reconciliations_lawful hwork).congr (hrows _ (by simp)) fun _ _ => Iff.rfl
    · exact (settings_lawful hwork).congr (hrows _ (by simp)) fun _ _ => Iff.rfl
    · refine (drafts_lawful hlinks hwork).congr (hrows _ (by simp)) fun _ _ => ?_
      simp only [attachedDraft, htags]
    · refine (transactions_lawful hlinks hwork).congr (hrows _ (by simp)) fun _ _ => ?_
      simp only [attached, htags]

end Versions

open Ascii in
/-- A delete of the hashtag bumps the transaction that carries it, once. -/
theorem version_law_untag : VersionsLawful
    (run blank (setup ++ [callAt 6 (.createHashtag ⟨50, "trip".toList, none⟩),
      callAt 7 (.createTransaction ⟨31, "Taxi".toList, -900, 7, 10, 20, none, [50]⟩)]))
    (step (run blank (setup ++ [callAt 6 (.createHashtag ⟨50, "trip".toList, none⟩),
      callAt 7 (.createTransaction ⟨31, "Taxi".toList, -900, 7, 10, 20, none, [50]⟩)]))
      (callAt 8 (.deleteHashtag 50))) :=
  version_law fresh_blank _ _

end ExpenseEngine
