import ExpenseEngine.Refinement.Readiness
import ExpenseEngine.Sql.Upserts

/-!
# Tag sets

The junction table as a map from (parent, source, hashtag) to links, and what the
statements on it do to the map. Setting the tags of a parent drops the live links
outside of the set and proposes a link for every member of it. A member whose
link is not live is written, so it must be in the list once; a member whose link
is live is left alone, however often it is in the list.

Results:
1. `linkOf_synced`: every link after its parent's tags were set.
2. `exec_syncHashtags_total`: which lists are accepted.
3. `sync_sets_tags_iff`: the tags are exactly the ones asked for iff no tag to be
   written is asked for twice.
-/

namespace ExpenseEngine

open Sql Sql.Prog

section Tags

open ReadinessLemmas DraftLemmas

variable [Platform] {db db' : Db} {env : Env} {userId p : Uuid} {source : TransactionSource}
  {ids : List Uuid}

/-! ## Links as a map -/

/-- The link of the parent to the hashtag `x`, live or not. -/
def linkOf (db : Db) (p : Uuid) (source : TransactionSource) (x : Uuid) :
    Option (Row .transactionHashtags) :=
  (db .transactionHashtags).find? (p, source, x)

theorem linkOf_eq_some {x : Uuid} {l : Row .transactionHashtags} :
    linkOf db p source x = some l ↔ l ∈ db.rows .transactionHashtags ∧
      l.transactionId = p ∧ l.transactionSource = source ∧ l.hashtagId = x := by
  refine Table.find?_eq_some.trans (and_congr_right fun _ => ?_)
  show ((l.transactionId, l.transactionSource, l.hashtagId) : Uuid × TransactionSource × Uuid) =
    (p, source, x) ↔ _
  rw [Prod.mk.injEq, Prod.mk.injEq]

/-- A hashtag is one of the parent's iff their link is live. -/
theorem mem_hashtagIdsOf {x : Uuid} : x ∈ hashtagIdsOf db p source ↔
    ∃ l, linkOf db p source x = some l ∧ l.deletedAt = none := by
  rw [hashtagIdsOf, (List.perm_insertionSort _ _).mem_iff, List.mem_map]
  simp only [List.mem_filter, isLiveLink, decide_eq_true_eq, linkOf_eq_some]
  constructor
  · rintro ⟨l, ⟨hl, hp, hs, hlive⟩, rfl⟩
    exact ⟨l, ⟨hl, hp, hs, rfl⟩, hlive⟩
  · rintro ⟨l, ⟨hl, hp, hs, rfl⟩, hlive⟩
    exact ⟨l, ⟨hl, hp, hs, hlive⟩, rfl⟩

/-- Two parents with the same hashtags list them the same way. -/
theorem hashtagIdsOf_eq {q : Uuid} {source' : TransactionSource}
    (h : ∀ x, x ∈ hashtagIdsOf db' q source' ↔ x ∈ hashtagIdsOf db p source) :
    hashtagIdsOf db' q source' = hashtagIdsOf db p source := by
  have hperm : (hashtagIdsOf db' q source').Perm (hashtagIdsOf db p source) :=
    (List.perm_ext_iff_of_nodup nodup_hashtagIdsOf nodup_hashtagIdsOf).mpr h
  exact hperm.eq_of_pairwise' (List.pairwise_insertionSort _ _) (List.pairwise_insertionSort _ _)

theorem linkOf_cascaded {q : Uuid} {source' : TransactionSource} {x : Uuid} :
    linkOf (db.cascaded env userId p source ids) q source' x =
      (linkOf db q source' x).map fun l =>
        if leaves userId p source ids l then (linkMarked env.now (some env.now)).apply l
        else l := by
  unfold linkOf Db.cascaded
  rw [Db.modify_same]
  exact Table.find?_modify ..

/-- The links of other parents stay. -/
theorem linkOf_cascaded_of_ne {q : Uuid} {source' : TransactionSource} {x : Uuid}
    (h : (q, source') ≠ (p, source)) :
    linkOf (db.cascaded env userId p source ids) q source' x = linkOf db q source' x := by
  rw [linkOf_cascaded]
  cases hl : linkOf db q source' x with
  | none => rfl
  | some l =>
    obtain ⟨-, rfl, rfl, -⟩ := linkOf_eq_some.mp hl
    rw [Option.map_some, if_neg]
    intro hw
    obtain ⟨hp, hs, -⟩ := of_decide_eq_true hw
    exact h (Prod.ext hp hs)

/-- The links to the hashtags that are kept stay. -/
theorem linkOf_cascaded_of_mem {q : Uuid} {source' : TransactionSource} {x : Uuid} (hx : x ∈ ids) :
    linkOf (db.cascaded env userId p source ids) q source' x = linkOf db q source' x := by
  rw [linkOf_cascaded]
  cases hl : linkOf db q source' x with
  | none => rfl
  | some l =>
    obtain ⟨-, -, -, rfl⟩ := linkOf_eq_some.mp hl
    rw [Option.map_some, if_neg]
    intro hw
    exact (of_decide_eq_true hw).2.2.2.2 hx

/-- What the upsert of `x` leaves in place of its link. -/
def settledLink (env : Env) (userId p : Uuid) (source : TransactionSource) (x : Uuid) :
    Option (Row .transactionHashtags) → Row .transactionHashtags :=
  Table.settle (fun l => l.deletedAt.isSome) (linkMarked env.now none)
    (newLink env userId p source x)

namespace TagLemmas

theorem settledLink_live {x : Uuid} {o : Option (Row .transactionHashtags)} :
    (settledLink env userId p source x o).deletedAt = none := by
  cases o with
  | none => rfl
  | some l =>
    show (if l.deletedAt.isSome then (linkMarked env.now none).apply l else l).deletedAt = none
    split
    · rfl
    · next h => exact Option.not_isSome_iff_eq_none.mp h

theorem settledLink_of_live {x : Uuid} {l : Row .transactionHashtags} (h : l.deletedAt = none) :
    settledLink env userId p source x (some l) = l := by
  show (if l.deletedAt.isSome then (linkMarked env.now none).apply l else l) = l
  rw [h]
  rfl

/-- The links proposed have one parent, and the hashtags asked for. -/
theorem key_newLinks {q : Uuid} {source' : TransactionSource} {x : Uuid} :
    (∃ r ∈ ids.map (newLink env userId p source),
        Schema.key Tbl.transactionHashtags r = (q, source', x)) ↔
      (q, source') = (p, source) ∧ x ∈ ids := by
  rw [Prod.mk.injEq]
  constructor
  · rintro ⟨r, hr, hk⟩
    obtain ⟨y, hy, rfl⟩ := List.mem_map.mp hr
    cases hk
    exact ⟨⟨rfl, rfl⟩, hy⟩
  · rintro ⟨⟨rfl, rfl⟩, hx⟩
    exact ⟨_, List.mem_map.mpr ⟨x, hx, rfl⟩, rfl⟩

end TagLemmas

open TagLemmas

/-- Setting the tags of a parent settles the links to its tags, and drops the
others of its live links. -/
theorem linkOf_synced {q : Uuid} {source' : TransactionSource} {x : Uuid} :
    linkOf (db.synced env p userId source ids) q source' x =
      if (q, source') = (p, source) ∧ x ∈ ids then
        some (settledLink env userId p source x (linkOf db p source x))
      else linkOf (db.cascaded env userId p source ids) q source' x := by
  have hsettled : ∀ r : Row .transactionHashtags,
      ((linkMarked env.now none).apply r).deletedAt.isSome = false := fun _ => rfl
  have hnew : ∀ r ∈ ids.map (newLink env userId p source), r.deletedAt.isSome = false := by
    intro r hr
    obtain ⟨y, -, rfl⟩ := List.mem_map.mp hr
    rfl
  split
  · next h =>
    obtain ⟨hq, hx⟩ := h
    obtain ⟨rfl, rfl⟩ := Prod.mk.inj hq
    have hsame : ∀ r ∈ ids.map (newLink env userId q source'),
        Schema.key Tbl.transactionHashtags r =
          Schema.key Tbl.transactionHashtags (newLink env userId q source' x) →
        r = newLink env userId q source' x := by
      intro r hr hk
      obtain ⟨y, -, rfl⟩ := List.mem_map.mp hr
      cases hk
      rfl
    have hkept : linkOf (db.cascaded env userId q source' ids) q source' x =
        linkOf db q source' x := linkOf_cascaded_of_mem hx
    rw [← hkept]
    unfold linkOf Db.synced
    rw [Db.upsert_same]
    exact Table.find?_upsert_of_mem hsettled hnew (List.mem_map.mpr ⟨x, hx, rfl⟩) hsame
  · next h =>
    unfold linkOf Db.synced
    rw [Db.upsert_same]
    exact Table.find?_upsert_of_ne hsettled hnew fun r hr hk => h (key_newLinks.mp ⟨r, hr, hk⟩)

/-! ## Which lists are accepted -/

/-- The links of the parent are the user's, and what the database holds passes
its constraints. -/
structure Taggable (db : Db) (userId p : Uuid) (source : TransactionSource) : Prop where
  owned : ∀ l ∈ db.rows .transactionHashtags,
    l.transactionId = p → l.transactionSource = source → l.userId = userId
  links : Constrained .transactionHashtags db
  hashtags : Constrained .hashtags db

/-- The tags asked for that are not there yet, as often as they are asked for. -/
def pendingTags (db : Db) (p : Uuid) (source : TransactionSource) (ids : List Uuid) : List Uuid :=
  ids.filter fun x => decide (x ∉ hashtagIdsOf db p source)

namespace TagLemmas

/-- The upsert leaves the live links alone, which the cascade has kept. -/
theorem spared_iff {x : Uuid} (hx : x ∈ ids) :
    spared (fun l : Row .transactionHashtags => l.deletedAt.isSome)
        (db.cascaded env userId p source ids) (p, source, x) = true ↔
      x ∈ hashtagIdsOf db p source := by
  have hkept : (db.cascaded env userId p source ids .transactionHashtags).find? (p, source, x) =
      linkOf db p source x := linkOf_cascaded_of_mem hx
  rw [mem_hashtagIdsOf, spared, hkept]
  cases linkOf db p source x with
  | none => simp
  | some l => simp

theorem written_keys :
    (((ids.map (newLink env userId p source)).map (Schema.key Tbl.transactionHashtags)).filter
      fun k => !spared (fun l => l.deletedAt.isSome) (db.cascaded env userId p source ids) k) =
    (pendingTags db p source ids).map fun x =>
      ((p, source, x) : Schema.Key Row .transactionHashtags) := by
  rw [List.map_map, List.filter_map]
  refine congrArg _ (List.filter_congr fun x hx => ?_)
  rw [Bool.eq_iff_iff, Function.comp_apply, Bool.not_eq_true', ← Bool.not_eq_true,
    decide_eq_true_iff]
  exact not_congr (spared_iff hx)

theorem isUser_of_hashtag {x : Uuid} (hhashtags : Constrained .hashtags db)
    (h : HasActiveHashtag db userId x) : IsUser db userId := by
  obtain ⟨r, hr, -, rfl, -⟩ := h
  exact (hhashtags r hr).2

/-- A link of a user that is there to a hashtag that is there. -/
theorem refs_link {l : Row .transactionHashtags} (hu : IsUser db l.userId) {r : Row .hashtags}
    (hr : r ∈ db.rows .hashtags) (hid : r.id = l.hashtagId) :
    Schema.refs db.rows .transactionHashtags l = true :=
  Bool.and_eq_true_iff.mpr ⟨hu, List.any_eq_true.mpr ⟨r, hr, decide_eq_true hid⟩⟩

end TagLemmas

/-- A list of active hashtags is accepted iff no tag to be written is repeated. -/
theorem exec_syncHashtags_total (env : Env) (h : Taggable db userId p source)
    (hactive : ∀ x ∈ ids, HasActiveHashtag db userId x) :
    (∃ db', exec (syncHashtags env p userId ids source) db = .ok ((), db')) ↔
      (pendingTags db p source ids).Nodup := by
  have hcascade := cascadeDelete_total env userId p source ids h.links
  unfold syncHashtags
  split
  · next hnil =>
    rw [List.isEmpty_iff] at hnil
    subst hnil
    exact ⟨fun _ => List.nodup_nil, fun _ => ⟨_, hcascade⟩⟩
  · next hne =>
    obtain ⟨x, hx⟩ : ∃ x, x ∈ ids := List.exists_mem_of_ne_nil ids (by simpa using hne)
    have huser := isUser_of_hashtag h.hashtags (hactive x hx)
    have hvalid : ∀ x ∈ ids, ∃ r ∈ db.rows .hashtags,
        (r.id ∈ ids ∧ r.userId = userId ∧ r.deletedAt = none) ∧ r.id = x := by
      intro x hx
      obtain ⟨r, hr, rfl, hu, hd⟩ := hactive x hx
      exact ⟨r, hr, ⟨hx, hu, hd⟩, rfl⟩
    set db₁ := db.cascaded env userId p source ids with hdb₁
    have hsame : ∀ t, t ≠ .transactionHashtags → db₁ t = db t := fun t ht => cascaded_ne ht
    -- a proposed link refers to the user and to an active hashtag
    have hrefs : ∀ x ∈ ids, ∀ db₂, AgreeBut .transactionHashtags db₁ db₂ →
        Schema.refs db₂.rows .transactionHashtags (newLink env userId p source x) = true := by
      intro x hx db₂ hagree
      obtain ⟨r, hr, hid, -⟩ := hactive x hx
      refine refs_link ?_ (r := r) ?_ hid
      · rw [IsUser, Sql.Db.rows, hagree .users (by simp), hsame .users (by simp)]
        exact huser
      · rw [Sql.Db.rows, hagree .hashtags (by simp), hsame .hashtags (by simp)]
        exact hr
    have hupsert : (∃ db', exec (upsertEach .transactionHashtags (fun r => r.deletedAt.isSome)
        (linkMarked env.now none) (ids.map (newLink env userId p source)) [] : Op Unit) db₁ =
          .ok ((), db')) ↔ (pendingTags db p source ids).Nodup := by
      rw [exec_upsertEach_iff, hdb₁, written_keys]
      · exact List.nodup_map_iff fun _ _ hxy => (Prod.mk.inj (Prod.mk.inj hxy).2).2
      · intro r hr db₂ hagree hnew
        obtain ⟨x, hx, rfl⟩ := List.mem_map.mp hr
        have hnew := Table.find?_eq_none.mp hnew
        exact inserted_of_free rfl (fun l hl => decide_eq_false (hnew l hl))
          (fun l hl => ⟨hnew l hl, rfl⟩) (hrefs x hx db₂ hagree)
      · intro r _
        rfl
      · intro l hl _ db₂ hagree
        have hlinks := exec_constrained refsByKey h.links hcascade
        refine accepts_of_free rfl (fun _ _ => rfl) ?_
        obtain ⟨hu, hh⟩ := Bool.and_eq_true_iff.mp (hlinks l hl).2
        refine Bool.and_eq_true_iff.mpr ⟨?_, ?_⟩
        · rwa [Sql.Db.rows, hagree .users (by simp)]
        · rwa [Sql.Db.rows, hagree .hashtags (by simp)]
    rw [← hupsert]
    simp only [exec_bind_ok, fetchValidHashtags, exec_fetch_ok, exec_raiseIf_ok, exec_pure_ok]
    constructor
    · rintro ⟨db', _, _, ⟨_, _, ⟨rfl, rfl⟩, rfl, rfl⟩, _, _, ⟨-, rfl⟩, _, _, hc, hrun⟩
      rw [hcascade] at hc
      cases hc
      exact ⟨db', hrun⟩
    · rintro ⟨db', hrun⟩
      refine ⟨db', _, db, ⟨_, db, ⟨rfl, rfl⟩, rfl, rfl⟩, (), db, ⟨?_, rfl⟩, (), db₁, hcascade, hrun⟩
      simpa [and_assoc] using hvalid

/-! ## What is accepted -/

/-- The tags of the parent became the hashtags asked for, and nothing else
changed. -/
structure SetsTags (userId p : Uuid) (source : TransactionSource) (ids : List Uuid)
    (db db' : Db) : Prop where
  tags : ∀ x, x ∈ hashtagIdsOf db' p source ↔ x ∈ ids
  /-- One row for each parent and hashtag. -/
  single : ∀ l ∈ db'.rows .transactionHashtags, ∀ l' ∈ db'.rows .transactionHashtags,
    l.transactionId = l'.transactionId → l.transactionSource = l'.transactionSource →
      l.hashtagId = l'.hashtagId → l = l'
  /-- A link that is live or not as asked for keeps its row. -/
  kept : ∀ x, (x ∈ hashtagIdsOf db p source ↔ x ∈ ids) →
    linkOf db' p source x = linkOf db p source x
  others : ∀ q source' x, (q, source') ≠ (p, source) →
    linkOf db' q source' x = linkOf db q source' x
  frame : ∀ t, t ≠ .transactionHashtags → db' t = db t
  again : ∀ env', exec (syncHashtags env' p userId ids source) db' = .ok ((), db')

namespace TagLemmas

/-- A live link outside of the list, if it is the user's, is dropped. -/
theorem linkOf_cascaded_live {x : Uuid} {l : Row .transactionHashtags}
    (howned : ∀ l ∈ db.rows .transactionHashtags,
      l.transactionId = p → l.transactionSource = source → l.userId = userId) (hx : x ∉ ids)
    (hl : linkOf (db.cascaded env userId p source ids) p source x = some l) :
    l.deletedAt ≠ none := by
  rw [linkOf_cascaded, Option.map_eq_some_iff] at hl
  obtain ⟨l₀, hl₀, rfl⟩ := hl
  obtain ⟨hmem, hp, hs, rfl⟩ := linkOf_eq_some.mp hl₀
  split
  · exact Option.some_ne_none _
  · next hw =>
    intro hlive
    exact hw (decide_eq_true ⟨hp, hs, howned l₀ hmem hp hs, hlive, hx⟩)

theorem linkOf_cascaded_dropped {x : Uuid} (hx : x ∉ hashtagIdsOf db p source) :
    linkOf (db.cascaded env userId p source ids) p source x = linkOf db p source x := by
  rw [linkOf_cascaded]
  cases hl : linkOf db p source x with
  | none => rfl
  | some l =>
    rw [Option.map_some, if_neg]
    intro hw
    exact hx (mem_hashtagIdsOf.mpr ⟨l, hl, (of_decide_eq_true hw).2.2.2.1⟩)

theorem tags_synced {x : Uuid} (howned : ∀ l ∈ db.rows .transactionHashtags,
    l.transactionId = p → l.transactionSource = source → l.userId = userId) :
    x ∈ hashtagIdsOf (db.synced env p userId source ids) p source ↔ x ∈ ids := by
  rw [mem_hashtagIdsOf, linkOf_synced]
  by_cases hx : x ∈ ids
  · rw [if_pos ⟨rfl, hx⟩]
    exact ⟨fun _ => hx, fun _ => ⟨_, rfl, settledLink_live⟩⟩
  · rw [if_neg fun hboth => hx hboth.2]
    constructor
    · rintro ⟨l, hl, hlive⟩
      exact absurd hlive (linkOf_cascaded_live howned hx hl)
    · exact fun hmem => absurd hmem hx

theorem kept_synced {x : Uuid} (hx : x ∈ hashtagIdsOf db p source ↔ x ∈ ids) :
    linkOf (db.synced env p userId source ids) p source x = linkOf db p source x := by
  rw [linkOf_synced]
  by_cases hmem : x ∈ ids
  · obtain ⟨l, hl, hlive⟩ := mem_hashtagIdsOf.mp (hx.mpr hmem)
    rw [if_pos ⟨rfl, hmem⟩, hl, settledLink_of_live hlive]
  · rw [if_neg fun hboth => hmem hboth.2]
    exact linkOf_cascaded_dropped fun hlive => hmem (hx.mp hlive)

theorem others_synced {q : Uuid} {source' : TransactionSource} {x : Uuid}
    (hq : (q, source') ≠ (p, source)) :
    linkOf (db.synced env p userId source ids) q source' x = linkOf db q source' x := by
  rw [linkOf_synced, if_neg fun hboth => hq hboth.1, linkOf_cascaded_of_ne hq]

/-- A list sent again writes nothing. -/
theorem synced_again (htags : ∀ x, x ∈ hashtagIdsOf db p source ↔ x ∈ ids) :
    db.synced env p userId source ids = db := by
  have hlive : ∀ x ∈ ids, ∃ l, linkOf db p source x = some l ∧ l.deletedAt = none :=
    fun x hx => mem_hashtagIdsOf.mp ((htags x).mpr hx)
  have hcascade : db.cascaded env userId p source ids = db := by
    rw [Db.cascaded, Sql.Db.modify, Function.update_eq_self_iff]
    ext1
    refine (List.map_congr_left fun l hl => if_neg fun hw => ?_).trans (List.map_id _)
    obtain ⟨hp, hs, -, hdel, hout⟩ := of_decide_eq_true hw
    exact hout ((htags _).mp (mem_hashtagIdsOf.mpr
      ⟨l, linkOf_eq_some.mpr ⟨hl, hp, hs, rfl⟩, hdel⟩))
  rw [Db.synced, hcascade, Sql.Db.upsert, Function.update_eq_self_iff]
  refine Table.upsert_of_spared fun r hr => ?_
  obtain ⟨x, hx, rfl⟩ := List.mem_map.mp hr
  obtain ⟨l, hl, hdel⟩ := hlive x hx
  exact ⟨l, hl, by rw [hdel]; rfl⟩

theorem taggable_synced (h : Taggable db userId p source)
    (hrun : exec (syncHashtags env p userId ids source) db = .ok ((), db')) :
    Taggable db' userId p source := by
  refine ⟨fun l hl hp hs => ?_, exec_constrained refsByKey h.links hrun,
    exec_constrained refsByKey h.hashtags hrun⟩
  obtain ⟨rfl, -⟩ := exec_syncHashtags hrun
  have hlink : linkOf (db.synced env p userId source ids) p source l.hashtagId = some l :=
    linkOf_eq_some.mpr ⟨hl, hp, hs, rfl⟩
  have hold : ∀ l₀, linkOf db p source l.hashtagId = some l₀ → l₀.userId = userId := by
    intro l₀ hl₀
    obtain ⟨hmem, hp₀, hs₀, -⟩ := linkOf_eq_some.mp hl₀
    exact h.owned l₀ hmem hp₀ hs₀
  rw [linkOf_synced] at hlink
  split at hlink
  · cases ho : linkOf db p source l.hashtagId with
    | none =>
      rw [ho, Option.some.injEq] at hlink
      rw [← hlink]
      rfl
    | some l₀ =>
      rw [ho, Option.some.injEq] at hlink
      rw [← hlink, ← hold l₀ ho]
      show (if l₀.deletedAt.isSome then (linkMarked env.now none).apply l₀ else l₀).userId = _
      split <;> rfl
  · rw [linkOf_cascaded, Option.map_eq_some_iff] at hlink
    obtain ⟨l₀, hl₀, rfl⟩ := hlink
    rw [← hold l₀ hl₀]
    split <;> rfl

end TagLemmas

/-- An accepted list sets the tags. -/
theorem setsTags_of_exec (h : Taggable db userId p source)
    (hrun : exec (syncHashtags env p userId ids source) db = .ok ((), db')) :
    SetsTags userId p source ids db db' := by
  have h' := taggable_synced h hrun
  obtain ⟨rfl, hactive⟩ := exec_syncHashtags hrun
  refine ⟨fun x => tags_synced h.owned, fun l hl l' hl' hp hs hx => ?_, fun x hx => kept_synced hx,
    fun q source' x hq => others_synced hq, fun t ht => synced_ne ht, fun env' => ?_⟩
  · exact Table.eq_of_key_eq hl hl' (Prod.ext hp (Prod.ext hs hx))
  · have hactive' : ∀ x ∈ ids,
        HasActiveHashtag (db.synced env p userId source ids) userId x := by
      intro x hx
      rw [HasActiveHashtag, Sql.Db.rows, synced_ne (by simp)]
      exact hactive x hx
    -- no tag is missing, so none is written
    have hnone : pendingTags (db.synced env p userId source ids) p source ids = [] :=
      List.filter_eq_nil_iff.mpr fun x hx => by simpa using (tags_synced h.owned).mpr hx
    obtain ⟨db₂, hagain⟩ := (exec_syncHashtags_total env' h' hactive').mpr (hnone ▸ List.nodup_nil)
    obtain ⟨rfl, -⟩ := exec_syncHashtags hagain
    rw [hagain, synced_again fun x => tags_synced h.owned]

/-- In every run, what a user has can be tagged. -/
theorem reachable_taggable {db₀ : Db} (hfresh : Fresh db₀) (calls : List Call)
    (hparent : ParentOf (run db₀ calls) userId (p, source)) :
    Taggable (run db₀ calls) userId p source := by
  have hdrafts := reachable_drafts hfresh calls
  refine ⟨fun l hl hp hs => ?_, hdrafts.links, ?_⟩
  · have hown := hdrafts.owned l hl
    rw [hp, hs] at hown
    cases source with
    | ledger =>
      obtain ⟨t, ht, hid, hu⟩ := hparent
      obtain ⟨t', ht', hid', hu'⟩ := hown
      rw [← hu', ← hu, EvolutionLemmas.eq_of_id ht' ht (hid'.trans hid.symm)]
    | inbox =>
      obtain ⟨d, hd, hid, hu⟩ := hparent
      obtain ⟨d', hd', hid', hu'⟩ := hown
      rw [← hu', ← hu, EvolutionLemmas.eq_of_id hd' hd (hid'.trans hid.symm)]
  · have hinit : Constrained .hashtags db₀ := by simp [Constrained, hfresh.hashtags]
    exact constrained_run hinit calls

/-- A list of active hashtags sets the tags iff no tag to be written is asked
for twice. -/
theorem sync_sets_tags_iff (env : Env) (h : Taggable db userId p source)
    (hactive : ∀ x ∈ ids, HasActiveHashtag db userId x) :
    (∃ db', exec (syncHashtags env p userId ids source) db = .ok ((), db') ∧
      SetsTags userId p source ids db db') ↔ (pendingTags db p source ids).Nodup := by
  rw [← exec_syncHashtags_total env h hactive]
  constructor
  · rintro ⟨db', hrun, -⟩
    exact ⟨db', hrun⟩
  · rintro ⟨db', hrun⟩
    exact ⟨db', hrun, setsTags_of_exec h hrun⟩

end Tags

namespace Ascii

/-- A hashtag 50, on no transaction. -/
def tagging : List Call := setup ++ [callAt 6 (.createHashtag ⟨50, "trip".toList, none⟩)]

/-- Three more hashtags. The taxi 31 has 50 and 53, had 51 and never had 52. -/
def retagging : List Call := tagging ++ [
  callAt 7 (.createHashtag ⟨51, "work".toList, none⟩),
  callAt 8 (.createHashtag ⟨52, "night".toList, none⟩),
  callAt 9 (.createHashtag ⟨53, "rain".toList, none⟩),
  callAt 10 (.createTransaction ⟨31, "Taxi".toList, -900, 7, 10, 20, none, [50, 51, 53]⟩),
  callAt 11 (.updateTransaction 31
    ⟨none, none, none, none, none, none, some (some [50, 53]), none⟩)]

end Ascii

open Ascii in
/-- The taxi keeps one hashtag, takes one back, takes a new one and loses one. -/
theorem sync_sets_tags_once :
    hashtagIdsOf (run blank retagging) 31 .ledger = [50, 53] ∧
      (linkOf (run blank retagging) 31 .ledger 51).map (fun l => l.deletedAt) = some (some 11) ∧
      linkOf (run blank retagging) 31 .ledger 52 = none ∧
      ∃ db', exec (syncHashtags (envAt 12) 31 1 [50, 51, 52] .ledger) (run blank retagging) =
          .ok ((), db') ∧
        SetsTags 1 31 .ledger [50, 51, 52] (run blank retagging) db' := by
  have htaxi : ∃ t ∈ (run blank retagging).rows .transactions, t.id = 31 ∧ t.userId = 1 := by
    decide +kernel
  have hactive : ∀ x ∈ [50, 51, 52], HasActiveHashtag (run blank retagging) 1 x := by
    unfold HasActiveHashtag
    decide +kernel
  have htaggable : Taggable (run blank retagging) 1 31 .ledger :=
    reachable_taggable fresh_blank retagging htaxi
  exact ⟨by decide +kernel, by decide +kernel, by decide +kernel,
    (sync_sets_tags_iff (envAt 12) htaggable hactive).mpr (by decide +kernel)⟩

namespace TagLemmas

open Ascii in
theorem lunch_taggable : Taggable (run blank tagging) 1 30 .ledger := by
  refine reachable_taggable fresh_blank tagging ?_
  have hlunch : ∃ t ∈ (run blank tagging).rows .transactions, t.id = 30 ∧ t.userId = 1 := by
    decide +kernel
  exact hlunch

open Ascii in
theorem trip_active : HasActiveHashtag (run blank tagging) 1 50 := by
  unfold HasActiveHashtag
  decide +kernel

end TagLemmas

open Ascii TagLemmas in
/-- A list of active hashtags that asks for a new one twice is refused. -/
theorem sync_refuses_repeats : Taggable (run blank tagging) 1 30 .ledger ∧
    (∀ x ∈ [50, 50], HasActiveHashtag (run blank tagging) 1 x) ∧
    ¬∃ db', exec (syncHashtags (envAt 7) 30 1 [50, 50] .ledger) (run blank tagging) =
      .ok ((), db') := by
  refine ⟨lunch_taggable, ?_, ?_⟩
  · intro x hx
    have hx : x = 50 := by simpa using hx
    rw [hx]
    exact trip_active
  · rintro ⟨db', hrun⟩
    have hfails : (exec (syncHashtags (envAt 7) 30 1 [50, 50] .ledger)
        (run blank tagging)).isOk = false := by
      decide +kernel
    rw [hrun] at hfails
    cases hfails

end ExpenseEngine
