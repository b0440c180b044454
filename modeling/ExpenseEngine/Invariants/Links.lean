import ExpenseEngine.Invariants.Integrity

/-!
# The junction table over sequential runs

Links are dropped and revived from both ends: a delete or a dismissal drops the
links of the parent, a delete of a hashtag drops the links to it, and a restore
of a transaction revives the links that carry its deletion timestamp.

Results:
1. `Junction.step`: a call keeps every live link between active rows of one
   user, unless it restores a transaction together with a link to a hashtag that
   is not active.
2. `reachable_junction`: so it is in every run without such a restore;
   `restored_link_dangles` is a run with one.
-/

namespace ExpenseEngine

open Sql Sql.Prog

section Links

open IntegrityLemmas

variable [Platform] {db db' : Db} {env : Env} {userId : Uuid} {request : Request}

/-! ## The invariant -/

/-- The parent and the hashtag of the link exist and have its user. -/
structure OwnedLink (db : Db) (l : Row .transactionHashtags) : Prop where
  ledger : l.transactionSource = .ledger →
    ∃ t ∈ db.rows .transactions, t.id = l.transactionId ∧ t.userId = l.userId
  inbox : l.transactionSource = .inbox →
    ∃ d ∈ db.rows .transactionInbox, d.id = l.transactionId ∧ d.userId = l.userId
  hashtag : ∃ x ∈ db.rows .hashtags, x.id = l.hashtagId ∧ x.userId = l.userId

/-- The parent of the link is active, a draft also unpromoted, and so is its
hashtag; all three have one user. -/
structure LiveLink (db : Db) (l : Row .transactionHashtags) : Prop where
  ledger : l.transactionSource = .ledger → HasActive .transactions db l.transactionId l.userId
  inbox : l.transactionSource = .inbox → ∃ d ∈ db.rows .transactionInbox,
    d.id = l.transactionId ∧ d.userId = l.userId ∧ d.deletedAt = none ∧ d.status = .pending
  hashtag : HasActive .hashtags db l.hashtagId l.userId

structure Junction (db : Db) : Prop where
  owned : ∀ l ∈ db.rows .transactionHashtags, OwnedLink db l
  live : ∀ l ∈ db.rows .transactionHashtags, l.deletedAt = none → LiveLink db l
  pending : ∀ d ∈ db.rows .transactionInbox, d.deletedAt = none → d.status = .pending

/-- A restore that comes to its work and passes its checks finds that every link
it revives points at an active hashtag of the user. -/
def RevivesActive (db : Db) (c : Call) : Prop :=
  c.Enters db → ∀ t unlink, c.request = .restoreTransaction t.id →
    Restorable c.userId t.id t unlink db →
    ∀ l ∈ db.rows .transactionHashtags, droppedAt c.userId t.id .ledger t.deletedAt l = true →
      HasActiveHashtag db c.userId l.hashtagId

namespace LinkLemmas

/-! ## What the cascades do to a link -/

/-- The two versions of one link. -/
def SameLink (l l' : Row .transactionHashtags) : Prop :=
  l'.transactionId = l.transactionId ∧ l'.transactionSource = l.transactionSource ∧
    l'.hashtagId = l.hashtagId ∧ l'.userId = l.userId

variable {parentId : Uuid} {source : TransactionSource} {keep ids : List Uuid}
  {l' : Row .transactionHashtags}

omit [Platform] in
theorem SameLink.refl (l : Row .transactionHashtags) : SameLink l l := ⟨rfl, rfl, rfl, rfl⟩

/-- A link after a cascade: an older version is there, and a live one was live
and is not dropped. -/
theorem mem_cascaded
    (h : l' ∈ (db.cascaded env userId parentId source keep).rows .transactionHashtags) :
    (∃ l ∈ db.rows .transactionHashtags, SameLink l l') ∧
      (l'.deletedAt = none → l' ∈ db.rows .transactionHashtags ∧
        leaves userId parentId source keep l' = false) := by
  rw [Db.cascaded, Db.rows_modify_same] at h
  obtain ⟨l, hl, rfl⟩ := List.mem_map.mp h
  split
  · next hw => exact ⟨⟨l, hl, rfl, rfl, rfl, rfl⟩, nofun⟩
  · next hw => exact ⟨⟨l, hl, .refl l⟩, fun _ => ⟨hl, Bool.eq_false_iff.mpr hw⟩⟩

/-- A link after a revival: an older version is there, and a live one was live or
is revived. -/
theorem mem_revived {marker : Option Timestamp}
    (h : l' ∈ (db.revived env userId parentId source marker).rows .transactionHashtags) :
    ∃ l ∈ db.rows .transactionHashtags, SameLink l l' ∧
      (l'.deletedAt = none → l' = l ∨ droppedAt userId parentId source marker l = true) := by
  rw [Db.revived, Db.rows_modify_same] at h
  obtain ⟨l, hl, rfl⟩ := List.mem_map.mp h
  split
  · next hw => exact ⟨l, hl, ⟨rfl, rfl, rfl, rfl⟩, fun _ => .inr hw⟩
  · exact ⟨l, hl, .refl l, fun _ => .inl rfl⟩

/-- A link after a sync: it is one of the parent's new set, or it was there
before. -/
theorem mem_synced :
    ∀ l' ∈ (db.synced env parentId userId source ids).rows .transactionHashtags,
    ((∃ l ∈ db.rows .transactionHashtags, SameLink l l') ∧
      (l'.deletedAt = none → l' ∈ db.rows .transactionHashtags)) ∨
    ((l'.transactionId = parentId ∧ l'.transactionSource = source ∧ l'.hashtagId ∈ ids) ∧
      ((∃ l ∈ db.rows .transactionHashtags, SameLink l l') ∨ l'.userId = userId)) := by
  unfold Db.synced
  rw [Sql.Db.rows, Db.upsert_same]
  refine Table.forall_upsert ?_ ?_ ?_
  · intro l hl
    obtain ⟨hold, hlive⟩ := mem_cascaded hl
    exact .inl ⟨hold, fun hd => (hlive hd).1⟩
  · intro l hl
    obtain ⟨x, hx, rfl⟩ := List.mem_map.mp hl
    exact .inr ⟨⟨rfl, rfl, hx⟩, .inr rfl⟩
  · intro r hr l hl hkey
    obtain ⟨x, hx, rfl⟩ := List.mem_map.mp hr
    have hkey : (l.transactionId, l.transactionSource, l.hashtagId) = (parentId, source, x) := hkey
    simp only [Prod.mk.injEq] at hkey
    refine .inr ⟨⟨hkey.1, hkey.2.1, hkey.2.2 ▸ hx⟩, ?_⟩
    rcases hl with ⟨⟨l₀, hl₀, hsame⟩, -⟩ | ⟨-, ⟨l₀, hl₀, hsame⟩ | hu⟩
    · exact .inl ⟨l₀, hl₀, hsame⟩
    · exact .inl ⟨l₀, hl₀, hsame⟩
    · exact .inr hu

/-! ## What a request does to the two ends of a link -/

/-- The request deletes or closes one end of the link. -/
def Closes (request : Request) (l : Row .transactionHashtags) : Prop :=
  (l.transactionSource = .ledger ∧ request = .deleteTransaction l.transactionId) ∨
    (l.transactionSource = .inbox ∧ (request = .deleteInboxItem l.transactionId ∨
      ∃ targetId, request = .promoteInboxItem l.transactionId targetId)) ∨
    request = .deleteHashtag l.hashtagId

theorem OwnedLink.same {l l' : Row .transactionHashtags} (hl : OwnedLink db l)
    (hsame : SameLink l l') : OwnedLink db l' := by
  obtain ⟨hp, hs, hh, hu⟩ := hsame
  refine ⟨fun hsource => ?_, fun hsource => ?_, ?_⟩
  · rw [hp, hu]
    exact hl.ledger (hs ▸ hsource)
  · rw [hp, hu]
    exact hl.inbox (hs ▸ hsource)
  · rw [hh, hu]
    exact hl.hashtag

theorem TransactionStep.owner {t t' : Row .transactions}
    (h : TransactionStep env userId request db t t') : t'.id = t.id ∧ t'.userId = t.userId := by
  cases h with
  | kept hb => rcases hb with rfl | ⟨now, rfl⟩ <;> exact ⟨rfl, rfl⟩
  | _ => exact ⟨rfl, rfl⟩

theorem DraftStep.owner {d d' : Row .transactionInbox}
    (h : DraftStep env userId request db d d') : d'.id = d.id ∧ d'.userId = d.userId := by
  cases h with
  | kept hb => rcases hb with rfl | ⟨now, rfl⟩ <;> exact ⟨rfl, rfl⟩
  | _ => exact ⟨rfl, rfl⟩

theorem OwnedLink.effect (h : Effect env userId db request db') {l : Row .transactionHashtags}
    (hl : OwnedLink db l) : OwnedLink db' l := by
  refine ⟨fun hsource => ?_, fun hsource => ?_, ?_⟩
  · obtain ⟨t, ht, hid, hu⟩ := hl.ledger hsource
    obtain ⟨t', ht', hstep⟩ := (transactions_evolve h).fate ht
    obtain ⟨hid', hu'⟩ := TransactionStep.owner hstep
    exact ⟨t', ht', hid'.trans hid, hu'.trans hu⟩
  · obtain ⟨d, hd, hid, hu⟩ := hl.inbox hsource
    obtain ⟨d', hd', hstep⟩ := (drafts_evolve h).fate hd
    obtain ⟨hid', hu'⟩ := DraftStep.owner hstep
    exact ⟨d', hd', hid'.trans hid, hu'.trans hu⟩
  · obtain ⟨x, hx, hid, hu⟩ := hl.hashtag
    obtain ⟨x', hx', ⟨hid', hu'⟩, -⟩ := (hashtags_evolve h).fate hx
    exact ⟨x', hx', hid'.trans hid, hu'.trans hu⟩

/-- Both ends of a live link stay active, unless the request closes one. -/
theorem LiveLink.effect (h : Effect env userId db request db') {l : Row .transactionHashtags}
    (hl : LiveLink db l) (hopen : ¬Closes request l) : LiveLink db' l := by
  refine ⟨fun hsource => ?_, fun hsource => ?_, ?_⟩
  · obtain ⟨t, ht, hid, hu, hd⟩ := hl.ledger hsource
    obtain ⟨t', ht', hstep⟩ := (transactions_evolve h).fate ht
    obtain ⟨hid', hu'⟩ := TransactionStep.owner hstep
    refine ⟨t', ht', hid'.trans hid, hu'.trans hu, ?_⟩
    cases hstep with
    | kept hb => rcases hb with rfl | ⟨now, rfl⟩ <;> exact hd
    | updated | unassigned => exact hd
    | restored => rfl
    | deleted hreq => exact absurd (.inl ⟨hsource, hid ▸ hreq⟩) hopen
  · obtain ⟨d, hd, hid, hu, hdel, hstatus⟩ := hl.inbox hsource
    obtain ⟨d', hd', hstep⟩ := (drafts_evolve h).fate hd
    obtain ⟨hid', hu'⟩ := DraftStep.owner hstep
    refine ⟨d', hd', hid'.trans hid, hu'.trans hu, ?_⟩
    cases hstep with
    | kept hb => rcases hb with rfl | ⟨now, rfl⟩ <;> exact ⟨hdel, hstatus⟩
    | updated => exact ⟨hdel, hstatus⟩
    | dismissed hreq => exact absurd (.inr (.inl ⟨hsource, .inl (hid ▸ hreq)⟩)) hopen
    | promoted hreq => exact absurd (.inr (.inl ⟨hsource, .inr ⟨_, hid ▸ hreq⟩⟩)) hopen
  · rcases hasActive_survives (hashtags_evolve h) hl.hashtag with hok | ⟨x, -, ⟨hid, -⟩, hreq, -⟩
    · exact hok
    · exact absurd (.inr (.inr ((show x.id = l.hashtagId from hid) ▸ hreq))) hopen

theorem pending_effect (hJ : Junction db) (h : Effect env userId db request db') :
    ∀ d ∈ db'.rows .transactionInbox, d.deletedAt = none → d.status = .pending := by
  intro d' hd' hdel
  rcases (drafts_evolve h).origin hd' with ⟨d, hd, hstep⟩ | hnew
  · cases hstep with
    | kept hb =>
      rcases hb with rfl | ⟨now, rfl⟩
      · exact hJ.pending d' hd hdel
      · exact hJ.pending d hd hdel
    | updated => exact hJ.pending d hd hdel
    | dismissed | promoted => cases hdel
  · obtain ⟨body, -, rfl, -⟩ := hnew.request
    rfl

/-! ## The links of one parent -/

/-- The parent is active, and pending if it is a draft. -/
def ParentActive (db : Db) (source : TransactionSource) (parentId userId : Uuid) : Prop :=
  match source with
  | .ledger => HasActive .transactions db parentId userId
  | .inbox => ∃ d ∈ db.rows .transactionInbox, d.id = parentId ∧ d.userId = userId ∧
      d.deletedAt = none ∧ d.status = .pending

/-- An owned link of an active parent has the parent's user. -/
theorem OwnedLink.user_eq {l : Row .transactionHashtags} (hl : OwnedLink db l)
    (hparent : ParentActive db l.transactionSource l.transactionId userId) :
    l.userId = userId := by
  cases hs : l.transactionSource with
  | ledger =>
    rw [hs] at hparent
    obtain ⟨t, ht, hid, hu, -⟩ := hparent
    obtain ⟨t', ht', hid', hu'⟩ := hl.ledger hs
    obtain rfl : t' = t := EvolutionLemmas.eq_of_id ht' ht (hid'.trans hid.symm)
    exact hu'.symm.trans hu
  | inbox =>
    rw [hs] at hparent
    obtain ⟨d, hd, hid, hu, -⟩ := hparent
    obtain ⟨d', hd', hid', hu'⟩ := hl.inbox hs
    obtain rfl : d' = d := EvolutionLemmas.eq_of_id hd' hd (hid'.trans hid.symm)
    exact hu'.symm.trans hu

theorem liveLink_of_parent {l : Row .transactionHashtags}
    (hparent : ParentActive db l.transactionSource l.transactionId l.userId)
    (hhashtag : HasActive .hashtags db l.hashtagId l.userId) : LiveLink db l where
  ledger hs := by
    rw [hs] at hparent
    exact hparent
  inbox hs := by
    rw [hs] at hparent
    exact hparent
  hashtag := hhashtag

theorem ownedLink_of_parent {l : Row .transactionHashtags}
    (hparent : ParentActive db l.transactionSource l.transactionId l.userId)
    (hhashtag : HasActive .hashtags db l.hashtagId l.userId) : OwnedLink db l where
  ledger hs := by
    rw [hs] at hparent
    obtain ⟨t, ht, hid, hu, -⟩ := hparent
    exact ⟨t, ht, hid, hu⟩
  inbox hs := by
    rw [hs] at hparent
    obtain ⟨d, hd, hid, hu, -⟩ := hparent
    exact ⟨d, hd, hid, hu⟩
  hashtag := by
    obtain ⟨x, hx, hid, hu, -⟩ := hhashtag
    exact ⟨x, hx, hid, hu⟩

/-- A sync links an active parent to active hashtags. -/
theorem junction_synced (hJ : Junction db) (h : Effect env userId db request db')
    {dbm : Db} (hm : dbm.rows .transactionHashtags = db.rows .transactionHashtags)
    (hopen : ∀ l, ¬Closes request l) (hparent : ParentActive db' source parentId userId)
    (hids : ∀ x ∈ ids, HasActive .hashtags db' x userId)
    (hl' : l' ∈ (dbm.synced env parentId userId source ids).rows .transactionHashtags) :
    OwnedLink db' l' ∧ (l'.deletedAt = none → LiveLink db' l') := by
  rcases mem_synced l' hl' with ⟨⟨l, hl, hsame⟩, hlive⟩ | ⟨⟨rfl, rfl, hx⟩, hold⟩
  · rw [hm] at hl
    refine ⟨OwnedLink.same (OwnedLink.effect h (hJ.owned l hl)) hsame, fun hd => ?_⟩
    have hmem := hlive hd
    rw [hm] at hmem
    exact LiveLink.effect h (hJ.live l' hmem hd) (hopen l')
  · have hu : l'.userId = userId := by
      rcases hold with ⟨l, hl, hsame⟩ | hu
      · rw [hm] at hl
        exact OwnedLink.user_eq (OwnedLink.same (OwnedLink.effect h (hJ.owned l hl)) hsame) hparent
      · exact hu
    rw [← hu] at hparent hids
    exact ⟨ownedLink_of_parent hparent (hids _ hx), fun _ => liveLink_of_parent hparent (hids _ hx)⟩

/-- A link that no cascade of the request touched. -/
theorem junction_kept (hJ : Junction db) (h : Effect env userId db request db')
    {l : Row .transactionHashtags} (hl : l ∈ db.rows .transactionHashtags)
    (hopen : l.deletedAt = none → ¬Closes request l) :
    OwnedLink db' l ∧ (l.deletedAt = none → LiveLink db' l) :=
  ⟨OwnedLink.effect h (hJ.owned l hl),
    fun hd => LiveLink.effect h (hJ.live l hl hd) (hopen hd)⟩

/-- A hashtag a request has just checked is active after it. -/
theorem hashtag_kept (h : Effect env userId db request db') {x : Uuid}
    (hx : HasActiveHashtag db userId x) (hreq : ∀ x, request ≠ .deleteHashtag x) :
    HasActive .hashtags db' x userId := by
  rcases hasActive_survives (hashtags_evolve h) hx with hok | ⟨r, -, -, hdelete, -⟩
  · exact hok
  · exact absurd hdelete (hreq r.id)

/-- A parent that was active is active after a request that keeps it. -/
theorem transaction_kept (h : Effect env userId db request db')
    {id : Uuid} (ht : HasActive .transactions db id userId)
    (hreq : ∀ x, request ≠ .deleteTransaction x) : HasActive .transactions db' id userId := by
  obtain ⟨t, ht, rfl, rfl, hd⟩ := ht
  obtain ⟨t', ht', hstep⟩ := (transactions_evolve h).fate ht
  obtain ⟨hid, hu⟩ := TransactionStep.owner hstep
  refine ⟨t', ht', hid, hu, ?_⟩
  cases hstep with
  | kept hb => rcases hb with rfl | ⟨now, rfl⟩ <;> exact hd
  | updated | unassigned => exact hd
  | restored => rfl
  | deleted hdelete => exact absurd hdelete (hreq t.id)

/-- A pending draft is pending after a request that keeps it. -/
theorem draft_kept (h : Effect env userId db request db') {d : Row .transactionInbox}
    (hd : d ∈ db.rows .transactionInbox) (hactive : d.deletedAt = none ∧ d.status = .pending)
    (hreq : ∀ x, request ≠ .deleteInboxItem x ∧ ∀ y, request ≠ .promoteInboxItem x y) :
    ParentActive db' .inbox d.id d.userId := by
  obtain ⟨d', hd', hstep⟩ := (drafts_evolve h).fate hd
  obtain ⟨hid, hu⟩ := DraftStep.owner hstep
  refine ⟨d', hd', hid, hu, ?_⟩
  cases hstep with
  | kept hb => rcases hb with rfl | ⟨now, rfl⟩ <;> exact hactive
  | updated => exact hactive
  | dismissed hdelete => exact absurd hdelete (hreq d.id).1
  | promoted hpromote => exact absurd hpromote ((hreq d.id).2 _)

theorem rows_tagged_cases {P : Prop} {dbm : Db}
    (hl' : l' ∈ (dbm.tagged env parentId userId source ids).rows .transactionHashtags)
    (hsame : l' ∈ dbm.rows .transactionHashtags → P)
    (hsync : l' ∈ (dbm.synced env parentId userId source ids).rows .transactionHashtags → P) :
    P := by
  unfold Db.tagged at hl'
  split at hl'
  · exact hsame hl'
  · exact hsync hl'

end LinkLemmas

open LinkLemmas

/-! ## Every call preserves it -/

/-- What the invariant says of the links. -/
def LinksHold (db : Db) : Prop :=
  ∀ l ∈ db.rows .transactionHashtags, OwnedLink db l ∧ (l.deletedAt = none → LiveLink db l)

theorem Junction.of_links (hJ : Junction db) (h : Effect env userId db request db')
    (hlinks : LinksHold db') : Junction db' :=
  ⟨fun l hl => (hlinks l hl).1, fun l hl => (hlinks l hl).2, pending_effect hJ h⟩

/-- Requests that touch no link and close no end of one. -/
theorem Junction.of_same (hJ : Junction db) (h : Effect env userId db request db')
    (hsame : db'.rows .transactionHashtags = db.rows .transactionHashtags)
    (hopen : ∀ l, ¬Closes request l) : Junction db' := by
  refine hJ.of_links h fun l hl => ?_
  rw [hsame] at hl
  exact junction_kept hJ h hl fun _ => hopen l

/-- Requests that give an active parent a set of hashtags. -/
theorem Junction.of_tagged {dbm : Db} {parentId : Uuid} {source : TransactionSource}
    {ids : List Uuid} (hJ : Junction db) (h : Effect env userId db request db')
    (hlinks : db'.rows .transactionHashtags =
      (dbm.tagged env parentId userId source ids).rows .transactionHashtags)
    (hm : dbm.rows .transactionHashtags = db.rows .transactionHashtags)
    (hopen : ∀ l, ¬Closes request l) (hparent : ParentActive db' source parentId userId)
    (hids : ∀ x ∈ ids, HasActive .hashtags db' x userId) : Junction db' := by
  refine hJ.of_links h fun l hl => ?_
  rw [hlinks] at hl
  refine rows_tagged_cases hl (fun hl => ?_) (junction_synced hJ h hm hopen hparent hids)
  rw [hm] at hl
  exact junction_kept hJ h hl fun _ => hopen l

theorem Junction.of_retagged {dbm : Db} {parentId : Uuid} {source : TransactionSource}
    {given : Option (List Uuid)} (hJ : Junction db) (h : Effect env userId db request db')
    (hlinks : db'.rows .transactionHashtags =
      (Db.retagged env parentId userId source given dbm).rows .transactionHashtags)
    (hm : dbm.rows .transactionHashtags = db.rows .transactionHashtags)
    (hopen : ∀ l, ¬Closes request l) (hparent : ParentActive db' source parentId userId)
    (hids : ∀ ids, given = some ids → ∀ x ∈ ids, HasActive .hashtags db' x userId) :
    Junction db' := by
  cases given with
  | none => exact hJ.of_same h (hlinks.trans hm) hopen
  | some ids =>
    refine hJ.of_links h fun l hl => ?_
    rw [hlinks] at hl
    exact junction_synced hJ h hm hopen hparent (hids ids rfl) hl

/-- Requests that close a parent and drop its links. -/
theorem Junction.of_cascaded {dbm : Db} {parentId : Uuid} {source : TransactionSource}
    (hJ : Junction db) (h : Effect env userId db request db')
    (hlinks : db'.rows .transactionHashtags =
      (dbm.cascaded env userId parentId source []).rows .transactionHashtags)
    (hm : dbm.rows .transactionHashtags = db.rows .transactionHashtags)
    (hparent : ParentActive db source parentId userId)
    (hcloses : ∀ l, Closes request l → l.transactionId = parentId ∧ l.transactionSource = source) :
    Junction db' := by
  refine hJ.of_links h fun l' hl' => ?_
  rw [hlinks] at hl'
  obtain ⟨⟨l, hl, hsame⟩, hlive⟩ := mem_cascaded hl'
  rw [hm] at hl hlive
  refine ⟨OwnedLink.same (OwnedLink.effect h (hJ.owned l hl)) hsame, fun hd => ?_⟩
  obtain ⟨hmem, hleaves⟩ := hlive hd
  refine LiveLink.effect h (hJ.live l' hmem hd) fun hc => ?_
  obtain ⟨rfl, rfl⟩ := hcloses l' hc
  have hu := OwnedLink.user_eq (hJ.owned l' hmem) hparent
  rw [leaves, decide_eq_false_iff_not] at hleaves
  exact hleaves ⟨rfl, rfl, hu, hd, by simp⟩

theorem Junction.created {body : TransactionCreateRequest} (hJ : Junction db)
    (h : Creatable env userId body db) : Junction (db.created env userId body) := by
  have heffect : Effect env userId db (.createTransaction body) (db.created env userId body) :=
    .transactionCreated h
  refine hJ.of_tagged heffect rfl (by simp) (by simp [Closes]) ?_ fun x hx =>
    hashtag_kept heffect (h.hashtags x hx) (by simp)
  refine ⟨requestedRow env userId body, ?_, rfl, rfl, rfl⟩
  rw [EvolutionLemmas.rows_created h]
  exact List.mem_append_right _ (List.mem_singleton_self _)

theorem Junction.createdAll {items : List TransactionCreateRequest} (hJ : Junction db)
    (h : CreatedAll env userId items db db') : Junction db' := by
  induction h with
  | nil => exact hJ
  | cons hc _ ih => exact ih (hJ.created hc)

/-- The invariant reads four tables. -/
theorem Junction.congr (hJ : Junction db) (ht : db'.rows .transactions = db.rows .transactions)
    (hd : db'.rows .transactionInbox = db.rows .transactionInbox)
    (hx : db'.rows .hashtags = db.rows .hashtags)
    (hl : db'.rows .transactionHashtags = db.rows .transactionHashtags) : Junction db' where
  owned l hmem := by
    rw [hl] at hmem
    obtain ⟨h₁, h₂, h₃⟩ := hJ.owned l hmem
    exact ⟨by rwa [ht], by rwa [hd], by rwa [hx]⟩
  live l hmem hdel := by
    rw [hl] at hmem
    obtain ⟨h₁, h₂, h₃⟩ := hJ.live l hmem hdel
    exact ⟨fun hs => (hasActive_congr ht).mpr (h₁ hs), by rwa [hd], (hasActive_congr hx).mpr h₃⟩
  pending d hmem := by
    rw [hd] at hmem
    exact hJ.pending d hmem

/-- A deleted hashtag takes every link to it along. -/
theorem Junction.hashtagDeleted {id : Uuid} {ledgerIds inboxIds : List Uuid} (hJ : Junction db)
    (h : Effect env userId db (.deleteHashtag id)
      (db.hashtagDeleted env userId id ledgerIds inboxIds))
    (hfound : HasActiveHashtag db userId id) :
    Junction (db.hashtagDeleted env userId id ledgerIds inboxIds) := by
  refine hJ.of_links h fun l' hl' => ?_
  rw [show (db.hashtagDeleted env userId id ledgerIds inboxIds).rows .transactionHashtags =
    (db.modify .transactionHashtags (isHashtagLink userId id)
      (linkMarked env.now (some env.now))).rows .transactionHashtags by
    simp [Sql.Db.rows, Db.hashtagDeleted, Db.parentsBumped], Db.rows_modify_same] at hl'
  obtain ⟨l, hl, rfl⟩ := List.mem_map.mp hl'
  split
  · exact ⟨OwnedLink.same (OwnedLink.effect h (hJ.owned l hl)) ⟨rfl, rfl, rfl, rfl⟩,
      fun h => by cases h⟩
  · next hw =>
    refine junction_kept hJ h hl fun hd hc => hw ?_
    rcases hc with ⟨-, hreq⟩ | ⟨-, hreq | ⟨_, hreq⟩⟩ | hreq
    all_goals cases hreq
    obtain ⟨x, hx, hid, hu⟩ := (hJ.owned l hl).hashtag
    obtain ⟨y, hy, hyid, hyu, -⟩ := hfound
    obtain rfl : x = y := EvolutionLemmas.eq_of_id hx hy (hid.trans hyid.symm)
    exact decide_eq_true ⟨rfl, hu.symm.trans hyu, hd⟩

/-- A restored transaction gets back links to active hashtags. -/
theorem Junction.restored {id : Uuid} {t : Row .transactions} {unlink : Bool} (hJ : Junction db)
    (h : Restorable userId id t unlink db)
    (hrevived : ∀ l ∈ db.rows .transactionHashtags,
      droppedAt userId id .ledger t.deletedAt l = true → HasActiveHashtag db userId l.hashtagId) :
    Junction (db.transactionRestored env userId id t unlink) := by
  have heffect : Effect env userId db (.restoreTransaction id)
      (db.transactionRestored env userId id t unlink) := .transactionRestored h
  have hopen : ∀ l, ¬Closes (.restoreTransaction id) l := by simp [Closes]
  refine hJ.of_links heffect fun l' hl' => ?_
  obtain ⟨l, hl, hsame, hlive⟩ := mem_revived hl'
  rw [Db.rows_modify_ne _ _ _ (by simp)] at hl
  have howned := OwnedLink.same (OwnedLink.effect heffect (hJ.owned l hl)) hsame
  refine ⟨howned, fun hd => ?_⟩
  rcases hlive hd with rfl | hw
  · exact LiveLink.effect heffect (hJ.live _ hl hd) (hopen _)
  · obtain ⟨hp, hs, hx, hu⟩ := hsame
    obtain ⟨rfl, hsource, rfl, -, -⟩ := of_decide_eq_true hw
    refine liveLink_of_parent ?_ ?_
    · -- the restored transaction itself
      rw [hs, hsource, hp, hu]
      refine ⟨(bumped .transactions env.now (setRestored unlink)).apply t, ?_, h.owned.1,
        h.owned.2.1, rfl⟩
      rw [Db.transactionRestored, Sql.Db.rows, revived_ne (by simp), ← Sql.Db.rows,
        Db.rows_modify_same]
      refine List.mem_map.mpr ⟨t, h.found, if_pos ?_⟩
      exact owns_either.mpr ⟨h.owned.1, h.owned.2.1⟩
    · rw [hx, hu]
      exact hashtag_kept heffect (hrevived l hl hw) (by simp)

/-- A promotion copies the links of the draft to the new transaction. -/
theorem Junction.promoted {id targetId : Uuid} {draft : Row .transactionInbox}
    {ty : TransactionType} (hJ : Junction db) (h : Promotable env userId id targetId draft ty db) :
    Junction (db.promoted env userId id targetId draft ty) := by
  have heffect : Effect env userId db (.promoteInboxItem id targetId)
      (db.promoted env userId id targetId draft ty) := .draftPromoted h
  refine hJ.of_links heffect fun l' hl' => ?_
  -- a link of the draft that survives the last cascade would have the draft's user
  have hkept : ∀ l ∈ db.rows .transactionHashtags,
      OwnedLink (db.promoted env userId id targetId draft ty) l ∧ (l.deletedAt = none →
        leaves userId id .inbox [] l = false →
        LiveLink (db.promoted env userId id targetId draft ty) l) := by
    refine fun l hl => ⟨OwnedLink.effect heffect (hJ.owned l hl), fun hd hleaves => ?_⟩
    refine LiveLink.effect heffect (hJ.live l hl hd) fun hc => ?_
    rcases hc with ⟨-, hreq⟩ | ⟨hs, hreq | ⟨_, hreq⟩⟩ | hreq
    all_goals cases hreq
    rw [leaves, decide_eq_false_iff_not] at hleaves
    refine hleaves ⟨rfl, hs, OwnedLink.user_eq (hJ.owned l hl) ?_, hd, by simp⟩
    rw [hs]
    exact ⟨draft, h.found, h.pending.1, h.pending.2.1, h.pending.2.2.2, h.pending.2.2.1⟩
  have hparent : ParentActive (db.promoted env userId id targetId draft ty) .ledger targetId
      userId := by
    refine ⟨promotedRow env userId targetId draft ty, ?_, rfl, rfl, rfl⟩
    rw [EvolutionLemmas.rows_promoted h]
    exact List.mem_append_right _ (List.mem_singleton_self _)
  have hcopied : ∀ l ∈ (Db.tagged env targetId userId .ledger (hashtagIdsOf db id .inbox)
      (db.put .transactions (promotedRow env userId targetId draft ty))).rows .transactionHashtags,
      OwnedLink (db.promoted env userId id targetId draft ty) l ∧ (l.deletedAt = none →
        leaves userId id .inbox [] l = false →
        LiveLink (db.promoted env userId id targetId draft ty) l) := by
    refine fun l hl => rows_tagged_cases hl (fun hl => hkept l (by simpa using hl)) fun hl => ?_
    rcases mem_synced l hl with ⟨⟨l₀, hl₀, hsame⟩, hlive⟩ | ⟨⟨rfl, hs, hx⟩, hold⟩
    · refine ⟨OwnedLink.same (hkept l₀ (by simpa using hl₀)).1 hsame, fun hd => ?_⟩
      exact (hkept l (by simpa using hlive hd)).2 hd
    · have hu : l.userId = userId := by
        rcases hold with ⟨l₀, hl₀, hsame⟩ | hu
        · refine OwnedLink.user_eq (OwnedLink.same (hkept l₀ (by simpa using hl₀)).1 hsame) ?_
          rwa [hs]
        · exact hu
      subst hu
      have hhashtag := hashtag_kept heffect (h.hashtags _ hx) (by simp)
      rw [← hs] at hparent
      exact ⟨ownedLink_of_parent hparent hhashtag, fun _ _ => liveLink_of_parent hparent hhashtag⟩
  obtain ⟨⟨l, hl, hsame⟩, hlive⟩ := mem_cascaded hl'
  rw [Db.rows_modify_ne _ _ _ (by simp)] at hl hlive
  refine ⟨OwnedLink.same (hcopied l hl).1 hsame, fun hd => ?_⟩
  obtain ⟨hmem, hleaves⟩ := hlive hd
  exact (hcopied l' hmem).2 hd hleaves

theorem Junction.effect (hJ : Junction db) (h : Effect env userId db request db')
    (hrevived : ∀ t unlink, request = .restoreTransaction t.id →
      Restorable userId t.id t unlink db → ∀ l ∈ db.rows .transactionHashtags,
        droppedAt userId t.id .ledger t.deletedAt l = true →
        HasActiveHashtag db userId l.hashtagId) : Junction db' := by
  have heffect := h
  have hplain : request.isPlain = true → ∀ l, ¬Closes request l := by
    rintro hreq l (⟨-, rfl⟩ | ⟨-, rfl | ⟨_, rfl⟩⟩ | rfl)
    all_goals cases hreq
  cases h with
  | idle => exact hJ
  | transactionCreated hc => exact hJ.created hc
  | batchCreated hc => exact hJ.createdAll hc
  | openingBalanceCreated hid hamount hseed hc =>
    refine Junction.created (hJ.congr ?_ ?_ ?_ ?_) hc
    all_goals rcases hseed with ⟨rfl, -⟩ | ⟨r, -, -, -, -, rfl⟩ <;> simp
  | @transactionUpdated id body row hrow =>
    refine hJ.of_retagged heffect rfl (by simp) (by simp [Closes]) ?_ fun ids hids x hx =>
      hashtag_kept heffect (hrow.hashtags ids hids x hx) (by simp)
    exact transaction_kept heffect ⟨row, hrow.found, hrow.owned⟩ (by simp)
  | transactionDeleted hrow howned =>
    refine hJ.of_cascaded heffect rfl (by simp) ⟨_, hrow, howned⟩ ?_
    rintro l (⟨hs, hreq⟩ | ⟨-, hreq | ⟨_, hreq⟩⟩ | hreq)
    all_goals cases hreq
    exact ⟨rfl, hs⟩
  | transactionRestored hrow =>
    obtain rfl := hrow.owned.1
    exact hJ.restored hrow (hrevived _ _ rfl hrow)
  | @draftCreated body hvalid hins htags =>
    refine hJ.of_tagged heffect rfl (by simp) (by simp [Closes]) ?_ fun x hx =>
      hashtag_kept heffect (htags x hx) (by simp)
    refine ⟨requestedDraft env userId body, ?_, rfl, rfl, rfl, rfl⟩
    rw [Db.drafted, Sql.Db.rows, tagged_ne (by simp), ← Sql.Db.rows, Db.rows_put_of_inserted hins]
    exact List.mem_append_right _ (List.mem_singleton_self _)
  | @draftUpdated id body row hrow =>
    refine hJ.of_retagged heffect rfl (by simp) (by simp [Closes]) ?_ fun ids hids x hx =>
      hashtag_kept heffect (hrow.hashtags ids hids x hx) (by simp)
    obtain ⟨rfl, rfl, hd⟩ := hrow.owned
    exact draft_kept heffect hrow.found ⟨hd, hJ.pending row hrow.found hd⟩ (by simp)
  | @draftDismissed id row hrow howned =>
    refine hJ.of_cascaded heffect rfl (by simp) ⟨row, hrow, howned.1, howned.2.1, howned.2.2,
      hJ.pending row hrow howned.2.2⟩ ?_
    rintro l (⟨-, hreq⟩ | ⟨hs, hreq | ⟨_, hreq⟩⟩ | hreq)
    all_goals cases hreq
    exact ⟨rfl, hs⟩
  | draftPromoted hp => exact hJ.promoted hp
  | hashtagDeleted hfound => exact hJ.hashtagDeleted heffect hfound
  | reconciliationCreated | reconciliationUpdated | reconciliationCompleted
  | reconciliationReverted | reconciliationDeleted | reconciliationRestored | accountDeleted
  | accountRestored | categoryDeleted | categoryRestored | hashtagRestored =>
    exact hJ.of_same heffect (by simp [Db.transitioned, Db.reconciliationDeleted])
      (by simp [Closes])
  | accountCreated hreq | accountEdited hreq | categoryCreated hreq | categoryEdited hreq
  | hashtagCreated hreq | hashtagEdited hreq =>
    exact hJ.of_same heffect (by simp) (hplain hreq)

theorem Junction.congr_core (hJ : Junction db) (h : CoreEq db' db) : Junction db' :=
  hJ.congr (h.rows rfl) (h.rows rfl) (h.rows rfl) (h.rows rfl)

theorem Junction.step {c : Call} (hJ : Junction db) (hrestore : RevivesActive db c) :
    Junction (step db c) := by
  by_cases henters : c.Enters db
  · rcases step_effect db c with hsame | ⟨db₁, heffect, hcore⟩
    · exact hJ.congr_core hsame
    · exact (hJ.effect heffect (hrestore henters)).congr_core hcore
  · -- a call that is refused or answered before its work revives nothing
    rwa [step_of_not_enters henters]

theorem Fresh.junction (h : Fresh db) : Junction db where
  owned := by simp [h.transactionHashtags]
  live := by simp [h.transactionHashtags]
  pending := by simp [h.transactionInbox]

/-! ## Reached states -/

/-- In every run without a restore that revives a link to a deleted hashtag,
live links join active rows of one user, so a deleted hashtag has none. -/
theorem reachable_junction {db₀ : Db} (hfresh : Fresh db₀) {calls : List Call}
    (hrestores : Along RevivesActive db₀ calls) :
    (∀ l ∈ (run db₀ calls).rows .transactionHashtags, l.deletedAt = none →
      LiveLink (run db₀ calls) l) ∧
    ∀ x ∈ (run db₀ calls).rows .hashtags, x.deletedAt ≠ none →
      ∀ l ∈ (run db₀ calls).rows .transactionHashtags, l.hashtagId = x.id → l.deletedAt ≠ none := by
  have hJ := run_invariant (fun _ _ => Junction.step) hfresh.junction hrestores
  refine ⟨hJ.live, fun x hx hdel l hl hid hd => hdel ?_⟩
  obtain ⟨y, hy, hyid, -, hactive⟩ := (hJ.live l hl hd).hashtag
  obtain rfl : y = x := EvolutionLemmas.eq_of_id hy hx (hyid.trans hid)
  exact hactive

end Links

namespace Ascii

/-- A hashtag 50, and a transaction 31 that carries it and is deleted. -/
def tagAndDelete : List Call := [
  callAt 6 (.createHashtag ⟨50, "trip".toList, none⟩),
  callAt 7 (.createTransaction ⟨31, "Taxi".toList, -900, 7, 10, 20, none, [50]⟩),
  callAt 8 (.deleteTransaction 31)]

/-- The link of the taxi, revived at the time `now`. -/
def taxiLink (now : Timestamp) : Row .transactionHashtags := ⟨31, .ledger, 50, 1, 7, now, none⟩

end Ascii

open Ascii in
/-- A restored transaction is linked to its hashtag, which is active. -/
theorem reachable_junction_restore :
    HasActive .hashtags (run blank (setup ++ tagAndDelete ++
      [callAt 9 (.restoreTransaction 31)])) 50 1 := by
  refine ((reachable_junction fresh_blank ?_).1 (taxiLink 9)
    (by decide +kernel) rfl).hashtag
  refine ⟨?_, ?_, ?_, ?_, ?_, ?_, ?_, ?_, ?_, trivial⟩
  iterate 8
    intro _ t _ hreq
    cases hreq
  intro _ _ _ _ _ l hl _
  have hactive : ∀ l ∈ (run blank (setup ++ tagAndDelete)).rows .transactionHashtags,
      HasActiveHashtag (run blank (setup ++ tagAndDelete)) 1 l.hashtagId := by
    unfold HasActiveHashtag
    decide +kernel
  exact hactive l hl

open Ascii in
/-- A hashtag deleted between the delete and the restore of a transaction ends up
with a live link. -/
theorem restored_link_dangles :
    ¬∀ l ∈ (run blank (setup ++ tagAndDelete ++ [callAt 9 (.deleteHashtag 50),
      callAt 10 (.restoreTransaction 31)])).rows .transactionHashtags, l.deletedAt = none →
      LiveLink (run blank (setup ++ tagAndDelete ++ [callAt 9 (.deleteHashtag 50),
        callAt 10 (.restoreTransaction 31)])) l := by
  intro h
  have hactive := (h (taxiLink 10) (by decide +kernel) rfl).hashtag
  revert hactive
  unfold HasActive
  decide +kernel

end ExpenseEngine
