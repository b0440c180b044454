import ExpenseEngine.Invariants.Links
import ExpenseEngine.Invariants.Versions
import ExpenseEngine.Sql.Constraints

/-!
# Drafts over sequential runs

A draft may lack any field, but what it has is stored as a promotion needs it:
no title is blank, an amount comes with its direction, and the tags are active
hashtags of the draft's user. No request restores a draft, so its tags are
never revived.

Results:
1. `DraftsHold.step`: a call keeps what holds of the drafts.
2. `reachable_drafts`: it holds in every run.
-/

namespace ExpenseEngine

open Sql Sql.Prog

section Drafts

open IntegrityLemmas LinkLemmas VersionLemmas

variable [Platform] {db db' : Db} {env : Env} {userId : Uuid} {request : Request}

/-! ## What holds of drafts -/

/-- The title is not blank, and an amount has a direction. -/
def DraftShape (d : Row .transactionInbox) : Prop :=
  d.title ≠ some [] ∧ d.amountCents.isSome = d.transactionType.isSome

/-- The tags of drafts are active hashtags of the tag's user. -/
def TagsActive (db : Db) : Prop :=
  ∀ l ∈ db.rows .transactionHashtags, l.transactionSource = .inbox → l.deletedAt = none →
    HasActiveHashtag db l.userId l.hashtagId

structure DraftsHold (db : Db) : Prop where
  shape : ∀ d ∈ db.rows .transactionInbox, DraftShape d
  tags : TagsActive db
  owned : LinksOwned db
  /-- Drafts and links pass the CHECKs and foreign keys. -/
  drafts : Constrained .transactionInbox db
  links : Constrained .transactionHashtags db

namespace DraftLemmas

/-! ## Foreign keys -/

theorem any_of_grows {t : Tbl} (h : Grows db db') {k : Key t} {p : Row t → Bool}
    (hp : ∀ r, p r = true ↔ keyOf t r = k) (hany : (db.rows t).any p = true) :
    (db'.rows t).any p = true := by
  obtain ⟨r, hr, hk⟩ := List.any_eq_true.mp hany
  have hfind := Table.mem_rows_iff.mp hr
  have hsome := h t (keyOf t r) (Option.isSome_iff_exists.mpr ⟨r, hfind⟩)
  obtain ⟨r', hr'⟩ := Option.isSome_iff_exists.mp hsome
  exact List.any_eq_true.mpr ⟨r', Table.mem_of_find? hr',
    (hp r').mpr ((Table.key_of_find? hr').trans ((hp r).mp hk))⟩

omit [Platform] in
theorem optionAll_mono {α : Type} {p q : α → Bool} (h : ∀ a, p a = true → q a = true)
    {o : Option α} (ho : o.all p = true) : o.all q = true := by
  cases o with
  | none => rfl
  | some a => exact h a ho

theorem refsByKey : RefsByKey Row := by
  intro db db' hgrows t r href
  have huser : ∀ u : Uuid, (db.rows .users).any (fun x => decide (x.id = u)) = true →
      (db'.rows .users).any (fun x => decide (x.id = u)) = true :=
    fun u => any_of_grows hgrows (t := .users) (k := u) fun _ => decide_eq_true_iff
  have haccount : ∀ a : Uuid, (db.rows .bankAccounts).any (fun x => decide (x.id = a)) = true →
      (db'.rows .bankAccounts).any (fun x => decide (x.id = a)) = true :=
    fun a => any_of_grows hgrows (t := .bankAccounts) (k := a) fun _ => decide_eq_true_iff
  have hcategory : ∀ c : Uuid, (db.rows .categories).any (fun x => decide (x.id = c)) = true →
      (db'.rows .categories).any (fun x => decide (x.id = c)) = true :=
    fun c => any_of_grows hgrows (t := .categories) (k := c) fun _ => decide_eq_true_iff
  have hdraft : ∀ i : Uuid, (db.rows .transactionInbox).any (fun x => decide (x.id = i)) = true →
      (db'.rows .transactionInbox).any (fun x => decide (x.id = i)) = true :=
    fun i => any_of_grows hgrows (t := .transactionInbox) (k := i) fun _ => decide_eq_true_iff
  have hrecon : ∀ i : Uuid, (db.rows .reconciliations).any (fun x => decide (x.id = i)) = true →
      (db'.rows .reconciliations).any (fun x => decide (x.id = i)) = true :=
    fun i => any_of_grows hgrows (t := .reconciliations) (k := i) fun _ => decide_eq_true_iff
  have hhashtag : ∀ i : Uuid, (db.rows .hashtags).any (fun x => decide (x.id = i)) = true →
      (db'.rows .hashtags).any (fun x => decide (x.id = i)) = true :=
    fun i => any_of_grows hgrows (t := .hashtags) (k := i) fun _ => decide_eq_true_iff
  change refsOf db.rows t r = true at href
  show refsOf db'.rows t r = true
  cases t with
  | users => rfl
  | exchangeRates => exact href
  | idempotencyKeys | categories | hashtags | personalAccessTokens => exact huser _ href
  | userSettings | bankAccounts =>
    obtain ⟨h₁, h₂⟩ := Bool.and_eq_true_iff.mp href
    exact Bool.and_eq_true_iff.mpr ⟨huser _ h₁, h₂⟩
  | activityLog =>
    obtain ⟨h₁, h₂⟩ := Bool.and_eq_true_iff.mp href
    exact Bool.and_eq_true_iff.mpr ⟨huser _ h₁, huser _ h₂⟩
  | reconciliations =>
    obtain ⟨h₁, h₂⟩ := Bool.and_eq_true_iff.mp href
    exact Bool.and_eq_true_iff.mpr ⟨huser _ h₁, haccount _ h₂⟩
  | transactionHashtags =>
    obtain ⟨h₁, h₂⟩ := Bool.and_eq_true_iff.mp href
    exact Bool.and_eq_true_iff.mpr ⟨huser _ h₁, hhashtag _ h₂⟩
  | transactionInbox =>
    obtain ⟨h, h₃⟩ := Bool.and_eq_true_iff.mp href
    obtain ⟨h₁, h₂⟩ := Bool.and_eq_true_iff.mp h
    exact Bool.and_eq_true_iff.mpr ⟨Bool.and_eq_true_iff.mpr ⟨huser _ h₁,
      optionAll_mono haccount h₂⟩, optionAll_mono hcategory h₃⟩
  | transactions =>
    obtain ⟨h, h₅⟩ := Bool.and_eq_true_iff.mp href
    obtain ⟨h, h₄⟩ := Bool.and_eq_true_iff.mp h
    obtain ⟨h, h₃⟩ := Bool.and_eq_true_iff.mp h
    obtain ⟨h₁, h₂⟩ := Bool.and_eq_true_iff.mp h
    refine Bool.and_eq_true_iff.mpr ⟨Bool.and_eq_true_iff.mpr ⟨Bool.and_eq_true_iff.mpr
      ⟨Bool.and_eq_true_iff.mpr ⟨huser _ h₁, haccount _ h₂⟩, hcategory _ h₃⟩, ?_⟩, ?_⟩
    · exact optionAll_mono hdraft h₄
    · exact optionAll_mono hrecon h₅

/-! ## Shapes -/

omit [Platform] in
theorem cleanName_ne_nil (o : Option Text) : cleanName o ≠ some [] := by
  intro h
  have hne := (Option.filter_eq_some_iff.mp h).2
  cases hne

theorem shape_of_proposes {d : Row .transactionInbox}
    (h : Proposes env userId request .transactionInbox d) : DraftShape d := by
  cases h with
  | draft => exact ⟨cleanName_ne_nil _, by simp [requestedDraft]⟩

theorem shape_of_updates {d d' : Row .transactionInbox}
    (h : Updates env userId request .transactionInbox d d') (hd : DraftShape d) :
    DraftShape d' := by
  cases h with
  | @draftUpdated _ _ fields =>
    obtain ⟨htitle, hamount⟩ := hd
    refine ⟨?_, ?_⟩
    · show (if fields.title.isSome then cleanName fields.title else d.title) ≠ some []
      split
      · exact cleanName_ne_nil _
      · exact htitle
    · show (if fields.amountCents.isSome then fields.amountCents.map absCents
        else d.amountCents).isSome = (if fields.amountCents.isSome then
          fields.amountCents.map inferTransactionType else d.transactionType).isSome
      split
      · simp
      · exact hamount
  | draftDismissed | draftPromoted | draftUntagged => exact hd

theorem shape_step (hshape : ∀ d ∈ db.rows .transactionInbox, DraftShape d) (c : Call) :
    ∀ d ∈ (step db c).rows .transactionInbox, DraftShape d := by
  have hchain : ∀ {d d' : Row .transactionInbox}, DraftShape d →
      Relation.ReflTransGen (c.Updates .transactionInbox) d d' → DraftShape d' := by
    intro d d' hd h
    induction h with
    | refl => exact hd
    | tail _ hupd ih => exact shape_of_updates hupd ih
  intro d hd
  rcases step_origin c hd with ⟨r, hr, -, hrd⟩ | ⟨-, r, hr, -, hrd⟩
  · exact hchain (hshape r hr) hrd
  · rcases hr with hstore | hprop
    · cases hstore
    · exact hchain (shape_of_proposes hprop) hrd

/-! ## Tags -/

/-- A live tag of a draft the request writes to was there, or its hashtag was
checked. -/
theorem tag_of_parent {b : Body} (howned : LinksOwned db)
    (h : exec (request.work env userId) db = .ok (b, db')) {l : Row .transactionHashtags}
    (hl : l ∈ db'.rows .transactionHashtags) (hinbox : l.transactionSource = .inbox)
    (hlive : l.deletedAt = none) (hparent : (l.transactionId, .inbox) ∈ request.parents) :
    l ∈ db.rows .transactionHashtags ∨
      (HasActiveHashtag db userId l.hashtagId ∧ l.userId = userId) := by
  cases request with
  | createInboxItem body =>
    obtain ⟨⟨-, hins, htags⟩, hdb⟩ := exec_createInboxItem h
    rw [hdb.rows rfl] at hl
    refine rows_tagged_cases hl (fun hl => .inl (by simpa [Sql.Db.rows] using hl)) fun hl => ?_
    rcases mem_synced l hl with ⟨-, hmem⟩ | ⟨⟨hid, -, hx⟩, hold⟩
    · exact .inl (by simpa [Sql.Db.rows] using hmem hlive)
    · refine .inr ⟨htags _ hx, ?_⟩
      rcases hold with ⟨l₀, hl₀, hsame⟩ | hu
      · -- no link can be there before its draft
        have hl₀ : l₀ ∈ db.rows .transactionHashtags := by simpa [Sql.Db.rows] using hl₀
        obtain ⟨hp, hs, -, -⟩ := hsame
        have hparent := howned l₀ hl₀
        rw [← hp, ← hs, hid, hinbox] at hparent
        obtain ⟨d, hd, hdid, -⟩ := hparent
        exact absurd hdid (EvolutionLemmas.fresh_of_inserts hins d hd)
      · exact hu
  | updateInboxItem id body =>
    rcases exec_updateInboxItem h with ⟨-, -, rfl⟩ | ⟨row, hrow, hdb⟩
    · exact .inl hl
    · rw [hdb.rows rfl, Db.draftUpdated] at hl
      cases hids : body.hashtagIds.join with
      | none =>
        rw [hids] at hl
        exact .inl (by simpa [Sql.Db.rows, Db.retagged] using hl)
      | some ids =>
        rw [hids] at hl
        rcases mem_synced l hl with ⟨-, hmem⟩ | ⟨⟨hid, -, hx⟩, hold⟩
        · exact .inl (by simpa [Sql.Db.rows] using hmem hlive)
        · refine .inr ⟨hrow.hashtags ids hids _ hx, ?_⟩
          rcases hold with ⟨l₀, hl₀, hsame⟩ | hu
          · have hl₀ : l₀ ∈ db.rows .transactionHashtags := by simpa [Sql.Db.rows] using hl₀
            obtain ⟨hp, hs, -, hu⟩ := hsame
            have hparent := howned l₀ hl₀
            rw [← hp, ← hs, hid, hinbox] at hparent
            obtain ⟨d, hd, hdid, hdu⟩ := hparent
            obtain rfl : d = row :=
              EvolutionLemmas.eq_of_id hd hrow.found (hdid.trans hrow.owned.1.symm)
            exact hu.trans (hdu.symm.trans hrow.owned.2.1)
          · exact hu
  | deleteInboxItem id =>
    obtain ⟨-, hdb⟩ := exec_deleteInboxItem h
    rw [hdb.rows rfl] at hl
    exact .inl (by simpa [Sql.Db.rows] using ((mem_cascaded hl).2 hlive).1)
  | promoteInboxItem id targetId =>
    obtain ⟨draft, ty, -, hdb⟩ := exec_promoteInboxItem h
    rw [hdb.rows rfl] at hl
    have hl := ((mem_cascaded hl).2 hlive).1
    rw [Db.rows_modify_ne _ _ _ (by simp)] at hl
    refine .inl (rows_tagged_cases hl (fun hl => by simpa [Sql.Db.rows] using hl) fun hl => ?_)
    rcases mem_synced l hl with ⟨-, hmem⟩ | ⟨⟨-, hs, -⟩, -⟩
    · simpa [Sql.Db.rows] using hmem hlive
    · rw [hinbox] at hs
      cases hs
  | batchCreateTransactions | createTransaction | createOpeningBalance | updateTransaction
  | deleteTransaction | restoreTransaction => simp [Request.parents] at hparent
  | _ => cases hparent

/-- A live tag of a draft was there, and its hashtag is not the one deleted, or
its hashtag was checked. -/
theorem tag_origin {b : Body} (howned : LinksOwned db)
    (h : exec (request.work env userId) db = .ok (b, db')) {l : Row .transactionHashtags}
    (hl : l ∈ db'.rows .transactionHashtags) (hinbox : l.transactionSource = .inbox)
    (hlive : l.deletedAt = none) :
    (l ∈ db.rows .transactionHashtags ∧
      ∀ id, request = .deleteHashtag id → isHashtagLink userId id l = false) ∨
    (HasActiveHashtag db userId l.hashtagId ∧ l.userId = userId ∧
      ∀ id, request ≠ .deleteHashtag id) := by
  by_cases hdelete : ∃ id, request = .deleteHashtag id
  · obtain ⟨id, rfl⟩ := hdelete
    obtain ⟨hmem, hlink⟩ := (mem_links_deleteHashtag h hlive).mp hl
    refine .inl ⟨hmem, fun id' hid => ?_⟩
    cases hid
    exact hlink
  · have hrequest : ∀ id, request ≠ .deleteHashtag id := fun id hid => hdelete ⟨id, hid⟩
    by_cases hparent : (l.transactionId, l.transactionSource) ∈ request.parents
    · rw [hinbox] at hparent
      rcases tag_of_parent howned h hl hinbox hlive hparent with hmem | ⟨hactive, hu⟩
      · exact .inl ⟨hmem, fun id hid => absurd hid (hrequest id)⟩
      · exact .inr ⟨hactive, hu, hrequest⟩
    · exact .inl ⟨(links_kept hrequest h hparent).mp hl, fun id hid => absurd hid (hrequest id)⟩

theorem tags_work {b : Body} (htags : TagsActive db) (howned : LinksOwned db)
    (h : exec (request.work env userId) db = .ok (b, db')) : TagsActive db' := by
  intro l hl hinbox hlive
  obtain ⟨db₁, heffect, hcore⟩ := work_effect h
  refine (hasActive_congr (hcore.rows (t := .hashtags) rfl)).mpr ?_
  rcases tag_origin howned h hl hinbox hlive with ⟨hmem, hlink⟩ | ⟨hactive, hu, hrequest⟩
  · rcases hasActive_survives (hashtags_evolve heffect) (htags l hmem hinbox hlive) with
      hok | ⟨x, -, ⟨hid, hu⟩, hreq, hxu⟩
    · exact hok
    · have hfalse := hlink _ hreq
      rw [isHashtagLink, decide_eq_false_iff_not] at hfalse
      exact absurd ⟨hid.symm, hu.symm.trans hxu, hlive⟩ hfalse
  · rw [hu]
    exact hashtag_kept heffect hactive hrequest

end DraftLemmas

open DraftLemmas

/-! ## Every call keeps it -/

theorem constrained_step {t : Tbl} (h : Constrained t db) (c : Call) :
    Constrained t (step db c) := by
  unfold ExpenseEngine.step
  split
  · next hrun => exact exec_constrained refsByKey h hrun
  · exact h

theorem constrained_run {t : Tbl} (h : Constrained t db) (calls : List Call) :
    Constrained t (run db calls) := by
  induction calls generalizing db with
  | nil => exact h
  | cons c calls ih => exact ih (constrained_step h c)

theorem DraftsHold.step (h : DraftsHold db) (c : Call) : DraftsHold (step db c) := by
  refine ⟨shape_step h.shape c, ?_, h.owned.step c, constrained_step h.drafts c,
    constrained_step h.links c⟩
  rcases step_cases db c with hsame | ⟨b, db₁, hwork, hdb⟩
  · rw [hsame]
    exact h.tags
  · have htags := tags_work h.tags h.owned hwork
    intro l hl hinbox hlive
    rw [Sql.Db.rows, hdb _ (by simp)] at hl
    have hrows : (ExpenseEngine.step db c).rows .hashtags = db₁.rows .hashtags :=
      congrArg Table.rows (hdb _ (by simp))
    exact (hasActive_congr hrows).mpr (htags l hl hinbox hlive)

theorem Fresh.draftsHold (h : Fresh db) : DraftsHold db where
  shape := by simp [h.transactionInbox]
  tags := by simp [TagsActive, h.transactionHashtags]
  owned := h.linksOwned
  drafts := by simp [Constrained, h.transactionInbox]
  links := by simp [Constrained, h.transactionHashtags]

theorem reachable_drafts {db₀ : Db} (hfresh : Fresh db₀) (calls : List Call) :
    DraftsHold (run db₀ calls) :=
  run_invariant (fun _ c h _ => h.step c) hfresh.draftsHold (along_true db₀ calls)

end Drafts

end ExpenseEngine
