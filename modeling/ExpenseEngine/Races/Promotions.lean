import ExpenseEngine.Invariants.Audit
import ExpenseEngine.Races.Handlers
import ExpenseEngine.Races.RowLaws
import ExpenseEngine.Refinement.Promotion

/-!
# Promotions side by side

A promotion locks its draft while it is pending, writes the ledger row and closes
the draft before it lets go. Whoever promotes the draft beside it waits for the
lock, and then finds nothing that is pending.

Results:
1. `closes_work`: what a promotion leaves of its draft and of the ledger.
2. `promoted_commit_of_closes`, `promoted_commit_of_ne`: one commit.
3. `promoted_once`: no draft is in the ledger twice, in any interleaving.
4. `reached_promotedOnce`: what it starts from holds whenever races have gone
   before.
-/

namespace ExpenseEngine

open Sql Sql.Prog HandlerLemmas StatementLemmas EffectLemmas RowLemmas

section Promotions

variable [Platform] {env : Env} {userId : Uuid}

/-! ## What a promotion leaves -/

/-- The draft is the one that is locked, and the ledger has the rows `rs` to
come. -/
structure Promoting (r : Row .transactionInbox) (rs : List (Row .transactions)) (l : Loc) :
    Prop where
  draft : l.own .transactionInbox = []
  version : l.version .transactionInbox r.id = some r
  ledger : l.own .transactions = rs
  fresh : ∀ x ∈ rs, ∀ y ∈ l.held .transactions, y.id ≠ x.id

/-- The pending draft `id` is closed, and its ledger row is new. -/
structure ClosesDraft (env : Env) (userId id targetId : Uuid) (l : Loc) : Prop where
  moved : ∃ r ty, isPendingDraft id userId r = true ∧
    Rewrote .transactionInbox r ((bumped .transactionInbox env.now (setPromoted env)).apply r) l ∧
    l.own .transactions = [promotedRow env userId targetId r ty]
  fresh : ∀ y ∈ l.held .transactions, y.id ≠ targetId

namespace PromotionsLemmas

theorem promoting_framed {W : Tbl → Prop} {r : Row .transactionInbox}
    {rs : List (Row .transactions)} (hdraft : ¬W .transactionInbox) (hledger : ¬W .transactions) :
    Among.Framed W (Promoting r rs) := by
  intro l l' hg h
  refine ⟨(hg.own _ hdraft).trans h.draft, hg.version _ hdraft r.id r h.version,
    (hg.own _ hledger).trans h.ledger, fun x hx => ?_⟩
  exact hg.inserted .transactions x (by rwa [h.ledger]) (h.fresh x hx)

theorem promoting_reads {r : Row .transactionInbox} {rs : List (Row .transactions)} :
    Among.Framed (fun _ => False) (Promoting r rs) :=
  promoting_framed not_false not_false

theorem closes_framed {W : Tbl → Prop} {id targetId : Uuid} (hdraft : ¬W .transactionInbox)
    (hledger : ¬W .transactions) : Among.Framed W (ClosesDraft env userId id targetId) := by
  intro l l' hg h
  obtain ⟨r, ty, hpending, hrow, hown⟩ := h.moved
  refine ⟨⟨r, ty, hpending, rewrote_framed hdraft hg hrow, (hg.own _ hledger).trans hown⟩, ?_⟩
  refine hg.inserted .transactions (promotedRow env userId targetId r ty) ?_ h.fresh
  rw [hown]
  exact List.mem_singleton_self _

end PromotionsLemmas

open PromotionsLemmas

/-- The draft is closed while its ledger row waits for the commit. -/
theorem among_close {id targetId : Uuid} {r : Row .transactionInbox} {ty : TransactionType}
    {α : Type} {g : Row .transactionInbox → Op α} (hpending : isPendingDraft id userId r = true)
    (hg : ∀ r', Among (ClosesDraft env userId id targetId) (g r')
      fun _ => ClosesDraft env userId id targetId) :
    Among (Promoting r [promotedRow env userId targetId r ty])
      (updateRow .transactionInbox (owns .transactionInbox id userId .either)
        (bumped .transactionInbox env.now (setPromoted env)) >>= fun o =>
          orRaise o internalError >>= g)
      fun _ => ClosesDraft env userId id targetId := by
  obtain ⟨hid, -, -, -⟩ := of_decide_eq_true hpending
  have hw : ∀ x : Row .transactionInbox, owns .transactionInbox id userId .either x = true →
      keyOf .transactionInbox x = r.id := by
    intro x hx
    exact (owns_either.mp hx).1.trans hid.symm
  simp only [updateRow, LawfulMonad.bind_assoc, pure_bind]
  refine (Among.updateWhere hw (Q := fun rs l => rs ≠ [] → ClosesDraft env userId id targetId l)
    (fun _ _ _ _ _ hnil => absurd rfl hnil) ?_).bind fun rs => ?_
  · intro l l' x h hgrows _ hown hversion hold _
    have hx : x = r := by
      rcases hold with hold | ⟨hnone, -⟩
      · exact (Option.some.inj (h.version.symm.trans hold)).symm
      · exact absurd (h.version.symm.trans hnone) (by simp)
    subst hx
    have hheld : x ∈ l.held .transactionInbox := Local.version_of_held h.version (by simp [h.draft])
    refine ⟨⟨x, ty, hpending, ⟨(hgrows.extended.held _).subset hheld, ?_, rfl⟩, ?_⟩, ?_⟩
    · rw [hown, h.draft]
      rfl
    · exact (hgrows.own _ (by simp)).trans h.ledger
    · refine hgrows.inserted .transactions (promotedRow env userId targetId x ty) ?_ ?_
      · rw [h.ledger]
        exact List.mem_singleton_self _
      · exact h.fresh _ (List.mem_singleton_self _)
  · refine Among.orRaise.bind fun r' l b l' hpre h => hg r' (hpre.1 ?_) h
    rintro rfl
    exact absurd hpre.2 (by simp)

theorem closes_work {id targetId : Uuid} :
    Among Blank (promoteInboxItem env userId id targetId)
      fun _ => ClosesDraft env userId id targetId := by
  simp only [promoteInboxItem, insertTransactionRow, fetchRowForUpdate, LawfulMonad.bind_assoc,
    pure_bind]
  refine (Among.selectForUpdate (Q := fun rs l =>
    ∀ r ∈ rs, isPendingDraft id userId r = true ∧ Promoting r [] l) ?_).bind fun rs => ?_
  · intro l l' rs hblank hgrows hrs r hr
    obtain ⟨hw, hversion⟩ := hrs r hr
    exact ⟨hw, (hgrows.own _ not_false).trans (hblank.1 _), hversion,
      (hgrows.own _ not_false).trans (hblank.1 _), by simp⟩
  have hlocked : ∀ r l, ((∀ r ∈ rs, isPendingDraft id userId r = true ∧ Promoting r [] l) ∧
      rs.head? = some r) → Promoting r [] l ∧ isPendingDraft id userId r = true := by
    intro r l h
    obtain ⟨hw, hdraft⟩ := h.1 r (List.mem_of_head? h.2)
    exact ⟨hdraft, hw⟩
  refine (Among.orRaise.weaken (fun _ h => h) hlocked).bind fun r =>
    Among.assume fun hpending => ?_
  refine among_guard promoting_reads readOnly_fetchHashtagIds fun ids => ?_
  refine among_guard promoting_reads readOnly_dbNow fun now => ?_
  refine among_guard promoting_reads readOnly_promoteAccount fun account => ?_
  refine among_guard promoting_reads readOnly_promoteCategory fun category => ?_
  refine among_guard promoting_reads (writesOnly_raiseIf _ _) fun _ => ?_
  refine among_guard promoting_reads (writesOnly_orRaise _ _) fun ty => ?_
  refine (Among.insertRow (Q := Promoting r [promotedRow env userId targetId r ty]) ?_).bind
    fun o => ?_
  · intro l h hnone
    refine ⟨(Local.own_write_ne _ (by simp)).trans h.draft, ?_, ?_, ?_⟩
    · exact (Local.version_write_ne _ (by simp)).trans h.version
    · rw [Local.own_write_same, h.ledger]
      rfl
    · intro x hx y hy hkey
      rw [List.mem_singleton.mp hx] at hkey
      have htarget : y.id = targetId := hkey
      have hfree : l.version .transactions targetId = none := hnone
      have hsome : (l.version .transactions y.id).isSome := Local.version_isSome (.inr hy)
      rw [htarget, hfree] at hsome
      cases hsome
  have hinserted : ∀ (_ : Unit) l, ((o = .inserted →
      Promoting r [promotedRow env userId targetId r ty] l) ∧ ¬o ≠ .inserted) →
        Promoting r [promotedRow env userId targetId r ty] l := fun _ _ h => h.1 (not_not.mp h.2)
  refine (Among.raiseIf.weaken (fun _ h => h) hinserted).bind fun _ => ?_
  -- the ledger row waits, and the rest writes tags and entries around the UPDATE of the draft
  refine Among.skip (writesOnly_syncIfAny (W := (· = .transactionHashtags)) rfl)
    (promoting_framed (by simp) (by simp)) fun _ => ?_
  refine among_guard promoting_reads readOnly_attachHashtagIds fun response => ?_
  refine Among.skip (W := (· = .activityLog)) (writesOnly_insertOrAbort rfl)
    (promoting_framed (by simp) (by simp)) fun _ => ?_
  refine among_close hpending fun r' => ?_
  refine Among.skip (writesOnly_cascadeDelete (W := (· = .transactionHashtags)) rfl)
    (closes_framed (by simp) (by simp)) fun _ => ?_
  refine among_guard (closes_framed not_false not_false) readOnly_attachInboxHashtagIds
    fun after => ?_
  refine Among.skip (W := (· = .activityLog)) (writesOnly_insertOrAbort rfl)
    (closes_framed (by simp) (by simp)) fun _ => ?_
  exact Among.pure fun _ h => h

/-! ## The ledger and the drafts -/

/-- A draft that is promoted is closed and has one ledger row, and no other
draft has any. -/
structure PromotedOnce (db : Db) : Prop where
  closed : ∀ x ∈ db.rows .transactions, ∀ id, x.inboxId = some id →
    ∃ r ∈ db.rows .transactionInbox, r.id = id ∧ r.userId = x.userId ∧ r.status = .promoted
  once : ∀ x ∈ db.rows .transactions, ∀ y ∈ db.rows .transactions, ∀ id,
    x.inboxId = some id → y.inboxId = some id → x = y
  recorded : ∀ r ∈ db.rows .transactionInbox, r.status = .promoted →
    r.deletedAt ≠ none ∧ ∃ x ∈ db.rows .transactions, x.inboxId = some r.id

variable {db db' : Db} {request : Request}

/-- Where nothing has been promoted yet. -/
theorem promotedOnce_of_pending (hledger : ∀ x ∈ db.rows .transactions, x.inboxId = none)
    (hdrafts : ∀ r ∈ db.rows .transactionInbox, r.status = .pending) : PromotedOnce db where
  closed x hx id hid := absurd ((hledger x hx).symm.trans hid) (by simp)
  once x hx _ _ id hid _ := absurd ((hledger x hx).symm.trans hid) (by simp)
  recorded r hr hpromoted := absurd ((hdrafts r hr).symm.trans hpromoted) (by simp)

theorem Fresh.promotedOnce (h : Fresh db) : PromotedOnce db :=
  promotedOnce_of_pending (by simp [h.transactions]) (by simp [h.transactionInbox])

namespace PromotionsLemmas

/-- Only a promotion inserts a row that names a draft. -/
theorem inboxId_of_proposes {x : Row .transactions}
    (hne : ∀ id targetId, request ≠ .promoteInboxItem id targetId)
    (h : Proposes env userId request .transactions x) : x.inboxId = none := by
  cases h with
  | promoted => exact absurd rfl (hne _ _)
  | transaction | batchItem | openingBalance => rfl

theorem status_of_proposes {r : Row .transactionInbox}
    (h : Proposes env userId request .transactionInbox r) : r.status = .pending := by
  cases h with
  | draft => rfl

/-- Only a promotion changes the status of a draft. -/
theorem status_of_updates {r r' : Row .transactionInbox}
    (hne : ∀ id targetId, request ≠ .promoteInboxItem id targetId)
    (h : Updates env userId request .transactionInbox r r') : r'.status = r.status := by
  cases h with
  | draftPromoted => exact absurd rfl (hne _ _)
  | draftUpdated | draftDismissed | draftUntagged => rfl

end PromotionsLemmas

/-! ## One commit -/

section Commits

variable {ι : Type} [DecidableEq ι] {calls : ι → Call} {s : Race ι} {i : ι} {reply : Reply}

/-- A pending draft is closed and comes into the ledger. -/
structure MovesToLedger (db : Db) (userId id targetId : Uuid) (db' : Db) : Prop where
  pending : ∃ r ∈ db.rows .transactionInbox, r.id = id ∧ r.userId = userId ∧ r.status = .pending
  closed : ∃ r : Row .transactionInbox, r.id = id ∧ r.userId = userId ∧ r.status = .promoted ∧
    r.deletedAt ≠ none ∧ db' .transactionInbox = (db .transactionInbox).put r
  ledger : ∃ x : Row .transactions, x.id = targetId ∧ x.userId = userId ∧ x.inboxId = some id ∧
    db'.rows .transactions = db.rows .transactions ++ [x]

theorem movesToLedger_commit {id targetId : Uuid} (hs : Sound (fun i => (calls i).handle) s)
    (hi : (s.party i).isRunning = true) (h : ClosesDraft env userId id targetId (s.party i).loc)
    (reply : Reply) : MovesToLedger s.db userId id targetId (s.commit i reply).db := by
  obtain ⟨r, ty, hpending, hrow, hown⟩ := h.moved
  obtain ⟨hid, huser, hstatus, hactive⟩ := of_decide_eq_true hpending
  obtain ⟨hfind, hput⟩ := rewritten_commit hs hi hrow reply
  refine ⟨⟨r, Table.mem_of_find? hfind, hid, huser, hstatus⟩,
    ⟨(bumped .transactionInbox env.now (setPromoted env)).apply r, hid, huser, rfl,
      Option.some_ne_none env.now, hput⟩,
    ⟨promotedRow env userId targetId r ty, rfl, rfl, congrArg some hid, ?_⟩⟩
  · have hmem : promotedRow env userId targetId r ty ∈ (s.party i).loc.own .transactions := by
      rw [hown]
      exact List.mem_singleton_self _
    have hnew : (s.db .transactions).find? targetId = none := by
      rcases (hs.anchored i hi).own .transactions _ hmem with ⟨y, hy, hkey⟩ | hnew
      · exact absurd hkey (h.fresh y hy)
      · exact hnew
    show (overlay (s.party i).loc.own s.db .transactions).rows = _
    rw [overlay, hown]
    exact Table.rows_put_of_new hnew

namespace PromotionsLemmas

/-- Drafts with the id of a pending one have no ledger row. -/
theorem unlisted (h : PromotedOnce db) {r : Row .transactionInbox}
    (hr : r ∈ db.rows .transactionInbox) (hstatus : r.status = .pending)
    {x : Row .transactions} (hx : x ∈ db.rows .transactions) : x.inboxId ≠ some r.id := by
  intro hinbox
  obtain ⟨y, hy, hid, -, hpromoted⟩ := h.closed x hx _ hinbox
  obtain rfl : y = r := Table.eq_of_key_eq hy hr hid
  rw [hstatus] at hpromoted
  cases hpromoted

end PromotionsLemmas

theorem promotedOnce_of_moves {id targetId : Uuid} (h : PromotedOnce db)
    (hmoved : MovesToLedger db userId id targetId db') : PromotedOnce db' := by
  obtain ⟨r, hr, hid, huser, hstatus⟩ := hmoved.pending
  obtain ⟨r', hid', huser', hpromoted, hclosed, hput⟩ := hmoved.closed
  obtain ⟨x, hxid, hxuser, hinbox, hledger⟩ := hmoved.ledger
  have hfree : ∀ y ∈ db.rows .transactions, y.inboxId ≠ some id := by
    intro y hy
    rw [← hid]
    exact unlisted h hr hstatus hy
  have hdrafts : ∀ y : Row .transactionInbox, y ∈ db'.rows .transactionInbox ↔
      y = r' ∨ (y ∈ db.rows .transactionInbox ∧ y.id ≠ id) := by
    intro y
    rw [Sql.Db.rows, hput, Table.mem_put, ← hid']
    rfl
  constructor
  · intro y hy d hd
    rw [hledger, List.mem_append, List.mem_singleton] at hy
    rcases hy with hy | rfl
    · obtain ⟨z, hz, hzid, hzuser, hzstatus⟩ := h.closed y hy d hd
      refine ⟨z, (hdrafts z).mpr (.inr ⟨hz, ?_⟩), hzid, hzuser, hzstatus⟩
      rintro rfl
      exact hfree y hy (hzid ▸ hd)
    · cases hinbox.symm.trans hd
      exact ⟨r', (hdrafts r').mpr (.inl rfl), hid', huser'.trans hxuser.symm, hpromoted⟩
  · intro y hy z hz d hyd hzd
    rw [hledger, List.mem_append, List.mem_singleton] at hy hz
    rcases hy with hy | rfl
    · rcases hz with hz | rfl
      · exact h.once y hy z hz d hyd hzd
      · cases hinbox.symm.trans hzd
        exact absurd hyd (hfree y hy)
    · rcases hz with hz | rfl
      · cases hinbox.symm.trans hyd
        exact absurd hzd (hfree z hz)
      · rfl
  · intro y hy hystatus
    rw [hledger]
    rcases (hdrafts y).mp hy with rfl | ⟨hy, -⟩
    · exact ⟨hclosed, x, List.mem_append_right _ (List.mem_singleton_self x), by rw [hid', hinbox]⟩
    · obtain ⟨hdeleted, z, hz, hzid⟩ := h.recorded y hy hystatus
      exact ⟨hdeleted, z, List.mem_append_left _ hz, hzid⟩

/-- Any other commit keeps the drafts of the ledger rows as they are. -/
theorem promotedOnce_of_descends {upd : (t : Tbl) → Row t → Row t → Prop}
    {ins : (t : Tbl) → Row t → Prop} (h : PromotedOnce db)
    (hdescends : Descends ins upd db db') (hheir : ∀ t r r', upd t r r' → Heir t r r')
    (hstatus : ∀ r r', upd .transactionInbox r r' → r'.status = r.status)
    (hdraft : ∀ r, ins .transactionInbox r → r.status = .pending)
    (hledger : ∀ x, ins .transactions x → x.inboxId = none) : PromotedOnce db' := by
  have hchain : ∀ {t} {r r' : Row t}, Relation.ReflTransGen (upd t) r r' → Heir t r r' :=
    fun h => heir_of_chain (hheir _) h
  -- a ledger row that names a draft has been there
  have hold : ∀ x ∈ db'.rows .transactions, ∀ id, x.inboxId = some id →
      ∃ x₀ ∈ db.rows .transactions, x₀.id = x.id ∧ x₀.userId = x.userId ∧ x₀.inboxId = some id := by
    intro x hx id hid
    obtain ⟨x₀, hkey, hupd, hx₀⟩ := hdescends.origin .transactions x hx
    obtain ⟨hnewer, hinbox⟩ := hchain hupd
    rcases hx₀ with hx₀ | ⟨hins, -⟩
    · exact ⟨x₀, hx₀, hkey, hnewer.user.symm, hinbox.symm.trans hid⟩
    · rw [hledger x₀ hins, hid] at hinbox
      cases hinbox
  constructor
  · intro x hx id hid
    obtain ⟨x₀, hx₀, -, huser, hid₀⟩ := hold x hx id hid
    obtain ⟨r, hr, hrid, hruser, hpromoted⟩ := h.closed x₀ hx₀ id hid₀
    obtain ⟨r', hr', hkey, hupd⟩ := hdescends.kept .transactionInbox r hr
    obtain ⟨hnewer, -, hstays⟩ := hchain hupd
    exact ⟨r', hr', hkey.trans hrid, hnewer.user.trans (hruser.trans huser), hstays hpromoted⟩
  · intro x hx y hy id hxid hyid
    obtain ⟨x₀, hx₀, hxkey, -, hxid₀⟩ := hold x hx id hxid
    obtain ⟨y₀, hy₀, hykey, -, hyid₀⟩ := hold y hy id hyid
    obtain rfl := h.once x₀ hx₀ y₀ hy₀ id hxid₀ hyid₀
    exact Table.eq_of_key_eq hx hy (hxkey.symm.trans hykey)
  · intro r' hr' hpromoted
    obtain ⟨r, hkey, hupd, hr⟩ := hdescends.origin .transactionInbox r' hr'
    have hsame : r'.status = r.status := by
      clear hkey hr hr' hpromoted
      induction hupd with
      | refl => rfl
      | tail _ hstep ih => exact (hstatus _ _ hstep).trans ih
    rcases hr with hr | ⟨hins, -⟩
    · obtain ⟨hdeleted, x, hx, hxid⟩ := h.recorded r hr (hsame.symm.trans hpromoted)
      obtain ⟨x', hx', -, hxupd⟩ := hdescends.kept .transactions x hx
      refine ⟨(hchain hupd).2.1 hdeleted, x', hx', ?_⟩
      rw [(hchain hxupd).2, hxid]
      exact congrArg some hkey
    · rw [hsame, hdraft r hins] at hpromoted
      cases hpromoted

omit [DecidableEq ι] in
/-- What a promotion leaves when it commits: its draft closed, or nothing where
a stored answer is replayed. -/
theorem closes_handle {c : Call} {id targetId : Uuid} {l : Loc}
    (hrequest : c.request = .promoteInboxItem id targetId)
    (h : c.handle.Runs .init (.ok reply) l) :
    (∀ b, reply = .fresh b → ClosesDraft c.env c.userId id targetId l) ∧
      ∀ b n, reply = .cached b n → ∀ t, l.own t = [] := by
  have hwork : Among Blank (c.request.work c.env c.userId)
      fun _ => ClosesDraft c.env c.userId id targetId := by
    rw [hrequest]
    exact closes_work
  exact among_handle hwork (fun _ => closes_framed (by simp) (by simp)) rfl h

theorem descends_call (hs : Sound (fun i => (calls i).handle) s)
    (hp : (s.party i).phase = .running (.ret reply)) :
    Descends (calls i).Proposes (calls i).Updates s.db (s.commit i reply).db :=
  descends_commit hs (handle_rewrites (calls i)) hp

theorem promotedOnce_commit (hs : Sound (fun i => (calls i).handle) s) (h : PromotedOnce s.db)
    (hp : (s.party i).phase = .running (.ret reply)) : PromotedOnce (s.commit i reply).db := by
  have hi : (s.party i).isRunning = true := by rw [Party.isRunning, hp]
  by_cases hpromotes : ∃ id targetId, (calls i).request = .promoteInboxItem id targetId
  · obtain ⟨id, targetId, hrequest⟩ := hpromotes
    obtain ⟨hfresh, hcached⟩ := closes_handle hrequest ((hs.trace i).running _ hp _ _ ⟨rfl, rfl⟩)
    cases reply with
    | fresh b => exact promotedOnce_of_moves h (movesToLedger_commit hs hi (hfresh b rfl) _)
    | cached b status =>
      have hdb : (s.commit i (.cached b status)).db = s.db :=
        funext fun t => kept_commit (hcached b status rfl t) _
      rwa [hdb]
  · have hne : ∀ id targetId, (calls i).request ≠ .promoteInboxItem id targetId :=
      fun id targetId hrequest => hpromotes ⟨id, targetId, hrequest⟩
    refine promotedOnce_of_descends h (descends_call hs hp) (fun _ _ _ => heir_of_updates)
      (fun _ _ => status_of_updates hne) ?_ ?_
    · rintro r (hstore | hins)
      · exact hstore.elim
      · exact status_of_proposes hins
    · rintro x (hstore | hins)
      · exact hstore.elim
      · exact inboxId_of_proposes hne hins

end Commits

/-! ## Whole runs -/

section Runs

variable {ι : Type} [DecidableEq ι] {calls : ι → Call} {s : Race ι} {i : ι}

/-- The party has promoted the draft, and is not answered with what another call
has stored. -/
def Promoted (calls : ι → Call) (s : Race ι) (i : ι) (id targetId : Uuid) : Prop :=
  (calls i).request = .promoteInboxItem id targetId ∧
    ∃ b, (s.party i).phase = .committed (.fresh b)

/-- The drafts and the ledger agree, and each promotion has its own ledger row
and its own draft. -/
structure PromotionsSettled (calls : ι → Call) (s : Race ι) : Prop where
  drafts : PromotedOnce s.db
  listed : ∀ i id targetId, Promoted calls s i id targetId → ∃ x ∈ s.db.rows .transactions,
    x.id = targetId ∧ x.userId = (calls i).userId ∧ x.inboxId = some id
  alone : ∀ i j id targetId targetId', Promoted calls s i id targetId →
    Promoted calls s j id targetId' → i = j

theorem PromotionsSettled.commit {reply : Reply} (hs : Sound (fun i => (calls i).handle) s)
    (h : PromotionsSettled calls s) (hp : (s.party i).phase = .running (.ret reply)) :
    PromotionsSettled calls (s.commit i reply) := by
  have hi : (s.party i).isRunning = true := by rw [Party.isRunning, hp]
  have hdescends := descends_call hs hp
  -- whoever promoted before is another party, and its row stays
  have hothers : ∀ j id targetId, Promoted calls (s.commit i reply) j id targetId → j ≠ i →
      Promoted calls s j id targetId := by
    rintro j id targetId ⟨hrequest, b, hphase⟩ hne
    rw [State.party_commit_ne _ _ hne] at hphase
    exact ⟨hrequest, b, hphase⟩
  have hmoves : ∀ id targetId, Promoted calls (s.commit i reply) i id targetId →
      MovesToLedger s.db (calls i).userId id targetId (s.commit i reply).db := by
    rintro id targetId ⟨hrequest, b, hphase⟩
    rw [State.party_commit_self] at hphase
    have hreply : reply = .fresh b := by simpa using hphase
    exact movesToLedger_commit hs hi ((closes_handle hrequest
      ((hs.trace i).running _ hp _ _ ⟨rfl, rfl⟩)).1 b hreply) _
  have hlone : ∀ j id targetId targetId', j ≠ i → Promoted calls (s.commit i reply) j id targetId →
      ¬Promoted calls (s.commit i reply) i id targetId' := by
    intro j id targetId targetId' hne hj hpromoted
    obtain ⟨r, hr, hid, -, hstatus⟩ := (hmoves id targetId' hpromoted).pending
    obtain ⟨x, hx, -, -, hinbox⟩ := h.listed j id targetId (hothers j id targetId hj hne)
    exact unlisted h.drafts hr hstatus hx (hinbox.trans (congrArg some hid.symm))
  refine ⟨promotedOnce_commit hs h.drafts hp, ?_, ?_⟩
  · intro j id targetId hj
    by_cases hne : j = i
    · subst hne
      obtain ⟨x, hid, huser, hinbox, hledger⟩ := (hmoves id targetId hj).ledger
      exact ⟨x, hledger ▸ List.mem_append_right _ (List.mem_singleton_self x), hid, huser, hinbox⟩
    · obtain ⟨x, hx, hid, huser, hinbox⟩ := h.listed j id targetId (hothers j id targetId hj hne)
      obtain ⟨x', hx', hkey, hchain⟩ := hdescends.kept .transactions x hx
      obtain ⟨hnewer, hinbox'⟩ := heir_of_chain (fun _ _ => heir_of_updates) hchain
      exact ⟨x', hx', hkey.trans hid, hnewer.user.trans huser, hinbox'.trans hinbox⟩
  · intro j k id targetId targetId' hj hk
    by_cases hji : j = i
    · subst hji
      by_cases hkj : k = j
      · exact hkj.symm
      · exact absurd hj (hlone k id targetId' targetId hkj hk)
    · by_cases hki : k = i
      · subst hki
        exact absurd hk (hlone j id targetId targetId' hji hj)
      · exact h.alone j k id targetId targetId' (hothers j id targetId hj hji)
          (hothers k id targetId' hk hki)

variable [Fintype ι]

/-- However promotions, dismissals, updates and every other request interleave,
killed and sent again or not: a draft comes into the ledger once, the draft of a
ledger row is closed for good, and of the parties that promote one draft only one
does it. -/
theorem promoted_once (db : Db) (h : PromotedOnce db) (calls : ι → Call)
    (events : List (Event ι)) :
    PromotionsSettled calls ((State.start db fun i => (calls i).handle).run events) := by
  have hs := sound_start db fun i => (calls i).handle
  have hstart : PromotionsSettled calls (State.start db fun i => (calls i).handle) := by
    refine ⟨h, ?_, ?_⟩
    · rintro i id targetId ⟨-, b, hphase⟩
      cases hphase
    · rintro i j id targetId targetId' ⟨-, b, hphase⟩
      cases hphase
  have hmove : ∀ (s : Race ι) i p phase l', Sound (fun i => (calls i).handle) s →
      PromotionsSettled calls s → (s.party i).phase = .running p → Moves s i p phase l' →
      PromotionsSettled calls (s.set i phase l') := by
    intro s i p phase l' _ h _ hm
    have hsame : ∀ j id targetId, Promoted calls (s.set i phase l') j id targetId →
        Promoted calls s j id targetId := by
      rintro j id targetId ⟨hrequest, b, hphase⟩
      by_cases hne : j = i
      · subst hne
        rw [State.party_set_self] at hphase
        exact absurd hphase (hm.uncommitted _)
      · rw [State.party_set_ne _ _ _ hne] at hphase
        exact ⟨hrequest, b, hphase⟩
    exact ⟨h.drafts, fun j id targetId hj => h.listed j id targetId (hsame j id targetId hj),
      fun j k id targetId targetId' hj hk => h.alone j k id targetId targetId'
        (hsame j id targetId hj) (hsame k id targetId' hk)⟩
  have hcommit : ∀ (s : Race ι) i reply, Sound (fun i => (calls i).handle) s →
      PromotionsSettled calls s → True → (s.party i).phase = .running (.ret reply) →
      ((calls i).handle).Runs .init (.ok reply) (s.party i).loc →
      PromotionsSettled calls (s.commit i reply) :=
    fun s i reply hs h _ hp _ => h.commit hs hp
  exact (State.run_invariant hmove hcommit hs hstart (State.along_true _ events)).2

theorem promotedOnce_run {db : Db} (h : PromotedOnce db) (calls : ι → Call)
    (events : List (Event ι)) :
    PromotedOnce ((State.start db fun i => (calls i).handle).run events).db := by
  have hcommit : ∀ (s : Race ι) i reply, Sound (fun i => (calls i).handle) s →
      PromotedOnce s.db → True → (s.party i).phase = .running (.ret reply) →
      ((calls i).handle).Runs .init (.ok reply) (s.party i).loc →
      PromotedOnce (s.commit i reply).db :=
    fun s i reply hs h _ hp _ => promotedOnce_commit hs h hp
  exact (State.run_invariant (fun _ _ _ _ _ _ h _ _ => h) hcommit (sound_start db _) h
    (State.along_true _ events)).2

end Runs

/-- The tables that races leave, one after the other. -/
inductive Reached (db₀ : Db) : Db → Prop
  | start : Reached db₀ db₀
  | race {ι : Type} [Fintype ι] [DecidableEq ι] {db : Db} (calls : ι → Call)
      (events : List (Event ι)) (h : Reached db₀ db) :
    Reached db₀ ((State.start db fun i => (calls i).handle).run events).db

/-- From a fresh database on, the drafts and the ledger agree between any two
races. -/
theorem reached_promotedOnce {db₀ db : Db} (hfresh : Fresh db₀) (h : Reached db₀ db) :
    PromotedOnce db := by
  induction h with
  | start => exact hfresh.promotedOnce
  | race calls events _ ih => exact promotedOnce_run ih calls events

end Promotions

namespace Ascii

/-- Two promotions of the ride, under two ids. -/
def rides (i : Fin 2) : Call := callAt (10 + i.val) (.promoteInboxItem 61 (70 + i.val))

/-- Both begin before the first one commits; the second waits for the draft. -/
def rideRace : List (Event (Fin 2)) :=
  (List.replicate 3 (List.finRange 2)).flatten.map Event.act ++
    (List.finRange 2).flatMap fun i => List.replicate 20 (Event.act i)

def isFresh : Phase Row Label AppError Reply → Bool
  | .committed (.fresh _) => true
  | _ => false

end Ascii

open Ascii in
/-- The ride comes into the ledger under the first id, and the second promotion
does not do it again. -/
theorem promoted_once_ride :
    let s := (State.start (run blank ride) fun i => (rides i).handle).run rideRace
    (∃ x ∈ s.db.rows .transactions, x.id = 70 ∧ x.inboxId = some 61) ∧
      ¬Promoted rides s ⟨1, by decide⟩ 61 71 := by
  intro s
  have hpending : PromotedOnce (run blank ride) :=
    promotedOnce_of_pending (by decide +kernel) (by decide +kernel)
  have hsettled := promoted_once (run blank ride) hpending rides rideRace
  have hfresh : isFresh (s.party ⟨0, by decide⟩).phase = true := by decide +kernel
  have hride : Promoted rides s ⟨0, by decide⟩ 61 70 := by
    refine ⟨rfl, ?_⟩
    generalize (s.party ⟨0, by decide⟩).phase = phase at hfresh
    unfold isFresh at hfresh
    split at hfresh
    · exact ⟨_, rfl⟩
    · cases hfresh
  obtain ⟨x, hx, hid, -, hinbox⟩ := hsettled.listed _ 61 70 hride
  refine ⟨⟨x, hx, hid, hinbox⟩, fun hagain => ?_⟩
  cases hsettled.alone _ _ 61 70 71 hride hagain

end ExpenseEngine
