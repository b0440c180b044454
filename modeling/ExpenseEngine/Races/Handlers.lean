import ExpenseEngine.Effects.ReadOnly
import ExpenseEngine.Sql.Among
import ExpenseEngine.Sql.Histories

/-!
# Handlers beside other transactions

What one request leaves in its transaction when it returns, whatever others
commit in between: the rows it rewrote are rows it locked, and its log entries
are new. The idempotency layer around the work replays an answer and writes
nothing, or runs the work and writes its key.

Results:
1. `among_handle`: a handler from what its work does.
2. `among_updateRow`, `among_lockOwnedRow`, `among_log`: the statements that
   make the trail of one row.
3. `rewritten_commit`, `entered_commit`: what the commit makes of the tables.
-/

namespace ExpenseEngine

open Sql Sql.Prog

variable [Platform] {env : Env} {userId : Uuid}

abbrev Loc := Sql.Local Row Label

abbrev Race (ι : Type) := Sql.State Row Label AppError Reply ι

/-! ## Assertions -/

/-- Nothing is written or locked yet. -/
def Blank (l : Loc) : Prop := (∀ t, l.own t = []) ∧ ∀ t, l.held t = []

/-- Neither the table nor the log is written yet. -/
def Clean (t : Tbl) (l : Loc) : Prop := l.own t = [] ∧ l.own .activityLog = []

/-- The transaction has the row as it is committed, and has written neither the
table nor the log. -/
def Has (t : Tbl) (r : Row t) (l : Loc) : Prop :=
  Clean t l ∧ l.version t (keyOf t r) = some r

/-- Of the table, the row `r` alone is rewritten, to `r'`. -/
structure Rewrote (t : Tbl) (r r' : Row t) (l : Loc) : Prop where
  held : r ∈ l.held t
  own : l.own t = [r']
  key : keyOf t r' = keyOf t r

/-- The log has the one new entry `e`. -/
structure Entered (e : Row .activityLog) (l : Loc) : Prop where
  own : l.own .activityLog = [e]
  fresh : ∀ x ∈ l.held .activityLog, x.id ≠ e.id

namespace HandlerLemmas

variable {t : Tbl} {W : Tbl → Prop} {α : Type} {Q : α → Loc → Prop} {r r' : Row t}

theorem Blank.clean {l : Loc} (h : Blank l) (t : Tbl) : Clean t l := ⟨h.1 t, h.1 .activityLog⟩

theorem clean_framed (ht : ¬W t) (hlog : ¬W .activityLog) : Among.Framed W (Clean t) :=
  fun _ _ hg h => ⟨(hg.own _ ht).trans h.1, (hg.own _ hlog).trans h.2⟩

theorem clean_reads : Among.Framed (fun _ => False) (Clean t) :=
  clean_framed not_false not_false

theorem has_framed (ht : ¬W t) (hlog : ¬W .activityLog) : Among.Framed W (Has t r) :=
  fun _ _ hg h => ⟨clean_framed ht hlog hg h.1, hg.version _ ht _ _ h.2⟩

theorem has_reads : Among.Framed (fun _ => False) (Has t r) :=
  has_framed not_false not_false

theorem rewrote_framed (ht : ¬W t) : Among.Framed W (Rewrote t r r') :=
  fun _ _ hg h => ⟨(hg.extended.held t).subset h.held, (hg.own _ ht).trans h.own, h.key⟩

theorem logless_framed (hlog : ¬W .activityLog) :
    Among.Framed W fun l : Loc => l.own .activityLog = [] :=
  fun _ _ hg h => (hg.own _ hlog).trans h

theorem entered_framed {e : Row .activityLog} (hlog : ¬W .activityLog) :
    Among.Framed W (Entered e) :=
  fun l _ hg h => ⟨(hg.own _ hlog).trans h.own,
    hg.inserted .activityLog e (by rw [h.own]; exact List.mem_singleton_self e) h.fresh⟩

theorem and_framed {P P' : Loc → Prop} (h : Among.Framed W P) (h' : Among.Framed W P') :
    Among.Framed W fun l => P l ∧ P' l :=
  fun _ _ hg hp => ⟨h hg hp.1, h' hg hp.2⟩

theorem rewrote_reads :
    Among.Framed (fun _ => False) fun l => Rewrote t r r' l ∧ l.own .activityLog = [] :=
  and_framed (rewrote_framed not_false) (logless_framed not_false)

theorem writesOnly_bumpParents [OwnedTable t] {ids : List Uuid}
    (ht : W t) : (bumpParents env t userId ids).WritesOnly W := by
  unfold bumpParents
  split
  · trivial
  · exact WritesOnly.bind (writesOnly_updateWhere ht) fun _ => trivial

end HandlerLemmas

open HandlerLemmas StatementLemmas

/-! ## Statements -/

section Statements

variable {t : Tbl} {α : Type} {Q : α → Loc → Prop}

/-- The row of a transaction that has written neither the table nor the log is
one it has locked. -/
theorem Has.held {r : Row t} {l : Loc} (h : Has t r l) : r ∈ l.held t :=
  Local.version_of_held h.2 (by simp [h.1.1])

/-- What only reads comes before the rest. -/
theorem among_guard {P : Loc → Prop} {β : Type} {p : Op β} {g : β → Op α}
    (hP : Among.Framed (fun _ => False) P) (hp : p.WritesOnly fun _ => False)
    (hg : ∀ a, Among P (g a) Q) : Among P (p >>= g) Q :=
  Among.skip hp hP hg

/-- A row found without a lock has been the user's with the id. -/
theorem among_fetchOwnedRow [OwnedTable t] {P : Loc → Prop} {id : Uuid} {resource : String}
    {s : RowState} {g : Row t → Op α} (hP : Among.Framed (fun _ => False) P)
    (hg : ∀ r, owns t id userId s r = true → Among P (g r) Q) :
    Among P (fetchOwnedRowOr404 t id userId resource s >>= g) Q := by
  intro l a l' hpre h
  obtain ⟨r, l₁, hfetch, h⟩ := runs_bind_ok.mp h
  have hl₁ := hP (hfetch.grows readOnly_fetchOwnedRowOr404) hpre
  obtain ⟨o, l₂, hread, hraise⟩ := runs_bind_ok.mp hfetch
  obtain ⟨db, n, -, rfl, rfl⟩ := runs_read_ok.mp hread
  obtain ⟨ho, rfl⟩ := runs_orRaise_ok.mp hraise
  exact hg r (find?_row ho).2 hl₁ h

theorem among_fetchReconciliation {P : Loc → Prop} {label : Label} {id : Uuid} {s : RowState}
    {e : AppError} {g : ReconciliationResponse → Op α} (hP : Among.Framed (fun _ => False) P)
    (hg : ∀ row, owns .reconciliations id userId s row.toReconciliationRow = true →
      Among P (g row) Q) :
    Among P (fetchReconciliation label userId id s >>= fun o => orRaise o e >>= g) Q := by
  intro l a l' hpre h
  obtain ⟨o, l₁, hfetch, h⟩ := runs_bind_ok.mp h
  have hl₁ := hP (hfetch.grows writesOnly_fetchReconciliation) hpre
  obtain ⟨row, l₂, hraise, h⟩ := runs_bind_ok.mp h
  obtain ⟨rfl, rfl⟩ := runs_orRaise_ok.mp hraise
  obtain ⟨found, l₃, hread, hfound⟩ := runs_bind_ok.mp hfetch
  obtain ⟨db, n, -, rfl, rfl⟩ := runs_read_ok.mp hread
  refine hg row ?_ hl₁ h
  cases hfind : (db.rows .reconciliations).find? (owns .reconciliations id userId s) with
  | none =>
    rw [hfind] at hfound
    cases (runs_pure_ok.mp hfound).1
  | some rec =>
    rw [hfind] at hfound
    simp only [Option.map_some] at hfound
    split at hfound
    · cases (runs_pure_ok.mp hfound).1
      exact (find?_row hfind).2
    · exact absurd hfound.1 (by simp)

theorem among_lockOwnedRow [OwnedTable t] {id : Uuid} {resource : String} {s : RowState}
    {g : Row t → Op α} (hg : ∀ r, owns t id userId s r = true → Among (Has t r) (g r) Q) :
    Among (Clean t) (lockOwnedRowOr404 t id userId resource s >>= g) Q := by
  simp only [lockOwnedRowOr404, fetchRowForUpdate, LawfulMonad.bind_assoc, pure_bind]
  refine (Among.selectForUpdate (Q := fun rs l => Clean t l ∧
    ∀ r ∈ rs, owns t id userId s r = true ∧ l.version t (keyOf t r) = some r) ?_).bind
      fun rs => ?_
  · intro l l' rs hclean hgrows hrs
    exact ⟨clean_framed (by simp) (by simp) hgrows hclean, hrs⟩
  · refine Among.orRaise.bind fun r l a l' hpre h => ?_
    obtain ⟨⟨hclean, hrs⟩, hr⟩ := hpre
    obtain ⟨howns, hversion⟩ := hrs r (List.mem_of_head? hr)
    exact hg r howns ⟨hclean, hversion⟩ h

/-- An UPDATE of one row, and the error when there is none. -/
theorem among_updateRow {w : Row t → Bool} {f : Change Row t} {key : Key t} {e : AppError}
    {g : Row t → Op α} (ht : t ≠ .activityLog) (hw : ∀ r, w r = true → keyOf t r = key)
    (hg : ∀ r, w r = true → Among (fun l => Rewrote t r (f.apply r) l ∧ l.own .activityLog = [])
      (g (f.apply r)) Q) :
    Among (Clean t) (updateRow t w f >>= fun o => orRaise o e >>= g) Q := by
  simp only [updateRow, LawfulMonad.bind_assoc, pure_bind]
  refine (Among.updateWhere hw (Q := fun rs l => ∀ x ∈ rs, ∃ r, x = f.apply r ∧ w r = true ∧
    Rewrote t r (f.apply r) l ∧ l.own .activityLog = []) ?_ ?_).bind fun rs => ?_
  · simp
  · intro l l' r hclean hgrows hwr hown hversion hold
    have hlog : l'.own .activityLog = [] := (hgrows.own _ ht.symm).trans hclean.2
    have hheld : r ∈ l'.held t := by
      rcases hold with hold | ⟨-, hold⟩
      · have hr : r ∈ l.held t := Local.version_of_held hold (by simp [hclean.1])
        exact (hgrows.extended.held t).subset hr
      · exact hold
    simp only [List.mem_singleton, forall_eq]
    exact ⟨r, rfl, hwr, ⟨hheld, by rw [hown, hclean.1]; rfl, f.key_apply r⟩, hlog⟩
  · refine Among.orRaise.bind fun x l a l' hpre h => ?_
    obtain ⟨r, rfl, hwr, hrewrote⟩ := hpre.1 x (List.mem_of_head? hpre.2)
    exact hg r hwr hrewrote h

/-- Of the table, the transaction has rewritten rows that it has locked. -/
def RewroteEach (t : Tbl) (w : Row t → Bool) (f : Change Row t) (l : Loc) : Prop :=
  ∀ x ∈ l.own t, ∃ r ∈ l.held t, w r = true ∧ x = f.apply r

theorem rewroteEach_framed {W : Tbl → Prop} {w : Row t → Bool} {f : Change Row t} (ht : ¬W t) :
    Among.Framed W (RewroteEach t w f) := by
  intro l l' hg h x hx
  rw [hg.own t ht] at hx
  obtain ⟨r, hr, h⟩ := h x hx
  exact ⟨r, (hg.extended.held t).subset hr, h⟩

/-- An UPDATE of many rows. -/
theorem among_updateRows {label : Label} {w : Row t → Bool} {f : Change Row t}
    {g : List (Row t) → Op α} (ht : t ≠ .activityLog)
    (hg : ∀ rs, Among (fun l => RewroteEach t w f l ∧ l.own .activityLog = []) (g rs) Q) :
    Among (Clean t) (updateWhere label t w f >>= g) Q := by
  intro l a l' hclean h
  obtain ⟨rs, l₁, hupdate, h⟩ := runs_bind_ok.mp h
  have hgrows : l.Grows (· = t) l₁ := hupdate.grows (writesOnly_updateWhere rfl)
  obtain ⟨db, n, -, hown, -, hrs, -⟩ := runs_updateWhere hupdate
  refine hg rs ⟨fun x hx => ?_, (hgrows.own _ ht.symm).trans hclean.2⟩ h
  rw [hown, hclean.1, List.nil_append] at hx
  obtain ⟨r, hw, rfl, -, hold | ⟨-, hold⟩⟩ := hrs x hx
  · have hheld : r ∈ l.held t := Local.version_of_held hold (by simp [hclean.1])
    exact ⟨r, (hgrows.extended.held t).subset hheld, hw, rfl⟩
  · exact ⟨r, hold, hw, rfl⟩

/-- The same for a row that the transaction has: it is that row. -/
theorem among_updateHad {w : Row t → Bool} {f : Change Row t} {r : Row t} {e : AppError}
    {g : Row t → Op α} (ht : t ≠ .activityLog) (hw : ∀ x, w x = true → keyOf t x = keyOf t r)
    (hg : Among (fun l => Rewrote t r (f.apply r) l ∧ l.own .activityLog = [])
      (g (f.apply r)) Q) :
    Among (Has t r) (updateRow t w f >>= fun o => orRaise o e >>= g) Q := by
  simp only [updateRow, LawfulMonad.bind_assoc, pure_bind]
  refine (Among.updateWhere hw (Q := fun rs l => ∀ x ∈ rs, x = f.apply r ∧
    Rewrote t r (f.apply r) l ∧ l.own .activityLog = []) ?_ ?_).bind fun rs => ?_
  · simp
  · intro l l' x hhas hgrows hwx hown hversion hold
    have hlog : l'.own .activityLog = [] := (hgrows.own _ ht.symm).trans hhas.1.2
    have hx : x = r := by
      rcases hold with hold | ⟨hnone, -⟩
      · exact (Option.some.inj (hhas.2.symm.trans hold)).symm
      · exact absurd (hhas.2.symm.trans hnone) (by simp)
    subst hx
    simp only [List.mem_singleton, forall_eq]
    refine ⟨trivial, ⟨(hgrows.extended.held t).subset hhas.held, ?_, f.key_apply x⟩, hlog⟩
    rw [hown, hhas.1.1]
    rfl
  · refine Among.orRaise.bind fun x l a l' hpre h => ?_
    obtain ⟨rfl, hrewrote⟩ := hpre.1 x (List.mem_of_head? hpre.2)
    exact hg hrewrote h

/-- The entry that `write_activity_log` makes. -/
def logEntry (env : Env) (logId userId : Uuid) (resourceType : String) (resourceId : Uuid)
    (action : ActivityAction) (before after : Option Body) : Row .activityLog :=
  ({ id := logId, userId := userId, resourceType := resourceType, resourceId := resourceId
     action := action, beforeSnapshot := before, afterSnapshot := after
     changedBy := userId, createdAt := env.now } : ActivityLogRow)

theorem entered_write {e : Row .activityLog} {l : Loc} (hown : l.own .activityLog = [])
    (hnone : l.version .activityLog (keyOf .activityLog e) = none) :
    Entered e (l.write .activityLog e) := by
  refine ⟨by rw [Local.own_write_same, hown]; rfl, fun x hx hkey => ?_⟩
  have hsome : (l.version .activityLog (keyOf .activityLog x)).isSome :=
    Local.version_isSome (.inr hx)
  rw [show keyOf .activityLog x = keyOf .activityLog e from hkey, hnone] at hsome
  cases hsome

/-- The entry of a transaction that has none yet. -/
theorem among_log {P : Loc → Prop} {logId resourceId : Uuid} {resourceType : String}
    {action : ActivityAction} {before after : Option Body}
    (hP : Among.Framed (· = .activityLog) P) :
    Among (fun l => P l ∧ l.own .activityLog = [])
      (writeActivityLog env logId userId resourceType resourceId action before after)
      fun _ l => P l ∧
        Entered (logEntry env logId userId resourceType resourceId action before after) l := by
  intro l u l' hpre h
  have hwrites : (writeActivityLog env logId userId resourceType resourceId action before
      after).WritesOnly (· = .activityLog) := writesOnly_insertOrAbort rfl
  refine ⟨hP (h.grows hwrites) hpre.1, ?_⟩
  refine Among.insertOrAbort (P := fun l => l.own .activityLog = [])
    (Q := fun _ => Entered
      (logEntry env logId userId resourceType resourceId action before after)) ?_ hpre.2 h
  exact fun l hown hnone => entered_write hown hnone

theorem among_mutateWithAudit [OwnedTable t] {row : Row t} {resourceType : String} {before : Body}
    {serialize : Row t → Op Body} {action : ActivityAction}
    {mutate : Uuid → Uuid → Op (Option (Row t))} {w : Row t → Bool} {f : Change Row t} {key : Key t}
    (ht : t ≠ .activityLog) (hmutate : mutate (OwnedTable.resource row).id userId = updateRow t w f)
    (hw : ∀ r, w r = true → keyOf t r = key)
    (hser : ∀ r, (serialize r).WritesOnly fun _ => False) :
    Among (Clean t)
      (mutateWithAudit env userId t resourceType row before serialize mutate action)
      fun _ l => ∃ r after, w r = true ∧ Rewrote t r (f.apply r) l ∧
        Entered (logEntry env (env.uuid 0) userId resourceType (OwnedTable.resource row).id action
          (some before) (some after)) l := by
  simp only [mutateWithAudit, hmutate]
  refine among_updateRow ht hw fun r hwr => ?_
  refine Among.skip (hser _) (and_framed (rewrote_framed id) (logless_framed id)) fun after => ?_
  refine (among_log (rewrote_framed ht)).bind fun _ => Among.pure fun l h => ?_
  exact ⟨r, after, hwr, h.1, h.2⟩

/-- An audited mutation of another table. -/
theorem among_auditOther {P : Loc → Prop} [OwnedTable t] {row : Row t} {resourceType : String}
    {before : Body} {serialize : Row t → Op Body} {action : ActivityAction}
    {mutate : Uuid → Uuid → Op (Option (Row t))} (ht : t ≠ .activityLog)
    (hP : ∀ W : Tbl → Prop, (∀ t', W t' → t' = t ∨ t' = .activityLog) → Among.Framed W P)
    (hmutate : ∀ i u, (mutate i u).WritesOnly (· = t))
    (hser : ∀ r, (serialize r).WritesOnly fun _ => False) :
    Among (fun l => P l ∧ l.own .activityLog = [])
      (mutateWithAudit env userId t resourceType row before serialize mutate action)
      fun _ l => P l ∧ ∃ logId resourceId before after,
        Entered (logEntry env logId userId resourceType resourceId action before after) l := by
  unfold mutateWithAudit
  have hreads : Among.Framed (fun _ => False) fun l : Loc => P l ∧ l.own .activityLog = [] :=
    and_framed (hP _ nofun) (logless_framed not_false)
  refine Among.skip (hmutate _ _) (and_framed (hP _ fun _ => .inl) (logless_framed ht.symm))
    fun o => ?_
  refine Among.skip (writesOnly_orRaise _ _) hreads fun r => ?_
  refine Among.skip (hser r) hreads fun after => ?_
  exact (among_log (hP _ fun _ => .inr)).bind fun _ => Among.pure fun l h =>
    ⟨h.1, _, _, _, _, h.2⟩

end Statements

/-! ## The idempotency layer -/

theorem readOnly_claim {W : Tbl → Prop} {key fingerprint : Text} :
    (claim userId key fingerprint).WritesOnly W := by
  refine WritesOnly.bind (trivial : WritesOnly W (advisoryLock _ : Op Unit)) fun _ => ?_
  refine WritesOnly.bind readOnly_fetchRow fun found => ?_
  cases found with
  | none => trivial
  | some row =>
    simp only
    split <;> trivial

/-- The lookup of the key writes and locks nothing, and answers with a stored
reply or lets the work begin. -/
theorem among_claim {userId : Uuid} {key fingerprint : Text} :
    Among Blank (claim userId key fingerprint)
      fun o l => Blank l ∧ ∀ reply, o = some reply → ∃ b n, reply = .cached b n := by
  intro l o l' hblank h
  rw [claim, runs_bind_ok] at h
  obtain ⟨_, l₁, hadvise, h⟩ := h
  obtain ⟨-, rfl⟩ := runs_advisoryLock.mp hadvise
  rw [runs_bind_ok] at h
  obtain ⟨found, l₂, hfetch, h⟩ := h
  obtain ⟨db, n, -, -, rfl⟩ := runs_read_ok.mp hfetch
  have hblank' : Blank ((l.advise (lockId userId key)).saw .other db n) := hblank
  cases found with
  | none =>
    obtain ⟨rfl, rfl⟩ := runs_pure_ok.mp h
    exact ⟨hblank', fun _ h => absurd h (by simp)⟩
  | some row =>
    simp only at h
    split at h
    · next reply hreply =>
      obtain ⟨rfl, rfl⟩ := runs_pure_ok.mp h
      refine ⟨hblank', ?_⟩
      rintro _ ⟨⟩
      unfold replay at hreply
      split at hreply
      · cases hreply
      · split at hreply
        · cases hreply
        · next body _ =>
          cases hreply
          exact ⟨body, row.responseStatus, rfl⟩
    · exact absurd h.1 (by simp)

omit [Platform] in
theorem replay_error {row : Row .idempotencyKeys} {fingerprint : Text} {e : AppError}
    (h : replay row fingerprint = .error e) : e = keyReused ∨ e = keyNotReplayable := by
  unfold replay at h
  split at h
  · exact .inl (Except.error.inj h).symm
  · split at h
    · exact .inr (Except.error.inj h).symm
    · cases h

/-- The lookup of the key fails only where the key answers for another request
or has no answer to give. -/
theorem claim_error {userId : Uuid} {key fingerprint : Text} {f : Failure AppError} {l l' : Loc}
    (h : (claim userId key fingerprint).Runs l (.error f) l') :
    f = .raised keyReused ∨ f = .raised keyNotReplayable := by
  rw [claim, runs_bind_error] at h
  obtain h | ⟨_, l₁, -, h⟩ := h
  · exact absurd (runs_advisoryLock.mp h).1 (by simp)
  rw [runs_bind_error] at h
  obtain ⟨db, n, -, h, -⟩ | ⟨found, l₂, -, h⟩ := h
  · cases h
  cases found with
  | none => exact absurd (runs_pure.mp h).1 (by simp)
  | some row =>
    simp only at h
    split at h
    · exact absurd (runs_pure.mp h).1 (by simp)
    · next e he =>
      obtain ⟨⟨⟩, -⟩ := runs_raise.mp h
      exact (replay_error he).imp (congrArg _) (congrArg _)

/-- A fresh answer is that of the work. -/
theorem fresh_reply {D : Body → Loc → Prop} {body : Body} {l : Loc} (h : D body l) :
    (∀ b, Reply.fresh body = .fresh b → D b l) ∧
      ∀ b n, Reply.fresh body = .cached b n → ∀ t, l.own t = [] :=
  ⟨fun _ hb => Reply.fresh.inj hb ▸ h, fun _ _ h => Reply.noConfusion h⟩

/-- What a handler leaves: the trace of its work beside its key, or nothing. -/
theorem among_handle {c : Call} {D : Body → Loc → Prop}
    (hwork : Among Blank (c.request.work c.env c.userId) D)
    (hD : ∀ b, Among.Framed (· = .idempotencyKeys) (D b)) :
    Among (· = .init) c.handle fun reply l =>
      (∀ b, reply = .fresh b → D b l) ∧ ∀ b n, reply = .cached b n → ∀ t, l.own t = [] := by
  unfold Call.handle
  refine Among.bind (Q := fun _ => Blank) ?_ fun _ => ?_
  · intro l u l' hinit h
    subst hinit
    unfold liftExcept at h
    split at h
    · obtain ⟨-, rfl⟩ := runs_pure_ok.mp h
      exact ⟨fun _ => rfl, fun _ => rfl⟩
    · exact absurd h.1 (by simp)
  unfold runIdempotent
  split
  · rw [map_eq_pure_bind]
    exact hwork.bind fun b => Among.pure fun l hD => fresh_reply hD
  · exact Among.raise
  · refine among_claim.bind fun o => Among.assume fun ho => ?_
    cases o with
    | some reply =>
      obtain ⟨b, n, rfl⟩ := ho _ rfl
      exact Among.pure fun l hblank => ⟨fun _ h => Reply.noConfusion h, fun _ _ _ => hblank.1⟩
    | none =>
      refine hwork.bind fun b => ?_
      refine Among.skip (writesOnly_store _ _ _ _ _ _) (hD b) fun _ => ?_
      exact Among.pure fun l hD => fresh_reply hD

/-! ## Commits -/

section Commits

variable {ι : Type} [DecidableEq ι] {progs : ι → Op Reply} {s : Race ι} {i : ι}

/-- A row that is rewritten is the committed one until the commit, and its new
image after it. -/
theorem rewritten_commit (hs : Sound progs s) (hi : (s.party i).isRunning = true) {t : Tbl}
    {r r' : Row t} (h : Rewrote t r r' (s.party i).loc) (a : Reply) :
    (s.db t).find? (keyOf t r) = some r ∧
      ((s.commit i a).db t) = (s.db t).put r' := by
  refine ⟨(hs.anchored i hi).held t r h.held, ?_⟩
  show overlay (s.party i).loc.own s.db t = _
  rw [overlay, h.own]
  rfl

theorem rewritten_find (hs : Sound progs s) (hi : (s.party i).isRunning = true) {t : Tbl}
    {r r' : Row t} (h : Rewrote t r r' (s.party i).loc) (a : Reply) :
    ((s.commit i a).db t).find? (keyOf t r) = some r' := by
  rw [(rewritten_commit hs hi h a).2, ← h.key]
  exact (Table.find?_put _ r' (keyOf t r')).trans (if_pos rfl)

theorem kept_commit {t : Tbl} (h : (s.party i).loc.own t = []) (a : Reply) :
    (s.commit i a).db t = s.db t :=
  overlay_of_nil s.db h

/-- The new entry comes after all that are committed. -/
theorem entered_commit (hs : Sound progs s) (hi : (s.party i).isRunning = true)
    {e : Row .activityLog} (h : Entered e (s.party i).loc) (a : Reply) :
    (s.commit i a).db.rows .activityLog = s.db.rows .activityLog ++ [e] := by
  have hmem : e ∈ (s.party i).loc.own .activityLog := by
    rw [h.own]
    exact List.mem_singleton_self e
  have hnew : (s.db .activityLog).find? (keyOf .activityLog e) = none := by
    rcases (hs.anchored i hi).own .activityLog e hmem with ⟨x, hx, hkey⟩ | hnew
    · exact absurd hkey (h.fresh x hx)
    · exact hnew
  show (overlay (s.party i).loc.own s.db .activityLog).rows = _
  rw [overlay, h.own]
  exact Table.rows_put_of_new hnew

end Commits

end ExpenseEngine
