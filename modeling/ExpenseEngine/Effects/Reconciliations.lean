import ExpenseEngine.Effects.Ledger

/-!
# What the reconciliation services do

Results:
1. `exec_createReconciliation`, `exec_updateReconciliation`.
2. `exec_transitionStatus`: complete and revert.
3. `exec_deleteReconciliation`, `exec_restoreReconciliation`.
-/

namespace ExpenseEngine

open Sql Sql.Prog

variable [Platform] {db db₁ db' : Db} {env : Env} {userId : Uuid}

/-! ## Reading -/

/-- The row a service read is the user's row with the id, in the state asked
for. -/
theorem exec_fetchReconciliation {l : Label} {id : Uuid} {s : RowState}
    {o : Option ReconciliationResponse}
    (h : exec (fetchReconciliation l userId id s) db = .ok (o, db')) :
    db' = db ∧ o = ((db.rows .reconciliations).find? (owns .reconciliations id userId s)).map
      fun rec => { rec with differenceCents := differenceCents db rec } := by
  simp only [fetchReconciliation, exec_bind_ok, exec_read_ok] at h
  obtain ⟨_, db, ⟨rfl, rfl⟩, h⟩ := h
  cases hfind : (db.rows .reconciliations).find? (owns .reconciliations id userId s) with
  | none =>
    simp only [hfind, Option.map_none, exec_pure_ok] at h
    exact ⟨h.2, by simp [h.1]⟩
  | some rec =>
    simp only [hfind, Option.map_some] at h
    split at h
    · simp only [exec_pure_ok] at h
      exact ⟨h.2, by simp [h.1]⟩
    · cases h

theorem exec_fetchReconciliation_some {l : Label} {id : Uuid} {s : RowState}
    {row : ReconciliationResponse}
    (h : exec (fetchReconciliation l userId id s) db = .ok (some row, db')) :
    db' = db ∧ row.toReconciliationRow ∈ db.rows .reconciliations ∧
      owns .reconciliations id userId s row.toReconciliationRow = true ∧
      row.differenceCents = differenceCents db row.toReconciliationRow := by
  obtain ⟨rfl, hrow⟩ := exec_fetchReconciliation h
  obtain ⟨rec, hfind, rfl⟩ := Option.map_eq_some_iff.mp hrow.symm
  obtain ⟨hrec, hw⟩ := find?_row hfind
  exact ⟨rfl, hrec, hw, rfl⟩

/-- `fetchReconciliation` writes nothing. -/
theorem writesOnly_fetchReconciliation {W : Tbl → Prop} {l : Label} {id : Uuid} {s : RowState} :
    (fetchReconciliation l userId id s).WritesOnly W := by
  refine WritesOnly.bind (writesOnly_read _ _) fun found => ?_
  rcases found with _ | ⟨rec, difference, inRange⟩
  · trivial
  · show WritesOnly W (if _ then _ else _)
    split <;> trivial

/-! ## Create and update -/

theorem exec_createReconciliation {body : ReconciliationCreateRequest} {b : Body}
    (h : exec (createReconciliation env userId body) db = .ok (b, db')) :
    (HasActiveAccount db userId body.accountId ∧
      Inserts db .reconciliations (requestedReconciliation env userId body (strip body.name))) ∧
      CoreEq db' (db.put .reconciliations
        (requestedReconciliation env userId body (strip body.name))) := by
  simp only [createReconciliation, exec_bind_ok, exec_normalizeName_ok, exec_insertRow_ok,
    exec_raiseIf_ok, exec_orRaise_ok, exec_pure_ok, ne_eq, not_not] at h
  obtain ⟨_, _, hacc, _, _, ⟨hname, rfl⟩, _, _, ⟨hins, rfl⟩, _, _, ⟨rfl, rfl⟩, _, _, hfetch, _, _,
    ⟨-, rfl⟩, _, _, hlog, -, rfl⟩ := h
  obtain ⟨rfl, hacc⟩ := exec_validateActiveAccount hacc
  obtain rfl := cleanName_some hname
  obtain ⟨rfl, -⟩ := exec_fetchReconciliation hfetch
  obtain ⟨log, rfl⟩ := exec_writeActivityLog hlog
  exact ⟨⟨hacc, hins⟩, .log log⟩

/-- The SET list's fields, once the name is normalized. -/
def ReconciliationFields.normalized (fields : ReconciliationFields) : ReconciliationFields :=
  { fields with name := fields.name.map strip }

theorem exec_normalizeNewName {n n' : Option Text}
    (h : exec (normalizeNewName n) db = .ok (n', db')) : db' = db ∧ n' = n.map strip := by
  unfold normalizeNewName at h
  split at h
  · obtain ⟨rfl, rfl⟩ := exec_pure_ok.mp h
    simp
  · simp only [map_eq_pure_bind, exec_bind_ok, exec_normalizeName_ok, exec_pure_ok] at h
    obtain ⟨_, _, ⟨hname, rfl⟩, rfl, rfl⟩ := h
    exact ⟨rfl, by rw [cleanName_some hname, Option.map_some]⟩

theorem exec_updateReconciliation {reconciliationId : Uuid} {fields : ReconciliationFields}
    {b : Body}
    (h : exec (updateReconciliation env userId reconciliationId fields) db = .ok (b, db')) :
    db' = db ∨ (∃ rec ∈ db.rows .reconciliations, (rec.id = reconciliationId ∧
      rec.userId = userId ∧ rec.deletedAt = none) ∧
        (rec.status = .completed → attemptedFrozen fields = [])) ∧
      CoreEq db' (db.modify .reconciliations (owns .reconciliations reconciliationId userId .active)
        (bumped .reconciliations env.now (setReconciliation fields.normalized))) := by
  unfold updateReconciliation at h
  split at h
  · simp only [exec_bind_ok, exec_orRaise_ok, exec_pure_ok] at h
    obtain ⟨_, _, hfetch, _, _, ⟨-, rfl⟩, -, rfl⟩ := h
    exact .inl (exec_fetchReconciliation hfetch).1
  · rw [exec_bind_ok] at h
    obtain ⟨name, _, hname, h⟩ := h
    obtain ⟨rfl, rfl⟩ := exec_normalizeNewName hname
    simp only [exec_bind_ok, exec_raiseIf_ok, dynamicUpdate, exec_orRaise_ok, exec_pure_ok] at h
    obtain ⟨_, _, hbefore, before, _, ⟨rfl, rfl⟩, _, _, ⟨hfrozen, rfl⟩, _, _, hupd, _, _, ⟨-, rfl⟩,
      _, _, hafter, _, _, ⟨-, rfl⟩, _, _, hlog, -, rfl⟩ := h
    obtain ⟨rfl, hmem, hw, -⟩ := exec_fetchReconciliation_some hbefore
    obtain ⟨-, rfl⟩ := exec_updateRow hupd
    obtain ⟨rfl, -⟩ := exec_fetchReconciliation hafter
    obtain ⟨log, rfl⟩ := exec_writeActivityLog hlog
    refine .inr ⟨⟨_, hmem, owns_active.mp hw, fun hstatus => ?_⟩, .log log⟩
    by_contra hne
    exact hfrozen ⟨hstatus, hne⟩

/-! ## Complete and revert -/

/-- The database after a transition. -/
def Db.transitioned (env : Env) (userId reconciliationId : Uuid) (target : ReconciliationStatus)
    (db : Db) : Db :=
  (db.modify .reconciliations (owns .reconciliations reconciliationId userId .either)
      (bumped .reconciliations env.now (setStatus target))).modify .transactions
    (isMember reconciliationId userId) (bumped .transactions env.now (noChange .transactions))

theorem exec_transitionStatus {reconciliationId : Uuid} {target : ReconciliationStatus}
    {requireAssigned : Bool} {b : Body}
    (h : exec (transitionStatus env userId reconciliationId target requireAssigned) db =
      .ok (b, db')) :
    db' = db ∨ (∃ rec ∈ db.rows .reconciliations, (rec.id = reconciliationId ∧
      rec.userId = userId ∧ rec.deletedAt = none) ∧ rec.status ≠ target) ∧
      (requireAssigned = true → ∃ t ∈ db.rows .transactions,
        isMember reconciliationId userId t = true) ∧
      CoreEq db' (db.transitioned env userId reconciliationId target) := by
  unfold transitionStatus at h
  simp only [exec_bind_ok, exec_orRaise_ok] at h
  obtain ⟨_, _, hrow, row, _, ⟨rfl, rfl⟩, h⟩ := h
  obtain ⟨rfl, hmem, hw, -⟩ := exec_fetchReconciliation_some hrow
  split at h
  · exact .inl (exec_pure_ok.mp h).2
  · next hstatus =>
    simp only [exec_bind_ok, exec_selectForUpdate_ok, exec_raiseIf_ok, exec_orRaise_ok,
      exec_pure_ok] at h
    obtain ⟨_, _, ⟨rfl, rfl⟩, _, _, ⟨hassigned, rfl⟩, _, _, hstat, _, _, hbump, _, _, hafter, _, _,
      ⟨-, rfl⟩, _, _, hlog, -, rfl⟩ := h
    obtain ⟨-, rfl⟩ := exec_updateWhere hstat
    obtain ⟨-, rfl⟩ := exec_updateWhere hbump
    obtain ⟨rfl, -⟩ := exec_fetchReconciliation hafter
    obtain ⟨log, rfl⟩ := exec_writeActivityLog hlog
    refine .inr ⟨⟨_, hmem, owns_active.mp hw, hstatus⟩, fun hreq => ?_, .log log⟩
    obtain ⟨t, ht⟩ := List.exists_mem_of_ne_nil _ fun hnil => hassigned ⟨hreq, hnil⟩
    exact ⟨t, List.mem_filter.mp ht⟩

/-! ## Delete and restore -/

theorem writesOnly_refetchReconciliation {W : Tbl → Prop} {id : Uuid} {s : RowState} :
    (refetchReconciliation userId id s).WritesOnly W :=
  WritesOnly.bind writesOnly_fetchReconciliation fun _ =>
    WritesOnly.bind (writesOnly_orRaise _ _) fun _ => trivial

/-- The database after a delete: the active members leave first. -/
def Db.reconciliationDeleted (env : Env) (userId reconciliationId : Uuid) (db : Db) : Db :=
  (db.modify .transactions (isMember reconciliationId userId)
      (bumped .transactions env.now setUnassigned)).modify .reconciliations
    (owns .reconciliations reconciliationId userId .either)
    (marked .reconciliations env.now (some env.now))

theorem exec_deleteReconciliation {reconciliationId : Uuid} {b : Body}
    (h : exec (deleteReconciliation env userId reconciliationId) db = .ok (b, db')) :
    (∃ rec ∈ db.rows .reconciliations, (rec.id = reconciliationId ∧ rec.userId = userId ∧
      rec.deletedAt = none) ∧ rec.status = .draft) ∧
      CoreEq db' (db.reconciliationDeleted env userId reconciliationId) := by
  unfold deleteReconciliation at h
  simp only [exec_bind_ok, exec_orRaise_ok] at h
  obtain ⟨_, _, hrow, row, _, ⟨rfl, rfl⟩, h⟩ := h
  obtain ⟨rfl, hmem, hw, -⟩ := exec_fetchReconciliation_some hrow
  simp only [exec_raiseIf_ok] at h
  obtain ⟨_, _, ⟨hstatus, rfl⟩, _, _, hunassign, h⟩ := h
  obtain ⟨-, rfl⟩ := exec_updateWhere hunassign
  obtain ⟨log, rfl⟩ :=
    exec_softDeleteWithAudit (fun _ => writesOnly_refetchReconciliation) h
  obtain ⟨hid, hu, hd⟩ := owns_active.mp hw
  refine ⟨⟨_, hmem, ⟨hid, hu, hd⟩, ?_⟩, ?_⟩
  · cases hs : row.status with
    | draft => rfl
    | completed => exact absurd hs hstatus
  · rw [hid]
    exact .log log

theorem exec_restoreReconciliation {reconciliationId : Uuid} {b : Body}
    (h : exec (restoreReconciliation env userId reconciliationId) db = .ok (b, db')) :
    CoreEq db' (db.modify .reconciliations (owns .reconciliations reconciliationId userId .deleted)
      (marked .reconciliations env.now none)) := by
  unfold restoreReconciliation at h
  simp only [exec_bind_ok, exec_orRaise_ok] at h
  obtain ⟨_, _, hrow, row, _, ⟨rfl, rfl⟩, h⟩ := h
  obtain ⟨rfl, hmem, hw, -⟩ := exec_fetchReconciliation_some hrow
  obtain ⟨log, rfl⟩ := exec_restoreWithAudit (fun _ => writesOnly_refetchReconciliation) h
  rw [(owns_deleted.mp hw).1]
  exact .log log

end ExpenseEngine
