import ExpenseEngine.Tenancy.Territory

/-!
# The helpers of the services keep to their user

Every helper names the user in its conditions, or an id that it has found among
the user's rows. What it finds is the user's, and what it writes fits the user's
territory.

Results:
1. `confined_fetchRow`, `confined_updateRow`, `confined_mutateWithAudit`: the
   statements.
2. `confined_syncHashtags`, `confined_ensureSystemCategory`: the writes of more
   than one table.
-/

namespace ExpenseEngine

open Sql Sql.Prog TenantLemmas

/-- What a request draws from outside lies in the territory of its user. -/
structure Env.Draws [Platform] (env : Env) (W : Territory) (u : Uuid) : Prop where
  uuid : ∀ n, W.ids u (env.uuid n)
  storeUuid : W.ids u env.storeUuid
  token : W.hashes u (hashPat (patPrefix ++ env.token))

/-- The owner of a row of `t` is its `user_id`, and its territory depends on no
other owned column than `id`. -/
class TenantTable (t : Tbl) [OwnedTable t] : Prop where
  owner : ∀ r : Row t, ownerOf t r = some (OwnedTable.resource r).userId
  resource_map : ∀ f (r : Row t), OwnedTable.resource (OwnedTable.mapResource f r) =
    f (OwnedTable.resource r)
  fits_map : ∀ (W : Territory) u f (r : Row t), (∀ x, (f x).id = x.id) → W.fits u t r →
    W.fits u t (OwnedTable.mapResource f r)
  id : ∀ (W : Territory) u (r : Row t), W.fits u t r → W.ids u (OwnedTable.resource r).id

instance : TenantTable .bankAccounts where
  owner _ := rfl
  resource_map _ _ := rfl
  fits_map W u _ _ hf h := (congrArg (W.ids u) (hf _)).mpr h
  id _ _ _ h := h

instance : TenantTable .categories where
  owner _ := rfl
  resource_map _ _ := rfl
  fits_map W u _ _ hf h := (congrArg (W.ids u) (hf _)).mpr h
  id _ _ _ h := h

instance : TenantTable .hashtags where
  owner _ := rfl
  resource_map _ _ := rfl
  fits_map W u _ _ hf h := (congrArg (W.ids u) (hf _)).mpr h
  id _ _ _ h := h

instance : TenantTable .reconciliations where
  owner _ := rfl
  resource_map _ _ := rfl
  fits_map W u _ _ hf h := ⟨(congrArg (W.ids u) (hf _)).mpr h.1, h.2⟩
  id _ _ _ h := h.1

instance : TenantTable .transactionInbox where
  owner _ := rfl
  resource_map _ _ := rfl
  fits_map W u _ _ hf h := ⟨(congrArg (W.ids u) (hf _)).mpr h.1, h.2⟩
  id _ _ _ h := h.1

instance : TenantTable .transactions where
  owner _ := rfl
  resource_map _ _ := rfl
  fits_map W u _ _ hf h := ⟨(congrArg (W.ids u) (hf _)).mpr h.1, h.2⟩
  id _ _ _ h := h.1

section Statements

variable [Platform] {W : Territory} {env : Env} {userId : Uuid}

namespace TenantStatements

/-! ## Rows -/

omit [Platform] in
theorem owner_of_owns {t : Tbl} [OwnedTable t] [TenantTable t] {id : Uuid} {s : RowState}
    {r : Row t} (h : owns t id userId s r = true) : ownerOf t r = some userId := by
  rw [owns, Bool.and_eq_true, decide_eq_true_eq] at h
  rw [TenantTable.owner, h.1.2]

omit [Platform] in
theorem id_of_owned {t : Tbl} [OwnedTable t] [TenantTable t] {r : Row t}
    (h : W.tenancy.Owned userId t r) : W.ids userId (OwnedTable.resource r).id :=
  TenantTable.id W userId r h.2

omit [Platform] in
/-- The id a request names is of the user's territory when a row of the user has it. -/
theorem id_of_found {t : Tbl} [OwnedTable t] [TenantTable t] {id : Uuid} {s : RowState} {r : Row t}
    (h : owns t id userId s r = true ∧ W.tenancy.Owned userId t r) : W.ids userId id := by
  obtain ⟨howns, hr⟩ := h
  rw [owns, Bool.and_eq_true, decide_eq_true_eq] at howns
  rw [← howns.1.1]
  exact id_of_owned hr

omit [Platform] in
theorem owned_map {t : Tbl} [OwnedTable t] [TenantTable t] {f : Resource → Resource} {r : Row t}
    (hf : ∀ x, (f x).id = x.id ∧ (f x).userId = x.userId) (h : W.tenancy.Owned userId t r) :
    W.tenancy.Owned userId t (OwnedTable.mapResource f r) := by
  refine ⟨?_, TenantTable.fits_map W userId f r (fun x => (hf x).1) h.2⟩
  show ownerOf t _ = _
  rw [TenantTable.owner, TenantTable.resource_map, (hf _).2, ← TenantTable.owner]
  exact h.1

theorem owned_bumped {t : Tbl} [OwnedTable t] [TenantTable t] {now : Timestamp}
    {c : Change Row t} {r : Row t} (h : W.tenancy.Owned userId t (c.apply r)) :
    W.tenancy.Owned userId t ((bumped t now c).apply r) :=
  owned_map (fun _ => ⟨rfl, rfl⟩) h

theorem owned_marked {t : Tbl} [OwnedTable t] [TenantTable t] {now : Timestamp}
    {d : Option Timestamp} {r : Row t} (h : W.tenancy.Owned userId t r) :
    W.tenancy.Owned userId t ((marked t now d).apply r) :=
  owned_map (fun _ => ⟨rfl, rfl⟩) h

/-! ## Reads -/

theorem owned_of_mem {db : Db} (hdb : W.tenancy.Partitioned db) {t : Tbl} {r : Row t}
    (hr : r ∈ db.rows t) (howner : ownerOf t r = some userId) : W.tenancy.Owned userId t r :=
  ⟨howner, hdb t r hr userId howner⟩

theorem confined_fetch {l : Label} {t : Tbl} {w : Row t → Bool}
    (hw : ∀ r, w r = true → ownerOf t r = some userId) :
    (fetch l t w).Confined W.tenancy userId
      fun rs => ∀ r ∈ rs, w r = true ∧ W.tenancy.Owned userId t r := by
  refine confined_read (fun db db' h => h.filter_eq (skips_of_owner hw)) fun db hdb r hr => ?_
  obtain ⟨hr, hwr⟩ := List.mem_filter.mp hr
  exact ⟨hwr, owned_of_mem hdb hr (hw r hwr)⟩

theorem confined_fetchRow {l : Label} {t : Tbl} {w : Row t → Bool}
    (hw : ∀ r, w r = true → ownerOf t r = some userId) :
    (fetchRow l t w).Confined W.tenancy userId
      fun o => ∀ r, o = some r → w r = true ∧ W.tenancy.Owned userId t r := by
  refine confined_read (fun db db' h => h.find?_eq (skips_of_owner hw)) fun db hdb r hr => ?_
  have hwr := List.find?_some hr
  exact ⟨hwr, owned_of_mem hdb (List.mem_of_find?_eq_some hr) (hw r hwr)⟩

theorem confined_fetchRowForUpdate {t : Tbl} {w : Row t → Bool}
    (hw : ∀ r, w r = true → ownerOf t r = some userId) :
    (fetchRowForUpdate t w).Confined W.tenancy userId
      fun o => ∀ r, o = some r → w r = true ∧ W.tenancy.Owned userId t r := by
  refine confined_bind (confined_selectForUpdate W.lawful hw) fun rs hrs => ?_
  exact confined_pure fun r hr => hrs r (List.mem_of_head? hr)

/-- The row, or the error of the caller. -/
theorem confined_found {α : Type} {o : Option α} {e : AppError} {φ : α → Prop}
    (h : ∀ a, o = some a → φ a) : (orRaise o e : Op α).Confined W.tenancy userId φ :=
  confined_orRaise.mono h

section Owned

variable {t : Tbl} [OwnedTable t] [TenantTable t] {id : Uuid} {resource : String} {s : RowState}

theorem confined_fetchOwnedRowOr404 :
    (fetchOwnedRowOr404 t id userId resource s).Confined W.tenancy userId
      fun r => owns t id userId s r = true ∧ W.tenancy.Owned userId t r :=
  confined_bind (confined_fetchRow fun _ => owner_of_owns) fun _ ho => confined_found ho

theorem confined_lockOwnedRowOr404 :
    (lockOwnedRowOr404 t id userId resource s).Confined W.tenancy userId
      fun r => owns t id userId s r = true ∧ W.tenancy.Owned userId t r :=
  confined_bind (confined_fetchRowForUpdate fun _ => owner_of_owns) fun _ ho => confined_found ho

end Owned

/-! ## Writes -/

theorem confined_updateRow {t : Tbl} {w : Row t → Bool} {f : Change Row t}
    (hw : ∀ r, w r = true → ownerOf t r = some userId)
    (hf : ∀ r, w r = true → W.tenancy.Owned userId t r → W.tenancy.Owned userId t (f.apply r)) :
    (updateRow t w f).Confined W.tenancy userId
      fun o => ∀ r, o = some r → W.tenancy.Owned userId t r := by
  refine confined_bind (confined_updateWhere W.lawful hw hf) fun rs hrs => ?_
  exact confined_pure fun r hr => hrs r (List.mem_of_head? hr)

theorem confined_writeActivityLog (henv : env.Draws W userId) {n : Nat} {resourceType : String}
    {resourceId : Uuid} {action : ActivityAction} {before after : Option Body} :
    (writeActivityLog env (env.uuid n) userId resourceType resourceId action before
      after).Confined W.tenancy userId fun _ => True :=
  confined_insertOrAbort ⟨rfl, henv.uuid n, rfl⟩

section Audit

variable {t : Tbl} [OwnedTable t] [TenantTable t] {id : Uuid} {resourceType : String}
  {row : Row t} {before : Body} {serialize : Row t → Op Body} {action : ActivityAction}

theorem confined_dynamicUpdate {fields : Change Row t}
    (hf : ∀ r, W.tenancy.Owned userId t r → W.tenancy.Owned userId t (fields.apply r)) :
    (dynamicUpdate env t fields id userId).Confined W.tenancy userId
      fun o => ∀ r, o = some r → W.tenancy.Owned userId t r :=
  confined_updateRow (fun _ => owner_of_owns) fun r _ hr => owned_bumped (hf r hr)

theorem confined_softDelete :
    (softDelete env t id userId).Confined W.tenancy userId
      fun o => ∀ r, o = some r → W.tenancy.Owned userId t r :=
  confined_updateRow (fun _ => owner_of_owns) fun _ _ hr => owned_marked hr

theorem confined_restore :
    (restore env t id userId).Confined W.tenancy userId
      fun o => ∀ r, o = some r → W.tenancy.Owned userId t r :=
  confined_updateRow (fun _ => owner_of_owns) fun _ _ hr => owned_marked hr

omit [TenantTable t] in
theorem confined_mutateWithAudit (henv : env.Draws W userId)
    {mutate : Uuid → Uuid → Op (Option (Row t))}
    (hser : ∀ r, W.tenancy.Owned userId t r →
      (serialize r).Confined W.tenancy userId fun _ => True)
    (hmutate : ∀ id, (mutate id userId).Confined W.tenancy userId
      fun o => ∀ r, o = some r → W.tenancy.Owned userId t r) :
    (mutateWithAudit env userId t resourceType row before serialize mutate action).Confined
      W.tenancy userId fun _ => True := by
  refine confined_bind (hmutate _) fun o ho => ?_
  refine confined_bind (confined_found ho) fun r hr => ?_
  refine confined_bind (hser r hr) fun after _ => ?_
  exact confined_bind (confined_writeActivityLog henv) fun _ _ => trivial

theorem confined_softDeleteWithAudit (henv : env.Draws W userId)
    (hser : ∀ r, W.tenancy.Owned userId t r →
      (serialize r).Confined W.tenancy userId fun _ => True) :
    (softDeleteWithAudit env userId t resourceType row before serialize).Confined W.tenancy
      userId fun _ => True :=
  confined_mutateWithAudit henv hser fun _ => confined_softDelete

theorem confined_restoreWithAudit (henv : env.Draws W userId)
    (hser : ∀ r, W.tenancy.Owned userId t r →
      (serialize r).Confined W.tenancy userId fun _ => True) :
    (restoreWithAudit env userId t resourceType row before serialize).Confined W.tenancy
      userId fun _ => True :=
  confined_mutateWithAudit henv hser fun _ => confined_restore

end Audit

/-! ## Checks without a database -/

theorem confined_any {α : Type} {p : Op α} {φ : α → Prop} (h : p.Confined W.tenancy userId φ) :
    p.Confined W.tenancy userId fun _ => True :=
  h.mono fun _ _ => trivial

theorem confined_normalizeName {name : Text} {field : String} :
    (normalizeName name field).Confined W.tenancy userId fun _ => True :=
  confined_any confined_orRaise

theorem confined_check {c : Prop} [Decidable c] {e : AppError} :
    (raiseIf c e : Op Unit).Confined W.tenancy userId fun _ => True :=
  confined_any confined_raiseIf

theorem confined_liftExcept {α : Type} {e : Except AppError α} :
    (liftExcept e).Confined W.tenancy userId fun _ => True := by
  cases e <;> trivial

theorem confined_dbNow : (dbNow env).Confined W.tenancy userId fun _ => True := trivial

theorem confined_validateTimezone {value : Text} {field : String} :
    (validateTimezone value field).Confined W.tenancy userId fun _ => True :=
  confined_bind confined_check fun _ _ => confined_check

/-! ## References -/

omit [Platform] in
theorem owner_of_activeAccount {r : Row .bankAccounts} (h : isActiveAccount userId r = true) :
    ownerOf .bankAccounts r = some userId :=
  congrArg some (of_decide_eq_true h).1

omit [Platform] in
theorem owner_of_activeCategory {r : Row .categories} (h : isActiveCategory userId r = true) :
    ownerOf .categories r = some userId :=
  congrArg some (of_decide_eq_true h).1

theorem confined_activeAccountRow {a : Uuid} :
    (activeAccountRow a userId).Confined W.tenancy userId fun o => o.isSome → W.ids userId a := by
  refine (confined_fetchRow fun r h => ?_).mono fun o ho hsome => ?_
  · exact owner_of_activeAccount (Bool.and_eq_true_iff.mp h).2
  · obtain ⟨r, rfl⟩ := Option.isSome_iff_exists.mp hsome
    obtain ⟨hw, howned⟩ := ho r rfl
    rw [← of_decide_eq_true (Bool.and_eq_true_iff.mp hw).1]
    exact howned.2

theorem confined_activeCategoryRow {c : Uuid} :
    (activeCategoryRow c userId).Confined W.tenancy userId fun o => o.isSome → W.ids userId c := by
  refine (confined_fetchRow fun r h => ?_).mono fun o ho hsome => ?_
  · exact owner_of_activeCategory (Bool.and_eq_true_iff.mp h).2
  · obtain ⟨r, rfl⟩ := Option.isSome_iff_exists.mp hsome
    obtain ⟨hw, howned⟩ := ho r rfl
    rw [← of_decide_eq_true (Bool.and_eq_true_iff.mp hw).1]
    exact howned.2

theorem confined_validateActiveAccount {a : Uuid} :
    (validateActiveAccount a userId).Confined W.tenancy userId fun _ => W.ids userId a :=
  confined_bind confined_activeAccountRow fun _ ho =>
    confined_found fun _ h => ho (Option.isSome_of_eq_some h)

theorem confined_validateActiveCategory {c : Uuid} :
    (validateActiveCategory c userId).Confined W.tenancy userId fun _ => W.ids userId c :=
  confined_bind confined_activeCategoryRow fun _ ho =>
    confined_found fun _ h => ho (Option.isSome_of_eq_some h)

theorem confined_activeAccountIds {ids : List Uuid} :
    (activeAccountIds ids userId).Confined W.tenancy userId fun as => ∀ a ∈ as, W.ids userId a := by
  unfold activeAccountIds
  split
  · exact confined_pure (by simp)
  · refine confined_bind (confined_fetch fun r h => ?_) fun rs hrs => confined_pure fun a ha => ?_
    · exact owner_of_activeAccount (Bool.and_eq_true_iff.mp h).2
    · obtain ⟨r, hr, rfl⟩ := List.mem_map.mp ha
      exact (hrs r hr).2.2

theorem confined_activeCategoryIds {ids : List Uuid} :
    (activeCategoryIds ids userId).Confined W.tenancy userId
      fun cs => ∀ c ∈ cs, W.ids userId c.1 := by
  unfold activeCategoryIds
  split
  · exact confined_pure (by simp)
  · refine confined_bind (confined_fetch fun r h => ?_) fun rs hrs => confined_pure fun a ha => ?_
    · exact owner_of_activeCategory (Bool.and_eq_true_iff.mp h).2
    · obtain ⟨r, hr, rfl⟩ := List.mem_map.mp ha
      exact (hrs r hr).2.2

theorem confined_validateNewAccount {a : Option Uuid} :
    (validateNewAccount userId a).Confined W.tenancy userId
      fun _ => ∀ i, a = some i → W.ids userId i := by
  cases a with
  | none => exact nofun
  | some a =>
    refine confined_bind confined_validateActiveAccount fun _ ha => confined_pure ?_
    rintro _ ⟨⟩
    exact ha

theorem confined_validateDraftCategory {c : Option Uuid} :
    (validateDraftCategory userId c).Confined W.tenancy userId
      fun _ => ∀ i, c = some i → W.ids userId i := by
  cases c with
  | none => exact nofun
  | some c =>
    refine confined_bind confined_validateActiveCategory fun _ hc => confined_pure ?_
    rintro _ ⟨⟩
    exact hc

theorem confined_validateNewCategory {c : Option Uuid} :
    (validateNewCategory userId c).Confined W.tenancy userId
      fun _ => ∀ i, c = some i → W.ids userId i := by
  cases c with
  | none => exact nofun
  | some c =>
    refine confined_bind confined_validateActiveCategory fun _ hc => ?_
    refine Confined.mono (φ := fun _ => True) confined_check fun _ _ => ?_
    rintro _ ⟨⟩
    exact hc

/-! ## Links -/

/-- The links of one's own transaction or draft are one's own. -/
theorem hashtagIdsOf_alike {db db' : Db} (h : W.tenancy.Alike userId db db') {parentId : Uuid}
    {source : TransactionSource} (hp : W.ids userId parentId) :
    hashtagIdsOf db' parentId source = hashtagIdsOf db parentId source := by
  rw [hashtagIdsOf, hashtagIdsOf, h.filter_eq]
  intro v l hv hl
  refine decide_eq_false fun hlive => hv (W.ids_apart hp ?_)
  rw [← hlive.1]
  exact hl.2.1

theorem confined_fetchHashtagIds {parentId : Uuid} {source : TransactionSource}
    (hp : W.ids userId parentId) :
    (fetchHashtagIds parentId source).Confined W.tenancy userId fun _ => True :=
  confined_read (fun _ _ h => hashtagIdsOf_alike h hp) fun _ _ => trivial

theorem confined_attachHashtagIds {row : Row .transactions} (hrow : W.ids userId row.id) :
    (attachHashtagIds row).Confined W.tenancy userId fun _ => True :=
  confined_bind (confined_fetchHashtagIds hrow) fun _ _ => trivial

theorem confined_attachInboxHashtagIds {row : Row .transactionInbox}
    (hrow : W.ids userId row.id) :
    (attachInboxHashtagIds row).Confined W.tenancy userId fun _ => True :=
  confined_bind (confined_fetchHashtagIds hrow) fun _ _ => trivial

section Cascades

variable {parentId : Uuid} {source : TransactionSource} {ids : List Uuid}

theorem confined_cascadeDelete :
    (cascadeDelete env userId parentId source ids).Confined W.tenancy userId fun _ => True := by
  refine confined_bind (confined_updateWhere W.lawful (fun r h => ?_) fun r _ hr => hr)
    fun _ _ => trivial
  exact congrArg some (of_decide_eq_true h).2.2.1

theorem confined_cascadeRestore {marker : Option Timestamp} :
    (cascadeRestore env userId parentId source marker).Confined W.tenancy userId
      fun _ => True := by
  refine confined_bind (confined_updateWhere W.lawful (fun r h => ?_) fun r _ hr => hr)
    fun _ _ => trivial
  exact congrArg some (of_decide_eq_true h).2.2.1

theorem confined_fetchValidHashtags :
    (fetchValidHashtags userId ids).Confined W.tenancy userId
      fun xs => ∀ x ∈ xs, W.ids userId x := by
  refine confined_bind (confined_fetch fun r h => ?_) fun rs hrs => confined_pure fun x hx => ?_
  · exact congrArg some (of_decide_eq_true h).2.1
  · obtain ⟨r, hr, rfl⟩ := List.mem_map.mp hx
    exact (hrs r hr).2.2

theorem confined_syncHashtags (hp : W.ids userId parentId) :
    (syncHashtags env parentId userId ids source).Confined W.tenancy userId fun _ => True := by
  unfold syncHashtags
  split
  · exact confined_cascadeDelete
  · refine confined_bind confined_fetchValidHashtags fun validIds hvalid => ?_
    refine confined_bind confined_raiseIf fun _ hinvalid => ?_
    refine confined_bind confined_cascadeDelete fun _ _ => ?_
    refine confined_upsertEach W.lawful (fun r hr => ?_) fun r hr => hr
    obtain ⟨x, hx, rfl⟩ := List.mem_map.mp hr
    refine ⟨rfl, hp, hvalid x ?_⟩
    by_contra hx'
    refine hinvalid ?_
    rw [Bool.not_eq_true', List.isEmpty_eq_false_iff]
    exact List.ne_nil_of_mem (List.mem_filter.mpr ⟨hx, decide_eq_true hx'⟩)

theorem confined_syncIfAny (hp : W.ids userId parentId) :
    (syncIfAny env parentId userId ids source).Confined W.tenancy userId fun _ => True := by
  unfold syncIfAny
  split
  · trivial
  · exact confined_syncHashtags hp

theorem confined_syncIfGiven {given : Option (List Uuid)} (hp : W.ids userId parentId) :
    (syncIfGiven env parentId userId given source).Confined W.tenancy userId fun _ => True := by
  unfold syncIfGiven
  split
  · trivial
  · exact confined_syncHashtags hp

end Cascades

/-! ## Names, slots and system categories -/

section Named

variable {t : Tbl} [NamedTable t] [TenantTable t] {scope : Row t → Bool}

theorem confined_nameTaken {name : Text} {exclude : Option Uuid} :
    (nameTaken t userId name exclude scope).Confined W.tenancy userId fun _ => True := by
  refine confined_read (fun db db' h => h.any_eq (skips_of_owner fun r hr => ?_)) fun _ _ => trivial
  rw [Bool.and_eq_true, decide_eq_true_eq] at hr
  show ownerOf t r = _
  rw [TenantTable.owner, hr.1.1]

theorem confined_nextSortOrder :
    (nextSortOrder t userId scope).Confined W.tenancy userId fun _ => True := by
  refine confined_bind (φ := fun _ => True) ?_ fun slots _ => ?_
  · refine confined_read (fun db db' h => congrArg _ (h.filter_eq (skips_of_owner fun r hr => ?_)))
      fun _ _ => trivial
    rw [Bool.and_eq_true, decide_eq_true_eq] at hr
    show ownerOf t r = _
    rw [TenantTable.owner, hr.1]
  · split
    · trivial
    · split <;> trivial

theorem confined_slotOrNext {slot : Option Int} :
    (slotOrNext t userId scope slot).Confined W.tenancy userId fun _ => True := by
  cases slot with
  | none => exact confined_nextSortOrder
  | some n => trivial

theorem confined_updateNamedResource (henv : env.Draws W userId) {resourceType : String}
    {resourceId : Uuid} {isEmpty : Bool} {rename color : Option Text}
    {set : Option Text → Change Row t} {serialize : Row t → Body}
    {checkName : Row t → Text → Op Unit}
    (hset : ∀ name r, W.tenancy.Owned userId t r → W.tenancy.Owned userId t ((set name).apply r))
    (hcheck : ∀ r n, (checkName r n).Confined W.tenancy userId fun _ => True) :
    (updateNamedResource env userId t resourceType resourceId isEmpty rename color set serialize
      checkName).Confined W.tenancy userId fun _ => True := by
  unfold updateNamedResource
  refine confined_bind confined_fetchOwnedRowOr404 fun beforeRow _ => ?_
  split
  · trivial
  · refine confined_bind confined_check fun _ _ => ?_
    refine confined_bind (φ := fun _ => True) ?_ fun name _ => ?_
    · unfold updateNamedResource.normalizeRename
      split
      · trivial
      · refine confined_bind confined_normalizeName fun name _ => ?_
        refine confined_bind (hcheck _ _) fun _ _ => ?_
        refine confined_bind confined_nameTaken fun _ _ => ?_
        exact confined_bind confined_check fun _ _ => trivial
    · refine confined_bind (confined_dynamicUpdate (hset name)) fun o ho => ?_
      refine confined_bind (confined_found ho) fun afterRow _ => ?_
      exact confined_bind (confined_writeActivityLog henv) fun _ _ => trivial

end Named

omit [Platform] in
theorem owner_of_isSystemCategory {key : SystemCategoryKey} {r : Row .categories}
    (h : isSystemCategory userId key r = true) : ownerOf .categories r = some userId :=
  congrArg some (of_decide_eq_true h).1

theorem confined_ensureSystemCategory (henv : env.Draws W userId) {key : SystemCategoryKey} :
    (ensureSystemCategory env userId key).Confined W.tenancy userId (W.ids userId) := by
  have hfind : ∀ o : Option (Row .categories), (∀ r, o = some r →
      isSystemCategory userId key r = true ∧ W.tenancy.Owned userId .categories r) →
      ∀ r, o = some r → W.ids userId r.id := fun o ho r hr => (ho r hr).2.2
  refine confined_bind (confined_fetchRow fun _ => owner_of_isSystemCategory) fun o ho => ?_
  cases o with
  | some row => exact confined_pure (hfind _ ho row rfl)
  | none =>
    refine confined_bind (confined_insertOrSkip ⟨rfl, henv.uuid 1⟩
      fun _ => owner_of_isSystemCategory) fun outcome _ => ?_
    cases outcome with
    | inserted => exact confined_pure (henv.uuid 1)
    | violation => trivial
    | skipped =>
      refine confined_bind (confined_fetchRow fun _ => owner_of_isSystemCategory) fun o ho => ?_
      exact confined_bind (confined_found (hfind o ho)) fun row hrow => confined_pure hrow

end TenantStatements

end Statements

end ExpenseEngine
