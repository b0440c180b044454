import ExpenseEngine.Invariants.Drafts

/-!
# The slot of a new row

A create without a slot takes the one after the last slot of its section, which
counts deleted rows. Slots are `integer`s and clients may name any of them, so
the last one can be taken; the next create without a slot then fails.

Results:
1. `appends_iff`: in every reachable state, a create that is accepted with some
   slot is accepted without one, and appends, exactly when its section does not
   hold the last slot.
2. `last_slot_taken`: an account named to the last slot keeps the next one out.
-/

namespace ExpenseEngine

open Sql Sql.Prog

section Slots

variable [Platform]

/-! ## Sections -/

/-- The slots of the user's rows in `scope`, deleted ones included. -/
def sectionSlots (db : Db) (t : Tbl) [NamedTable t] (userId : Uuid) (scope : Row t → Bool) :
    List Int :=
  ((db.rows t).filter fun r => decide ((OwnedTable.resource r).userId = userId) && scope r).map
    NamedTable.sortOrder

/-- The slot comes after all of a section, and is the first one of an empty
section. -/
def Appends (slots : List Int) (slot : Int) : Prop :=
  (slots = [] → slot = 0) ∧ ∀ s ∈ slots, s < slot

/-- The largest `integer`. -/
def lastSlot : Int := 2 ^ 31 - 1

/-- A create, but for its slot. -/
inductive NewRow where
  | category (body : CategoryCreateRequest)
  | hashtag (body : HashtagCreateRequest)
  | account (body : AccountCreateRequest)
  | person (body : AccountCreateRequest)

namespace NewRow

def request : NewRow → Option Int → Request
  | .category body, slot => .createCategory { body with sortOrder := slot }
  | .hashtag body, slot => .createHashtag { body with sortOrder := slot }
  | .account body, slot => .createAccount { body with sortOrder := slot }
  | .person body, slot => .createPerson { body with sortOrder := slot }

/-- The slots of the section the row goes to. -/
def slots (db : Db) (userId : Uuid) : NewRow → List Int
  | .category _ => sectionSlots db .categories userId anyRow
  | .hashtag _ => sectionSlots db .hashtags userId anyRow
  | .account _ => sectionSlots db .bankAccounts userId fun a => decide (a.isPerson = false)
  | .person _ => sectionSlots db .bankAccounts userId fun a => decide (a.isPerson = true)

/-- The slot the row is stored in. -/
def slotIn (db : Db) : NewRow → Option Int
  | .category body => ((db .categories).find? body.id).map NamedTable.sortOrder
  | .hashtag body => ((db .hashtags).find? body.id).map NamedTable.sortOrder
  | .account body | .person body => ((db .bankAccounts).find? body.id).map NamedTable.sortOrder

end NewRow

/-! ## From the slot on -/

/-- What the creates do once the other fields are checked. -/
def storeInSlot (t : Tbl) [NamedTable t] (userId : Uuid) (scope : Row t → Bool) (row : Int → Row t)
    (taken : AppError) (rest : Int → Op Body) (slot : Option Int) : Op Body := do
  let n ← slotOrNext t userId scope slot
  let o ← insertRow t (row n)
  raiseIf (o ≠ .inserted) taken
  rest n

/-- The rows differ in their slot only. -/
structure Slotted (t : Tbl) [NamedTable t] (row : Int → Row t) : Prop where
  key : ∀ m n, Schema.key t (row m) = Schema.key t (row n)
  clash : ∀ x m n, Schema.clash t x (row m) = Schema.clash t x (row n)
  refs : ∀ (rows : (t : Tbl) → List (Row t)) m n,
    Schema.refs rows t (row m) = Schema.refs rows t (row n)
  checks : ∀ {m n}, inInt4 m = true → Schema.checks t (row n) = true →
    Schema.checks t (row m) = true
  sortOrder : ∀ n, NamedTable.sortOrder (row n) = n

namespace SortOrderLemmas

variable {db db₁ : Db} {env : Env} {userId : Uuid}

omit [Platform] in
theorem inInt4_iff {n : Int} : inInt4 n = true ↔ -2 ^ 31 ≤ n ∧ n ≤ lastSlot := by
  rw [inInt4, decide_eq_true_iff, lastSlot]
  omega

section Store

variable {t : Tbl} [NamedTable t] {scope : Row t → Bool} {row : Int → Row t} {taken : AppError}
  {rest : Int → Op Body}

theorem inserts_slot (hrow : Slotted t row) {m n : Int} (hm : inInt4 m = true)
    (h : Inserts db t (row n)) : Inserts db t (row m) := by
  have hsame : (db t).rows.any (fun x =>
      decide (Schema.key t x = Schema.key t (row m)) || Schema.clash t x (row m)) =
      (db t).rows.any fun x =>
        decide (Schema.key t x = Schema.key t (row n)) || Schema.clash t x (row n) := by
    simp only [hrow.key m n, hrow.clash _ m n]
  have hchecks : Schema.checks t (row n) = true := (constraints_of_inserted h).1
  unfold Inserts Db.tryInsert at h ⊢
  rw [if_pos hchecks] at h
  rwa [if_pos (hrow.checks hm hchecks), hsame, hrow.refs _ m n]

/-- The slot after all of a section, unless the last one is taken. -/
def slotAfter (slots : List Int) : Op Int :=
  match slots.max? with
  | none => pure 0
  | some m => if inInt4 (m + 1) then pure (m + 1) else .fail .database

theorem nextSortOrder_eq : nextSortOrder t userId scope =
    (read .other fun db => sectionSlots db t userId scope) >>= slotAfter := rfl

/-- The slot that is handed out, when there is one. -/
theorem exec_nextSortOrder (hint : ∀ s ∈ sectionSlots db t userId scope, inInt4 s = true)
    (hroom : lastSlot ∉ sectionSlots db t userId scope) :
    ∃ m, exec (nextSortOrder t userId scope) db = .ok (m, db) ∧ inInt4 m = true ∧
      Appends (sectionSlots db t userId scope) m := by
  rw [nextSortOrder_eq, exec_bind_of_ok (exec_read ..), slotAfter]
  cases hmax : (sectionSlots db t userId scope).max? with
  | none =>
    have hnil := List.max?_eq_none_iff.mp hmax
    exact ⟨0, rfl, rfl, fun _ => rfl, by rw [hnil]; exact List.forall_mem_nil _⟩
  | some last =>
    obtain ⟨hmem, hle⟩ := List.max?_eq_some_iff.mp hmax
    have hlast := inInt4_iff.mp (hint last hmem)
    have hne : last ≠ lastSlot := fun h => hroom (h ▸ hmem)
    have hnext : inInt4 (last + 1) = true := inInt4_iff.mpr (by omega)
    refine ⟨last + 1, ?_, hnext, fun hnil => ?_, fun s hs => ?_⟩
    · dsimp only
      rw [if_pos hnext, exec_pure]
    · rw [hnil] at hmem
      cases hmem
    · exact Int.lt_add_one_of_le (hle s hs)

theorem exec_nextSortOrder_full (hint : ∀ s ∈ sectionSlots db t userId scope, inInt4 s = true)
    (hfull : lastSlot ∈ sectionSlots db t userId scope) :
    exec (nextSortOrder t userId scope) db = .error .database := by
  have hmax : (sectionSlots db t userId scope).max? = some lastSlot :=
    List.max?_eq_some_iff.mpr ⟨hfull, fun s hs => (inInt4_iff.mp (hint s hs)).2⟩
  rw [nextSortOrder_eq, exec_bind_of_ok (exec_read ..), slotAfter, hmax]
  rfl

theorem exec_storeInSlot_ok {slot : Option Int} {b : Body}
    (h : exec (storeInSlot t userId scope row taken rest slot) db = .ok (b, db₁)) :
    ∃ n, exec (slotOrNext t userId scope slot) db = .ok (n, db) ∧ Inserts db t (row n) ∧
      exec (rest n) (db.put t (row n)) = .ok (b, db₁) := by
  simp only [storeInSlot, exec_bind_ok, exec_insertRow_ok, exec_raiseIf_ok, ne_eq, not_not] at h
  obtain ⟨n, _, hslot, o, _, ⟨hins, rfl⟩, _, _, ⟨rfl, rfl⟩, hrest⟩ := h
  obtain rfl := exec_slotOrNext hslot
  exact ⟨n, hslot, hins, hrest⟩

theorem exec_storeInSlot_of {slot : Option Int} {n : Int}
    (hslot : exec (slotOrNext t userId scope slot) db = .ok (n, db))
    (hins : Inserts db t (row n)) :
    exec (storeInSlot t userId scope row taken rest slot) db =
      exec (rest n) (db.put t (row n)) := by
  rw [storeInSlot, exec_bind_of_ok hslot,
    exec_bind_of_ok (exec_insertRow_ok.mpr ⟨hins, (if_pos rfl).symm⟩),
    exec_bind_of_ok (exec_raiseIf_ok (u := ()).mpr ⟨by simp, rfl⟩)]

/-- `rest` does the same for every slot, and leaves the new row alone. -/
def SlotBlind (t : Tbl) [NamedTable t] (db : Db) (row : Int → Row t) (rest : Int → Op Body) :
    Prop :=
  ∀ m n b db₁, exec (rest n) (db.put t (row n)) = .ok (b, db₁) →
    ∃ b' db', exec (rest m) (db.put t (row m)) = .ok (b', db') ∧ db' t = db.put t (row m) t

/-- A create that is accepted with the slot `n` is accepted without one exactly
when the section has room. -/
theorem storeInSlot_iff (hrow : Slotted t row) (hblind : SlotBlind t db row rest)
    (hint : ∀ s ∈ sectionSlots db t userId scope, inInt4 s = true) {n : Int} {b : Body}
    (h : exec (storeInSlot t userId scope row taken rest (some n)) db = .ok (b, db₁)) :
    (∃ b' db' slot, exec (storeInSlot t userId scope row taken rest none) db = .ok (b', db') ∧
        ((db' t).find? (Schema.key t (row n))).map NamedTable.sortOrder = some slot ∧
        Appends (sectionSlots db t userId scope) slot) ↔
      lastSlot ∉ sectionSlots db t userId scope := by
  obtain ⟨k, -, hins, hrest⟩ := exec_storeInSlot_ok h
  constructor
  · rintro ⟨b', db', slot, hnone, -, -⟩ hfull
    obtain ⟨m, hslot, -, -⟩ := exec_storeInSlot_ok hnone
    rw [slotOrNext, exec_nextSortOrder_full hint hfull] at hslot
    cases hslot
  · intro hroom
    obtain ⟨m, hslot, hm, happends⟩ := exec_nextSortOrder hint hroom
    obtain ⟨b', db', hrun, hkept⟩ := hblind m k b db₁ hrest
    refine ⟨b', db', m, ?_, ?_, happends⟩
    · have hnext : exec (slotOrNext t userId scope none) db = .ok (m, db) := hslot
      rw [exec_storeInSlot_of hnext (inserts_slot hrow hm hins), hrun]
    · rw [hkept, hrow.key n m, Db.put_same, Table.find?_put_self, Option.map_some, hrow.sortOrder]

end Store

/-! ## The four creates -/

theorem slotted_category {body : CategoryCreateRequest} {name : Text} :
    Slotted .categories fun n => newCategoryRow env userId body name n where
  key _ _ := rfl
  clash _ _ _ := rfl
  refs _ _ _ := rfl
  checks hm h := by
    simp only [Schema.checks, checksOf, newCategoryRow, Bool.and_eq_true] at h ⊢
    exact ⟨⟨h.1.1, hm⟩, h.2⟩
  sortOrder _ := rfl

theorem slotted_hashtag {body : HashtagCreateRequest} {name : Text} :
    Slotted .hashtags fun n => newHashtagRow env userId body name n where
  key _ _ := rfl
  clash _ _ _ := rfl
  refs _ _ _ := rfl
  checks hm h := by
    simp only [Schema.checks, checksOf, newHashtagRow, Bool.and_eq_true] at h ⊢
    exact ⟨hm, h.2⟩
  sortOrder _ := rfl

theorem slotted_account {body : AccountCreateRequest} {isPerson : Bool} {name : Text} :
    Slotted .bankAccounts fun n => newAccountRow env userId body isPerson name n where
  key _ _ := rfl
  clash _ _ _ := rfl
  refs _ _ _ := rfl
  checks hm h := by
    simp only [Schema.checks, checksOf, newAccountRow, Bool.and_eq_true] at h ⊢
    exact ⟨⟨h.1.1, hm⟩, h.2⟩
  sortOrder _ := rfl

/-- The entry of the log is accepted whatever it shows, and whatever row was
stored before it. -/
theorem exec_log_of_log {t : Tbl} (hlog : t ≠ .activityLog) (husers : t ≠ .users) {r : Row t}
    {logId rid : Uuid} {type : String} {action : ActivityAction} {before after : Option Body}
    {u : Unit} (r' : Row t) (rid' : Uuid) (before' after' : Option Body)
    (h : exec (writeActivityLog env logId userId type rid action before after) (db.put t r) =
      .ok (u, db₁)) :
    ∃ db', exec (writeActivityLog env logId userId type rid' action before' after')
        (db.put t r') = .ok ((), db') ∧ db' t = db.put t r' t := by
  have hins := (exec_insertOrAbort_ok.mp h).1
  refine ⟨_, exec_insertOrAbort_ok.mpr ⟨?_, rfl⟩, Db.put_ne _ _ hlog⟩
  rw [← hins]
  simp only [Db.tryInsert, Schema.checks, checksOf, Schema.clash, clashOf, Schema.key, keyOf,
    Schema.refs, refsOf, Db.put_ne _ _ hlog.symm, Db.rows_put_ne _ _ husers.symm, Bool.or_false]
  rfl

/-- The home value of an account does not depend on the rows of its table. -/
theorem exec_home_of_home {r r' : Row .bankAccounts} {currencyCode : Text} {cents : Int}
    {home : Option Int}
    (h : exec (fetchHomeBalance env userId currencyCode cents) (db.put .bankAccounts r) =
      .ok (home, db₁)) :
    exec (fetchHomeBalance env userId currencyCode cents) (db.put .bankAccounts r') =
      .ok (home, db.put .bankAccounts r') := by
  have hsettings : (db.put .bankAccounts r).rows .userSettings =
      (db.put .bankAccounts r').rows .userSettings := by
    rw [Db.rows_put_ne _ _ (by decide), Db.rows_put_ne _ _ (by decide)]
  have hrates : (db.put .bankAccounts r).rows .exchangeRates =
      (db.put .bankAccounts r').rows .exchangeRates := by
    rw [Db.rows_put_ne _ _ (by decide), Db.rows_put_ne _ _ (by decide)]
  have hfromDb : ∀ source target asOf, rateFromDb (db.put .bankAccounts r) source target asOf =
      rateFromDb (db.put .bankAccounts r') source target asOf := by
    intro source target asOf
    simp only [rateFromDb, storedRate, hrates]
  simp only [fetchHomeBalance, getUserReportSettings, exec_bind_ok, exec_fetchRow_ok,
    exec_orRaise_ok, exec_raiseIf_ok, exec_pure_ok, hsettings] at h ⊢
  obtain ⟨row, _, ⟨_, _, ⟨rfl, rfl⟩, _, _, ⟨hrow, rfl⟩, _, _, ⟨hmain, rfl⟩, rfl, rfl⟩, rate, _,
    hrate, hhome⟩ := h
  refine ⟨_, _, ⟨_, _, ⟨rfl, rfl⟩, _, _, ⟨hrow, rfl⟩, (), _, ⟨hmain, rfl⟩, rfl, rfl⟩, rate,
    db.put .bankAccounts r', ?_, ?_⟩
  · unfold getRate at hrate ⊢
    dsimp only at hrate ⊢
    split at hrate
    · exact exec_pure_ok.mpr ⟨(exec_pure_ok.mp hrate).1, rfl⟩
    · simp only [orSignal, exec_bind_ok, exec_read_ok, exec_orRaise_ok] at hrate ⊢
      obtain ⟨_, _, ⟨rfl, rfl⟩, hresult, rfl⟩ := hrate
      exact ⟨_, _, ⟨rfl, rfl⟩, hfromDb _ _ _ ▸ hresult, rfl⟩
  · cases rate with
    | none => exact exec_pure_ok.mpr ⟨(exec_pure_ok.mp hhome).1, rfl⟩
    | some _ =>
      simp only [convertBalance, Option.map_some, orSignal, exec_bind_ok, exec_orRaise_ok,
        exec_pure_ok] at hhome ⊢
      obtain ⟨_, _, ⟨hcents, rfl⟩, rfl, rfl⟩ := hhome
      exact ⟨_, _, ⟨hcents, rfl⟩, rfl, rfl⟩

/-- What a create checks before it takes a slot, and the name it stores. -/
def categoryName (userId : Uuid) (body : CategoryCreateRequest) : Op Text := do
  let name ← normalizeName body.name "name"
  rejectReservedName name
  validateColor (some body.color)
  raiseIf ((← nameTaken .categories userId name none anyRow) = true)
    (conflict ("A category named " ++ quoted name ++ " already exists."))
  return name

def hashtagName (userId : Uuid) (body : HashtagCreateRequest) : Op Text := do
  let name ← normalizeName body.name "name"
  raiseIf ((← nameTaken .hashtags userId name none anyRow) = true)
    (conflict ("A hashtag named " ++ quoted name ++ " already exists."))
  return name

def accountName (userId : Uuid) (body : AccountCreateRequest) : Op Text := do
  let name ← normalizeName body.name "name"
  validateColor body.color
  match currencyCodeError body.currencyCode with
  | some message => raise (validationError "Invalid currency code." [("currency_code", message)])
  | none =>
    raiseIf ((← nameTaken .bankAccounts userId name none
        fun r => decide (r.currencyCode = body.currencyCode)) = true)
      (conflict ("An account named " ++ quoted name ++ " with currency " ++
        quoted body.currencyCode ++ " already exists."))
    return name

/-- The entry of the log, and the answer. -/
def logCreated (env : Env) (userId : Uuid) (type : String) (id : Uuid) (b : Body) : Op Body := do
  writeActivityLog env (env.uuid 0) userId type id .created none (some b)
  return b

theorem createCategory_eq (body : CategoryCreateRequest) (slot : Option Int) :
    createCategory env userId { body with sortOrder := slot } =
      categoryName userId body >>= fun name =>
        storeInSlot .categories userId anyRow (newCategoryRow env userId body name)
          (conflict ("A category with id '" ++ uuidStr body.id ++ "' already exists."))
          (fun n => logCreated env userId "category" body.id
            (categoryFromRow (newCategoryRow env userId body name n))) slot := by
  simp only [createCategory, categoryName, storeInSlot, logCreated, LawfulMonad.bind_assoc,
    pure_bind]
  rfl

theorem createHashtag_eq (body : HashtagCreateRequest) (slot : Option Int) :
    createHashtag env userId { body with sortOrder := slot } =
      hashtagName userId body >>= fun name =>
        storeInSlot .hashtags userId anyRow (newHashtagRow env userId body name)
          (conflict ("A hashtag with id '" ++ uuidStr body.id ++ "' already exists."))
          (fun n => logCreated env userId "hashtag" body.id
            (.hashtag (newHashtagRow env userId body name n))) slot := by
  simp only [createHashtag, hashtagName, storeInSlot, logCreated, LawfulMonad.bind_assoc, pure_bind]
  rfl

theorem createAccount_eq (body : AccountCreateRequest) (isPerson : Bool) (slot : Option Int) :
    createAccount env userId { body with sortOrder := slot } isPerson =
      accountName userId body >>= fun name =>
        storeInSlot .bankAccounts userId (fun r => decide (r.isPerson = isPerson))
          (newAccountRow env userId body isPerson name)
          (conflict ("An account with id '" ++ uuidStr body.id ++ "' already exists."))
          (fun n => fetchHomeBalance env userId body.currencyCode 0 >>= fun home =>
            logCreated env userId "account" body.id
              (accountFromRow (newAccountRow env userId body isPerson name n) 0 home)) slot := by
  simp only [createAccount, accountName, storeInSlot, logCreated, LawfulMonad.bind_assoc]
  cases currencyCodeError body.currencyCode with
  | none =>
    simp only [LawfulMonad.bind_assoc, pure_bind]
    rfl
  | some message => rfl

theorem readOnly_categoryName {body : CategoryCreateRequest} :
    (categoryName userId body).WritesOnly fun _ => False := by
  refine WritesOnly.bind (writesOnly_orRaise _ _) fun _ => ?_
  refine WritesOnly.bind (writesOnly_raiseIf _ _) fun _ => ?_
  refine WritesOnly.bind (writesOnly_raiseIf _ _) fun _ => ?_
  refine WritesOnly.bind (writesOnly_read _ _) fun _ => ?_
  exact WritesOnly.bind (writesOnly_raiseIf _ _) fun _ => trivial

theorem readOnly_hashtagName {body : HashtagCreateRequest} :
    (hashtagName userId body).WritesOnly fun _ => False := by
  refine WritesOnly.bind (writesOnly_orRaise _ _) fun _ => ?_
  refine WritesOnly.bind (writesOnly_read _ _) fun _ => ?_
  exact WritesOnly.bind (writesOnly_raiseIf _ _) fun _ => trivial

theorem readOnly_accountName {body : AccountCreateRequest} :
    (accountName userId body).WritesOnly fun _ => False := by
  refine WritesOnly.bind (writesOnly_orRaise _ _) fun _ => ?_
  refine WritesOnly.bind (writesOnly_raiseIf _ _) fun _ => ?_
  split
  · trivial
  · refine WritesOnly.bind (writesOnly_read _ _) fun _ => ?_
    exact WritesOnly.bind (writesOnly_raiseIf _ _) fun _ => trivial

/-- A create is its checks, followed by the part that needs a slot. -/
theorem named_iff {t : Tbl} [NamedTable t] {scope : Row t → Bool} {p : Op Text}
    (hp : p.WritesOnly fun _ => False) {row : Text → Int → Row t} {taken : AppError}
    {rest : Text → Int → Op Body} {key : Schema.Key Row t} (hrow : ∀ name, Slotted t (row name))
    (hkey : ∀ name n, Schema.key t (row name n) = key)
    (hblind : ∀ name, SlotBlind t db (row name) (rest name))
    (hint : ∀ s ∈ sectionSlots db t userId scope, inInt4 s = true) {n : Int} {b : Body}
    (h : exec (p >>= fun name =>
      storeInSlot t userId scope (row name) taken (rest name) (some n)) db = .ok (b, db₁)) :
    (∃ b' db' slot, exec (p >>= fun name =>
          storeInSlot t userId scope (row name) taken (rest name) none) db = .ok (b', db') ∧
        ((db' t).find? key).map NamedTable.sortOrder = some slot ∧
        Appends (sectionSlots db t userId scope) slot) ↔
      lastSlot ∉ sectionSlots db t userId scope := by
  obtain ⟨name, _, hname, hstore⟩ := exec_bind_ok.mp h
  obtain rfl := exec_readOnly hp hname
  rw [exec_bind_of_ok hname, ← hkey name n]
  exact storeInSlot_iff (hrow name) (hblind name) hint hstore

theorem blind_log {t : Tbl} [NamedTable t] (hlog : t ≠ .activityLog) (husers : t ≠ .users)
    {row : Int → Row t} {type : String} {id : Uuid} (body : Int → Body) :
    SlotBlind t db row fun n => logCreated env userId type id (body n) := by
  intro m n b db₁ h
  simp only [logCreated, exec_bind_ok, exec_pure_ok] at h
  obtain ⟨_, _, h, -, rfl⟩ := h
  obtain ⟨db', hrun, hkept⟩ := exec_log_of_log hlog husers (row m) id none (some (body m)) h
  exact ⟨body m, db', exec_bind_of_ok hrun, hkept⟩

theorem blind_account {row : Int → Row .bankAccounts} {currencyCode : Text} {id : Uuid}
    {body : Int → Option Int → Body} :
    SlotBlind .bankAccounts db row fun n =>
      fetchHomeBalance env userId currencyCode 0 >>= fun home =>
        logCreated env userId "account" id (body n home) := by
  intro m n b db₁ h
  obtain ⟨home, db₂, hhome, h⟩ := exec_bind_ok.mp h
  obtain rfl := exec_readOnly writesOnly_fetchHomeBalance hhome
  obtain ⟨b', db', hrun, hkept⟩ := blind_log (by decide) (by decide) (fun n => body n home) m n b
    db₁ h
  refine ⟨b', db', ?_, hkept⟩
  rw [exec_bind_of_ok (exec_home_of_home hhome), hrun]

theorem inInt4_of_mem_slots {t : Tbl} [NamedTable t] {scope : Row t → Bool}
    (hchecks : ∀ r : Row t, Schema.checks t r = true → inInt4 (NamedTable.sortOrder r) = true)
    (hdb : Constrained t db) : ∀ s ∈ sectionSlots db t userId scope, inInt4 s = true := by
  intro s hs
  obtain ⟨r, hr, rfl⟩ := List.mem_map.mp hs
  exact hchecks r (hdb r (List.mem_filter.mp hr).1).1

omit [Platform] in
theorem inInt4_of_check {a b c : Bool} (h : (a && b && c) = true) : b = true := by
  rw [Bool.and_eq_true, Bool.and_eq_true] at h
  exact h.1.2

theorem constrained_of_empty {t : Tbl} (h : db.rows t = []) : Constrained t db := by
  intro r hr
  rw [h] at hr
  cases hr

end SortOrderLemmas

open SortOrderLemmas

/-- In every reachable state, a create that some slot is accepted for is
accepted without a slot, and appends, exactly when its section does not hold the
last slot. -/
theorem appends_iff {db₀ : Db} (hfresh : Fresh db₀) (calls : List Call) {env : Env} {userId : Uuid}
    (new : NewRow) {n : Int} {b : Body} {db₁ : Db}
    (h : exec ((new.request (some n)).work env userId) (run db₀ calls) = .ok (b, db₁)) :
    (∃ b' db' slot, exec ((new.request none).work env userId) (run db₀ calls) = .ok (b', db') ∧
        new.slotIn db' = some slot ∧ Appends (new.slots (run db₀ calls) userId) slot) ↔
      lastSlot ∉ new.slots (run db₀ calls) userId := by
  have haccounts : Constrained .bankAccounts (run db₀ calls) :=
    constrained_run (constrained_of_empty hfresh.bankAccounts) calls
  cases new with
  | category body =>
    have hrows := constrained_run (constrained_of_empty hfresh.categories) calls
    simp only [NewRow.request, Request.work, createCategory_eq] at h ⊢
    exact named_iff readOnly_categoryName (fun _ => slotted_category) (fun _ _ => rfl)
      (fun _ => blind_log (by decide) (by decide) _)
      (inInt4_of_mem_slots (fun _ => inInt4_of_check) hrows) h
  | hashtag body =>
    have hrows := constrained_run (constrained_of_empty hfresh.hashtags) calls
    simp only [NewRow.request, Request.work, createHashtag_eq] at h ⊢
    exact named_iff readOnly_hashtagName (fun _ => slotted_hashtag) (fun _ _ => rfl)
      (fun _ => blind_log (by decide) (by decide) _)
      (inInt4_of_mem_slots (fun _ hc => (Bool.and_eq_true _ _ ▸ hc).1) hrows) h
  | account body =>
    simp only [NewRow.request, Request.work, createAccount_eq] at h ⊢
    exact named_iff readOnly_accountName (fun _ => slotted_account) (fun _ _ => rfl)
      (fun _ => blind_account) (inInt4_of_mem_slots (fun _ => inInt4_of_check) haccounts) h
  | person body =>
    simp only [NewRow.request, Request.work, createAccount_eq] at h ⊢
    exact named_iff readOnly_accountName (fun _ => slotted_account) (fun _ _ => rfl)
      (fun _ => blind_account) (inInt4_of_mem_slots (fun _ => inInt4_of_check) haccounts) h

end Slots

/-! ## The last slot -/

namespace Ascii

/-- An account put in the last slot. -/
def bottom : List Call :=
  setup ++ [callAt 6 (.createAccount ⟨12, "Safe".toList, "PEN".toList, none, some 2147483647⟩)]

/-- One more account. -/
def purse : NewRow := .account ⟨13, "Purse".toList, "PEN".toList, none, none⟩

end Ascii

open Ascii in
theorem appends_iff_purse : ∃ b' db' slot,
    exec ((purse.request none).work (envAt 7) 1) (run blank setup) = .ok (b', db') ∧
      purse.slotIn db' = some slot ∧ Appends (purse.slots (run blank setup) 1) slot := by
  have hok : (exec ((purse.request (some 7)).work (envAt 7) 1) (run blank setup)).isOk = true := by
    decide +kernel
  cases h : exec ((purse.request (some 7)).work (envAt 7) 1) (run blank setup) with
  | error e =>
    rw [h] at hok
    cases hok
  | ok x => exact (appends_iff fresh_blank setup purse h).mpr (by decide +kernel)

open Ascii in
/-- The purse is accepted in the first slot, and refused without a slot. -/
theorem last_slot_taken :
    (exec ((purse.request (some 0)).work (envAt 7) 1) (run blank bottom)).isOk = true ∧
      (exec ((purse.request none).work (envAt 7) 1) (run blank bottom)).isOk = false := by
  decide +kernel

end ExpenseEngine
