import ExpenseEngine.Sql.Isolation

/-!
# Unique indexes over whole runs

A statement writes a row only where no unique index refuses it, and beside
others it waits for every party whose uncommitted rows could refuse it. So rows
that the indexes keep apart stay apart, alone and among other transactions.

Results:
1. `exec_unclashed`: a program run alone.
2. `exclusive_run`: the committed tables and the view of every running party, in
   every reached state.
-/

namespace Sql

variable {T : Type} {Row : T → Type} [Schema Row] {L ε α ι : Type}
  {P : (t : T) → Row t → Prop} {db db' : Db Row}

/-- No two rows of `P` collide on a unique index. -/
def Unclashed (P : (t : T) → Row t → Prop) (db : Db Row) : Prop :=
  ∀ t, ∀ x ∈ db.rows t, ∀ y ∈ db.rows t, P t x → P t y → Schema.key t x ≠ Schema.key t y →
    Schema.clash t x y = false

/-! ## One write -/

theorem unclashed_put [DecidableEq T] (hsymm : ClashSymm Row) (h : Unclashed P db) {t : T}
    {r : Row t}
    (hfree : ∀ x ∈ db.rows t, Schema.key t x ≠ Schema.key t r → Schema.clash t x r = false) :
    Unclashed P (db.put t r) := by
  intro t' x hx y hy hpx hpy hne
  by_cases ht : t' = t
  · subst ht
    rw [Db.rows, Db.put_same] at hx hy
    rcases Table.mem_put.mp hx with hxr | ⟨hxdb, hkx⟩
    · rcases Table.mem_put.mp hy with hyr | ⟨hydb, hky⟩
      · exact absurd (by rw [hxr, hyr]) hne
      · rw [hxr, hsymm]
        exact hfree y hydb hky
    · rcases Table.mem_put.mp hy with hyr | ⟨hydb, hky⟩
      · rw [hyr]
        exact hfree x hxdb hkx
      · exact h t' x hxdb y hydb hpx hpy hne
  · rw [Db.rows_put_ne db r ht] at hx hy
    exact h t' x hx y hy hpx hpy hne

theorem free_of_accepts {t : T} {r : Row t} (h : db.accepts t r = true) :
    ∀ x ∈ db.rows t, Schema.key t x ≠ Schema.key t r → Schema.clash t x r = false := by
  intro x hx hne
  rw [Db.accepts, Bool.and_eq_true, Bool.and_eq_true, List.all_eq_true] at h
  simpa [hne] using h.1.2 x hx

theorem free_of_inserted {t : T} {r : Row t} {skip : Row t → Bool}
    (h : db.tryInsert t r skip = some .inserted) :
    ∀ x ∈ db.rows t, Schema.key t x ≠ Schema.key t r ∧ Schema.clash t x r = false := by
  intro x hx
  simp only [Db.tryInsert] at h
  split at h
  · split at h
    · cases h
    · split at h
      · cases h
      · next hany =>
        rw [Bool.not_eq_true, List.any_eq_false] at hany
        simpa using hany x hx
  · cases h

/-! ## Run alone -/

theorem Prog.exec_unclashed [DecidableEq T] (hsymm : ClashSymm Row) {p : Prog Row L ε α} {a : α}
    (h : exec p db = .ok (a, db')) (hdb : Unclashed P db) : Unclashed P db' := by
  induction p generalizing db with
  | ret b =>
    simp only [exec, Except.ok.injEq, Prod.mk.injEq] at h
    exact h.2 ▸ hdb
  | fail e => cases h
  | select l k ih => exact ih db h hdb
  | lock t key w k ih => exact ih _ h hdb
  | update t key w f k ih =>
    simp only [exec] at h
    split at h
    · exact ih _ h hdb
    · split at h
      · next haccepts => exact ih _ h (unclashed_put hsymm hdb (free_of_accepts haccepts))
      · cases h
  | insert t r skip k ih =>
    simp only [exec] at h
    split at h
    · cases h
    · next hins =>
      exact ih _ h (unclashed_put hsymm hdb fun x hx _ => (free_of_inserted hins x hx).2)
    · exact ih _ h hdb
  | advisory n k ih => exact ih h hdb

/-! ## Beside others -/

theorem Local.view_write [DecidableEq T] (l : Local Row L) (t : T) (r : Row t) (db : Db Row) :
    (l.write t r).view db = (l.view db).put t r := by
  funext t'
  by_cases ht : t' = t
  · subst ht
    rw [Local.view, overlay, Local.own_write_same, List.foldl_append, Db.put_same]
    rfl
  · rw [Local.view, overlay, Local.own_write_ne r ht, Db.put_ne _ _ ht]
    rfl

theorem Local.view_of_own {l l' : Local Row L} (h : l'.own = l.own) (db : Db Row) :
    l'.view db = l.view db := by
  rw [Local.view, Local.view, h]

variable {s : State Row L ε α ι} {i : ι}

/-- The unique indexes hold in the tables and in the view of every running
party, and the rows that two running parties have written do not collide. -/
structure Exclusive (P : (t : T) → Row t → Prop) (s : State Row L ε α ι) : Prop where
  db : Unclashed P s.db
  views : ∀ i, (s.party i).isRunning = true → Unclashed P ((s.party i).loc.view s.db)
  apart : ∀ i j, i ≠ j → (s.party i).isRunning = true → (s.party j).isRunning = true →
    ∀ t, ∀ x ∈ (s.party i).loc.own t, ∀ y ∈ (s.party j).loc.own t, Schema.clash t x y = false

namespace Exclusive

variable [DecidableEq ι]

/-- A party that ends, or that has written nothing since. -/
theorem set_of_own (h : Exclusive P s) (hi : (s.party i).isRunning = true)
    {phase : Phase Row L ε α} {l' : Local Row L} (hown : l'.own = (s.party i).loc.own) :
    Exclusive P (s.set i phase l') where
  db := h.db
  views j hj := by
    by_cases hji : j = i
    · subst hji
      rw [State.party_set_self, State.db_set, Local.view_of_own hown]
      exact h.views j hi
    · rw [State.party_set_ne _ _ _ hji] at hj ⊢
      exact h.views j hj
  apart j k hjk hj hk := by
    have hloc : ∀ m, ((s.set i phase l').party m).isRunning = true →
        (s.party m).isRunning = true ∧
          ((s.set i phase l').party m).loc.own = (s.party m).loc.own := by
      intro m hm
      by_cases hmi : m = i
      · subst hmi
        rw [State.party_set_self]
        exact ⟨hi, hown⟩
      · rw [State.party_set_ne _ _ _ hmi] at hm ⊢
        exact ⟨hm, rfl⟩
    obtain ⟨hj, hownj⟩ := hloc j hj
    obtain ⟨hk, hownk⟩ := hloc k hk
    rw [hownj, hownk]
    exact h.apart j k hjk hj hk

/-- A party that writes a row nobody disputes. -/
theorem set_of_write [DecidableEq T] (hsymm : ClashSymm Row) (h : Exclusive P s)
    (hi : (s.party i).isRunning = true) {phase : Phase Row L ε α} {l : Local Row L} {t : T}
    {r : Row t} {skip : Row t → Bool} (hown : l.own = (s.party i).loc.own)
    (hfree : ∀ x ∈ ((s.party i).loc.view s.db).rows t,
      Schema.key t x ≠ Schema.key t r → Schema.clash t x r = false)
    (hdispute : ¬s.Waits i fun p => p.disputes t r skip) :
    Exclusive P (s.set i phase (l.write t r)) where
  db := h.db
  views j hj := by
    by_cases hji : j = i
    · subst hji
      rw [State.party_set_self, State.db_set, Local.view_write, Local.view_of_own hown]
      exact unclashed_put hsymm (h.views j hi) hfree
    · rw [State.party_set_ne _ _ _ hji] at hj ⊢
      exact h.views j hj
  apart := by
    have hnew : ∀ j ≠ i, (s.party j).isRunning = true → ∀ t',
        ∀ x ∈ (l.write t r).own t', ∀ y ∈ (s.party j).loc.own t', Schema.clash t' x y = false := by
      intro j hji hj t' x hx y hy
      by_cases ht : t' = t
      · subst ht
        rw [Local.own_write_same, List.mem_append, List.mem_singleton, hown] at hx
        rcases hx with hx | rfl
        · exact h.apart i j hji.symm hi hj t' x hx y hy
        · have hfalse : (s.party j).disputes t' x skip = false := by
            rw [State.Waits, not_exists] at hdispute
            simpa [hji] using hdispute j
          rw [Party.disputes, hj, Bool.true_and, List.any_eq_false] at hfalse
          rw [hsymm]
          have hy := hfalse y hy
          simp only [Bool.or_eq_true, not_or, Bool.not_eq_true] at hy
          exact hy.1.2
      · rw [Local.own_write_ne r ht, hown] at hx
        exact h.apart i j hji.symm hi hj t' x hx y hy
    intro j k hjk hj hk t' x hx y hy
    by_cases hji : j = i
    · subst hji
      rw [State.party_set_self] at hx
      rw [State.party_set_ne _ _ _ hjk.symm] at hk hy
      exact hnew k hjk.symm hk t' x hx y hy
    · rw [State.party_set_ne _ _ _ hji] at hj hx
      by_cases hki : k = i
      · subst hki
        rw [State.party_set_self] at hy
        rw [hsymm]
        exact hnew j hji hj t' y hy x hx
      · rw [State.party_set_ne _ _ _ hki] at hk hy
        exact h.apart j k hjk hj hk t' x hx y hy

/-- A commit puts rows of one party into the views of the others. -/
theorem commit (hsymm : ClashSymm Row) (h : Exclusive P s) {a : α}
    (hi : (s.party i).isRunning = true) : Exclusive P (s.commit i a) where
  db := h.views i hi
  views j hj := by
    have hji : j ≠ i := by
      rintro rfl
      rw [State.party_commit_self] at hj
      cases hj
    rw [State.party_commit_ne _ _ hji] at hj ⊢
    -- a row of the new view is the party's, the other's, or nobody's
    have hsplit : ∀ t, ∀ x ∈ ((s.party j).loc.view (s.commit i a).db).rows t,
        x ∈ (s.party j).loc.own t ∨
          (x ∈ (s.party i).loc.own t ∧ x ∈ ((s.party i).loc.view s.db).rows t) ∨
          x ∈ ((s.party j).loc.view s.db).rows t ∧ x ∈ ((s.party i).loc.view s.db).rows t := by
      intro t x hx
      rcases mem_overlay hx with hown | ⟨hx, hnot⟩
      · exact .inl hown
      · have hview : x ∈ ((s.party i).loc.view s.db).rows t := hx
        rcases mem_overlay hx with hown | ⟨hdb, -⟩
        · exact .inr (.inl ⟨hown, hview⟩)
        · refine .inr (.inr ⟨Table.mem_rows_iff.mpr ?_, hview⟩)
          rw [Local.view, find?_overlay_of_not_own s.db hnot]
          exact Table.mem_rows_iff.mp hdb
    have hself : ∀ t, ∀ x ∈ ((s.party j).loc.view (s.commit i a).db).rows t,
        x ∈ (s.party j).loc.own t → x ∈ ((s.party j).loc.view s.db).rows t := by
      intro t x hx hown
      have hfind := Table.mem_rows_iff.mp hx
      rw [Local.view, find?_overlay] at hfind
      refine Table.mem_rows_iff.mpr ?_
      rw [Local.view, find?_overlay]
      cases hrev : ((s.party j).loc.own t).reverse.find? fun y =>
          decide (Schema.key t y = Schema.key t x) with
      | some y =>
        rw [hrev, Option.some_or] at hfind
        rw [Option.some_or, hfind]
      | none =>
        rw [List.find?_eq_none] at hrev
        exact absurd (decide_eq_true rfl) (hrev x (by simpa using hown))
    intro t x hx y hy hpx hpy hne
    have hboth : ∀ z, z ∈ ((s.party j).loc.view (s.commit i a).db).rows t →
        z ∈ ((s.party j).loc.view s.db).rows t ∨ z ∈ (s.party i).loc.own t := by
      intro z hz
      rcases hsplit t z hz with hown | ⟨hown, -⟩ | ⟨hview, -⟩
      · exact .inl (hself t z hz hown)
      · exact .inr hown
      · exact .inl hview
    rcases hsplit t x hx with hxown | ⟨hxi, hxv⟩ | ⟨hxj, hxv⟩
    · rcases hboth y hy with hyj | hyi
      · exact h.views j hj t x (hself t x hx hxown) y hyj hpx hpy hne
      · exact h.apart j i hji hj hi t x hxown y hyi
    · rcases hsplit t y hy with hyown | ⟨-, hyv⟩ | ⟨-, hyv⟩
      · rw [hsymm]
        exact h.apart j i hji hj hi t y hyown x hxi
      · exact h.views i hi t x hxv y hyv hpx hpy hne
      · exact h.views i hi t x hxv y hyv hpx hpy hne
    · rcases hsplit t y hy with hyown | ⟨-, hyv⟩ | ⟨-, hyv⟩
      · exact h.views j hj t x hxj y (hself t y hy hyown) hpx hpy hne
      · exact h.views i hi t x hxv y hyv hpx hpy hne
      · exact h.views i hi t x hxv y hyv hpx hpy hne
  apart j k hjk hj hk := by
    have hne : ∀ m, ((s.commit i a).party m).isRunning = true → m ≠ i := by
      rintro m hm rfl
      rw [State.party_commit_self] at hm
      cases hm
    have hji := hne j hj
    have hki := hne k hk
    rw [State.party_commit_ne _ _ hji] at hj ⊢
    rw [State.party_commit_ne _ _ hki] at hk ⊢
    exact h.apart j k hjk hj hk

theorem advance [Fintype ι] [DecidableEq T] (hsymm : ClashSymm Row) (h : Exclusive P s)
    (hi : (s.party i).isRunning = true) (p : Prog Row L ε α) : Exclusive P (s.advance i p) := by
  cases p with
  | ret a => exact h.commit hsymm hi
  | fail e => exact h.set_of_own hi rfl
  | select label k => exact h.set_of_own hi rfl
  | lock t key w k =>
    rw [State.advance]
    split
    · exact h
    · exact h.set_of_own hi (Local.own_hold t _)
  | update t key w f k =>
    rw [State.advance]
    split
    · exact h
    · dsimp only
      split
      · exact h.set_of_own hi (Local.own_hold t _)
      · split
        · exact h
        · next hdispute =>
          split
          · next haccepts =>
            exact h.set_of_write hsymm hi (Local.own_hold t _) (free_of_accepts haccepts) hdispute
          · exact h.set_of_own hi (Local.own_hold t _)
  | insert t r skip k =>
    rw [State.advance]
    split
    · exact h
    · next hdispute =>
      dsimp only
      split
      · exact h.set_of_own hi rfl
      · next hins =>
        exact h.set_of_write hsymm hi rfl (fun x hx _ => (free_of_inserted hins x hx).2) hdispute
      · exact h.set_of_own hi rfl
      · exact h.set_of_own hi rfl
  | advisory n k =>
    rw [State.advance]
    split
    · exact h
    · exact h.set_of_own hi rfl

theorem step [Fintype ι] [DecidableEq T] (hsymm : ClashSymm Row) (h : Exclusive P s) (e : Event ι) :
    Exclusive P (s.step e) := by
  cases e with
  | act i =>
    rw [State.step]
    split
    · next p hp => exact h.advance hsymm (by rw [Party.isRunning, hp]) p
    · exact h
  | kill i =>
    rw [State.step]
    split
    · next hi => exact h.set_of_own hi rfl
    · exact h

omit [DecidableEq ι] in
theorem start (h : Unclashed P db) (progs : ι → Prog Row L ε α) :
    Exclusive P (State.start db progs) where
  db := h
  views _ _ := h
  apart _ _ _ _ _ _ _ hx := by cases hx

end Exclusive

theorem exclusive_run [DecidableEq ι] [Fintype ι] [DecidableEq T] (hsymm : ClashSymm Row)
    (h : Exclusive P s)
    (events : List (Event ι)) : Exclusive P (s.run events) := by
  induction events generalizing s with
  | nil => exact h
  | cons e events ih => exact ih (h.step hsymm e)

end Sql
