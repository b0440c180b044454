import ExpenseEngine.Sql.Tenants
import ExpenseEngine.Sql.Histories
import ExpenseEngine.Sql.Uniqueness

/-!
# Confined transactions side by side

Transactions that are confined to their tenants run at READ COMMITTED, in any
interleaving. They never touch each other's rows, so a transaction whose tenant
has no other one in the run goes through the steps it would go through alone.

Results:
1. `confined_advance`: what one action of a confined transaction does.
2. `Housed.step`: a step keeps the rows of the tenants apart.
3. `lone_run`: the only transaction of a tenant ends as it would end alone.
4. `serial_of_history`: transactions of different tenants leave what the
   committed ones leave one after another, in whatever order.
-/

namespace Sql

variable {T : Type} {Row : T → Type} [Schema Row] {L ε α ι κ : Type}
  [DecidableEq κ] {S : Tenancy Row κ} {u v : κ} {db db' : Db Row}

open TenantLemmas

/-! ## Overlays of one tenant -/

/-- All written rows are the tenant's. -/
def Tenancy.OwnedAll (S : Tenancy Row κ) (u : κ) (own : (t : T) → List (Row t)) : Prop :=
  ∀ t, ∀ r ∈ own t, S.Owned u t r

namespace TenantLemmas

variable [DecidableEq T]

/-- The writes to one table, put one after another. -/
theorem overlay_eq_foldl (own : (t : T) → List (Row t)) (db : Db Row) (t : T) :
    overlay own db t = (own t).foldl (fun d r => d.put t r) db t := by
  rw [overlay]
  generalize own t = rs
  induction rs generalizing db with
  | nil => rfl
  | cons r rs ih =>
    rw [List.foldl_cons, List.foldl_cons, ← ih, Db.put_same]

theorem alike_foldl (hS : S.Lawful) (h : S.Alike u db db') {t : T} {rs : List (Row t)}
    (hrs : ∀ r ∈ rs, S.Owned u t r) :
    S.Alike u (rs.foldl (fun d r => d.put t r) db) (rs.foldl (fun d r => d.put t r) db') := by
  induction rs generalizing db db' with
  | nil => exact h
  | cons r rs ih =>
    exact ih (alike_put hS h (hrs r List.mem_cons_self)) fun x hx =>
      hrs x (List.mem_cons_of_mem _ hx)

theorem alike_foldl_other (hS : S.Lawful) (hdb : S.Partitioned db) (hv : v ≠ u) {t : T}
    {rs : List (Row t)} (hrs : ∀ r ∈ rs, S.Owned u t r) :
    S.Alike v db (rs.foldl (fun d r => d.put t r) db) := by
  induction rs generalizing db with
  | nil => exact .refl hdb
  | cons r rs ih =>
    have hr := hrs r List.mem_cons_self
    exact (alike_put_other hS hdb hr hv).trans
      (ih (partitioned_put hdb hr) fun x hx => hrs x (List.mem_cons_of_mem _ hx))

theorem partitioned_overlay (hS : S.Lawful) {own : (t : T) → List (Row t)}
    (hdb : S.Partitioned db) (hown : S.OwnedAll u own) : S.Partitioned (overlay own db) := by
  intro t r hr
  rw [Db.rows, overlay_eq_foldl] at hr
  exact (alike_foldl hS (.refl hdb) (hown t)).left t r hr

/-- The tenant's writes keep databases alike that look alike to it. -/
theorem alike_overlay (hS : S.Lawful) {own : (t : T) → List (Row t)} (h : S.Alike u db db')
    (hown : S.OwnedAll u own) : S.Alike u (overlay own db) (overlay own db') where
  left := partitioned_overlay hS h.left hown
  right := partitioned_overlay hS h.right hown
  slice t := by
    have hslice := (alike_foldl hS h (hown t)).slice t
    rwa [Tenancy.slice, Tenancy.slice, Db.rows, Db.rows, ← overlay_eq_foldl,
      ← overlay_eq_foldl] at hslice

/-- The other tenants do not see the writes. -/
theorem alike_overlay_other (hS : S.Lawful) {own : (t : T) → List (Row t)}
    (hdb : S.Partitioned db) (hown : S.OwnedAll u own) (hv : v ≠ u) :
    S.Alike v db (overlay own db) where
  left := hdb
  right := partitioned_overlay hS hdb hown
  slice t := by
    have hslice := (alike_foldl_other hS hdb hv (hown t)).slice t
    rwa [Tenancy.slice, Tenancy.slice, Db.rows, Db.rows, ← overlay_eq_foldl] at hslice

omit [DecidableEq κ] in
theorem ownedAll_write {l : Local Row L} (h : S.OwnedAll u l.own) {t : T} {r : Row t}
    (hr : S.Owned u t r) : S.OwnedAll u (l.write t r).own := by
  intro t' x hx
  by_cases ht : t' = t
  · subst ht
    rw [Local.own_write_same, List.mem_append, List.mem_singleton] at hx
    rcases hx with hx | rfl
    · exact h t' x hx
    · exact hr
  · rw [Local.own_write_ne r ht] at hx
    exact h t' x hx

end TenantLemmas

/-! ## One action -/

variable {progs : ι → Prog Row L ε α} {user : ι → κ}
  {s : State Row L ε α ι} {i : ι} [DecidableEq T]

/-- A party whose program is confined waits, moves on with what is left of its
run alone, fails as it would alone, or commits. -/
inductive Advances [DecidableEq ι] (S : Tenancy Row κ) (u : κ) (s : State Row L ε α ι) (i : ι)
    (p : Prog Row L ε α) : State Row L ε α ι → Prop
  | waits : Advances S u s i p s
  | runs (p' : Prog Row L ε α) (l' : Local Row L) (hp : p'.Confined S u fun _ => True)
      (hown : S.OwnedAll u l'.own)
      (hexec : Prog.exec p ((s.party i).loc.view s.db) = Prog.exec p' (l'.view s.db)) :
      Advances S u s i p (s.set i (.running p') l')
  | fails (e : Failure ε) (l' : Local Row L)
      (hexec : Prog.exec p ((s.party i).loc.view s.db) = .error e) :
      Advances S u s i p (s.set i (.failed e) l')
  | commits (a : α) (hp : p = .ret a) : Advances S u s i p (s.commit i a)

theorem confined_advance [Fintype ι] [DecidableEq ι] (hS : S.Lawful) (hdb : S.Partitioned s.db)
    (hown : S.OwnedAll u (s.party i).loc.own) {p : Prog Row L ε α}
    (hp : p.Confined S u fun _ => True) : Advances S u s i p (s.advance i p) := by
  have hview : S.Partitioned ((s.party i).loc.view s.db) := partitioned_overlay hS hdb hown
  -- what the party holds besides does not change what it sees
  have hhold : ∀ (t : T) (o : Option (Row t)),
      ((s.party i).loc.hold t o).own = (s.party i).loc.own := fun t o => Local.own_hold t o
  cases p with
  | ret a => exact .commits a rfl
  | fail e => exact .fails e _ rfl
  | select label k =>
    exact .runs _ _ (hp.2 _ hview) hown rfl
  | lock t key w k =>
    rw [State.advance]
    split
    · exact .waits
    · refine .runs _ _ (hp.2 _ fun r hr => ?_) (hhold t _ ▸ hown) ?_
      · obtain ⟨hfind, hw⟩ := Option.filter_eq_some_iff.mp hr
        exact ⟨hw, owned_of_find hp.1 hview hfind⟩
      · rw [Local.view_of_own (hhold t _)]
        rfl
  | update t key w f k =>
    rw [State.advance]
    split
    · exact .waits
    · dsimp only
      split
      · next hnone =>
        refine .runs _ _ (hp.2 none (by simp)) (hhold t _ ▸ hown) ?_
        rw [Local.view_of_own (hhold t _), Prog.exec, hnone]
      · next r hr =>
        obtain ⟨hfind, hw⟩ := Option.filter_eq_some_iff.mp hr
        have hnew := hp.1.2 r hw (owned_of_find hp.1.1 hview hfind)
        split
        · exact .waits
        · split
          · next haccepts =>
            refine .runs _ _ (hp.2 _ fun x hx => Option.some.inj hx ▸ hnew)
              (ownedAll_write (hhold t _ ▸ hown) hnew) ?_
            rw [Local.view_write, Local.view_of_own (hhold t _), Prog.exec, hr]
            exact if_pos haccepts
          · next haccepts =>
            refine .fails _ _ ?_
            rw [Prog.exec, hr]
            exact if_neg haccepts
  | insert t r skip k =>
    rw [State.advance]
    split
    · exact .waits
    · dsimp only
      split
      · next hins => exact .fails _ _ (by rw [Prog.exec, hins])
      · next hins =>
        refine .runs _ _ (hp.2 _) (ownedAll_write hown hp.1.1) ?_
        rw [Local.view_write, Prog.exec, hins]
      · next hins => exact .runs _ _ (hp.2 _) hown (by rw [Prog.exec, hins]; rfl)
      · next hins => exact .runs _ _ (hp.2 _) hown (by rw [Prog.exec, hins])
  | advisory n k =>
    rw [State.advance]
    split
    · exact .waits
    · exact .runs _ _ hp hown rfl

/-! ## Reached states -/

/-- The rows of the tenants are apart, and every running party keeps to its own. -/
structure Housed (S : Tenancy Row κ) (user : ι → κ) (s : State Row L ε α ι) : Prop where
  db : S.Partitioned s.db
  own : ∀ i, (s.party i).isRunning = true → S.OwnedAll (user i) (s.party i).loc.own
  rest : ∀ i p, (s.party i).phase = .running p → p.Confined S (user i) fun _ => True

omit [DecidableEq T] in
theorem housed_start (hdb : S.Partitioned db)
    (hprogs : ∀ i, (progs i).Confined S (user i) fun _ => True) :
    Housed S user (State.start db progs) where
  db := hdb
  own _ _ _ _ hr := by cases hr
  rest i p hp := Phase.running.inj hp ▸ hprogs i

namespace Housed

variable [DecidableEq ι]

omit [DecidableEq T] in
theorem set (h : Housed S user s) {phase : Phase Row L ε α} {l' : Local Row L}
    (hown : ∀ p, phase = .running p →
      S.OwnedAll (user i) l'.own ∧ p.Confined S (user i) fun _ => True) :
    Housed S user (s.set i phase l') where
  db := h.db
  own j hj := by
    by_cases hji : j = i
    · subst hji
      rw [State.party_set_self] at hj ⊢
      cases phase with
      | running p => exact (hown p rfl).1
      | committed a | failed e | killed => cases hj
    · rw [State.party_set_ne _ _ _ hji] at hj ⊢
      exact h.own j hj
  rest j p hp := by
    by_cases hji : j = i
    · subst hji
      rw [State.party_set_self] at hp
      exact (hown p hp).2
    · rw [State.party_set_ne _ _ _ hji] at hp
      exact h.rest j p hp

theorem commit (hS : S.Lawful) (h : Housed S user s) (hi : (s.party i).isRunning = true) {a : α} :
    Housed S user (s.commit i a) where
  db := partitioned_overlay hS h.db (h.own i hi)
  own j hj := by
    by_cases hji : j = i
    · subst hji
      rw [State.party_commit_self] at hj
      cases hj
    · rw [State.party_commit_ne _ _ hji] at hj ⊢
      exact h.own j hj
  rest j p hp := by
    by_cases hji : j = i
    · subst hji
      rw [State.party_commit_self] at hp
      cases hp
    · rw [State.party_commit_ne _ _ hji] at hp
      exact h.rest j p hp

theorem step [Fintype ι] (hS : S.Lawful) (h : Housed S user s) (e : Event ι) :
    Housed S user (s.step e) := by
  cases e with
  | act i =>
    rw [State.step]
    split
    · next p hp =>
      have hi : (s.party i).isRunning = true := by rw [Party.isRunning, hp]
      have hadv := confined_advance hS h.db (h.own i hi) (h.rest i p hp)
      generalize s.advance i p = s' at hadv
      cases hadv with
      | waits => exact h
      | runs p' l' hp' hown =>
        refine h.set ?_
        rintro _ ⟨⟩
        exact ⟨hown, hp'⟩
      | fails e l' => exact h.set (by rintro _ ⟨⟩)
      | commits a => exact h.commit hS hi
    · exact h
  | kill i =>
    rw [State.step]
    split
    · exact h.set (by rintro _ ⟨⟩)
    · exact h

end Housed

/-! ## The only transaction of a tenant -/

/-- The party is as it would be alone: what is left of it gives what the whole
gives alone; the tables show its tenant what they showed before, or what the
whole leaves alone. -/
def Lone (S : Tenancy Row κ) (u : κ) (db₀ : Db Row) (prog : Prog Row L ε α)
    (s : State Row L ε α ι) (i : ι) : Prop :=
  match (s.party i).phase with
  | .running p => S.Alike u db₀ s.db ∧
    Same (S.Alike u) (Prog.exec prog db₀) (Prog.exec p ((s.party i).loc.view s.db))
  | .committed a => ∃ db₁, Prog.exec prog db₀ = .ok (a, db₁) ∧ S.Alike u db₁ s.db
  | .failed e => Prog.exec prog db₀ = .error e ∧ S.Alike u db₀ s.db
  | .killed => S.Alike u db₀ s.db

omit [DecidableEq T] in
theorem Same.trans_alike {res res' res'' : Except (Failure ε) (α × Db Row)}
    (h : Same (S.Alike u) res res') (h' : Same (S.Alike u) res' res'') :
    Same (S.Alike u) res res'' := by
  cases h with
  | ok hR =>
    cases h' with
    | ok hR' => exact .ok (hR.trans hR')
  | error e => exact h'

namespace Lone

variable {prog : Prog Row L ε α}

theorem congr {s' : State Row L ε α ι} (h : Lone S u db prog s i) (hdb : s'.db = s.db)
    (hparty : s'.party i = s.party i) : Lone S u db prog s' i := by
  unfold Lone at h ⊢
  rwa [hdb, hparty]

/-- The commit of another tenant's transaction. -/
theorem other [DecidableEq ι] (hS : S.Lawful) (hs : Housed S user s) {j : ι}
    (hj : (s.party j).isRunning = true) (hji : j ≠ i) (huser : user i ≠ user j) {a : α}
    (h : Lone S (user i) db prog s i) : Lone S (user i) db prog (s.commit j a) i := by
  have hothers : S.Alike (user i) s.db (s.commit j a).db :=
    alike_overlay_other hS hs.db (hs.own j hj) huser
  unfold Lone at h ⊢
  rw [State.party_commit_ne _ _ hji.symm]
  split at h
  · next p hp =>
    obtain ⟨hdb, hsame⟩ := h
    have hi : (s.party i).isRunning = true := by rw [Party.isRunning, hp]
    refine ⟨hdb.trans hothers, hsame.trans_alike ?_⟩
    exact (hs.rest i p hp).same hS (alike_overlay hS hothers (hs.own i hi))
  · obtain ⟨db₁, hexec, hdb⟩ := h
    exact ⟨db₁, hexec, hdb.trans hothers⟩
  · exact ⟨h.1, h.2.trans hothers⟩
  · exact h.trans hothers

theorem step [DecidableEq ι] [Fintype ι] (hS : S.Lawful) (hs : Housed S user s)
    (hlone : ∀ j, j ≠ i → user j ≠ user i)
    (h : Lone S (user i) db prog s i) (e : Event ι) :
    Lone S (user i) db prog (s.step e) i := by
  cases e with
  | act j =>
    rw [State.step]
    split
    · next p hp =>
      have hj : (s.party j).isRunning = true := by rw [Party.isRunning, hp]
      have hadv := confined_advance hS hs.db (hs.own j hj) (hs.rest j p hp)
      generalize s.advance j p = s' at hadv
      by_cases hji : j = i
      · subst hji
        have hrun := h
        rw [Lone, hp] at hrun
        obtain ⟨hdb, hsame⟩ := hrun
        cases hadv with
        | waits => exact h
        | runs p' l' hp' hown hexec =>
          rw [Lone, State.party_set_self]
          rw [hexec] at hsame
          exact ⟨hdb, hsame⟩
        | fails e l' hexec =>
          rw [Lone, State.party_set_self]
          rw [hexec] at hsame
          generalize Prog.exec prog db = res at hsame
          cases hsame
          exact ⟨rfl, hdb⟩
        | commits a hret =>
          subst hret
          rw [Lone, State.party_commit_self]
          generalize Prog.exec prog db = res at hsame
          cases hsame with
          | ok hR => exact ⟨_, rfl, hR⟩
      · have hne : i ≠ j := fun hij => hji hij.symm
        cases hadv with
        | waits => exact h
        | runs p' l' | fails e l' => exact h.congr rfl (State.party_set_ne _ _ _ hne)
        | commits a => exact h.other hS hs hj hji (hlone j hji).symm
    · exact h
  | kill j =>
    rw [State.step]
    split
    · next hj =>
      by_cases hji : j = i
      · subst hji
        rw [Lone, State.party_set_self]
        rw [Party.isRunning] at hj
        split at hj
        · next p hp =>
          rw [Lone, hp] at h
          exact h.1
        · cases hj
      · exact h.congr rfl (State.party_set_ne _ _ _ fun hij => hji hij.symm)
    · exact h

end Lone

/-- The only transaction of a tenant goes, in any interleaving with those of
other tenants, as it would go alone. -/
theorem lone_run [DecidableEq ι] [Fintype ι] (hS : S.Lawful) (hdb : S.Partitioned db)
    (hprogs : ∀ i, (progs i).Confined S (user i) fun _ => True)
    (hlone : ∀ j, j ≠ i → user j ≠ user i) (events : List (Event ι)) :
    Lone S (user i) db (progs i) ((State.start db progs).run events) i := by
  have hstart : Lone S (user i) db (progs i) (State.start db progs) i :=
    ⟨.refl hdb, (hprogs i).same hS (.refl hdb)⟩
  have hhoused := housed_start hdb hprogs
  generalize State.start db progs = s at hstart hhoused
  induction events generalizing s with
  | nil => exact hstart
  | cons e events ih => exact ih _ (hstart.step hS hhoused hlone e) (hhoused.step hS e)

/-- A tenant without a transaction in the run sees no change. -/
theorem outside_run [DecidableEq ι] [Fintype ι] (hS : S.Lawful) (h : Housed S user s)
    (hu : ∀ i, user i ≠ u)
    (events : List (Event ι)) : S.Alike u s.db (s.run events).db := by
  induction events generalizing s with
  | nil => exact .refl h.db
  | cons e events ih =>
    refine Tenancy.Alike.trans ?_ (ih (h.step hS e))
    cases e with
    | act i =>
      rw [State.step]
      split
      · next p hp =>
        have hi : (s.party i).isRunning = true := by rw [Party.isRunning, hp]
        have hadv := confined_advance hS h.db (h.own i hi) (h.rest i p hp)
        generalize s.advance i p = s' at hadv
        cases hadv with
        | waits | runs p' l' | fails e l' => exact .refl h.db
        | commits a => exact alike_overlay_other hS h.db (h.own i hi) (hu i).symm
      · exact .refl h.db
    | kill i =>
      rw [State.step]
      split
      · exact .refl h.db
      · exact .refl h.db

/-! ## Serial runs -/

/-- The programs run one after another, each with its answer. -/
inductive SerialRun (progs : ι → Prog Row L ε α) : Db Row → List (ι × α) → Db Row → Prop
  | nil (db : Db Row) : SerialRun progs db [] db
  | cons {i : ι} {a : α} {db db₁ db₂ : Db Row} {past : List (ι × α)}
      (hexec : Prog.exec (progs i) db = .ok (a, db₁)) (hrest : SerialRun progs db₁ past db₂) :
      SerialRun progs db ((i, a) :: past) db₂

omit [DecidableEq T] in
/-- What every tenant sees is the whole table. -/
theorem TenantLemmas.perm_of_slices [Nonempty κ] {t : T}
    (h : ∀ u, S.slice u db t = S.slice u db' t) : (db.rows t).Perm (db'.rows t) := by
  refine (List.perm_ext_iff_of_nodup ((db t).nodup.of_map _) ((db' t).nodup.of_map _)).mpr
    fun r => ?_
  obtain ⟨u, hu⟩ : ∃ u, S.sees u t r = true := by
    unfold Tenancy.sees
    split
    · exact ⟨Classical.arbitrary κ, rfl⟩
    · next v hv => exact ⟨v, decide_eq_true rfl⟩
  have hmem : ∀ db : Db Row, r ∈ S.slice u db t ↔ r ∈ db.rows t := fun db =>
    List.mem_filter.trans (and_iff_left hu)
  show r ∈ db.rows t ↔ r ∈ db'.rows t
  rw [← hmem db, ← hmem db', h u]

/-- What has committed, each party at most once. -/
def Recorded (s : State Row L ε α ι) (past : List (ι × α)) : Prop :=
  (past.map Prod.fst).Nodup ∧ ∀ i a, (i, a) ∈ past ↔ (s.party i).phase = .committed a

/-- The history of a run holds the commits, each party at most once. -/
theorem history_committed [DecidableEq ι] [Fintype ι] (hs : Sound progs s)
    (hrun : ∀ i, (s.party i).isRunning = true) (events : List (Event ι)) :
    Recorded (s.run events) (s.history events) := by
  have hstart : Recorded s [] := by
    refine ⟨List.nodup_nil, fun i a => ⟨fun h => absurd h List.not_mem_nil, fun h => ?_⟩⟩
    have hi := hrun i
    rw [Party.isRunning, h] at hi
    cases hi
  refine State.run_history ?_ ?_ hs hstart (State.along_true s events)
  · rintro s past i p phase l' - ⟨hnodup, hiff⟩ hp hm
    refine ⟨hnodup, fun j b => ?_⟩
    by_cases hji : j = i
    · subst hji
      rw [State.party_set_self, hiff, hp]
      exact ⟨fun h => (by cases h), fun h => absurd h (hm.uncommitted b)⟩
    · rw [State.party_set_ne _ _ _ hji]
      exact hiff j b
  · rintro s past i a - ⟨hnodup, hiff⟩ - hp -
    have hnew : ∀ b, (i, b) ∉ past := fun b hb => by
      rw [hiff, hp] at hb
      cases hb
    refine ⟨?_, fun j b => ?_⟩
    · rw [List.map_append, List.map_singleton, List.nodup_append]
      refine ⟨hnodup, List.nodup_singleton _, fun j hj k hk hjk => ?_⟩
      obtain ⟨⟨j', b⟩, hmem, hj'⟩ := List.mem_map.mp hj
      have hji : j' = i := hj'.trans (hjk.trans (List.mem_singleton.mp hk))
      exact hnew b (hji ▸ hmem)
    · rw [List.mem_append, List.mem_singleton, Prod.mk.injEq]
      by_cases hji : j = i
      · subst hji
        rw [State.party_commit_self]
        refine ⟨fun h => ?_, fun h => .inr ⟨rfl, (Phase.committed.inj h).symm⟩⟩
        rcases h with h | ⟨-, rfl⟩
        · exact absurd h (hnew b)
        · rfl
      · rw [State.party_commit_ne _ _ hji, ← hiff]
        exact ⟨fun h => h.resolve_right fun h => hji h.1, .inl⟩

/-- Programs of different tenants that each end well alone, with what the
database `db'` shows their tenants, end so one after another. -/
theorem serialRun_of_alone (hS : S.Lawful) [Nonempty κ]
    (hprogs : ∀ i, (progs i).Confined S (user i) fun _ => True) (huser : Function.Injective user)
    {past : List (ι × α)} (hnodup : (past.map Prod.fst).Nodup) (hdb : S.Partitioned db)
    (halone : ∀ x ∈ past, ∃ db₁, Prog.exec (progs x.1) db = .ok (x.2, db₁) ∧
      S.Alike (user x.1) db₁ db')
    (hrest : ∀ u, (∀ x ∈ past, user x.1 ≠ u) → S.Alike u db db') :
    ∃ db₂, SerialRun progs db past db₂ ∧ ∀ t, (db₂.rows t).Perm (db'.rows t) := by
  induction past generalizing db with
  | nil =>
    refine ⟨db, .nil db, fun t => perm_of_slices (S := S) fun u => ?_⟩
    exact (hrest u (by simp)).slice t
  | cons x past ih =>
    obtain ⟨i, a⟩ := x
    rw [List.map_cons, List.nodup_cons] at hnodup
    obtain ⟨db₁, hexec, hself⟩ := halone (i, a) List.mem_cons_self
    obtain ⟨hdb₁, -, hothers⟩ := (hprogs i).others hS hdb hexec
    have hne : ∀ x ∈ past, user x.1 ≠ user i := by
      intro x hx hu
      have hmem := List.mem_map_of_mem (f := Prod.fst) hx
      rw [huser hu] at hmem
      exact hnodup.1 hmem
    have hafter : ∀ x ∈ past, ∃ db₂, Prog.exec (progs x.1) db₁ = .ok (x.2, db₂) ∧
        S.Alike (user x.1) db₂ db' := by
      intro x hx
      obtain ⟨db₃, hexec₃, hdb₃⟩ := halone x (List.mem_cons_of_mem _ hx)
      have hsame := (hprogs x.1).same hS (hothers _ (hne x hx))
      rw [hexec₃] at hsame
      generalize Prog.exec (progs x.1) db₁ = res at hsame
      cases hsame with
      | ok hR => exact ⟨_, rfl, hR.symm.trans hdb₃⟩
    obtain ⟨db₂, hserial, hperm⟩ := ih hnodup.2 hdb₁ hafter fun u hu => by
      by_cases hui : user i = u
      · exact hui ▸ hself
      · refine (hothers u fun h => hui h.symm).symm.trans (hrest u ?_)
        rintro x (_ | ⟨_, hx⟩)
        · exact hui
        · exact hu x hx
    exact ⟨db₂, .cons hexec hserial, hperm⟩

/-- Transactions of different tenants leave, in any interleaving, what the
committed ones leave one after another, in whatever order, with the same
answers. -/
theorem serial_of_history [DecidableEq ι] [Fintype ι] (hS : S.Lawful) [Nonempty κ]
    (hdb : S.Partitioned db)
    (hprogs : ∀ i, (progs i).Confined S (user i) fun _ => True) (huser : Function.Injective user)
    (events : List (Event ι)) {past : List (ι × α)}
    (hpast : past.Perm ((State.start db progs).history events)) :
    ∃ db₂, SerialRun progs db past db₂ ∧
      ∀ t, (db₂.rows t).Perm (((State.start db progs).run events).db.rows t) := by
  obtain ⟨hnodup, hiff⟩ := history_committed (sound_start db progs) (fun _ => rfl) events
  have hlone := fun i => lone_run (i := i) hS hdb hprogs (fun j hj h => hj (huser h)) events
  refine serialRun_of_alone hS hprogs huser ((hpast.map _).nodup_iff.mpr hnodup) hdb ?_ ?_
  · rintro ⟨i, a⟩ hx
    have hi := hlone i
    rwa [Lone, (hiff i a).mp (hpast.mem_iff.mp hx)] at hi
  · intro u hu
    by_cases hparty : ∃ i, user i = u
    · obtain ⟨i, rfl⟩ := hparty
      have hi := hlone i
      unfold Lone at hi
      split at hi
      · exact hi.1
      · next a hp => exact absurd rfl (hu (i, a) (hpast.mem_iff.mpr ((hiff i a).mpr hp)))
      · exact hi.2
      · exact hi
    · refine outside_run hS (housed_start hdb hprogs) (fun i hi => hparty ⟨i, hi⟩) events

end Sql
