import ExpenseEngine.Sql.Descent
import ExpenseEngine.Sql.Histories

/-!
# Facts under an advisory lock

A transaction that looks under an advisory lock and acts on what it saw later is
safe when every commit that would change the answer needs the same lock. And
what a SELECT or an INSERT … DO NOTHING found in a table that nobody updates is
still there at the commit.

Results:
1. `Guarded.moved`, `Guarded.commit`: what was seen under the lock is so until the
   transaction ends.
2. `LastingAll.moved`, `LastingAll.commit`: rows of a table without updates
   outlast the look at them.
-/

namespace Sql

variable {T : Type} {Row : T → Type} [Schema Row] {L ε α ι : Type}
  {progs : ι → Prog Row L ε α} {s : State Row L ε α ι} {i : ι}

open Prog

/-! ## Under a lock -/

/-- Whoever commits an end of `φ` holds the advisory lock `n`. -/
def GuardedBy [DecidableEq T] [DecidableEq ι] (progs : ι → Prog Row L ε α) (n : Int)
    (φ : Db Row → Prop) : Prop :=
  ∀ (s : State Row L ε α ι) i a, Sound progs s → (s.party i).phase = .running (.ret a) → φ s.db →
    n ∈ (s.party i).loc.advisory ∨ φ (s.commit i a).db

/-- The transaction has seen `φ` under the lock, before its own writes. -/
def SawUnder (n : Int) (φ : Db Row → Prop) (l : Local Row L) : Prop :=
  ∃ e ∈ l.seen, n ∈ e.advisory ∧ (∀ t, e.own t = []) ∧ φ e.view

theorem SawUnder.later {n : Int} {φ : Db Row → Prop} {l l' : Local Row L} (h : SawUnder n φ l)
    (hext : l.Extends l') : SawUnder n φ l' := by
  obtain ⟨e, he, hrest⟩ := h
  exact ⟨e, hext.seen.subset he, hrest⟩

/-- What the running parties have seen under the lock is so. -/
def Guarded (n : Int) (φ : Db Row → Prop) (s : State Row L ε α ι) : Prop :=
  ∀ i, (s.party i).isRunning = true → SawUnder n φ (s.party i).loc → φ s.db

namespace GuardLemmas

theorem overlay_of_blank {own : (t : T) → List (Row t)} (h : ∀ t, own t = []) (db : Db Row) :
    overlay own db = db :=
  funext fun t => overlay_of_nil db (h t)

/-- A move of a party looks at the committed tables, or at nothing new. -/
theorem seen_of_moved [DecidableEq T] {l' : Local Row L} (h : Moved s i l') :
    l'.seen = (s.party i).loc.seen ∨ ∃ label, l'.seen =
      ⟨label, (s.party i).loc.view s.db, (s.party i).loc.own, (s.party i).loc.held,
        (s.party i).loc.advisory, s.commits⟩ :: (s.party i).loc.seen := by
  cases h with
  | same | inserted | met | advised => exact .inl rfl
  | saw label => exact .inr ⟨label, rfl⟩
  | held t key => exact .inl (Local.seen_hold t _)
  | updated t r x => exact .inl ((Local.seen_write t x).trans (Local.seen_hold t _))

end GuardLemmas

open GuardLemmas

theorem Guarded.moved [DecidableEq T] [DecidableEq ι] {n : Int} {φ : Db Row → Prop}
    (h : Guarded n φ s)
    (hi : (s.party i).isRunning = true) {phase : Phase Row L ε α} {l' : Local Row L}
    (hm : Moved s i l') : Guarded n φ (s.set i phase l') := by
  rintro j hj ⟨e, he, hlock, hown, hφ⟩
  by_cases hji : j = i
  · subst hji
    rw [State.party_set_self] at he
    rcases seen_of_moved hm with hseen | ⟨label, hseen⟩
    · exact h j hi ⟨e, hseen ▸ he, hlock, hown, hφ⟩
    · rw [hseen] at he
      rcases List.mem_cons.mp he with rfl | he
      · -- the party has written nothing yet, so it sees the committed tables
        rw [Local.view, overlay_of_blank hown] at hφ
        exact hφ
      · exact h j hi ⟨e, he, hlock, hown, hφ⟩
  · rw [State.party_set_ne _ _ _ hji] at hj he
    exact h j hj ⟨e, he, hlock, hown, hφ⟩

theorem Guarded.commit [DecidableEq T] [DecidableEq ι] {n : Int} {φ : Db Row → Prop}
    (hs : Sound progs s) (h : Guarded n φ s)
    (hguard : GuardedBy progs n φ) {a : α} (hp : (s.party i).phase = .running (.ret a)) :
    Guarded n φ (s.commit i a) := by
  intro j hj hsaw
  have hi : (s.party i).isRunning = true := by rw [Party.isRunning, hp]
  have hji : j ≠ i := by
    rintro rfl
    rw [State.party_commit_self] at hj
    cases hj
  rw [State.party_commit_ne _ _ hji] at hj hsaw
  rcases hguard s i a hs hp (h j hj hsaw) with hlock | hφ
  · -- the lock is the other's since it looked
    obtain ⟨e, he, hn, -⟩ := hsaw
    have hmine : (s.party j).holdsAdvisory n = true := by
      rw [Party.holdsAdvisory, hj, decide_eq_true (((hs.anchored j hj).marks e he).2.2.subset hn)]
      rfl
    have hother := (hs.apart j i hji).advisory n hmine
    rw [Party.holdsAdvisory, hi, decide_eq_true hlock] at hother
    cases hother
  · exact hφ

theorem guarded_start (n : Int) (φ : Db Row → Prop) (db : Db Row) (progs : ι → Prog Row L ε α) :
    Guarded n φ (State.start db progs) := by
  rintro i - ⟨e, he, -⟩
  cases he

/-! ## Rows that outlast a look -/

/-- The rows of the table that the transaction has met or seen are committed, or
its own. -/
structure Lasting (t : T) (db : Db Row) (l : Local Row L) : Prop where
  met : ∀ x ∈ l.met t, x ∈ db.rows t ∨ x ∈ l.own t
  seen : ∀ e ∈ l.seen, ∀ x ∈ e.view.rows t, x ∈ db.rows t ∨ x ∈ l.own t

namespace GuardLemmas

variable {t : T} {db : Db Row} {l l' : Local Row L}

theorem mem_view {own : (t : T) → List (Row t)} {x : Row t} (h : x ∈ (overlay own db).rows t) :
    x ∈ db.rows t ∨ x ∈ own t :=
  (mem_overlay h).symm.imp_left And.left

/-- More writes, and nothing else to show. -/
theorem Lasting.grow (h : Lasting t db l) (hext : l.Extends l') (hmet : l'.met t = l.met t)
    (hseen : l'.seen = l.seen) : Lasting t db l' where
  met x hx := (h.met x (hmet ▸ hx)).imp_right ((hext.own t).subset ·)
  seen e he x hx := (h.seen e (hseen ▸ he) x hx).imp_right ((hext.own t).subset ·)

theorem lasting_of_moved [DecidableEq T] (h : Lasting t s.db (s.party i).loc) (hm : Moved s i l') :
    Lasting t s.db l' := by
  cases hm with
  | same => exact h
  | saw label =>
    refine ⟨h.met, fun e he x hx => ?_⟩
    rcases List.mem_cons.mp he with rfl | he
    · exact mem_view hx
    · exact h.seen e he x hx
  | held t' key =>
    exact Lasting.grow h (Local.extends_hold t' _) (congrFun (Local.met_hold t' _) t)
      (Local.seen_hold t' _)
  | updated t' r x =>
    exact Lasting.grow (Lasting.grow h (Local.extends_hold t' (some r))
      (congrFun (Local.met_hold t' _) t) (Local.seen_hold t' _)) (Local.extends_write t' x) rfl rfl
  | inserted t' r => exact Lasting.grow h (Local.extends_write t' r) rfl rfl
  | met t' y hy =>
    refine ⟨fun x hx => ?_, h.seen⟩
    by_cases ht : t = t'
    · subst ht
      rw [Local.met_meet_same] at hx
      rcases List.mem_cons.mp hx with rfl | hx
      · exact mem_view hy
      · exact h.met x hx
    · rw [Local.met_meet_ne y ht] at hx
      exact h.met x hx
  | advised m => exact ⟨h.met, h.seen⟩

end GuardLemmas

variable {ins : ι → (t : T) → Row t → Prop} {upd : ι → (t : T) → Row t → Row t → Prop} {t : T}

/-- What the running parties have met and seen in the table lasts. -/
def LastingAll (t : T) (s : State Row L ε α ι) : Prop :=
  ∀ i, (s.party i).isRunning = true → Lasting t s.db (s.party i).loc

theorem LastingAll.moved [DecidableEq T] [DecidableEq ι] (h : LastingAll t s)
    (hi : (s.party i).isRunning = true)
    {phase : Phase Row L ε α} {l' : Local Row L} (hm : Moved s i l') :
    LastingAll t (s.set i phase l') := by
  intro j hj
  by_cases hji : j = i
  · subst hji
    rw [State.party_set_self, State.db_set]
    exact lasting_of_moved (h j hi) hm
  · rw [State.party_set_ne _ _ _ hji] at hj ⊢
    exact h j hj

theorem LastingAll.commit [DecidableEq T] [DecidableEq ι] (hs : Sound progs s) (h : LastingAll t s)
    (hp : ∀ i, (progs i).Rewrites (ins i) (upd i)) (ht : ∀ i r r', ¬upd i t r r') {a : α}
    (hrun : (s.party i).phase = .running (.ret a)) : LastingAll t (s.commit i a) := by
  intro j hj
  have hji : j ≠ i := by
    rintro rfl
    rw [State.party_commit_self] at hj
    cases hj
  rw [State.party_commit_ne _ _ hji] at hj ⊢
  have hmem := fun {r : Row t} => (descends_commit hs (hp i) hrun).mem_of_fixed (ht i) (r := r)
  exact ⟨fun x hx => ((h j hj).met x hx).imp_left hmem,
    fun e he x hx => ((h j hj).seen e he x hx).imp_left hmem⟩

theorem lasting_start (t : T) (db : Db Row) (progs : ι → Prog Row L ε α) :
    LastingAll t (State.start db progs) :=
  fun _ _ => ⟨fun _ hx => absurd hx List.not_mem_nil, fun _ he => absurd he List.not_mem_nil⟩

end Sql
