import ExpenseEngine.Sql.Isolation

/-!
# The commits of a run, in order

`s.commitLog events` lists the commits along the events in their order, each with
the tables before and after it, and `s.history events` is its parties with their
answers. A property of runs that speaks of that order is an invariant of the state
and the commits so far.

Results:
1. `State.run_commitLog`, `State.run_history`: the induction over runs, with the
   commits.
2. `State.decidableAlong`: a condition on the commits of a run can be computed.
-/

namespace Sql

variable {T : Type} {Row : T → Type} [Schema Row] {L ε α ι : Type}
  {progs : ι → Prog Row L ε α} {s : State Row L ε α ι}

/-- A commit: the tables before it, whose it is, its answer, the tables after it. -/
structure Commit (Row : T → Type) [Schema Row] (α ι : Type) where
  before : Db Row
  party : ι
  answer : α
  after : Db Row

namespace State

/-- The party that commits at the event, with its answer. -/
def committing (s : State Row L ε α ι) : Event ι → Option (ι × α)
  | .act i =>
    match (s.party i).phase with
    | .running (.ret a) => some (i, a)
    | _ => none
  | .kill _ => none

theorem committing_eq_some {e : Event ι} {i : ι} {a : α} :
    s.committing e = some (i, a) ↔ e = .act i ∧ (s.party i).phase = .running (.ret a) := by
  cases e with
  | kill j => simp [committing]
  | act j =>
    simp only [committing, Event.act.injEq]
    constructor
    · intro h
      split at h
      · next hp =>
        cases h
        exact ⟨rfl, hp⟩
      · cases h
    · rintro ⟨rfl, hp⟩
      rw [hp]

variable [DecidableEq T] [Fintype ι] [DecidableEq ι]

/-- The commits of a run, in order. -/
def history : State Row L ε α ι → List (Event ι) → List (ι × α)
  | _, [] => []
  | s, e :: events => (s.committing e).toList ++ history (s.step e) events

/-- The commits of a run with the tables they find and leave. -/
def commitLog : State Row L ε α ι → List (Event ι) → List (Commit Row α ι)
  | _, [] => []
  | s, e :: events =>
    ((s.committing e).toList.map fun x => ⟨s.db, x.1, x.2, (s.step e).db⟩) ++
      commitLog (s.step e) events

theorem history_eq_map (s : State Row L ε α ι) (events : List (Event ι)) :
    s.history events = (s.commitLog events).map fun c => (c.party, c.answer) := by
  induction events generalizing s with
  | nil => rfl
  | cons e events ih =>
    rw [history, commitLog, List.map_append, List.map_map, ih]
    exact congrArg (· ++ _) (List.map_id _).symm

theorem step_of_committing {e : Event ι} {i : ι} {a : α} (h : s.committing e = some (i, a)) :
    s.step e = s.commit i a := by
  obtain ⟨rfl, hp⟩ := committing_eq_some.mp h
  rw [step, hp]
  rfl

/-- An event that commits nothing changes no table. -/
theorem db_step_of_not_committing (hs : Sound progs s) {e : Event ι}
    (h : s.committing e = none) : (s.step e).db = s.db := by
  rcases step_cases (fun i hi => hs.faithful hi) e with he | ⟨i, p, phase, l', -, he, -⟩ |
    ⟨i, a, hact, hp, -⟩
  · rw [he]
  · rw [he, db_set]
  · rw [committing_eq_some.mpr ⟨hact, hp⟩] at h
    cases h

/-- What holds of the state and the commits so far at the start and is kept by the
moves of a party and by the commits that meet `ok` holds along every run whose
commits do. -/
theorem run_commitLog (Inv : State Row L ε α ι → List (Commit Row α ι) → Prop)
    (past : List (Commit Row α ι)) {ok : State Row L ε α ι → ι → Prop}
    (hmove : ∀ s past i p phase l', Sound progs s → Inv s past →
      (s.party i).phase = .running p → Moves s i p phase l' → Inv (s.set i phase l') past)
    (hcommit : ∀ s past i a, Sound progs s → Inv s past → ok s i →
      (s.party i).phase = .running (.ret a) → (progs i).Runs .init (.ok a) (s.party i).loc →
      Inv (s.commit i a) (past ++ [⟨s.db, i, a, (s.commit i a).db⟩]))
    {events : List (Event ι)} (hs : Sound progs s) (h : Inv s past) (hok : Along ok s events) :
    Inv (s.run events) (past ++ s.commitLog events) := by
  induction events generalizing s past with
  | nil => rwa [commitLog, List.append_nil]
  | cons e events ih =>
    rw [commitLog, ← List.append_assoc]
    refine ih _ (hs.step e) ?_ hok.2
    cases hc : s.committing e with
    | some x =>
      obtain ⟨hact, hp⟩ := committing_eq_some.mp hc
      rw [step_of_committing hc]
      exact hcommit s past _ _ hs h (hok.1 _ _ hact hp) hp
        ((hs.trace x.1).running _ hp _ _ ⟨rfl, rfl⟩)
    | none =>
      rw [Option.toList_none, List.map_nil, List.append_nil]
      rcases step_cases (fun i hi => hs.faithful hi) e with he | ⟨i, p, phase, l', hp, he, hm⟩ |
        ⟨i, a, hact, hp, -⟩
      · rwa [he]
      · rw [he]
        exact hmove s past i p phase l' hs h hp hm
      · rw [committing_eq_some.mpr ⟨hact, hp⟩] at hc
        cases hc

/-- The same for a property of the history. -/
theorem run_history {Inv : State Row L ε α ι → List (ι × α) → Prop}
    {ok : State Row L ε α ι → ι → Prop}
    (hmove : ∀ s past i p phase l', Sound progs s → Inv s past →
      (s.party i).phase = .running p → Moves s i p phase l' → Inv (s.set i phase l') past)
    (hcommit : ∀ s past i a, Sound progs s → Inv s past → ok s i →
      (s.party i).phase = .running (.ret a) → (progs i).Runs .init (.ok a) (s.party i).loc →
      Inv (s.commit i a) (past ++ [(i, a)]))
    {events : List (Event ι)} (hs : Sound progs s) (h : Inv s [])
    (hok : Along ok s events) : Inv (s.run events) (s.history events) := by
  rw [history_eq_map]
  refine run_commitLog (fun s log => Inv s (log.map fun c => (c.party, c.answer))) []
    (fun s past i p phase l' => hmove s _ i p phase l') (fun s past i a hs h hok hp hruns => ?_)
    hs h hok
  rw [List.map_append]
  exact hcommit s _ i a hs h hok hp hruns

/-- Every state of the run meets `ok`. -/
def Throughout (ok : State Row L ε α ι → Prop) : State Row L ε α ι → List (Event ι) → Prop
  | s, [] => ok s
  | s, e :: events => ok s ∧ Throughout ok (s.step e) events

theorem Throughout.along {ok : State Row L ε α ι → Prop} {events : List (Event ι)}
    (h : Throughout ok s events) : Along (fun s _ => ok s) s events := by
  induction events generalizing s with
  | nil => trivial
  | cons e events ih => exact ⟨fun _ _ _ _ => h.1, ih h.2⟩

theorem Throughout.last {ok : State Row L ε α ι → Prop} {events : List (Event ι)}
    (h : Throughout ok s events) : ok (s.run events) := by
  induction events generalizing s with
  | nil => exact h
  | cons e events ih => exact ih h.2

instance decidableThroughout {ok : State Row L ε α ι → Prop} [∀ s, Decidable (ok s)] :
    (s : State Row L ε α ι) → (events : List (Event ι)) → Decidable (Throughout ok s events)
  | s, [] => inferInstanceAs (Decidable (ok s))
  | s, e :: events =>
    have : Decidable (Throughout ok (s.step e) events) := decidableThroughout (s.step e) events
    inferInstanceAs (Decidable (_ ∧ _))

theorem sound_run {events : List (Event ι)} (hs : Sound progs s) :
    Sound progs (s.run events) := by
  induction events generalizing s with
  | nil => exact hs
  | cons e events ih => exact ih (hs.step e)

omit [DecidableEq ι] [Fintype ι] [DecidableEq T] in
/-- The condition on the commit of one event. -/
theorem commit_ok_iff {ok : State Row L ε α ι → ι → Prop} {e : Event ι} :
    (∀ i a, e = .act i → (s.party i).phase = .running (.ret a) → ok s i) ↔
      ∀ x ∈ s.committing e, ok s x.1 := by
  constructor
  · rintro h ⟨i, a⟩ hx
    obtain ⟨hact, hp⟩ := committing_eq_some.mp hx
    exact h i a hact hp
  · exact fun h i a hact hp => h (i, a) (committing_eq_some.mpr ⟨hact, hp⟩)

instance decidableAlong {ok : State Row L ε α ι → ι → Prop} [∀ s i, Decidable (ok s i)] :
    (s : State Row L ε α ι) → (events : List (Event ι)) → Decidable (Along ok s events)
  | _, [] => .isTrue trivial
  | s, e :: events =>
    have : Decidable (Along ok (s.step e) events) := decidableAlong (s.step e) events
    have : Decidable (∀ x ∈ s.committing e, ok s x.1) :=
      match s.committing e with
      | none => .isTrue nofun
      | some x => decidable_of_iff (ok s x.1) (by simp)
    have : Decidable (∀ i a, e = .act i → (s.party i).phase = .running (.ret a) → ok s i) :=
      decidable_of_iff _ commit_ok_iff.symm
    inferInstanceAs (Decidable (_ ∧ _))

end State

end Sql
