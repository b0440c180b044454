import ExpenseEngine.Sql.Traces

/-!
# What runs of many transactions keep

`Sound progs s` ties every party of a reached state to the program it started:
what is left of it completes a trace of the whole, the rows it holds are the
committed ones and nobody else's, and what it saw is what was there.

Results:
1. `State.step_cases`: what an event can do.
2. `Sound.step`, `sound_run`: every reached state is sound.
3. `State.run_invariant`: the induction over runs.
-/

namespace Sql

variable {T : Type} {Row : T → Type} [Schema Row] {L ε α ι : Type}

/-! ## Overlays -/

theorem Table.find?_foldl_put {t : T} (rs : List (Row t)) (tb : Table Row t)
    (key : Schema.Key Row t) : (rs.foldl Table.put tb).find? key =
      (rs.reverse.find? fun r => decide (Schema.key t r = key)).or (tb.find? key) := by
  induction rs generalizing tb with
  | nil => simp
  | cons r rs ih =>
    rw [List.foldl_cons, ih, List.reverse_cons, List.find?_append, Option.or_assoc]
    congr 1
    rw [Table.find?_put]
    by_cases h : Schema.key t r = key
    · simp [h]
    · simp [h]

theorem find?_overlay (own : (t : T) → List (Row t)) (db : Db Row) (t : T)
    (key : Schema.Key Row t) : (overlay own db t).find? key =
      ((own t).reverse.find? fun r => decide (Schema.key t r = key)).or ((db t).find? key) :=
  Table.find?_foldl_put _ _ _

/-- A row nobody wrote. -/
theorem find?_overlay_of_not_own {own : (t : T) → List (Row t)} (db : Db Row) {t : T}
    {key : Schema.Key Row t} (h : ∀ r ∈ own t, Schema.key t r ≠ key) :
    (overlay own db t).find? key = (db t).find? key := by
  rw [find?_overlay, List.find?_eq_none.mpr, Option.none_or]
  simpa using h

/-- A row of the overlay is one of the writes, or was there before. -/
theorem mem_overlay {own : (t : T) → List (Row t)} {db : Db Row} {t : T} {r : Row t}
    (h : r ∈ (overlay own db).rows t) :
    r ∈ own t ∨ (r ∈ db.rows t ∧ ∀ x ∈ own t, Schema.key t x ≠ Schema.key t r) := by
  have hfind := Table.mem_rows_iff.mp h
  rw [find?_overlay] at hfind
  cases hown : (own t).reverse.find? fun x => decide (Schema.key t x = Schema.key t r) with
  | some x =>
    rw [hown, Option.some_or, Option.some.injEq] at hfind
    subst hfind
    exact .inl (by simpa using List.mem_of_find?_eq_some hown)
  | none =>
    rw [hown, Option.none_or] at hfind
    rw [List.find?_eq_none] at hown
    exact .inr ⟨Table.mem_rows_iff.mpr hfind, by simpa using hown⟩

/-- A table without writes. -/
theorem overlay_of_nil {own : (t : T) → List (Row t)} (db : Db Row) {t : T} (h : own t = []) :
    overlay own db t = db t := by
  rw [overlay, h]
  rfl

theorem find?_overlay_isSome {own : (t : T) → List (Row t)} {db : Db Row} {t : T}
    {key : Schema.Key Row t} (h : ((db t).find? key).isSome) :
    ((overlay own db t).find? key).isSome := by
  rw [find?_overlay, Option.isSome_or, h, Bool.or_true]

/-! ## What an event can do -/

/-- What a step that does not commit can make of the local side of a party. -/
inductive Moved [DecidableEq T] (s : State Row L ε α ι) (i : ι) : Local Row L → Prop
  | same : Moved s i (s.party i).loc
  | saw (label : L) :
    Moved s i ((s.party i).loc.saw label ((s.party i).loc.view s.db) s.commits)
  | held (t : T) (key : Schema.Key Row t) (h : ¬s.Waits i fun p => p.holds t key) :
    Moved s i ((s.party i).loc.hold t (((s.party i).loc.view s.db t).find? key))
  | updated (t : T) (r x : Row t) (h : ¬s.Waits i fun p => p.holds t (Schema.key t r))
      (hr : ((s.party i).loc.view s.db t).find? (Schema.key t r) = some r)
      (hx : Schema.key t x = Schema.key t r) :
    Moved s i (((s.party i).loc.hold t (some r)).write t x)
  | inserted (t : T) (r : Row t) (skip : Row t → Bool)
      (h : ¬s.Waits i fun p => p.disputes t r skip)
      (hr : ((s.party i).loc.view s.db t).find? (Schema.key t r) = none) :
    Moved s i ((s.party i).loc.write t r)
  | met (t : T) (x : Row t) (hx : x ∈ ((s.party i).loc.view s.db).rows t) :
    Moved s i ((s.party i).loc.meet t (some x))
  | advised (n : Int) (h : ¬s.Waits i fun p => p.holdsAdvisory n) :
    Moved s i ((s.party i).loc.advise n)

/-- The rows of the party are in its view as it left them, and the rows it has
seen are still there. -/
structure Faithful (s : State Row L ε α ι) (i : ι) : Prop where
  sees : (s.party i).loc.Sees ((s.party i).loc.view s.db)
  seen : ∀ e ∈ (s.party i).loc.seen, ∀ t (key : Schema.Key Row t),
    ((e.view t).find? key).isSome → (((s.party i).loc.view s.db t).find? key).isSome

theorem Faithful.visits {s : State Row L ε α ι} {i : ι} (h : Faithful s i) (t : T)
    (key : Schema.Key Row t) :
    (s.party i).loc.Visits t key (((s.party i).loc.view s.db t).find? key) where
  key_eq _ hr := Table.key_of_find? hr
  version r hr := h.sees t key r hr
  seen e he := h.seen e he t key

/-- A move of the party `i` from `p`: it ends as the rest of it will, and it is
not a commit. -/
structure Moves [DecidableEq T] (s : State Row L ε α ι) (i : ι) (p : Prog Row L ε α)
    (phase : Phase Row L ε α) (l' : Local Row L) : Prop where
  moved : Moved s i l'
  rest : ∀ p', phase = .running p' → ∀ res l'', p'.Runs l' res l'' →
    p.Runs (s.party i).loc res l''
  failed : ∀ e, phase = .failed e → p.Runs (s.party i).loc (.error e) l'
  uncommitted : ∀ a, phase ≠ .committed a

namespace State

variable {s : State Row L ε α ι} {i : ι} [DecidableEq T]

theorem moves_running {p p' : Prog Row L ε α} {l' : Local Row L} (hm : Moved s i l')
    (h : ∀ res l'', p'.Runs l' res l'' → p.Runs (s.party i).loc res l'') :
    Moves s i p (.running p') l' where
  moved := hm
  rest := by
    rintro _ ⟨⟩
    exact h
  failed := nofun
  uncommitted := nofun

theorem moves_failed {p : Prog Row L ε α} {l' : Local Row L} {e : Failure ε} (hm : Moved s i l')
    (h : p.Runs (s.party i).loc (.error e) l') : Moves s i p (.failed e) l' where
  moved := hm
  rest := nofun
  failed := by
    rintro _ ⟨⟩
    exact h
  uncommitted := nofun

theorem advance_cases [Fintype ι] [DecidableEq ι] (hf : Faithful s i) (p : Prog Row L ε α) :
    s.advance i p = s ∨ (∃ phase l', s.advance i p = s.set i phase l' ∧ Moves s i p phase l') ∨
      ∃ a, p = .ret a ∧ s.advance i p = s.commit i a := by
  cases p with
  | ret a => exact .inr (.inr ⟨a, rfl, rfl⟩)
  | fail e => exact .inr (.inl ⟨_, _, rfl, moves_failed .same ⟨rfl, rfl⟩⟩)
  | select label k =>
    exact .inr (.inl ⟨_, _, rfl, moves_running (.saw label) fun res l'' h => ⟨_, _, hf.sees, h⟩⟩)
  | lock t key w k =>
    rw [advance]
    split
    · exact .inl rfl
    · next hw =>
      exact .inr (.inl ⟨_, _, rfl, moves_running (.held t key hw) fun res l'' h =>
        ⟨_, hf.visits t key, h⟩⟩)
  | update t key w f k =>
    rw [advance]
    split
    · exact .inl rfl
    · next hw =>
      dsimp only
      split
      · next hnone =>
        exact .inr (.inl ⟨_, _, rfl, moves_running (.held t key hw) fun res l'' h =>
          ⟨_, hf.visits t key, .inl ⟨hnone, h⟩⟩⟩)
      · next r hr =>
        split
        · exact .inl rfl
        · obtain ⟨hfind, -⟩ := Option.filter_eq_some_iff.mp hr
          obtain rfl := Table.key_of_find? hfind
          split
          · refine .inr (.inl ⟨_, _, rfl, moves_running ?_ fun res l'' h =>
              ⟨_, hf.visits t _, .inr ⟨r, hr, .inl h⟩⟩⟩)
            rw [hfind]
            exact .updated t r _ hw hfind (f.key_apply r)
          · exact .inr (.inl ⟨_, _, rfl, moves_failed (.held t _ hw)
              ⟨_, hf.visits t _, .inr ⟨r, hr, .inr ⟨rfl, rfl⟩⟩⟩⟩)
  | insert t r skip k =>
    rw [advance]
    split
    · exact .inl rfl
    · next hw =>
      dsimp only
      split
      · exact .inr (.inl ⟨_, _, rfl, moves_failed .same (.inl ⟨rfl, rfl⟩)⟩)
      · next hins =>
        have hnone := Db.find?_of_inserted hins
        refine .inr (.inl ⟨_, _, rfl, moves_running (.inserted t r skip hw hnone)
          fun res l'' h => .inr (.inl ⟨?_, h⟩)⟩)
        cases hv : (s.party i).loc.version t (Schema.key t r) with
        | none => rfl
        | some x => rw [hf.sees t _ x hv] at hnone; cases hnone
      · next hskip =>
        obtain ⟨x, hx, hxskip, hfind⟩ := Db.find?_of_skipped hskip
        rw [hfind]
        exact .inr (.inl ⟨_, _, rfl, moves_running (.met t x hx) fun res l'' h =>
          .inr (.inr (.inl ⟨x, hxskip, h⟩))⟩)
      · exact .inr (.inl ⟨_, _, rfl, moves_running .same fun res l'' h =>
          .inr (.inr (.inr h))⟩)
  | advisory n k =>
    rw [advance]
    split
    · exact .inl rfl
    · next hw =>
      exact .inr (.inl ⟨_, _, rfl, moves_running (.advised n hw) fun res l'' h => h⟩)

/-- An event changes nothing, moves one party, or commits it. -/
theorem step_cases [Fintype ι] [DecidableEq ι]
    (hf : ∀ i, (s.party i).isRunning = true → Faithful s i) (e : Event ι) :
    s.step e = s ∨
      (∃ i p phase l', (s.party i).phase = .running p ∧ s.step e = s.set i phase l' ∧
        Moves s i p phase l') ∨
      ∃ i a, e = .act i ∧ (s.party i).phase = .running (.ret a) ∧ s.step e = s.commit i a := by
  cases e with
  | act i =>
    rw [step]
    split
    · next p hp =>
      rcases advance_cases (hf i (by rw [Party.isRunning, hp])) p with h | ⟨phase, l', h, hm⟩ |
        ⟨a, rfl, h⟩
      · exact .inl h
      · exact .inr (.inl ⟨i, p, phase, l', hp, h, hm⟩)
      · exact .inr (.inr ⟨i, a, rfl, hp, h⟩)
    · exact .inl rfl
  | kill i =>
    rw [step]
    split
    · next h =>
      rw [Party.isRunning] at h
      split at h
      · next p hp => exact .inr (.inl ⟨i, p, _, _, hp, rfl, .same, nofun, nofun, nofun⟩)
      · cases h
    · exact .inl rfl

end State

/-! ## Reached states -/

/-- What the local side of a running party promises of the database. -/
structure Anchored (db : Db Row) (commits : Nat) (l : Local Row L) : Prop where
  /-- A locked row is the committed one. -/
  held : ∀ t, ∀ r ∈ l.held t, (db t).find? (Schema.key t r) = some r
  /-- A written row was locked, or it is new. -/
  own : ∀ t, ∀ r ∈ l.own t, (∃ x ∈ l.held t, Schema.key t x = Schema.key t r) ∨
    (db t).find? (Schema.key t r) = none
  kept : ∀ e ∈ l.seen, ∀ t (key : Schema.Key Row t), ((e.view t).find? key).isSome →
    ((l.view db t).find? key).isSome
  /-- The party has what it had when it looked. -/
  marks : ∀ e ∈ l.seen, (∀ t, e.own t <+: l.own t) ∧ (∀ t, e.held t <:+ l.held t) ∧
    e.advisory <:+ l.advisory
  before : ∀ e ∈ l.seen, e.commits ≤ commits
  /-- Since the last commit the snapshots are current. -/
  current : ∀ e ∈ l.seen, e.commits = commits → e.view = overlay e.own db

/-- No two parties have one row or one advisory lock. -/
structure Apart (x y : Party Row L ε α) : Prop where
  rows : ∀ t key, x.holds t key = true → y.holds t key = false
  advisory : ∀ n, x.holdsAdvisory n = true → y.holdsAdvisory n = false

/-- What is left of the party completes a trace of `prog`. -/
structure TraceOf [DecidableEq T] (prog : Prog Row L ε α) (x : Party Row L ε α) : Prop where
  running : ∀ p, x.phase = .running p → ∀ res l', p.Runs x.loc res l' → prog.Runs .init res l'
  committed : ∀ a, x.phase = .committed a → prog.Runs .init (.ok a) x.loc
  failed : ∀ e, x.phase = .failed e → prog.Runs .init (.error e) x.loc

structure Sound [DecidableEq T] (progs : ι → Prog Row L ε α) (s : State Row L ε α ι) : Prop where
  trace : ∀ i, TraceOf (progs i) (s.party i)
  anchored : ∀ i, (s.party i).isRunning = true → Anchored s.db s.commits (s.party i).loc
  apart : ∀ i j, i ≠ j → Apart (s.party i) (s.party j)

variable {progs : ι → Prog Row L ε α} {s : State Row L ε α ι} {i : ι}

namespace Anchored

/-- What the party had when it looked, it has after a growth of its local side. -/
theorem marks_extends {l l' : Local Row L} (hext : l.Extends l')
    (h : ∀ e ∈ l.seen, (∀ t, e.own t <+: l.own t) ∧ (∀ t, e.held t <:+ l.held t) ∧
      e.advisory <:+ l.advisory) (hseen : l'.seen = l.seen) :
    ∀ e ∈ l'.seen, (∀ t, e.own t <+: l'.own t) ∧ (∀ t, e.held t <:+ l'.held t) ∧
      e.advisory <:+ l'.advisory := by
  intro e he
  obtain ⟨hown, hheld, hadv⟩ := h e (hseen ▸ he)
  exact ⟨fun t => (hown t).trans (hext.own t), fun t => (hheld t).trans (hext.held t),
    hadv.trans hext.advisory⟩

variable {db : Db Row} {commits : Nat} {l : Local Row L}

theorem sees (h : Anchored db commits l) : l.Sees (l.view db) := by
  intro t key r hr
  rw [Local.view, find?_overlay]
  rw [Local.version, List.find?_append, Option.or_eq_some_iff] at hr
  rcases hr with hr | ⟨hnone, hr⟩
  · rw [hr, Option.some_or]
  · rw [hnone, Option.none_or]
    have hkey : Schema.key t r = key := by simpa using List.find?_some hr
    rw [← hkey]
    exact h.held t r (List.mem_of_find?_eq_some hr)

theorem init : Anchored db commits (.init : Local Row L) where
  held := by simp [Local.init]
  own := by simp [Local.init]
  kept := by simp [Local.init]
  marks := by simp [Local.init]
  before := by simp [Local.init]
  current := by simp [Local.init]

theorem saw (h : Anchored db commits l) (label : L) :
    Anchored db commits (l.saw label (l.view db) commits) where
  held := h.held
  own := h.own
  kept := by
    rintro e (_ | ⟨_, he⟩)
    · exact fun t key hk => hk
    · exact h.kept e he
  marks := by
    rintro e (_ | ⟨_, he⟩)
    · exact ⟨fun _ => List.prefix_rfl, fun _ => List.suffix_rfl, List.suffix_rfl⟩
    · exact h.marks e he
  before := by
    rintro e (_ | ⟨_, he⟩)
    · exact le_rfl
    · exact h.before e he
  current := by
    rintro e (_ | ⟨_, he⟩)
    · exact fun _ => rfl
    · exact h.current e he

variable [DecidableEq T]

theorem lock (h : Anchored db commits l) {t : T} {r : Row t}
    (hr : (l.view db t).find? (Schema.key t r) = some r)
    (hnone : l.version t (Schema.key t r) = none) : Anchored db commits (l.lock t r) where
  held t' x hx := by
    by_cases ht : t' = t
    · subst ht
      rw [Local.held_lock_same] at hx
      rcases List.mem_cons.mp hx with rfl | hx
      · rw [Local.version, List.find?_append, Option.or_eq_none_iff] at hnone
        rw [Local.view, find?_overlay, hnone.1, Option.none_or] at hr
        exact hr
      · exact h.held t' x hx
    · rw [Local.held_lock_ne r ht] at hx
      exact h.held t' x hx
  own t' x hx := by
    refine (h.own t' x hx).imp_left fun hkept => ?_
    obtain ⟨y, hy, hkey⟩ := hkept
    exact ⟨y, ((Local.extends_lock t r).held t').subset hy, hkey⟩
  kept := h.kept
  marks := marks_extends (Local.extends_lock t r) h.marks rfl
  before := h.before
  current := h.current

theorem hold (h : Anchored db commits l) (t : T) (key : Schema.Key Row t) :
    Anchored db commits (l.hold t ((l.view db t).find? key)) := by
  obtain hh | ⟨r, hr, hnone, hh⟩ := l.hold_cases t ((l.view db t).find? key)
  · rwa [hh]
  · rw [hh]
    obtain rfl := Table.key_of_find? hr
    exact h.lock hr hnone

theorem write (h : Anchored db commits l) {t : T} {x : Row t}
    (hx : (∃ y ∈ l.held t, Schema.key t y = Schema.key t x) ∨
      (db t).find? (Schema.key t x) = none) : Anchored db commits (l.write t x) where
  held := h.held
  own t' y hy := by
    by_cases ht : t' = t
    · subst ht
      rw [Local.own_write_same, List.mem_append, List.mem_singleton] at hy
      rcases hy with hy | rfl
      · exact h.own t' y hy
      · exact hx
    · rw [Local.own_write_ne x ht] at hy
      exact h.own t' y hy
  kept e he t' key hkey := by
    have hview := h.kept e he t' key hkey
    rw [Local.view, find?_overlay] at hview ⊢
    by_cases ht : t' = t
    · subst ht
      rw [Local.own_write_same, List.reverse_append, List.reverse_singleton,
        List.singleton_append, List.find?_cons]
      split
      · rfl
      · exact hview
    · rwa [Local.own_write_ne x ht]
  marks := marks_extends (Local.extends_write t x) h.marks rfl
  before := h.before
  current := h.current

end Anchored

theorem Sound.faithful [DecidableEq T] (h : Sound progs s) (hi : (s.party i).isRunning = true) :
    Faithful s i where
  sees := (h.anchored i hi).sees
  seen := (h.anchored i hi).kept

theorem anchored_of_moved [DecidableEq T] (h : Sound progs s) (hi : (s.party i).isRunning = true)
    {l' : Local Row L} (hm : Moved s i l') : Anchored s.db s.commits l' := by
  have ha := h.anchored i hi
  cases hm with
  | same => exact ha
  | saw label => exact ha.saw label
  | held t key => exact ha.hold t key
  | updated t r x _ hr hx =>
    have hhold : Anchored s.db s.commits ((s.party i).loc.hold t (some r)) := by
      rw [← hr]
      exact ha.hold t _
    refine hhold.write ?_
    rw [hx]
    have hversion := Local.version_hold_self (hr ▸ (h.faithful hi).visits t (Schema.key t r))
    rcases Local.mem_of_version hversion with hown | hheld
    · exact hhold.own t r hown
    · exact .inl ⟨r, hheld, rfl⟩
  | inserted t r skip _ hr =>
    refine ha.write (.inr ?_)
    rw [Local.view, find?_overlay, Option.or_eq_none_iff] at hr
    exact hr.2
  | met t x hx => exact ⟨ha.held, ha.own, ha.kept, ha.marks, ha.before, ha.current⟩
  | advised n =>
    exact ⟨ha.held, ha.own, ha.kept, Anchored.marks_extends (Local.extends_advise n) ha.marks rfl,
      ha.before, ha.current⟩

theorem holds_eq_false_of_not_waits {t : T} {key : Schema.Key Row t}
    (h : ¬s.Waits i fun p => p.holds t key) : ∀ j ≠ i, (s.party j).holds t key = false := by
  intro j hj
  rw [State.Waits, not_exists] at h
  simpa [hj] using h j

/-- A row that is the party's after a move was its own or nobody's. -/
theorem holds_of_moved [DecidableEq T] (h : Sound progs s) {l' : Local Row L} (hm : Moved s i l')
    {t : T}
    {key : Schema.Key Row t} (hkey : (l'.version t key).isSome) :
    ((s.party i).loc.version t key).isSome ∨ ∀ j ≠ i, (s.party j).holds t key = false := by
  have hhold : ∀ t' (k : Schema.Key Row t') o, (∀ r, o = some r → Schema.key t' r = k) →
      (¬s.Waits i fun p => p.holds t' k) →
      (((s.party i).loc.hold t' o).version t key).isSome →
      ((s.party i).loc.version t key).isSome ∨ ∀ j ≠ i, (s.party j).holds t key = false := by
    intro t' k o hk hw hsome
    obtain hh | ⟨r, hr, hnone, hh⟩ := (s.party i).loc.hold_cases t' o
    · rw [hh] at hsome
      exact .inl hsome
    · rw [hh] at hsome
      by_cases ht : t = t'
      · subst ht
        rw [Local.version_lock hnone] at hsome
        split at hsome
        · next heq =>
          rw [← heq, hk r hr]
          exact .inr (holds_eq_false_of_not_waits hw)
        · exact .inl hsome
      · rw [Local.version_lock_ne r ht] at hsome
        exact .inl hsome
  cases hm with
  | same | saw | met | advised => exact .inl hkey
  | held t' k hw => exact hhold t' k _ (fun r hr => Table.key_of_find? hr) hw hkey
  | updated t' r x hw hr hx =>
    have hk : ∀ y, some r = some y → Schema.key t' y = Schema.key t' r := by
      rintro _ ⟨⟩
      rfl
    by_cases ht : t = t'
    · subst ht
      rw [Local.version_write] at hkey
      split at hkey
      · next heq =>
        rw [← heq, hx]
        exact .inr (holds_eq_false_of_not_waits hw)
      · exact hhold t _ _ hk hw hkey
    · rw [Local.version_write_ne x ht] at hkey
      exact hhold t' _ _ hk hw hkey
  | inserted t' r skip hw hr =>
    by_cases ht : t = t'
    · subst ht
      rw [Local.version_write] at hkey
      split at hkey
      · next heq =>
        subst heq
        rw [Local.view, find?_overlay, Option.or_eq_none_iff] at hr
        refine .inr fun j hj => Bool.eq_false_iff.mpr fun hholds => ?_
        rw [Party.holds, Bool.and_eq_true] at hholds
        obtain ⟨hrun, hversion⟩ := hholds
        obtain ⟨y, hy⟩ := Option.isSome_iff_exists.mp hversion
        have hykey := Local.key_of_version hy
        rcases Local.mem_of_version hy with hown | hheld
        · refine hw ⟨j, hj, ?_⟩
          change (s.party j).disputes t r skip = true
          rw [Party.disputes, hrun, Bool.true_and, List.any_eq_true]
          exact ⟨y, hown, by simp [hykey]⟩
        · have hfind := (h.anchored j hrun).held t y hheld
          rw [hykey, hr.2] at hfind
          cases hfind
      · exact .inl hkey
    · rw [Local.version_write_ne r ht] at hkey
      exact .inl hkey

theorem advisory_of_moved [DecidableEq T] {l' : Local Row L} (hm : Moved s i l') {n : Int}
    (hn : n ∈ l'.advisory) : n ∈ (s.party i).loc.advisory ∨
      ∀ j ≠ i, (s.party j).holdsAdvisory n = false := by
  cases hm with
  | same | saw | inserted | met => exact .inl hn
  | held t key => exact .inl (by simpa using hn)
  | updated t r x => exact .inl (by simpa using hn)
  | advised m h =>
    rcases List.mem_cons.mp hn with rfl | hn
    · refine .inr fun j hj => ?_
      rw [State.Waits, not_exists] at h
      simpa [hj] using h j
    · exact .inl hn

/-! ## Preservation -/

namespace State

variable [DecidableEq ι]

@[simp] theorem party_set_self (s : State Row L ε α ι) (i : ι) (phase : Phase Row L ε α)
    (l : Local Row L) : (s.set i phase l).party i = ⟨phase, l⟩ := by
  simp [set]

@[simp] theorem party_set_ne (s : State Row L ε α ι) {i j : ι} (phase : Phase Row L ε α)
    (l : Local Row L) (h : j ≠ i) : (s.set i phase l).party j = s.party j := by
  simp [set, h]

@[simp] theorem db_set (s : State Row L ε α ι) (i : ι) (phase : Phase Row L ε α)
    (l : Local Row L) : (s.set i phase l).db = s.db := rfl

@[simp] theorem party_commit_self (s : State Row L ε α ι) (i : ι) (a : α) :
    (s.commit i a).party i = ⟨.committed a, (s.party i).loc⟩ := by
  simp [commit]

@[simp] theorem party_commit_ne (s : State Row L ε α ι) {i j : ι} (a : α) (h : j ≠ i) :
    (s.commit i a).party j = s.party j := by
  simp [commit, h]

end State

theorem Apart.symm {x y : Party Row L ε α} (h : Apart x y) : Apart y x where
  rows t key hy := by
    by_contra hx
    rw [Bool.not_eq_false] at hx
    rw [h.rows t key hx] at hy
    cases hy
  advisory n hy := by
    by_contra hx
    rw [Bool.not_eq_false] at hx
    rw [h.advisory n hx] at hy
    cases hy

theorem apart_of_ended {x y : Party Row L ε α} (h : x.isRunning = false) : Apart x y where
  rows t key hx := by simp [Party.holds, h] at hx
  advisory n hx := by simp [Party.holdsAdvisory, h] at hx

variable [DecidableEq T]

theorem Sound.moved [DecidableEq ι] (h : Sound progs s) {p : Prog Row L ε α}
    {phase : Phase Row L ε α}
    {l' : Local Row L} (hp : (s.party i).phase = .running p) (hm : Moves s i p phase l') :
    Sound progs (s.set i phase l') where
  trace j := by
    by_cases hj : j = i
    · subst hj
      rw [State.party_set_self]
      have htrace := (h.trace j).running p hp
      exact ⟨fun p' hp' res l'' hr => htrace res l'' (hm.rest p' hp' res l'' hr),
        fun a ha => absurd ha (hm.uncommitted a), fun e he => htrace _ _ (hm.failed e he)⟩
    · rw [State.party_set_ne _ _ _ hj]
      exact h.trace j
  anchored j hrun := by
    by_cases hj : j = i
    · subst hj
      rw [State.party_set_self]
      exact anchored_of_moved h (by rw [Party.isRunning, hp]) hm.moved
    · rw [State.party_set_ne _ _ _ hj] at hrun ⊢
      exact h.anchored j hrun
  apart := by
    have hmoved : ∀ j ≠ i, Apart ⟨phase, l'⟩ (s.party j) := by
      intro j hj
      have hrun : (s.party i).isRunning = true := by rw [Party.isRunning, hp]
      refine ⟨fun t key hkey => ?_, fun n hn => ?_⟩
      · rw [Party.holds, Bool.and_eq_true] at hkey
        rcases holds_of_moved h hm.moved hkey.2 with hold | hfree
        · exact (h.apart i j hj.symm).rows t key (by rw [Party.holds, hrun, hold]; rfl)
        · exact hfree j hj
      · rw [Party.holdsAdvisory, Bool.and_eq_true, decide_eq_true_eq] at hn
        rcases advisory_of_moved hm.moved hn.2 with hold | hfree
        · exact (h.apart i j hj.symm).advisory n
            (by rw [Party.holdsAdvisory, hrun, decide_eq_true hold]; rfl)
        · exact hfree j hj
    intro j k hjk
    by_cases hj : j = i
    · subst hj
      rw [State.party_set_self, State.party_set_ne _ _ _ hjk.symm]
      exact hmoved k hjk.symm
    · by_cases hk : k = i
      · subst hk
        rw [State.party_set_self, State.party_set_ne _ _ _ hj]
        exact (hmoved j hj).symm
      · rw [State.party_set_ne _ _ _ hj, State.party_set_ne _ _ _ hk]
        exact h.apart j k hjk

/-- A running party has written no row of another. -/
theorem Sound.not_own_of_version (h : Sound progs s) {j : ι}
    (hi : (s.party i).isRunning = true) (hj : (s.party j).isRunning = true) (hne : j ≠ i) {t : T}
    {key : Schema.Key Row t} (hkey : ((s.party j).loc.version t key).isSome) :
    ∀ x ∈ (s.party i).loc.own t, Schema.key t x ≠ key := by
  rintro x hx rfl
  have hfree := (h.apart j i hne).rows t _ (by rw [Party.holds, hj, hkey]; rfl)
  rw [Party.holds, hi, Local.version_isSome (.inl hx)] at hfree
  cases hfree

omit [DecidableEq T] in
/-- A commit of others that leaves the party's rows alone keeps its promises. -/
theorem anchored_of_commit {db : Db Row} {commits : Nat} {l : Local Row L}
    {own : (t : T) → List (Row t)} (h : Anchored db commits l)
    (hown : ∀ t r, r ∈ l.own t ∨ r ∈ l.held t → ∀ x ∈ own t, Schema.key t x ≠ Schema.key t r) :
    Anchored (overlay own db) (commits + 1) l where
  held t r hr := by
    rw [find?_overlay_of_not_own db (hown t r (.inr hr))]
    exact h.held t r hr
  own t r hr := by
    rw [find?_overlay_of_not_own db (hown t r (.inl hr))]
    exact h.own t r hr
  kept e he t key hkey := by
    have hview := h.kept e he t key hkey
    rw [Local.view, find?_overlay, Option.isSome_or, Bool.or_eq_true] at hview ⊢
    exact hview.imp_right find?_overlay_isSome
  marks := h.marks
  before e he := Nat.le_succ_of_le (h.before e he)
  current e he hcommits := absurd (h.before e he) (by omega)

variable [DecidableEq ι]

theorem Sound.commit (h : Sound progs s) {a : α} (hp : (s.party i).phase = .running (.ret a)) :
    Sound progs (s.commit i a) where
  trace j := by
    by_cases hj : j = i
    · subst hj
      rw [State.party_commit_self]
      refine ⟨nofun, ?_, nofun⟩
      rintro _ ⟨⟩
      exact (h.trace j).running _ hp _ _ ⟨rfl, rfl⟩
    · rw [State.party_commit_ne _ _ hj]
      exact h.trace j
  anchored j hrun := by
    have hj : j ≠ i := by
      rintro rfl
      rw [State.party_commit_self] at hrun
      cases hrun
    rw [State.party_commit_ne _ _ hj] at hrun ⊢
    exact anchored_of_commit (h.anchored j hrun) fun t r hr =>
      h.not_own_of_version (by rw [Party.isRunning, hp]) hrun hj
        (Local.version_isSome (l := (s.party j).loc) hr)
  apart j k hjk := by
    by_cases hj : j = i
    · subst hj
      rw [State.party_commit_self]
      exact apart_of_ended rfl
    · by_cases hk : k = i
      · subst hk
        rw [State.party_commit_self]
        exact (apart_of_ended rfl).symm
      · rw [State.party_commit_ne _ _ hj, State.party_commit_ne _ _ hk]
        exact h.apart j k hjk

theorem Sound.step [Fintype ι] (h : Sound progs s) (e : Event ι) : Sound progs (s.step e) := by
  rcases State.step_cases (fun i hi => h.faithful hi) e with
    hs | ⟨i, p, phase, l', hp, hs, hm⟩ | ⟨i, a, -, hp, hs⟩
  · rwa [hs]
  · rw [hs]
    exact h.moved hp hm
  · rw [hs]
    exact h.commit hp

omit [DecidableEq ι] in
theorem sound_start (db : Db Row) (progs : ι → Prog Row L ε α) :
    Sound progs (State.start db progs) where
  trace i := by
    refine ⟨?_, nofun, nofun⟩
    rintro p ⟨⟩ res l' h
    exact h
  anchored _ _ := .init
  apart i j _ := ⟨
    fun t key hkey => by simp [Party.holds, State.start, Local.version, Local.init] at hkey,
    fun n hn => by simp [Party.holdsAdvisory, State.start, Local.init] at hn⟩

/-! ## Invariants over runs -/

/-- What holds of sound states at the start and is kept by the moves of a party
and by the commits that meet `ok` holds along every run whose commits do. -/
theorem State.run_invariant [Fintype ι] {Inv : State Row L ε α ι → Prop}
    {ok : State Row L ε α ι → ι → Prop}
    (hmove : ∀ s i p phase l', Sound progs s → Inv s → (s.party i).phase = .running p →
      Moves s i p phase l' → Inv (s.set i phase l'))
    (hcommit : ∀ s i a, Sound progs s → Inv s → ok s i → (s.party i).phase = .running (.ret a) →
      (progs i).Runs .init (.ok a) (s.party i).loc → Inv (s.commit i a))
    {events : List (Event ι)} (hs : Sound progs s) (h : Inv s) (hok : State.Along ok s events) :
    Sound progs (s.run events) ∧ Inv (s.run events) := by
  induction events generalizing s with
  | nil => exact ⟨hs, h⟩
  | cons e events ih =>
    refine ih (hs.step e) ?_ hok.2
    rcases State.step_cases (fun i hi => hs.faithful hi) e with
      he | ⟨i, p, phase, l', hp, he, hm⟩ | ⟨i, a, hact, hp, he⟩
    · rwa [he]
    · rw [he]
      exact hmove s i p phase l' hs h hp hm
    · rw [he]
      exact hcommit s i a hs h (hok.1 i a hact hp) hp ((hs.trace i).running _ hp _ _ ⟨rfl, rfl⟩)

end Sql
