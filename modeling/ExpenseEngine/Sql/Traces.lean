import ExpenseEngine.Sql.Exec
import ExpenseEngine.Sql.ReadCommitted

/-!
# One transaction among others

`p.Runs l res l'` says that `p`, started with the local side `l`, can end with
the result `res` and the local side `l'` while others commit in between. All it
knows of the others is what its locks promise: a row it has locked or written is
as it left it, and a row it has seen is still there. What a handler does under
interference is read off by inverting `Runs`.

Results:
1. `runs_bind_ok`, `runs_bind_error`, `runs_read`, `runs_updateRow`: one
   inversion for each statement.
2. `Runs.extends`, `Runs.own_eq`, `Runs.version_eq`: what an end keeps.
-/

namespace Sql

variable {T : Type} {Row : T → Type} [Schema Row] {L ε α β : Type}

namespace Local

variable {l l' : Local Row L} {t t' : T} {key : Schema.Key Row t} {r : Row t}

/-- What a visit of the row `key` may find. -/
structure Visits (l : Local Row L) (t : T) (key : Schema.Key Row t) (o : Option (Row t)) :
    Prop where
  key_eq : ∀ r, o = some r → Schema.key t r = key
  version : ∀ r, l.version t key = some r → o = some r
  seen : ∀ e ∈ l.seen, ((e.view t).find? key).isSome → o.isSome

/-- A snapshot has the rows of the transaction as it left them. -/
def Sees (l : Local Row L) (db : Db Row) : Prop :=
  ∀ t key r, l.version t key = some r → (db t).find? key = some r

/-- Everything `l` has is in `l'`. -/
structure Extends (l l' : Local Row L) : Prop where
  own : ∀ t, l.own t <+: l'.own t
  held : ∀ t, l.held t <:+ l'.held t
  advisory : l.advisory <:+ l'.advisory
  seen : l.seen <:+ l'.seen
  met : ∀ t, l.met t <:+ l'.met t

theorem Extends.refl (l : Local Row L) : l.Extends l :=
  ⟨fun _ => List.prefix_rfl, fun _ => List.suffix_rfl, List.suffix_rfl, List.suffix_rfl,
    fun _ => List.suffix_rfl⟩

theorem Extends.trans {l₁ l₂ l₃ : Local Row L} (h : l₁.Extends l₂) (h' : l₂.Extends l₃) :
    l₁.Extends l₃ :=
  ⟨fun t => (h.own t).trans (h'.own t), fun t => (h.held t).trans (h'.held t),
    h.advisory.trans h'.advisory, h.seen.trans h'.seen, fun t => (h.met t).trans (h'.met t)⟩

theorem extends_saw (label : L) (db : Db Row) (n : Nat) : l.Extends (l.saw label db n) :=
  { Extends.refl l with seen := List.suffix_cons _ _ }

theorem extends_advise (n : Int) : l.Extends (l.advise n) :=
  { Extends.refl l with advisory := List.suffix_cons _ _ }

/-! ## Reading the local side -/

@[simp] theorem own_saw (label : L) (db : Db Row) (n : Nat) : (l.saw label db n).own = l.own := rfl

@[simp] theorem held_saw (label : L) (db : Db Row) (n : Nat) :
    (l.saw label db n).held = l.held := rfl

@[simp] theorem version_saw (label : L) (db : Db Row) (n : Nat) :
    (l.saw label db n).version t key = l.version t key := rfl

@[simp] theorem own_advise (n : Int) : (l.advise n).own = l.own := rfl

@[simp] theorem version_advise (n : Int) : (l.advise n).version t key = l.version t key := rfl

theorem key_of_version (h : l.version t key = some r) : Schema.key t r = key := by
  simpa using List.find?_some h

theorem mem_of_version (h : l.version t key = some r) : r ∈ l.own t ∨ r ∈ l.held t := by
  simpa using List.mem_of_find?_eq_some h

theorem version_isSome (h : r ∈ l.own t ∨ r ∈ l.held t) :
    (l.version t (Schema.key t r)).isSome := by
  rw [version, List.find?_isSome]
  exact ⟨r, by simpa using h, by simp⟩

/-- A row that was locked and not written. -/
theorem version_of_held (h : l.version t key = some r)
    (hown : ∀ x ∈ l.own t, Schema.key t x ≠ key) :
    r ∈ l.held t := by
  refine (mem_of_version h).resolve_left fun hr => hown r hr ?_
  exact key_of_version h

variable [DecidableEq T]

theorem hold_cases (t : T) (o : Option (Row t)) :
    l.hold t o = l ∨ ∃ r, o = some r ∧ l.version t (Schema.key t r) = none ∧
      l.hold t o = l.lock t r := by
  cases o with
  | none => exact .inl rfl
  | some r =>
    by_cases h : (l.version t (Schema.key t r)).isSome
    · exact .inl (if_pos h)
    · exact .inr ⟨r, rfl, Option.not_isSome_iff_eq_none.mp h, if_neg h⟩

@[simp] theorem own_lock (t : T) (r : Row t) : (l.lock t r).own = l.own := rfl

@[simp] theorem seen_lock (t : T) (r : Row t) : (l.lock t r).seen = l.seen := rfl

@[simp] theorem advisory_lock (t : T) (r : Row t) : (l.lock t r).advisory = l.advisory := rfl

@[simp] theorem held_lock_same (t : T) (r : Row t) : (l.lock t r).held t = r :: l.held t := by
  simp [lock]

@[simp] theorem held_lock_ne (r : Row t) (h : t' ≠ t) : (l.lock t r).held t' = l.held t' := by
  simp [lock, h]

@[simp] theorem own_hold (t : T) (o : Option (Row t)) : (l.hold t o).own = l.own := by
  obtain h | ⟨r, -, -, h⟩ := l.hold_cases t o <;> simp [h]

@[simp] theorem seen_hold (t : T) (o : Option (Row t)) : (l.hold t o).seen = l.seen := by
  obtain h | ⟨r, -, -, h⟩ := l.hold_cases t o <;> simp [h]

@[simp] theorem advisory_hold (t : T) (o : Option (Row t)) :
    (l.hold t o).advisory = l.advisory := by
  obtain h | ⟨r, -, -, h⟩ := l.hold_cases t o <;> simp [h]

@[simp] theorem held_hold_ne (o : Option (Row t)) (h : t' ≠ t) :
    (l.hold t o).held t' = l.held t' := by
  obtain hh | ⟨r, -, -, hh⟩ := l.hold_cases t o <;> simp [hh, h]

@[simp] theorem own_meet (t : T) (o : Option (Row t)) : (l.meet t o).own = l.own := rfl

@[simp] theorem version_meet (t' : T) (o : Option (Row t')) :
    (l.meet t' o).version t key = l.version t key := rfl

@[simp] theorem seen_write (t : T) (r : Row t) : (l.write t r).seen = l.seen := rfl

@[simp] theorem held_write (t : T) (r : Row t) : (l.write t r).held = l.held := rfl

@[simp] theorem advisory_write (t : T) (r : Row t) : (l.write t r).advisory = l.advisory := rfl

@[simp] theorem own_write_same (t : T) (r : Row t) : (l.write t r).own t = l.own t ++ [r] := by
  simp [write]

@[simp] theorem own_write_ne (r : Row t) (h : t' ≠ t) : (l.write t r).own t' = l.own t' := by
  simp [write, h]

theorem version_write_ne {key : Schema.Key Row t'} (r : Row t) (h : t' ≠ t) :
    (l.write t r).version t' key = l.version t' key := by
  rw [version, version, own_write_ne r h, held_write]

theorem version_write (r : Row t) (key : Schema.Key Row t) :
    (l.write t r).version t key =
      if Schema.key t r = key then some r else l.version t key := by
  rw [version, own_write_same, held_write, List.reverse_append, List.reverse_singleton,
    List.singleton_append, List.cons_append, List.find?_cons, version]
  split <;> simp_all

theorem version_lock_ne {key : Schema.Key Row t'} (r : Row t) (h : t' ≠ t) :
    (l.lock t r).version t' key = l.version t' key := by
  rw [version, version, own_lock, held_lock_ne r h]

theorem version_lock (hnone : l.version t (Schema.key t r) = none) (key : Schema.Key Row t) :
    (l.lock t r).version t key =
      if Schema.key t r = key then some r else l.version t key := by
  rw [version, own_lock, held_lock_same, List.find?_append]
  by_cases hkey : Schema.key t r = key
  · subst hkey
    rw [version, List.find?_append, Option.or_eq_none_iff] at hnone
    rw [hnone.1]
    simp
  · rw [List.find?_cons_of_neg (by simpa using hkey), if_neg hkey, version, List.find?_append]

/-- The row a visit found is the transaction's version. -/
theorem version_hold_self (hv : l.Visits t key (some r)) :
    (l.hold t (some r)).version t key = some r := by
  obtain rfl := hv.key_eq r rfl
  by_cases h : (l.version t (Schema.key t r)).isSome
  · obtain ⟨x, hx⟩ := Option.isSome_iff_exists.mp h
    rw [hold, if_pos h, hx, hv.version x hx]
  · rw [hold, if_neg h, version_lock (Option.not_isSome_iff_eq_none.mp h), if_pos rfl]

/-- A visit leaves every version as it was. -/
theorem version_hold_of_version {o : Option (Row t)} {key' : Schema.Key Row t'} {r' : Row t'}
    (h : l.version t' key' = some r') : (l.hold t o).version t' key' = some r' := by
  obtain hh | ⟨r, -, hnone, hh⟩ := l.hold_cases t o
  · rw [hh, h]
  · rw [hh]
    by_cases ht : t' = t
    · subst ht
      rw [version_lock hnone, h]
      split
      · next hkey =>
        rw [← hkey, hnone] at h
        cases h
      · rfl
    · rw [version_lock_ne r ht, h]

/-- A visit leaves the other rows as they were. -/
theorem version_hold_of_ne {o : Option (Row t)} (hv : l.Visits t key o)
    {key' : Schema.Key Row t} (hne : key' ≠ key) :
    (l.hold t o).version t key' = l.version t key' := by
  obtain hh | ⟨r, rfl, hnone, hh⟩ := l.hold_cases t o
  · rw [hh]
  · rw [hh, version_lock hnone, if_neg]
    rw [hv.key_eq r rfl]
    exact hne.symm

/-- A row that is not the transaction's yet is locked by the visit. -/
theorem mem_held_hold (hv : l.Visits t key (some r)) (hnone : l.version t key = none) :
    r ∈ (l.hold t (some r)).held t := by
  have hkey := hv.key_eq r rfl
  rw [hold, hkey, hnone, if_neg (by simp), held_lock_same]
  exact List.mem_cons_self

/-! ## What an end keeps -/

omit [Schema Row] in
theorem update_cons_suffix {f : (t : T) → List (Row t)} (t : T) (rs : List (Row t)) (t' : T) :
    f t' <:+ Function.update f t (rs ++ f t) t' := by
  by_cases ht : t' = t
  · subst ht
    rw [Function.update_self]
    exact List.suffix_append _ _
  · rw [Function.update_of_ne ht]

theorem extends_lock (t : T) (r : Row t) : l.Extends (l.lock t r) :=
  { Extends.refl l with held := update_cons_suffix t [r] }

theorem extends_hold (t : T) (o : Option (Row t)) : l.Extends (l.hold t o) := by
  obtain h | ⟨r, -, -, h⟩ := l.hold_cases t o
  all_goals rw [h]
  · exact .refl l
  · exact extends_lock t r

theorem extends_write (t : T) (r : Row t) : l.Extends (l.write t r) where
  own t' := by
    by_cases ht : t' = t
    · subst ht
      rw [own_write_same]
      exact List.prefix_append _ _
    · rw [own_write_ne r ht]
  held _ := List.suffix_rfl
  advisory := List.suffix_rfl
  seen := List.suffix_rfl
  met _ := List.suffix_rfl

theorem extends_meet (t : T) (o : Option (Row t)) : l.Extends (l.meet t o) :=
  { Extends.refl l with met := update_cons_suffix t o.toList }

end Local

namespace Prog

open Local

theorem nodup_candidates (db : Db Row) (t : T) (w : Row t → Bool) : (candidates db t w).Nodup :=
  (db t).nodup.sublist (List.filter_sublist.map _)

theorem mem_candidates {db : Db Row} {t : T} {w : Row t → Bool} {key : Schema.Key Row t} :
    key ∈ candidates db t w ↔ ∃ r ∈ db.rows t, w r = true ∧ Schema.key t r = key := by
  simp only [candidates, List.mem_map, List.mem_filter, Db.rows, and_assoc]

theorem find?_isSome_of_mem {db : Db Row} {t : T} {r : Row t} (hr : r ∈ db.rows t) :
    ((db t).find? (Schema.key t r)).isSome := by
  rw [Table.mem_rows_iff.mp hr]
  rfl

/-! ## Ends of a program -/

variable [DecidableEq T]

def Runs : Prog Row L ε α → Local Row L → Except (Failure ε) α → Local Row L → Prop
  | .ret a, l, res, l' => res = .ok a ∧ l' = l
  | .fail e, l, res, l' => res = .error e ∧ l' = l
  | .select label k, l, res, l' => ∃ db n, l.Sees db ∧ (k db).Runs (l.saw label db n) res l'
  | .lock t key w k, l, res, l' =>
    ∃ o, l.Visits t key o ∧ (k (o.filter w)).Runs (l.hold t o) res l'
  | .update t key w f k, l, res, l' =>
    ∃ o, l.Visits t key o ∧ ((o.filter w = none ∧ (k none).Runs (l.hold t o) res l') ∨
      ∃ r, o.filter w = some r ∧
        (((k (some (f.apply r))).Runs ((l.hold t o).write t (f.apply r)) res l') ∨
          res = .error .database ∧ l' = l.hold t o))
  | .insert t r skip k, l, res, l' =>
    (res = .error .database ∧ l' = l) ∨
      (l.version t (Schema.key t r) = none ∧ (k .inserted).Runs (l.write t r) res l') ∨
      (∃ x, skip x = true ∧ (k .skipped).Runs (l.meet t (some x)) res l') ∨
      (k .violation).Runs l res l'
  | .advisory n k, l, res, l' => k.Runs (l.advise n) res l'

variable {l l' : Local Row L} {a : α} {b : β} {res : Except (Failure ε) α} {e : Failure ε}

theorem Runs.extends {p : Prog Row L ε α} (h : p.Runs l res l') : l.Extends l' := by
  induction p generalizing l with
  | ret a | fail e =>
    obtain ⟨-, rfl⟩ := h
    exact .refl _
  | select label k ih =>
    obtain ⟨db, n, -, h⟩ := h
    exact (extends_saw label db n).trans (ih db h)
  | lock t key w k ih =>
    obtain ⟨o, -, h⟩ := h
    exact (extends_hold t o).trans (ih _ h)
  | update t key w f k ih =>
    obtain ⟨o, -, ⟨-, h⟩ | ⟨r, -, h | ⟨-, rfl⟩⟩⟩ := h
    · exact (extends_hold t o).trans (ih _ h)
    · exact ((extends_hold t o).trans (extends_write t _)).trans (ih _ h)
    · exact extends_hold t o
  | insert t r skip k ih =>
    obtain ⟨-, rfl⟩ | ⟨-, h⟩ | ⟨x, -, h⟩ | h := h
    · exact .refl _
    · exact (extends_write t r).trans (ih _ h)
    · exact (extends_meet t _).trans (ih _ h)
    · exact ih _ h
  | advisory n k ih => exact (extends_advise n).trans (ih h)

theorem runs_bind {p : Prog Row L ε α} {g : α → Prog Row L ε β} {res : Except (Failure ε) β} :
    (p >>= g).Runs l res l' ↔ (∃ e, res = .error e ∧ p.Runs l (.error e) l') ∨
      ∃ a l₁, p.Runs l (.ok a) l₁ ∧ (g a).Runs l₁ res l' := by
  rw [bind_def]
  induction p generalizing l with
  | ret a =>
    constructor
    · exact fun h => .inr ⟨a, l, ⟨rfl, rfl⟩, h⟩
    · rintro (⟨e, -, h, -⟩ | ⟨_, _, ⟨⟨⟩, rfl⟩, h⟩)
      · cases h
      · exact h
  | fail e =>
    constructor
    · rintro ⟨rfl, rfl⟩
      exact .inl ⟨e, rfl, rfl, rfl⟩
    · rintro (⟨_, rfl, ⟨⟩, rfl⟩ | ⟨_, _, ⟨⟨⟩, -⟩, -⟩)
      exact ⟨rfl, rfl⟩
  | select label k ih =>
    simp only [Prog.bind, Runs, ih]
    grind
  | lock t key w k ih =>
    simp only [Prog.bind, Runs, ih]
    grind
  | update t key w f k ih =>
    simp only [Prog.bind, Runs, ih]
    grind
  | insert t r skip k ih =>
    simp only [Prog.bind, Runs, ih]
    grind
  | advisory n k ih => exact ih

theorem runs_bind_ok {p : Prog Row L ε α} {g : α → Prog Row L ε β} :
    (p >>= g).Runs l (.ok b) l' ↔ ∃ a l₁, p.Runs l (.ok a) l₁ ∧ (g a).Runs l₁ (.ok b) l' := by
  rw [runs_bind]
  constructor
  · rintro (⟨e, h, -⟩ | h)
    · cases h
    · exact h
  · exact .inr

theorem runs_bind_error {p : Prog Row L ε α} {g : α → Prog Row L ε β} :
    (p >>= g).Runs l (.error e) l' ↔ p.Runs l (.error e) l' ∨
      ∃ a l₁, p.Runs l (.ok a) l₁ ∧ (g a).Runs l₁ (.error e) l' := by
  rw [runs_bind]
  constructor
  · rintro (⟨e', h, hp⟩ | h)
    · cases h
      exact .inl hp
    · exact .inr h
  · rintro (h | h)
    · exact .inl ⟨e, rfl, h⟩
    · exact .inr h

/-! ## One statement at a time -/

theorem runs_pure {b : α} :
    (pure b : Prog Row L ε α).Runs l res l' ↔ res = .ok b ∧ l' = l := Iff.rfl

theorem runs_pure_ok {b : α} :
    (pure b : Prog Row L ε α).Runs l (.ok a) l' ↔ a = b ∧ l' = l := by
  simp [runs_pure]

theorem runs_raise {x : ε} :
    (raise x : Prog Row L ε α).Runs l res l' ↔ res = .error (.raised x) ∧ l' = l := Iff.rfl

theorem runs_read {label : L} {f : Db Row → α} :
    (read label f : Prog Row L ε α).Runs l res l' ↔
      ∃ db n, l.Sees db ∧ res = .ok (f db) ∧ l' = l.saw label db n := Iff.rfl

theorem runs_read_ok {label : L} {f : Db Row → α} :
    (read label f : Prog Row L ε α).Runs l (.ok a) l' ↔
      ∃ db n, l.Sees db ∧ a = f db ∧ l' = l.saw label db n := by
  simp only [runs_read, Except.ok.injEq]

theorem runs_raiseIf_ok {c : Prop} [Decidable c] {x : ε} {u : Unit} :
    (raiseIf c x : Prog Row L ε Unit).Runs l (.ok u) l' ↔ ¬c ∧ l' = l := by
  unfold raiseIf
  split
  · next h => simp [runs_raise, h]
  · next h => simp [runs_pure, h]

theorem runs_orRaise_ok {o : Option α} {x : ε} :
    (orRaise o x : Prog Row L ε α).Runs l (.ok a) l' ↔ o = some a ∧ l' = l := by
  cases o with
  | none => simp [orRaise, runs_raise]
  | some b => simp [orRaise, runs_pure, eq_comm]

theorem runs_orRaise_error {o : Option α} {x : ε} :
    (orRaise o x : Prog Row L ε α).Runs l (.error e) l' ↔
      o = none ∧ e = .raised x ∧ l' = l := by
  cases o with
  | none => simp [orRaise, runs_raise]
  | some b => simp [orRaise, runs_pure]

theorem runs_advisoryLock {n : Int} {res : Except (Failure ε) Unit} :
    (advisoryLock n : Prog Row L ε Unit).Runs l res l' ↔ res = .ok () ∧ l' = l.advise n := Iff.rfl

theorem runs_insertRow_ok {t : T} {r : Row t} {o : Inserted}
    (h : (insertRow t r : Prog Row L ε Inserted).Runs l (.ok o) l') :
    (o = .inserted ∧ l.version t (Schema.key t r) = none ∧ l' = l.write t r) ∨
      o = .violation ∧ l' = l := by
  obtain ⟨h, -⟩ | ⟨hnone, h, rfl⟩ | ⟨x, hx, -⟩ | ⟨h, rfl⟩ := h
  · cases h
  · exact .inl ⟨Except.ok.inj h, hnone, rfl⟩
  · cases hx
  · exact .inr ⟨Except.ok.inj h, rfl⟩

/-! ## Tables a program does not write -/

variable {W : T → Prop}

theorem Runs.own_eq {p : Prog Row L ε α} (hp : p.WritesOnly W) (h : p.Runs l res l') {t : T}
    (ht : ¬W t) : l'.own t = l.own t := by
  induction p generalizing l with
  | ret a | fail e =>
    obtain ⟨-, rfl⟩ := h
    rfl
  | select label k ih =>
    obtain ⟨db, n, -, h⟩ := h
    rw [ih db (hp db) h, own_saw]
  | lock t' key w k ih =>
    obtain ⟨o, -, h⟩ := h
    rw [ih _ (hp _) h, own_hold]
  | update t' key w f k ih =>
    have hne : t ≠ t' := fun heq => ht (heq ▸ hp.1)
    obtain ⟨o, -, ⟨-, h⟩ | ⟨r, -, h | ⟨-, rfl⟩⟩⟩ := h
    · rw [ih _ (hp.2 _) h, own_hold]
    · rw [ih _ (hp.2 _) h, own_write_ne _ hne, own_hold]
    · rw [own_hold]
  | insert t' r skip k ih =>
    have hne : t ≠ t' := fun heq => ht (heq ▸ hp.1)
    obtain ⟨-, rfl⟩ | ⟨-, h⟩ | ⟨x, -, h⟩ | h := h
    · rfl
    · rw [ih _ (hp.2 _) h, own_write_ne _ hne]
    · rw [ih _ (hp.2 _) h, own_meet]
    · exact ih _ (hp.2 _) h
  | advisory n k ih => exact (ih hp h).trans (by rw [own_advise])

/-- A row is kept by a program that does not write its table. -/
theorem Runs.version_eq {p : Prog Row L ε α} (hp : p.WritesOnly W) (h : p.Runs l res l') {t : T}
    (ht : ¬W t) {key : Schema.Key Row t} {r : Row t} (hr : l.version t key = some r) :
    l'.version t key = some r := by
  induction p generalizing l with
  | ret a | fail e =>
    obtain ⟨-, rfl⟩ := h
    exact hr
  | select label k ih =>
    obtain ⟨db, n, -, h⟩ := h
    exact ih db (hp db) h hr
  | lock t' key w k ih =>
    obtain ⟨o, -, h⟩ := h
    exact ih _ (hp _) h (version_hold_of_version hr)
  | update t' key' w f k ih =>
    have hne : t ≠ t' := fun heq => ht (heq ▸ hp.1)
    obtain ⟨o, -, ⟨-, h⟩ | ⟨x, -, h | ⟨-, rfl⟩⟩⟩ := h
    · exact ih _ (hp.2 _) h (version_hold_of_version hr)
    · exact ih _ (hp.2 _) h (by rw [version_write_ne _ hne, version_hold_of_version hr])
    · exact version_hold_of_version hr
  | insert t' x skip k ih =>
    have hne : t ≠ t' := fun heq => ht (heq ▸ hp.1)
    obtain ⟨-, rfl⟩ | ⟨-, h⟩ | ⟨y, -, h⟩ | h := h
    · exact hr
    · exact ih _ (hp.2 _) h (by rw [version_write_ne _ hne, hr])
    · exact ih _ (hp.2 _) h hr
    · exact ih _ (hp.2 _) h hr
  | advisory n k ih => exact ih hp h hr

/-! ## Statements over many rows -/

/-- The rows of the snapshot that `w` holds of are locked, and those that still
meet `w` are returned. -/
theorem runs_lockEach {t : T} {w : Row t → Bool} {keys : List (Schema.Key Row t)}
    {rs : List (Row t)} (h : (lockEach t w keys : Prog Row L ε _).Runs l (.ok rs) l') :
    l'.own = l.own ∧ l'.seen = l.seen ∧
      (∀ r ∈ rs, w r = true ∧ l'.version t (Schema.key t r) = some r ∧ Schema.key t r ∈ keys) ∧
      ∀ key ∈ keys, (∃ e ∈ l.seen, ((e.view t).find? key).isSome) →
        (l'.version t key).isSome := by
  induction keys generalizing l rs with
  | nil =>
    obtain ⟨⟨⟩, rfl⟩ := h
    simp
  | cons key keys ih =>
    obtain ⟨o, hv, h⟩ := h
    obtain ⟨rs', l₁, hkeys, ⟨⟩, rfl⟩ := runs_bind_ok.mp h
    obtain ⟨hown, hseen, hrs, hall⟩ := ih hkeys
    have hreads : (lockEach t w keys : Prog Row L ε _).WritesOnly fun _ => False :=
      writesOnly_lockEach t w keys
    refine ⟨by rw [hown, own_hold], by rw [hseen, seen_hold], ?_, ?_⟩
    · intro r hr
      rw [List.mem_append, Option.mem_toList, Option.filter_eq_some_iff] at hr
      rcases hr with ⟨rfl, hw⟩ | hr
      · have hkey := hv.key_eq r rfl
        refine ⟨hw, ?_, by simp [hkey]⟩
        rw [hkey]
        exact hkeys.version_eq hreads not_false (version_hold_self hv)
      · obtain ⟨hw, hversion, hmem⟩ := hrs r hr
        exact ⟨hw, hversion, List.mem_cons_of_mem _ hmem⟩
    · rintro key' (_ | ⟨_, hkey'⟩) ⟨e, he, hfound⟩
      · obtain ⟨r, rfl⟩ := Option.isSome_iff_exists.mp (hv.seen e he hfound)
        rw [hkeys.version_eq hreads not_false (version_hold_self hv)]
        rfl
      · exact hall key' hkey' ⟨e, by rwa [seen_hold], hfound⟩

/-- The rows an UPDATE rewrote, and how it left the rows it visited. -/
theorem runs_updateEach {t : T} {w : Row t → Bool} {f : Change Row t}
    {keys : List (Schema.Key Row t)} {rs : List (Row t)}
    (h : (updateEach t w f keys : Prog Row L ε _).Runs l (.ok rs) l') (hkeys : keys.Nodup) :
    l'.own t = l.own t ++ rs ∧ l'.seen = l.seen ∧
      (∀ x ∈ rs, ∃ r, w r = true ∧ x = f.apply r ∧ Schema.key t r ∈ keys ∧
        l'.version t (Schema.key t r) = some x ∧
        (l.version t (Schema.key t r) = some r ∨
          l.version t (Schema.key t r) = none ∧ r ∈ l'.held t)) ∧
      (∀ key ∈ keys, (∃ e ∈ l.seen, ((e.view t).find? key).isSome) →
        ∃ x, l'.version t key = some x ∧ (x ∈ rs ∨ w x = false)) ∧
      ∀ key, key ∉ keys → l'.version t key = l.version t key := by
  induction keys generalizing l rs with
  | nil =>
    obtain ⟨⟨⟩, rfl⟩ := h
    simp
  | cons key keys ih =>
    obtain ⟨hnot, hnodup⟩ := List.nodup_cons.mp hkeys
    obtain ⟨o, hv, ⟨hnone, h⟩ | ⟨r, hr, h | ⟨h, -⟩⟩⟩ := h
    · obtain ⟨rs', l₁, hrun, ⟨⟩, rfl⟩ := runs_bind_ok.mp h
      obtain ⟨hown, hseen, hrs, hall, hrest⟩ := ih hrun hnodup
      refine ⟨by simpa using hown, by rw [hseen, seen_hold], ?_, ?_, ?_⟩
      · intro x hx
        obtain ⟨r, hw, rfl, hmem, hversion, hold⟩ := hrs x (by simpa using hx)
        refine ⟨r, hw, rfl, List.mem_cons_of_mem _ hmem, hversion, ?_⟩
        rwa [version_hold_of_ne hv (fun heq => hnot (heq ▸ hmem))] at hold
      · rintro key' hkey' ⟨e, he, hfound⟩
        rcases List.mem_cons.mp hkey' with rfl | hkey'
        · obtain ⟨r, rfl⟩ := Option.isSome_iff_exists.mp (hv.seen e he hfound)
          refine ⟨r, (hrest key' hnot).trans (version_hold_self hv), .inr ?_⟩
          simpa [Option.filter_some] using hnone
        · obtain ⟨x, hx, hor⟩ := hall key' hkey' ⟨e, by rwa [seen_hold], hfound⟩
          exact ⟨x, hx, by simpa using hor⟩
      · intro key' hkey'
        rw [List.mem_cons, not_or] at hkey'
        obtain ⟨hne, hmem⟩ := hkey'
        rw [hrest key' hmem, version_hold_of_ne hv hne]
    · obtain ⟨rs', l₁, hrun, ⟨⟩, rfl⟩ := runs_bind_ok.mp h
      obtain ⟨rfl, hw⟩ := Option.filter_eq_some_iff.mp hr
      have hkey : Schema.key t (f.apply r) = key := (f.key_apply r).trans (hv.key_eq r rfl)
      have hother : ∀ key' ≠ key, ((l.hold t (some r)).write t (f.apply r)).version t key' =
          l.version t key' := by
        intro key' hne
        rw [version_write, if_neg (by rw [hkey]; exact hne.symm), version_hold_of_ne hv hne]
      obtain ⟨hown, hseen, hrs, hall, hrest⟩ := ih hrun hnodup
      have hself : l'.version t key = some (f.apply r) := by
        rw [hrest key hnot, version_write, if_pos hkey]
      refine ⟨by simp [hown], by simp [hseen], ?_, ?_, ?_⟩
      · intro x hx
        rcases List.mem_cons.mp hx with rfl | hx
        · obtain rfl := hv.key_eq r rfl
          refine ⟨r, hw, rfl, List.mem_cons_self, hself, ?_⟩
          cases hold : l.version t (Schema.key t r) with
          | some y =>
            obtain ⟨⟩ := hv.version y hold
            exact .inl rfl
          | none =>
            refine .inr ⟨rfl, (hrun.extends.held t).subset ?_⟩
            rw [held_write]
            exact mem_held_hold hv hold
        · obtain ⟨y, hwy, rfl, hmem, hversion, hold⟩ := hrs x hx
          refine ⟨y, hwy, rfl, List.mem_cons_of_mem _ hmem, hversion, ?_⟩
          rwa [hother _ fun heq => hnot (heq ▸ hmem)] at hold
      · rintro key' hkey' ⟨e, he, hfound⟩
        rcases List.mem_cons.mp hkey' with rfl | hkey'
        · exact ⟨_, hself, .inl List.mem_cons_self⟩
        · obtain ⟨x, hx, hor⟩ := hall key' hkey' ⟨e, by simpa using he, hfound⟩
          exact ⟨x, hx, hor.imp_left (List.mem_cons_of_mem _)⟩
      · intro key' hkey'
        rw [List.mem_cons, not_or] at hkey'
        obtain ⟨hne, hmem⟩ := hkey'
        rw [hrest key' hmem, hother key' hne]
    · cases h

theorem length_of_updateEach {t : T} {w : Row t → Bool} {f : Change Row t}
    {keys : List (Schema.Key Row t)} {rs : List (Row t)}
    (h : (updateEach t w f keys : Prog Row L ε _).Runs l (.ok rs) l') :
    rs.length ≤ keys.length := by
  induction keys generalizing l rs with
  | nil =>
    obtain ⟨⟨⟩, rfl⟩ := h
    simp
  | cons key keys ih =>
    obtain ⟨o, -, ⟨-, h⟩ | ⟨r, -, h | ⟨h, -⟩⟩⟩ := h
    · obtain ⟨rs', l₁, hrun, ⟨⟩, rfl⟩ := runs_bind_ok.mp h
      simpa using Nat.le_succ_of_le (ih hrun)
    · obtain ⟨rs', l₁, hrun, ⟨⟩, rfl⟩ := runs_bind_ok.mp h
      simpa using ih hrun
    · cases h

theorem runs_selectForUpdate {label : L} {t : T} {w : Row t → Bool} {rs : List (Row t)}
    (h : (selectForUpdate label t w : Prog Row L ε _).Runs l (.ok rs) l') :
    ∃ db n, l.Sees db ∧ l'.own = l.own ∧
      l'.seen = ⟨label, db, l.own, l.held, l.advisory, n⟩ :: l.seen ∧
      (∀ r ∈ rs, w r = true ∧ l'.version t (Schema.key t r) = some r) ∧
      ∀ r ∈ db.rows t, w r = true → (l'.version t (Schema.key t r)).isSome := by
  obtain ⟨db, n, hsees, h⟩ := h
  obtain ⟨hown, hseen, hrs, hall⟩ := runs_lockEach h
  refine ⟨db, n, hsees, hown, hseen, fun r hr => ⟨(hrs r hr).1, (hrs r hr).2.1⟩, ?_⟩
  intro r hr hw
  exact hall _ (mem_candidates.mpr ⟨r, hr, hw, rfl⟩)
    ⟨_, List.mem_cons_self, find?_isSome_of_mem hr⟩

theorem runs_updateWhere {label : L} {t : T} {w : Row t → Bool} {f : Change Row t}
    {rs : List (Row t)} (h : (updateWhere label t w f : Prog Row L ε _).Runs l (.ok rs) l') :
    ∃ db n, l.Sees db ∧ l'.own t = l.own t ++ rs ∧
      l'.seen = ⟨label, db, l.own, l.held, l.advisory, n⟩ :: l.seen ∧
      (∀ x ∈ rs, ∃ r, w r = true ∧ x = f.apply r ∧ l'.version t (Schema.key t r) = some x ∧
        (l.version t (Schema.key t r) = some r ∨
          l.version t (Schema.key t r) = none ∧ r ∈ l'.held t)) ∧
      ∀ r ∈ db.rows t, w r = true →
        ∃ x, l'.version t (Schema.key t r) = some x ∧ (x ∈ rs ∨ w x = false) := by
  obtain ⟨db, n, hsees, h⟩ := h
  obtain ⟨hown, hseen, hrs, hall, -⟩ := runs_updateEach h (nodup_candidates db t w)
  refine ⟨db, n, hsees, hown, hseen, ?_, ?_⟩
  · intro x hx
    obtain ⟨r, hw, hxr, -, hversion, hold⟩ := hrs x hx
    exact ⟨r, hw, hxr, hversion, hold⟩
  · intro r hr hw
    exact hall _ (mem_candidates.mpr ⟨r, hr, hw, rfl⟩)
      ⟨_, List.mem_cons_self, find?_isSome_of_mem hr⟩

/-- An UPDATE whose condition fixes the key rewrites at most one row. -/
theorem runs_updateWhere_key {label : L} {t : T} {w : Row t → Bool} {f : Change Row t}
    {key : Schema.Key Row t} (hw : ∀ r, w r = true → Schema.key t r = key) {rs : List (Row t)}
    (h : (updateWhere label t w f : Prog Row L ε _).Runs l (.ok rs) l') :
    (rs = [] ∧ l'.own t = l.own t) ∨ ∃ r, rs = [f.apply r] ∧ w r = true ∧
      l'.own t = l.own t ++ [f.apply r] ∧ l'.version t key = some (f.apply r) ∧
      (l.version t key = some r ∨ l.version t key = none ∧ r ∈ l'.held t) := by
  obtain ⟨db, n, -, h⟩ := h
  have hall : ∀ k ∈ candidates db t w, k = key := by
    intro k hk
    obtain ⟨r, -, hwr, rfl⟩ := mem_candidates.mp hk
    exact hw r hwr
  have hnodup := nodup_candidates db t w
  change (updateEach t w f (candidates db t w)).Runs _ _ _ at h
  generalize candidates db t w = keys at h hall hnodup
  obtain ⟨hown, -, hrs, -, -⟩ := runs_updateEach h hnodup
  have hshort : rs.length ≤ 1 := by
    have hlength : rs.length ≤ keys.length := length_of_updateEach h
    have hkeys : keys.length ≤ 1 := by
      rcases keys with _ | ⟨k, _ | ⟨k', ks⟩⟩
      · simp
      · simp
      · rw [hall k (by simp), hall k' (by simp)] at hnodup
        simp at hnodup
    omega
  rcases rs with _ | ⟨x, _ | ⟨y, rs⟩⟩
  · exact .inl ⟨rfl, by simpa using hown⟩
  · obtain ⟨r, hwr, rfl, -, hversion, hold⟩ := hrs x List.mem_cons_self
    rw [hw r hwr] at hversion hold
    exact .inr ⟨r, rfl, hwr, hown, hversion, hold⟩
  · simp at hshort

end Prog

end Sql
