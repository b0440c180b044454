import ExpenseEngine.Sql.Traces

/-!
# Rules for programs among others

`Among P p Q`: a transaction that has `P` when it starts `p` has `Q` when `p`
returns, whatever others commit in between. The assertions are about the local
side of the transaction; what others do shows only in what its visits find.
`Raises E p` bounds the errors `p` can end with.

Results:
1. `Runs.grows`: what a program leaves of the tables it does not write.
2. `Among.bind`, `Among.skip`, `Among.insertOrAbort`, `Among.updateWhere`,
   `Among.selectForUpdate`: one rule for each statement.
3. `Ends.bind`, `Runs.locksNone`: what a program leaves when it fails.
4. `Raises.bind`: the errors of a program from those of its parts.
-/

namespace Sql

variable {T : Type} {Row : T → Type} [Schema Row] {L ε α β : Type}

/-! ## Growth -/

namespace Local

/-- `l'` comes after `l`, and the writes in between are on the tables `W`. -/
structure Grows (W : T → Prop) (l l' : Local Row L) : Prop where
  extended : l.Extends l'
  own : ∀ t, ¬W t → l'.own t = l.own t
  version : ∀ t, ¬W t → ∀ key r, l.version t key = some r → l'.version t key = some r
  /-- A row that was inserted is not locked later. -/
  inserted : ∀ t, ∀ r ∈ l.own t, (∀ x ∈ l.held t, Schema.key t x ≠ Schema.key t r) →
    ∀ x ∈ l'.held t, Schema.key t x ≠ Schema.key t r

theorem Grows.trans {W : T → Prop} {l₁ l₂ l₃ : Local Row L} (h : Grows W l₁ l₂)
    (h' : Grows W l₂ l₃) : Grows W l₁ l₃ where
  extended := h.extended.trans h'.extended
  own t ht := (h'.own t ht).trans (h.own t ht)
  version t ht key r hr := h'.version t ht key r (h.version t ht key r hr)
  inserted t r hr hx := h'.inserted t r ((h.extended.own t).subset hr) (h.inserted t r hr hx)

/-- A visit does not lock a row that the transaction has inserted. -/
theorem inserted_hold [DecidableEq T] {l : Local Row L} {t t' : T} {o : Option (Row t')} {r : Row t}
    (hr : r ∈ l.own t) (h : ∀ x ∈ l.held t, Schema.key t x ≠ Schema.key t r) :
    ∀ x ∈ (l.hold t' o).held t, Schema.key t x ≠ Schema.key t r := by
  obtain hh | ⟨y, rfl, hnone, hh⟩ := l.hold_cases t' o
  · rwa [hh]
  · rw [hh]
    intro x hx
    by_cases ht : t = t'
    · subst ht
      rw [held_lock_same] at hx
      rcases List.mem_cons.mp hx with rfl | hx
      · intro hkey
        have hsome := version_isSome (.inl hr : r ∈ l.own t ∨ r ∈ l.held t)
        rw [← hkey, hnone] at hsome
        cases hsome
      · exact h x hx
    · rw [held_lock_ne y ht] at hx
      exact h x hx

end Local

namespace Prog

open Local

variable {l l' : Local Row L} {res : Except (Failure ε) α}

theorem Runs.inserted [DecidableEq T] {p : Prog Row L ε α} (h : p.Runs l res l') {t : T} {r : Row t}
    (hr : r ∈ l.own t) (hfree : ∀ x ∈ l.held t, Schema.key t x ≠ Schema.key t r) :
    ∀ x ∈ l'.held t, Schema.key t x ≠ Schema.key t r := by
  induction p generalizing l with
  | ret a | fail e =>
    obtain ⟨-, rfl⟩ := h
    exact hfree
  | select label k ih =>
    obtain ⟨db, n, -, h⟩ := h
    exact ih db h hr hfree
  | lock t' key w k ih =>
    obtain ⟨o, -, h⟩ := h
    exact ih _ h (by rwa [own_hold]) (inserted_hold hr hfree)
  | update t' key w f k ih =>
    obtain ⟨o, -, ⟨-, h⟩ | ⟨x, -, h | ⟨-, rfl⟩⟩⟩ := h
    · exact ih _ h (by rwa [own_hold]) (inserted_hold hr hfree)
    · refine ih _ h (((extends_write t' _).own t).subset (by rwa [own_hold])) ?_
      rw [held_write]
      exact inserted_hold hr hfree
    · exact inserted_hold hr hfree
  | insert t' x skip k ih =>
    obtain ⟨-, rfl⟩ | ⟨-, h⟩ | ⟨y, -, h⟩ | h := h
    · exact hfree
    · exact ih _ h (((extends_write t' x).own t).subset hr) hfree
    · exact ih _ h hr hfree
    · exact ih _ h hr hfree
  | advisory n k ih => exact ih h hr hfree

theorem writesOnly_true (p : Prog Row L ε α) : p.WritesOnly fun _ => True := by
  induction p with
  | ret a | fail e => trivial
  | select label k ih => exact ih
  | lock t key w k ih => exact ih
  | update t key w f k ih => exact ⟨trivial, ih⟩
  | insert t r skip k ih => exact ⟨trivial, ih⟩
  | advisory n k ih => exact ih

theorem Runs.grows [DecidableEq T] {W : T → Prop} {p : Prog Row L ε α} (hp : p.WritesOnly W)
    (h : p.Runs l res l') : l.Grows W l' where
  extended := h.extends
  own _ ht := h.own_eq hp ht
  version _ ht _ _ hr := h.version_eq hp ht hr
  inserted _ _ hr hfree := h.inserted hr hfree

/-! ## Assertions on the local side -/

/-- Partial correctness beside other transactions. -/
def Among [DecidableEq T] (P : Local Row L → Prop) (p : Prog Row L ε α)
    (Q : α → Local Row L → Prop) : Prop :=
  ∀ ⦃l a l'⦄, P l → p.Runs l (.ok a) l' → Q a l'

namespace Among

variable {P P' : Local Row L → Prop} {p : Prog Row L ε α} {Q Q' : α → Local Row L → Prop}
  {R : β → Local Row L → Prop} {g : α → Prog Row L ε β} [DecidableEq T]

theorem bind (hp : Among P p Q) (hg : ∀ a, Among (Q a) (g a) R) : Among P (p >>= g) R := by
  intro l b l' hP h
  obtain ⟨a, l₁, hpa, hga⟩ := runs_bind_ok.mp h
  exact hg a (hp hP hpa) hga

theorem weaken (h : Among P p Q) (hP : ∀ l, P' l → P l) (hQ : ∀ a l, Q a l → Q' a l) :
    Among P' p Q' :=
  fun _ _ _ hP' he => hQ _ _ (h (hP _ hP') he)

/-- A fact that does not depend on the local side is assumed before the program
runs. -/
theorem assume {φ : Prop} (h : φ → Among P p Q) : Among (fun l => P l ∧ φ) p Q :=
  fun _ _ _ hP he => h hP.2 hP.1 he

theorem pure {a : α} (h : ∀ l, P l → Q a l) : Among P (Pure.pure a : Prog Row L ε α) Q := by
  intro l b l' hP he
  obtain ⟨rfl, rfl⟩ := runs_pure_ok.mp he
  exact h l' hP

theorem raise {e : ε} : Among P (Prog.raise e : Prog Row L ε α) Q :=
  fun _ _ _ _ he => nomatch he.1

theorem orRaise {o : Option α} {e : ε} :
    Among P (Prog.orRaise o e : Prog Row L ε α) fun a l => P l ∧ o = some a := by
  intro l a l' hP he
  obtain ⟨ho, rfl⟩ := runs_orRaise_ok.mp he
  exact ⟨hP, ho⟩

theorem raiseIf {c : Prop} [Decidable c] {e : ε} :
    Among P (Prog.raiseIf c e : Prog Row L ε Unit) fun _ l => P l ∧ ¬c := by
  intro l a l' hP he
  obtain ⟨hc, rfl⟩ := runs_raiseIf_ok.mp he
  exact ⟨hP, hc⟩

theorem read {label : L} {f : Db Row → α}
    (h : ∀ l db n, P l → l.Sees db → Q (f db) (l.saw label db n)) :
    Among P (Prog.read label f : Prog Row L ε α) Q := by
  intro l a l' hP he
  obtain ⟨db, n, hsees, rfl, rfl⟩ := runs_read_ok.mp he
  exact h l db n hP hsees

theorem insertOrAbort {t : T} {r : Row t} {Q : Unit → Local Row L → Prop}
    (h : ∀ l, P l → l.version t (Schema.key t r) = none → Q () (l.write t r)) :
    Among P (Prog.insertOrAbort t r : Prog Row L ε Unit) Q := by
  rintro l u l' hP (⟨he, -⟩ | ⟨hnone, -, rfl⟩ | ⟨x, -, he, -⟩ | ⟨he, -⟩)
  · cases he
  · exact h l hP hnone
  · cases he
  · cases he

/-- An INSERT whose refusals the program goes on to reject. -/
theorem insertRow {t : T} {r : Row t} {Q : Local Row L → Prop}
    (h : ∀ l, P l → l.version t (Schema.key t r) = none → Q (l.write t r)) :
    Among P (Prog.insertRow t r : Prog Row L ε _) fun o l => o = .inserted → Q l := by
  intro l o l' hP he ho
  rcases runs_insertRow_ok he with ⟨-, hnone, rfl⟩ | ⟨rfl, -⟩
  · exact h l hP hnone
  · cases ho

/-- An UPDATE whose condition fixes the key. The row it rewrites is the version
the transaction has, or one it locks now. -/
theorem updateWhere {label : L} {t : T} {w : Row t → Bool} {f : Change Row t}
    {key : Schema.Key Row t} (hw : ∀ r, w r = true → Schema.key t r = key)
    {Q : List (Row t) → Local Row L → Prop}
    (hnone : ∀ l l', P l → l.Grows (· = t) l' → l'.own t = l.own t → Q [] l')
    (hsome : ∀ l l' r, P l → l.Grows (· = t) l' → w r = true →
      l'.own t = l.own t ++ [f.apply r] → l'.version t key = some (f.apply r) →
      (l.version t key = some r ∨ l.version t key = none ∧ r ∈ l'.held t) → Q [f.apply r] l') :
    Among P (Prog.updateWhere label t w f : Prog Row L ε _) Q := by
  intro l rs l' hP he
  have hgrows : l.Grows (· = t) l' := he.grows (writesOnly_updateWhere rfl)
  rcases runs_updateWhere_key hw he with ⟨rfl, hown⟩ | ⟨r, rfl, hwr, hown, hversion, hold⟩
  · exact hnone l l' hP hgrows hown
  · exact hsome l l' r hP hgrows hwr hown hversion hold

/-- A SELECT … FOR UPDATE whose answer is rows that the transaction has. -/
theorem selectForUpdate {label : L} {t : T} {w : Row t → Bool}
    {Q : List (Row t) → Local Row L → Prop}
    (h : ∀ l l' rs, P l → l.Grows (fun _ => False) l' →
      (∀ r ∈ rs, w r = true ∧ l'.version t (Schema.key t r) = some r) → Q rs l') :
    Among P (Prog.selectForUpdate label t w : Prog Row L ε _) Q := by
  intro l rs l' hP he
  obtain ⟨db, n, -, -, -, hrs, -⟩ := runs_selectForUpdate he
  exact h l l' rs hP (he.grows (writesOnly_selectForUpdate label t w)) hrs

/-! ### Frames -/

/-- The assertion survives whatever a program does that writes `W` alone. -/
def Framed (W : T → Prop) (P : Local Row L → Prop) : Prop :=
  ∀ ⦃l l'⦄, l.Grows W l' → P l → P l'

theorem frame {W : T → Prop} (hp : p.WritesOnly W) (hP : Framed W P) : Among P p fun _ => P :=
  fun _ _ _ h he => hP (he.grows hp) h

/-- A statement on tables the assertion does not read, before the rest. -/
theorem skip {W : T → Prop} (hp : p.WritesOnly W) (hP : Framed W P)
    (hg : ∀ a, Among P (g a) R) : Among P (p >>= g) R :=
  (frame hp hP).bind hg

end Among

/-! ## Results and failures -/

/-- What a program leaves when it returns or fails. -/
def Ends [DecidableEq T] (P : Local Row L → Prop) (p : Prog Row L ε α)
    (R : Except (Failure ε) α → Local Row L → Prop) : Prop :=
  ∀ ⦃l res l'⦄, P l → p.Runs l res l' → R res l'

/-- The program locks no committed row, and the labels of its SELECTs are in
`V`. -/
def LocksNone (V : L → Prop) : Prog Row L ε α → Prop
  | .ret _ | .fail _ => True
  | .select label k => V label ∧ ∀ db, (k db).LocksNone V
  | .lock _ _ _ _ | .update _ _ _ _ _ => False
  | .insert _ _ _ k => ∀ o, (k o).LocksNone V
  | .advisory _ k => k.LocksNone V

section Failures

variable {P : Local Row L → Prop} {p : Prog Row L ε α} {Q : α → Local Row L → Prop}
  {g : α → Prog Row L ε β} {R : Except (Failure ε) β → Local Row L → Prop} {V : L → Prop}

theorem Ends.bind [DecidableEq T] (hp : ∀ ⦃l f l'⦄, P l → p.Runs l (.error f) l' → R (.error f) l')
    (hq : Among P p Q) (hg : ∀ a, Ends (Q a) (g a) R) : Ends P (p >>= g) R := by
  intro l res l' hP h
  rcases runs_bind.mp h with ⟨f, rfl, hf⟩ | ⟨a, l₁, hpa, hga⟩
  · exact hp hP hf
  · exact hg a (hq hP hpa) hga

theorem LocksNone.bind (hp : p.LocksNone V) (hg : ∀ a, (g a).LocksNone V) :
    (p >>= g).LocksNone V := by
  rw [bind_def]
  induction p with
  | ret a => exact hg a
  | fail e => trivial
  | select label k ih => exact ⟨hp.1, fun db => ih db (hp.2 db)⟩
  | lock t key w k ih => exact hp.elim
  | update t key w f k ih => exact hp.elim
  | insert t r skip k ih => exact fun o => ih o (hp o)
  | advisory n k ih => exact ih hp

@[simp] theorem locksNone_pure (a : α) : (pure a : Prog Row L ε α).LocksNone V := trivial

@[simp] theorem locksNone_raise (e : ε) : (raise e : Prog Row L ε α).LocksNone V := trivial

theorem locksNone_read {label : L} (f : Db Row → α) (h : V label) :
    (read label f : Prog Row L ε α).LocksNone V := ⟨h, fun _ => trivial⟩

@[simp] theorem locksNone_raiseIf (c : Prop) [Decidable c] (e : ε) :
    (raiseIf c e : Prog Row L ε Unit).LocksNone V := by
  unfold raiseIf
  split <;> trivial

@[simp] theorem locksNone_orRaise (o : Option α) (e : ε) :
    (orRaise o e : Prog Row L ε α).LocksNone V := by
  cases o <;> trivial

@[simp] theorem locksNone_insertOrAbort (t : T) (r : Row t) :
    (insertOrAbort t r : Prog Row L ε Unit).LocksNone V := by
  intro o
  cases o <;> trivial

@[simp] theorem locksNone_insertOrSkip (t : T) (r : Row t) (skip : Row t → Bool) :
    (insertOrSkip t r skip : Prog Row L ε _).LocksNone V := fun _ => trivial

@[simp] theorem locksNone_advisoryLock (n : Int) :
    (advisoryLock n : Prog Row L ε Unit).LocksNone V := trivial

/-- The rows locked before are the rows locked after, and what the program saw
it saw under the labels `V`. -/
theorem Runs.locksNone [DecidableEq T] (hp : p.LocksNone V) (h : p.Runs l res l') :
    l'.held = l.held ∧ ∀ e ∈ l'.seen, e ∈ l.seen ∨ V e.label := by
  induction p generalizing l with
  | ret a | fail e =>
    obtain ⟨-, rfl⟩ := h
    exact ⟨rfl, fun e he => .inl he⟩
  | select label k ih =>
    obtain ⟨db, n, -, h⟩ := h
    obtain ⟨hheld, hseen⟩ := ih db (hp.2 db) h
    refine ⟨hheld, fun e he => ?_⟩
    rcases hseen e he with he | he
    · rcases List.mem_cons.mp he with rfl | he
      · exact .inr hp.1
      · exact .inl he
    · exact .inr he
  | lock t key w k ih => exact hp.elim
  | update t key w f k ih => exact hp.elim
  | insert t r skip k ih =>
    obtain ⟨-, rfl⟩ | ⟨-, h⟩ | ⟨y, -, h⟩ | h := h
    · exact ⟨rfl, fun e he => .inl he⟩
    · exact ih (l := l.write t r) _ (hp _) h
    · exact ih (l := l.meet t (some y)) _ (hp _) h
    · exact ih _ (hp _) h
  | advisory n k ih => exact ih (l := l.advise n) hp h

/-- An UPDATE whose condition fixes the key, by a transaction that has no row of
the table: it finds nothing, or locks a row that meets the condition. -/
theorem Runs.updateWhere_first [DecidableEq T] {label : L} {t : T} {w : Row t → Bool}
    {f : Change Row t}
    {key : Schema.Key Row t} (hw : ∀ r, w r = true → Schema.key t r = key)
    {res : Except (Failure ε) (List (Row t))} (hown : l.own t = []) (hheld : l.held t = [])
    (h : (updateWhere label t w f : Prog Row L ε _).Runs l res l') :
    res = .ok [] ∨ ∃ r, w r = true ∧ l'.held t = [r] := by
  obtain ⟨db, n, -, h⟩ := h
  have hall : ∀ k ∈ candidates db t w, k = key := by
    intro k hk
    obtain ⟨r, -, hwr, rfl⟩ := mem_candidates.mp hk
    exact hw r hwr
  have hnodup := nodup_candidates db t w
  change (updateEach t w f (candidates db t w)).Runs _ _ _ at h
  generalize candidates db t w = keys at h hall hnodup
  have hlock : ∀ r, ((l.saw label db n).hold t (some r)).held t = [r] := by
    intro r
    simp [Local.hold, Local.version, Local.lock, Local.saw, hown, hheld]
  cases keys with
  | nil => exact .inl h.1
  | cons k keys =>
    obtain rfl : keys = [] := by
      cases keys with
      | nil => rfl
      | cons k' keys =>
        rw [hall k (by simp), hall k' (by simp)] at hnodup
        simp at hnodup
    obtain ⟨o, -, ⟨-, h⟩ | ⟨r, hr, h⟩⟩ := h
    · exact .inl h.1
    · obtain ⟨rfl, hwr⟩ := Option.filter_eq_some_iff.mp hr
      refine .inr ⟨r, hwr, ?_⟩
      rcases h with ⟨-, rfl⟩ | ⟨-, rfl⟩
      · exact hlock r
      · exact hlock r

end Failures

/-! ## Errors -/

/-- Every error the code of the program raises is in `E`. -/
def Raises (E : ε → Prop) : Prog Row L ε α → Prop
  | .ret _ => True
  | .fail (.raised e) => E e
  | .fail .database => True
  | .select _ k => ∀ db, (k db).Raises E
  | .lock _ _ _ k => ∀ r, (k r).Raises E
  | .update _ _ _ _ k => ∀ r, (k r).Raises E
  | .insert _ _ _ k => ∀ o, (k o).Raises E
  | .advisory _ k => k.Raises E

variable {E E' : ε → Prop}

theorem Raises.mono {p : Prog Row L ε α} (hp : p.Raises E) (h : ∀ e, E e → E' e) :
    p.Raises E' := by
  induction p with
  | ret a => trivial
  | fail e =>
    cases e with
    | raised e => exact h e hp
    | database => trivial
  | select label k ih => exact fun db => ih db (hp db)
  | lock t key w k ih => exact fun r => ih r (hp r)
  | update t key w f k ih => exact fun r => ih r (hp r)
  | insert t r skip k ih => exact fun o => ih o (hp o)
  | advisory n k ih => exact ih hp

theorem Raises.bind {p : Prog Row L ε α} {g : α → Prog Row L ε β} (hp : p.Raises E)
    (hg : ∀ a, (g a).Raises E) : (p >>= g).Raises E := by
  rw [bind_def]
  induction p with
  | ret a => exact hg a
  | fail e => cases e <;> exact hp
  | select label k ih => exact fun db => ih db (hp db)
  | lock t key w k ih => exact fun r => ih r (hp r)
  | update t key w f k ih => exact fun r => ih r (hp r)
  | insert t r skip k ih => exact fun o => ih o (hp o)
  | advisory n k ih => exact ih hp

@[simp] theorem raises_pure (a : α) : (pure a : Prog Row L ε α).Raises E := trivial

@[simp] theorem raises_read (label : L) (f : Db Row → α) :
    (read label f : Prog Row L ε α).Raises E := fun _ => trivial

theorem raises_raiseIf {c : Prop} [Decidable c] {e : ε} (h : c → E e) :
    (raiseIf c e : Prog Row L ε Unit).Raises E := by
  unfold raiseIf
  split
  · next hc => exact h hc
  · trivial

theorem raises_orRaise {o : Option α} {e : ε} (h : o = none → E e) :
    (orRaise o e : Prog Row L ε α).Raises E := by
  cases o with
  | none => exact h rfl
  | some a => trivial

theorem raises_lockEach (t : T) (w : Row t → Bool) (keys : List (Schema.Key Row t)) :
    (lockEach t w keys : Prog Row L ε _).Raises E := by
  induction keys with
  | nil => trivial
  | cons key keys ih => exact fun _ => Raises.bind ih fun _ => trivial

@[simp] theorem raises_selectForUpdate (label : L) (t : T) (w : Row t → Bool) :
    (selectForUpdate label t w : Prog Row L ε _).Raises E :=
  fun _ => raises_lockEach t w _

theorem raises_updateEach (t : T) (w : Row t → Bool) (f : Change Row t)
    (keys : List (Schema.Key Row t)) : (updateEach t w f keys : Prog Row L ε _).Raises E := by
  induction keys with
  | nil => trivial
  | cons key keys ih => exact fun _ => Raises.bind ih fun _ => trivial

@[simp] theorem raises_updateWhere (label : L) (t : T) (w : Row t → Bool) (f : Change Row t) :
    (updateWhere label t w f : Prog Row L ε _).Raises E :=
  fun _ => raises_updateEach t w f _

@[simp] theorem raises_insertRow (t : T) (r : Row t) :
    (insertRow t r : Prog Row L ε _).Raises E := fun _ => trivial

@[simp] theorem raises_insertOrSkip (t : T) (r : Row t) (skip : Row t → Bool) :
    (insertOrSkip t r skip : Prog Row L ε _).Raises E := fun _ => trivial

@[simp] theorem raises_insertOrAbort (t : T) (r : Row t) :
    (insertOrAbort t r : Prog Row L ε Unit).Raises E := by
  intro o
  cases o <;> trivial

theorem raises_upsertEach {t : T} {w : Row t → Bool} {f : Change Row t} {rs : List (Row t)}
    {touched : List (Schema.Key Row t)} :
    (upsertEach t w f rs touched : Prog Row L ε Unit).Raises E := by
  induction rs generalizing touched with
  | nil => trivial
  | cons r rs ih =>
    intro o
    cases o with
    | inserted => exact ih
    | violation => trivial
    | skipped =>
      show Raises E (if _ then _ else _)
      split
      · trivial
      · intro x
        cases x <;> exact ih

end Prog

end Sql
