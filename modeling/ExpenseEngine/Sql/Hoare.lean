import ExpenseEngine.Sql.Exec

/-!
# Rules for programs run alone

`Triple P p Q`: a program that starts on a database with `P` and returns leaves
its answer and its database in `Q`. One rule for each statement, in the order a
program is read.

Results:
1. `Triple.bind`, `Triple.weaken`, `Triple.assume`: composition.
2. `Triple.updateWhere`, `Triple.insertRow`, `Triple.insertOrAbort`: the writes,
   as obligations on the database after them.
3. `Triple.frame`, `Triple.skip`: statements on tables that an assertion does
   not mention.
-/

namespace Sql

variable {T : Type} [DecidableEq T] {Row : T → Type} [Schema Row] {L ε α β : Type}

namespace Prog

/-- Partial correctness of a program that nobody runs beside. -/
def Triple (P : Db Row → Prop) (p : Prog Row L ε α) (Q : α → Db Row → Prop) : Prop :=
  ∀ ⦃db a db'⦄, P db → exec p db = .ok (a, db') → Q a db'

namespace Triple

variable {P P' : Db Row → Prop} {p : Prog Row L ε α} {Q Q' : α → Db Row → Prop}
  {R : β → Db Row → Prop} {g : α → Prog Row L ε β}

/-! ## Composition -/

theorem bind (hp : Triple P p Q) (hg : ∀ a, Triple (Q a) (g a) R) : Triple P (p >>= g) R := by
  intro db b db' hP h
  obtain ⟨a, db₁, hpa, hga⟩ := exec_bind_ok.mp h
  exact hg a (hp hP hpa) hga

theorem weaken (h : Triple P p Q) (hP : ∀ db, P' db → P db) (hQ : ∀ a db, Q a db → Q' a db) :
    Triple P' p Q' :=
  fun _ _ _ hP' he => hQ _ _ (h (hP _ hP') he)

/-- A fact that does not depend on the database is assumed before the program
runs. -/
theorem assume {φ : Prop} (h : φ → Triple P p Q) : Triple (fun db => P db ∧ φ) p Q :=
  fun _ _ _ hP he => h hP.2 hP.1 he

theorem pure {a : α} (h : ∀ db, P db → Q a db) :
    Triple P (Pure.pure a : Prog Row L ε α) Q := by
  intro db b db' hP he
  obtain ⟨rfl, rfl⟩ := exec_pure_ok.mp he
  exact h db' hP

theorem raise {e : ε} : Triple P (Prog.raise e : Prog Row L ε α) Q := nofun

/-! ## Statements -/

theorem orRaise {o : Option α} {e : ε} :
    Triple P (Prog.orRaise o e : Prog Row L ε α) fun a db => P db ∧ o = some a := by
  intro db a db' hP he
  obtain ⟨ho, rfl⟩ := exec_orRaise_ok.mp he
  exact ⟨hP, ho⟩

theorem raiseIf {c : Prop} [Decidable c] {e : ε} :
    Triple P (Prog.raiseIf c e : Prog Row L ε Unit) fun _ db => P db ∧ ¬c := by
  intro db a db' hP he
  obtain ⟨hc, rfl⟩ := exec_raiseIf_ok.mp he
  exact ⟨hP, hc⟩

theorem read {l : L} {f : Db Row → α} :
    Triple P (Prog.read l f : Prog Row L ε α) fun a db => P db ∧ a = f db := by
  intro db a db' hP he
  obtain ⟨rfl, rfl⟩ := exec_read_ok.mp he
  exact ⟨hP, rfl⟩

theorem updateWhere {l : L} {t : T} {w : Row t → Bool} {f : Change Row t}
    {Q : List (Row t) → Db Row → Prop}
    (h : ∀ db, P db → Q (((db.rows t).filter w).map f.apply) (db.modify t w f)) :
    Triple P (Prog.updateWhere l t w f : Prog Row L ε _) Q := by
  intro db rs db' hP he
  obtain ⟨rfl, rfl⟩ := exec_updateWhere he
  exact h db hP

/-- An INSERT whose refusals the program goes on to reject. -/
theorem insertRow {t : T} {r : Row t} {Q : Db Row → Prop}
    (h : ∀ db, P db → db.tryInsert t r (fun _ => false) = some .inserted → Q (db.put t r)) :
    Triple P (Prog.insertRow t r : Prog Row L ε _) fun o db => o = .inserted → Q db := by
  intro db o db' hP he ho
  obtain ⟨hins, rfl⟩ := exec_insertRow_ok.mp he
  subst ho
  exact h db hP hins

theorem insertOrAbort {t : T} {r : Row t} {Q : Unit → Db Row → Prop}
    (h : ∀ db, P db → db.tryInsert t r (fun _ => false) = some .inserted → Q () (db.put t r)) :
    Triple P (Prog.insertOrAbort t r : Prog Row L ε Unit) Q := by
  intro db u db' hP he
  obtain ⟨hins, rfl⟩ := exec_insertOrAbort_ok.mp he
  exact h db hP hins

/-! ## Frames -/

/-- The assertion reads only the tables outside `W`. -/
def Framed (W : T → Prop) (P : Db Row → Prop) : Prop :=
  ∀ ⦃db db'⦄, (∀ t, ¬W t → db' t = db t) → P db → P db'

theorem frame {W : T → Prop} (hp : p.WritesOnly W) (hP : Framed W P) : Triple P p fun _ => P :=
  fun _ _ _ h he => hP (fun _ ht => exec_frame hp he ht) h

/-- A statement on tables the assertion does not read, before the rest. -/
theorem skip {W : T → Prop} (hp : p.WritesOnly W) (hP : Framed W P)
    (hg : ∀ a, Triple P (g a) R) : Triple P (p >>= g) R :=
  (frame hp hP).bind hg

end Triple

end Prog

end Sql
