import ExpenseEngine.Sql.Uniqueness
import ExpenseEngine.Sql.Among
import ExpenseEngine.Sql.Rewrites

/-!
# Programs that rely on the others

A `Rely` says what the other parties may make of the committed tables while a
program runs. `p.Relies R E Q l db` says that `p`, started with the local side
`l` while `db` is committed, fails only as `E` allows and returns only with `Q`,
whatever the others do within `R`. It follows the statements of `p` over the
tables themselves, so it speaks of what a snapshot shows and of which INSERT is
refused; `Runs` forgets both.

Results:
1. `Relies.bind`, `Relies.guard`, `relies_read`, `relies_insert`,
   `relies_updateWhere`: one rule for each statement.
2. `Relies.exec_ok`, `Relies.exec_error`: a program run alone.
3. `Relying.run`: parties that rely on what the commits of the others guarantee.
4. `State.Alone.finishes`: a party that nobody runs beside ends.
-/

namespace Sql

variable {T : Type} {Row : T → Type} [Schema Row] {L ε α β ι : Type}

/-- What others may make of the committed tables, in any number of commits. -/
structure Rely (Row : T → Type) [Schema Row] where
  later : Db Row → Db Row → Prop
  refl : ∀ db, later db db
  trans : ∀ {db₁ db₂ db₃}, later db₁ db₂ → later db₂ db₃ → later db₁ db₃

namespace Prog

variable {R : Rely Row} {E E' : Failure ε → Prop} {Q Q' : α → Local Row L → Db Row → Prop}
  [DecidableEq T]

/-- The others may commit before every statement and after the last one. -/
def Relies (R : Rely Row) (E : Failure ε → Prop) (Q : α → Local Row L → Db Row → Prop) :
    Prog Row L ε α → Local Row L → Db Row → Prop
  | .ret a, l, db => ∀ db', R.later db db' → Q a l db'
  | .fail e, _, _ => E e
  | .select label k, l, db => ∀ db' n, R.later db db' →
      (k (l.view db')).Relies R E Q (l.saw label (l.view db') n) db'
  | .lock t key w k, l, db => ∀ db', R.later db db' →
      (k (((l.view db' t).find? key).filter w)).Relies R E Q
        (l.hold t ((l.view db' t).find? key)) db'
  | .update t key w f k, l, db => ∀ db', R.later db db' →
      match ((l.view db' t).find? key).filter w with
      | none => (k none).Relies R E Q (l.hold t ((l.view db' t).find? key)) db'
      | some r =>
        if (l.view db').accepts t (f.apply r) then
          (k (some (f.apply r))).Relies R E Q
            ((l.hold t ((l.view db' t).find? key)).write t (f.apply r)) db'
        else E .database
  | .insert t r skip k, l, db => ∀ db', R.later db db' →
      match (l.view db').tryInsert t r skip with
      | none => E .database
      | some .inserted => (k .inserted).Relies R E Q (l.write t r) db'
      | some .skipped =>
        (k .skipped).Relies R E Q (l.meet t ((l.view db' t).rows.find? skip)) db'
      | some .violation => (k .violation).Relies R E Q l db'
  | .advisory n k, l, db => k.Relies R E Q (l.advise n) db

variable {p : Prog Row L ε α} {l : Local Row L} {db db' : Db Row}

/-- What holds now holds after the others have committed. -/
theorem Relies.later (h : p.Relies R E Q l db) (hdb : R.later db db') : p.Relies R E Q l db' := by
  induction p generalizing l with
  | ret a => exact fun db'' h' => h db'' (R.trans hdb h')
  | fail e => exact h
  | select label k ih => exact fun db'' n h' => h db'' n (R.trans hdb h')
  | lock t key w k ih => exact fun db'' h' => h db'' (R.trans hdb h')
  | update t key w f k ih => exact fun db'' h' => h db'' (R.trans hdb h')
  | insert t r skip k ih => exact fun db'' h' => h db'' (R.trans hdb h')
  | advisory n k ih => exact ih h

theorem Relies.mono (h : p.Relies R E Q l db) (hE : ∀ e, E e → E' e)
    (hQ : ∀ a l db, Q a l db → Q' a l db) : p.Relies R E' Q' l db := by
  induction p generalizing l db with
  | ret a => exact fun db' h' => hQ a l db' (h db' h')
  | fail e => exact hE e h
  | select label k ih => exact fun db' n h' => ih _ (h db' n h')
  | lock t key w k ih => exact fun db' h' => ih _ (h db' h')
  | update t key w f k ih =>
    intro db' h'
    have h := h db' h'
    split at h
    · exact ih _ h
    · split at h
      · next haccepts =>
        rw [if_pos haccepts]
        exact ih _ h
      · next haccepts =>
        rw [if_neg haccepts]
        exact hE _ h
  | insert t r skip k ih =>
    intro db' h'
    have h := h db' h'
    split at h
    · exact hE _ h
    · exact ih _ h
    · exact ih _ h
    · exact ih _ h
  | advisory n k ih => exact ih h

/-! ## Composition -/

variable {g : α → Prog Row L ε β} {S : β → Local Row L → Db Row → Prop}

theorem Relies.bind (h : p.Relies R E (fun a l db => (g a).Relies R E S l db) l db) :
    (p >>= g).Relies R E S l db := by
  rw [bind_def]
  induction p generalizing l db with
  | ret a => exact h db (R.refl db)
  | fail e => exact h
  | select label k ih => exact fun db' n h' => ih _ (h db' n h')
  | lock t key w k ih => exact fun db' h' => ih _ (h db' h')
  | update t key w f k ih =>
    intro db' h'
    have h := h db' h'
    split at h
    · exact ih _ h
    · dsimp only
      split at h
      · next haccepts =>
        rw [if_pos haccepts]
        exact ih _ h
      · next haccepts =>
        rw [if_neg haccepts]
        exact h
  | insert t r skip k ih =>
    intro db' h'
    have h := h db' h'
    split at h
    · exact h
    · exact ih _ h
    · exact ih _ h
    · exact ih _ h
  | advisory n k ih => exact ih h

/-- What a program returns with outlasts the commits of the others. -/
theorem Relies.lasting (h : p.Relies R E Q l db) :
    p.Relies R E (fun a l db => ∀ db', R.later db db' → Q a l db') l db := by
  induction p generalizing l db with
  | ret a => exact fun db' hdb db'' hdb' => h db'' (R.trans hdb hdb')
  | fail e => exact h
  | select label k ih => exact fun db' n hdb => ih _ (h db' n hdb)
  | lock t key w k ih => exact fun db' hdb => ih _ (h db' hdb)
  | update t key w f k ih =>
    intro db' hdb
    have h := h db' hdb
    split at h
    · exact ih _ h
    · split at h
      · next haccepts =>
        rw [if_pos haccepts]
        exact ih _ h
      · next haccepts =>
        rw [if_neg haccepts]
        exact h
  | insert t r skip k ih =>
    intro db' hdb
    have h := h db' hdb
    split at h
    · exact h
    · exact ih _ h
    · exact ih _ h
    · exact ih _ h
  | advisory n k ih => exact ih h

theorem Relies.map {f : α → β} (h : p.Relies R E (fun a => S (f a)) l db) :
    (f <$> p).Relies R E S l db := by
  rw [map_eq_pure_bind]
  exact Relies.bind (h.lasting.mono (fun _ he => he) fun _ _ _ hS => hS)

/-- A program that writes the tables `W` alone, before the rest. -/
theorem Relies.frame {W : T → Prop} (hp : p.WritesOnly W) (hE : p.Raises fun e => E (.raised e))
    (hdatabase : E .database)
    (hg : ∀ a l' db', (∀ t, ¬W t → l'.own t = l.own t) → R.later db db' →
      (g a).Relies R E S l' db') :
    (p >>= g).Relies R E S l db := by
  refine Relies.bind ?_
  induction p generalizing l db with
  | ret a => exact fun db' h' => hg a l db' (fun _ _ => rfl) h'
  | fail e =>
    cases e with
    | raised e => exact hE
    | database => exact hdatabase
  | select label k ih =>
    intro db' n h'
    exact ih _ (hp _) (hE _) fun a l' db'' hown hlater => hg a l' db'' hown (R.trans h' hlater)
  | lock t key w k ih =>
    intro db' h'
    refine ih _ (hp _) (hE _) fun a l' db'' hown hlater => hg a l' db'' ?_ (R.trans h' hlater)
    exact fun t' ht' => (hown t' ht').trans (by rw [Local.own_hold])
  | update t key w f k ih =>
    intro db' h'
    split
    · refine ih _ (hp.2 _) (hE _) fun a l' db'' hown hlater =>
        hg a l' db'' ?_ (R.trans h' hlater)
      exact fun t' ht' => (hown t' ht').trans (by rw [Local.own_hold])
    · split
      · refine ih _ (hp.2 _) (hE _) fun a l' db'' hown hlater =>
          hg a l' db'' ?_ (R.trans h' hlater)
        intro t' ht'
        have hne : t' ≠ t := fun heq => ht' (heq ▸ hp.1)
        rw [hown t' ht', Local.own_write_ne _ hne, Local.own_hold]
      · exact hdatabase
  | insert t r skip k ih =>
    intro db' h'
    split
    · exact hdatabase
    · refine ih _ (hp.2 _) (hE _) fun a l' db'' hown hlater =>
        hg a l' db'' ?_ (R.trans h' hlater)
      intro t' ht'
      have hne : t' ≠ t := fun heq => ht' (heq ▸ hp.1)
      rw [hown t' ht', Local.own_write_ne _ hne]
    · exact ih _ (hp.2 _) (hE _) fun a l' db'' hown hlater =>
        hg a l' db'' hown (R.trans h' hlater)
    · exact ih _ (hp.2 _) (hE _) fun a l' db'' hown hlater =>
        hg a l' db'' hown (R.trans h' hlater)
  | advisory n k ih => exact ih hp hE fun a l' db' hown hlater => hg a l' db' hown hlater

/-- A guard that only reads, before the rest. -/
theorem Relies.guard (hp : p.WritesOnly fun _ => False) (hE : p.Raises fun e => E (.raised e))
    (hdatabase : E .database)
    (hg : ∀ a l' db', l'.own = l.own → R.later db db' → (g a).Relies R E S l' db') :
    (p >>= g).Relies R E S l db :=
  Relies.frame hp hE hdatabase fun a l' db' hown hlater =>
    hg a l' db' (funext fun t => hown t not_false) hlater

/-- A program that writes the tables `W` alone and is not followed by others. -/
theorem Relies.last {W : T → Prop} (hp : p.WritesOnly W) (hE : p.Raises fun e => E (.raised e))
    (hdatabase : E .database)
    (hQ : ∀ a l' db', (∀ t, ¬W t → l'.own t = l.own t) → R.later db db' → Q a l' db') :
    p.Relies R E Q l db := by
  rw [← bind_pure p]
  exact Relies.frame hp hE hdatabase fun a l' db' hown hdb db'' hdb' =>
    hQ a l' db'' hown (R.trans hdb hdb')

/-! ## Statements -/

theorem relies_pure {a : α} (h : ∀ db', R.later db db' → Q a l db') :
    (pure a : Prog Row L ε α).Relies R E Q l db := h

theorem relies_read {label : L} {f : Db Row → α}
    (h : ∀ db' n, R.later db db' →
      (g (f (l.view db'))).Relies R E S (l.saw label (l.view db') n) db') :
    (read label f >>= g).Relies R E S l db :=
  fun db' n hlater => h db' n hlater

theorem relies_raiseIf {c : Prop} [Decidable c] {e : ε} {g : Unit → Prog Row L ε β}
    (he : c → E (.raised e)) (hg : ¬c → (g ()).Relies R E S l db) :
    (raiseIf c e >>= g).Relies R E S l db := by
  unfold raiseIf
  split
  · next h => exact he h
  · next h => exact hg h

theorem relies_orRaise {o : Option α} {e : ε} (he : o = none → E (.raised e))
    (hg : ∀ a, o = some a → (g a).Relies R E S l db) :
    (orRaise o e >>= g).Relies R E S l db := by
  cases o with
  | none => exact he rfl
  | some a => exact hg a rfl

/-- An INSERT, by its four outcomes. -/
theorem relies_insert {t : T} {r : Row t} {skip : Row t → Bool} {g : Inserted → Prog Row L ε β}
    (hnone : ∀ db', R.later db db' → (l.view db').tryInsert t r skip = none → E .database)
    (hinserted : ∀ db', R.later db db' →
      (l.view db').tryInsert t r skip = some .inserted →
      (g .inserted).Relies R E S (l.write t r) db')
    (hskipped : ∀ db', R.later db db' → (l.view db').tryInsert t r skip = some .skipped →
      (g .skipped).Relies R E S (l.meet t ((l.view db' t).rows.find? skip)) db')
    (hviolation : ∀ db', R.later db db' →
      (l.view db').tryInsert t r skip = some .violation → (g .violation).Relies R E S l db') :
    (insertOrSkip t r skip >>= g).Relies R E S l db := by
  intro db' hlater
  split
  · next h => exact hnone db' hlater h
  · next h => exact hinserted db' hlater h
  · next h => exact hskipped db' hlater h
  · next h => exact hviolation db' hlater h

/-- An INSERT without an arbiter, whose refusals the program goes on to look
at. -/
theorem relies_insertRow {t : T} {r : Row t} {g : Inserted → Prog Row L ε β} (hE : E .database)
    (hinserted : ∀ db', R.later db db' → (g .inserted).Relies R E S (l.write t r) db')
    (hskipped : ∀ l' db', l'.own = l.own → R.later db db' → (g .skipped).Relies R E S l' db')
    (hviolation : ∀ db', R.later db db' → (g .violation).Relies R E S l db') :
    (insertRow t r >>= g).Relies R E S l db :=
  relies_insert (fun _ _ _ => hE) (fun db' h _ => hinserted db' h)
    (fun db' h _ => hskipped _ db' rfl h) fun db' h _ => hviolation db' h

section Updates

variable {t : T} {w : Row t → Bool} {f : Change Row t} {A : List (Row t) → Db Row → Prop}

/-- The rewrites of single rows keep an assertion on the writes of the party. -/
theorem relies_updateEach {keys : List (Schema.Key Row t)} {base : Db Row} (hE : E .database)
    (hlater : ∀ {own db db'}, R.later db db' → A own db → A own db')
    (hrewrite : ∀ (l : Local Row L) db r, A (l.own t) db → r ∈ (l.view db).rows t → w r = true →
      A (l.own t ++ [f.apply r]) db) (h : A (l.own t) db) (hbase : R.later base db) :
    (updateEach t w f keys : Prog Row L ε _).Relies R E (fun _ l' db' => A (l'.own t) db' ∧
      (∀ t', t' ≠ t → l'.own t' = l.own t') ∧ R.later base db') l db := by
  induction keys generalizing l db with
  | nil => exact fun db' hdb => ⟨hlater hdb h, fun _ _ => rfl, R.trans hbase hdb⟩
  | cons key keys ih =>
    have hret : ∀ {l₁ : Local Row L} {r : Option (Row t)} {rs : List (Row t)} {l' db'},
        (∀ t', t' ≠ t → l₁.own t' = l.own t') →
        (A (l'.own t) db' ∧ (∀ t', t' ≠ t → l'.own t' = l₁.own t') ∧ R.later base db') →
        (.ret (r.toList ++ rs) : Prog Row L ε _).Relies R E (fun _ l' db' => A (l'.own t) db' ∧
          (∀ t', t' ≠ t → l'.own t' = l.own t') ∧ R.later base db') l' db' := by
      rintro l₁ r rs l' db' hl₁ ⟨hA, hown, hb⟩ db'' hdb
      exact ⟨hlater hdb hA, fun t' ht' => (hown t' ht').trans (hl₁ t' ht'), R.trans hb hdb⟩
    intro db₁ hdb₁
    have hbase₁ := R.trans hbase hdb₁
    split
    · refine Relies.bind ((ih ?_ hbase₁).mono (fun _ he => he) fun rs l' db' hpost => ?_)
      · rw [Local.own_hold]
        exact hlater hdb₁ h
      · exact hret (fun t' _ => by rw [Local.own_hold]) hpost
    · next r hr =>
      obtain ⟨hfind, hw⟩ := Option.filter_eq_some_iff.mp hr
      split
      · refine Relies.bind ((ih ?_ hbase₁).mono (fun _ he => he) fun rs l' db' hpost => ?_)
        · rw [Local.own_write_same, Local.own_hold]
          exact hrewrite l db₁ r (hlater hdb₁ h) (Table.mem_of_find? hfind) hw
        · exact hret (fun t' ht' => by rw [Local.own_write_ne _ ht', Local.own_hold]) hpost
      · exact hE

theorem relies_updateWhere {label : L} {g : List (Row t) → Prog Row L ε β} (hE : E .database)
    (hlater : ∀ {own db db'}, R.later db db' → A own db → A own db')
    (hrewrite : ∀ (l : Local Row L) db r, A (l.own t) db → r ∈ (l.view db).rows t → w r = true →
      A (l.own t ++ [f.apply r]) db) (h : A (l.own t) db)
    (hg : ∀ rs l' db', A (l'.own t) db' → (∀ t', t' ≠ t → l'.own t' = l.own t') →
      R.later db db' → (g rs).Relies R E S l' db') :
    (updateWhere label t w f >>= g).Relies R E S l db := by
  refine Relies.bind fun db₁ n hdb₁ => ?_
  have hl : A ((l.saw label (l.view db₁) n).own t) db₁ := hlater hdb₁ h
  exact (relies_updateEach (A := A) hE hlater hrewrite hl hdb₁).mono (fun _ he => he)
    fun rs l' db' ⟨hA, hown, hdb⟩ => hg rs l' db' hA hown hdb

end Updates

/-- What holds of every row that the statements of a program may insert, and of
every row they may make of one with it, holds of the rows it writes. -/
theorem relies_of_rewrites {ins : (t : T) → Row t → Prop} {upd : (t : T) → Row t → Row t → Prop}
    {A : (t : T) → Row t → Prop} (hp : p.Rewrites ins upd) (hins : ∀ t r, ins t r → A t r)
    (hupd : ∀ t r r', A t r → upd t r r' → A t r')
    (hlater : ∀ {db db'}, R.later db db' → (∀ t, ∀ r ∈ db.rows t, A t r) →
      ∀ t, ∀ r ∈ db'.rows t, A t r)
    (hdb : ∀ t, ∀ r ∈ db.rows t, A t r) (hl : ∀ t, ∀ r ∈ l.own t, A t r) :
    p.Relies R (fun _ => True) (fun _ l' _ => ∀ t, ∀ r ∈ l'.own t, A t r) l db := by
  have hwrite : ∀ {l : Local Row L} {t x}, (∀ t, ∀ r ∈ l.own t, A t r) → A t x →
      ∀ t', ∀ r ∈ (l.write t x).own t', A t' r := by
    intro l t x hl hx t' r hr
    by_cases ht : t' = t
    · subst ht
      rw [Local.own_write_same, List.mem_append, List.mem_singleton] at hr
      rcases hr with hr | rfl
      · exact hl t' r hr
      · exact hx
    · rw [Local.own_write_ne x ht] at hr
      exact hl t' r hr
  induction p generalizing l db with
  | ret a => exact fun _ _ => hl
  | fail e => trivial
  | select label k ih => exact fun db' n h' => ih _ (hp _) (hlater h' hdb) hl
  | lock t key w k ih =>
    exact fun db' h' => ih _ (hp _) (hlater h' hdb) (by rwa [Local.own_hold])
  | update t key w f k ih =>
    intro db' h'
    have hdb' := hlater h' hdb
    split
    · exact ih _ (hp.2 _) hdb' (by rwa [Local.own_hold])
    · next r hr =>
      obtain ⟨hfind, hw⟩ := Option.filter_eq_some_iff.mp hr
      have hr : A t r := by
        rcases mem_overlay (Table.mem_of_find? hfind) with hown | ⟨hmem, -⟩
        · exact hl t r hown
        · exact hdb' t r hmem
      split
      · refine ih _ (hp.2 _) hdb' (hwrite ?_ ?_)
        · rwa [Local.own_hold]
        · exact hupd t r _ hr (hp.1 r (Table.key_of_find? hfind) hw)
      · trivial
  | insert t r skip k ih =>
    intro db' h'
    have hdb' := hlater h' hdb
    split
    · trivial
    · exact ih _ (hp.2 _) hdb' (hwrite hl (hins t r hp.1))
    · exact ih _ (hp.2 _) hdb' hl
    · exact ih _ (hp.2 _) hdb' hl
  | advisory n k ih => exact ih hp hdb hl

/-! ## Run alone -/

theorem Relies.exec_ok {a : α} (h : p.Relies R E Q l db) (he : exec p (l.view db) = .ok (a, db')) :
    ∃ l', db' = l'.view db ∧ Q a l' db := by
  induction p generalizing l with
  | ret b =>
    simp only [exec, Except.ok.injEq, Prod.mk.injEq] at he
    obtain ⟨rfl, rfl⟩ := he
    exact ⟨l, rfl, h db (R.refl db)⟩
  | fail e => cases he
  | select label k ih => exact ih _ (h db 0 (R.refl db)) he
  | lock t key w k ih =>
    refine ih _ (h db (R.refl db)) ?_
    rwa [Local.view_of_own (Local.own_hold t _)]
  | update t key w f k ih =>
    have h := h db (R.refl db)
    simp only [exec] at he
    split at he
    · next hnone =>
      rw [hnone] at h
      refine ih _ h ?_
      rwa [Local.view_of_own (Local.own_hold t _)]
    · next r hr =>
      rw [hr] at h
      split at he
      · next haccepts =>
        dsimp only at h
        rw [if_pos haccepts] at h
        refine ih _ h ?_
        rwa [Local.view_write, Local.view_of_own (Local.own_hold t _)]
      · cases he
  | insert t r skip k ih =>
    have h := h db (R.refl db)
    simp only [exec] at he
    split at he
    · cases he
    · next hins =>
      rw [hins] at h
      refine ih _ h ?_
      rwa [Local.view_write]
    · next o ho hins =>
      rw [hins] at h
      cases o with
      | inserted => exact absurd rfl ho
      | skipped => exact ih _ h he
      | violation => exact ih _ h he
  | advisory n k ih => exact ih h he

theorem Relies.exec_error {e : Failure ε} (h : p.Relies R E Q l db)
    (he : exec p (l.view db) = .error e) : E e := by
  induction p generalizing l with
  | ret b => cases he
  | fail e' =>
    simp only [exec, Except.error.injEq] at he
    exact he ▸ h
  | select label k ih => exact ih _ (h db 0 (R.refl db)) he
  | lock t key w k ih =>
    refine ih _ (h db (R.refl db)) ?_
    rwa [Local.view_of_own (Local.own_hold t _)]
  | update t key w f k ih =>
    have h := h db (R.refl db)
    simp only [exec] at he
    split at he
    · next hnone =>
      rw [hnone] at h
      refine ih _ h ?_
      rwa [Local.view_of_own (Local.own_hold t _)]
    · next r hr =>
      rw [hr] at h
      dsimp only at h
      split at he
      · next haccepts =>
        rw [if_pos haccepts] at h
        refine ih _ h ?_
        rwa [Local.view_write, Local.view_of_own (Local.own_hold t _)]
      · next haccepts =>
        rw [if_neg haccepts] at h
        cases he
        exact h
  | insert t r skip k ih =>
    have h := h db (R.refl db)
    simp only [exec] at he
    split at he
    · next hins =>
      rw [hins] at h
      cases he
      exact h
    · next hins =>
      rw [hins] at h
      refine ih _ h ?_
      rwa [Local.view_write]
    · next o ho hins =>
      rw [hins] at h
      cases o with
      | inserted => exact absurd rfl ho
      | skipped => exact ih _ h he
      | violation => exact ih _ h he
  | advisory n k ih => exact ih h he

end Prog

/-! ## Parties that rely on each other -/

section Parties

variable {progs : ι → Prog Row L ε α} {s : State Row L ε α ι} {i : ι}

/-- What each party relies on (`R`), how it may fail (`E`), what it knows when it
returns (`Q`), and what is so of the committed tables after that (`C`) and
always (`J`). -/
structure Contract (Row : T → Type) [Schema Row] (L ε α ι : Type) where
  R : ι → Rely Row
  E : ι → Failure ε → Prop
  Q : ι → α → Local Row L → Db Row → Prop
  C : ι → α → Db Row → Prop
  J : Db Row → Prop

variable [DecidableEq T]

/-- The commits of every party give the others what they rely on. -/
structure Contract.Guaranteed [DecidableEq ι] (c : Contract Row L ε α ι)
    (progs : ι → Prog Row L ε α) : Prop where
  commit : ∀ (s : State Row L ε α ι) i a, Sound progs s → c.J s.db →
    (s.party i).phase = .running (.ret a) → c.Q i a (s.party i).loc s.db →
    c.J (s.commit i a).db ∧ c.C i a (s.commit i a).db ∧
      ∀ j ≠ i, (c.R j).later s.db (s.commit i a).db
  stable : ∀ i a {db db'}, (c.R i).later db db' → c.C i a db → c.C i a db'

/-- Every party is where its contract lets it be. -/
structure Relying (c : Contract Row L ε α ι) (s : State Row L ε α ι) : Prop where
  always : c.J s.db
  running : ∀ i p, (s.party i).phase = .running p →
    p.Relies (c.R i) (c.E i) (c.Q i) (s.party i).loc s.db
  committed : ∀ i a, (s.party i).phase = .committed a → c.C i a s.db
  failed : ∀ i e, (s.party i).phase = .failed e → c.E i e

namespace Relying

variable {c : Contract Row L ε α ι} [DecidableEq ι]

/-- A party that goes on or ends without a commit. -/
theorem set (h : Relying c s) {phase : Phase Row L ε α} {l' : Local Row L}
    (hrunning : ∀ p, phase = .running p → p.Relies (c.R i) (c.E i) (c.Q i) l' s.db)
    (hcommitted : ∀ a, phase ≠ .committed a) (hfailed : ∀ e, phase = .failed e → c.E i e) :
    Relying c (s.set i phase l') where
  always := h.always
  running j p hp := by
    by_cases hj : j = i
    · subst hj
      rw [State.party_set_self] at hp ⊢
      exact hrunning p hp
    · rw [State.party_set_ne _ _ _ hj] at hp ⊢
      exact h.running j p hp
  committed j a hp := by
    by_cases hj : j = i
    · subst hj
      rw [State.party_set_self] at hp
      exact absurd hp (hcommitted a)
    · rw [State.party_set_ne _ _ _ hj] at hp
      exact h.committed j a hp
  failed j e hp := by
    by_cases hj : j = i
    · subst hj
      rw [State.party_set_self] at hp
      exact hfailed e hp
    · rw [State.party_set_ne _ _ _ hj] at hp
      exact h.failed j e hp

theorem go (h : Relying c s) {p : Prog Row L ε α} {l' : Local Row L}
    (hp : p.Relies (c.R i) (c.E i) (c.Q i) l' s.db) : Relying c (s.set i (.running p) l') :=
  h.set (by rintro _ ⟨⟩; exact hp) nofun nofun

theorem fail (h : Relying c s) {e : Failure ε} {l' : Local Row L} (he : c.E i e) :
    Relying c (s.set i (.failed e) l') :=
  h.set nofun nofun (by rintro _ ⟨⟩; exact he)

theorem commit (hc : c.Guaranteed progs) (hs : Sound progs s) (h : Relying c s) {a : α}
    (hp : (s.party i).phase = .running (.ret a)) : Relying c (s.commit i a) := by
  have hQ : c.Q i a (s.party i).loc s.db := h.running i _ hp s.db ((c.R i).refl s.db)
  obtain ⟨hJ, hC, hothers⟩ := hc.commit s i a hs h.always hp hQ
  constructor
  · exact hJ
  · intro j p hj
    by_cases hji : j = i
    · subst hji
      rw [State.party_commit_self] at hj
      cases hj
    · rw [State.party_commit_ne _ _ hji] at hj ⊢
      exact (h.running j p hj).later (hothers j hji)
  · intro j b hj
    by_cases hji : j = i
    · subst hji
      rw [State.party_commit_self] at hj
      cases hj
      exact hC
    · rw [State.party_commit_ne _ _ hji] at hj
      exact hc.stable j b (hothers j hji) (h.committed j b hj)
  · intro j e hj
    by_cases hji : j = i
    · subst hji
      rw [State.party_commit_self] at hj
      cases hj
    · rw [State.party_commit_ne _ _ hji] at hj
      exact h.failed j e hj

variable [Fintype ι]

theorem advance (hc : c.Guaranteed progs) (hs : Sound progs s) (h : Relying c s)
    {p : Prog Row L ε α} (hp : (s.party i).phase = .running p) : Relying c (s.advance i p) := by
  have hrelies := h.running i p hp
  have hrefl := (c.R i).refl s.db
  cases p with
  | ret a => exact h.commit hc hs hp
  | fail e => exact h.fail hrelies
  | select label k => exact h.go (hrelies s.db s.commits hrefl)
  | lock t key w k =>
    rw [State.advance]
    split
    · exact h
    · exact h.go (hrelies s.db hrefl)
  | update t key w f k =>
    rw [State.advance]
    split
    · exact h
    · have hrelies := hrelies s.db hrefl
      dsimp only
      split
      · next hnone =>
        rw [hnone] at hrelies
        exact h.go hrelies
      · next r hr =>
        rw [hr] at hrelies
        dsimp only at hrelies
        split
        · exact h
        · split
          · next haccepts =>
            rw [if_pos haccepts] at hrelies
            exact h.go hrelies
          · next haccepts =>
            rw [if_neg haccepts] at hrelies
            exact h.fail hrelies
  | insert t r skip k =>
    rw [State.advance]
    split
    · exact h
    · have hrelies := hrelies s.db hrefl
      dsimp only
      split
      · next hins =>
        rw [hins] at hrelies
        exact h.fail hrelies
      · next hins =>
        rw [hins] at hrelies
        exact h.go hrelies
      · next hins =>
        rw [hins] at hrelies
        exact h.go hrelies
      · next hins =>
        rw [hins] at hrelies
        exact h.go hrelies
  | advisory n k =>
    rw [State.advance]
    split
    · exact h
    · exact h.go hrelies

theorem step (hc : c.Guaranteed progs) (hs : Sound progs s) (h : Relying c s) (e : Event ι) :
    Relying c (s.step e) := by
  cases e with
  | act i =>
    rw [State.step]
    split
    · next p hp => exact h.advance hc hs hp
    · exact h
  | kill i =>
    rw [State.step]
    split
    · exact h.set (fun _ hp => by cases hp) (fun _ hp => by cases hp) fun _ hp => by cases hp
    · exact h

theorem run (hc : c.Guaranteed progs) (hs : Sound progs s) (h : Relying c s)
    (events : List (Event ι)) : Relying c (s.run events) := by
  induction events generalizing s with
  | nil => exact h
  | cons e events ih => exact ih (hs.step e) (h.step hc hs e)

omit [DecidableEq ι] [Fintype ι] in
theorem start {db : Db Row} (hJ : c.J db)
    (h : ∀ i, (progs i).Relies (c.R i) (c.E i) (c.Q i) .init db) :
    Relying c (State.start db progs) where
  always := hJ
  running := by
    rintro i p ⟨⟩
    exact h i
  committed _ _ := nofun
  failed _ _ := nofun

end Relying

end Parties

/-! ## Parties that end -/

namespace State

variable {progs : ι → Prog Row L ε α} {s : State Row L ε α ι} {i : ι}

/-- Nobody but `i` is running. -/
def Alone (s : State Row L ε α ι) (i : ι) : Prop := ∀ j, j ≠ i → (s.party j).isRunning = false

theorem Alone.set [DecidableEq ι] (h : s.Alone i) (phase : Phase Row L ε α) (l : Local Row L) :
    (s.set i phase l).Alone i := by
  intro j hj
  rw [party_set_ne _ _ _ hj]
  exact h j hj

theorem Alone.not_waits (h : s.Alone i) {f : Party Row L ε α → Bool}
    (hf : ∀ p, p.isRunning = false → f p = false) : ¬s.Waits i f := by
  rintro ⟨j, hj, hfj⟩
  rw [hf _ (h j hj)] at hfj
  cases hfj

theorem Alone.not_holds (h : s.Alone i) (t : T) (key : Schema.Key Row t) :
    ¬s.Waits i fun p => p.holds t key :=
  h.not_waits fun p hp => by rw [Party.holds, hp, Bool.false_and]

theorem Alone.not_disputes (h : s.Alone i) (t : T) (r : Row t) (skip : Row t → Bool) :
    ¬s.Waits i fun p => p.disputes t r skip :=
  h.not_waits fun p hp => by rw [Party.disputes, hp, Bool.false_and]

theorem Alone.not_holdsAdvisory (h : s.Alone i) (n : Int) :
    ¬s.Waits i fun p => p.holdsAdvisory n :=
  h.not_waits fun p hp => by rw [Party.holdsAdvisory, hp, Bool.false_and]

variable [DecidableEq T] [Fintype ι] [DecidableEq ι]

/-- The party commits or fails after some number of its own actions. -/
def Finishes (s : State Row L ε α ι) (i : ι) : Prop :=
  ∃ n, (∃ a, ((s.run (List.replicate n (.act i))).party i).phase = .committed a) ∨
    ∃ e, ((s.run (List.replicate n (.act i))).party i).phase = .failed e

theorem finishes_of_advance {p : Prog Row L ε α} (hp : (s.party i).phase = .running p)
    (h : (s.advance i p).Finishes i) : s.Finishes i := by
  obtain ⟨n, hn⟩ := h
  refine ⟨n + 1, ?_⟩
  rw [List.replicate_succ, State.run, List.foldl_cons, State.step, hp]
  exact hn

/-- The rest of the party, from what it goes on with. -/
theorem Alone.finishes_set (h : s.Alone i) {p : Prog Row L ε α} {l : Local Row L}
    (ih : ∀ {s : State Row L ε α ι}, s.Alone i → (s.party i).phase = .running p →
      (s.advance i p).Finishes i) : (s.set i (.running p) l).Finishes i := by
  have hp : ((s.set i (.running p) l).party i).phase = .running p := by rw [party_set_self]
  exact finishes_of_advance hp (ih (h.set _ _) hp)

theorem finishes_of_failed (s : State Row L ε α ι) (e : Failure ε) (l : Local Row L) :
    (s.set i (.failed e) l).Finishes i :=
  ⟨0, .inr ⟨e, congrArg Party.phase (party_set_self s i (.failed e) l)⟩⟩

/-- A party that runs alone ends. -/
theorem Alone.finishes (h : s.Alone i) {p : Prog Row L ε α} (hp : (s.party i).phase = .running p) :
    s.Finishes i := by
  refine finishes_of_advance hp ?_
  induction p generalizing s with
  | ret a => exact ⟨0, .inl ⟨a, congrArg Party.phase (party_commit_self s i a)⟩⟩
  | fail e => exact finishes_of_failed s e _
  | select label k ih => exact h.finishes_set fun h' hp' => ih _ h' hp'
  | lock t key w k ih =>
    rw [advance, if_neg (h.not_holds t key)]
    exact h.finishes_set fun h' hp' => ih _ h' hp'
  | update t key w f k ih =>
    rw [advance, if_neg (h.not_holds t key)]
    dsimp only
    split
    · exact h.finishes_set fun h' hp' => ih _ h' hp'
    · rw [if_neg (h.not_disputes t _ _)]
      split
      · exact h.finishes_set fun h' hp' => ih _ h' hp'
      · exact finishes_of_failed s _ _
  | insert t r skip k ih =>
    rw [advance, if_neg (h.not_disputes t r skip)]
    dsimp only
    split
    · exact finishes_of_failed s _ _
    · exact h.finishes_set fun h' hp' => ih _ h' hp'
    · exact h.finishes_set fun h' hp' => ih _ h' hp'
    · exact h.finishes_set fun h' hp' => ih _ h' hp'
  | advisory n k ih =>
    rw [advance, if_neg (h.not_holdsAdvisory n)]
    exact h.finishes_set fun h' hp' => ih h' hp'

end State

end Sql
