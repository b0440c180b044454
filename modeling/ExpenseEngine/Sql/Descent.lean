import ExpenseEngine.Sql.Isolation
import ExpenseEngine.Sql.Rewrites

/-!
# Where the committed rows come from

`Rewrites` says of the text of a program which rows it may insert and which
rewrites it may make. Here that becomes a statement about the committed tables:
in whatever order transactions interleave, no row is lost, every row descends
from an earlier version or from an inserted row by allowed rewrites, and a table
that nobody updates only grows at its end.

Results:
1. `descends_commit`, `State.descends_run`: one commit and a whole run.
2. `State.rows_prefix_run`: a table without updates.
-/

namespace Sql

variable {T : Type} {Row : T → Type} [Schema Row] {L ε α ι : Type}

open Relation Prog

namespace Local

variable {l : Local Row L} {t t' : T} [DecidableEq T]

theorem met_hold (t : T) (o : Option (Row t)) : (l.hold t o).met = l.met := by
  obtain h | ⟨r, -, -, h⟩ := l.hold_cases t o
  all_goals rw [h]
  rfl

theorem met_meet_same (x : Row t) : (l.meet t (some x)).met t = x :: l.met t := by
  simp [meet]

theorem met_meet_ne (x : Row t') (ht : t ≠ t') : (l.meet t' (some x)).met t = l.met t := by
  simp [meet, ht]

end Local

/-! ## Descent -/

/-- The tables `db'` come from `db`: each row of `db` is still there, rewritten
as `upd` allows, and each row of `db'` comes from one of `db` or from a new one
in `ins`. -/
structure Descends (ins : (t : T) → Row t → Prop) (upd : (t : T) → Row t → Row t → Prop)
    (db db' : Db Row) : Prop where
  kept : ∀ t, ∀ r ∈ db.rows t, ∃ r' ∈ db'.rows t,
    Schema.key t r' = Schema.key t r ∧ ReflTransGen (upd t) r r'
  origin : ∀ t, ∀ r' ∈ db'.rows t, ∃ r, Schema.key t r = Schema.key t r' ∧
    ReflTransGen (upd t) r r' ∧
      (r ∈ db.rows t ∨ ins t r ∧ ∀ x ∈ db.rows t, Schema.key t x ≠ Schema.key t r')

namespace Descends

variable {ins ins' : (t : T) → Row t → Prop} {upd upd' : (t : T) → Row t → Row t → Prop}
  {db db₁ db₂ db₃ : Db Row}

theorem refl (db : Db Row) : Descends ins upd db db :=
  ⟨fun _ r hr => ⟨r, hr, rfl, .refl⟩, fun _ r hr => ⟨r, rfl, .refl, .inl hr⟩⟩

theorem trans (h : Descends ins upd db₁ db₂) (h' : Descends ins upd db₂ db₃) :
    Descends ins upd db₁ db₃ where
  kept t r hr := by
    obtain ⟨r₂, hr₂, hkey₂, hchain₂⟩ := h.kept t r hr
    obtain ⟨r₃, hr₃, hkey₃, hchain₃⟩ := h'.kept t r₂ hr₂
    exact ⟨r₃, hr₃, hkey₃.trans hkey₂, hchain₂.trans hchain₃⟩
  origin t r₃ hr₃ := by
    obtain ⟨r₂, hkey₂, hchain₂, hr₂ | ⟨hins, hnew⟩⟩ := h'.origin t r₃ hr₃
    · obtain ⟨r, hkey, hchain, hr | ⟨hins, hnew⟩⟩ := h.origin t r₂ hr₂
      · exact ⟨r, hkey.trans hkey₂, hchain.trans hchain₂, .inl hr⟩
      · exact ⟨r, hkey.trans hkey₂, hchain.trans hchain₂, .inr ⟨hins, hkey₂ ▸ hnew⟩⟩
    · refine ⟨r₂, hkey₂, hchain₂, .inr ⟨hins, fun x hx hkey => ?_⟩⟩
      obtain ⟨x₂, hx₂, hkeyx, -⟩ := h.kept t x hx
      exact hnew x₂ hx₂ (hkeyx.trans hkey)

theorem mono (h : Descends ins upd db₁ db₂) (hins : ∀ t r, ins t r → ins' t r)
    (hupd : ∀ t r r', upd t r r' → upd' t r r') : Descends ins' upd' db₁ db₂ where
  kept t r hr := by
    obtain ⟨r', hr', hkey, hchain⟩ := h.kept t r hr
    exact ⟨r', hr', hkey, ReflTransGen.mono (hupd t) _ _ hchain⟩
  origin t r' hr' := by
    obtain ⟨r, hkey, hchain, hr⟩ := h.origin t r' hr'
    exact ⟨r, hkey, ReflTransGen.mono (hupd t) _ _ hchain,
      hr.imp_right fun h => ⟨hins t r h.1, h.2⟩⟩

/-- A row of a table that nobody updates stays as it is. -/
theorem mem_of_fixed (h : Descends ins upd db₁ db₂) {t : T} (ht : ∀ r r', ¬upd t r r') {r : Row t}
    (hr : r ∈ db₁.rows t) : r ∈ db₂.rows t := by
  obtain ⟨r', hr', -, hchain⟩ := h.kept t r hr
  rwa [(reflTransGen_iff_eq (ht r)).mp hchain] at hr'

end Descends

/-- Rows that are in the table already, or have a new key, are put at its end. -/
theorem prefix_foldl_put {t : T} {rs : List (Row t)} {tb tb' : Table Row t}
    (h : ∀ r ∈ rs, ∀ x ∈ tb.rows, Schema.key t x = Schema.key t r → x = r)
    (htb : tb.rows <+: tb'.rows) : tb.rows <+: (rs.foldl Table.put tb').rows := by
  induction rs generalizing tb' with
  | nil => exact htb
  | cons r rs ih =>
    refine ih (fun x hx => h x (List.mem_cons_of_mem _ hx)) ?_
    cases hfind : tb'.find? (Schema.key t r) with
    | none =>
      rw [Table.rows_put_of_new hfind]
      exact htb.trans (List.prefix_append _ _)
    | some y =>
      obtain ⟨rest, hrest⟩ := htb
      rw [Table.rows_put_of_find hfind, ← hrest, List.map_append]
      have hsame : tb.rows.map (fun y => if Schema.key t y = Schema.key t r then r else y) =
          tb.rows := by
        refine (List.map_congr_left fun x hx => ?_).trans (List.map_id tb.rows)
        split
        · next hkey => exact (h r List.mem_cons_self x hx hkey).symm
        · rfl
      rw [hsame]
      exact List.prefix_append _ _

variable [DecidableEq T]

/-- A program leaves alone a table that it neither inserts into nor updates. -/
theorem runs_fixed {ins : (t : T) → Row t → Prop} {upd : (t : T) → Row t → Row t → Prop}
    {p : Prog Row L ε α} (hp : p.Rewrites ins upd) {t : T} (hins : ∀ r, ¬ins t r)
    (hupd : ∀ r r', ¬upd t r r') {l l' : Local Row L} {res : Except (Failure ε) α}
    (h : p.Runs l res l') : l'.own t = l.own t ∧ l'.met t = l.met t := by
  induction p generalizing l with
  | ret a | fail e =>
    obtain ⟨-, rfl⟩ := h
    exact ⟨rfl, rfl⟩
  | select label k ih =>
    obtain ⟨db, n, -, h⟩ := h
    have hrest := ih db (hp db) h
    exact hrest
  | lock t' key w k ih =>
    obtain ⟨o, -, h⟩ := h
    obtain ⟨hown, hmet⟩ := ih _ (hp _) h
    exact ⟨by rw [hown, Local.own_hold], by rw [hmet, Local.met_hold]⟩
  | update t' key w f k ih =>
    obtain ⟨o, hv, ⟨-, h⟩ | ⟨r, hr, h | ⟨-, rfl⟩⟩⟩ := h
    · obtain ⟨hown, hmet⟩ := ih _ (hp.2 _) h
      exact ⟨by rw [hown, Local.own_hold], by rw [hmet, Local.met_hold]⟩
    · obtain ⟨rfl, hw⟩ := Option.filter_eq_some_iff.mp hr
      have ht : t ≠ t' := by
        rintro rfl
        exact hupd r _ (hp.1 r (hv.key_eq r rfl) hw)
      obtain ⟨hown, hmet⟩ := ih _ (hp.2 _) h
      refine ⟨by rw [hown, Local.own_write_ne _ ht, Local.own_hold], hmet.trans ?_⟩
      exact congrFun (Local.met_hold t' (some r)) t
    · exact ⟨by rw [Local.own_hold], by rw [Local.met_hold]⟩
  | insert t' r skip k ih =>
    have ht : t ≠ t' := by
      rintro rfl
      exact hins r hp.1
    obtain ⟨-, rfl⟩ | ⟨-, h⟩ | ⟨x, -, h⟩ | h := h
    · exact ⟨rfl, rfl⟩
    · obtain ⟨hown, hmet⟩ := ih _ (hp.2 _) h
      exact ⟨hown.trans (Local.own_write_ne r ht), hmet⟩
    · obtain ⟨hown, hmet⟩ := ih _ (hp.2 _) h
      exact ⟨hown, hmet.trans (Local.met_meet_ne x ht)⟩
    · exact ih _ (hp.2 _) h
  | advisory n k ih =>
    have hrest := ih hp h
    exact hrest

/-! ## One commit -/

section Commit

variable {progs : ι → Prog Row L ε α} {s : State Row L ε α ι} {i : ι}
  {ins : (t : T) → Row t → Prop} {upd : (t : T) → Row t → Row t → Prop}

/-- A row that a transaction has written comes from the committed one, or is
new. -/
theorem own_origin (hs : Sound progs s) (hi : (s.party i).isRunning = true)
    (hderived : Derived ins upd (s.party i).loc) (hrooted : Rooted upd (s.party i).loc)
    {t : T} {x : Row t} (hx : x ∈ (s.party i).loc.own t) :
    (∃ r ∈ s.db.rows t, Schema.key t r = Schema.key t x ∧ ReflTransGen (upd t) r x) ∨
      (s.db t).find? (Schema.key t x) = none ∧ ∃ r, ins t r ∧
        Schema.key t r = Schema.key t x ∧ ReflTransGen (upd t) r x := by
  have ha := hs.anchored i hi
  rcases ha.own t x hx with ⟨r, hr, hkey⟩ | hnone
  · exact .inl ⟨r, Table.mem_of_find? (ha.held t r hr), hkey, hrooted.rewritten t x hx r hr hkey⟩
  · refine .inr ⟨hnone, ?_⟩
    rcases hderived t x hx with ⟨r, hr, hkey, -⟩ | hins
    · have hfind := ha.held t r hr
      rw [hkey, hnone] at hfind
      cases hfind
    · exact hins

theorem descends_commit [DecidableEq ι] (hs : Sound progs s)
    (hp : (progs i).Rewrites ins upd) {a : α} (hrun : (s.party i).phase = .running (.ret a)) :
    Descends ins upd s.db (s.commit i a).db := by
  have hi : (s.party i).isRunning = true := by rw [Party.isRunning, hrun]
  have htrace := (hs.trace i).running _ hrun _ _ ⟨rfl, rfl⟩
  have horigin := fun {t} {x : Row t} => own_origin hs hi (x := x)
    (runs_rewrites hp htrace (derived_of_blank fun _ => rfl))
    (runs_rooted hp htrace (rooted_of_blank (fun _ => rfl) fun _ => rfl))
  constructor
  · intro t r hr
    have hfind := Table.mem_rows_iff.mp hr
    have hsome : ((overlay (s.party i).loc.own s.db t).find? (Schema.key t r)).isSome :=
      find?_overlay_isSome (Option.isSome_of_mem hfind)
    obtain ⟨r', hr'⟩ := Option.isSome_iff_exists.mp hsome
    have hkey := Table.key_of_find? hr'
    refine ⟨r', Table.mem_of_find? hr', hkey, ?_⟩
    rcases mem_overlay (Table.mem_of_find? hr') with hown | ⟨hdb, -⟩
    · rcases horigin hown with ⟨x, hx, hkeyx, hchain⟩ | ⟨hnone, -⟩
      · rwa [← Table.eq_of_key_eq hx hr (hkeyx.trans hkey)]
      · rw [hkey, hfind] at hnone
        cases hnone
    · rw [Table.eq_of_key_eq hdb hr hkey]
  · intro t r' hr'
    rcases mem_overlay hr' with hown | ⟨hdb, -⟩
    · rcases horigin hown with ⟨r, hr, hkey, hchain⟩ | ⟨hnone, r, hins, hkey, hchain⟩
      · exact ⟨r, hkey, hchain, .inl hr⟩
      · exact ⟨r, hkey, hchain, .inr ⟨hins, Table.find?_eq_none.mp hnone⟩⟩
    · exact ⟨r', rfl, .refl, .inl hdb⟩

end Commit

/-! ## Whole runs -/

variable {progs : ι → Prog Row L ε α} {s : State Row L ε α ι}
  {ins : ι → (t : T) → Row t → Prop} {upd : ι → (t : T) → Row t → Row t → Prop}
  [Fintype ι] [DecidableEq ι]

/-- Every interleaving leaves tables that come from those it started with, by
the statements of the parties. -/
theorem State.descends_run (hs : Sound progs s)
    (hp : ∀ i, (progs i).Rewrites (ins i) (upd i))
    (events : List (Event ι)) :
    Descends (fun t r => ∃ i, ins i t r) (fun t r r' => ∃ i, upd i t r r') s.db
      (s.run events).db := by
  let D := Descends (fun t r => ∃ i, ins i t r) (fun t r r' => ∃ i, upd i t r r') s.db
  have hcommit : ∀ (s' : State Row L ε α ι) i a, Sound progs s' → D s'.db → True →
      (s'.party i).phase = .running (.ret a) → (progs i).Runs .init (.ok a) (s'.party i).loc →
      D (s'.commit i a).db := by
    intro s' i a hs' h _ hrun _
    exact h.trans ((descends_commit hs' (hp i) hrun).mono (fun _ _ h => ⟨i, h⟩)
      fun _ _ _ h => ⟨i, h⟩)
  exact (State.run_invariant (fun _ _ _ _ _ _ h _ _ => h) hcommit hs (.refl s.db)
    (State.along_true s events)).2

/-- A table that nobody updates: its rows stay where they are, and new ones come
after them. -/
theorem State.rows_prefix_run (hs : Sound progs s)
    (hp : ∀ i, (progs i).Rewrites (ins i) (upd i))
    {t : T} (ht : ∀ i r r', ¬upd i t r r') (events : List (Event ι)) :
    s.db.rows t <+: (s.run events).db.rows t := by
  have hcommit : ∀ (s' : State Row L ε α ι) i a, Sound progs s' →
      s.db.rows t <+: s'.db.rows t → True → (s'.party i).phase = .running (.ret a) →
      (progs i).Runs .init (.ok a) (s'.party i).loc →
      s.db.rows t <+: (s'.commit i a).db.rows t := by
    intro s' i a hs' h _ hrun htrace
    have hi : (s'.party i).isRunning = true := by rw [Party.isRunning, hrun]
    refine h.trans (prefix_foldl_put (fun x hx y hy hkey => ?_) List.prefix_rfl)
    rcases own_origin hs' hi (runs_rewrites (hp i) htrace (derived_of_blank fun _ => rfl))
      (runs_rooted (hp i) htrace (rooted_of_blank (fun _ => rfl) fun _ => rfl)) hx with
      ⟨r, hr, hkeyr, hchain⟩ | ⟨hnone, -⟩
    · rw [(reflTransGen_iff_eq (ht i r)).mp hchain]
      exact Table.eq_of_key_eq hy hr (hkey.trans hkeyr.symm)
    · exact absurd hkey (Table.find?_eq_none.mp hnone y hy)
  exact (State.run_invariant (fun _ _ _ _ _ _ h _ _ => h) hcommit hs List.prefix_rfl
    (State.along_true s events)).2

end Sql
