import ExpenseEngine.Sql.Traces
import Mathlib.Logic.Relation

/-!
# The statements a program may execute

`p.Rewrites ins upd` says of the text of `p` that its INSERTs propose rows in
`ins`, and that its UPDATEs take a row only where `upd` allows it. What follows
holds of every run of `p`, alone or beside others: no row disappears, and each
row of the later state comes from its earlier version, or from an inserted one,
by allowed rewrites.

Results:
1. `rewrites_bind` and one lemma for each statement.
2. `exec_rewrites_kept`, `exec_rewrites_origin`: a program run alone.
3. `runs_rewrites`, `runs_rooted`: a transaction among others.
-/

namespace Sql

variable {T : Type} [DecidableEq T] {Row : T → Type} [Schema Row] {L ε α β : Type}

open Relation

namespace Prog

/-- Every INSERT proposes a row in `ins`, every UPDATE is allowed by `upd`. -/
def Rewrites (ins : (t : T) → Row t → Prop) (upd : (t : T) → Row t → Row t → Prop) :
    Prog Row L ε α → Prop
  | .ret _ => True
  | .fail _ => True
  | .select _ k => ∀ db, (k db).Rewrites ins upd
  | .lock _ _ _ k => ∀ o, (k o).Rewrites ins upd
  | .update t key w f k =>
    (∀ r, Schema.key t r = key → w r = true → upd t r (f.apply r)) ∧
      ∀ o, (k o).Rewrites ins upd
  | .insert t r _ k => ins t r ∧ ∀ o, (k o).Rewrites ins upd
  | .advisory _ k => k.Rewrites ins upd

variable {ins ins' : (t : T) → Row t → Prop} {upd upd' : (t : T) → Row t → Row t → Prop}

/-! ## Statements -/

omit [DecidableEq T] in
theorem rewrites_bind {p : Prog Row L ε α} {g : α → Prog Row L ε β}
    (hp : p.Rewrites ins upd) (hg : ∀ a, (g a).Rewrites ins upd) :
    (p >>= g).Rewrites ins upd := by
  rw [bind_def]
  induction p with
  | ret a => exact hg a
  | fail e => trivial
  | select l k ih => exact fun db => ih db (hp db)
  | lock t key w k ih => exact fun o => ih o (hp o)
  | update t key w f k ih => exact ⟨hp.1, fun o => ih o (hp.2 o)⟩
  | insert t r skip k ih => exact ⟨hp.1, fun o => ih o (hp.2 o)⟩
  | advisory n k ih => exact ih hp

omit [DecidableEq T] in
theorem Rewrites.mono {p : Prog Row L ε α} (hp : p.Rewrites ins upd)
    (hins : ∀ t r, ins t r → ins' t r) (hupd : ∀ t r r', upd t r r' → upd' t r r') :
    p.Rewrites ins' upd' := by
  induction p with
  | ret a => trivial
  | fail e => trivial
  | select l k ih => exact fun db => ih db (hp db)
  | lock t key w k ih => exact fun o => ih o (hp o)
  | update t key w f k ih =>
    exact ⟨fun r hk hw => hupd t r _ (hp.1 r hk hw), fun o => ih o (hp.2 o)⟩
  | insert t r skip k ih => exact ⟨hins t r hp.1, fun o => ih o (hp.2 o)⟩
  | advisory n k ih => exact ih hp

omit [DecidableEq T] in
/-- A program that writes no table executes no statement to be allowed. -/
theorem rewrites_of_readOnly {p : Prog Row L ε α} (hp : p.WritesOnly fun _ => False) :
    p.Rewrites ins upd := by
  induction p with
  | ret a => trivial
  | fail e => trivial
  | select l k ih => exact fun db => ih db (hp db)
  | lock t key w k ih => exact fun o => ih o (hp o)
  | update t key w f k ih => exact hp.1.elim
  | insert t r skip k ih => exact hp.1.elim
  | advisory n k ih => exact ih hp

omit [DecidableEq T] in
/-- A guard before the statements. -/
theorem rewrites_guard {p : Prog Row L ε α} {g : α → Prog Row L ε β}
    (hp : p.WritesOnly fun _ => False) (hg : ∀ a, (g a).Rewrites ins upd) :
    (p >>= g).Rewrites ins upd :=
  rewrites_bind (rewrites_of_readOnly hp) hg

omit [DecidableEq T] in
/-- A SELECT whose answers all meet `P`. -/
theorem rewrites_read {label : L} {f : Db Row → α} {P : α → Prop} {g : α → Prog Row L ε β}
    (hf : ∀ db, P (f db)) (hg : ∀ a, P a → (g a).Rewrites ins upd) :
    (read label f >>= g).Rewrites ins upd :=
  fun db => hg _ (hf db)

omit [DecidableEq T] in
theorem rewrites_updateWhere {l : L} {t : T} {w : Row t → Bool} {f : Change Row t}
    (h : ∀ r, w r = true → upd t r (f.apply r)) :
    (updateWhere l t w f : Prog Row L ε _).Rewrites ins upd := by
  intro db
  change (updateEach t w f (candidates db t w)).Rewrites ins upd
  generalize candidates db t w = keys
  induction keys with
  | nil => trivial
  | cons key keys ih =>
    exact ⟨fun r _ hw => h r hw, fun _ => rewrites_bind ih fun _ => trivial⟩

omit [DecidableEq T] in
theorem rewrites_insertRow {t : T} {r : Row t} (h : ins t r) :
    (insertRow t r : Prog Row L ε _).Rewrites ins upd :=
  ⟨h, fun _ => trivial⟩

omit [DecidableEq T] in
theorem rewrites_insertOrSkip {t : T} {r : Row t} {skip : Row t → Bool} (h : ins t r) :
    (insertOrSkip t r skip : Prog Row L ε _).Rewrites ins upd :=
  ⟨h, fun _ => trivial⟩

omit [DecidableEq T] in
theorem rewrites_insertOrAbort {t : T} {r : Row t} (h : ins t r) :
    (insertOrAbort t r : Prog Row L ε _).Rewrites ins upd := by
  refine ⟨h, fun o => ?_⟩
  cases o <;> trivial

omit [DecidableEq T] in
theorem rewrites_upsertEach {t : T} {w : Row t → Bool} {f : Change Row t} {rs : List (Row t)}
    {touched : List (Schema.Key Row t)} (hins : ∀ r ∈ rs, ins t r)
    (hupd : ∀ r ∈ rs, ∀ x, Schema.key t x = Schema.key t r → w x = true → upd t x (f.apply x)) :
    (upsertEach t w f rs touched : Prog Row L ε Unit).Rewrites ins upd := by
  induction rs generalizing touched with
  | nil => trivial
  | cons r rs ih =>
    have hrest : ∀ touched, (upsertEach t w f rs touched : Prog Row L ε Unit).Rewrites ins upd :=
      fun touched => ih (fun x hx => hins x (List.mem_cons_of_mem _ hx))
        fun x hx => hupd x (List.mem_cons_of_mem _ hx)
    refine ⟨hins r List.mem_cons_self, fun o => ?_⟩
    cases o with
    | inserted => exact hrest _
    | violation => trivial
    | skipped =>
      show Rewrites ins upd (if _ then _ else _)
      split
      · trivial
      · refine ⟨fun x hk hw => hupd r List.mem_cons_self x hk hw, fun x => ?_⟩
        cases x with
        | none => exact hrest _
        | some x => exact hrest _

/-! ## Run alone -/

variable {db db' : Db Row} {a : α}

/-- A row stays, rewritten as allowed. -/
theorem exec_rewrites_kept {p : Prog Row L ε α} (hp : p.Rewrites ins upd)
    (h : exec p db = .ok (a, db')) {t : T} {key : Schema.Key Row t} {r : Row t}
    (hr : (db t).find? key = some r) :
    ∃ r', (db' t).find? key = some r' ∧ ReflTransGen (upd t) r r' := by
  induction p generalizing db r with
  | ret b =>
    simp only [exec, Except.ok.injEq, Prod.mk.injEq] at h
    exact ⟨r, h.2 ▸ hr, .refl⟩
  | fail e => cases h
  | select l k ih => exact ih db (hp db) h hr
  | lock t' key' w k ih => exact ih _ (hp _) h hr
  | update t' key' w f k ih =>
    simp only [exec] at h
    split at h
    · exact ih _ (hp.2 _) h hr
    · next x hx =>
      split at h
      · obtain ⟨hfind, hw⟩ := Option.filter_eq_some_iff.mp hx
        have hkey := Table.key_of_find? hfind
        by_cases ht : t = t'
        · subst ht
          by_cases hk : key' = key
          · subst hk
            obtain rfl : r = x := Option.some.inj (hr.symm.trans hfind)
            obtain ⟨r', hr', hchain⟩ := ih _ (hp.2 _) h (r := f.apply r) (by
              rw [Db.put_same, Table.find?_put, if_pos ((f.key_apply r).trans hkey)])
            exact ⟨r', hr', .head (hp.1 r hkey hw) hchain⟩
          · refine ih _ (hp.2 _) h ?_
            rw [Db.put_same, Table.find?_put, if_neg, hr]
            rw [f.key_apply, hkey]
            exact hk
        · exact ih _ (hp.2 _) h (by rw [Db.put_ne _ _ ht]; exact hr)
      · cases h
  | insert t' x skip k ih =>
    simp only [exec] at h
    split at h
    · cases h
    · next hins =>
      refine ih _ (hp.2 _) h ?_
      by_cases ht : t = t'
      · subst ht
        rw [Db.put_same, Table.find?_put, if_neg, hr]
        intro hk
        rw [← hk, Db.find?_of_inserted hins] at hr
        cases hr
      · rw [Db.put_ne _ _ ht]
        exact hr
    · exact ih _ (hp.2 _) h hr
  | advisory n k ih => exact ih hp h hr

/-- Where a row of the later state comes from. -/
theorem exec_rewrites_origin {p : Prog Row L ε α} (hp : p.Rewrites ins upd)
    (h : exec p db = .ok (a, db')) {t : T} {key : Schema.Key Row t} {r' : Row t}
    (hr' : (db' t).find? key = some r') :
    (∃ r, (db t).find? key = some r ∧ ReflTransGen (upd t) r r') ∨
      (db t).find? key = none ∧ ∃ r, ins t r ∧ Schema.key t r = key ∧
        ReflTransGen (upd t) r r' := by
  cases hr : (db t).find? key with
  | some r =>
    obtain ⟨x, hx, hchain⟩ := exec_rewrites_kept hp h hr
    obtain rfl : x = r' := Option.some.inj (hx.symm.trans hr')
    exact .inl ⟨r, rfl, hchain⟩
  | none =>
    refine .inr ⟨rfl, ?_⟩
    induction p generalizing db with
    | ret b =>
      simp only [exec, Except.ok.injEq, Prod.mk.injEq] at h
      rw [← h.2, hr] at hr'
      cases hr'
    | fail e => cases h
    | select l k ih => exact ih db (hp db) h hr
    | lock t' key' w k ih => exact ih _ (hp _) h hr
    | update t' key' w f k ih =>
      simp only [exec] at h
      split at h
      · exact ih _ (hp.2 _) h hr
      · next x hx =>
        split at h
        · obtain ⟨hfind, -⟩ := Option.filter_eq_some_iff.mp hx
          refine ih _ (hp.2 _) h ?_
          by_cases ht : t = t'
          · subst ht
            rw [Db.put_same, Table.find?_put, if_neg, hr]
            intro hk
            rw [f.key_apply, Table.key_of_find? hfind] at hk
            rw [hk, hr] at hfind
            cases hfind
          · rw [Db.put_ne _ _ ht]
            exact hr
        · cases h
    | insert t' x skip k ih =>
      simp only [exec] at h
      split at h
      · cases h
      · next hins =>
        by_cases ht : t = t'
        · subst ht
          by_cases hk : Schema.key t x = key
          · obtain ⟨y, hy, hchain⟩ := exec_rewrites_kept (hp.2 _) h (r := x) (by
              rw [Db.put_same, Table.find?_put, if_pos hk])
            obtain rfl : y = r' := Option.some.inj (hy.symm.trans hr')
            exact ⟨x, hp.1, hk, hchain⟩
          · exact ih _ (hp.2 _) h (by rw [Db.put_same, Table.find?_put, if_neg hk, hr])
        · exact ih _ (hp.2 _) h (by rw [Db.put_ne _ _ ht]; exact hr)
      · exact ih _ (hp.2 _) h hr
    | advisory n k ih => exact ih hp h hr

/-! ## Beside others -/

/-- Every row a transaction wrote comes from one it locked, or from one it
inserted. -/
def Derived (ins : (t : T) → Row t → Prop) (upd : (t : T) → Row t → Row t → Prop)
    (l : Local Row L) : Prop :=
  ∀ t, ∀ x ∈ l.own t, (∃ r ∈ l.held t, Schema.key t r = Schema.key t x ∧
    ReflTransGen (upd t) r x) ∨ ∃ r, ins t r ∧ Schema.key t r = Schema.key t x ∧
      ReflTransGen (upd t) r x

variable {l l' : Local Row L} {res : Except (Failure ε) α}

omit [DecidableEq T] in
theorem derived_of_blank (h : ∀ t, l.own t = []) : Derived ins upd l := by
  intro t x hx
  rw [h t] at hx
  cases hx

theorem Derived.hold (h : Derived ins upd l) (t : T) (o : Option (Row t)) :
    Derived ins upd (l.hold t o) := by
  intro t' x hx
  rw [Local.own_hold] at hx
  refine (h t' x hx).imp_left ?_
  rintro ⟨r, hr, hrest⟩
  exact ⟨r, ((Local.extends_hold t o).held t').subset hr, hrest⟩

theorem Derived.write (h : Derived ins upd l) {t : T} {x : Row t}
    (hx : (∃ r ∈ l.held t, Schema.key t r = Schema.key t x ∧ ReflTransGen (upd t) r x) ∨
      ∃ r, ins t r ∧ Schema.key t r = Schema.key t x ∧ ReflTransGen (upd t) r x) :
    Derived ins upd (l.write t x) := by
  intro t' y hy
  rw [Local.held_write]
  by_cases ht : t' = t
  · subst ht
    rw [Local.own_write_same, List.mem_append, List.mem_singleton] at hy
    rcases hy with hy | rfl
    · exact h t' y hy
    · exact hx
  · rw [Local.own_write_ne x ht] at hy
    exact h t' y hy

/-- A transaction among others derives every row it writes. -/
theorem runs_rewrites {p : Prog Row L ε α} (hp : p.Rewrites ins upd) (h : p.Runs l res l')
    (hl : Derived ins upd l) : Derived ins upd l' := by
  induction p generalizing l with
  | ret a | fail e =>
    obtain ⟨-, rfl⟩ := h
    exact hl
  | select label k ih =>
    obtain ⟨db, n, -, h⟩ := h
    exact ih db (hp db) h hl
  | lock t key w k ih =>
    obtain ⟨o, -, h⟩ := h
    exact ih _ (hp _) h (hl.hold t o)
  | update t key w f k ih =>
    obtain ⟨o, hv, ⟨-, h⟩ | ⟨r, hr, h | ⟨-, rfl⟩⟩⟩ := h
    · exact ih _ (hp.2 _) h (hl.hold t o)
    · obtain ⟨rfl, hw⟩ := Option.filter_eq_some_iff.mp hr
      have hkey := hv.key_eq r rfl
      have hstep := hp.1 r hkey hw
      refine ih _ (hp.2 _) h ((hl.hold t _).write ?_)
      rw [f.key_apply]
      -- the visited row is the transaction's own version, or the visit has locked it
      rcases Local.mem_of_version (Local.version_hold_self hv) with hown | hheld
      · rcases hl.hold t (some r) t r hown with ⟨x, hx, hkx, hchain⟩ | ⟨x, hx, hkx, hchain⟩
        · exact .inl ⟨x, hx, hkx, hchain.tail hstep⟩
        · exact .inr ⟨x, hx, hkx, hchain.tail hstep⟩
      · exact .inl ⟨r, hheld, rfl, .single hstep⟩
    · exact hl.hold t o
  | insert t r skip k ih =>
    obtain ⟨-, rfl⟩ | ⟨-, h⟩ | ⟨x, -, h⟩ | h := h
    · exact hl
    · exact ih _ (hp.2 _) h (hl.write (.inr ⟨r, hp.1, rfl, .refl⟩))
    · exact ih _ (hp.2 _) h hl
    · exact ih _ (hp.2 _) h hl
  | advisory n k ih => exact ih hp h hl

/-- A row that a transaction locked and wrote comes from the version it locked. -/
structure Rooted (upd : (t : T) → Row t → Row t → Prop) (l : Local Row L) : Prop where
  unique : ∀ t, ∀ r ∈ l.held t, ∀ r' ∈ l.held t, Schema.key t r = Schema.key t r' → r = r'
  rewritten : ∀ t, ∀ x ∈ l.own t, ∀ r ∈ l.held t, Schema.key t r = Schema.key t x →
    ReflTransGen (upd t) r x

omit [DecidableEq T] in
theorem rooted_of_blank (hown : ∀ t, l.own t = []) (hheld : ∀ t, l.held t = []) :
    Rooted upd l where
  unique t r hr := by
    rw [hheld t] at hr
    cases hr
  rewritten t x hx := by
    rw [hown t] at hx
    cases hx

theorem Rooted.hold (h : Rooted upd l) (t : T) (o : Option (Row t)) : Rooted upd (l.hold t o) := by
  obtain hh | ⟨y, -, hnone, hh⟩ := l.hold_cases t o
  · rwa [hh]
  have hfree : ∀ x, x ∈ l.own t ∨ x ∈ l.held t → Schema.key t x ≠ Schema.key t y := by
    intro x hx hkey
    have hsome := Local.version_isSome hx
    rw [hkey, hnone] at hsome
    cases hsome
  rw [hh]
  constructor
  · intro t' r hr r' hr' hkey
    by_cases ht : t' = t
    · subst ht
      rw [Local.held_lock_same] at hr hr'
      rcases List.mem_cons.mp hr with hry | hheld
      · rcases List.mem_cons.mp hr' with hry' | hheld'
        · rw [hry, hry']
        · exact absurd (hry ▸ hkey.symm) (hfree r' (.inr hheld'))
      · rcases List.mem_cons.mp hr' with hry' | hheld'
        · exact absurd (hry' ▸ hkey) (hfree r (.inr hheld))
        · exact h.unique t' r hheld r' hheld' hkey
    · rw [Local.held_lock_ne y ht] at hr hr'
      exact h.unique t' r hr r' hr' hkey
  · intro t' x hx r hr hkey
    rw [Local.own_lock] at hx
    by_cases ht : t' = t
    · subst ht
      rw [Local.held_lock_same] at hr
      rcases List.mem_cons.mp hr with rfl | hr
      · exact absurd hkey.symm (hfree x (.inl hx))
      · exact h.rewritten t' x hx r hr hkey
    · rw [Local.held_lock_ne y ht] at hr
      exact h.rewritten t' x hx r hr hkey

theorem Rooted.write (h : Rooted upd l) {t : T} {x : Row t}
    (hx : ∀ r ∈ l.held t, Schema.key t r = Schema.key t x → ReflTransGen (upd t) r x) :
    Rooted upd (l.write t x) where
  unique t' r hr r' hr' hkey := by
    rw [Local.held_write] at hr hr'
    exact h.unique t' r hr r' hr' hkey
  rewritten t' y hy r hr hkey := by
    rw [Local.held_write] at hr
    by_cases ht : t' = t
    · subst ht
      rw [Local.own_write_same, List.mem_append, List.mem_singleton] at hy
      rcases hy with hy | rfl
      · exact h.rewritten t' y hy r hr hkey
      · exact hx r hr hkey
    · rw [Local.own_write_ne x ht] at hy
      exact h.rewritten t' y hy r hr hkey

theorem runs_rooted {p : Prog Row L ε α} (hp : p.Rewrites ins upd) (h : p.Runs l res l')
    (hl : Rooted upd l) : Rooted upd l' := by
  induction p generalizing l with
  | ret a | fail e =>
    obtain ⟨-, rfl⟩ := h
    exact hl
  | select label k ih =>
    obtain ⟨db, n, -, h⟩ := h
    exact ih db (hp db) h ⟨hl.unique, hl.rewritten⟩
  | lock t key w k ih =>
    obtain ⟨o, -, h⟩ := h
    exact ih _ (hp _) h (hl.hold t o)
  | update t key w f k ih =>
    obtain ⟨o, hv, ⟨-, h⟩ | ⟨r, hr, h | ⟨-, rfl⟩⟩⟩ := h
    · exact ih _ (hp.2 _) h (hl.hold t o)
    · obtain ⟨rfl, hw⟩ := Option.filter_eq_some_iff.mp hr
      have hkey := hv.key_eq r rfl
      have hstep := hp.1 r hkey hw
      have hhold := hl.hold t (some r)
      refine ih _ (hp.2 _) h (hhold.write fun x hx hkx => ?_)
      rw [f.key_apply] at hkx
      -- the visited row is the transaction's last image of it, or the locked version
      rcases Local.mem_of_version (Local.version_hold_self hv) with hown | hheld
      · exact (hhold.rewritten t r hown x hx hkx).tail hstep
      · rw [hhold.unique t x hx r hheld hkx]
        exact .single hstep
    · exact hl.hold t o
  | insert t r skip k ih =>
    obtain ⟨-, rfl⟩ | ⟨hnone, h⟩ | ⟨x, -, h⟩ | h := h
    · exact hl
    · refine ih _ (hp.2 _) h (hl.write fun x hx hkey => ?_)
      have hsome := Local.version_isSome (.inr hx : x ∈ l.own t ∨ x ∈ l.held t)
      rw [hkey, hnone] at hsome
      cases hsome
    · exact ih _ (hp.2 _) h ⟨hl.unique, hl.rewritten⟩
    · exact ih _ (hp.2 _) h hl
  | advisory n k ih => exact ih hp h ⟨hl.unique, hl.rewritten⟩

end Prog

end Sql
