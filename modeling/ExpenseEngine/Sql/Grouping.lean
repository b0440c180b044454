import Mathlib.Data.List.Dedup
import Mathlib.Data.List.Sort
import Mathlib.Algebra.BigOperators.Group.List.Basic
import Mathlib.Algebra.Ring.Int.Defs
import Mathlib.Algebra.Order.BigOperators.Group.List

/-!
# Grouped sums

`GROUP BY key` splits a list of rows into the groups of its keys. A sum over all
rows is the sum of the sums of the groups, as long as the keys are without
repetition and cover the rows.

Results:
1. `sum_groups`: summing group by group.
2. `mapM_eq_map`, `mapM_congr_left`: a loop whose body never fails, and two
   loops whose bodies agree.
3. `sum_eq_zero_iff_forall`: a sum of counts is zero only when every count is.
-/

namespace Sql

variable {α β κ : Type} [DecidableEq κ]

/-- The rows of one group. -/
def group (key : α → κ) (rows : List α) (k : κ) : List α :=
  rows.filter fun x => decide (key x = k)

theorem mem_group {key : α → κ} {rows : List α} {k : κ} {x : α} :
    x ∈ group key rows k ↔ x ∈ rows ∧ key x = k := by
  simp [group]

/-- One row adds to the sum of its own group only. -/
theorem sum_group_cons {key : α → κ} (f : α → Int) (x : α) (rows : List α) {ks : List κ}
    (hnd : ks.Nodup) (hx : key x ∈ ks) :
    (ks.map fun k => ((group key (x :: rows) k).map f).sum).sum =
      f x + (ks.map fun k => ((group key rows k).map f).sum).sum := by
  induction ks with
  | nil => cases hx
  | cons k ks ih =>
    rw [List.nodup_cons] at hnd
    rw [List.map_cons, List.map_cons, List.sum_cons, List.sum_cons]
    have hgroup : ∀ j, group key (x :: rows) j =
        if key x = j then x :: group key rows j else group key rows j := by
      intro j
      simp only [group, List.filter_cons, decide_eq_true_eq]
    rw [hgroup k]
    by_cases hk : key x = k
    · have hrest : ∀ j ∈ ks, group key (x :: rows) j = group key rows j := by
        intro j hj
        rw [hgroup j, if_neg]
        rintro rfl
        exact hnd.1 (hk ▸ hj)
      rw [if_pos hk, List.map_cons, List.sum_cons, add_assoc]
      congr 2
      congr 1
      refine List.map_congr_left fun j hj => ?_
      rw [hrest j hj]
    · have hx' : key x ∈ ks := by
        rcases List.mem_cons.mp hx with h | h
        · exact absurd h hk
        · exact h
      rw [if_neg hk, ih hnd.2 hx']
      omega

/-- Summing group by group counts every row once. -/
theorem sum_groups (key : α → κ) (f : α → Int) {rows : List α} {ks : List κ} (hnd : ks.Nodup)
    (hcover : ∀ x ∈ rows, key x ∈ ks) :
    (ks.map fun k => ((group key rows k).map f).sum).sum = (rows.map f).sum := by
  induction rows with
  | nil => simp [group]
  | cons x rows ih =>
    rw [sum_group_cons f x rows hnd (hcover x List.mem_cons_self),
      ih fun y hy => hcover y (List.mem_cons_of_mem _ hy), List.map_cons, List.sum_cons]

theorem mapM_eq_map {f : α → Option β} {g : α → β} {xs : List α}
    (h : ∀ x ∈ xs, f x = some (g x)) : xs.mapM f = some (xs.map g) := by
  induction xs with
  | nil => rfl
  | cons x xs ih =>
    rw [List.mapM_cons, h x List.mem_cons_self,
      ih fun y hy => h y (List.mem_cons_of_mem _ hy)]
    rfl

/-- Two loops over the same list whose bodies agree on its elements. -/
theorem mapM_congr_left {m : Type → Type} [Monad m] [LawfulMonad m] {f g : α → m β} {xs : List α}
    (h : ∀ x ∈ xs, f x = g x) : xs.mapM f = xs.mapM g := by
  induction xs with
  | nil => rfl
  | cons x xs ih =>
    rw [List.mapM_cons, List.mapM_cons, h x List.mem_cons_self,
      ih fun y hy => h y (List.mem_cons_of_mem _ hy)]

theorem sum_nonneg_of_forall {f : α → Int} {xs : List α} (h : ∀ x ∈ xs, 0 ≤ f x) :
    0 ≤ (xs.map f).sum := by
  refine List.sum_nonneg fun y hy => ?_
  obtain ⟨x, hx, rfl⟩ := List.mem_map.mp hy
  exact h x hx

theorem sum_eq_zero_iff_forall {f : α → Int} {xs : List α} (h : ∀ x ∈ xs, 0 ≤ f x) :
    (xs.map f).sum = 0 ↔ ∀ x ∈ xs, f x = 0 := by
  induction xs with
  | nil => simp
  | cons x xs ih =>
    have hx := h x List.mem_cons_self
    have hrest := sum_nonneg_of_forall fun y hy => h y (List.mem_cons_of_mem x hy)
    rw [List.map_cons, List.sum_cons, List.forall_mem_cons,
      ← ih fun y hy => h y (List.mem_cons_of_mem x hy)]
    omega

end Sql
