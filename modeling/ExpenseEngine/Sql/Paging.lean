import Mathlib.Data.List.Nodup
import Mathlib.Data.List.Flatten
import Mathlib.Data.List.Sort

/-!
# Rows in order

`ORDER BY … LIMIT … OFFSET …` answers from the rows in some order the keys
allow. Rows with equal keys may change places from one query to the next, so the
pages of one listing need not be pages of one list.

Results:
1. `latestBy_eq_some`: `LIMIT 1` takes a row that no other is after.
2. `concatPages_same`: the pages of one list, one after the other, are the list.
3. `take_perm`: where the keys tell the rows at a boundary apart, every order has
   the same rows before it.
4. `concatPages_perm_iff`: the pages cover the rows, whatever order each of them
   is taken from, exactly when the keys tell the rows at every boundary apart.
-/

namespace Sql

variable {α : Type} {le : α → α → Prop} {rows σ τ : List α} {limit : Nat}

/-- What an ORDER BY clause is: it may fail to tell rows apart, but it compares
any two. -/
structure SortOrder (le : α → α → Prop) : Prop where
  refl : ∀ x, le x x
  trans : ∀ x y z, le x y → le y z → le x z
  total : ∀ x y, le x y ∨ le y x

/-- Rows are compared by a key. -/
theorem SortOrder.of_key {β : Type} [LinearOrder β] (key : α → β)
    (h : ∀ x y, le x y ↔ key x ≤ key y) : SortOrder le where
  refl x := (h x x).mpr le_rfl
  trans x y z hxy hyz := (h x z).mpr (((h x y).mp hxy).trans ((h y z).mp hyz))
  total x y := by
    rw [h, h]
    exact le_total _ _

/-- An order the rows may come in. -/
def MayOrder (le : α → α → Prop) (rows σ : List α) : Prop := σ.Perm rows ∧ σ.Pairwise le

/-- Ties in the order of the list are one choice. -/
theorem mayOrder_insertionSort [DecidableRel le] (hle : SortOrder le) (rows : List α) :
    MayOrder le rows (rows.insertionSort le) :=
  have : Std.Total le := ⟨hle.total⟩
  have : IsTrans α le := ⟨hle.trans⟩
  ⟨rows.perm_insertionSort le, rows.pairwise_insertionSort le⟩

/-! ## The last row -/

section Latest

variable {β : Type} [LinearOrder β] {key : α → β} {x : α}

/-- `ORDER BY … DESC LIMIT 1`: the first row among those of the greatest key. -/
def latestBy (key : α → β) : List α → Option α
  | [] => none
  | x :: xs =>
    match latestBy key xs with
    | none => some x
    | some best => if key x < key best then some best else some x

theorem latestBy_eq_none (h : latestBy key rows = none) : rows = [] := by
  cases rows with
  | nil => rfl
  | cons x xs =>
    rw [latestBy] at h
    cases hrest : latestBy key xs with
    | none => rw [hrest] at h; cases h
    | some best =>
      rw [hrest] at h
      dsimp only at h
      split at h <;> cases h

theorem latestBy_eq_some (h : latestBy key rows = some x) :
    x ∈ rows ∧ ∀ y ∈ rows, key y ≤ key x := by
  induction rows generalizing x with
  | nil => cases h
  | cons y ys ih =>
    rw [latestBy] at h
    cases hrest : latestBy key ys with
    | none =>
      rw [hrest] at h
      cases h
      obtain rfl := latestBy_eq_none hrest
      exact ⟨List.mem_cons_self, by simp⟩
    | some best =>
      obtain ⟨hmem, hmax⟩ := ih hrest
      rw [hrest] at h
      dsimp only at h
      split at h
      · next hlt =>
        cases h
        refine ⟨List.mem_cons_of_mem _ hmem, fun z hz => ?_⟩
        rcases List.mem_cons.mp hz with rfl | hz
        · exact hlt.le
        · exact hmax z hz
      · next hge =>
        cases h
        refine ⟨List.mem_cons_self, fun z hz => ?_⟩
        rcases List.mem_cons.mp hz with rfl | hz
        · exact le_rfl
        · exact (hmax z hz).trans (not_lt.mp hge)

end Latest

/-! ## Pages -/

def page (limit offset : Nat) (σ : List α) : List α := (σ.drop offset).take limit

/-- The number of the offsets `0`, `limit`, `2 * limit`, … below `total`. -/
def pageCount (total limit : Nat) : Nat := (total + limit - 1) / limit

/-- The pages one after the other, until `total` is reached. -/
def concatPages (total limit : Nat) (pages : Nat → List α) : List α :=
  (List.range (pageCount total limit)).flatMap pages

/-- The keys tell the last row of each page from the first row of the next. -/
def EndsApart (le : α → α → Prop) (limit : Nat) (σ : List α) : Prop :=
  ∀ k r s, 0 < k → σ[k * limit - 1]? = some r → σ[k * limit]? = some s → ¬le s r

/-! ## Pages of one list -/

namespace PagingLemmas

theorem lt_pageCount {total k : Nat} (hlimit : 0 < limit) (h : k * limit < total) :
    k < pageCount total limit := by
  refine (Nat.le_div_iff_mul_le hlimit).mpr ?_
  rw [Nat.succ_mul]
  omega

theorem mul_lt_of_lt_pageCount {total k : Nat} (hlimit : 0 < limit)
    (h : k < pageCount total limit) : k * limit < total := by
  have hmul := (Nat.le_div_iff_mul_le hlimit).mp (Nat.succ_le_of_lt h)
  rw [Nat.succ_mul] at hmul
  omega

theorem le_pageCount_mul {total : Nat} (hlimit : 0 < limit) :
    total ≤ pageCount total limit * limit := by
  have hdiv := Nat.div_add_mod (total + limit - 1) limit
  have hmod := Nat.mod_lt (total + limit - 1) hlimit
  rw [pageCount, Nat.mul_comm]
  omega

theorem take_succ_mul (k : Nat) (σ : List α) :
    σ.take ((k + 1) * limit) = σ.take (k * limit) ++ page limit (k * limit) σ := by
  rw [Nat.succ_mul, List.take_add, page]

theorem flatMap_pages (n : Nat) (σ : List α) :
    ((List.range n).flatMap fun k => page limit (k * limit) σ) = σ.take (n * limit) := by
  induction n with
  | zero => rw [Nat.zero_mul, List.take_zero, List.range_zero, List.flatMap_nil]
  | succ n ih =>
    rw [List.range_succ, List.flatMap_append, ih, take_succ_mul, List.flatMap_singleton]

end PagingLemmas

open PagingLemmas

theorem concatPages_same (hlimit : 0 < limit) (σ : List α) :
    concatPages σ.length limit (fun k => page limit (k * limit) σ) = σ := by
  rw [concatPages, flatMap_pages, List.take_of_length_le (le_pageCount_mul hlimit)]

/-- Only the pages at offsets below the total are read. -/
theorem concatPages_congr {total : Nat} {pages pages' : Nat → List α} (hlimit : 0 < limit)
    (h : ∀ k, k * limit < total → pages k = pages' k) :
    concatPages total limit pages = concatPages total limit pages' :=
  List.flatMap_congr fun k hk => h k (mul_lt_of_lt_pageCount hlimit (List.mem_range.mp hk))

theorem mem_concatPages {total : Nat} {pages : Nat → List α} {r : α} (hlimit : 0 < limit)
    (h : r ∈ concatPages total limit pages) : ∃ k, k * limit < total ∧ r ∈ pages k := by
  obtain ⟨k, hk, hr⟩ := List.mem_flatMap.mp h
  exact ⟨k, mul_lt_of_lt_pageCount hlimit (List.mem_range.mp hk), hr⟩

/-! ## What every order agrees on -/

namespace PagingLemmas

/-- The rows a predicate takes from a sorted list come first, if it goes down
along the order. -/
theorem filter_append_filter {p : α → Bool} (hp : ∀ x y, le x y → p y = true → p x = true)
    (hσ : σ.Pairwise le) : σ.filter p ++ σ.filter (fun x => !p x) = σ := by
  induction σ with
  | nil => rfl
  | cons x xs ih =>
    rw [List.pairwise_cons] at hσ
    by_cases hx : p x = true
    · rw [List.filter_cons_of_pos hx, List.filter_cons_of_neg (by simp [hx]), List.cons_append,
        ih hσ.2]
    · have hnone : xs.filter p = [] :=
        List.filter_eq_nil_iff.mpr fun y hy hpy => hx (hp x y (hσ.1 y hy) hpy)
      have hall : xs.filter (fun x => !p x) = xs :=
        List.filter_eq_self.mpr fun y hy => by
          have := List.filter_eq_nil_iff.mp hnone y hy
          simpa using this
      rw [List.filter_cons_of_neg hx, hnone, List.nil_append,
        List.filter_cons_of_pos (by simpa using hx), hall]

theorem take_of_filter {p : α → Bool} (hp : ∀ x y, le x y → p y = true → p x = true)
    (hσ : σ.Pairwise le) : σ.take (σ.filter p).length = σ.filter p := by
  have htake : (σ.filter p ++ σ.filter fun x => !p x).take (σ.filter p).length = σ.filter p :=
    List.take_left
  rwa [filter_append_filter hp hσ] at htake

/-- Everything up to the row at a boundary is before the next row. -/
theorem not_le_of_mem_take (hle : SortOrder le) (hσ : σ.Pairwise le)
    {m : Nat} {r s : α} (hr : σ[m]? = some r) (hapart : ¬le s r) {a : α}
    (ha : a ∈ σ.take (m + 1)) : ¬le s a := by
  intro hsa
  have hsplit := hσ.sublist (List.take_sublist (m + 1) σ)
  rw [List.take_add_one, hr, Option.toList_some, List.pairwise_append] at hsplit
  rw [List.take_add_one, hr, Option.toList_some, List.mem_append, List.mem_singleton] at ha
  rcases ha with ha | rfl
  · exact hapart (hle.trans s a r hsa (hsplit.2.2 a ha r List.mem_cons_self))
  · exact hapart hsa

theorem le_of_mem_drop (hle : SortOrder le) (hσ : σ.Pairwise le) {m : Nat} {s : α}
    (hs : σ[m]? = some s) {b : α} (hb : b ∈ σ.drop m) : le s b := by
  obtain ⟨hlt, rfl⟩ := List.getElem?_eq_some_iff.mp hs
  have hrest := hσ.sublist (List.drop_sublist m σ)
  rw [List.drop_eq_getElem_cons hlt, List.pairwise_cons] at hrest
  rw [List.drop_eq_getElem_cons hlt, List.mem_cons] at hb
  rcases hb with rfl | hb
  · exact hle.refl _
  · exact hrest.1 b hb

end PagingLemmas

/-- Where the keys tell the rows at a boundary apart, the rows before it are
those that do not come after the row behind it, in every order. -/
theorem take_perm [DecidableRel le] (hle : SortOrder le) (hσ : MayOrder le rows σ)
    (hτ : MayOrder le rows τ) {m : Nat} {r s : α} (hr : σ[m]? = some r)
    (hs : σ[m + 1]? = some s) (hapart : ¬le s r) : (τ.take (m + 1)).Perm (σ.take (m + 1)) := by
  have hdown : ∀ x y, le x y → (!decide (le s y)) = true → (!decide (le s x)) = true := by
    intro x y hxy hy
    simp only [Bool.not_eq_true', decide_eq_false_iff_not] at hy ⊢
    exact fun hx => hy (hle.trans s x y hx hxy)
  have hbefore : σ.filter (fun x => !decide (le s x)) = σ.take (m + 1) := by
    conv_lhs => rw [← List.take_append_drop (m + 1) σ]
    rw [List.filter_append, List.filter_eq_self.mpr, List.filter_eq_nil_iff.mpr, List.append_nil]
    · intro b hb
      simpa using le_of_mem_drop hle hσ.2 hs hb
    · intro a ha
      simpa using not_le_of_mem_take hle hσ.2 hr hapart ha
  have hlength : (τ.filter fun x => !decide (le s x)).length = m + 1 := by
    rw [((hτ.1.trans hσ.1.symm).filter _).length_eq, hbefore, List.length_take]
    obtain ⟨hlt, -⟩ := List.getElem?_eq_some_iff.mp hs
    omega
  have hτtake := take_of_filter hdown hτ.2
  rw [hlength] at hτtake
  rw [hτtake, ← hbefore]
  exact (hτ.1.trans hσ.1.symm).filter _

/-! ## Covering -/

namespace PagingLemmas

variable [DecidableRel le]

theorem boundary_perm (hle : SortOrder le) (hσ : MayOrder le rows σ)
    (hτ : MayOrder le rows τ) (hlimit : 0 < limit)
    (hapart : EndsApart le limit σ) (k : Nat) :
    (τ.take (k * limit)).Perm (σ.take (k * limit)) := by
  have hsame := hτ.1.trans hσ.1.symm
  by_cases hlt : k * limit < σ.length
  · rcases Nat.eq_zero_or_pos k with rfl | hk
    · simp
    · have hpos : 0 < k * limit := Nat.mul_pos hk hlimit
      obtain ⟨m, hm⟩ : ∃ m, k * limit = m + 1 := ⟨k * limit - 1, by omega⟩
      obtain ⟨r, hr⟩ : ∃ r, σ[k * limit - 1]? = some r := ⟨_, List.getElem?_eq_getElem (by omega)⟩
      obtain ⟨s, hs⟩ : ∃ s, σ[k * limit]? = some s := ⟨_, List.getElem?_eq_getElem hlt⟩
      have hne := hapart k r s hk hr hs
      rw [hm] at hs ⊢
      rw [hm, Nat.add_sub_cancel] at hr
      exact take_perm hle hσ hτ hr hs hne
  · rw [List.take_of_length_le (by rw [hsame.length_eq]; omega),
      List.take_of_length_le (by omega)]
    exact hsame

theorem page_perm (hle : SortOrder le) (hσ : MayOrder le rows σ)
    (hτ : MayOrder le rows τ) (hlimit : 0 < limit)
    (hapart : EndsApart le limit σ) (k : Nat) :
    (page limit (k * limit) τ).Perm (page limit (k * limit) σ) := by
  have hfirst := boundary_perm hle hσ hτ hlimit hapart k
  have hnext := boundary_perm hle hσ hτ hlimit hapart (k + 1)
  rw [take_succ_mul, take_succ_mul] at hnext
  exact (List.perm_append_left_iff _).mp ((hfirst.symm.append_right _).trans hnext)

theorem flatMap_perm {f g : Nat → List α} (h : ∀ k, (f k).Perm (g k)) (ks : List Nat) :
    (ks.flatMap f).Perm (ks.flatMap g) := by
  induction ks with
  | nil => exact .refl _
  | cons k ks ih =>
    rw [List.flatMap_cons, List.flatMap_cons]
    exact (h k).append ih

omit [DecidableRel le] in
/-- Two neighbours with equal keys change places. -/
theorem mayOrder_swap {A B : List α} {r s : α}
    (hσ : MayOrder le rows (A ++ r :: s :: B)) (htied : le s r) :
    MayOrder le rows (A ++ s :: r :: B) := by
  refine ⟨((List.Perm.swap r s B).append_left A).trans hσ.1, ?_⟩
  have hsorted := hσ.2
  simp only [List.pairwise_append, List.pairwise_cons, List.mem_cons] at hsorted ⊢
  obtain ⟨hA, ⟨hr, hs, hB⟩, hcross⟩ := hsorted
  refine ⟨hA, ⟨?_, fun b hb => hr b (.inr hb), hB⟩, ?_⟩
  · rintro b (rfl | hb)
    · exact htied
    · exact hs b hb
  · rintro a ha b (rfl | rfl | hb)
    · exact hcross a ha b (.inr (.inl rfl))
    · exact hcross a ha b (.inl rfl)
    · exact hcross a ha b (.inr (.inr hb))

theorem split_pair {σ : List α} {m : Nat} {r s : α} (hr : σ[m]? = some r)
    (hs : σ[m + 1]? = some s) : σ = σ.take m ++ r :: s :: σ.drop (m + 2) := by
  obtain ⟨hlt, rfl⟩ := List.getElem?_eq_some_iff.mp hs
  obtain ⟨-, rfl⟩ := List.getElem?_eq_some_iff.mp hr
  conv_lhs => rw [← List.take_append_drop m σ, List.drop_eq_getElem_cons (by omega),
    List.drop_eq_getElem_cons hlt]

theorem mem_page {offset i : Nat} {r : α} (hr : σ[i]? = some r) (hle : offset ≤ i)
    (hlt : i < offset + limit) : r ∈ page limit offset σ := by
  refine List.mem_of_getElem? (i := i - offset) ?_
  rw [page, List.getElem?_take_of_lt (by omega), List.getElem?_drop, Nat.add_sub_cancel' hle, hr]

/-- Of two pages with a row in common only one can be listed. -/
theorem not_nodup_of_mem {n j k : Nat} {pages : Nat → List α} {r : α} (hjk : j < k) (hk : k < n)
    (hj : r ∈ pages j) (hr : r ∈ pages k) : ¬((List.range n).flatMap pages).Nodup := by
  intro hnd
  have hdisjoint := (List.nodup_flatMap.mp hnd).2
  have hpair := List.pairwise_iff_getElem.mp hdisjoint j k (by rw [List.length_range]; omega)
    (by rw [List.length_range]; omega) hjk
  rw [List.getElem_range, List.getElem_range] at hpair
  exact hpair hj hr

end PagingLemmas

/-- The pages, each taken from some order the rows may come in, are the rows
exactly when no boundary lies between rows with equal keys. Otherwise the row
before the boundary may be listed once more after it. -/
theorem concatPages_perm_iff [DecidableRel le] (hle : SortOrder le) (hrows : rows.Nodup)
    (hσ : MayOrder le rows σ) (hlimit : 0 < limit) :
    (∀ pages : Nat → List α,
      (∀ k, ∃ τ, MayOrder le rows τ ∧ pages k = page limit (k * limit) τ) →
        (concatPages rows.length limit pages).Perm rows) ↔ EndsApart le limit σ := by
  constructor
  · intro h k r s hk hr hs htied
    have hpos : 0 < k * limit := Nat.mul_pos hk hlimit
    obtain ⟨m, hm⟩ : ∃ m, k * limit = m + 1 := ⟨k * limit - 1, by omega⟩
    rw [hm, Nat.add_sub_cancel] at hr
    rw [hm] at hs
    have hsplit := split_pair hr hs
    obtain ⟨hlt, -⟩ := List.getElem?_eq_some_iff.mp hs
    have hswap : MayOrder le rows (σ.take m ++ s :: r :: σ.drop (m + 2)) :=
      mayOrder_swap (hsplit ▸ hσ) htied
    -- the order is another one only for the page behind the boundary
    have hperm := h (fun j => page limit (j * limit)
      (if j = k then σ.take m ++ s :: r :: σ.drop (m + 2) else σ)) (fun j => by
        by_cases hj : j = k
        · exact ⟨_, hswap, by rw [if_pos hj]⟩
        · exact ⟨σ, hσ, by rw [if_neg hj]⟩)
    refine not_nodup_of_mem (j := k - 1) (k := k) (r := r) (by omega)
      (lt_pageCount hlimit ?_) ?_ ?_ (hperm.nodup_iff.mpr hrows)
    · rw [← hσ.1.length_eq]
      omega
    · have hprev : (k - 1) * limit + limit = k * limit := by
        rw [← Nat.succ_mul, Nat.succ_eq_add_one, Nat.sub_add_cancel hk]
      rw [if_neg (by omega)]
      exact mem_page hr (by omega) (by omega)
    · have hmoved : (σ.take m ++ s :: r :: σ.drop (m + 2))[m + 1]? = some r := by
        have hlength : (σ.take m).length = m := List.length_take_of_le (by omega)
        rw [List.getElem?_append_right (by omega), hlength, Nat.add_sub_cancel_left]
        rfl
      rw [if_pos rfl]
      exact mem_page hmoved (by omega) (by omega)
  · intro hapart pages hpages
    have hsame : (concatPages rows.length limit pages).Perm
        (concatPages σ.length limit fun k => page limit (k * limit) σ) := by
      rw [hσ.1.length_eq]
      refine flatMap_perm (fun k => ?_) _
      obtain ⟨τ, hτ, hpage⟩ := hpages k
      rw [hpage]
      exact page_perm hle hσ hτ hlimit hapart k
    rw [concatPages_same hlimit] at hsame
    exact hsame.trans hσ.1

end Sql
