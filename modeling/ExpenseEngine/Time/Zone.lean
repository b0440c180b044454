import Mathlib.Data.List.Pairwise
import Mathlib.Order.Lattice

/-!
# Time zones

A zone is an offset from UTC that changes at finitely many instants. Instants
and clock readings are microseconds, an offset is what the clock is ahead of
UTC. Two conversions are in use: UTC to clock reads the offset in force at the
instant; clock to UTC (`zoneinfo` with `fold=0`) looks the reading up among the
readings at which the transitions are certain to be over.

Results:
1. `fromLocal_le_iff`: where no transition jumps across a reading, the clock has
   reached it exactly from the converted instant on.
2. `continuous_of_fromLocal`: only there.
-/

namespace Time

/-- Microseconds of a day. -/
def dayLength : Int := 86400000000

/-- The offset before the first transition, and the instant and the new offset of
each one. Offsets are less than a day, as `tzinfo` demands. -/
structure Zone where
  before : Int
  transitions : List (Int × Int)
  sorted : transitions.Pairwise fun x y => x.1 < y.1
  bounded : ∀ o ∈ before :: transitions.map Prod.snd, -dayLength < o ∧ o < dayLength

/-! ## Conversions -/

/-- The offset at the instant `t`, when `o` holds before the transitions. -/
def offsetFrom (o : Int) : List (Int × Int) → Int → Int
  | [], _ => o
  | x :: xs, t => if t < x.1 then o else offsetFrom x.2 xs t

/-- The reading from which on each transition is over on every clock. -/
def walls (o : Int) : List (Int × Int) → List Int
  | [] => []
  | x :: xs => (x.1 + max o x.2) :: walls x.2 xs

/-- `bisect.bisect_right(a, x, lo, hi)`; `fuel` bounds the number of halvings. -/
def bisectRight (a : List Int) (x : Int) : Nat → Nat → Nat → Nat
  | 0, lo, _ => lo
  | fuel + 1, lo, hi =>
    if lo < hi then
      let mid := (lo + hi) / 2
      if x < a.getD mid 0 then bisectRight a x fuel lo mid
      else bisectRight a x fuel (mid + 1) hi
    else lo

namespace Zone

/-- `t AT TIME ZONE z` -/
def toLocal (z : Zone) (t : Int) : Int := t + offsetFrom z.before z.transitions t

/-- The offset `zoneinfo` gives to the reading `b` with `fold=0`. -/
def foldOffset (z : Zone) (b : Int) : Int :=
  let lt := walls z.before z.transitions
  (z.before :: z.transitions.map Prod.snd).getD (bisectRight lt b lt.length 0 lt.length) 0

/-- `astimezone(timezone.utc)` -/
def fromLocal (z : Zone) (b : Int) : Int := b - z.foldOffset b

end Zone

/-- The clock readings right before and right after each transition. -/
def jumps (o : Int) : List (Int × Int) → List (Int × Int)
  | [] => []
  | x :: xs => (x.1 + o, x.1 + x.2) :: jumps x.2 xs

/-- No transition skips the reading `b`. -/
def NeverSkips (b : Int) (js : List (Int × Int)) : Prop := ∀ j ∈ js, ¬(j.1 < b ∧ b < j.2)

/-- No transition sets the clock back across the reading `b`. -/
def NeverRepeats (b : Int) (js : List (Int × Int)) : Prop := ∀ j ∈ js, ¬(j.2 < b ∧ b < j.1)

/-- The clock does not jump across the reading `b`. -/
def Zone.Continuous (z : Zone) (b : Int) : Prop :=
  NeverSkips b (jumps z.before z.transitions) ∧ NeverRepeats b (jumps z.before z.transitions)

instance (z : Zone) (b : Int) : Decidable (z.Continuous b) :=
  inferInstanceAs (Decidable ((∀ j ∈ _, ¬_) ∧ ∀ j ∈ _, ¬_))

/-! ## Looking a reading up -/

namespace ZoneLemmas

variable {b o T : Int} {xs : List (Int × Int)}

/-- The offset before the first transition that is not over at `b`. -/
def lookupOffset (b : Int) (o : Int) : List (Int × Int) → Int
  | [] => o
  | x :: xs => if b < x.1 + max o x.2 then o else lookupOffset b x.2 xs

/-- `bisect_right` finds where `x < a[i]` turns true, if it turns only once. -/
theorem bisectRight_eq {a : List Int} {x : Int} {k : Nat}
    (hlow : ∀ i, i < k → ¬x < a.getD i 0) (hhigh : ∀ i, k ≤ i → i < a.length → x < a.getD i 0) :
    ∀ fuel lo hi, lo ≤ k → k ≤ hi → hi ≤ a.length → hi - lo ≤ fuel →
      bisectRight a x fuel lo hi = k := by
  intro fuel
  induction fuel with
  | zero =>
    intro lo hi h₁ h₂ _ h₄
    rw [bisectRight]
    omega
  | succ fuel ih =>
    intro lo hi h₁ h₂ h₃ h₄
    rw [bisectRight]
    split
    · next hlt =>
      dsimp only
      split
      · next hx =>
        refine ih lo _ h₁ ?_ (by omega) (by omega)
        by_contra hmid
        exact hlow _ (by omega) hx
      · next hx =>
        refine ih _ hi ?_ h₂ h₃ (by omega)
        by_contra hmid
        exact hx (hhigh _ (by omega) (by omega))
    · omega

/-- Once a transition is not over at `b`, no later one is. -/
theorem walls_of_reached (hs : xs.Pairwise fun x y => x.1 < y.1) (hT : ∀ x ∈ xs, T < x.1)
    (hr : NeverRepeats b (jumps o xs)) (hb : b ≤ T + o) : ∀ w ∈ walls o xs, b < w := by
  induction xs generalizing o T with
  | nil => simp [walls]
  | cons x xs ih =>
    rw [List.pairwise_cons] at hs
    have hx := hT x List.mem_cons_self
    have hback : ¬(x.1 + x.2 < b ∧ b < x.1 + o) := hr _ List.mem_cons_self
    intro w hw
    rw [walls, List.mem_cons] at hw
    rcases hw with rfl | hw
    · omega
    · refine ih (T := x.1) hs.2 hs.1 (fun j hj => hr j (List.mem_cons_of_mem _ hj)) ?_ w hw
      omega

/-- The number of transitions that are over at `b`. -/
def overCount (b : Int) (o : Int) : List (Int × Int) → Nat
  | [] => 0
  | x :: xs => if b < x.1 + max o x.2 then 0 else overCount b x.2 xs + 1

theorem over_le (b o : Int) (xs : List (Int × Int)) : overCount b o xs ≤ (walls o xs).length := by
  induction xs generalizing o with
  | nil => simp [overCount]
  | cons x xs ih =>
    rw [overCount, walls, List.length_cons]
    split
    · omega
    · exact Nat.succ_le_succ (ih x.2)

theorem over_low (b o : Int) (xs : List (Int × Int)) :
    ∀ i, i < overCount b o xs → ¬b < (walls o xs).getD i 0 := by
  induction xs generalizing o with
  | nil => simp [overCount]
  | cons x xs ih =>
    intro i hi
    rw [overCount] at hi
    split at hi
    · omega
    · next hover =>
      cases i with
      | zero => simpa [walls] using hover
      | succ i => simpa [walls] using ih x.2 i (by omega)

theorem over_high (hs : xs.Pairwise fun x y => x.1 < y.1) (hr : NeverRepeats b (jumps o xs)) :
    ∀ i, overCount b o xs ≤ i → i < (walls o xs).length → b < (walls o xs).getD i 0 := by
  induction xs generalizing o with
  | nil => simp [walls]
  | cons x xs ih =>
    rw [List.pairwise_cons] at hs
    have hback : ¬(x.1 + x.2 < b ∧ b < x.1 + o) := hr _ List.mem_cons_self
    have hrest : NeverRepeats b (jumps x.2 xs) := fun j hj => hr j (List.mem_cons_of_mem _ hj)
    intro i hi hlen
    rw [overCount] at hi
    split at hi
    · next hbefore =>
      have hall := walls_of_reached (T := x.1) hs.2 hs.1 hrest (by omega)
      cases i with
      | zero => simpa [walls] using hbefore
      | succ i =>
        rw [walls, List.length_cons] at hlen
        have hmem : (walls x.2 xs).getD i 0 ∈ walls x.2 xs := by
          rw [List.getD_eq_getElem?_getD, List.getElem?_eq_getElem (by omega), Option.getD_some]
          exact List.getElem_mem _
        simpa [walls] using hall _ hmem
    · cases i with
      | zero => omega
      | succ i =>
        rw [walls, List.length_cons] at hlen
        simpa [walls] using ih hs.2 hrest i (by omega) (by omega)

theorem getD_over (b o : Int) (xs : List (Int × Int)) :
    (o :: xs.map Prod.snd).getD (overCount b o xs) 0 = lookupOffset b o xs := by
  induction xs generalizing o with
  | nil => rfl
  | cons x xs ih =>
    rw [overCount, lookupOffset]
    split
    · rfl
    · exact ih x.2

/-- Where the clock is never set back across `b`, the lookup is the linear
one. -/
theorem foldOffset_eq {z : Zone} (hr : NeverRepeats b (jumps z.before z.transitions)) :
    z.foldOffset b = lookupOffset b z.before z.transitions := by
  rw [← getD_over]
  unfold Zone.foldOffset
  dsimp only
  rw [bisectRight_eq (over_low b _ _) (over_high z.sorted hr)]
  · omega
  · exact over_le b _ _
  · exact le_rfl
  · omega

/-! ## The clock reaches a reading once -/

/-- Once the clock has reached `b`, it stays there. -/
theorem reached_of_transition (hs : xs.Pairwise fun x y => x.1 < y.1) (hT : ∀ x ∈ xs, T < x.1)
    (hr : NeverRepeats b (jumps o xs)) (hb : b ≤ T + o) :
    ∀ t, T ≤ t → b ≤ t + offsetFrom o xs t := by
  induction xs generalizing o T with
  | nil =>
    intro t ht
    rw [offsetFrom]
    omega
  | cons x xs ih =>
    rw [List.pairwise_cons] at hs
    have hx := hT x List.mem_cons_self
    have hback : ¬(x.1 + x.2 < b ∧ b < x.1 + o) := hr _ List.mem_cons_self
    intro t ht
    rw [offsetFrom]
    split
    · omega
    · refine ih (T := x.1) hs.2 hs.1 (fun j hj => hr j (List.mem_cons_of_mem _ hj)) ?_ t ?_
      all_goals omega

/-- A reading the clock has not passed at `T` is converted to `T` or later. -/
theorem le_sub_lookupOffset (hs : xs.Pairwise fun x y => x.1 < y.1) (hT : ∀ x ∈ xs, T < x.1)
    (hb : T + o ≤ b) : T ≤ b - lookupOffset b o xs := by
  induction xs generalizing o T with
  | nil =>
    rw [lookupOffset]
    omega
  | cons x xs ih =>
    rw [List.pairwise_cons] at hs
    have hx := hT x List.mem_cons_self
    rw [lookupOffset]
    split
    · omega
    · have := ih (T := x.1) (o := x.2) hs.2 hs.1 (by omega)
      omega

/-- Where no transition jumps across `b`, the clock shows `b` or later exactly
from the converted instant on. The induction is on the transitions: those that
are over at `b` lie before that instant, the first one that is not lies after
it. -/
theorem reached_iff (hs : xs.Pairwise fun x y => x.1 < y.1) (hk : NeverSkips b (jumps o xs))
    (hr : NeverRepeats b (jumps o xs)) (t : Int) :
    b ≤ t + offsetFrom o xs t ↔ b - lookupOffset b o xs ≤ t := by
  induction xs generalizing o with
  | nil =>
    rw [offsetFrom, lookupOffset]
    omega
  | cons x xs ih =>
    rw [List.pairwise_cons] at hs
    have hskip : ¬(x.1 + o < b ∧ b < x.1 + x.2) := hk _ List.mem_cons_self
    have hback : ¬(x.1 + x.2 < b ∧ b < x.1 + o) := hr _ List.mem_cons_self
    have hk' : NeverSkips b (jumps x.2 xs) := fun j hj => hk j (List.mem_cons_of_mem _ hj)
    have hr' : NeverRepeats b (jumps x.2 xs) := fun j hj => hr j (List.mem_cons_of_mem _ hj)
    rw [offsetFrom, lookupOffset]
    by_cases hbefore : b < x.1 + max o x.2
    · rw [if_pos hbefore]
      split
      · omega
      · have hreached := reached_of_transition (T := x.1) hs.2 hs.1 hr' (by omega) t (by omega)
        omega
    · rw [if_neg hbefore]
      have hlater := le_sub_lookupOffset (T := x.1) (o := x.2) hs.2 hs.1 (b := b) (by omega)
      split
      · omega
      · exact ih hs.2 hk' hr'

/-! ## Only there -/

/-- A clock that stays at `b` or later once it is there was not set back across
`b`. -/
theorem neverRepeats_of_stays (hs : xs.Pairwise fun x y => x.1 < y.1)
    (h : ∀ t t', t ≤ t' → b ≤ t + offsetFrom o xs t → b ≤ t' + offsetFrom o xs t') :
    NeverRepeats b (jumps o xs) := by
  induction xs generalizing o with
  | nil => simp [NeverRepeats, jumps]
  | cons x xs ih =>
    rw [List.pairwise_cons] at hs
    have hat : offsetFrom o (x :: xs) x.1 = offsetFrom x.2 xs x.1 := by simp [offsetFrom]
    have hnow : offsetFrom x.2 xs x.1 = x.2 := by
      cases xs with
      | nil => rfl
      | cons y ys => rw [offsetFrom, if_pos (hs.1 y List.mem_cons_self)]
    have hlate : ∀ t, x.1 ≤ t → offsetFrom o (x :: xs) t = offsetFrom x.2 xs t := by
      intro t ht
      rw [offsetFrom, if_neg (by omega)]
    have hearly : ∀ t, t ≤ x.1 → offsetFrom x.2 xs t = x.2 := by
      intro t ht
      cases xs with
      | nil => rfl
      | cons y ys =>
        have := hs.1 y List.mem_cons_self
        rw [offsetFrom, if_pos (by omega)]
    rintro j (_ | ⟨_, hj⟩)
    · rintro ⟨h₁, h₂⟩
      have hprev : offsetFrom o (x :: xs) (x.1 - 1) = o := by rw [offsetFrom, if_pos (by omega)]
      have := h (x.1 - 1) x.1 (by omega) (by rw [hprev]; dsimp only at h₂; omega)
      rw [hat, hnow] at this
      dsimp only at h₁
      omega
    · refine ih hs.2 (fun t t' htt' hb => ?_) j hj
      by_cases ht : x.1 ≤ t
      · rw [← hlate t ht] at hb
        rw [← hlate t' (by omega)]
        exact h t t' htt' hb
      · -- the new offset would have shown `b` before the transition, so the clock does at it
        rw [hearly t (by omega)] at hb
        by_cases ht' : x.1 ≤ t'
        · rw [← hlate t' ht']
          refine h x.1 t' ht' ?_
          rw [hat, hnow]
          omega
        · rw [hearly t' (by omega)]
          omega

/-- After the clock has reached `b`, every reading is later. -/
theorem jumps_of_reached (hs : xs.Pairwise fun x y => x.1 < y.1) (hT : ∀ x ∈ xs, T < x.1)
    (hr : NeverRepeats b (jumps o xs)) (hb : b ≤ T + o) : ∀ j ∈ jumps o xs, b < j.1 := by
  induction xs generalizing o T with
  | nil => simp [jumps]
  | cons x xs ih =>
    rw [List.pairwise_cons] at hs
    have hx := hT x List.mem_cons_self
    have hback : ¬(x.1 + x.2 < b ∧ b < x.1 + o) := hr _ List.mem_cons_self
    rintro j (_ | ⟨_, hj⟩)
    · dsimp only
      omega
    · refine ih (T := x.1) hs.2 hs.1 (fun j hj => hr j (List.mem_cons_of_mem _ hj)) ?_ j hj
      omega

theorem neverSkips_of_reached_iff (hs : xs.Pairwise fun x y => x.1 < y.1)
    (hr : NeverRepeats b (jumps o xs))
    (h : ∀ t, b ≤ t + offsetFrom o xs t ↔ b - lookupOffset b o xs ≤ t) :
    NeverSkips b (jumps o xs) := by
  induction xs generalizing o with
  | nil => simp [NeverSkips, jumps]
  | cons x xs ih =>
    rw [List.pairwise_cons] at hs
    have hback : ¬(x.1 + x.2 < b ∧ b < x.1 + o) := hr _ List.mem_cons_self
    have hr' : NeverRepeats b (jumps x.2 xs) := fun j hj => hr j (List.mem_cons_of_mem _ hj)
    have hearly : ∀ t, t ≤ x.1 → offsetFrom x.2 xs t = x.2 := by
      intro t ht
      cases xs with
      | nil => rfl
      | cons y ys =>
        have := hs.1 y List.mem_cons_self
        rw [offsetFrom, if_pos (by omega)]
    have hskip : ¬(x.1 + o < b ∧ b < x.1 + x.2) := by
      rintro ⟨h₁, h₂⟩
      have hat := h x.1
      rw [lookupOffset, if_pos (by omega), offsetFrom, if_neg (by omega),
        hearly x.1 le_rfl] at hat
      omega
    rintro j (_ | ⟨_, hj⟩)
    · exact hskip
    · by_cases hbefore : b < x.1 + max o x.2
      · have := jumps_of_reached (T := x.1) hs.2 hs.1 hr' (by omega) j hj
        omega
      · refine ih hs.2 hr' (fun t => ?_) j hj
        have hlater := le_sub_lookupOffset (T := x.1) (o := x.2) hs.2 hs.1 (b := b) (by omega)
        by_cases ht : x.1 ≤ t
        · have hiff := h t
          rwa [lookupOffset, if_neg hbefore, offsetFrom, if_neg (by omega)] at hiff
        · rw [hearly t (by omega)]
          omega

end ZoneLemmas

open ZoneLemmas

/-- Where the clock does not jump across `b`, it shows `b` or later exactly from
the converted instant on. -/
theorem fromLocal_le_iff {z : Zone} {b : Int} (h : z.Continuous b) (t : Int) :
    z.fromLocal b ≤ t ↔ b ≤ z.toLocal t := by
  rw [Zone.fromLocal, foldOffset_eq h.2, Zone.toLocal]
  exact (reached_iff z.sorted h.1 h.2 t).symm

/-- Where the clock shows `b` or later exactly from the converted instant on, it
does not jump across `b`. -/
theorem continuous_of_fromLocal {z : Zone} {b : Int}
    (h : ∀ t, z.fromLocal b ≤ t ↔ b ≤ z.toLocal t) : z.Continuous b := by
  have hr : NeverRepeats b (jumps z.before z.transitions) :=
    neverRepeats_of_stays z.sorted fun t t' htt' hb =>
      (h t').mp (((h t).mpr hb).trans htt')
  refine ⟨neverSkips_of_reached_iff z.sorted hr fun t => ?_, hr⟩
  rw [← foldOffset_eq hr]
  exact (h t).symm

/-! ## Offsets are less than a day -/

namespace ZoneLemmas

theorem offsetFrom_mem (o : Int) (xs : List (Int × Int)) (t : Int) :
    offsetFrom o xs t ∈ o :: xs.map Prod.snd := by
  induction xs generalizing o with
  | nil => simp [offsetFrom]
  | cons x xs ih =>
    rw [offsetFrom]
    split
    · exact List.mem_cons_self
    · exact List.mem_cons_of_mem _ (ih x.2)

end ZoneLemmas

theorem Zone.toLocal_bounds (z : Zone) (t : Int) :
    t - dayLength < z.toLocal t ∧ z.toLocal t < t + dayLength := by
  have := z.bounded _ (offsetFrom_mem z.before z.transitions t)
  rw [Zone.toLocal]
  omega

theorem Zone.fromLocal_bounds (z : Zone) (b : Int) :
    b - dayLength < z.fromLocal b ∧ z.fromLocal b < b + dayLength := by
  have hbound : -dayLength < z.foldOffset b ∧ z.foldOffset b < dayLength := by
    unfold Zone.foldOffset
    dsimp only
    rw [List.getD_eq_getElem?_getD]
    cases hget : (z.before :: z.transitions.map Prod.snd)[bisectRight (walls z.before z.transitions)
      b (walls z.before z.transitions).length 0 (walls z.before z.transitions).length]? with
    | none => simp [dayLength]
    | some o => exact z.bounded o (List.mem_of_getElem? hget)
  rw [Zone.fromLocal]
  omega

end Time
