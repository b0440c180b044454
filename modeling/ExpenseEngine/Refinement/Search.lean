import ExpenseEngine.Listings
import ExpenseEngine.Sql.Like

/-!
# The search of the transaction list

The list looks for a term inside titles and descriptions with an `ILIKE`
pattern. Escaping takes every meaning out of the term's own characters, so that
the pattern is a substring test.

Results:
1. `likeTokens_escapeLike`: an escaped term is read back as its own characters.
2. `search_is_substring`: the pattern is well formed and finds the term exactly
   inside the texts that contain it.
-/

namespace ExpenseEngine

open Sql

namespace SearchLemmas

/-- The three replacements at once. -/
def escapeChar (c : Char) : Text :=
  if c = '\\' ∨ c = '%' ∨ c = '_' then ['\\', c] else [c]

/-- The backslash goes first: the later replacements insert backslashes that must
not be doubled. -/
theorem escapeLike_eq (term : Text) : escapeLike term = term.flatMap escapeChar := by
  unfold escapeLike replaceChar
  rw [List.flatMap_assoc, List.flatMap_assoc]
  refine List.flatMap_congr fun c _ => ?_
  unfold escapeChar
  by_cases hb : c = '\\'
  · subst hb
    decide
  · by_cases hp : c = '%'
    · subst hp
      decide
    · by_cases hu : c = '_'
      · subst hu
        decide
      · simp [hb, hp, hu]

variable {fold : Char → Char}

/-- One escaped character is one literal token, after case folding too. -/
theorem likeTokens_escapeChar (hfold : FixesWildcards fold) (c : Char) (p : List Char) :
    likeTokens ((escapeChar c).map fold ++ p) =
      (likeTokens p).map fun ts => .literal (fold c) :: ts := by
  have hbackslash : fold '\\' = '\\' := (hfold.backslash _).mpr rfl
  unfold escapeChar
  split
  · rw [List.map_cons, List.map_singleton, hbackslash]
    exact likeTokens_escaped (fold c) p
  · next h =>
    obtain ⟨hb, hp, hu⟩ := not_or.mp h |>.imp_right not_or.mp
    have hliteral : likeToken (fold c) = .literal (fold c) := by
      unfold likeToken
      rw [if_neg (mt (hfold.percent c).mp hp), if_neg (mt (hfold.underscore c).mp hu)]
    rw [List.map_singleton, List.singleton_append,
      likeTokens_of_ne (mt (hfold.backslash c).mp hb), hliteral]

end SearchLemmas

open SearchLemmas

section Search

variable {fold : Char → Char}

/-- An escaped term is read back as its own characters. -/
theorem likeTokens_escapeLike (hfold : FixesWildcards fold) (term p : List Char) :
    likeTokens ((escapeLike term).map fold ++ p) =
      (likeTokens p).map fun ts => (term.map fold).map .literal ++ ts := by
  rw [escapeLike_eq]
  induction term with
  | nil => simp
  | cons c term ih =>
    rw [List.flatMap_cons, List.map_append, List.append_assoc, likeTokens_escapeChar hfold, ih,
      Option.map_map]
    rfl

/-- The pattern of a search is `%`, the characters of the term, and `%`. -/
theorem likeTokens_searchPattern (hfold : FixesWildcards fold) (term : Text) :
    likeTokens ((searchPattern term).map fold) =
      some (.anyString :: ((term.map fold).map .literal ++ [.anyString])) := by
  have hpercent : fold '%' = '%' := (hfold.percent _).mpr rfl
  have htrailing : likeTokens ['%'] = some [.anyString] := by decide
  rw [searchPattern, List.cons_append, List.map_cons, List.map_append, hpercent]
  rw [likeTokens_of_ne (by decide), List.map_singleton, hpercent,
    likeTokens_escapeLike hfold, htrailing]
  rfl

/-- The pattern is well formed and matches exactly the texts that contain the
term, up to case. -/
theorem search_is_substring (hfold : FixesWildcards fold) (term text : Text) :
    ilike fold (searchPattern term) text =
      some (decide (term.map fold <:+: text.map fold)) := by
  rw [ilike, likeTokens_searchPattern hfold, Option.map_some, Option.some.injEq,
    Bool.eq_iff_iff, decide_eq_true_eq]
  exact likeMatch_substring (term.map fold)

end Search

namespace Ascii

theorem toLower_eq_iff {c s : Char} (hupper : ¬('A' ≤ s ∧ s ≤ 'Z'))
    (hlower : ¬('a' ≤ s ∧ s ≤ 'z')) : c.toLower = s ↔ c = s := by
  have hA : 'A'.val.toNat = 65 := rfl
  have hZ : 'Z'.val.toNat = 90 := rfl
  have ha : 'a'.val.toNat = 97 := rfl
  have hz : 'z'.val.toNat = 122 := rfl
  simp only [Char.le_def, UInt32.le_iff_toNat_le] at hupper hlower
  unfold Char.toLower
  split
  · next h =>
    simp only [ge_iff_le, UInt32.le_iff_toNat_le] at h
    constructor
    · rintro rfl
      simp only [UInt32.toNat_add, UInt32.toNat_sub] at hupper hlower
      omega
    · rintro rfl
      omega
  · rfl

theorem fixesWildcards_toLower : FixesWildcards Char.toLower where
  percent _ := toLower_eq_iff (by decide) (by decide)
  underscore _ := toLower_eq_iff (by decide) (by decide)
  backslash _ := toLower_eq_iff (by decide) (by decide)

end Ascii

open Ascii in
theorem search_is_substring_discount :
    ilike Char.toLower (searchPattern "50%_\\ O".toList) "SOLD 50%_\\ off".toList =
      some (decide ("50%_\\ O".toList.map Char.toLower <:+:
        "SOLD 50%_\\ off".toList.map Char.toLower)) :=
  search_is_substring fixesWildcards_toLower _ _

end ExpenseEngine
