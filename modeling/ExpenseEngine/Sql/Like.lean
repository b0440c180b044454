import Mathlib.Data.List.Infix

/-!
# LIKE patterns

`%` stands for any string, `_` for any one character, and a backslash makes the
character after it stand for itself. `ILIKE` compares after case folding.

Results:
1. `likeMatch_anyString`, `likeMatch_literals`: what a pattern that starts with
   `%`, or with literal characters, matches.
2. `likeMatch_substring`: `%…%` around literal characters is a substring test.
-/

namespace Sql

inductive LikeToken where
  | anyString
  | anyChar
  | literal (c : Char)
  deriving DecidableEq

/-- The token of a character that is not escaped. -/
def likeToken (c : Char) : LikeToken :=
  if c = '%' then .anyString else if c = '_' then .anyChar else .literal c

/-- The tokens of a pattern. A pattern that ends with the escape character is
not well formed. -/
def likeTokens : List Char → Option (List LikeToken)
  | [] => some []
  | c :: p =>
    if c = '\\' then
      match p with
      | [] => none
      | d :: q => (likeTokens q).map fun ts => .literal d :: ts
    else (likeTokens p).map fun ts => likeToken c :: ts

def likeMatch : List LikeToken → List Char → Bool
  | [], text => text.isEmpty
  | .anyString :: ts, text => text.tails.any (likeMatch ts)
  | .anyChar :: _, [] => false
  | .anyChar :: ts, _ :: text => likeMatch ts text
  | .literal _ :: _, [] => false
  | .literal c :: ts, d :: text => decide (c = d) && likeMatch ts text

/-- `text ILIKE pattern ESCAPE '\'`; `none` is the error of a pattern that is not
well formed. -/
def ilike (fold : Char → Char) (pattern text : List Char) : Option Bool :=
  (likeTokens (pattern.map fold)).map fun ts => likeMatch ts (text.map fold)

/-- Case folding leaves the characters with a meaning in a pattern alone, and
makes none of another character. -/
structure FixesWildcards (fold : Char → Char) : Prop where
  percent : ∀ c, fold c = '%' ↔ c = '%'
  underscore : ∀ c, fold c = '_' ↔ c = '_'
  backslash : ∀ c, fold c = '\\' ↔ c = '\\'

/-! ## Reading a pattern -/

theorem likeTokens_of_ne {c : Char} (h : c ≠ '\\') (p : List Char) :
    likeTokens (c :: p) = (likeTokens p).map fun ts => likeToken c :: ts := by
  cases p <;> simp [likeTokens, h]

theorem likeTokens_escaped (c : Char) (p : List Char) :
    likeTokens ('\\' :: c :: p) = (likeTokens p).map fun ts => .literal c :: ts := by
  simp [likeTokens]

/-! ## What tokens match -/

variable {ts : List LikeToken} {text : List Char}

theorem likeMatch_anyString :
    likeMatch (.anyString :: ts) text = true ↔
      ∃ suffix, suffix <:+ text ∧ likeMatch ts suffix = true := by
  simp only [likeMatch, List.any_eq_true, List.mem_tails]

theorem likeMatch_trailing : likeMatch [.anyString] text = true :=
  likeMatch_anyString.mpr ⟨[], List.nil_suffix, rfl⟩

/-- Literal characters match themselves, and the rest matches the rest. -/
theorem likeMatch_literals (cs : List Char) :
    likeMatch (cs.map .literal ++ ts) text = true ↔
      ∃ rest, text = cs ++ rest ∧ likeMatch ts rest = true := by
  induction cs generalizing text with
  | nil => simp
  | cons c cs ih =>
    cases text with
    | nil => simp [likeMatch]
    | cons d text =>
      simp only [List.map_cons, List.cons_append, likeMatch, Bool.and_eq_true, decide_eq_true_eq,
        ih, List.cons.injEq]
      constructor
      · rintro ⟨rfl, rest, rfl, h⟩
        exact ⟨rest, ⟨rfl, rfl⟩, h⟩
      · rintro ⟨rest, ⟨rfl, rfl⟩, h⟩
        exact ⟨rfl, rest, rfl, h⟩

/-- `%…%` around literal characters looks for a contiguous substring. -/
theorem likeMatch_substring (cs : List Char) :
    likeMatch (.anyString :: (cs.map .literal ++ [.anyString])) text = true ↔ cs <:+: text := by
  rw [likeMatch_anyString, List.infix_iff_prefix_suffix]
  constructor
  · rintro ⟨s, hs, h⟩
    obtain ⟨rest, rfl, -⟩ := (likeMatch_literals cs).mp h
    exact ⟨cs ++ rest, List.prefix_append cs rest, hs⟩
  · rintro ⟨s, ⟨rest, rfl⟩, hs⟩
    exact ⟨cs ++ rest, hs, (likeMatch_literals cs).mpr ⟨rest, rfl, likeMatch_trailing⟩⟩

end Sql
