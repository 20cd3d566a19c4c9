/-!
# Regular expressions over characters

The token rules are regular expressions. An expression is run by derivatives:
after a character it becomes the expression for what may still follow. The
constructors `seq`, `alt` and `star` below keep expressions small, and in
particular make an expression that nothing can match equal to `none`.
-/

namespace ImplicitGlobals

/-- A set of characters: those in one of the ranges, or with `negated` those in none. -/
structure CharSet where
  ranges : List (Char × Char)
  negated : Bool := false
deriving DecidableEq, Repr, Inhabited

namespace CharSet

def contains (s : CharSet) (c : Char) : Bool :=
  s.ranges.any (fun r => r.1 ≤ c && c ≤ r.2) != s.negated

def one (c : Char) : CharSet := ⟨[(c, c)], false⟩

def ofList (cs : List Char) : CharSet := ⟨cs.map fun c => (c, c), false⟩

/-- Every character but the listed ones. -/
def except (cs : List Char) : CharSet := ⟨cs.map fun c => (c, c), true⟩

end CharSet

/-- A regular expression. -/
inductive Regex where
  /-- Matches nothing. -/
  | none
  /-- Matches the empty text. -/
  | empty
  | set (s : CharSet)
  | seq (a b : Regex)
  | alt (a b : Regex)
  | star (a : Regex)
deriving DecidableEq, Repr, Inhabited

namespace Regex

/-- The texts an expression matches. -/
inductive Matches : Regex → List Char → Prop where
  | empty : Matches .empty []
  | set {s c} : s.contains c = true → Matches (.set s) [c]
  | seq {a b u v} : Matches a u → Matches b v → Matches (.seq a b) (u ++ v)
  | left {a b u} : Matches a u → Matches (.alt a b) u
  | right {a b u} : Matches b u → Matches (.alt a b) u
  | nil {a} : Matches (.star a) []
  | cons {a u v} : Matches a u → Matches (.star a) v → Matches (.star a) (u ++ v)

/-- Whether the empty text matches. -/
def nullable : Regex → Bool
  | .none | .set _ => false
  | .empty | .star _ => true
  | .seq a b => a.nullable && b.nullable
  | .alt a b => a.nullable || b.nullable

/-- `a` then `b`, simplified. -/
def andThen (a b : Regex) : Regex :=
  match a, b with
  | .none, _ => .none
  | _, .none => .none
  | .empty, b => b
  | a, .empty => a
  | a, b => .seq a b

/-- `a` or `b`, simplified. -/
def orElse (a b : Regex) : Regex :=
  match a, b with
  | .none, b => b
  | a, .none => a
  | a, b => if a = b then a else .alt a b

/-- The expression for what may follow `c`. -/
def deriv (c : Char) : Regex → Regex
  | .none | .empty => .none
  | .set s => if s.contains c then .empty else .none
  | .seq a b =>
    let first := (a.deriv c).andThen b
    if a.nullable then first.orElse (b.deriv c) else first
  | .alt a b => (a.deriv c).orElse (b.deriv c)
  | .star a => (a.deriv c).andThen (.star a)

def isNone : Regex → Bool
  | .none => true
  | _ => false

/-! ### Building rules -/

def char (c : Char) : Regex := .set (.one c)

/-- A fixed text. -/
def text (s : String) : Regex := s.toList.foldr (fun c r => (char c).andThen r) .empty

/-- All of the expressions, one after the other. -/
def concat (rs : List Regex) : Regex := rs.foldr andThen .empty

def plus (a : Regex) : Regex := .seq a (.star a)

def opt (a : Regex) : Regex := .alt a .empty

/-! ### Derivatives and matching -/

theorem nullable_iff (r : Regex) : r.nullable = true ↔ Matches r [] := by
  constructor
  · intro h
    induction r with
    | none | set => simp [nullable] at h
    | empty => exact .empty
    | star => exact .nil
    | seq a b iha ihb =>
      simp only [nullable, Bool.and_eq_true] at h
      exact .seq (u := []) (v := []) (iha h.1) (ihb h.2)
    | alt a b iha ihb =>
      simp only [nullable, Bool.or_eq_true] at h
      exact h.elim (fun h => .left (iha h)) (fun h => .right (ihb h))
  · intro h
    generalize e : ([] : List Char) = w at h
    induction h with
    | empty | nil | cons => rfl
    | set => cases e
    | seq _ _ iha ihb =>
      obtain ⟨rfl, rfl⟩ := List.append_eq_nil_iff.1 e.symm
      simp [nullable, iha rfl, ihb rfl]
    | left _ ih => simp [nullable, ih e]
    | right _ ih => simp [nullable, ih e]

theorem not_matches_none {w : List Char} : ¬ Matches .none w := nofun

theorem matches_empty_iff {w : List Char} : Matches .empty w ↔ w = [] :=
  ⟨fun h => by cases h; rfl, fun h => h ▸ .empty⟩

theorem matches_seq_iff {a b : Regex} {w : List Char} :
    Matches (.seq a b) w ↔ ∃ u v, w = u ++ v ∧ Matches a u ∧ Matches b v := by
  constructor
  · intro h; cases h with | seq ha hb => exact ⟨_, _, rfl, ha, hb⟩
  · rintro ⟨u, v, rfl, ha, hb⟩; exact .seq ha hb

theorem matches_alt_iff {a b : Regex} {w : List Char} :
    Matches (.alt a b) w ↔ Matches a w ∨ Matches b w := by
  constructor
  · intro h
    cases h with
    | left h => exact .inl h
    | right h => exact .inr h
  · exact fun h => h.elim .left .right

theorem matches_andThen_iff (a b : Regex) (w : List Char) :
    Matches (a.andThen b) w ↔ Matches (.seq a b) w := by
  rw [matches_seq_iff]
  unfold andThen
  split
  · simp [not_matches_none]
  · simp [not_matches_none]
  · simp only [matches_empty_iff]
    exact ⟨fun h => ⟨[], w, rfl, rfl, h⟩, by rintro ⟨_, _, rfl, rfl, h⟩; exact h⟩
  · simp [matches_empty_iff]
  · rw [matches_seq_iff]

theorem matches_orElse_iff (a b : Regex) (w : List Char) :
    Matches (a.orElse b) w ↔ Matches a w ∨ Matches b w := by
  unfold orElse
  split
  · simp [not_matches_none]
  · simp [not_matches_none]
  · split
    · next h => simp [h]
    · exact matches_alt_iff

/-- A star that matches a text with a first character matches a non-empty piece first. -/
theorem matches_star_cons_iff {a : Regex} {c : Char} {w : List Char} :
    Matches (.star a) (c :: w) ↔
      ∃ u v, w = u ++ v ∧ Matches a (c :: u) ∧ Matches (.star a) v := by
  constructor
  · intro h
    generalize er : Regex.star a = r at h
    generalize ew : c :: w = t at h
    induction h with
    | empty | set | seq | left | right => cases er
    | nil => cases ew
    | @cons a' u v hu hv _ ihv =>
      cases er
      cases u with
      | nil => exact ihv rfl (by simpa using ew)
      | cons d u =>
        obtain ⟨rfl, rfl⟩ : c = d ∧ w = u ++ v := by simpa using ew
        exact ⟨u, v, rfl, hu, hv⟩
  · rintro ⟨u, v, rfl, hu, hv⟩
    exact .cons hu hv

/-- The derivative after `c` matches what follows `c` in a matched text. -/
theorem matches_deriv_iff (c : Char) (r : Regex) (w : List Char) :
    Matches (r.deriv c) w ↔ Matches r (c :: w) := by
  induction r generalizing w with
  | none => simp [deriv, not_matches_none]
  | empty => simp [deriv, not_matches_none, matches_empty_iff]
  | set s =>
    simp only [deriv]
    split
    · next h =>
      rw [matches_empty_iff]
      exact ⟨fun e => e ▸ .set h, fun m => by cases m; rfl⟩
    · next h =>
      exact ⟨fun m => (not_matches_none m).elim, fun m => by cases m; contradiction⟩
  | seq a b iha ihb =>
    have first : Matches ((a.deriv c).andThen b) w ↔
        ∃ u v, w = u ++ v ∧ Matches a (c :: u) ∧ Matches b v := by
      simp only [matches_andThen_iff, matches_seq_iff, iha]
    rw [matches_seq_iff]
    simp only [deriv]
    by_cases n : a.nullable = true
    · rw [if_pos n, matches_orElse_iff, first, ihb]
      constructor
      · rintro (⟨u, v, rfl, ha, hb⟩ | hb)
        · exact ⟨c :: u, v, rfl, ha, hb⟩
        · exact ⟨[], c :: w, rfl, (nullable_iff a).1 n, hb⟩
      · rintro ⟨u, v, e, ha, hb⟩
        cases u with
        | nil => exact .inr (by simpa [e] using hb)
        | cons d u =>
          obtain ⟨rfl, rfl⟩ : c = d ∧ w = u ++ v := by simpa using e
          exact .inl ⟨u, v, rfl, ha, hb⟩
    · rw [if_neg n, first]
      constructor
      · rintro ⟨u, v, rfl, ha, hb⟩
        exact ⟨c :: u, v, rfl, ha, hb⟩
      · rintro ⟨u, v, e, ha, hb⟩
        cases u with
        | nil => exact (n ((nullable_iff a).2 ha)).elim
        | cons d u =>
          obtain ⟨rfl, rfl⟩ : c = d ∧ w = u ++ v := by simpa using e
          exact ⟨u, v, rfl, ha, hb⟩
  | alt a b iha ihb => simp only [deriv, matches_orElse_iff, matches_alt_iff, iha, ihb]
  | star a iha =>
    simp only [deriv, matches_andThen_iff, matches_seq_iff, matches_star_cons_iff, iha]

end Regex

end ImplicitGlobals
