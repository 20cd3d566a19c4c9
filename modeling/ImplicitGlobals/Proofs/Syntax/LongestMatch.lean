import ImplicitGlobals.Proofs.Syntax.Lexing
import Mathlib.Data.List.Chain

/-!
# The longest match

The tokens of a source tile it, and each is what the table of rules decides at its place: the
longest text that any rule matches there, with the kind of that rule, or garbage where no rule
matches anything. The order of the rules never has to decide: rules of different kinds have no
text in common.
-/

namespace ImplicitGlobals

namespace Regex

/-! ### Expressions without a common text -/

/-- The ranges in which a matched text can begin. -/
def firsts : Regex → List (Char × Char)
  | .none | .empty => []
  | .set s => if s.negated then [(Char.ofNat 0, Char.ofNat 0x10ffff)] else s.ranges
  | .seq a b => a.firsts ++ if a.nullable then b.firsts else []
  | .alt a b => a.firsts ++ b.firsts
  | .star a => a.firsts

/-- No text is matched by both, as the first `n` characters show: where both can begin alike, it
is with one character, and what may follow it differs. -/
def apart : Nat → Regex → Regex → Bool
  | 0, _, _ => false
  | n + 1, a, b =>
    !(a.nullable && b.nullable) &&
      a.firsts.all fun r => b.firsts.all fun s =>
        r.2 < s.1 || s.2 < r.1 || (r.1 == r.2 && apart n (a.deriv r.1) (b.deriv r.1))

variable {a b : Regex} {c : Char} {w : List Char}

/-- What a rule matches begins with one of its first characters. -/
theorem exists_first {r : Regex} (h : Matches r (c :: w)) : ∃ f ∈ r.firsts, f.1 ≤ c ∧ c ≤ f.2 := by
  -- By induction on the match; a sequence begins with its first part unless that matches nothing.
  generalize e : c :: w = t at h
  induction h generalizing w with
  | empty | nil => cases e
  | @set s d mem =>
    cases e
    cases neg : s.negated with
    | true =>
      refine ⟨(Char.ofNat 0, Char.ofNat 0x10ffff), by simp [firsts, neg], ?_, ?_⟩
      · exact Nat.zero_le c.toNat
      · have bound : c.toNat ≤ 0x10ffff := by
          have valid := c.valid
          simp only [UInt32.isValidChar, Nat.isValidChar] at valid
          rw [← Char.toNat] at valid
          omega
        exact bound
    | false =>
      simp only [CharSet.contains, neg, Bool.bne_false, List.any_eq_true, Bool.and_eq_true,
        decide_eq_true_eq] at mem
      simpa [firsts, neg] using mem
  | @seq a b u v left _ ihl ihr =>
    cases u with
    | nil =>
      obtain ⟨f, mem, bounds⟩ := ihr (w := w) (by simpa using e)
      exact ⟨f, by simp [firsts, (nullable_iff a).2 left, mem], bounds⟩
    | cons d u =>
      obtain ⟨rfl, -⟩ : c = d ∧ w = u ++ v := by simpa using e
      obtain ⟨f, mem, bounds⟩ := ihl rfl
      exact ⟨f, by simp [firsts, mem], bounds⟩
  | left _ ih =>
    obtain ⟨f, mem, bounds⟩ := ih e
    exact ⟨f, by simp [firsts, mem], bounds⟩
  | right _ ih =>
    obtain ⟨f, mem, bounds⟩ := ih e
    exact ⟨f, by simp [firsts, mem], bounds⟩
  | @cons a u v _ _ ihu ihv =>
    cases u with
    | nil => exact ihv (by simpa using e)
    | cons d u =>
      obtain ⟨rfl, -⟩ : c = d ∧ w = u ++ v := by simpa using e
      exact ihu rfl

/-- Rules that are apart match no word in common. -/
theorem not_matches_of_apart {n : Nat} (h : apart n a b = true) (left : Matches a w) :
    ¬ Matches b w := by
  intro right
  induction n generalizing a b w with
  | zero => simp [apart] at h
  | succ n ih =>
    simp only [apart, Bool.and_eq_true, List.all_eq_true, Bool.or_eq_true, decide_eq_true_eq,
      beq_iff_eq] at h
    obtain ⟨ends, begins⟩ := h
    cases w with
    | nil => simp [(nullable_iff a).2 left, (nullable_iff b).2 right] at ends
    | cons c w =>
      obtain ⟨f, memf, lowf, highf⟩ := exists_first left
      obtain ⟨g, memg, lowg, highg⟩ := exists_first right
      rcases begins f memf g memg with (below | above) | ⟨single, next⟩
      · exact absurd (Char.le_trans lowg highf) (Char.not_le.2 below)
      · exact absurd (Char.le_trans lowf highg) (Char.not_le.2 above)
      · obtain rfl : f.1 = c := Char.le_antisymm lowf (single ▸ highf)
        exact ih next ((matches_deriv_iff _ a w).2 left) ((matches_deriv_iff _ b w).2 right)

end Regex

namespace TokenRules

/-- A rule of the kind matches the text. -/
def Decides (kind : TokenKind) (w : List Char) : Prop := ∃ r, (kind, r) ∈ rules ∧ r.Matches w

/-- The rules of different kinds are apart. -/
theorem apart_of_ne : ∀ p ∈ rules, ∀ q ∈ rules, p.1 ≠ q.1 → Regex.apart 2 p.2 q.2 = true := by
  decide +kernel

/-- Rules of different kinds have no text in common. -/
theorem Decides.unique {kind kind' : TokenKind} {w : List Char} (h : Decides kind w)
    (h' : Decides kind' w) : kind = kind' := by
  obtain ⟨r, mem, matched⟩ := h
  obtain ⟨r', mem', matched'⟩ := h'
  refine Decidable.byContradiction fun ne => ?_
  exact Regex.not_matches_of_apart (apart_of_ne _ mem _ mem' ne) matched matched'

/-- No rule matches the empty text. -/
theorem Decides.ne_nil {kind : TokenKind} {w : List Char} (h : Decides kind w) : w ≠ [] := by
  rintro rfl
  obtain ⟨r, mem, matched⟩ := h
  have none : ∀ p ∈ rules, p.2.nullable = false := by decide +kernel
  simpa [none _ mem] using (Regex.nullable_iff r).2 matched

end TokenRules

namespace Lexer

open TokenRules (Decides)

variable {live : List Live} {best : Option (TokenKind × Nat)} {n : Nat}

/-! ### How far the rules get -/

theorem deriv_mem_advance {kind : TokenKind} {r : Regex} {c : Char} {w : List Char}
    (mem : (kind, r) ∈ live) (matched : r.Matches (c :: w)) :
    (kind, r.deriv c) ∈ advance live c := by
  have rest := (Regex.matches_deriv_iff c r w).2 matched
  have going : (r.deriv c).isNone = false := by
    cases e : r.deriv c with
    | none => exact absurd (e ▸ rest) Regex.not_matches_none
    | empty | set | seq | alt | star => rfl
  exact List.mem_filter.2 ⟨List.mem_map_of_mem (f := fun l => (l.1, l.2.deriv c)) mem, by simp [going]⟩

/-- What was matched once is given up for longer matches only. -/
theorem le_best_reach {k : TokenKind} {m : Nat} {cs : List Char} (found : best = some (k, m))
    (bound : m ≤ n) : ∃ k' m', (reach live best n cs).best = some (k', m') ∧ m ≤ m' := by
  induction cs generalizing live best n k m with
  | nil => exact ⟨k, m, found, Nat.le_refl m⟩
  | cons c rest ih =>
    unfold reach
    split
    · exact ⟨k, m, found, Nat.le_refl m⟩
    · cases accepting (advance live c) with
      | none => exact ih (by simpa using found) (Nat.le_succ_of_le bound)
      | some k' =>
        have later : ∃ k'' m', (reach (advance live c) (some (k', n + 1)) (n + 1) rest).best =
            some (k'', m') ∧ n + 1 ≤ m' := ih rfl (Nat.le_refl _)
        obtain ⟨k'', m', eq, le⟩ := later
        exact ⟨k'', m', by simpa using eq, by omega⟩

/-- A text that a rule matches at the front is not longer than the match that is found. -/
theorem le_best_reach_of_matches {kind : TokenKind} {r : Regex} {c : Char} {u cs : List Char}
    (mem : (kind, r) ∈ live) (matched : r.Matches (c :: u)) (opens : c :: u <+: cs) :
    ∃ k m, (reach live best n cs).best = some (k, m) ∧ n + (u.length + 1) ≤ m := by
  induction cs generalizing live best n r c u with
  | nil => simp at opens
  | cons d rest ih =>
    obtain ⟨rfl, tail⟩ := List.cons_prefix_cons.1 opens
    have next := deriv_mem_advance mem matched
    have left := (Regex.matches_deriv_iff c r u).2 matched
    unfold reach
    split
    · next none => simp [none] at next
    · cases u with
      | cons d u =>
        obtain ⟨k, m, eq, le⟩ := ih (n := n + 1) next left tail
        exact ⟨k, m, eq, by simp only [List.length_cons]; omega⟩
      | nil =>
        obtain ⟨k, ends⟩ : ∃ k, accepting (advance live c) = some k := by
          have found : ((advance live c).find? (·.2.nullable)).isSome = true :=
            List.find?_isSome.2 ⟨_, next, (Regex.nullable_iff _).2 left⟩
          obtain ⟨l, eq⟩ := Option.isSome_iff_exists.1 found
          exact ⟨l.1, by rw [accepting, eq, Option.map_some]⟩
        rw [ends]
        exact le_best_reach rfl (Nat.le_refl _)

/-! ### What is decided at a place -/

/-- What the rules make of `cs`: a piece at its front that is the longest any rule matches there,
of the kind of every rule that matches it, or garbage where no rule matches anything. -/
structure Decided (kind : TokenKind) (text cs : List Char) : Prop where
  /-- A rule of its kind matches a piece that is no garbage. -/
  ruled : kind ≠ .garbage → Decides kind text
  /-- No rule matches more. -/
  longest : kind ≠ .garbage → ∀ kind' u, u <+: cs → Decides kind' u → u.length ≤ text.length
  /-- A rule that matches as much has the same kind. -/
  alone : kind ≠ .garbage → ∀ kind', Decides kind' text → kind' = kind
  /-- Where garbage begins, no rule matches. -/
  unruled : kind = .garbage → ∀ kind' u, u <+: cs → ¬ Decides kind' u

/-- What begins where no rule matches is garbage, however long. -/
theorem Decided.garbage {text cs : List Char} (unruled : ∀ kind u, u <+: cs → ¬ Decides kind u) :
    Decided .garbage text cs :=
  ⟨fun proper => absurd rfl proper, fun proper => absurd rfl proper, fun proper => absurd rfl proper,
    fun _ => unruled⟩

/-- The first piece is decided by the whole rest. -/
theorem decided_front (c : Char) (rest : List Char) :
    Decided (front (c :: rest)).1 (c :: rest.take (front (c :: rest)).2) (c :: rest) := by
  have reached {kind : TokenKind} {u : List Char} (opens : u <+: c :: rest) (h : Decides kind u) :
      ∃ k m, (reach TokenRules.rules none 0 (c :: rest)).best = some (k, m) ∧ u.length ≤ m := by
    obtain ⟨r, mem, matched⟩ := h
    cases u with
    | nil => exact absurd rfl (Decides.ne_nil ⟨r, mem, matched⟩)
    | cons d u =>
      have found := @le_best_reach_of_matches _ none 0 _ _ _ _ _ mem matched opens
      simpa using found
  cases best : (reach TokenRules.rules none 0 (c :: rest)).best with
  | none =>
    have here : (front (c :: rest)).1 = .garbage := by simp [front, best]
    rw [here]
    refine .garbage fun kind u opens h => ?_
    obtain ⟨k, m, found, -⟩ := reached opens h
    simp [best] at found
  | some found =>
    have proper : (front (c :: rest)).1 ≠ .garbage := by
      rcases matches_of_best_reach best with before | ⟨j, r, -, mem, -⟩
      · cases before
      · have none : ∀ p ∈ TokenRules.rules, p.1 ≠ .garbage := by decide +kernel
        simpa [front, best] using none _ mem
    refine ⟨ruled_front c rest, fun _ kind u opens h => ?_,
      fun _ kind h => h.unique (ruled_front c rest proper), fun garbage => absurd garbage proper⟩
    obtain ⟨k, m, eq, le⟩ := reached opens h
    have within : u.length ≤ (c :: rest).length := opens.length_le
    simp only [front, eq, List.length_cons, List.length_take] at within ⊢
    omega

/-- Every piece is what the rules make of the text from there on. -/
def AllDecided : List Piece → Prop
  | [] => True
  | (kind, text) :: rest => Decided kind text (text ++ rest.flatMap (·.2)) ∧ AllDecided rest

/-- Every piece is decided by the rest behind it. -/
theorem allDecided_pieces (cs : List Char) : AllDecided (pieces cs) := by
  fun_induction pieces cs with
  | case1 => trivial
  | case2 c rest f ih =>
    refine ⟨?_, ih⟩
    rw [flatMap_pieces, List.cons_append, List.take_append_drop]
    exact decided_front c rest

/-- Joining garbage keeps the pieces decided. -/
theorem AllDecided.joinGarbage {ps : List Piece} (h : AllDecided ps) :
    AllDecided (joinGarbage ps) := by
  fun_induction Lexer.joinGarbage ps with
  | case1 => trivial
  | case2 t rest u more e ih =>
    have same := flatMap_joinGarbage rest
    have behind := ih h.2
    rw [e] at same behind
    refine ⟨.garbage ?_, behind.2⟩
    simpa [← same] using h.1.unruled rfl
  | case3 k t rest _ ih => exact ⟨by rw [flatMap_joinGarbage]; exact h.1, ih h.2⟩

/-- Joined garbage stands alone. -/
theorem isChain_joinGarbage (ps : List Piece) :
    (joinGarbage ps).IsChain fun p q => p.1 = .garbage → q.1 ≠ .garbage := by
  fun_induction joinGarbage ps with
  | case1 => exact .nil
  | case2 t rest u more e ih =>
    rw [e] at ih
    cases more with
    | nil => exact .singleton _
    | cons q more => exact .cons_cons (List.isChain_cons_cons.1 ih).1 (List.isChain_cons_cons.1 ih).2
  | case3 k t rest apart ih =>
    cases e : joinGarbage rest with
    | nil => exact .singleton _
    | cons q more =>
      rw [e] at ih
      refine .cons_cons ?_ ih
      rintro rfl garbage
      exact apart q.2 more rfl (by rw [e, ← garbage])

/-- A token that was placed is decided by what stands behind it. -/
theorem AllDecided.place {ps : List Piece} (h : AllDecided ps) {start : Nat} {before after : List Token}
    {t : Token} (eq : place start ps = before ++ t :: after) :
    Decided t.kind t.text.toList ((t :: after).flatMap (·.text.toList)) := by
  induction ps generalizing start before with
  | nil => simp [Lexer.place] at eq
  | cons p ps ih =>
    obtain ⟨kind, text⟩ := p
    cases before with
    | nil =>
      obtain ⟨rfl, rfl⟩ := List.cons.inj eq
      simpa [flatMap_place] using h.1
    | cons b before => exact ih h.2 (List.cons.inj eq).2

theorem isChain_place {R : TokenKind → TokenKind → Prop} {ps : List Piece}
    (h : ps.IsChain fun p q => R p.1 q.1) (start : Nat) :
    (place start ps).IsChain fun t u => R t.kind u.kind := by
  induction ps generalizing start with
  | nil => exact .nil
  | cons p ps ih =>
    cases ps with
    | nil => exact .singleton _
    | cons q ps =>
      exact .cons_cons (List.isChain_cons_cons.1 h).1 (ih (List.isChain_cons_cons.1 h).2 _)

end Lexer

/-! ### The tokens of a source -/

namespace Token

/-- Tokens that cover a source without gap or overlap, cut between characters. -/
structure Tiles (source : String) (tokens : List Token) : Prop where
  starts : ∀ t ∈ tokens.head?, t.start = 0
  joined : tokens.IsChain fun t u => t.stop = u.start
  stops : Layout.endOf tokens = source.utf8ByteSize
  filled : ∀ t ∈ tokens, t.start < t.stop
  /-- A token has the text between its bounds, which both stand between characters. -/
  cut : ∀ t ∈ tokens, ∃ before after : String, source = before ++ t.text ++ after ∧
    t.start = before.utf8ByteSize ∧ t.stop = (before ++ t.text).utf8ByteSize

variable {start : Nat} {tokens : List Token}

theorem Tiled.isChain (h : Tiled start tokens) : tokens.IsChain fun t u => t.stop = u.start := by
  induction tokens generalizing start with
  | nil => exact .nil
  | cons t rest ih =>
    cases rest with
    | nil => exact .singleton _
    | cons u rest => exact .cons_cons h.2.1.symm (ih h.2)

theorem sizeOf_eq_join (tokens : List Token) :
    sizeOf tokens = (String.join (tokens.map (·.text))).utf8ByteSize := by
  rw [utf8ByteSize_join, List.map_map]
  rfl

theorem Tiled.endOf_eq (h : Tiled 0 tokens) : Layout.endOf tokens = sizeOf tokens := by
  rcases List.eq_nil_or_concat tokens with rfl | ⟨front, last, rfl⟩
  · rfl
  · rw [List.concat_eq_append] at h ⊢
    have starts : last.start = 0 + sizeOf front := h.start_eq
    simp [Layout.endOf, stop, starts, sizeOf_eq_join]

/-- Tokens one behind the other, none of them empty, tile the text that they make up. -/
theorem Tiled.tiles (h : Tiled 0 tokens) (filled : ∀ t ∈ tokens, t.text ≠ "") :
    Tiles (String.join (tokens.map (·.text))) tokens where
  starts := by
    cases tokens with
    | nil => simp
    | cons t rest => simpa using h.1
  joined := h.isChain
  stops := by rw [h.endOf_eq, sizeOf_eq_join]
  filled t mem := start_lt_stop (filled t mem)
  cut t mem := by
    obtain ⟨before, after, rfl⟩ := List.append_of_mem mem
    have starts : t.start = (String.join (before.map (·.text))).utf8ByteSize := by
      rw [h.start_eq, sizeOf_eq_join, Nat.zero_add]
    refine ⟨String.join (before.map (·.text)), String.join (after.map (·.text)), ?_, starts, ?_⟩
    · simp [String.append_assoc]
    · rw [stop, starts, String.utf8ByteSize_append]

end Token

/-- The tokens of a source tile it, no two that are garbage side by side, and each is the longest
text that a rule matches where it begins, with the kind of that rule, or garbage that begins where
no rule matches. -/
theorem lex_longest_match (source : String) :
    Token.Tiles source (lex source) ∧
      ((lex source).IsChain fun t u => t.kind = .garbage → u.kind ≠ .garbage) ∧
        ∀ before t after, lex source = before ++ t :: after →
          Lexer.Decided t.kind t.text.toList ((t :: after).flatMap (·.text.toList)) := by
  refine ⟨?_, ?_, fun before t after eq => ?_⟩
  · have tiles := (Lexer.tiled_lex source).tiles fun _ => Lexer.text_ne_empty
    rwa [Lexer.join_lex] at tiles
  · exact Lexer.isChain_place (R := fun k k' => k = .garbage → k' ≠ .garbage)
      (Lexer.isChain_joinGarbage _) 0
  · exact (Lexer.allDecided_pieces source.toList).joinGarbage.place eq

end ImplicitGlobals
