import ImplicitGlobals.Proofs.Syntax.Tiling

/-!
# Tokens and the rules

Every token but garbage has a text that a rule of its kind matches.
-/

namespace ImplicitGlobals

namespace Regex

theorem matches_char_iff {c : Char} {w : List Char} : Matches (char c) w ↔ w = [c] := by
  constructor
  · intro h
    cases h with
    | @set _ d mem =>
      have bounds : c ≤ d ∧ d ≤ c := by simpa [CharSet.contains, CharSet.one] using mem
      rw [Char.le_antisymm bounds.2 bounds.1]
  · rintro rfl
    exact .set (by simp [CharSet.contains, CharSet.one])

/-- A fixed text matches itself alone. -/
theorem matches_text_iff {s : String} {w : List Char} : Matches (text s) w ↔ w = s.toList := by
  unfold text
  generalize s.toList = cs
  induction cs generalizing w with
  | nil => exact matches_empty_iff
  | cons c rest ih =>
    rw [List.foldr_cons, matches_andThen_iff, matches_seq_iff]
    constructor
    · rintro ⟨u, v, rfl, first, others⟩
      rw [matches_char_iff.1 first, ih.1 others]
      rfl
    · rintro rfl
      exact ⟨[c], rest, rfl, matches_char_iff.2 rfl, ih.2 rfl⟩

end Regex

namespace Lexer

variable {live : List Live} {kind : TokenKind}

/-- A rule that is live behind a character was live in front of it. -/
theorem exists_of_mem_advance {c : Char} {r : Regex} (mem : (kind, r) ∈ advance live c) :
    ∃ r₀, (kind, r₀) ∈ live ∧ r = r₀.deriv c := by
  obtain ⟨⟨k, r₀⟩, before, eq⟩ := List.mem_map.1 (List.mem_filter.1 mem).1
  cases eq
  exact ⟨r₀, before, rfl⟩

/-- What is accepted is matched in full. -/
theorem exists_of_accepting (h : accepting live = some kind) :
    ∃ r, (kind, r) ∈ live ∧ r.Matches [] := by
  obtain ⟨⟨k, r⟩, found, rfl⟩ := Option.map_eq_some_iff.1 h
  have ends : r.nullable = true := by simpa using List.find?_some found
  exact ⟨r, List.mem_of_find?_eq_some found, (Regex.nullable_iff r).1 ends⟩

/-- A match that is reached is the one from before, or a rule that is alive matches what was
passed since. -/
theorem matches_of_best_reach {best : Option (TokenKind × Nat)} {n m : Nat} {cs : List Char}
    (h : (reach live best n cs).best = some (kind, m)) :
    best = some (kind, m) ∨
      ∃ j r, m = n + (j + 1) ∧ (kind, r) ∈ live ∧ r.Matches (cs.take (j + 1)) := by
  induction cs generalizing live best n with
  | nil => exact .inl h
  | cons c rest ih =>
    unfold reach at h
    split at h
    · exact .inl h
    · rcases ih h with now | ⟨j, r, rfl, mem, matched⟩
      · cases ends : accepting (advance live c) with
        | none => exact .inl (by simpa [ends] using now)
        | some k =>
          obtain ⟨rfl, rfl⟩ : k = kind ∧ n + 1 = m := by simpa [ends] using now
          obtain ⟨r, mem, matched⟩ := exists_of_accepting ends
          obtain ⟨r₀, before, rfl⟩ := exists_of_mem_advance mem
          exact .inr ⟨0, r₀, rfl, before, by simpa using (Regex.matches_deriv_iff c r₀ _).1 matched⟩
      · obtain ⟨r₀, before, rfl⟩ := exists_of_mem_advance mem
        exact .inr ⟨j + 1, r₀, by omega, before, (Regex.matches_deriv_iff c r₀ _).1 matched⟩

/-- A piece that is no garbage is matched by a rule of its kind. -/
def Ruled (p : Piece) : Prop := p.1 ≠ .garbage → ∃ r, (p.1, r) ∈ TokenRules.rules ∧ r.Matches p.2

/-- The first piece of a text is matched by a rule of its kind. -/
theorem ruled_front (c : Char) (rest : List Char) :
    Ruled ((front (c :: rest)).1, c :: rest.take (front (c :: rest)).2) := by
  intro proper
  cases best : (reach TokenRules.rules none 0 (c :: rest)).best with
  | none => simp [front, best] at proper
  | some found =>
    obtain ⟨k, m⟩ := found
    rcases matches_of_best_reach best with before | ⟨j, r, rfl, mem, matched⟩
    · cases before
    · exact ⟨r, by simpa [front, best] using mem, by simpa [front, best] using matched⟩

/-- So is every piece. -/
theorem ruled_of_mem_pieces {cs : List Char} {p : Piece} (mem : p ∈ pieces cs) : Ruled p := by
  fun_induction pieces cs with
  | case1 => simp at mem
  | case2 c rest f ih =>
    rcases List.mem_cons.1 mem with rfl | mem
    · exact ruled_front c rest
    · exact ih mem

/-- And every piece once garbage is joined. -/
theorem ruled_of_mem_joinGarbage {ps : List Piece} (ruled : ∀ p ∈ ps, Ruled p) {p : Piece}
    (mem : p ∈ joinGarbage ps) : Ruled p := by
  fun_induction joinGarbage ps with
  | case1 => simp at mem
  | case2 t rest u more e ih =>
    rw [e] at ih
    rcases List.mem_cons.1 mem with rfl | mem
    · exact fun proper => absurd rfl proper
    · exact ih (fun q h => ruled q (List.mem_cons_of_mem _ h)) (List.mem_cons_of_mem _ mem)
  | case3 k t rest _ ih =>
    rcases List.mem_cons.1 mem with rfl | mem
    · exact ruled _ List.mem_cons_self
    · exact ih (fun q h => ruled q (List.mem_cons_of_mem _ h)) mem

/-- A rule of its kind matches the text of a token. -/
theorem exists_rule_of_mem_lex {source : String} {t : Token} (mem : t ∈ lex source)
    (proper : t.kind ≠ .garbage) :
    ∃ r, (t.kind, r) ∈ TokenRules.rules ∧ r.Matches t.text.toList := by
  obtain ⟨p, mem, kind, text⟩ := exists_of_mem_place mem
  have ruled := ruled_of_mem_joinGarbage (fun _ => ruled_of_mem_pieces) mem
  rw [kind, text, String.toList_ofList]
  exact ruled (kind ▸ proper)

/-- A line comment has two slashes and then its text. -/
theorem exists_text_of_lineComment {source : String} {t : Token} (mem : t ∈ lex source)
    (kind : t.kind = .lineComment) : ∃ comment : String, t.text = "//" ++ comment := by
  obtain ⟨r, rule, matched⟩ := exists_rule_of_mem_lex mem (by simp [kind])
  obtain rfl : r = .seq (.text "//") (.star (.set (.except ['\n', '\r']))) := by
    simpa [TokenRules.rules, kind] using rule
  obtain ⟨slashes, rest, eq, opens, -⟩ := Regex.matches_seq_iff.1 matched
  refine ⟨String.ofList rest, String.toList_inj.1 ?_⟩
  simp [eq, Regex.matches_text_iff.1 opens]

end Lexer

end ImplicitGlobals
