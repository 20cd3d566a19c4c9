import ImplicitGlobals.Proofs.Diagnostic.Height
import ImplicitGlobals.Proofs.Syntax.Completion
import ImplicitGlobals.Source.Unit
import Mathlib.Logic.Relation

/-!
# Filtering keeps the reasons

Explaining always goes up, so it does not go round, and from every diagnostic that the
filter drops the explanations lead back to one that it keeps. Where there are any
diagnostics, some are left for the report.
-/

namespace ImplicitGlobals

namespace Diagnostics

/-- One diagnostic of a source explains another one. -/
def Explains (ds : Diagnostics) (d e : Diagnostic) : Prop := d ∈ ds ∧ e ∈ ds ∧ d.explains e

/-- A diagnostic is kept exactly if none explains it. -/
theorem mem_filtered {ds : Diagnostics} {d : Diagnostic} :
    d ∈ ds.filtered ↔ d ∈ ds ∧ ∀ e ∈ ds, e.explains d = false := by
  simp [filtered]

section Ranked

variable {ds : Diagnostics} {rank : Diagnostic → Nat} (up : ∀ d e, ds.Explains d e → rank d < rank e)

include up

/-- Along a chain of explanations the rank grows. -/
theorem rank_lt_of_chain {d e : Diagnostic} (chain : Relation.TransGen ds.Explains d e) :
    rank d < rank e := by
  induction chain with
  | single step => exact up _ _ step
  | tail _ step ih => exact Nat.lt_trans ih (up _ _ step)

/-- Explanations do not go in circles. -/
theorem no_cycle (d : Diagnostic) : ¬Relation.TransGen ds.Explains d d :=
  fun chain => Nat.lt_irrefl _ (rank_lt_of_chain up chain)

/-- Explanations end at a diagnostic that is kept. -/
theorem exists_kept {d : Diagnostic} (mem : d ∈ ds) :
    ∃ k ∈ ds.filtered, Relation.ReflTransGen ds.Explains k d := by
  induction n : rank d using Nat.strongRecOn generalizing d with
  | ind n ih =>
    by_cases kept : d ∈ ds.filtered
    · exact ⟨d, kept, .refl⟩
    · obtain ⟨e, me, explains⟩ : ∃ e ∈ ds, e.explains d := by
        simpa [mem_filtered, mem] using kept
      have step : ds.Explains e d := ⟨me, mem, explains⟩
      obtain ⟨k, kept, chain⟩ := ih (rank e) (n ▸ up e d step) me rfl
      exact ⟨k, kept, chain.tail step⟩

end Ranked

end Diagnostics

namespace Complaint

variable {l : Layout} {ks : List Complaint}

/-- The height of a complaint that has the diagnostic. -/
def rank (l : Layout) (ks : List Complaint) (d : Diagnostic) : Nat :=
  (ks.find? (·.locate l = d)).elim 0 (height ks)

/-- What explains another ranks lower. -/
theorem rank_lt_of_explains (h : Ordered l ks) (d e : Diagnostic)
    (explains : Diagnostics.Explains (ks.reverse.map (locate l)) d e) : rank l ks d < rank l ks e := by
  obtain ⟨md, me, explains⟩ := explains
  have source {d : Diagnostic} (mem : d ∈ ks.reverse.map (locate l)) :
      ∃ k ∈ ks, k.locate l = d ∧ rank l ks d = height ks k := by
    obtain ⟨j, mj, eq⟩ := List.mem_map.1 mem
    cases found : ks.find? (·.locate l = d) with
    | none =>
      exact absurd eq (by simpa using List.find?_eq_none.1 found j (List.mem_reverse.1 mj))
    | some k =>
      have eq : k.locate l = d := by simpa using List.find?_some found
      exact ⟨k, List.mem_of_find?_eq_some found, eq, by simp [rank, found]⟩
  obtain ⟨j, mj, rfl, hd⟩ := source md
  obtain ⟨k, mk, rfl, he⟩ := source me
  rw [hd, he]
  exact h.height_lt mj mk explains

end Complaint

/-- The diagnostics of a parse are those of complaints in order. -/
theorem ordered_of_parseWithin {budget : Budget} {text : String} {p : Parsed}
    (parsed : parseWithin budget text = .ok p) :
    ∃ ks, Complaint.Ordered (.ofTokens (lex text)) ks ∧
      p.diagnostics = ks.reverse.map (Complaint.locate (.ofTokens (lex text))) := by
  obtain ⟨c, children, walk, -, -, -, rfl⟩ := walk_of_parseWithin parsed
  have orderly := walk.orderly (.start budget _)
  have words : c.passed ≤ (Layout.ofTokens (lex text)).words.size := by
    have count := walk.frame.length_rest
    simp only [Grammar.Cursor.start, ← Layout.length_ofTokens] at count ⊢
    omega
  exact ⟨c.complaints, ⟨Layout.ordered_lex text, orderly.made, orderly.order, fun k mem =>
    Nat.le_trans (orderly.behind k mem) words⟩, rfl⟩

theorem up_of_parseWithin {budget : Budget} {text : String} {p : Parsed}
    (parsed : parseWithin budget text = .ok p) :
    ∃ rank : Diagnostic → Nat, ∀ d e, p.diagnostics.Explains d e → rank d < rank e := by
  obtain ⟨ks, ordered, eq⟩ := ordered_of_parseWithin parsed
  exact ⟨_, eq ▸ Complaint.rank_lt_of_explains ordered⟩

/-- The filter keeps something whenever there was something. -/
theorem filtered_eq_nil_iff {budget : Budget} {text : String} {p : Parsed}
    (parsed : parseWithin budget text = .ok p) : p.diagnostics.filtered = [] ↔ p.diagnostics = [] := by
  obtain ⟨rank, up⟩ := up_of_parseWithin parsed
  refine ⟨fun none => ?_, fun none => by simp [none, Diagnostics.filtered]⟩
  refine List.eq_nil_iff_forall_not_mem.2 fun d mem => ?_
  obtain ⟨k, kept, -⟩ := Diagnostics.exists_kept up mem
  simp [none] at kept

/-- What is read is the parse of a source without diagnostics. -/
theorem SourceUnit.parsed_of_read {options : SourceOptions} {text : String} {u : SourceUnit}
    (accepted : SourceUnit.read options text = .ok u) : ∃ p, parseWithin options.budget text = .ok p ∧
      p.diagnostics = [] ∧ u = ⟨p.tree, SourceUnit.scopesOf options p.tree, options.comments⟩ := by
  unfold SourceUnit.read at accepted
  cases parsed : parseWithin options.budget text with
  | error r =>
    rw [parsed] at accepted
    cases accepted
  | ok p =>
    rw [parsed] at accepted
    by_cases kept : p.diagnostics.filtered = []
    · simp only [kept, List.isEmpty_nil, if_true, Except.ok.injEq] at accepted
      exact ⟨p, rfl, (filtered_eq_nil_iff parsed).1 kept, accepted.symm⟩
    · simp [kept] at accepted

/-- Reading a source that was parsed comes down to what the filter keeps. -/
theorem read_iff_of_parseWithin {options : SourceOptions} {text : String} {p : Parsed}
    (parsed : parseWithin options.budget text = .ok p) :
    (∃ u, SourceUnit.read options text = .ok u) ↔ p.diagnostics.filtered = [] := by
  by_cases kept : p.diagnostics.filtered = [] <;> simp [SourceUnit.read, parsed, kept]

/-- A source is read if and only if its parse has no diagnostics, filtered or not. In the
diagnostics of a parse explanations do not go round, and one that the filter drops has
its reason, or the reason of its reason and so on, among those that are kept. -/
theorem read_filtered (options : SourceOptions) (text : String) :
    ((∃ u, SourceUnit.read options text = .ok u) ↔
      ∃ p, parseWithin options.budget text = .ok p ∧ p.diagnostics = []) ∧
    ∀ p, parseWithin options.budget text = .ok p →
      (p.diagnostics.filtered = [] ↔ p.diagnostics = []) ∧
      (∀ d, ¬Relation.TransGen p.diagnostics.Explains d d) ∧
      ∀ d ∈ p.diagnostics, d ∉ p.diagnostics.filtered →
        ∃ k ∈ p.diagnostics.filtered, Relation.TransGen p.diagnostics.Explains k d := by
  refine ⟨?_, fun p parsed => ?_⟩
  · cases parsed : parseWithin options.budget text with
    | error r => simp [SourceUnit.read, parsed]
    | ok p =>
      rw [read_iff_of_parseWithin parsed, filtered_eq_nil_iff parsed]
      simp
  · obtain ⟨rank, up⟩ := up_of_parseWithin parsed
    refine ⟨filtered_eq_nil_iff parsed, Diagnostics.no_cycle up, fun d mem dropped => ?_⟩
    obtain ⟨k, kept, chain⟩ := Diagnostics.exists_kept up mem
    rcases Relation.reflTransGen_iff_eq_or_transGen.1 chain with rfl | chain
    · exact absurd kept dropped
    · exact ⟨k, kept, chain⟩

/-- The name that is missing explains the brace that is left open. -/
theorem read_filtered_class :
    ∃ p, parseWithin {} "class \x7b" = .ok p ∧ p.diagnostics.length = 2 ∧
      p.diagnostics.filtered.length = 1 ∧
      (∀ d, ¬Relation.TransGen p.diagnostics.Explains d d) ∧
      ∀ d ∈ p.diagnostics, d ∉ p.diagnostics.filtered →
        ∃ k ∈ p.diagnostics.filtered, Relation.TransGen p.diagnostics.Explains k d := by
  have counts : (parseWithin {} "class \x7b").toOption.map (fun p =>
      (p.diagnostics.length, p.diagnostics.filtered.length)) = some (2, 1) := by
    decide +kernel
  cases parsed : parseWithin {} "class \x7b" with
  | error r => simp [parsed, Except.toOption] at counts
  | ok p =>
    simp only [parsed, Except.toOption, Option.map_some, Option.some.injEq, Prod.mk.injEq] at counts
    have reasons := (read_filtered { budget := {} } "class \x7b").2 p parsed
    exact ⟨p, rfl, counts.1, counts.2, reasons.2⟩

end ImplicitGlobals
