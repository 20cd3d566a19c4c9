import ImplicitGlobals.Proofs.Scope.Globals
import ImplicitGlobals.Proofs.Syntax.Lexing
import ImplicitGlobals.Proofs.Syntax.Lossless
import ImplicitGlobals.Proofs.Syntax.Places

/-!
# The references of a source

The references of a source are found by going through the line comments among its tokens,
wherever the tree has put them.
-/

namespace ImplicitGlobals

namespace References

/-! ### What a comment refers to -/

/-- A comment, after its two slashes, starts with a directive for the name. -/
def Mentions (comment name : String) : Prop :=
  name ≠ "" ∧ '\n' ∉ name.toList ∧
    ∃ rest, comment = "/ <reference lib=\"" ++ name ++ "\" />" ++ rest

/-- The name is the longest one that the comment mentions. -/
def Refers (comment name : String) : Prop :=
  Mentions comment name ∧ ∀ other, Mentions comment other → other.length ≤ name.length

/-- What follows the opening of a directive starts with a name and the closing. -/
def Holds (cs name : List Char) : Prop := name ≠ [] ∧ '\n' ∉ name ∧ name ++ closing <+: cs

theorem not_holds_nil (name : List Char) : ¬Holds [] name := by
  rintro ⟨-, -, whole⟩
  simp [closing] at whole

/-- A name is one character before the closing, or that character and a name. -/
theorem holds_cons {c : Char} {rest name : List Char} : Holds (c :: rest) name ↔
    c ≠ '\n' ∧ ∃ more, name = c :: more ∧ (more = [] ∧ closing <+: rest ∨ Holds rest more) := by
  cases name with
  | nil => simp [Holds]
  | cons d more =>
    by_cases same : d = c
    · subst same
      cases more with
      | nil => simp [Holds, eq_comm]
      | cons e more => simp [Holds, eq_comm, and_assoc]
    · simp [Holds, same]

theorem longestName?_spec (cs : List Char) :
    (∀ name, longestName? cs = some name →
      Holds cs name ∧ ∀ other, Holds cs other → other.length ≤ name.length) ∧
    (longestName? cs = none → ∀ name, ¬Holds cs name) := by
  fun_induction longestName? cs with
  | case1 => exact ⟨nofun, fun _ => not_holds_nil⟩
  | case2 rest => exact ⟨nofun, fun _ name holds => (holds_cons.1 holds).1 rfl⟩
  | case3 c rest onLine found eq ih =>
    have longer := ih.1 found eq
    refine ⟨?_, nofun⟩
    rintro _ ⟨⟩
    refine ⟨holds_cons.2 ⟨onLine, found, rfl, .inr longer.1⟩, fun other holds => ?_⟩
    obtain ⟨-, more, rfl, ⟨rfl, -⟩ | holds⟩ := holds_cons.1 holds
    · simp
    · simpa using longer.2 more holds
  | case4 c rest onLine eq closes ih =>
    have none := ih.2 eq
    refine ⟨?_, nofun⟩
    rintro _ ⟨⟩
    refine ⟨holds_cons.2 ⟨onLine, [], rfl, .inl ⟨rfl, List.isPrefixOf_iff_prefix.1 closes⟩⟩,
      fun other holds => ?_⟩
    obtain ⟨-, more, rfl, ⟨rfl, -⟩ | holds⟩ := holds_cons.1 holds
    · simp
    · exact absurd holds (none more)
  | case5 c rest onLine eq free ih =>
    refine ⟨nofun, fun _ name holds => ?_⟩
    obtain ⟨-, more, rfl, ⟨rfl, closes⟩ | holds⟩ := holds_cons.1 holds
    · exact free (List.isPrefixOf_iff_prefix.2 closes)
    · exact ih.2 eq more holds

theorem exists_rest_iff {comment name : String} :
    (∃ rest, comment = "/ <reference lib=\"" ++ name ++ "\" />" ++ rest) ↔
      opening ++ name.toList ++ closing <+: comment.toList := by
  constructor
  · rintro ⟨rest, rfl⟩
    rw [String.toList_append, String.toList_append, String.toList_append]
    exact List.prefix_append _ _
  · rintro ⟨rest, whole⟩
    refine ⟨String.ofList rest, String.toList_inj.1 ?_⟩
    rw [← whole, String.toList_append, String.toList_append, String.toList_append]
    exact congrArg (opening ++ name.toList ++ closing ++ ·) String.toList_ofList.symm

/-- A comment mentions a name if the name stands between opening and closing. -/
theorem mentions_iff {comment name : String} : Mentions comment name ↔
    opening <+: comment.toList ∧ Holds (comment.toList.drop opening.length) name.toList := by
  rw [Mentions, exists_rest_iff, Holds, ne_eq, ne_eq, String.toList_eq_nil_iff]
  constructor
  · rintro ⟨filled, onLine, rest, whole⟩
    rw [← whole, List.append_assoc, List.append_assoc, List.drop_left]
    exact ⟨List.prefix_append _ _, filled, onLine, rest, (List.append_assoc ..)⟩
  · rintro ⟨⟨behind, opens⟩, filled, onLine, rest, closes⟩
    rw [← opens, List.drop_left] at closes
    refine ⟨filled, onLine, rest, ?_⟩
    rw [← opens, ← closes]
    simp only [List.append_assoc]

theorem ofComment?_eq_some {comment name : String} (h : ofComment? comment = some name) :
    Refers comment name := by
  unfold ofComment? at h
  split at h
  next opens =>
    obtain ⟨cs, found, rfl⟩ := Option.map_eq_some_iff.1 h
    have opens := List.isPrefixOf_iff_prefix.1 opens
    obtain ⟨holds, longest⟩ := (longestName?_spec _).1 cs found
    refine ⟨mentions_iff.2 ⟨opens, by simpa using holds⟩, fun other mentioned => ?_⟩
    simpa only [String.length_toList, String.length_ofList] using
      longest other.toList (mentions_iff.1 mentioned).2
  next => cases h

theorem ofComment?_eq_none {comment : String} (h : ofComment? comment = none) (name : String) :
    ¬Mentions comment name := by
  intro mentioned
  obtain ⟨opens, holds⟩ := mentions_iff.1 mentioned
  rw [ofComment?, if_pos (List.isPrefixOf_iff_prefix.2 opens), Option.map_eq_none_iff] at h
  exact (longestName?_spec _).2 h _ holds

/-- A comment refers to one name at most. -/
theorem Refers.unique {comment a b : String} (ha : Refers comment a) (hb : Refers comment b) :
    a = b := by
  have same : a.length = b.length := Nat.le_antisymm (hb.2 a ha.1) (ha.2 b hb.1)
  obtain ⟨⟨-, -, x, eq⟩, -⟩ := ha
  obtain ⟨⟨-, -, y, rfl⟩, -⟩ := hb
  have eq := congrArg String.toList eq
  simp only [String.toList_append, List.append_assoc, List.append_cancel_left_eq] at eq
  refine String.toList_inj.1 (List.append_inj_left eq.symm ?_)
  rw [String.length_toList, String.length_toList, same]

/-! ### Going through the tokens -/

/-- The names that line comments among tokens refer to, one after the other. -/
inductive Scanned : List Token → List String → Prop where
  | nil : Scanned [] []
  | other {t : Token} {rest : List Token} {names : List String} :
    t.kind ≠ .lineComment → Scanned rest names → Scanned (t :: rest) names
  | plain {t : Token} {rest : List Token} {names : List String} {comment : String} :
    t.kind = .lineComment → t.text = "//" ++ comment → (∀ name, ¬Refers comment name) →
    Scanned rest names → Scanned (t :: rest) names
  | directive {t : Token} {rest : List Token} {names : List String} {comment name : String} :
    t.kind = .lineComment → t.text = "//" ++ comment → Refers comment name →
    Scanned rest names → Scanned (t :: rest) (name :: names)

/-- The text of a comment after its two slashes. -/
def inner (t : Token) : String := String.ofList (t.text.toList.drop 2)

theorem inner_eq {t : Token} {comment : String} (text : t.text = "//" ++ comment) :
    inner t = comment := by
  simp [inner, text]

/-- What the comments among tokens are found to refer to. -/
def found (tokens : List Token) : List String :=
  ((tokens.filter (·.kind == .lineComment)).map inner).filterMap ofComment?

theorem found_append (ts us : List Token) : found (ts ++ us) = found ts ++ found us := by
  simp [found]

/-- What is found depends on the kinds and the texts of the tokens. -/
theorem found_congr {ts us : List Token} (same : ts.map Token.lexeme = us.map Token.lexeme) :
    found ts = found us := by
  have inners (tokens : List Token) : (tokens.filter (·.kind == .lineComment)).map inner =
      ((tokens.map Token.lexeme).filter (·.kind == .lineComment)).map
        fun l => String.ofList (l.text.toList.drop 2) := by
    rw [List.filter_map, List.map_map]
    rfl
  rw [found, found, inners, inners, same]

theorem scanned_found {tokens : List Token}
    (slashes : ∀ t ∈ tokens, t.kind = .lineComment → ∃ comment, t.text = "//" ++ comment) :
    Scanned tokens (found tokens) := by
  induction tokens with
  | nil => exact .nil
  | cons t rest ih =>
    have rest' := ih fun t mem => slashes t (List.mem_cons_of_mem _ mem)
    by_cases kind : t.kind = .lineComment
    · obtain ⟨comment, text⟩ := slashes t List.mem_cons_self kind
      cases name : ofComment? comment with
      | none =>
        have same : found (t :: rest) = found rest := by simp [found, kind, inner_eq text, name]
        rw [same]
        exact .plain kind text (fun name refers => ofComment?_eq_none ‹_› name refers.1) rest'
      | some n =>
        have longer : found (t :: rest) = n :: found rest := by
          simp [found, kind, inner_eq text, name]
        rw [longer]
        exact .directive kind text (ofComment?_eq_some name) rest'
    · have same : found (t :: rest) = found rest := by simp [found, kind]
      rw [same]
      exact .other kind rest'

/-- Tokens are gone through in one way. -/
theorem Scanned.unique {tokens : List Token} {a b : List String} (ha : Scanned tokens a)
    (hb : Scanned tokens b) : a = b := by
  induction ha generalizing b with
  | nil =>
    cases hb
    rfl
  | other kind _ ih =>
    cases hb with
    | other _ rest => exact ih rest
    | plain own => exact absurd own kind
    | directive own => exact absurd own kind
  | @plain t rest names comment kind text none _ ih =>
    cases hb with
    | other own => exact absurd kind own
    | plain _ _ _ rest => exact ih rest
    | @directive _ _ _ _ name _ text' refers rest =>
      have same : _ = comment := (inner_eq text').symm.trans (inner_eq text)
      exact absurd (same ▸ refers) (none name)
  | @directive t rest names comment name kind text refers _ ih =>
    cases hb with
    | other own => exact absurd kind own
    | plain _ text' none rest =>
      have same : _ = comment := (inner_eq text').symm.trans (inner_eq text)
      exact absurd refers (same ▸ none name)
    | directive _ text' refers' rest =>
      have same : _ = comment := (inner_eq text').symm.trans (inner_eq text)
      rw [refers.unique (same ▸ refers'), ih rest]

/-- References are kept where they are named first. -/
theorem ofList_eq_eraseDups (names : List String) : ofList names = names.eraseDups := by
  induction names using List.reverseRecOn with
  | nil => rfl
  | append_singleton front name ih =>
    have step : ofList (front ++ [name]) = (ofList front).insert name := by simp [ofList]
    simp only [step, ih, insert, Table.eraseDups_concat, List.mem_eraseDups]

end References

/-- What stands in a tree as a line comment is one. -/
theorem Token.Takes.lineComment_iff {t : Token} {label : LeafKind} (h : t.Takes label) :
    label = .token .lineComment ↔ t.kind = .lineComment := by
  rcases h with rfl | ⟨k, rfl, ident, -⟩
  · simp
  · simp [ident]

namespace SourceUnit

/-- The comments of the tree are those of the source. -/
theorem lineComments_of_read {options : SourceOptions} {text : String} {u : SourceUnit}
    (accepted : read options text = .ok u) (comments : options.comments = true) :
    u.lineComments = ((lex text).filter (·.kind == .lineComment)).map References.inner := by
  obtain ⟨p, parsed, -, rfl⟩ := parsed_of_read accepted
  have labels (a : Leaf) (mem : a ∈ p.tree.leaves) :
      (a.kind == .token .lineComment) = (a.token.kind == .lineComment) := by
    rw [Bool.eq_iff_iff, beq_iff_eq, beq_iff_eq]
    exact (takes_of_parseWithin parsed a mem).lineComment_iff
  rw [← tokens_of_parseWithin parsed, List.filter_map, List.map_map, lineComments,
    SourceUnit.comments, if_pos comments, List.filter_filter]
  refine congrArg (List.map _) (List.filter_congr fun a mem => ?_)
  simpa [labels a mem] using fun line => .inl line

/-- The references are what is found among the tokens, each where it comes first. -/
theorem references_eq_found {options : SourceOptions} {text : String} {u : SourceUnit}
    (accepted : read options text = .ok u) :
    u.references = if options.comments then (References.found (lex text)).eraseDups else [] := by
  cases comments : options.comments with
  | true =>
    rw [references, lineComments_of_read accepted comments, References.ofComments,
      References.ofList_eq_eraseDups]
    rfl
  | false =>
    obtain ⟨p, parsed, -, rfl⟩ := parsed_of_read accepted
    simp [references, lineComments, SourceUnit.comments, comments, References.ofComments,
      References.ofList]

/-- The references of a source are found by going through its tokens: what the line comments
among them refer to, in this order, each name where it comes first. A source that is read
without comments has none. -/
theorem references_of_read {options : SourceOptions} {text : String} {u : SourceUnit}
    (accepted : read options text = .ok u) :
    (∃! names, References.Scanned (lex text) names) ∧
      (∀ names, References.Scanned (lex text) names → options.comments = true →
        u.references = names.eraseDups) ∧
      (options.comments = false → u.references = []) := by
  have scan : References.Scanned (lex text) (References.found (lex text)) :=
    References.scanned_found fun _ => Lexer.exists_text_of_lineComment
  have found := references_eq_found accepted
  refine ⟨⟨_, scan, fun _ other => other.unique scan⟩, fun names other comments => ?_,
    fun none => ?_⟩
  · rw [found, if_pos comments, other.unique scan]
  · rw [found, none]
    rfl

/-- Directives inside a statement, one with a quote in its name and one that comes again. -/
def directives : String := "\n".intercalate
  ["/// <reference lib=\"a\" />", "var x /// <reference lib=\"b\" /> \" />",
    ": /// <reference lib=\"a\" />", "A; // <reference lib=\"c\" />"]

theorem references_of_read_directives :
    ∃ u names, read {} directives = .ok u ∧ References.Scanned (lex directives) names ∧
      names.eraseDups = ["a", "b\" /> "] ∧ u.references = ["a", "b\" /> "] := by
  have result : (read {} directives).toOption.map (·.references) = some ["a", "b\" /> "] := by
    decide +kernel
  cases accepted : read {} directives with
  | error e => simp [accepted, Except.toOption] at result
  | ok u =>
    simp only [accepted, Except.toOption, Option.map_some, Option.some.injEq] at result
    obtain ⟨⟨names, scanned, -⟩, kept, -⟩ := references_of_read accepted
    exact ⟨u, names, rfl, scanned, (kept names scanned rfl).symm.trans result, result⟩

end SourceUnit

end ImplicitGlobals
