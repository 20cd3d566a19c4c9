import ImplicitGlobals.Proofs.Angles.Trees
import ImplicitGlobals.Proofs.Diagnostic.Height
import ImplicitGlobals.Proofs.Grammar.Advancing

/-!
# Errors between delimiters

What is complained of between two delimiters names an opener, and so it suppresses lighter errors
from there to the end of the source, whether or not its delimiters are closed before.
-/

namespace ImplicitGlobals

open Grammar

/-- Whether a node of the kind begins with an opener, behind which its closer is looked for. -/
def NodeKind.isDelimited (kind : NodeKind) : Bool := kind.isBody || kind.isList

theorem Complaint.opener?_ne_none (k : Complaint) (of : k.isOfOpener = true) : k.opener? ≠ none := by
  cases k with
  | here | noSemicolon => cases of
  | unclosed => exact nofun

namespace Tree

/-- The words of a node are among those of the trees in which it is. -/
theorem wordsOf_subset {kind : NodeKind} {children ts : List (Tree Slot)}
    (among : node kind children ∈ descendantsOf kind ts) : wordsOf children ⊆ wordsOf ts := by
  obtain ⟨before, s, after, behind, rfl, stands⟩ := exists_standsIn_children ts among
  obtain ⟨front, whole⟩ := stands.leaves
  refine List.filterMap_subset _ fun a mem => ?_
  rw [leavesOf_append, leavesOf, whole]
  simp [leaves, mem]

/-- Every complaint that was made behind the first word of a delimited node, and not behind the last
one, names an opener. -/
def Hedged (ks : List Complaint) (t : Tree Slot) : Prop :=
  ∀ kind children, kind.isDelimited = true → node kind children ∈ t.descendants kind →
    ∀ i ∈ wordsOf children, ∀ j ∈ wordsOf children, ∀ k ∈ ks, k.opener? = none → i < k.place → j < k.place

namespace Hedged

variable {ks : List Complaint} {ts : List (Tree Slot)} {kind : NodeKind}

theorem leaf (s : Slot) : Hedged ks (.leaf s) := nofun

/-- A node whose parts are hedged is hedged, if its own words are. -/
theorem node (each : ∀ t ∈ ts, t.Hedged ks) (own : kind.isDelimited = true →
    ∀ i ∈ wordsOf ts, ∀ j ∈ wordsOf ts, ∀ k ∈ ks, k.opener? = none → i < k.place → j < k.place) :
    Hedged ks (.node kind ts) := fun kind' children delimited among => by
  rcases mem_descendants_node.1 among with ⟨rfl, is⟩ | among
  · rw [(Tree.node.inj is).2]
    exact own delimited
  · obtain ⟨t, mem, among⟩ := mem_descendantsOf.1 among
    exact each t mem kind' children delimited among

end Hedged

end Tree

namespace Grammar

variable {c d e : Cursor}

/-- What holds of the complaints and the parts on every way. -/
structure Cursor.Hedged (c : Cursor) : Prop where
  words : ∀ i ∈ Tree.wordsOf c.parts.toList, i < c.passed
  places : ∀ k ∈ c.complaints, k.place ≤ c.passed
  kinds : ∀ k ∈ c.complaints, k.kind.isUnclosed = k.isOfOpener
  parts : ∀ t ∈ c.parts.toList, t.Hedged c.complaints

/-- Between the cursors complaints are made inside of delimiters, if there are any. -/
structure Hedges (c d : Cursor) : Prop extends Advances c d where
  complaints : ∀ k ∈ d.complaints, k ∈ c.complaints ∨ (c.openers ≠ [] → k.opener? ≠ none)
  hedged : c.Hedged → d.Hedged

namespace Hedges

/-- Parts are added that hold no node. -/
theorem add (advances : Advances c d) (complaints : d.complaints = c.complaints) {ps : List (Tree Slot)}
    (parts : d.parts.toList = c.parts.toList ++ ps) (flat : ∀ t ∈ ps, ∃ s, t = .leaf s) : Hedges c d where
  toAdvances := advances
  complaints k mem := .inl (complaints ▸ mem)
  hedged hedged := by
    refine ⟨fun i mem => ?_, fun k mem => Nat.le_trans (hedged.places k (complaints ▸ mem)) advances.passed_le,
      complaints ▸ hedged.kinds, fun t mem => ?_⟩
    · have further := advances.passed_le
      rw [advances.words, List.mem_append, List.mem_range'_1] at mem
      rcases mem with old | new
      · exact Nat.lt_of_lt_of_le (hedged.words i old) further
      · omega
    · rw [parts] at mem
      rw [complaints]
      rcases List.mem_append.1 mem with mem | mem
      · exact hedged.parts t mem
      · obtain ⟨s, rfl⟩ := flat t mem
        exact .leaf s

theorem refl (c : Cursor) : Hedges c c := add (.refl c) rfl (List.append_nil _).symm nofun

/-- What is hedged by two steps. -/
theorem trans (h : Hedges c d) (g : Hedges d e) : Hedges c e where
  toAdvances := h.toAdvances.trans g.toAdvances
  complaints k mem := by
    rcases g.complaints k mem with mem | named
    · exact h.complaints k mem
    · exact .inr (h.openers ▸ named)
  hedged := g.hedged ∘ h.hedged

theorem placeGap (c : Cursor) : Hedges c c.placeGap :=
  add (.placeGap c) rfl (Cursor.toList_parts_placeGap c) fun _ due => ⟨_, Gap.eq_of_mem_due due⟩

/-- A word that is read complains of nothing. -/
theorem took {label : LeafKind} {w : Word} (took : Took label w c d) : Hedges c d := by
  obtain ⟨gap, parts⟩ := took.parts
  refine add (.took took) took.complaints (parts.trans (List.append_assoc ..)) fun t mem => ?_
  rcases List.mem_append.1 mem with due | word
  · exact ⟨_, Gap.eq_of_mem_due due⟩
  · exact ⟨_, List.mem_singleton.1 word⟩

/-- A complaint is made behind all words that were read. -/
theorem note {k : Complaint} (makes : c.Makes k) : Hedges c (c.note k) where
  toAdvances := .note c k
  complaints j mem := by
    rcases List.mem_cons.1 mem with rfl | mem
    · refine .inr fun enclosed => ?_
      cases of : j.isOfOpener with
      | true => exact j.opener?_ne_none of
      | false =>
        rw [makes.around of]
        simpa [Cursor.innermost] using enclosed
    · exact .inl mem
  hedged hedged := by
    refine ⟨hedged.words, fun j mem => ?_, fun j mem => ?_, fun t mem kind children delimited among i first j last
      k' made none behind => ?_⟩
    · exact (List.mem_cons.1 mem).elim (fun is => Nat.le_of_eq (is ▸ makes.place)) (hedged.places j)
    · exact (List.mem_cons.1 mem).elim (fun is => is ▸ makes.kind) (hedged.kinds j)
    · rcases List.mem_cons.1 made with rfl | made
      · rw [makes.place]
        exact hedged.words j (Tree.wordsOf_subset (Tree.mem_descendantsOf.2 ⟨t, mem, among⟩) last)
      · exact hedged.parts t mem kind children delimited among i first j last k' made none behind

/-- The parts of a node that is closed are those that came since it began. -/
theorem close {kind : NodeKind} {first : Nat} (among : first ≤ c.parts.size)
    (outer : first < c.parts.size → ∀ o ∈ c.opened.head?, o.first ≤ first)
    (body : Hedges (c.openNode kind first) e) (own : c.Hedged → e.Hedged → kind.isDelimited = true →
      let ts := e.parts.toList.drop first
      ∀ i ∈ Tree.wordsOf ts, ∀ j ∈ Tree.wordsOf ts, ∀ k ∈ e.complaints, k.opener? = none → i < k.place → j < k.place) :
    Hedges c (e.closeNode kind first) where
  toAdvances := body.toAdvances.close among outer
  complaints := body.complaints
  hedged hedged := by
    have hedged' := body.hedged ⟨hedged.words, hedged.places, hedged.kinds, hedged.parts⟩
    refine ⟨Advances.wordsOf_closeNode e kind first ▸ hedged'.words, hedged'.places, hedged'.kinds, fun t mem => ?_⟩
    rw [Cursor.toList_parts_closeNode] at mem
    rcases List.mem_append.1 mem with mem | mem
    · exact hedged'.parts t (List.mem_of_mem_take mem)
    · rw [List.mem_singleton.1 mem]
      exact .node (fun u among => hedged'.parts u (List.mem_of_mem_drop among)) (own hedged hedged')

/-- Inside a delimiter that is pushed all complaints name an opener. -/
theorem pop {kind : TokenKind} (h : Hedges (c.pushOpener kind) e) :
    Hedges c e.popOpener ∧ ∀ k ∈ e.complaints, k ∈ c.complaints ∨ k.opener? ≠ none := by
  have inside (k : Complaint) (mem : k ∈ e.complaints) : k ∈ c.complaints ∨ k.opener? ≠ none :=
    (h.complaints k mem).imp id fun named => named (List.cons_ne_nil _ _)
  refine ⟨⟨h.toAdvances.pop, fun k mem => (inside k mem).imp id fun named _ => named, fun hedged => ?_⟩, inside⟩
  have whole := h.hedged ⟨hedged.words, hedged.places, hedged.kinds, hedged.parts⟩
  exact ⟨whole.words, whole.places, whole.kinds, whole.parts⟩

end Hedges

/-- The steps of the grammar follow this trail. -/
theorem hedges_trail : Trail (fun kind => kind.isDelimited = false) Hedges where
  refl := .refl
  trans := .trans
  opened h := h.opened
  count c gap looks depth _ kept := Hedges.add (advances_trail.count c gap looks depth kept) rfl
    (List.append_nil _).symm nofun
  took := .took
  placeGap := .placeGap
  note _ := .note
  close ordinary among outer body := body.close among outer fun _ _ delimited =>
    absurd (ordinary.symm.trans delimited) nofun
  within _ read body := (Hedges.pop ((Hedges.took read).trans body)).1

theorem usual_undelimited {kind : NodeKind} (usual : kind.isSpecial = false) : kind.isDelimited = false := by
  cases kind <;> first | rfl | cases usual

/-- Hedging as a relation between rules of which only the first counts. -/
def hedging : RuleRelation := hedges_trail.relation fun _ => usual_undelimited

theorem complain_makes (k : Nat → Option Nat → Complaint) (c : Cursor) :
    Yields (complain k) c fun _ d => ∀ j ∈ d.complaints, j ∈ c.complaints ∨ ∃ i o, j = k i o := by
  refine (mark_yields c).bind fun i d post => .modify fun j mem => ?_
  obtain ⟨-, _, _, _, rfl⟩ := post
  split at mem
  · exact .inl mem
  · exact (List.mem_cons.1 mem).symm.imp id fun is => ⟨_, _, is⟩

theorem Eaten.complaints {is : Word → Prop} {label : LeafKind} {read : Bool}
    (eaten : Eaten is label c read d) : d.complaints = c.complaints := by
  cases read with
  | true =>
    obtain ⟨w, -, took⟩ := eaten
    exact took.complaints
  | false =>
    obtain ⟨⟨_, _, _, rfl⟩, -⟩ := eaten
    rfl

/-- All complaints that are made from the opener on to the closer name an opener. -/
theorem delimited_names {d : Delimiters} {turn : Rule Bool} (inner : Trails Hedges turn) (c : Cursor) :
    Yields (delimited d turn) c fun _ e => ∀ k ∈ e.complaints, k ∈ c.complaints ∨ k.opener? ≠ none := by
  refine (mark_yields c).bind fun _ c' marked => ?_
  have turns : hedging.Rel Anywhere .same turn turn := inner
  have rounds : hedging.Rel Anywhere .same (repeatWhile turn) (repeatWhile turn) :=
    hedging.repeatWhile turns
  have inside : Yields (inside d.opener (repeatWhile turn)) c' fun _ e =>
      ∀ k ∈ e.complaints, k ∈ c.complaints ∨ k.opener? ≠ none := by
    refine inside_yields fun same read => (rounds _).imp fun _ e body => ?_
    obtain ⟨_, _, _, rfl⟩ := marked.2.trans same
    exact ((Hedges.took read).trans body).pop.2
  refine inside.bind fun _ e named => ?_
  refine (eat_yields _ e).bind fun _ f eaten => (isRefused_answers f).bind fun _ g post => ?_
  obtain ⟨-, _, _, _, rfl⟩ := post
  have named : ∀ k ∈ f.complaints, k ∈ c.complaints ∨ k.opener? ≠ none := eaten.complaints ▸ named
  refine .ite (fun _ => (complain_makes _ _).imp fun _ _ made k mem => ?_) fun _ => .pure named
  rcases made k mem with mem | ⟨_, _, rfl⟩
  · exact named k mem
  · exact .inr nofun

/-- A node between delimiters is closed around what was read from its opener on. -/
theorem node_delimited_hedges (kind : NodeKind) {d : Delimiters} (unclosed : d.unclosed.isUnclosed = true)
    {turn : Rule Bool} (inner : Trails Hedges turn) : Trails Hedges (node kind (delimited d turn)) := fun c => by
  have turns : hedging.Rel Anywhere .same turn turn := inner
  have rounds : hedging.Rel Anywhere .same (delimited d turn) (delimited d turn) :=
    hedging.delimited d unclosed turns
  let begun := c.placeGap.openNode kind c.placeGap.parts.size
  have body : Yields (delimited d turn) begun fun _ e =>
      Hedges begun e ∧ ∀ k ∈ e.complaints, k ∈ begun.complaints ∨ k.opener? ≠ none :=
    fun x e run => ⟨rounds _ x e run, delimited_names inner _ x e run⟩
  refine Yields.imp (node_yields body) fun _ f closed => ?_
  obtain ⟨e, o, os, ⟨hedges, named⟩, opened, rfl⟩ := closed
  obtain ⟨rfl, -⟩ := List.cons.inj (opened.symm.trans hedges.opened)
  refine (Hedges.placeGap c).trans (Hedges.close (Nat.le_refl _) (fun less => absurd less (Nat.lt_irrefl _)) hedges
    fun hedged _ _ i first j _ k made none behind => ?_)
  -- The words of the node were read behind `c`, and what was complained of since then names an opener.
  have old : k ∈ c.placeGap.complaints := (named k made).resolve_right (absurd none)
  have late : c.placeGap.passed ≤ i := by
    rw [hedges.wordsOf_drop] at first
    exact (List.mem_range'_1.1 first).1
  exact absurd behind (Nat.not_lt.2 (Nat.le_trans (hedged.places k old) late))

/-- A body between braces follows it, too. -/
theorem bracedBody_hedges (kind : NodeKind) (inner : Trails Hedges bodyTurn) :
    Trails Hedges (bracedBody kind) := by
  refine hedges_trail.bind (hedges_trail.answers (currentIs_answers _)) fun found => ?_
  cases found with
  | false =>
    exact hedges_trail.bind (hedges_trail.complain _ fun _ => ⟨rfl, fun _ => rfl, rfl⟩) fun _ c =>
      Yields.pure (.refl c)
  | true => exact node_delimited_hedges kind rfl inner

/-- Every rule hedges what it reads between delimiters. -/
def hedges : GrammarRelation where
  toRuleRelation := hedging
  ofTypeExpr := absurd rfl
  ofExportDefault := absurd ⟨rfl, rfl⟩
  ofExportAssignment := absurd ⟨rfl, rfl⟩
  ofImportDeclaration := absurd rfl
  ofModuleDeclaration := absurd rfl
  ofGlobalDeclaration := absurd rfl
  ofBracedBody _ _ := bracedBody_hedges _
  ofList _ _ _ unclosed _ _ := node_delimited_hedges _ unclosed

end Grammar

/-! ### What is explained -/

/-- A leaf that is no trivia is a word of the layout. -/
theorem Tree.exists_of_mem_leavesOf {tokens : List Token} {ts : List (Tree Slot)} {a : Leaf}
    (mem : a ∈ leavesOf (expandAll (Layout.ofTokens tokens).fill ts)) (plain : a.kind.isTrivia = false) :
    ∃ i ∈ wordsOf ts, (Layout.ofTokens tokens).words[i]? = some a.token := by
  rw [leavesOf_expandAll] at mem
  obtain ⟨s, among, filled⟩ := List.mem_flatMap.1 mem
  cases s with
  | gap i =>
    exact absurd ((Layout.parted_ofTokens tokens).isTrivia_fill i a filled) (by simp [plain])
  | word i label =>
    refine ⟨i, List.mem_filterMap.2 ⟨_, among, rfl⟩, ?_⟩
    obtain ⟨t, here, rfl⟩ := Option.map_eq_some_iff.1 (Option.mem_toList.1 filled)
    exact here

namespace Layout

variable {text : String} {i j : Nat}

/-- A word that ends before another begins comes before it. -/
theorem lt_of_stop_le_start (word : i < (ofTokens (lex text)).words.size)
    (h : ((ofTokens (lex text)).span i).stop ≤ ((ofTokens (lex text)).span j).start) : i < j := by
  refine Nat.lt_of_not_le fun le => ?_
  have before := (ordered_lex text).start_le_start le (Nat.le_of_lt word)
  have filled := start_lt_stop (fun _ => Lexer.text_ne_empty) word
  omega

theorem le_of_start_lt_stop
    (h : ((ofTokens (lex text)).span i).start < ((ofTokens (lex text)).span j).stop) : i ≤ j :=
  Nat.le_of_not_lt fun lt => Nat.not_le.2 h (stop_le_start (Lexer.tiled_lex text) lt)

end Layout

/-- A complaint of an unclosed delimiter explains nothing behind the place at which it was made. -/
theorem Complaint.explains_of_isOfOpener {l : Layout} {k : Complaint} {e : Diagnostic} (of : k.isOfOpener = true)
    (starts : (k.locate l).span.start < e.span.start) (stops : (k.locate l).span.stop < e.span.stop) :
    (k.locate l).explains e = false := by
  have own : (k.locate l).suppression = (k.locate l).span := by
    cases k with
    | here | noSemicolon => cases of
    | unclosed => rfl
  have apart : (k.locate l).encloses e = false := by
    rw [Diagnostic.encloses, own]
    simp only [Bool.and_eq_false_iff, decide_eq_false_iff_not]
    exact .inr (by omega)
  rw [Diagnostic.explains, apart, if_neg Bool.false_ne_true, if_pos (Nat.ne_of_lt starts)]

/-- A complaint that names an opener explains all lighter errors behind it. -/
theorem Complaint.explains_of_opener {l : Layout} {k : Complaint} {o : Nat} {e : Diagnostic}
    (of : k.isOfOpener = false) (within : k.opener? = some o) (before : (l.span o).start < e.span.start)
    (stops : e.span.stop ≤ l.size) : (k.locate l).explains e = (k.locate l).kind.outranks e.kind := by
  have encloses : (k.locate l).encloses e = true := by
    rw [Diagnostic.encloses, suppression_start, suppression_stop within of, root, within]
    simp [before, stops]
  rw [Diagnostic.explains, if_pos encloses]

/-- What is wrong between an opener and its closer explains all lighter errors behind it, to the end
of the source. Only a missing closer explains none of them. -/
theorem explains_of_delimited {budget : Budget} {text : String} {p : Parsed}
    (parsed : parseWithin budget text = .ok p) {kind : NodeKind} (delimited : kind.isDelimited = true)
    {t : SyntaxTree} (among : t ∈ p.tree.descendants kind) {first last : Leaf} (inTree : first ∈ t.leaves)
    (inTree' : last ∈ t.leaves) (plain : first.kind.isTrivia = false) (plain' : last.kind.isTrivia = false)
    {d e : Diagnostic} (made : d ∈ p.diagnostics) (made' : e ∈ p.diagnostics)
    (opened : first.token.stop ≤ d.span.start) (starts : d.span.start < last.token.stop)
    (stops : d.span.stop ≤ last.token.stop) (behind : last.token.stop ≤ e.span.start)
    (further : d.kind.isUnclosed = true → last.token.stop < e.span.stop) :
    d.explains e = (!d.kind.isUnclosed && d.kind.outranks e.kind) := by
  obtain ⟨c, children, run, walk, kept, rest, gap, tree, rfl⟩ := run_of_parseWithin parsed
  have hedged : c.Hedged := (hedges.source (.start budget (Word.ofTokens (lex text))) () c run).hedged
    ⟨nofun, nofun, nofun, nofun⟩
  have orderly := walk.orderly (.start budget (Word.ofTokens (lex text)))
  have layout := Layout.ordered_lex text
  obtain ⟨parts, inside, rfl⟩ := Tree.exists_of_mem_expandAll [.node .sourceFile children]
    (Tree.mem_descendantsOf.2 ⟨_, List.mem_singleton.2 rfl, among⟩)
  obtain ⟨i, word, here⟩ := Tree.exists_of_mem_leavesOf inTree plain
  obtain ⟨j, word', here'⟩ := Tree.exists_of_mem_leavesOf inTree' plain'
  obtain ⟨k, noted, rfl⟩ := List.mem_map.1 made
  obtain ⟨k', noted', rfl⟩ := List.mem_map.1 made'
  replace noted : k ∈ c.complaints := List.mem_reverse.1 noted
  have named := hedged.parts _ (tree ▸ List.mem_singleton.2 rfl) kind parts delimited
    (by simpa [Tree.descendantsOf] using inside) i word j word' k noted
  have unclosed := hedged.kinds k noted
  have size : i < (Layout.ofTokens (lex text)).words.size := (Array.getElem?_eq_some_iff.1 here).1
  have first : (Layout.ofTokens (lex text)).span i = first.token.span := by rw [Layout.span, here]
  have last : (Layout.ofTokens (lex text)).span j = last.token.span := by rw [Layout.span, here']
  rw [Complaint.kind_locate] at further ⊢
  -- A complaint of an opener explains what follows up to its own place; any other one reaches to the closer.
  cases of : k.isOfOpener with
  | true =>
    rw [of] at unclosed
    rw [Complaint.explains_of_isOfOpener of (by omega) (by have := further unclosed; omega), unclosed]
    rfl
  | false =>
    rw [of] at unclosed
    rw [Complaint.start_locate, Complaint.first_of_not of] at opened starts
    have behindFirst : i < k.place := Layout.lt_of_stop_le_start size (by rw [first]; exact opened)
    have upToLast : k.place ≤ j := Layout.le_of_start_lt_stop (by rw [last]; exact starts)
    cases within : k.opener? with
    | none => exact absurd (named within behindFirst) (Nat.not_lt.2 upToLast)
    | some o =>
      have size' : j < (Layout.ofTokens (lex text)).words.size := (Array.getElem?_eq_some_iff.1 here').1
      have before := layout.starts ((orderly.made k noted).opener o within) (by omega)
      have stops' := Complaint.stop_locate (Layout.ofTokens (lex text)) k' ▸ layout.stops k'.place
      rw [Complaint.explains_of_opener of within (by omega) stops', unclosed, Complaint.kind_locate]
      rfl

/-- What is wrong in the first parameter list hides what is wrong behind it. -/
theorem explains_of_delimited_parameters : ∃ p, parseWithin {} "function f(a: ); var b var c;" = .ok p ∧
    ∃ d ∈ p.diagnostics, ∃ e ∈ p.diagnostics,
      d.explains e = (!d.kind.isUnclosed && d.kind.outranks e.kind) := by
  have found : (parseWithin {} "function f(a: ); var b var c;").toOption.any (fun p =>
      decide (∃ t ∈ p.tree.descendants .parameterList, ∃ first ∈ t.leaves, ∃ last ∈ t.leaves,
        first.kind.isTrivia = false ∧ last.kind.isTrivia = false ∧
        ∃ d ∈ p.diagnostics, ∃ e ∈ p.diagnostics, first.token.stop ≤ d.span.start ∧
          d.span.start < last.token.stop ∧ d.span.stop ≤ last.token.stop ∧
          last.token.stop ≤ e.span.start ∧ last.token.stop < e.span.stop)) = true := by decide +kernel
  obtain ⟨p, parsed, found⟩ := exists_of_any_toOption found
  obtain ⟨t, among, first, inTree, last, inTree', plain, plain', d, made, e, made', opened, starts, stops,
    behind, further⟩ := of_decide_eq_true found
  have delimits : NodeKind.parameterList.isDelimited = true := rfl
  exact ⟨p, parsed, d, made, e, made', explains_of_delimited parsed delimits among inTree inTree'
    plain plain' made made' opened starts stops behind fun _ => further⟩

/-- An error in a block that is closed hides another one behind it. -/
theorem hidden_behind_block : ∃ p, parse "namespace N \x7b var ; \x7d var a var b;" = .ok p ∧
    ∃ t ∈ p.tree.descendants .moduleBlock, SyntaxTree.hasLeaf t (.token .braceClose) = true ∧
      ∃ d ∈ p.diagnostics, ∃ e ∈ p.diagnostics,
        (SyntaxTree.span t).start < d.span.start ∧ d.span.stop < (SyntaxTree.span t).stop ∧
        (SyntaxTree.span t).stop ≤ e.span.start ∧ d.explains e = true ∧ e ∉ p.diagnostics.filtered := by
  have found : (parse "namespace N \x7b var ; \x7d var a var b;").toOption.any (fun p => decide (
      ∃ t ∈ p.tree.descendants .moduleBlock, SyntaxTree.hasLeaf t (.token .braceClose) = true ∧
        ∃ d ∈ p.diagnostics, ∃ e ∈ p.diagnostics,
          (SyntaxTree.span t).start < d.span.start ∧ d.span.stop < (SyntaxTree.span t).stop ∧
          (SyntaxTree.span t).stop ≤ e.span.start ∧ d.explains e = true ∧
          e ∉ p.diagnostics.filtered)) = true := by decide +kernel
  obtain ⟨p, parsed, found⟩ := exists_of_any_toOption found
  exact ⟨p, parsed, of_decide_eq_true found⟩

end ImplicitGlobals
