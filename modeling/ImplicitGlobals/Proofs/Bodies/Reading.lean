import ImplicitGlobals.Proofs.Acceptance.Runs
import ImplicitGlobals.Proofs.Bodies.Pruning
import ImplicitGlobals.Proofs.Grammar.Advancing
import ImplicitGlobals.Proofs.Printing.Runs
import ImplicitGlobals.Proofs.Setting.Steps

/-!
# Reading a body

Without a complaint a body is read from its brace to the brace that closes it: the brackets between
them are well nested. The other way round words that are well nested are read as a body, whatever
they are.
-/

namespace ImplicitGlobals.Grammar

variable {c d : Cursor} {kind : NodeKind} {inner vs : List Word}

theorem currentIs_steps (kind : TokenKind) (c : Cursor) : Yields (currentIs kind) c fun b d =>
    b = (kindIn c.rest 0 == some kind) ∧ ∃ looks, d = { c.skipGap with looks } :=
  Yields.bind (P := fun k d => k = kindIn c.rest 0 ∧ ∃ looks, d = { c.skipGap with looks })
    ((peek_steps 0 c).bind fun _ _ post => .pure ⟨congrArg _ post.1, post.2⟩)
    fun _ _ post => .pure ⟨congrArg (· == some kind) post.1, post.2⟩

/-- A closer that is read leaves the gap behind it alone. -/
theorem eat_ahead (kind : TokenKind) (c : Cursor) : Yields (eat kind) c fun b d => b = true → d.gap = .ahead :=
  (currentIs_answers kind c).bind fun _ d _ => .ite
    (fun _ => (bump_ahead d).bind fun _ _ ahead => .pure fun _ => ahead) fun _ => .pure nofun

/-- The closer is read behind what is between the delimiters, or something is complained of. -/
inductive Closed (m : Delimiters) (e f : Cursor) : Prop where
  | read {w : Word} (is : w.kind = m.closer) (took : Took (.token m.closer) w e.popOpener f) (ahead : f.gap = .ahead)
  | missed (other : ∀ w ∈ e.rest.head?, w.kind ≠ m.closer) (untidy : ¬f.Tidy)

/-- A word was read from the cursor on, behind the gap before it, and nothing of the gap behind it. -/
structure Bumped (label : LeafKind) (w : Word) (c d : Cursor) : Prop extends Took label w c d where
  ahead : d.gap = .ahead
  behind : d.parts.toList = c.skipGap.placeGap.parts.toList ++ [.leaf (.word c.passed label)]

/-- A word is read under what a look at it says. -/
theorem lookThenTake_behind {α : Type} {t : Rule α} (label : α → LeafKind)
    (looks : Yields t c fun _ d => ∃ looks, d = { c.skipGap with looks }) :
    Yields (t >>= fun x => takeAs (label x)) c fun _ d => d.gap = .ahead ∧ ∃ own,
      d.parts.toList = c.skipGap.placeGap.parts.toList ++ [.leaf (.word c.passed own)] := by
  refine looks.bind fun x d post => ?_
  obtain ⟨looks, rfl⟩ := post
  refine (takeAs_steps _ _).imp fun _ e read => ⟨?_, label x, ?_⟩
  · obtain ⟨looks', w, ws, -, rfl⟩ := read
    rfl
  · obtain ⟨looks', w, ws, -, rfl⟩ := read
    rw [Cursor.toList_parts_read]
    cases gap : c.gap <;> simp [Cursor.paid, Cursor.skipGap, Cursor.placeGap, gap, Gap.due, Gap.skipped] <;>
      split <;> simp

theorem Took.bumped {label own : LeafKind} {w : Word} (took : Took label w c d) (ahead : d.gap = .ahead)
    (behind : d.parts.toList = c.skipGap.placeGap.parts.toList ++ [.leaf (.word c.passed own)]) :
    Bumped label w c d := by
  obtain ⟨gap, parts⟩ := took.parts
  have last := (List.append_inj' (behind.symm.trans parts) rfl).2
  exact ⟨took, ahead, by rw [behind, last]⟩

theorem bump_bumped (c : Cursor) : Yields bump c fun _ d => ∃ w, Bumped (.token w.kind) w c d := by
  have looks : Yields current c fun _ d => ∃ looks, d = { c.skipGap with looks } :=
    (peek_steps 0 c).bind fun _ _ post => .pure post.2
  have behind := lookThenTake_behind (fun kind => .token (kind.getD .garbage)) looks
  intro x d run
  obtain ⟨w, took⟩ := bump_yields c x d run
  obtain ⟨ahead, own, behind⟩ := behind x d run
  exact ⟨w, took.bumped ahead behind⟩

theorem bumpKeyword_bumped (c : Cursor) : Yields bumpKeyword c fun _ d => ∃ w, Bumped (wordLabel w) w c d := by
  have looks : Yields currentText c fun _ d => ∃ looks, d = { c.skipGap with looks } :=
    (peek_steps 0 c).bind fun _ _ post => .pure post.2
  have behind := lookThenTake_behind (fun text => (Keyword.ofWord? text).elim (.token .ident) .keyword) looks
  intro x d run
  obtain ⟨w, took⟩ := bumpKeyword_yields c x d run
  obtain ⟨ahead, own, behind⟩ := behind x d run
  exact ⟨w, took.bumped ahead behind⟩

/-- The opener is read, then what is between turn by turn, and then the closer. -/
theorem delimited_yields {m : Delimiters} {turn : Rule Bool} {Q : Cursor → Prop}
    (h : ∀ o w d, Same c o → Bumped (.token w.kind) w (o.pushOpener m.opener) d → (c.gap ≠ .ahead → o.gap = c.gap) →
      Yields (repeatWhile turn) d fun _ e => Q e) :
    Yields (delimited m turn) c fun _ f => ∃ e, Q e ∧ Closed m e f := by
  have kept {gap : Gap} (looked : gap ≠ .ahead) : gap.skipped = gap := by cases gap <;> first | rfl | exact absurd rfl looked
  refine (mark_steps c).bind fun opener o marked => ?_
  obtain ⟨rfl, looks, rfl⟩ := marked
  have within : Yields (inside m.opener (repeatWhile turn)) { c.skipGap with looks } fun _ g =>
      ∃ e, Q e ∧ g = e.popOpener := by
    refine (pushOpener_steps m.opener _).bind fun _ g pushed => ?_
    obtain ⟨looks', rfl⟩ := pushed
    refine (bump_bumped _).bind fun _ d read => ?_
    obtain ⟨w, bumped⟩ := read
    exact (h { c.skipGap.skipGap with looks := looks' } w d ⟨_, _, _, rfl⟩ bumped fun looked => by
      simp [Cursor.skipGap, kept looked]).bind fun _ e post => .modify ⟨e, post, rfl⟩
  refine within.bind fun _ g post => ?_
  obtain ⟨e, post, rfl⟩ := post
  have eats : Yields (eat m.closer) e.popOpener fun b f =>
      Eaten (·.kind = m.closer) (.token m.closer) e.popOpener b f ∧ (b = true → f.gap = .ahead) :=
    fun b f run => ⟨eat_yields _ _ b f run, eat_ahead _ _ b f run⟩
  refine eats.bind fun b f eaten => ?_
  refine Yields.bind (P := fun spent f' => spent = f.refused.isSome ∧ f' = f) (.get (.pure ⟨rfl, rfl⟩))
    fun spent f' asked => ?_
  obtain ⟨rfl, rfl⟩ := asked
  cases b with
  | true =>
    obtain ⟨⟨w, is, took⟩, ahead⟩ := eaten
    exact .pure ⟨e, post, .read is took (ahead rfl)⟩
  | false =>
    refine .ite (fun _ => (complain_spoils _ f').imp fun _ _ untidy => ⟨e, post, .missed eaten.1.2 untidy⟩)
      fun spent => .pure ⟨e, post, .missed eaten.1.2 fun tidy => ?_⟩
    simp [tidy.refused] at spent

/-- Braces around words in which the brackets are well nested, in a node that is put behind the gap. -/
structure Braced (kind : NodeKind) (inner : List Word) (c d : Cursor) : Prop where
  words : ∃ opener closer, opener.kind = .braceOpen ∧ closer.kind = .braceClose ∧
    c.rest = opener :: (inner ++ closer :: d.rest)
  nested : WellNested false (inner.map (·.kind))
  gap : d.gap = .ahead
  parts : ∃ ts, d.parts.toList = c.skipGap.placeGap.parts.toList ++ [.node kind ts]

theorem delimited_accepts {m : Delimiters} {turn : Rule Bool} (h : Forms Anywhere turn fun _ => ⊤) (c : Cursor) :
    Accepts (delimited m turn) c fun _ d => d.gap = .ahead ∧ ∃ first ws last,
      c.rest = first :: (ws ++ last :: d.rest) ∧ last.kind = m.closer ∧ WellNested false (ws.map (·.kind)) := by
  have within : Yields (delimited m turn) c fun _ f => ∃ e, (e.Tidy → c.Tidy ∧ ∃ first ws,
      c.rest = first :: (ws ++ e.rest) ∧ WellNested false (ws.map (·.kind))) ∧ Closed m e f := by
    refine delimited_yields fun o w d same took _ => ?_
    obtain ⟨gap, looks, depth, rfl⟩ := same
    refine Yields.imp (repeatWhile_forms h d fun _ => trivial) fun _ e post tidy => ?_
    obtain ⟨between, fills⟩ := post tidy
    have began := took.tidy between
    obtain ⟨ws, -, read, -, nested, -⟩ := fills.content
    exact ⟨⟨began.complaints, began.lastPlace, began.refused⟩, w, ws, by rw [← read]; exact took.rest, nested⟩
  refine within.imp fun _ d post tidy => ?_
  obtain ⟨e, body, closed⟩ := post
  cases closed with
  | missed other untidy => exact absurd tidy untidy
  | @read w is took ahead =>
    have before := took.tidy tidy
    obtain ⟨began, first, ws, rest, nested⟩ := body ⟨before.complaints, before.lastPlace, before.refused⟩
    have left : e.rest = w :: d.rest := took.rest
    exact ⟨began, ahead, first, ws, w, by rw [rest, left], is, nested⟩

/-- Only what is well nested between its braces is read as a body without a complaint. -/
theorem bracedBody_accepts (kind : NodeKind) (c : Cursor) :
    Accepts (bracedBody kind) c fun _ d => ∃ inner, Braced kind inner c d := by
  refine Yields.bind (currentIs_steps .braceOpen c) fun found d post => ?_
  obtain ⟨rfl, looks, rfl⟩ := post
  refine .ite (fun _ => ?_) fun here => ?_
  · exact (complain_spoils _ _).bind fun _ _ untidy => .pure fun tidy => absurd tidy untidy
  let o : Cursor := Cursor.openNode (Cursor.placeGap { c.skipGap with looks }) kind
    (Cursor.placeGap { c.skipGap with looks }).parts.size
  let m : Delimiters := ⟨.braceOpen, .braceClose, .unclosedBrace, "body opened here", true⟩
  have trails : advancing.Rel Anywhere .same (delimited m bodyTurn) (delimited m bodyTurn) :=
    advancing.delimited m rfl advancing.bodyTurn
  have body : Yields (delimited m bodyTurn) o fun x e => Advances o e ∧ (e.Tidy → o.Tidy ∧ e.gap = .ahead ∧
      ∃ first ws last, o.rest = first :: (ws ++ last :: e.rest) ∧ last.kind = .braceClose ∧
        WellNested false (ws.map (·.kind))) := fun x e run =>
    ⟨trails o x e run,
      delimited_accepts bodyTurn_forms o x e run⟩
  refine Yields.imp (node_yields body) fun _ d closed tidy => ?_
  obtain ⟨e, n, os, ⟨advances, accepts⟩, opened, rfl⟩ := closed
  obtain ⟨rfl, -⟩ := List.cons.inj (opened.symm.trans advances.opened)
  obtain ⟨began, ahead, first, ws, last, rest, closes, nested⟩ := accepts tidy.ofClose
  refine ⟨⟨began.complaints, began.lastPlace, began.refused⟩, ws, ⟨first, last, ?_, closes, rest⟩, nested, ahead, ?_⟩
  · have rest : c.rest = first :: (ws ++ last :: e.rest) := rest
    simpa [kindIn, rest] using here
  · have kept := advances.take_parts
    refine ⟨e.parts.toList.drop o.parts.size, ?_⟩
    rw [Cursor.toList_parts_closeNode]
    exact congrArg (· ++ _) kept

/-- Whatever is well nested is read as a body, up to the brace that closes it. There are only leaves in
the node. -/
theorem bracedBody_reads {words : List Word} {opener closer : Word} (kind : NodeKind) (ready : Ready words c)
    (rest : c.rest = opener :: (inner ++ closer :: vs)) (opens : opener.kind = .braceOpen)
    (closes : closer.kind = .braceClose) (clean : ∀ w ∈ inner, w.kind ≠ .garbage)
    (nested : WellNested false (inner.map (·.kind))) :
    Yields (bracedBody kind) c fun _ d => Ready words d ∧ d.rest = vs ∧ d.gap = .ahead ∧
      ∃ ts, d.parts.toList = c.skipGap.placeGap.parts.toList ++ [.node kind ts] ∧ ts.all Tree.isLeaf = true := by
  let run : BodyRun := ⟨inner.map Word.lexeme, by simpa [Word.lexeme] using clean,
    by simpa [Word.lexeme, Function.comp_def] using nested, fun _ _ _ => rfl⟩
  have opens : opener.lexeme.kind = .braceOpen := opens
  have closes : closer.lexeme.kind = .braceClose := closes
  intro x d read
  obtain ⟨-, ready', here, adds⟩ := braced_parses kind run opens closes (vs.map Word.lexeme) words c ready
    (by simp [rest, run]) x d read
  obtain ⟨-, inner', ⟨o, w, -, -, split⟩, -, ahead, ts, parts⟩ := bracedBody_accepts kind c x d read ready'.toTidy
  have left : d.rest = vs := by
    have whole := (List.cons.inj (split.symm.trans rest)).2
    have size := congrArg List.length here
    rw [List.length_map, List.length_map] at size
    exact (List.cons.inj (List.append_inj_right' whole (by simpa using size))).2
  refine ⟨ready', left, ahead, ts, parts, ?_⟩
  obtain ⟨ps, parts', added⟩ := adds.parts
  rw [Cursor.toList_parts_placeGap, List.append_assoc] at parts
  obtain rfl := List.append_cancel_left (parts.symm.trans parts')
  rw [Tree.expandAll_append, expandAll_due] at added
  have node : Tree.expandAll (bareSlot words) ts = _ := (Tree.node.inj (List.cons.inj added).1).2
  rw [← Tree.all_isLeaf_expandAll (bareSlot words), node]
  simp [Lexeme.leaf, Lexeme.leafAs, Tree.isLeaf]

end ImplicitGlobals.Grammar
