import ImplicitGlobals.Generation.Run
import ImplicitGlobals.Proofs.Disk.Operations

/-!
# What a run leaves on the disk

All reading comes first, and a run that fails by then has touched nothing. After that the output
directory is emptied, and every file that is written adds itself and the directories it lies in.
-/

namespace ImplicitGlobals

/-- The bundle files in a directory. -/
def Disk.sources (d : Disk) (directory : String) (bundles : List Bundle) : Sources := fun file =>
  ((bundles.map fun b => (b.file, (d.readText (Path.join directory b.file)).mapError
    fun e => Failure.unreadable (Path.join directory b.file) e.message)).lookup file).getD
      (.error (.unreadable file DiskFault.notFound.message))

/-- `e` is `d` with files in a directory, by their paths from there, and nothing else in it. Every
directory in it lies on the way to one of them, or to the directory; nothing else has changed but
for directories that are made on the way to it. -/
structure Disk.Holds (d e : Disk) (directory : String) (files : List (String × String)) : Prop where
  home : e.home = d.home
  itself : e.entry? (d.placeOf directory) = some .directory
  file (q : List String) (text : String) :
    e.entry? (d.placeOf directory ++ q) = some (.file text) ↔
      ∃ path, (path, text) ∈ files ∧ Path.parts path = q
  inner (q : List String) (there : e.entry? (d.placeOf directory ++ q) = some .directory) :
    d.Along directory (d.placeOf directory ++ q) ∨
      ∃ path text, (path, text) ∈ files ∧ q <+: Path.parts path
  outer (q : Location) (away : ¬ d.placeOf directory <+: q) :
    e.entry? q = d.entry? q ∨
      d.Along directory q ∧ d.entry? q = none ∧ e.entry? q = some .directory

namespace Machine

variable {α β : Type} {m m' : Machine} {x : ExceptT Failure (StateM Machine) α}
  {f : α → ExceptT Failure (StateM Machine) β} {e : Failure} {y : β}

/-- A failure ends a sequence; otherwise the rest runs on the machine that is left. -/
theorem run_bind_eq (x : ExceptT Failure (StateM Machine) α)
    (f : α → ExceptT Failure (StateM Machine) β) (m : Machine) :
    (x >>= f).run m =
      match x.run m with
      | (.ok a, m') => (f a).run m'
      | (.error e, m') => (.error e, m') := by
  show StateT.bind x.run (ExceptT.bindCont f) m = _
  unfold StateT.bind
  show (match x.run m with | (r, m') => ExceptT.bindCont f r m') = _
  rcases x.run m with ⟨_ | a, m'⟩ <;> rfl

theorem run_lift (x : StateM Machine α) (m : Machine) :
    (liftM x : ExceptT Failure (StateM Machine) α).run m = (.ok (x m).1, (x m).2) := rfl

/-- A sequence succeeds only if both parts do. -/
theorem run_bind_eq_ok (run : (x >>= f).run m = (.ok y, m')) :
    ∃ a n, x.run m = (.ok a, n) ∧ (f a).run n = (.ok y, m') := by
  rw [run_bind_eq] at run
  split at run
  · next a n first => exact ⟨a, n, first, run⟩
  · cases run

/-- A sequence fails in its first part or in its second. -/
theorem run_bind_eq_error (run : (x >>= f).run m = (.error e, m')) :
    x.run m = (.error e, m') ∨ ∃ a n, x.run m = (.ok a, n) ∧ (f a).run n = (.error e, m') := by
  rw [run_bind_eq] at run
  split at run
  · next a n first => exact .inr ⟨a, n, first, run⟩
  · next fault n first =>
    cases run
    exact .inl first

variable (programs : Programs) {directory path text : String} {files : List (String × String)}

/-! ### Reading -/

/-- Questions that leave the machine alone leave it alone together. -/
theorem mapM_reads {f : α → StateM Machine β} {g : α → β} (reads : ∀ a, f a m = (g a, m))
    (as : List α) : as.mapM f m = (as.map g, m) := by
  induction as with
  | nil => rfl
  | cons a rest ih =>
    rw [List.mapM_cons, List.map_cons]
    show (match f a m with | (b, n) => (rest.mapM f >>= fun bs => pure (b :: bs)) n) = _
    rw [reads]
    show (match rest.mapM f m with | (bs, n) => (g a :: bs, n)) = _
    rw [ih]

/-- Looking for sources changes nothing. -/
theorem run_sourcesIn (m : Machine) (directory : String) (bundles : List Bundle) :
    (host programs).sourcesIn directory bundles m = (m.disk.sources directory bundles, m) := by
  have texts := mapM_reads (m := m) (f := fun b : Bundle => (do
      let text ← (host programs).readText (Path.join directory b.file)
      return (b.file, text.mapError fun e => Failure.unreadable (Path.join directory b.file) e.message)))
    (fun _ => rfl) bundles
  unfold Host.sourcesIn
  show StateT.bind _ _ m = _
  unfold StateT.bind
  rw [texts]
  rfl

/-! ### Writing -/

theorem making_eq_ok (run : (ExceptT.mk do
      return Host.writing path (← (host programs).makeDirectories path) :
        ExceptT Failure (StateM Machine) Unit).run m = (.ok (), m')) :
    m.disk.makeDirectories path = (.ok (), m'.disk) ∧ m'.printed = m.printed := by
  replace run : (Host.writing path (m.disk.makeDirectories path).1,
      { m with disk := (m.disk.makeDirectories path).2 }) = (.ok (), m') := run
  rcases made : m.disk.makeDirectories path with ⟨_ | _, d⟩ <;> rw [made] at run <;> cases run
  exact ⟨rfl, rfl⟩

theorem writing_eq_ok (run : (ExceptT.mk do
      return Host.writing path (← (host programs).writeText path text) :
        ExceptT Failure (StateM Machine) Unit).run m = (.ok (), m')) :
    m.disk.writeText path text = .ok m'.disk ∧ m'.printed = m.printed := by
  replace run : (Host.writing path (change (·.writeText path text) m).1,
      (change (·.writeText path text) m).2) = (.ok (), m') := run
  unfold change at run
  dsimp only at run
  cases written : m.disk.writeText path text <;> rw [written] at run <;> cases run
  exact ⟨rfl, rfl⟩

/-- A reset that succeeds has removed the directory or found none, and made it. -/
theorem resetDirectory_eq_ok (run : ((host programs).resetDirectory directory).run m = (.ok (), m')) :
    ∃ result d, m.disk.removeTree directory = (result, d) ∧
      (result = .ok () ∨ result = .error .notFound) ∧
      d.makeDirectories directory = (.ok (), m'.disk) ∧ m'.printed = m.printed := by
  unfold Host.resetDirectory at run
  obtain ⟨result, n, removed, run⟩ := run_bind_eq_ok run
  obtain ⟨rfl, rfl⟩ : (m.disk.removeTree directory).1 = result ∧
      { m with disk := (m.disk.removeTree directory).2 } = n := by
    exact ⟨Except.ok.inj (Prod.mk.inj removed).1, (Prod.mk.inj removed).2⟩
  dsimp only at run
  split at run
  · next ok =>
    obtain ⟨made, printed⟩ := making_eq_ok programs run
    exact ⟨_, _, Prod.ext ok rfl, .inl rfl, made, printed⟩
  · next none =>
    obtain ⟨made, printed⟩ := making_eq_ok programs run
    exact ⟨_, _, Prod.ext none rfl, .inr rfl, made, printed⟩
  · obtain ⟨_, _, thrown, -⟩ := run_bind_eq_ok run
    cases thrown

/-- A file that was written is on the disk, and only its directories are new besides. -/
theorem writeFile_eq_ok {whole : String}
    (run : ((host programs).writeFile directory path text).run m = (.ok whole, m')) :
    ∃ d, Disk.Grown (m.disk.Along (Path.join directory path)) m.disk d ∧
      d.writeText (Path.join directory path) text = .ok m'.disk ∧ m'.printed = m.printed ∧
      whole = Path.join directory path := by
  unfold Host.writeFile at run
  dsimp only at run
  split at run
  · obtain ⟨_, n, written, run⟩ := run_bind_eq_ok run
    obtain ⟨written, printed⟩ := writing_eq_ok programs written
    cases run
    exact ⟨_, .refl _, written, printed, rfl⟩
  · next above parent =>
    obtain ⟨_, n, made, run⟩ := run_bind_eq_ok run
    obtain ⟨_, n', written, run⟩ := run_bind_eq_ok run
    obtain ⟨made, printed⟩ := making_eq_ok programs made
    obtain ⟨written, printed'⟩ := writing_eq_ok programs written
    cases run
    have grown := m.disk.makeDirectories_grown above
    rw [made] at grown
    exact ⟨_, grown.mono fun _ => Disk.Along.of_parent? parent, written, printed'.trans printed, rfl⟩

end Machine

namespace Disk

variable {d e f g : Disk} {directory path text : String} {files : List (String × String)}

/-- The empty path is not found, but it leads to the home directory. -/
theorem Sound.ne_empty (sound : d.Sound)
    (known : d.locate directory = .error .notFound → d.entry? (d.placeOf directory) = none) :
    directory ≠ "" := by
  rintro rfl
  have lookup : d.locate "" = .error .notFound := by
    unfold locate
    rw [show checkPath "" = .error .notFound by decide]
    rfl
  have home : d.placeOf "" = d.home := by
    unfold placeOf start
    rw [if_neg (by decide)]
    rfl
  exact nomatch (home ▸ known lookup).symm.trans sound.2

/-- An output directory that is emptied and made again holds nothing. -/
theorem holds_nil (sound : d.Sound)
    (known : d.locate directory = .error .notFound → d.entry? (d.placeOf directory) = none)
    {result : Except DiskFault Unit} (removed : d.removeTree directory = (result, e))
    (fine : result = .ok () ∨ result = .error .notFound)
    (made : e.makeDirectories directory = (.ok (), f)) : d.Holds f directory [] := by
  have emptied := removeTree_emptied sound known removed fine
  have some := sound.ne_empty known
  have grown := makeDirectories_grown e directory
  rw [made] at grown
  have way := way_of_makeDirectories some made
  have home := grown.home.trans emptied.home
  refine ⟨home, ?_, fun q text => ?_, fun q there => ?_, fun q away => ?_⟩
  · exact way _ ((along_congr home).2 (along_placeOf d directory))
  · rw [grown.file_iff]
    refine iff_of_false (fun there => ?_) (by simp)
    by_cases own : q = []
    · rw [own, List.append_nil] at there
      rcases emptied.itself with none | made <;> simp_all
    · exact nomatch (emptied.inside q own).symm.trans there
  · left
    rcases grown.entry (d.placeOf directory ++ q) with same | ⟨along, -⟩
    · by_cases own : q = []
      · rw [own, List.append_nil]
        exact along_placeOf d directory
      · exact nomatch (same.trans (emptied.inside q own)).symm.trans there
    · exact (along_congr emptied.home).1 along
  · rcases grown.entry q with same | ⟨along, none, there⟩
    · exact .inl (same.trans (emptied.outside q away))
    · exact .inr ⟨(along_congr emptied.home).1 along, emptied.outside q away ▸ none, there⟩

/-- On the way to a file below the directory directories come about in it on the way to the file
alone. -/
theorem Holds.inner_of_grown (holds : d.Holds e directory files) (relative : Path.isAbsolute path = false)
    (down : ".." ∉ Path.names path) (grown : Grown (e.Along (Path.join directory path)) e f) (q : List String)
    (there : f.entry? (d.placeOf directory ++ q) = some .directory) :
    d.Along directory (d.placeOf directory ++ q) ∨
      (∃ path text, (path, text) ∈ files ∧ q <+: Path.parts path) ∨ q <+: Path.parts path := by
  rcases grown.entry (d.placeOf directory ++ q) with same | ⟨along, -⟩
  · exact (holds.inner q (same ▸ there)).imp_right .inl
  · rcases Along.of_join relative down ((along_congr holds.home).1 along) with along | ⟨q', first, same⟩
    · exact .inl along
    · obtain rfl := List.append_cancel_left same
      exact .inr (.inr first)

/-- On the way to a file below the directory nothing changes outside of it but on the way to the
directory. -/
theorem Holds.outer_of_grown (holds : d.Holds e directory files) (relative : Path.isAbsolute path = false)
    (down : ".." ∉ Path.names path) (grown : Grown (e.Along (Path.join directory path)) e f) (q : Location)
    (away : ¬d.placeOf directory <+: q) :
    f.entry? q = d.entry? q ∨ d.Along directory q ∧ d.entry? q = none ∧ f.entry? q = some .directory := by
  rcases grown.entry q with same | ⟨along, none, there⟩
  · rw [same]
    exact holds.outer q away
  · rcases Along.of_join relative down ((along_congr holds.home).1 along) with along | ⟨q', -, rfl⟩
    · rcases holds.outer q away with same | ⟨-, -, there'⟩
      · exact .inr ⟨along, same ▸ none, there⟩
      · exact nomatch none.symm.trans there'
    · exact absurd (List.prefix_append _ _) away

/-- The files with one more, where it has a place of its own. -/
theorem exists_mem_concat_iff (fresh : Path.parts path ∉ files.map fun p => Path.parts p.1)
    (q : List String) (t : String) :
    (∃ p, (p, t) ∈ files ++ [(path, text)] ∧ Path.parts p = q) ↔
      if q = Path.parts path then t = text else ∃ p, (p, t) ∈ files ∧ Path.parts p = q := by
  have old {p : String} (mem : (p, t) ∈ files) : Path.parts p ≠ Path.parts path :=
    fun same => fresh (List.mem_map.2 ⟨_, mem, same⟩)
  split
  · next own =>
    subst own
    constructor
    · rintro ⟨p, mem, same⟩
      rcases List.mem_append.1 mem with mem | mem
      · exact absurd same (old mem)
      · exact (Prod.mk.inj (List.mem_singleton.1 mem)).2
    · rintro rfl
      exact ⟨path, by simp, rfl⟩
  · next other =>
    refine exists_congr fun p => and_congr_left fun same => ?_
    have elsewhere : p ≠ path := fun is => other (same ▸ congrArg _ is)
    simp [elsewhere]

/-- A file that is written below the directory is added to those it holds. -/
theorem Holds.write (holds : d.Holds e directory files) (relative : Path.isAbsolute path = false)
    (down : ".." ∉ Path.names path)
    (fresh : Path.parts path ∉ files.map fun p => Path.parts p.1)
    (grown : Grown (e.Along (Path.join directory path)) e f)
    (written : f.writeText (Path.join directory path) text = .ok g) :
    d.Holds g directory (files ++ [(path, text)]) := by
  obtain ⟨some, free, rfl⟩ := writeText_eq_ok written
  have home := grown.home.trans holds.home
  rw [placeOf_congr home, placeOf_join relative down] at some free ⊢
  have itself := grown.directory holds.itself
  -- A file is never written over the directory itself.
  have below : Path.parts path ≠ [] := by
    intro none
    rw [none, List.append_nil] at free
    exact free itself
  have put := f.entry?_put (.file text) some
  refine ⟨home, ?_, fun q t => ?_, fun q there => ?_, fun q away => ?_⟩
  · rw [put, if_neg (by simpa using below), itself]
  · rw [put, exists_mem_concat_iff fresh]
    simp only [List.append_cancel_left_eq]
    split
    · simp [eq_comm]
    · rw [grown.file_iff, holds.file]
  · rw [put] at there
    split at there
    · cases there
    · rcases holds.inner_of_grown relative down grown q there with along | ⟨p, t, mem, first⟩ | first
      · exact .inl along
      · exact .inr ⟨p, t, List.mem_append_left _ mem, first⟩
      · exact .inr ⟨path, text, by simp, first⟩
  · rw [put, if_neg (by rintro rfl; exact away (List.prefix_append _ _))]
    exact holds.outer_of_grown relative down grown q away

end Disk

namespace Host

variable {programs : Programs} {m m' : Machine} {d : Disk} {directory : String}

/-- Files that are written one after the other are added to those the directory holds. -/
theorem writeFiles_holds {done files : List (String × String)} {paths : List String}
    (holds : d.Holds m.disk directory done)
    (down : ∀ p ∈ files, Path.isAbsolute p.1 = false ∧ ".." ∉ Path.names p.1)
    (distinct : ((done ++ files).map fun p => Path.parts p.1).Nodup)
    (run : ((Machine.host programs).writeFiles directory files).run m = (.ok paths, m')) :
    d.Holds m'.disk directory (done ++ files) ∧ m'.printed = m.printed ∧
      paths = files.map fun p => Path.join directory p.1 := by
  induction files generalizing m done paths with
  | nil =>
    cases run
    exact ⟨(List.append_nil done).symm ▸ holds, rfl, rfl⟩
  | cons p rest ih =>
    obtain ⟨path, text⟩ := p
    obtain ⟨_, n, first, run⟩ := Machine.run_bind_eq_ok run
    obtain ⟨_, n', more, run⟩ := Machine.run_bind_eq_ok run
    cases run
    obtain ⟨e, grown, written, printed, rfl⟩ := Machine.writeFile_eq_ok programs first
    obtain ⟨relative, below⟩ := down _ List.mem_cons_self
    rw [List.append_cons] at distinct ⊢
    have fresh : Path.parts path ∉ done.map fun p => Path.parts p.1 := by
      rw [List.map_append, List.map_append] at distinct
      have apart := (List.nodup_append.1 (List.nodup_append.1 distinct).1).2.2
      exact fun mem => apart _ mem _ (by simp) rfl
    have holds := holds.write relative below fresh grown written
    obtain ⟨holds, printed', rfl⟩ :=
      ih holds (fun p mem => down p (List.mem_cons_of_mem _ mem)) distinct more
    exact ⟨holds, printed'.trans printed, rfl⟩

/-! ### Failures -/

/-- Whatever fails here, fails in writing. -/
def OnlyWrites {α : Type} (x : ExceptT Failure (StateM Machine) α) : Prop :=
  ∀ m e m', x.run m = (.error e, m') → ∃ path reason, e = .unwritable path reason

/-- Two steps that only write, one behind the other. -/
theorem OnlyWrites.bind {α β : Type} {x : ExceptT Failure (StateM Machine) α}
    {f : α → ExceptT Failure (StateM Machine) β} (first : OnlyWrites x) (rest : ∀ a, OnlyWrites (f a)) :
    OnlyWrites (x >>= f) := by
  intro m e m' run
  rcases Machine.run_bind_eq_error run with failed | ⟨a, n, -, failed⟩
  · exact first m e m' failed
  · exact rest a n e m' failed

theorem OnlyWrites.pure {α : Type} (a : α) :
    OnlyWrites (Pure.pure a : ExceptT Failure (StateM Machine) α) :=
  fun _ _ _ run => nomatch (Prod.mk.inj run).1

theorem writing_onlyWrites (path : String) (ask : StateM Machine (Except DiskFault Unit)) :
    OnlyWrites (ExceptT.mk do return writing path (← ask)) := by
  intro m e m' run
  replace run : writing path (ask m).1 = .error e := (Prod.mk.inj run).1
  cases result : (ask m).1 with
  | ok => rw [result] at run; cases run
  | error fault =>
    rw [result] at run
    cases run
    exact ⟨_, _, rfl⟩

theorem resetDirectory_onlyWrites (programs : Programs) (directory : String) :
    OnlyWrites ((Machine.host programs).resetDirectory directory) := by
  unfold resetDirectory
  refine OnlyWrites.bind (fun m e m' run => nomatch (Prod.mk.inj run).1) fun result => ?_
  dsimp only
  split
  · exact writing_onlyWrites _ _
  · exact writing_onlyWrites _ _
  · refine OnlyWrites.bind (fun m e m' run => ?_) fun _ => writing_onlyWrites _ _
    exact ⟨_, _, (Except.error.inj (Prod.mk.inj run).1).symm⟩

theorem writeFile_onlyWrites (programs : Programs) (directory path text : String) :
    OnlyWrites ((Machine.host programs).writeFile directory path text) := by
  have put := (writing_onlyWrites (Path.join directory path)
    ((Machine.host programs).writeText (Path.join directory path) text)).bind
      fun _ => .pure (Path.join directory path)
  unfold writeFile
  dsimp only
  split
  · exact put
  · exact (writing_onlyWrites _ _).bind fun _ => put

theorem writeFiles_onlyWrites (programs : Programs) (directory : String) (files : List (String × String)) :
    OnlyWrites ((Machine.host programs).writeFiles directory files) := by
  induction files with
  | nil => exact .pure []
  | cons p rest ih =>
    exact (writeFile_onlyWrites programs directory _ _).bind fun _ => ih.bind fun _ => .pure _

/-- All of the output only writes, if no other programs run. -/
theorem writeOutput_onlyWrites (programs : Programs) {o : OutputSettings} (alone : o.postProcessors = [])
    (s : Synthesis) : OnlyWrites ((Machine.host programs).writeOutput o s) := by
  unfold writeOutput
  rw [alone]
  exact (resetDirectory_onlyWrites programs _).bind fun _ =>
    (writeFiles_onlyWrites programs _ _).bind fun _ => (OnlyWrites.pure ()).bind fun _ => .pure _

/-! ### Whole runs -/

/-- The paths of files go down from the directory they are seen from, each to a place of its own. -/
@[mk_iff]
structure Apart (files : List (String × String)) : Prop where
  down : ∀ p ∈ files, Path.isAbsolute p.1 = false ∧ ".." ∉ Path.names p.1
  distinct : (files.map fun p => Path.parts p.1).Nodup

instance (files : List (String × String)) : Decidable (Apart files) :=
  decidable_of_iff _ (apart_iff files).symm

/-- A run reads all bundles, synthesizes, and only then writes. -/
theorem run_generate (programs : Programs) (m : Machine) (catalog : Catalog) (sourceDirectory : String)
    (o : OutputSettings) (options : SourceOptions) :
    ((Machine.host programs).generate catalog sourceDirectory o options).run m =
      match (m.disk.sources sourceDirectory catalog.bundles).synthesize options catalog with
      | .error e => (.error e, m)
      | .ok s => ((Machine.host programs).writeOutput o s).run m := by
  have read := Machine.run_sourcesIn programs m sourceDirectory catalog.bundles
  unfold generate
  rw [Machine.run_bind_eq]
  rw [Machine.run_lift, read]
  dsimp only
  rw [Machine.run_bind_eq]
  cases (m.disk.sources sourceDirectory catalog.bundles).synthesize options catalog <;> rfl

/-- What is on the disk when the output was written. -/
theorem writeOutput_holds {programs : Programs} {m m' : Machine} {o : OutputSettings} {s : Synthesis}
    (alone : o.postProcessors = []) {report : GenerationReport}
    (run : ((Machine.host programs).writeOutput o s).run m = (.ok report, m'))
    (sound : m.disk.Sound)
    (known : m.disk.locate o.directory = .error .notFound →
      m.disk.entry? (m.disk.placeOf o.directory) = none)
    (apart : Apart (s.render o)) :
    m.disk.Holds m'.disk o.directory (s.render o) ∧ m'.printed = m.printed ∧
      report = ⟨(s.render o).map fun p => Path.join o.directory p.1, s.table.size, s.identifiers⟩ := by
  unfold writeOutput at run
  rw [alone] at run
  obtain ⟨_, n, reset, run⟩ := Machine.run_bind_eq_ok run
  obtain ⟨_, n', writes, run⟩ := Machine.run_bind_eq_ok run
  obtain ⟨_, _, post, run⟩ := Machine.run_bind_eq_ok run
  cases post
  cases run
  obtain ⟨result, e, removed, fine, made, printed⟩ := Machine.resetDirectory_eq_ok programs reset
  have holds := Disk.holds_nil sound known removed fine made
  obtain ⟨holds, printed', rfl⟩ := writeFiles_holds holds apart.down apart.distinct writes
  exact ⟨holds, printed'.trans printed, rfl⟩

/-- A run that cannot read, parse, classify or synthesize leaves the machine as it was, and any
failure but one of writing is of this kind. A run that succeeds leaves the rendered files in the
output directory and nothing else, unless the directory was there and not found. -/
theorem generate_leaves (programs : Programs) (m : Machine) (catalog : Catalog) (sourceDirectory : String)
    {o : OutputSettings} (alone : o.postProcessors = []) (options : SourceOptions) :
    let synthesis := (m.disk.sources sourceDirectory catalog.bundles).synthesize options catalog
    let run := ((Machine.host programs).generate catalog sourceDirectory o options).run m
    (∀ e, synthesis = .error e → run = (.error e, m)) ∧
    (∀ e m', run = (.error e, m') →
      synthesis = .error e ∧ m' = m ∨ ∃ path reason, e = .unwritable path reason) ∧
    ∀ report m', run = (.ok report, m') → ∃ s, synthesis = .ok s ∧
      (m.disk.Sound →
        (m.disk.locate o.directory = .error .notFound →
          m.disk.entry? (m.disk.placeOf o.directory) = none) →
        Apart (s.render o) →
        m.disk.Holds m'.disk o.directory (s.render o) ∧ m'.printed = m.printed ∧
          report = ⟨(s.render o).map fun p => Path.join o.directory p.1, s.table.size, s.identifiers⟩) := by
  intro synthesis run
  have whole : run = match synthesis with
      | .error e => (.error e, m)
      | .ok s => ((Machine.host programs).writeOutput o s).run m :=
    run_generate programs m catalog sourceDirectory o options
  cases outcome : synthesis with
  | error fault =>
    rw [outcome] at whole
    refine ⟨fun e failed => ?_, fun e m' failed => .inl ?_, fun report m' succeeded => ?_⟩
    · cases failed
      exact whole
    · cases whole.symm.trans failed
      exact ⟨rfl, rfl⟩
    · cases whole.symm.trans succeeded
  | ok s =>
    rw [outcome] at whole
    refine ⟨nofun, fun e m' failed => .inr ?_, fun report m' succeeded => ⟨s, rfl, ?_⟩⟩
    · exact writeOutput_onlyWrites programs alone s m e m' (whole.symm.trans failed)
    · exact writeOutput_holds alone (whole.symm.trans succeeded)

/-- A machine with bundle files and the output of an earlier run. -/
def usedMachine : Machine where
  disk := {
    entries := [
      (["w"], .directory),
      (["w", "libs"], .directory),
      (["w", "libs", "lib.es5.d.ts"], .file "declare var a: number;"),
      (["w", "libs", "lib.d.ts"], .file ""),
      (["w", "out"], .directory),
      (["w", "out", "stale.ts"], .file "old")]
    home := ["w"] }

/-- A run on this machine. -/
def runUsed (o : OutputSettings) : Except Failure GenerationReport × Machine :=
  ((Machine.host fun _ _ m => (.ok (), m)).generate (.ofPairs [("es5", "lib.es5.d.ts")]) "libs" o).run
    usedMachine

/-- A run into the directory of an earlier one. -/
theorem generate_leaves_used : ∃ (s : Synthesis) (report : GenerationReport) (m' : Machine),
    runUsed ⟨"out", none, {}, []⟩ = (.ok report, m') ∧
      usedMachine.disk.Holds m'.disk "out" (s.render ⟨"out", none, {}, []⟩) := by
  have ok : (runUsed ⟨"out", none, {}, []⟩).1.isOk = true := by decide +kernel
  have apart : ((usedMachine.disk.sources "libs" (Catalog.ofPairs [("es5", "lib.es5.d.ts")]).bundles).synthesize
      {} (.ofPairs [("es5", "lib.es5.d.ts")])).toOption.all
        (fun s : Synthesis => decide (Apart (s.render ⟨"out", none, {}, []⟩))) = true := by decide +kernel
  rcases run : runUsed ⟨"out", none, {}, []⟩ with ⟨e | report, m'⟩
  · rw [run] at ok
    cases ok
  · obtain ⟨s, synthesis, leaves⟩ := (generate_leaves (fun _ _ m => (.ok (), m)) usedMachine
      (.ofPairs [("es5", "lib.es5.d.ts")]) "libs" (o := ⟨"out", none, {}, []⟩) rfl {}).2.2 report m' run
    rw [synthesis] at apart
    have found : usedMachine.disk.locate "out" ≠ .error .notFound := by decide +kernel
    exact ⟨s, report, m', rfl, (leaves (by decide +kernel) (fun none => absurd none found)
      (of_decide_eq_true apart)).1⟩

/-- A directory that is there but is not found, for its path comes by a place where nothing is, keeps
what it holds. -/
theorem stale_kept : usedMachine.disk.Sound ∧ ∃ (report : GenerationReport) (m' : Machine),
    runUsed ⟨"missing/../out", none, {}, []⟩ = (.ok report, m') ∧
      report.files = ["base-config.ts", "es5.ts", "lib.ts", "index.ts", "lib.types.ts"].map
        (Path.join "missing/../out" ·) ∧
      Disk.entry? m'.disk (usedMachine.disk.placeOf "missing/../out" ++ ["stale.ts"]) = some (.file "old") := by
  have ends : (runUsed ⟨"missing/../out", none, {}, []⟩).1.toOption.map (·.files) =
      some (["base-config.ts", "es5.ts", "lib.ts", "index.ts", "lib.types.ts"].map
        (Path.join "missing/../out" ·)) := by decide +kernel
  have kept : Disk.entry? (runUsed ⟨"missing/../out", none, {}, []⟩).2.disk
      (usedMachine.disk.placeOf "missing/../out" ++ ["stale.ts"]) = some (.file "old") := by decide +kernel
  rcases run : runUsed ⟨"missing/../out", none, {}, []⟩ with ⟨e | report, m'⟩
  · rw [run] at ends
    cases ends
  · rw [run] at ends kept
    exact ⟨by decide +kernel, report, m', rfl, Option.some.inj ends, kept⟩

end Host

end ImplicitGlobals
