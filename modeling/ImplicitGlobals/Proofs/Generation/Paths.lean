import ImplicitGlobals.Catalog.Text
import ImplicitGlobals.Proofs.Bundle.Synthesis
import ImplicitGlobals.Proofs.Generation.Output

/-!
# The places of generated files

The file of a bundle is named after it, and names are free. The three files that a run adds are
named without a look at the catalog, so a bundle may be called like one of them, and two bundles
may name one place in two ways. Files are written in order, and of those that are put at one place
the last one stays: the index and the union of names survive any bundle, the bundle's own file does
not survive them.
-/

namespace ImplicitGlobals

/-! ### Files that are written over others -/

/-- `e` is `d` after files are put at their places one after the other. Of those with one place the
last one stays, and so does a file that was there and whose place is none of theirs. -/
structure Disk.Overwritten (place : String → Location) (files : List (String × String)) (d e : Disk) :
    Prop where
  kept : ∀ q text, (∀ p ∈ files, place p.1 ≠ q) → d.entry? q = some (.file text) →
    e.entry? q = some (.file text)
  last : ∀ before path text behind, files = before ++ (path, text) :: behind →
    (∀ p ∈ behind, place p.1 ≠ place path) → e.entry? (place path) = some (.file text)

namespace Disk.Overwritten

variable {place : String → Location} {files : List (String × String)} {d e f : Disk} {path text : String}

theorem nil (place : String → Location) (d : Disk) : Overwritten place [] d d where
  kept _ _ _ there := there
  last before path text behind split := by simp at split

/-- One file is put at its place, and after that the others at theirs. -/
theorem cons (put : e.entry? (place path) = some (.file text))
    (others : ∀ q t, place path ≠ q → d.entry? q = some (.file t) → e.entry? q = some (.file t))
    (rest : Overwritten place files e f) : Overwritten place ((path, text) :: files) d f where
  kept q t away there := by
    obtain ⟨here, behind⟩ := List.forall_mem_cons.1 away
    exact rest.kept q t behind (others q t here there)
  last before path' text' behind split away := by
    rcases List.cons_eq_append_iff.1 split with ⟨-, first⟩ | ⟨more, -, later⟩
    · obtain ⟨⟨rfl, rfl⟩, rfl⟩ : (path' = path ∧ text' = text) ∧ behind = files := by simpa using first
      exact rest.kept _ _ away put
    · exact rest.last more path' text' behind later away

end Disk.Overwritten

/-- Removing a tree does not lead elsewhere. -/
theorem Disk.home_removeTree (d : Disk) (path : String) : (d.removeTree path).2.home = d.home := by
  unfold removeTree
  split
  · rfl
  · split
    · rfl
    · dsimp only
      split
      · next f removed =>
        obtain ⟨-, rfl⟩ := removeDirectory_eq_ok removed
        rfl
      · rfl
      · rfl

namespace Host

variable {programs : Programs} {m m' : Machine} {directory : String} {place : String → Location}

/-- By induction on the files that are still to be written. -/
theorem writeFiles_overwritten {files : List (String × String)} {paths : List String}
    (leads : ∀ path, m.disk.placeOf (Path.join directory path) = place path)
    (run : ((Machine.host programs).writeFiles directory files).run m = (.ok paths, m')) :
    Disk.Overwritten place files m.disk m'.disk := by
  induction files generalizing m paths with
  | nil =>
    cases run
    exact .nil place _
  | cons p rest ih =>
    obtain ⟨path, text⟩ := p
    obtain ⟨_, n, first, run⟩ := Machine.run_bind_eq_ok run
    obtain ⟨_, n', more, run⟩ := Machine.run_bind_eq_ok run
    cases run
    obtain ⟨e, grown, written, -, -⟩ := Machine.writeFile_eq_ok programs first
    obtain ⟨some, -, put⟩ := Disk.writeText_eq_ok written
    rw [Disk.placeOf_congr grown.home, leads] at some put
    have home : n.disk.home = m.disk.home := by
      rw [put]
      exact grown.home
    have entry (q : Location) :
        n.disk.entry? q = if q = place path then Option.some (.file text) else e.entry? q := by
      rw [put, e.entry?_put _ some]
    refine .cons (by rw [entry, if_pos rfl]) (fun q t away there => ?_)
      (ih (fun path => (Disk.placeOf_congr home _).trans (leads path)) more)
    rw [entry, if_neg (Ne.symm away)]
    exact (grown.file_iff q t).2 there

/-- The output directory is emptied, and the files are written into it. -/
theorem writeOutput_overwritten {o : OutputSettings} {s : Synthesis} {report : GenerationReport}
    (alone : o.postProcessors = [])
    (run : ((Machine.host programs).writeOutput o s).run m = (.ok report, m')) :
    ∃ d, Disk.Overwritten (fun path => m.disk.placeOf (Path.join o.directory path)) (s.render o) d m'.disk := by
  unfold writeOutput at run
  rw [alone] at run
  obtain ⟨_, n, reset, run⟩ := Machine.run_bind_eq_ok run
  obtain ⟨_, n', writes, run⟩ := Machine.run_bind_eq_ok run
  obtain ⟨_, _, post, run⟩ := Machine.run_bind_eq_ok run
  cases post
  cases run
  obtain ⟨result, e, removed, -, made, -⟩ := Machine.resetDirectory_eq_ok programs reset
  have emptied := m.disk.home_removeTree o.directory
  have grown := e.makeDirectories_grown o.directory
  rw [removed] at emptied
  rw [made] at grown
  exact ⟨_, writeFiles_overwritten (fun path => Disk.placeOf_congr (grown.home.trans emptied) _) writes⟩

end Host

/-! ### Where the files are put -/

namespace Synthesis

variable {s : Synthesis} {o : OutputSettings}

/-- The places of the generated files, in the order of writing. -/
def places (s : Synthesis) (o : OutputSettings) (d : Disk) : List Location :=
  (s.render o).map fun p => d.placeOf (Path.join o.directory p.1)

/-- The places are distinct if those of the three files that are added are, those of the bundles are, and
no bundle has one of the three. -/
theorem nodup_places (s : Synthesis) (o : OutputSettings) (d : Disk) :
    let place (path : String) : Location := d.placeOf (Path.join o.directory path)
    (s.places o d).Nodup ↔
      [place o.style.baseFile, place Aggregate.indexFile, place o.typesPath].Nodup ∧
      (s.table.names.map fun name => place (name ++ ".ts")).Nodup ∧
      ∀ name ∈ s.table.names,
        place (name ++ ".ts") ∉ [place o.style.baseFile, place Aggregate.indexFile, place o.typesPath] := by
  intro place
  have order : (s.places o d).Perm ([place o.style.baseFile, place Aggregate.indexFile, place o.typesPath] ++
      s.table.names.map fun name => place (name ++ ".ts")) := by
    have listed : s.places o d = place o.style.baseFile :: ((s.table.names.map fun name => place (name ++ ".ts")) ++
        [place Aggregate.indexFile, place o.typesPath]) := by
      simp [places, render, place, ModuleTable.names, BundleModule.fileName, BundleModule.name]
    rw [listed]
    exact List.perm_append_comm.cons _
  rw [order.nodup_iff, List.nodup_append]
  refine and_congr_right fun _ => and_congr_right fun _ => ?_
  constructor
  · intro apart name mem among
    exact apart _ among _ (List.mem_map_of_mem mem) rfl
  · rintro apart _ among _ mapped rfl
    obtain ⟨name, mem, is⟩ := List.mem_map.1 mapped
    exact apart name mem (is ▸ among)

/-- Where all paths go down from the directory, that is what sets the files apart. -/
theorem nodup_places_iff_apart (down : ∀ p ∈ s.render o, Path.isAbsolute p.1 = false ∧ ".." ∉ Path.names p.1)
    (d : Disk) : (s.places o d).Nodup ↔ Host.Apart (s.render o) := by
  have same : s.places o d = ((s.render o).map fun p => Path.parts p.1).map (d.placeOf o.directory ++ ·) := by
    rw [List.map_map]
    refine List.map_congr_left fun p mem => ?_
    exact Disk.placeOf_join (down p mem).1 (down p mem).2
  rw [same, List.Nodup, List.pairwise_map]
  simp only [ne_eq, List.append_cancel_left_eq]
  exact ⟨fun distinct => ⟨down, distinct⟩, fun apart => apart.distinct⟩

-- One place may be spelt in two ways.
example : let d : Disk := { entries := [(["w"], .directory)], home := ["w"] }
    d.placeOf "out/a//b.ts" = d.placeOf "out/a/b.ts" ∧
      d.placeOf "out/./index.ts" = d.placeOf "out/index.ts" := by decide +kernel

/-- The file of a bundle without slashes in its name lies in the directory itself. -/
theorem placeOf_of_plain {name : String} (plain : '/' ∉ name.toList) (d : Disk) (directory : String) :
    d.placeOf (Path.join directory (name ++ ".ts")) = d.placeOf directory ++ [name ++ ".ts"] := by
  have long : 3 ≤ (name ++ ".ts").length := by
    rw [String.length_append]
    exact Nat.le_add_left 3 name.length
  refine Disk.placeOf_join_of_plain (by simpa using plain) fun mem => ?_
  have short : ∀ dots ∈ ["", ".", ".."], dots.length < 3 := by decide
  exact absurd (short _ mem) (Nat.not_lt.2 long)

/-! ### What is left of the files -/

section

variable {place : String → Location} {d e : Disk} (left : Disk.Overwritten place (s.render o) d e)
include left

theorem entry?_types : e.entry? (place o.typesPath) = some (.file (s.aggregate.typesText o.style)) := by
  refine left.last _ _ _ [] (List.append_cons ..) ?_
  simp

theorem entry?_index (types : place o.typesPath ≠ place Aggregate.indexFile) :
    e.entry? (place Aggregate.indexFile) = some (.file (s.aggregate.indexText o.style)) := by
  refine left.last _ _ _ [(o.typesPath, s.aggregate.typesText o.style)] rfl ?_
  simpa using types

theorem entry?_base (index : place Aggregate.indexFile ≠ place o.style.baseFile)
    (types : place o.typesPath ≠ place o.style.baseFile)
    (bundles : ∀ name ∈ s.table.names, place (name ++ ".ts") ≠ place o.style.baseFile) :
    e.entry? (place o.style.baseFile) = some (.file o.style.baseText) := by
  refine left.last [] _ _ _ rfl fun p mem => ?_
  rcases List.mem_append.1 mem with mem | mem
  · obtain ⟨m, among, rfl⟩ := List.mem_map.1 mem
    exact bundles m.name (List.mem_map_of_mem among)
  · rcases List.mem_cons.1 mem with rfl | mem
    · exact index
    · rw [List.mem_singleton.1 mem]
      exact types

theorem entry?_of_nodup (distinct : ((s.render o).map fun p => place p.1).Nodup) {p : String × String}
    (mem : p ∈ s.render o) : e.entry? (place p.1) = some (.file p.2) := by
  obtain ⟨before, behind, split⟩ := List.append_of_mem mem
  refine left.last before p.1 p.2 behind split fun q later same => ?_
  rw [split, List.map_append, List.map_cons] at distinct
  have fresh := (List.nodup_cons.1 (List.nodup_append.1 distinct).2.1).1
  exact fresh (List.mem_map.2 ⟨q, later, same⟩)

end

end Synthesis

namespace Host

/-- By default the generated files have places of their own exactly if those of the bundles are
distinct and none of them is that of `base-config.ts`, `index.ts` or `lib.types.ts`; where no name
has a slash in it, exactly if no bundle is called like one of these; and where all paths go down
from the directory, exactly if they are apart as lists of names.

At a place that several files have the last one stays. So the index and the union of names are left
as they were rendered in any case, the constants if no bundle has their place, and all files if they
have places of their own. A run over a directory of bundle files ends in writing them so. -/
theorem generate_keeps (programs : Programs) (m : Machine) {sources : Sources} {options : SourceOptions}
    {catalog : Catalog} {s : Synthesis} (run : sources.synthesize options catalog = .ok s) (directory : String) :
    let o : OutputSettings := ⟨directory, none, {}, []⟩
    let place (path : String) : Location := m.disk.placeOf (Path.join directory path)
    ((s.places o m.disk).Nodup ↔
      (catalog.names.map fun name => place (name ++ ".ts")).Nodup ∧
        ∀ name ∈ catalog.names,
          place (name ++ ".ts") ∉ [place "base-config.ts", place "index.ts", place "lib.types.ts"]) ∧
    ((∀ name ∈ catalog.names, '/' ∉ name.toList) →
      ((s.places o m.disk).Nodup ↔
        "base-config" ∉ catalog.names ∧ "index" ∉ catalog.names ∧ "lib.types" ∉ catalog.names)) ∧
    ((∀ p ∈ s.render o, Path.isAbsolute p.1 = false ∧ ".." ∉ Path.names p.1) →
      ((s.places o m.disk).Nodup ↔ Apart (s.render o))) ∧
    (∀ report m', ((Machine.host programs).writeOutput o s).run m = (.ok report, m') →
      (∀ before path text behind, s.render o = before ++ (path, text) :: behind →
        (∀ p ∈ behind, place p.1 ≠ place path) → m'.disk.entry? (place path) = some (.file text)) ∧
      m'.disk.entry? (place "index.ts") = some (.file (s.aggregate.indexText {})) ∧
      m'.disk.entry? (place "lib.types.ts") = some (.file (s.aggregate.typesText {})) ∧
      ((∀ name ∈ catalog.names, place (name ++ ".ts") ≠ place "base-config.ts") →
        m'.disk.entry? (place "base-config.ts") = some (.file (Style.baseText {}))) ∧
      ((s.places o m.disk).Nodup → ∀ p ∈ s.render o, m'.disk.entry? (place p.1) = some (.file p.2))) ∧
    ∀ sourceDirectory, m.disk.sources sourceDirectory catalog.bundles = sources →
      ((Machine.host programs).generate catalog sourceDirectory o options).run m =
        ((Machine.host programs).writeOutput o s).run m := by
  intro o place
  obtain ⟨r, run', -, names, -⟩ := (Sources.synthesize_cases sources options catalog).resolve_left
    fun ⟨e, failed, _⟩ => nomatch run.symm.trans failed
  obtain rfl : s = r := Except.ok.inj (run.symm.trans run')
  -- The files that are added lie in the directory itself, at three places.
  have added (file : String) (plain : '/' ∉ file.toList) (named : file ∉ ["", ".", ".."]) :
      place file = m.disk.placeOf directory ++ [file] := Disk.placeOf_join_of_plain plain named
  have base := added "base-config.ts" (by decide) (by decide)
  have index := added "index.ts" (by decide) (by decide)
  have types := added "lib.types.ts" (by decide) (by decide)
  have distinct : [place "base-config.ts", place "index.ts", place "lib.types.ts"].Nodup := by
    simp [base, index, types]
  have whole : (s.places o m.disk).Nodup ↔ (catalog.names.map fun name => place (name ++ ".ts")).Nodup ∧
      ∀ name ∈ catalog.names,
        place (name ++ ".ts") ∉ [place "base-config.ts", place "index.ts", place "lib.types.ts"] := by
    rw [← names]
    exact (s.nodup_places o m.disk).trans (and_iff_right distinct)
  refine ⟨whole, fun plain => whole.trans ?_, fun down => Synthesis.nodup_places_iff_apart down m.disk, ?_, ?_⟩
  · have leads (name : String) (mem : name ∈ catalog.names) :
        place (name ++ ".ts") = m.disk.placeOf directory ++ [name ++ ".ts"] :=
      Synthesis.placeOf_of_plain (plain name mem) m.disk directory
    have bundles : (catalog.names.map fun name => place (name ++ ".ts")).Nodup := by
      rw [List.map_congr_left leads, List.Nodup, List.pairwise_map]
      simpa using names ▸ s.table.distinct
    have meets (name file : String) (mem : name ∈ catalog.names)
        (there : place (file ++ ".ts") = m.disk.placeOf directory ++ [file ++ ".ts"]) :
        place (name ++ ".ts") = place (file ++ ".ts") ↔ name = file := by
      rw [leads name mem, there]
      simp
    rw [and_iff_right bundles]
    simp only [List.mem_cons, List.not_mem_nil, or_false, not_or]
    constructor
    · intro apart
      refine ⟨fun mem => ?_, fun mem => ?_, fun mem => ?_⟩
      · exact (apart _ mem).1 rfl
      · exact (apart _ mem).2.1 rfl
      · exact (apart _ mem).2.2 rfl
    · rintro ⟨noBase, noIndex, noTypes⟩ name mem
      refine ⟨fun same => noBase ?_, fun same => noIndex ?_, fun same => noTypes ?_⟩
      · exact (meets name "base-config" mem base).1 same ▸ mem
      · exact (meets name "index" mem index).1 same ▸ mem
      · exact (meets name "lib.types" mem types).1 same ▸ mem
  · intro report m' written
    obtain ⟨d, left⟩ := writeOutput_overwritten (o := o) rfl written
    refine ⟨left.last, Synthesis.entry?_index left ?_, Synthesis.entry?_types left, fun bundles => ?_,
      fun apart p mem => ?_⟩
    · show place "lib.types.ts" ≠ place "index.ts"
      simp [index, types]
    · refine Synthesis.entry?_base left ?_ ?_ (names ▸ bundles)
      · show place "index.ts" ≠ place "base-config.ts"
        simp [index, base]
      · show place "lib.types.ts" ≠ place "base-config.ts"
        simp [types, base]
    · exact Synthesis.entry?_of_nodup left apart mem
  · rintro sourceDirectory rfl
    rw [run_generate, run]

/-- A run into the directory of an earlier one writes five files, and all of them stay. -/
theorem generate_keeps_used : ∃ (s : Synthesis) (report : GenerationReport) (m' : Machine),
    runUsed ⟨"out", none, {}, []⟩ = (.ok report, m') ∧
      (s.places ⟨"out", none, {}, []⟩ usedMachine.disk).Nodup ∧
      ∀ p ∈ s.render ⟨"out", none, {}, []⟩,
        Disk.entry? m'.disk (usedMachine.disk.placeOf (Path.join "out" p.1)) = some (.file p.2) := by
  let catalog := Catalog.ofPairs [("es5", "lib.es5.d.ts")]
  have made : ((usedMachine.disk.sources "libs" catalog.bundles).synthesize {} catalog).isOk = true := by
    decide +kernel
  have ok : (runUsed ⟨"out", none, {}, []⟩).1.isOk = true := by decide +kernel
  cases synthesis : (usedMachine.disk.sources "libs" catalog.bundles).synthesize {} catalog with
  | error e =>
    rw [synthesis] at made
    cases made
  | ok s =>
    obtain ⟨-, plain, -, written, same⟩ :=
      generate_keeps (fun _ _ m => (.ok (), m)) usedMachine synthesis "out"
    have distinct := (plain (by decide)).2 (by decide)
    rcases run : runUsed ⟨"out", none, {}, []⟩ with ⟨e | report, m'⟩
    · rw [run] at ok
      cases ok
    · have wrote := (same "libs" rfl).symm.trans run
      exact ⟨s, report, m', rfl, distinct, (written report m' wrote).2.2.2.2 distinct⟩

/-- A machine with the files of a bundle that is called like the index. -/
def indexMachine : Machine where
  disk := {
    entries := [
      (["w"], .directory),
      (["w", "libs"], .directory),
      (["w", "libs", "i.d.ts"], .file "declare var a: number;"),
      (["w", "libs", "lib.d.ts"], .file "")]
    home := ["w"] }

/-- The index is written over the file of a bundle that is called like it. -/
theorem index_over_bundle : ∃ (catalog : Catalog) (s : Synthesis) (report : GenerationReport) (m' : Machine),
    Catalog.ofJson "[[\"index\",\"i.d.ts\"]]" = .ok catalog ∧
      (indexMachine.disk.sources "libs" catalog.bundles).synthesize {} catalog = .ok s ∧
      (s.render ⟨"out", none, {}, []⟩).map (·.1) =
        ["base-config.ts", "index.ts", "lib.ts", "index.ts", "lib.types.ts"] ∧
      ¬(s.places ⟨"out", none, {}, []⟩ indexMachine.disk).Nodup ∧
      ((Machine.host fun _ _ m => (.ok (), m)).generate catalog "libs" ⟨"out", none, {}, []⟩).run indexMachine =
        (.ok report, m') ∧
      ∃ b ∈ s.table.modules, b.name = "index" ∧
        Disk.entry? m'.disk ["w", "out", "index.ts"] ≠ some (.file (b.fileText {})) := by
  let catalog := Catalog.ofPairs [("index", "i.d.ts")]
  let whole := ((Machine.host fun _ _ m => (.ok (), m)).generate catalog "libs" ⟨"out", none, {}, []⟩).run indexMachine
  have loaded : Catalog.ofJson "[[\"index\",\"i.d.ts\"]]" = .ok catalog := by decide +kernel
  have paths : ((indexMachine.disk.sources "libs" catalog.bundles).synthesize {} catalog).toOption.map
      (fun s : Synthesis => (s.render ⟨"out", none, {}, []⟩).map (·.1)) =
        some ["base-config.ts", "index.ts", "lib.ts", "index.ts", "lib.types.ts"] := by decide +kernel
  have lost : ((indexMachine.disk.sources "libs" catalog.bundles).synthesize {} catalog).toOption.any
      (fun s : Synthesis => decide (¬(s.places ⟨"out", none, {}, []⟩ indexMachine.disk).Nodup ∧
        ∃ b ∈ s.table.modules, b.name = "index" ∧
          Disk.entry? whole.2.disk ["w", "out", "index.ts"] ≠ some (.file (b.fileText {})))) = true := by
    decide +kernel
  have ok : whole.1.isOk = true := by decide +kernel
  cases synthesis : (indexMachine.disk.sources "libs" catalog.bundles).synthesize {} catalog with
  | error e =>
    rw [synthesis] at paths
    cases paths
  | ok s =>
    rw [synthesis] at paths lost
    obtain ⟨meet, gone⟩ := of_decide_eq_true lost
    rcases run : whole with ⟨e | report, m'⟩
    · rw [run] at ok
      cases ok
    · rw [run] at gone
      exact ⟨catalog, s, report, m', loaded, synthesis, Option.some.inj paths, meet, run, gone⟩

end Host

end ImplicitGlobals
