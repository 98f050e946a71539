import DspCheck.Proofs.Library.Build

/-!
# What is left when files define a name twice

Every definition in some library files is in the catalog or is repeated, and there is a warning
about each one that is repeated (`CatalogBuild.Merges`).

The libraries count the definitions, each file those of its own.  A file that takes the entry of
another one away takes its count away, too, and no count is zero.  So nothing is lost if and only if
no two files that document something have the same name (`CatalogDraft.functionTotal_eq_iff`).

Main statement: `FileTree.merges_of_buildCatalog`.
-/

namespace DspCheck

namespace CatalogDraft

variable {limits : DocLimits} {aliases : OrderedMap Text Text}

/-- The number of functions that the libraries of a draft count. -/
def functionTotal (d : CatalogDraft) : Nat :=
  (d.libraries.values.map LibraryInfo.functionCount).sum

/-- The entries of files count their definitions. -/
theorem sum_functionCount_entries (sources : List SourceFile) :
    ((sources.filterMap (SourceFile.entry? limits aliases)).map fun e => e.2.functionCount).sum =
      (sources.flatMap (SourceFile.definitions limits aliases)).length := by
  induction sources with
  | nil =>
      rfl
  | cons s sources ih =>
      rw [List.filterMap_cons, List.flatMap_cons, List.length_append, ← ih]
      cases hread : LibraryFile.read limits s.file s.text aliases with
      | error w =>
          rw [SourceFile.entry?, hread, (definitions_of_read_eq_error hread).1]
          exact (Nat.zero_add _).symm
      | ok l =>
          have hentry : s.entry? limits aliases = l.entry? s.file := by
            rw [SourceFile.entry?, hread]
            rfl
          rw [hentry, (definitions_of_read_eq_ok hread).1, LibraryFile.entry?, List.length_map]
          by_cases hnil : l.functions = []
          · simp [hnil]
          · simp [hnil, LibraryFile.info]

/-- The libraries count all definitions if and only if no file takes away the entry of another
one. -/
theorem functionTotal_eq_iff (limits : DocLimits) (sources : List SourceFile) :
    (ofSources limits sources).functionTotal =
        (sources.flatMap (SourceFile.definitions limits (aliasesIn sources))).length ↔
      ((sources.filter fun s => s.definitions limits (aliasesIn sources) ≠ []).map
        SourceFile.file).Nodup := by
  have hpos : ∀ e ∈ sources.filterMap (SourceFile.entry? limits (aliasesIn sources)),
      e.2.functionCount ≠ 0 := by
    intro e he
    obtain ⟨s, -, hentry⟩ := List.mem_filterMap.1 he
    obtain ⟨l, -, hne, rfl⟩ := entry?_eq_some_iff.1 hentry
    exact fun hzero => hne (List.length_eq_zero_iff.1 hzero)
  rw [functionTotal, (merges_ofSources limits sources).libraries, ← sum_functionCount_entries,
    ← map_fst_filterMap_entry?]
  exact OrderedMap.sum_values_ofList_eq_iff LibraryInfo.functionCount hpos

end CatalogDraft

namespace CatalogBuild

/-- The definitions of the library files among some files, in the order of the files. -/
def definitionsIn (settings : LibrarySettings) (files : List FoundFile) : List Definition :=
  let sources := (readable settings files).1
  sources.flatMap (SourceFile.definitions settings.limits (CatalogDraft.aliasesIn sources))

/-- What becomes of the definitions in some library files: each name is in the catalog where it was
defined first and with what was defined last, and there is a warning about each definition that
replaces another one.  The libraries count all of them if and only if no two files that document
something have the same name. -/
structure Merges (settings : LibrarySettings) (files : List FoundFile) (b : CatalogBuild) :
    Prop where
  keys : b.catalog.functions.keys =
    ((definitionsIn settings files).map Definition.fullName).eraseDups
  last : ∀ name, b.catalog.functions.get? name =
    (Definition.lastOf? name (definitionsIn settings files)).map Definition.signature
  repetitions : b.warnings.filter BuildWarning.isAboutRepetition =
    (Definition.repetitions (definitionsIn settings files)).map
      fun r => CatalogDraft.duplicate r.1 r.2
  defined : (definitionsIn settings files).length =
    b.catalog.functions.size + (b.warnings.filter BuildWarning.isAboutRepetition).length
  conserved_iff : (b.catalog.libraries.values.map LibraryInfo.functionCount).sum =
      b.catalog.functions.size + (b.warnings.filter BuildWarning.isAboutRepetition).length ↔
    NamesDiffer settings files

/-- No warning about a file that is no text is about a repetition. -/
theorem filter_unreadable (settings : LibrarySettings) (files : List FoundFile) :
    (readable settings files).2.filter BuildWarning.isAboutRepetition = [] := by
  rw [List.filter_eq_nil_iff]
  intro w hw
  obtain ⟨read, hread, hw⟩ := List.mem_filterMap.1 hw
  obtain ⟨f, -, rfl⟩ := List.mem_map.1 hread
  unfold FoundFile.source at hw
  split at hw
  · cases hw
  · cases hw
    exact Bool.false_ne_true

/-- The catalog of some files merges their definitions. -/
theorem merges_ofFiles (settings : LibrarySettings) (directory : Text) (files : List FoundFile) :
    (ofFiles settings directory files).Merges settings files := by
  have hmerges := CatalogDraft.merges_ofSources settings.limits (readable settings files).1
  have hwarnings : (ofFiles settings directory files).warnings.filter
      BuildWarning.isAboutRepetition =
        (Definition.repetitions (definitionsIn settings files)).map
          fun r => CatalogDraft.duplicate r.1 r.2 := by
    rw [ofFiles, List.filter_append, filter_unreadable, List.nil_append]
    exact hmerges.warnings
  have hfunctions : (ofFiles settings directory files).catalog.functions =
      (Definition.byName (definitionsIn settings files)).mapValues fun _ n => n.signature :=
    congrArg (OrderedMap.mapValues fun _ => Definition.signature) hmerges.definitions
  have hdefined : (definitionsIn settings files).length =
      (ofFiles settings directory files).catalog.functions.size +
        ((ofFiles settings directory files).warnings.filter
          BuildWarning.isAboutRepetition).length := by
    rw [hwarnings, hfunctions, OrderedMap.size_mapValues, List.length_map]
    exact Definition.length_eq_size_add_repetitions _
  exact {
    keys := by
      rw [hfunctions, OrderedMap.keys_mapValues, Definition.keys_byName]
    last := by
      intro name
      rw [hfunctions, OrderedMap.get?_mapValues, Definition.get?_byName]
    repetitions := hwarnings
    defined := hdefined
    conserved_iff := by
      rw [← hdefined]
      exact CatalogDraft.functionTotal_eq_iff settings.limits (readable settings files).1 }

end CatalogBuild

namespace FileTree

/-- When the files of a directory are merged into a catalog, each name is where it was defined first
and has the signature that was defined last, and for each later definition of a name there is a
warning that names the file of the one it replaces and its own.  The functions that the libraries
count are those that the catalog holds and those that there are warnings about, if and only if no
two files that document something have the same name; so it is if the names are texts. -/
theorem merges_of_buildCatalog {t t' : FileTree} {home : Option Text} {input : ByteArray}
    {settings : LibrarySettings} {directory : Text} {b : CatalogBuild}
    (h : ((access home input).buildCatalog settings directory).run.run t = (.ok b, t')) :
    b.Merges settings (t.filesBelow directory) ∧
      (t.HasReadableNames directory →
        CatalogBuild.NamesDiffer settings (t.filesBelow directory)) := by
  rw [eq_ofFiles_of_buildCatalog h]
  exact ⟨CatalogBuild.merges_ofFiles settings directory _,
    fun hnames => namesDiffer_filesBelow hnames settings⟩

/-- A library that defines `gain` twice. -/
def gainAndPan : Text :=
  "// prefix: fi\n//---gain---\n//---pan---\n//---gain---\ngain(k)=_;"

/-- A library of the same short name that defines `gain` once more. -/
def otherGain : Text :=
  "// prefix: fi\n//---gain---\ngain(a,b)=_;"

/-- A directory `libs` with both libraries. -/
def sharedName : FileTree :=
  (oneLibrary gainAndPan).insert (.ofTexts ["libs", "other.lib"]) (.file (Text.toUtf8 otherGain))

theorem filesBelow_sharedName : sharedName.filesBelow "libs" =
    [⟨.ofTexts ["filters.lib"], .ok (Text.toUtf8 gainAndPan)⟩,
      ⟨.ofTexts ["other.lib"], .ok (Text.toUtf8 otherGain)⟩] :=
  List.mergeSort_of_pairwise (by decide +kernel)

/-- Four functions are documented: two of them are in the catalog, and there are two warnings. -/
theorem merges_of_buildCatalog_sharedName :
    ∃ b, ((access none .empty).buildCatalog .standard "libs").run.run sharedName =
        (.ok b, sharedName) ∧
      b.Merges .standard (sharedName.filesBelow "libs") ∧
      (b.catalog.libraries.values.map LibraryInfo.functionCount).sum =
        b.catalog.functions.size + (b.warnings.filter BuildWarning.isAboutRepetition).length ∧
      b.catalog.functions.entries.map (fun e => (e.1, e.2.args)) =
        [("fi.gain".toList, ["a".toList, "b".toList]), ("fi.pan".toList, [])] ∧
      b.warnings.map BuildWarning.file = ["filters.lib".toList, "other.lib".toList] := by
  have hrun := run_buildCatalog sharedName none .empty .standard "libs"
  rw [if_pos (by decide +kernel)] at hrun
  obtain ⟨hmerges, hdiffer⟩ := merges_of_buildCatalog hrun
  have hnames : sharedName.HasReadableNames "libs" := by
    rw [HasReadableNames, filesBelow_sharedName]
    exact List.forall_mem_cons.2 ⟨⟨["filters.lib".toList], rfl, by decide⟩,
      List.forall_mem_singleton.2 ⟨["other.lib".toList], rfl, by decide⟩⟩
  have hconserved := hmerges.conserved_iff.2 (hdiffer hnames)
  refine ⟨_, hrun, hmerges, hconserved, ?_, ?_⟩
  · rw [filesBelow_sharedName]
    decide +kernel
  · rw [filesBelow_sharedName]
    decide +kernel

/-- Of two files with names that cannot be read only the second one is counted, though the functions
of both are in the catalog, and there is no warning. -/
theorem not_conserved_unreadableNames :
    ((access none .empty).buildCatalog .standard "libs").run.run unreadableNames =
        (.ok unreadableNamesBuild, unreadableNames) ∧
      (unreadableNamesBuild.catalog.libraries.values.map LibraryInfo.functionCount).sum = 1 ∧
      unreadableNamesBuild.catalog.functions.size = 2 ∧
      unreadableNamesBuild.warnings = [] :=
  ⟨run_buildCatalog_unreadableNames, by decide +kernel, by decide +kernel, by decide +kernel⟩

end FileTree
end DspCheck
