import DspCheck.Proofs.Files.Walk
import DspCheck.Proofs.Library.Build

/-!
# Library files that are left out

A file that cannot be used is one that is no text, or one that documents functions, but has no short
name and gives none to others (`IsUnusable`).  It leaves nothing in a draft but one warning,
wherever it comes among the files (`CatalogDraft.gains_ofSources`), and so a catalog is the same
with and without it (`CatalogBuild.gains_ofFiles`).

Adding such a file to a tree puts it in somewhere among the files below a directory
(`AddsFile.putsIn_filesBelow`).

Main statement: `FileTree.AddsFile.gains_of_buildCatalog`.
-/

namespace DspCheck

/-! ## Putting an item into a list -/

/-- Some items with one more somewhere among them. -/
def PutsIn {α : Type} (a : α) (as as' : List α) : Prop :=
  ∃ before after, as = before ++ after ∧ as' = before ++ a :: after

namespace PutsIn

variable {α β : Type} {a : α} {as as' : List α}

theorem append_left (h : PutsIn a as as') (more : List α) :
    PutsIn a (more ++ as) (more ++ as') := by
  obtain ⟨before, after, rfl, rfl⟩ := h
  exact ⟨more ++ before, after, (List.append_assoc ..).symm, (List.append_assoc ..).symm⟩

theorem append_right (h : PutsIn a as as') (more : List α) :
    PutsIn a (as ++ more) (as' ++ more) := by
  obtain ⟨before, after, rfl, rfl⟩ := h
  exact ⟨before, after ++ more, List.append_assoc .., by simp⟩

/-- An item that gives nothing is not noticed. -/
theorem flatMap_eq (h : PutsIn a as as') {f : α → List β} (hf : f a = []) :
    as'.flatMap f = as.flatMap f := by
  obtain ⟨before, after, rfl, rfl⟩ := h
  simp [hf]

theorem filterMap_eq (h : PutsIn a as as') {f : α → Option β} (hf : f a = none) :
    as'.filterMap f = as.filterMap f := by
  obtain ⟨before, after, rfl, rfl⟩ := h
  simp [hf]

theorem filterMap (h : PutsIn a as as') {f : α → Option β} {b : β} (hf : f a = some b) :
    PutsIn b (as.filterMap f) (as'.filterMap f) := by
  obtain ⟨before, after, rfl, rfl⟩ := h
  exact ⟨before.filterMap f, after.filterMap f, by simp, by simp [hf]⟩

theorem map (h : PutsIn a as as') (f : α → β) : PutsIn (f a) (as.map f) (as'.map f) := by
  obtain ⟨before, after, rfl, rfl⟩ := h
  exact ⟨before.map f, after.map f, by simp, by simp⟩

theorem filter (h : PutsIn a as as') {p : α → Bool} (hp : p a = true) :
    PutsIn a (as.filter p) (as'.filter p) := by
  obtain ⟨before, after, rfl, rfl⟩ := h
  exact ⟨before.filter p, after.filter p, by simp, by simp [hp]⟩

end PutsIn

/-! ## Drafts with one more warning -/

namespace CatalogDraft

/-- A draft holds the same as another one, and has one more warning. -/
structure Gains (w : BuildWarning) (d d' : CatalogDraft) : Prop where
  libraries : d'.libraries = d.libraries
  definitions : d'.definitions = d.definitions
  warnings : PutsIn w d.warnings d'.warnings

variable {limits : DocLimits} {aliases : OrderedMap Text Text} {w : BuildWarning}
  {d d' : CatalogDraft}

theorem gains_warn (w : BuildWarning) (d : CatalogDraft) : d.Gains w (d.warn [w]) where
  libraries := rfl
  definitions := rfl
  warnings := ⟨d.warnings, [], (List.append_nil _).symm, rfl⟩

theorem Gains.warn (h : d.Gains w d') (ws : List BuildWarning) :
    (d.warn ws).Gains w (d'.warn ws) where
  libraries := h.libraries
  definitions := h.definitions
  warnings := h.warnings.append_right ws

/-- Which function a definition replaces depends on the other definitions only. -/
theorem Gains.define (h : d.Gains w d') (n : Definition) : (d.define n).Gains w (d'.define n) where
  libraries := h.libraries
  definitions := by
    rw [CatalogDraft.define, CatalogDraft.define, h.definitions]
  warnings := by
    rw [CatalogDraft.define, CatalogDraft.define, h.definitions]
    exact h.warnings.append_right _

theorem Gains.foldl_define (h : d.Gains w d') (file : Text) (signatures : List Signature) :
    (signatures.foldl (fun d s => d.define ⟨file, s⟩) d).Gains w
      (signatures.foldl (fun d s => d.define ⟨file, s⟩) d') := by
  induction signatures generalizing d d' with
  | nil =>
      exact h
  | cons s signatures ih =>
      exact ih (h.define ⟨file, s⟩)

theorem Gains.addFile (h : d.Gains w d') (file : Text) (l : LibraryFile) :
    (d.addFile file l).Gains w (d'.addFile file l) := by
  have hwarn := h.warn l.warnings
  unfold CatalogDraft.addFile
  split
  · exact hwarn
  · refine Gains.foldl_define ?_ file l.functions
    exact ⟨by rw [h.libraries], hwarn.definitions, hwarn.warnings⟩

theorem Gains.addSource (h : d.Gains w d') (s : SourceFile) :
    (d.addSource limits aliases s).Gains w (d'.addSource limits aliases s) := by
  unfold CatalogDraft.addSource
  split
  · exact h.warn _
  · exact h.addFile s.file _

/-- Files that are added leave the other warning where it is. -/
theorem Gains.foldl_addSource (h : d.Gains w d') (sources : List SourceFile) :
    (sources.foldl (CatalogDraft.addSource limits aliases) d).Gains w
      (sources.foldl (CatalogDraft.addSource limits aliases) d') := by
  induction sources generalizing d d' with
  | nil =>
      exact h
  | cons s sources ih =>
      exact ih (h.addSource s)

theorem Gains.catalog_eq (h : d.Gains w d') (directory : Text) :
    d'.catalog directory = d.catalog directory := by
  rw [catalog, catalog, h.libraries, h.definitions]

end CatalogDraft

/-! ## Files that cannot be used -/

/-- A file that documents functions, but has no short name, neither from itself nor from one of some
files, and gives none. -/
structure SourceFile.IsUnnamed (sources : List SourceFile) (s : SourceFile) : Prop where
  documents : (DocSection.ofSource s.text).filterMap DocSection.block? ≠ []
  undeclared : Library.declaredName? s.text = none
  unaliased : ∀ source ∈ sources, ∀ e ∈ Library.aliases source.text,
    e.1 ≠ LibraryFile.baseName s.file
  namesNone : Library.aliases s.text = []

/-- A file that is no text, or one without a short name among the texts of some files. -/
def IsUnusable (settings : LibrarySettings) (files : List FoundFile) (path : Path)
    (bytes : ByteArray) : Prop :=
  Text.ofUtf8? bytes = none ∨ ∃ text, Text.ofUtf8? bytes = some text ∧
    SourceFile.IsUnnamed (CatalogBuild.readable settings files).1 ⟨path.toText, text⟩

namespace CatalogDraft

theorem get?_aliasesIn_eq_none {sources : List SourceFile} {file : Text}
    (h : ∀ source ∈ sources, ∀ e ∈ Library.aliases source.text, e.1 ≠ file) :
    (aliasesIn sources).get? file = none := by
  rw [OrderedMap.get?_eq_none_iff]
  intro hfile
  obtain ⟨e, he, rfl⟩ := List.mem_map.1 hfile
  obtain ⟨source, hsource, hmem⟩ := List.mem_flatMap.1 (OrderedMap.mem_of_mem_ofList he)
  exact h source hsource e hmem rfl

/-- A file without a short name leaves one warning. -/
theorem gains_ofSources (limits : DocLimits) {sources sources' : List SourceFile} {s : SourceFile}
    (h : PutsIn s sources sources') (hs : s.IsUnnamed sources) :
    (ofSources limits sources).Gains (LibraryFile.unnamed s.file) (ofSources limits sources') := by
  have haliases : aliasesIn sources' = aliasesIn sources :=
    congrArg OrderedMap.ofList (h.flatMap_eq hs.namesNone)
  have hname : LibraryFile.nameOf? s.file s.text (aliasesIn sources) = none := by
    rw [LibraryFile.nameOf?, hs.undeclared, get?_aliasesIn_eq_none hs.unaliased]
    rfl
  have hread : LibraryFile.read limits s.file s.text (aliasesIn sources) =
      .error (LibraryFile.unnamed s.file) :=
    LibraryFile.read_eq_error_iff.2 ⟨hname, hs.documents, rfl⟩
  rw [ofSources, ofSources, haliases]
  generalize aliasesIn sources = aliases at hread
  obtain ⟨before, after, rfl, rfl⟩ := h
  rw [List.foldl_append, List.foldl_append, List.foldl_cons]
  refine Gains.foldl_addSource ?_ after
  rw [addSource, hread]
  exact gains_warn _ _

end CatalogDraft

namespace CatalogBuild

/-- A build has the same catalog as another one, and one more warning, which names a file. -/
structure Gains (file : Text) (b b' : CatalogBuild) : Prop where
  catalog : b'.catalog = b.catalog
  warnings : ∃ w, w.file = file ∧ PutsIn w b.warnings b'.warnings

/-- A file that cannot be used leaves one warning, wherever it is among the others. -/
theorem gains_ofFiles {settings : LibrarySettings} (directory : Text)
    {files files' : List FoundFile} {path : Path} {bytes : ByteArray}
    (h : PutsIn ⟨path, .ok bytes⟩ files files')
    (htype : FoundFile.hasType [settings.fileType] ⟨path, .ok bytes⟩ = true)
    (hunusable : IsUnusable settings files path bytes) :
    (ofFiles settings directory files).Gains path.toText (ofFiles settings directory files') := by
  have hread := (h.filter htype).map FoundFile.source
  rcases hunusable with hnone | ⟨text, htext, hunnamed⟩
  · have hsource : FoundFile.source ⟨path, .ok bytes⟩ =
        .error ⟨path.toText, none, "unreadable: " ++ FileError.notText.message⟩ := by
      simp [FoundFile.source, decodeText, Except.bind, hnone, FoundFile.name]
    rw [hsource] at hread
    have hsources : (readable settings files').1 = (readable settings files).1 :=
      hread.filterMap_eq rfl
    have hunreadable : PutsIn ⟨path.toText, none, "unreadable: " ++ FileError.notText.message⟩
        (readable settings files).2 (readable settings files').2 := hread.filterMap rfl
    have hdraft : CatalogDraft.ofSources settings.limits (readable settings files').1 =
        CatalogDraft.ofSources settings.limits (readable settings files).1 := by
      rw [hsources]
    constructor
    · exact congrArg (CatalogDraft.catalog directory) hdraft
    · refine ⟨⟨path.toText, none, "unreadable: " ++ FileError.notText.message⟩, rfl, ?_⟩
      change PutsIn _ _ (_ ++ (CatalogDraft.ofSources _ (readable settings files').1).warnings)
      rw [hdraft]
      exact hunreadable.append_right _
  · have hsource : FoundFile.source ⟨path, .ok bytes⟩ = .ok ⟨path.toText, text⟩ := by
      simp [FoundFile.source, decodeText, Except.bind, htext, FoundFile.name]
    rw [hsource] at hread
    have hsources : PutsIn ⟨path.toText, text⟩ (readable settings files).1
        (readable settings files').1 := hread.filterMap rfl
    have hunreadable : (readable settings files').2 = (readable settings files).2 :=
      hread.filterMap_eq rfl
    have hdraft := CatalogDraft.gains_ofSources settings.limits hsources hunnamed
    constructor
    · exact hdraft.catalog_eq directory
    · refine ⟨LibraryFile.unnamed path.toText, rfl, ?_⟩
      change PutsIn _ _ ((readable settings files').2 ++ _)
      rw [hunreadable]
      exact hdraft.warnings.append_left _

end CatalogBuild

/-! ## Trees with one more file -/

namespace FileTree

/-- A tree with a new file at the end of a way from a place.  The directories on this way may be
new, too. -/
structure AddsFile (place path : Path) (bytes : ByteArray) (t u : FileTree) : Prop where
  isBelow : Path.isBase (path.take 1) = false
  absent : t.node? (place ++ path) = none
  file : u.node? (place ++ path) = some (.file bytes)
  kept : ∀ p n, t.node? p = some n → u.node? p = some n
  added : ∀ p n, p ≠ place ++ path → t.node? p = none → u.node? p = some n → n = .directory

variable {t u : FileTree} {place path : Path} {bytes : ByteArray} {directory : Text}

/-- Directories are created and a file is written. -/
theorem GrowsBy.addsFile {paths : List Text} (h : t.GrowsBy paths u)
    (hbelow : Path.isBase (path.take 1) = false) (habsent : t.node? (place ++ path) = none)
    (bytes : ByteArray) : AddsFile place path bytes t (u.insert (place ++ path) (.file bytes)) := by
  have hfree := standing?_of_node?_eq_none habsent
  refine ⟨hbelow, habsent, ?_, fun p n hp => ?_, fun p n hp hnone hsome => ?_⟩
  · rw [node?_insert hfree, if_pos rfl]
  · rw [node?_insert hfree, if_neg]
    · exact h.kept p n hp
    · rintro rfl
      cases habsent.symm.trans hp
  · rw [node?_insert hfree, if_neg (Ne.symm hp)] at hsome
    exact (h.added p n hnone hsome).1

theorem AddsFile.keeps (h : AddsFile place path bytes t u) : t.Keeps u :=
  fun p => h.kept p .directory

/-- All other files are the same. -/
theorem AddsFile.file?_eq (h : AddsFile place path bytes t u) {p : Path} (hp : p ≠ place ++ path) :
    u.file? p = t.file? p := by
  unfold FileTree.file?
  cases ht : t.node? p with
  | some n =>
      rw [h.kept p n ht]
  | none =>
      cases hu : u.node? p with
      | none =>
          rfl
      | some n =>
          rw [h.added p n hp ht hu]

/-- The new file comes somewhere among the others below a directory. -/
theorem AddsFile.putsIn_filesBelow (h : AddsFile place path bytes t u)
    (hplace : t.locate directory = .ok place) :
    PutsIn ⟨path, .ok bytes⟩ (t.filesBelow directory) (u.filesBelow directory) := by
  have hplace' : u.locate directory = .ok place := locateNames_of_keeps h.keeps hplace
  have hnew : u.file? (place ++ path) = some bytes := by rw [FileTree.file?, h.file]
  have hmem : (⟨path, .ok bytes⟩ : FoundFile) ∈ u.filesBelow directory :=
    (mem_filesBelow_iff hplace').2 ⟨h.isBelow, bytes, hnew, rfl⟩
  obtain ⟨before, after, hsplit⟩ := List.append_of_mem hmem
  refine ⟨before, after, ?_, hsplit⟩
  have hinOrder := inOrder_filesBelow hplace'
  rw [hsplit] at hinOrder
  have hothers : ⟨path, .ok bytes⟩ ∉ before ++ after :=
    (List.nodup_cons.1 (List.nodup_middle.1 hinOrder.nodup)).1
  have hrest : InOrder (before ++ after) :=
    hinOrder.sublist ((List.sublist_cons_self _ _).append_left before)
  refine (inOrder_filesBelow hplace).eq_of_mem_iff hrest fun f => ?_
  by_cases hf : f.path = path
  · refine iff_of_false (fun hold => ?_) fun hrest => hothers ?_
    · obtain ⟨-, bytes', hfile, -⟩ := (mem_filesBelow_iff hplace).1 hold
      rw [FileTree.file?, hf, h.absent] at hfile
      cases hfile
    · have hnew : f ∈ u.filesBelow directory := by
        rw [hsplit]
        exact List.mem_append.2 ((List.mem_append.1 hrest).imp_right (List.mem_cons_of_mem _))
      rwa [eq_of_path_eq hplace' hmem hnew hf.symm]
  · have hne : f ≠ ⟨path, .ok bytes⟩ := fun heq => hf (congrArg FoundFile.path heq)
    have hplace_ne : place ++ f.path ≠ place ++ path := fun heq => hf (List.append_cancel_left heq)
    rw [mem_filesBelow_iff hplace, ← h.file?_eq hplace_ne, ← mem_filesBelow_iff hplace', hsplit,
      List.mem_append, List.mem_append, List.mem_cons, or_iff_right hne]

/-- One bad library file changes nothing but the warnings: if a catalog can be built from a
directory, and a file of the type of libraries that cannot be used is added somewhere below it, then
the same catalog is built with the same warnings, and one more among them that names the file. -/
theorem AddsFile.gains_of_buildCatalog {t t' u : FileTree} {home : Option Text} {input : ByteArray}
    {settings : LibrarySettings} {directory : Text} {b : CatalogBuild} {place path : Path}
    {bytes : ByteArray}
    (hbuild : ((access home input).buildCatalog settings directory).run.run t = (.ok b, t'))
    (hplace : t.locate directory = .ok place) (hadds : AddsFile place path bytes t u)
    (htype : FoundFile.hasType [settings.fileType] ⟨path, .ok bytes⟩ = true)
    (hunusable : IsUnusable settings (t.filesBelow directory) path bytes) :
    ∃ b', ((access home input).buildCatalog settings directory).run.run u = (.ok b', u) ∧
      b.Gains path.toText b' := by
  have hfiles := eq_ofFiles_of_buildCatalog hbuild
  subst hfiles
  refine ⟨_, ?_, CatalogBuild.gains_ofFiles directory (hadds.putsIn_filesBelow hplace) htype
    hunusable⟩
  rw [run_buildCatalog] at hbuild ⊢
  split at hbuild
  · next hdirectory =>
      rw [if_pos (isDirectory_of_keeps hadds.keeps hdirectory)]
  · cases hbuild

/-- A library that defines `gain`. -/
def gainLibrary : Text :=
  "// prefix: fi\n//---gain---\ngain(k)=_;"

/-- A library without a short name. -/
def unnamedLibrary : Text :=
  "//---pan---\npan(x)=_;"

/-- A library without a short name is added in a new directory; it comes behind the other one, and
there is one warning, about it. -/
theorem AddsFile.gains_of_buildCatalog_oneLibrary :
    let t := oneLibrary gainLibrary
    let place : Path := .ofTexts ["libs"]
    let path : Path := .ofTexts ["more", "pan.lib"]
    ∃ b u, ((access none .empty).buildCatalog .standard "libs").run.run t = (.ok b, t) ∧
      t.locate "libs" = .ok place ∧ AddsFile place path (Text.toUtf8 unnamedLibrary) t u ∧
      IsUnusable .standard (t.filesBelow "libs") path (Text.toUtf8 unnamedLibrary) ∧
      ∃ b', ((access none .empty).buildCatalog .standard "libs").run.run u = (.ok b', u) ∧
        b.Gains path.toText b' ∧ b'.catalog.functions.keys = ["fi.gain".toList] := by
  intro t place path
  have hrun := run_buildCatalog t none .empty .standard "libs"
  rw [if_pos (by decide +kernel)] at hrun
  have hplace : t.locate "libs" = .ok place := by decide +kernel
  have hcreate : t.createDirectory "libs/more" =
      .ok (t.insert (.ofTexts ["libs", "more"]) .directory) := rfl
  have hadds : AddsFile place path (Text.toUtf8 unnamedLibrary) t _ :=
    (growsBy_createDirectory (List.mem_singleton_self _) hcreate).addsFile (by decide +kernel) rfl _
  have hunusable : IsUnusable .standard (t.filesBelow "libs") path
      (Text.toUtf8 unnamedLibrary) := by
    rw [filesBelow_oneLibrary]
    refine Or.inr ⟨unnamedLibrary, ?_, ?_, ?_, ?_, ?_⟩
    · exact Text.ofUtf8?_toUtf8 unnamedLibrary
    · decide +kernel
    · decide +kernel
    · decide +kernel
    · decide +kernel
  obtain ⟨b', hrun', hgains⟩ :=
    hadds.gains_of_buildCatalog hrun hplace (by decide +kernel) hunusable
  refine ⟨_, _, hrun, hplace, hadds, hunusable, b', hrun', hgains, ?_⟩
  rw [hgains.catalog, filesBelow_oneLibrary]
  decide +kernel

end FileTree
end DspCheck
