import DspCheck.Proofs.Files.Atomic
import DspCheck.Proofs.Remedy.Literals
import DspCheck.Proofs.Text.Word

/-!
# Sightings are first finds

A find is a string with the marker in some files, together with where it stands: its file, its line
and which string on the line it is.  Files, lines and strings are visited in order, and so the finds
are, too (`Find.pairwise_all`).  A sighting forgets all of this but the name of the file and the
line (`Find.sighting`).

Of the finds with one text the first one is kept (`Find.exists_distinct`), so the sightings are
those of the first finds, in their order.

Main statement: `FileAccess.areFirst_of_buildRemedies`.
-/

namespace DspCheck

/-- A string with the marker in some files: where it stands, counted from 0, and what it says. -/
structure Find where
  file : Nat
  line : Nat
  /-- Which string on the line it is. -/
  string : Nat
  source : FoundFile
  text : Text

namespace Find

/-- What is told about a find. -/
def sighting (x : Find) : Sighting :=
  ⟨x.text, Sighting.fileName x.source ++ ":" ++ Text.decimal (x.line + 1)⟩

/-- A find comes before another one when files are visited in their order. -/
def IsBefore (x y : Find) : Prop :=
  x.file < y.file ∨
    x.file = y.file ∧ (x.line < y.line ∨ x.line = y.line ∧ x.string < y.string)

/-- A find is one in some files: its file can be read and has a type that is asked for, its line has
its string, and the marker is in it. -/
structure IsIn (settings : ScanSettings) (files : List FoundFile) (x : Find) : Prop where
  file : files[x.file]? = some x.source
  wanted : x.source.hasType settings.fileTypes = true
  string : ∃ bytes line, x.source.content = .ok bytes ∧
    (Text.lines (Text.ofUtf8Lossy bytes))[x.line]? = some line ∧
    (Literals.onLine line)[x.string]? = some x.text
  marker : settings.marker <:+: x.text

end Find

/-- What sightings in some files have to be. -/
structure Sighting.AreFirst (settings : ScanSettings) (files : List FoundFile)
    (sightings : List Sighting) : Prop where
  /-- No text is told twice. -/
  nodup : (sightings.map Sighting.text).Nodup
  /-- A text is not empty, has no blanks at its ends, and has the marker in it. -/
  text : ∀ s ∈ sightings, s.text ≠ [] ∧ Text.trim s.text = s.text ∧ settings.marker <:+: s.text
  /-- The texts are those of the finds. -/
  mem_iff : ∀ t, t ∈ sightings.map Sighting.text ↔ ∃ x : Find, x.IsIn settings files ∧ x.text = t
  /-- Each sighting is the first find of its text, and they stand in the order of these finds. -/
  first : ∃ finds : List Find, sightings = finds.map Find.sighting ∧
    finds.Pairwise Find.IsBefore ∧ ∀ x ∈ finds, x.IsIn settings files ∧
      ∀ y : Find, y.IsIn settings files → y.text = x.text → y = x ∨ x.IsBefore y

namespace Find

variable {settings : ScanSettings} {files : List FoundFile}

/-! ## All finds in their order -/

/-- The finds on a line. -/
def onLine (settings : ScanSettings) (file : Nat) (source : FoundFile) (line : Nat) (text : Text) :
    List Find :=
  ((Literals.onLine text).zipIdx.map fun s => ⟨file, line, s.2, source, s.1⟩).filter
    fun x => Text.contains settings.marker x.text

/-- The finds in a file. -/
def inFile (settings : ScanSettings) (file : Nat) (source : FoundFile) : List Find :=
  match source.content with
  | .ok bytes =>
      (Text.lines (Text.ofUtf8Lossy bytes)).zipIdx.flatMap fun l =>
        onLine settings file source l.2 l.1
  | .error _ => []

/-- The finds in some files. -/
def all (settings : ScanSettings) (files : List FoundFile) : List Find :=
  files.zipIdx.flatMap fun f =>
    if f.1.hasType settings.fileTypes then inFile settings f.2 f.1 else []

theorem mem_onLine_iff {file line : Nat} {source : FoundFile} {text : Text} {x : Find} :
    x ∈ onLine settings file source line text ↔ x.file = file ∧ x.line = line ∧
      x.source = source ∧ (Literals.onLine text)[x.string]? = some x.text ∧
      settings.marker <:+: x.text := by
  rw [onLine, List.mem_filter, Text.contains_iff, List.mem_map]
  constructor
  · rintro ⟨⟨⟨t, i⟩, hstring, rfl⟩, hmarker⟩
    exact ⟨rfl, rfl, rfl, List.mk_mem_zipIdx_iff_getElem?.1 hstring, hmarker⟩
  · rintro ⟨rfl, rfl, rfl, hstring, hmarker⟩
    exact ⟨⟨_, List.mk_mem_zipIdx_iff_getElem?.2 hstring, rfl⟩, hmarker⟩

theorem mem_inFile_iff {file : Nat} {source : FoundFile} {x : Find} :
    x ∈ inFile settings file source ↔ x.file = file ∧ x.source = source ∧
      (∃ bytes line, x.source.content = .ok bytes ∧
        (Text.lines (Text.ofUtf8Lossy bytes))[x.line]? = some line ∧
        (Literals.onLine line)[x.string]? = some x.text) ∧ settings.marker <:+: x.text := by
  rw [inFile]
  split
  · next bytes hcontent =>
      rw [List.mem_flatMap]
      constructor
      · rintro ⟨⟨line, i⟩, hline, hx⟩
        obtain ⟨rfl, rfl, rfl, hstring, hmarker⟩ := mem_onLine_iff.1 hx
        exact ⟨rfl, rfl, ⟨bytes, line, hcontent, List.mk_mem_zipIdx_iff_getElem?.1 hline, hstring⟩,
          hmarker⟩
      · rintro ⟨rfl, rfl, ⟨bytes', line, hcontent', hline, hstring⟩, hmarker⟩
        cases hcontent.symm.trans hcontent'
        exact ⟨(line, x.line), List.mk_mem_zipIdx_iff_getElem?.2 hline,
          mem_onLine_iff.2 ⟨rfl, rfl, rfl, hstring, hmarker⟩⟩
  · next e hcontent =>
      constructor
      · intro hx
        cases hx
      · rintro ⟨-, rfl, ⟨bytes, line, hcontent', -⟩, -⟩
        cases hcontent.symm.trans hcontent'

theorem mem_all_iff {x : Find} : x ∈ all settings files ↔ x.IsIn settings files := by
  rw [all, List.mem_flatMap]
  constructor
  · rintro ⟨⟨source, i⟩, hfile, hx⟩
    split at hx
    · next hwanted =>
        obtain ⟨rfl, rfl, hstring, hmarker⟩ := mem_inFile_iff.1 hx
        exact ⟨List.mk_mem_zipIdx_iff_getElem?.1 hfile, hwanted, hstring, hmarker⟩
    · cases hx
  · intro hx
    refine ⟨(x.source, x.file), List.mk_mem_zipIdx_iff_getElem?.2 hx.file, ?_⟩
    rw [if_pos hx.wanted]
    exact mem_inFile_iff.2 ⟨rfl, rfl, hx.string, hx.marker⟩

/-- What is numbered stands in the order of the numbers. -/
theorem pairwise_zipIdx {α : Type} (l : List α) : l.zipIdx.Pairwise fun a b => a.2 < b.2 := by
  rw [← List.pairwise_map, List.zipIdx_map_snd]
  exact List.pairwise_lt_range'

theorem pairwise_onLine (file : Nat) (source : FoundFile) (line : Nat) (text : Text) :
    (onLine settings file source line text).Pairwise IsBefore := by
  refine List.Pairwise.filter _ (List.pairwise_map.2 ((pairwise_zipIdx _).imp ?_))
  intro s s' hlt
  exact Or.inr ⟨rfl, Or.inr ⟨rfl, hlt⟩⟩

theorem pairwise_inFile (file : Nat) (source : FoundFile) :
    (inFile settings file source).Pairwise IsBefore := by
  rw [inFile]
  split
  · refine List.pairwise_flatMap.2
      ⟨fun l _ => pairwise_onLine file source l.2 l.1, (pairwise_zipIdx _).imp ?_⟩
    intro l l' hlt x hx y hy
    obtain ⟨hfile, hline, -⟩ := mem_onLine_iff.1 hx
    obtain ⟨hfile', hline', -⟩ := mem_onLine_iff.1 hy
    exact Or.inr ⟨hfile.trans hfile'.symm, Or.inl (by rw [hline, hline']; exact hlt)⟩
  · exact List.Pairwise.nil

/-- Finds stand in the order in which files are visited. -/
theorem pairwise_all (settings : ScanSettings) (files : List FoundFile) :
    (all settings files).Pairwise IsBefore := by
  have hmem : ∀ {f : FoundFile × Nat} {x : Find},
      x ∈ (if f.1.hasType settings.fileTypes then inFile settings f.2 f.1 else []) →
      x.file = f.2 := by
    intro f x hx
    split at hx
    · exact (mem_inFile_iff.1 hx).1
    · cases hx
  refine List.pairwise_flatMap.2 ⟨fun f _ => ?_, (pairwise_zipIdx _).imp ?_⟩
  · split
    · exact pairwise_inFile f.2 f.1
    · exact List.Pairwise.nil
  · intro f f' hlt x hx y hy
    exact Or.inl (by rw [hmem hx, hmem hy]; exact hlt)

/-! ## Finds and sightings -/

theorem map_sighting_onLine (file : Nat) (source : FoundFile) (line : Nat) (text : Text) :
    (onLine settings file source line text).map sighting =
      Sighting.onLine settings.marker (Sighting.fileName source) line text := by
  rw [onLine, Sighting.onLine, List.filter_map, List.map_map]
  conv_rhs => rw [← List.zipIdx_map_fst 0 (Literals.onLine text), List.filter_map, List.map_map]
  rfl

theorem map_sighting_inFile (file : Nat) (source : FoundFile) :
    (inFile settings file source).map sighting =
      (Sighting.inFile settings.marker source).toOption.getD [] := by
  cases hcontent : source.content with
  | error e =>
      rw [inFile, Sighting.inFile, hcontent]
      rfl
  | ok bytes =>
      rw [inFile, Sighting.inFile, hcontent]
      change _ = Sighting.inText settings.marker (Sighting.fileName source) _
      rw [Sighting.inText, List.mapIdx_eq_zipIdx_map, ← List.flatMap_def, List.map_flatMap]
      exact List.flatMap_congr fun l _ => map_sighting_onLine file source l.2 l.1

/-- The sightings in a file that has a type that is asked for, if it can be read. -/
def toldOf (settings : ScanSettings) (source : FoundFile) : List Sighting :=
  if source.hasType settings.fileTypes then
    (Sighting.inFile settings.marker source).toOption.getD []
  else []

theorem map_sighting_all (settings : ScanSettings) (files : List FoundFile) :
    (all settings files).map sighting = files.flatMap (toldOf settings) := by
  conv_rhs => rw [← List.zipIdx_map_fst 0 files, List.flatMap_map]
  rw [all, List.map_flatMap]
  refine List.flatMap_congr fun f _ => ?_
  rw [toldOf]
  split
  · exact map_sighting_inFile f.2 f.1
  · rfl

theorem flatten_inFile_eq_flatMap (settings : ScanSettings) (files : List FoundFile) :
    (((files.filter (·.hasType settings.fileTypes)).map
      (Sighting.inFile settings.marker)).filterMap Except.toOption).flatten =
      files.flatMap (toldOf settings) := by
  induction files with
  | nil =>
      rfl
  | cons f files ih =>
      rw [List.flatMap_cons, ← ih, List.filter_cons, toldOf]
      split
      · rw [List.map_cons, List.filterMap_cons]
        cases (Sighting.inFile settings.marker f).toOption <;> rfl
      · rfl

/-! ## The first find of each text -/

/-- The first find of each text among some finds, in their order. -/
structure AreFirstOf (finds kept : List Find) : Prop where
  sublist : kept.Sublist finds
  nodup : (kept.map text).Nodup
  covers : ∀ x ∈ finds, x.text ∈ kept.map text
  first : ∀ x ∈ kept, ∃ before after, finds = before ++ x :: after ∧ x.text ∉ before.map text

namespace AreFirstOf

variable {finds kept : List Find} {x y : Find}

theorem nil : AreFirstOf [] [] :=
  ⟨List.Sublist.slnil, List.nodup_nil, by simp, by simp⟩

/-- A first find stays one whatever is found behind it. -/
theorem first_concat (h : AreFirstOf finds kept) (hy : y ∈ kept) (x : Find) :
    ∃ before after, finds ++ [x] = before ++ y :: after ∧ y.text ∉ before.map text := by
  obtain ⟨before, after, rfl, hnew⟩ := h.first y hy
  exact ⟨before, after ++ [x], by simp, hnew⟩

/-- A find whose text is kept already is left out. -/
theorem skip (h : AreFirstOf finds kept) (hseen : x.text ∈ kept.map text) :
    AreFirstOf (finds ++ [x]) kept where
  sublist := h.sublist.trans (List.sublist_append_left _ _)
  nodup := h.nodup
  covers y hy := by
    rcases List.mem_append.1 hy with hy | hy
    · exact h.covers y hy
    · rw [List.mem_singleton.1 hy]
      exact hseen
  first _ hy := h.first_concat hy x

/-- A find with another text is kept. -/
theorem keep (h : AreFirstOf finds kept) (hnew : x.text ∉ kept.map text) :
    AreFirstOf (finds ++ [x]) (kept ++ [x]) where
  sublist := h.sublist.append_right [x]
  nodup := by
    rw [List.map_append, List.nodup_append]
    refine ⟨h.nodup, List.pairwise_singleton _ _, ?_⟩
    rintro t ht _ hx rfl
    exact hnew (List.mem_singleton.1 hx ▸ ht)
  covers y hy := by
    rw [List.map_append, List.mem_append]
    rcases List.mem_append.1 hy with hy | hy
    · exact Or.inl (h.covers y hy)
    · exact Or.inr (List.mem_map_of_mem hy)
  first y hy := by
    rcases List.mem_append.1 hy with hy | hy
    · exact h.first_concat hy x
    · rw [List.mem_singleton.1 hy]
      refine ⟨finds, [], rfl, fun hx => ?_⟩
      obtain ⟨z, hz, htext⟩ := List.mem_map.1 hx
      exact hnew (htext ▸ h.covers z hz)

/-- Of finds in their order, the first one with a text comes before all others with it. -/
theorem eq_or_isBefore (h : AreFirstOf finds kept) (horder : finds.Pairwise IsBefore)
    (hx : x ∈ kept) (hy : y ∈ finds) (htext : y.text = x.text) : y = x ∨ x.IsBefore y := by
  obtain ⟨before, after, rfl, hnew⟩ := h.first x hx
  rcases List.mem_append.1 hy with hbefore | hafter
  · exact absurd (htext ▸ List.mem_map_of_mem hbefore) hnew
  · rcases List.mem_cons.1 hafter with rfl | hafter
    · exact Or.inl rfl
    · exact Or.inr ((List.pairwise_cons.1 (List.pairwise_append.1 horder).2.1).1 y hafter)

end AreFirstOf

theorem text_map_sighting (finds : List Find) :
    (finds.map sighting).map Sighting.text = finds.map text := by
  rw [List.map_map]
  rfl

theorem distinct_concat (ss : List Sighting) (s : Sighting) :
    Sighting.distinct (ss ++ [s]) =
      if s.text ∈ (Sighting.distinct ss).map Sighting.text then Sighting.distinct ss
      else Sighting.distinct ss ++ [s] := by
  rw [Sighting.distinct, Sighting.distinct, List.foldl_append, List.foldl_cons, List.foldl_nil]
  refine if_congr ?_ rfl rfl
  simp [List.any_eq_true]

/-- The sightings of finds without repetitions are those of the first finds of their texts. -/
theorem exists_distinct (finds : List Find) :
    ∃ kept, AreFirstOf finds kept ∧
      Sighting.distinct (finds.map sighting) = kept.map sighting := by
  induction finds using List.reverseRecOn with
  | nil =>
      exact ⟨[], AreFirstOf.nil, rfl⟩
  | append_singleton finds x ih =>
      obtain ⟨kept, hkept, hdistinct⟩ := ih
      rw [List.map_append, List.map_singleton, distinct_concat, hdistinct, text_map_sighting]
      by_cases hseen : x.text ∈ kept.map text
      · exact ⟨kept, hkept.skip hseen, if_pos hseen⟩
      · refine ⟨kept ++ [x], hkept.keep hseen, ?_⟩
        rw [List.map_append, List.map_singleton]
        exact if_neg hseen

end Find

namespace RemedyBuild

theorem areFirst_ofFiles (settings : ScanSettings) (directory : Text) (files : List FoundFile) :
    Sighting.AreFirst settings files
      (ofFiles settings directory files).catalog.sightings := by
  obtain ⟨kept, hkept, hdistinct⟩ := Find.exists_distinct (Find.all settings files)
  have hsightings :
      (ofFiles settings directory files).catalog.sightings = kept.map Find.sighting := by
    rw [← hdistinct, Find.map_sighting_all, ← Find.flatten_inFile_eq_flatMap]
    rfl
  have hin : ∀ x ∈ kept, x.IsIn settings files := fun x hx =>
    Find.mem_all_iff.1 (hkept.sublist.subset hx)
  rw [hsightings]
  constructor
  · rw [Find.text_map_sighting]
    exact hkept.nodup
  · intro s hs
    obtain ⟨x, hx, rfl⟩ := List.mem_map.1 hs
    obtain ⟨bytes, line, -, -, hstring⟩ := (hin x hx).string
    obtain ⟨hne, htrim⟩ := Literals.of_mem_onLine (List.mem_of_getElem? hstring)
    exact ⟨hne, htrim, (hin x hx).marker⟩
  · intro t
    rw [Find.text_map_sighting, List.mem_map]
    constructor
    · rintro ⟨x, hx, rfl⟩
      exact ⟨x, hin x hx, rfl⟩
    · rintro ⟨x, hx, rfl⟩
      exact List.mem_map.1 (hkept.covers x (Find.mem_all_iff.2 hx))
  · refine ⟨kept, rfl, (Find.pairwise_all settings files).sublist hkept.sublist, ?_⟩
    refine fun x hx => ⟨hin x hx, fun y hy htext => ?_⟩
    exact hkept.eq_or_isBefore (Find.pairwise_all settings files) hx (Find.mem_all_iff.2 hy) htext

end RemedyBuild

namespace FileAccess

/-- The files below a directory that is there are found and looked through. -/
theorem run_buildRemedies {σ : Type} {access : FileAccess (StateM σ)} {directory : Text}
    {s s₁ s₂ : σ} {files : List FoundFile}
    (hdirectory : (access.isDirectory directory).run s = (true, s₁))
    (hfiles : (access.filesBelow directory).run s₁ = (files, s₂)) (settings : ScanSettings) :
    (access.buildRemedies settings (some directory)).run.run s =
      (.ok (.ofFiles settings directory files), s₂) := by
  have hthere : (liftM (access.isDirectory directory) :
      ExceptT CatalogFault (StateM σ) Bool).run.run s = (.ok true, s₁) := by
    rw [run_lift, hdirectory]
  have hfound : (access.filesOf directory).run.run s = (.ok files, s₂) := by
    rw [filesOf, run_bind_of_ok hthere, if_pos rfl, run_lift, hfiles]
  dsimp only [buildRemedies]
  rw [run_bind_of_ok hfound]
  rfl

/-- Building a catalog of remedies from a directory succeeds, and its sightings are the first finds
in the files below the directory, in the order in which these are visited. -/
theorem areFirst_of_buildRemedies {σ : Type} {access : FileAccess (StateM σ)} {directory : Text}
    {s s₁ s₂ : σ} {files : List FoundFile}
    (hdirectory : (access.isDirectory directory).run s = (true, s₁))
    (hfiles : (access.filesBelow directory).run s₁ = (files, s₂)) (settings : ScanSettings) :
    ∃ b, (access.buildRemedies settings (some directory)).run.run s = (.ok b, s₂) ∧
      Sighting.AreFirst settings files b.catalog.sightings :=
  ⟨_, run_buildRemedies hdirectory hfiles settings,
    RemedyBuild.areFirst_ofFiles settings directory files⟩

/-- Sources with a message that is found three times, one that cannot be read, one whose bytes are
no text, and a file that is no source. -/
def mixedSources : List FoundFile :=
  [⟨.ofTexts ["a.hh"],
      .ok (Text.toUtf8 "\"warning only\"\nf(\" ERROR : two\", \"ERROR : two\");")⟩,
    ⟨.ofTexts ["b.cpp"], .error (.other "Permission denied (os error 13)")⟩,
    ⟨.ofTexts ["inner", "c.cpp"],
      .ok (Text.toUtf8 "\"ERROR : two\"\n// \"ERROR\"\n\"ERROR\\tone\"")⟩,
    ⟨.ofTexts ["inner", "d.h"], .ok ⟨#[0x22, 0x45, 0x52, 0x52, 0x4F, 0x52, 0xFF, 0x22]⟩⟩,
    ⟨.ofTexts ["notes.txt"], .ok (Text.toUtf8 "\"ERROR : three\"")⟩]

theorem areFirst_of_buildRemedies_mixedSources :
    let t : FileTree := OrderedMap.empty.insert (.ofTexts ["src"]) .directory
    let access := { FileTree.access none .empty with filesBelow := fun _ => return mixedSources }
    (access.isDirectory "src").run t = (true, t) ∧
    (access.filesBelow "src").run t = (mixedSources, t) ∧
    ∃ b, (access.buildRemedies .standard (some "src")).run.run t = (.ok b, t) ∧
      b.catalog.sightings = [⟨"ERROR : two", "a.hh:2"⟩, ⟨"ERROR one", "inner/c.cpp:3"⟩,
        ⟨"ERROR\uFFFD", "inner/d.h:1"⟩] ∧
      Sighting.AreFirst .standard mixedSources b.catalog.sightings := by
  intro t access
  have hdirectory : (access.isDirectory "src").run t = (true, t) :=
    congrArg (·, t) (show t.isDirectory "src" = true by decide +kernel)
  have hfiles : (access.filesBelow "src").run t = (mixedSources, t) := rfl
  obtain ⟨b, hrun, hfirst⟩ := areFirst_of_buildRemedies hdirectory hfiles .standard
  refine ⟨hdirectory, hfiles, b, hrun, ?_, hfirst⟩
  cases hrun.symm.trans (run_buildRemedies hdirectory hfiles .standard)
  decide +kernel

end FileAccess
end DspCheck
