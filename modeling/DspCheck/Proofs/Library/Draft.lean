import DspCheck.Library.Build
import DspCheck.Proofs.Library.Signature

/-!
# What a draft of library files holds

The *definitions* of library files are those of their documented functions, file by file and block
by block (`SourceFile.definitions`).  A file that documents something also brings an entry for its
library (`SourceFile.entry?`).

A draft merges both (`CatalogDraft.Merges`): under each full name it holds the last definition, at
the place of the first one, and it warns about each one that comes behind another one of its name;
and under each name of a file it holds the last entry.  One definition that is added keeps this up
(`Merges.define`), so it holds of all files together (`merges_ofSources`).
-/

namespace DspCheck

namespace Definition

/-- The name under which a definition stands in a catalog. -/
def fullName (n : Definition) : Text :=
  n.signature.fullName

/-- The last one of some definitions under a name. -/
def lastOf? (name : Text) (ns : List Definition) : Option Definition :=
  (ns.filter fun n => n.fullName = name).getLast?

/-- The definitions under names that have been defined before, each with the last one before it
under its name. -/
def repetitions (ns : List Definition) : List (Definition × Definition) :=
  ns.zipIdx.filterMap fun n => (lastOf? n.1.fullName (ns.take n.2)).map (n.1, ·)

theorem lastOf?_concat (name : Text) (ns : List Definition) (n : Definition) :
    lastOf? name (ns ++ [n]) = if n.fullName = name then some n else lastOf? name ns := by
  unfold lastOf?
  rw [List.filter_append]
  split
  · next h => simp [h]
  · next h => simp [h]

/-- The last definition is a repetition if some definition before it is under its name. -/
theorem repetitions_concat (ns : List Definition) (n : Definition) :
    repetitions (ns ++ [n]) =
      repetitions ns ++ ((lastOf? n.fullName ns).map (n, ·)).toList := by
  have hbefore : ∀ m ∈ ns.zipIdx, (ns ++ [n]).take m.2 = ns.take m.2 := by
    intro m hm
    have hlt := List.snd_lt_of_mem_zipIdx hm
    exact List.take_append_of_le_length (by omega)
  unfold repetitions
  rw [List.zipIdx_append, List.filterMap_append]
  congr 1
  · exact List.filterMap_congr fun m hm => by rw [hbefore m hm]
  · cases h : lastOf? n.fullName ns <;> simp [h]

/-- Definitions by the names under which a catalog has them. -/
def byName (ns : List Definition) : OrderedMap Text Definition :=
  OrderedMap.ofList (ns.map fun n => (n.fullName, n))

theorem byName_concat (ns : List Definition) (n : Definition) :
    byName (ns ++ [n]) = (byName ns).insert n.fullName n := by
  rw [byName, List.map_append, List.map_singleton, OrderedMap.ofList_concat]
  rfl

/-- Each name stands where it was defined first. -/
theorem keys_byName (ns : List Definition) :
    (byName ns).keys = (ns.map fullName).eraseDups := by
  rw [byName, OrderedMap.keys_ofList, List.map_map]
  rfl

/-- Under each name there is the definition that came last. -/
theorem get?_byName (ns : List Definition) (name : Text) :
    (byName ns).get? name = lastOf? name ns := by
  induction ns using List.reverseRecOn with
  | nil =>
      rfl
  | append_singleton ns n ih =>
      rw [byName_concat, OrderedMap.get?_insert, lastOf?_concat, ih]

/-- Every definition has a name of its own or is a repetition. -/
theorem length_eq_size_add_repetitions (ns : List Definition) :
    ns.length = (byName ns).size + (repetitions ns).length := by
  have hsize : ∀ m : OrderedMap Text Definition, m.size = m.keys.length := by
    intro m
    simp [OrderedMap.size, OrderedMap.keys]
  induction ns using List.reverseRecOn with
  | nil =>
      rfl
  | append_singleton ns n ih =>
      rw [hsize] at ih ⊢
      rw [byName_concat, OrderedMap.keys_insert, repetitions_concat, ← get?_byName]
      cases hget : (byName ns).get? n.fullName with
      | none =>
          have hnew := OrderedMap.get?_eq_none_iff.1 hget
          simp only [if_neg hnew, List.length_append, List.length_singleton, Option.map_none,
            Option.toList_none, List.length_nil]
          omega
      | some earlier =>
          have hmem : n.fullName ∈ (byName ns).keys :=
            List.mem_map_of_mem (OrderedMap.get?_eq_some_iff.1 hget)
          simp only [if_pos hmem, List.length_append, List.length_singleton, Option.map_some,
            Option.toList_some]
          omega

end Definition

namespace BuildWarning

/-- Whether a warning is about a function that is defined again: it is about a file as a whole and
begins with the quoted name of the function. -/
def isAboutRepetition (w : BuildWarning) : Bool :=
  w.line? = none && w.message.head? = some '`'

/-- No warning about a file that has been read is about a repetition, since each one names a
line. -/
theorem isAboutRepetition_of_mem_ofParts {limits : DocLimits} {file library : Text}
    {blocks : List DocBlock} {oddHeaders : List OddHeader} {w : BuildWarning}
    (hw : w ∈ (LibraryFile.ofParts limits file library blocks oddHeaders).warnings) :
    w.isAboutRepetition = false := by
  rcases List.mem_append.1 hw with hw | hw
  · obtain ⟨h, -, rfl⟩ := List.mem_map.1 hw
    rfl
  · obtain ⟨b, -, hb⟩ := List.mem_filterMap.1 hw
    unfold DocBlock.warning? at hb
    split at hb
    · cases hb
    · cases hb
      rfl

end BuildWarning

namespace SourceFile

/-- The definitions of the functions that a file documents, if it has a short name. -/
def definitions (limits : DocLimits) (aliases : OrderedMap Text Text) (s : SourceFile) :
    List Definition :=
  match LibraryFile.nameOf? s.file s.text aliases with
  | none => []
  | some library =>
      ((DocSection.ofSource s.text).filterMap DocSection.block?).map fun b =>
        ⟨s.file, b.signature limits library⟩

end SourceFile

namespace LibraryFile

/-- The entry of a file. -/
def info (file : Text) (l : LibraryFile) : LibraryInfo :=
  ⟨file, l.library, l.functions.length⟩

/-- The entry of a file under its name, if it documents something. -/
def entry? (file : Text) (l : LibraryFile) : Option (Text × LibraryInfo) :=
  if l.functions = [] then none else some (file, l.info file)

end LibraryFile

/-- The entry that a file brings: one if it has a short name and documents something. -/
def SourceFile.entry? (limits : DocLimits) (aliases : OrderedMap Text Text) (s : SourceFile) :
    Option (Text × LibraryInfo) :=
  (LibraryFile.read limits s.file s.text aliases).toOption.bind (LibraryFile.entry? s.file)

namespace CatalogDraft

/-- A draft holds under each name the last one of some entries.  It holds under each full name the
last one of some definitions, where the first one came, and it warns about each one that replaces
another one. -/
structure Merges (es : List (Text × LibraryInfo)) (ns : List Definition) (d : CatalogDraft) :
    Prop where
  libraries : d.libraries = OrderedMap.ofList es
  definitions : d.definitions = Definition.byName ns
  warnings : d.warnings.filter BuildWarning.isAboutRepetition =
    (Definition.repetitions ns).map fun r => duplicate r.1 r.2

variable {limits : DocLimits} {aliases : OrderedMap Text Text}
  {es : List (Text × LibraryInfo)} {ns : List Definition} {d : CatalogDraft}

theorem merges_empty : empty.Merges [] [] where
  libraries := rfl
  definitions := rfl
  warnings := rfl

theorem Merges.warn (h : d.Merges es ns) {ws : List BuildWarning}
    (hws : ∀ w ∈ ws, w.isAboutRepetition = false) : (d.warn ws).Merges es ns where
  libraries := h.libraries
  definitions := h.definitions
  warnings := by
    have hnone : ws.filter BuildWarning.isAboutRepetition = [] := by
      rw [List.filter_eq_nil_iff]
      intro w hw
      simp [hws w hw]
    rw [CatalogDraft.warn, List.filter_append, hnone, List.append_nil]
    exact h.warnings

/-- A definition that is added is the last one under its name. -/
theorem Merges.define (h : d.Merges es ns) (n : Definition) :
    (d.define n).Merges es (ns ++ [n]) where
  libraries := h.libraries
  definitions := by
    rw [Definition.byName_concat, ← h.definitions]
    rfl
  warnings := by
    have hearlier : d.definitions.get? n.signature.fullName =
        Definition.lastOf? n.fullName ns := by
      rw [h.definitions]
      exact Definition.get?_byName ns n.fullName
    have hrepeated : ∀ earlier? : Option Definition,
        (earlier?.toList.map (duplicate n)).filter BuildWarning.isAboutRepetition =
          ((earlier?.map (n, ·)).toList).map fun r => duplicate r.1 r.2 := by
      intro earlier?
      cases earlier? <;> rfl
    rw [Definition.repetitions_concat, List.map_append, ← h.warnings, ← hrepeated, ← hearlier,
      ← List.filter_append]
    rfl

theorem Merges.foldl_define (h : d.Merges es ns) (file : Text) (signatures : List Signature) :
    (signatures.foldl (fun d s => d.define ⟨file, s⟩) d).Merges es
      (ns ++ signatures.map (⟨file, ·⟩)) := by
  induction signatures generalizing d ns with
  | nil =>
      rw [List.map_nil, List.append_nil]
      exact h
  | cons s signatures ih =>
      have hrest := ih (h.define ⟨file, s⟩)
      rw [List.append_assoc] at hrest
      exact hrest

/-- A file that is added brings its entry, if it documents something, and its definitions. -/
theorem Merges.addFile (h : d.Merges es ns) (file : Text) {l : LibraryFile}
    (hwarnings : ∀ w ∈ l.warnings, w.isAboutRepetition = false) :
    (d.addFile file l).Merges (es ++ (l.entry? file).toList)
      (ns ++ l.functions.map (⟨file, ·⟩)) := by
  have hwarn := h.warn hwarnings
  unfold CatalogDraft.addFile LibraryFile.entry?
  split
  · next hnil =>
      rw [hnil, List.map_nil, List.append_nil, Option.toList_none, List.append_nil]
      exact hwarn
  · refine Merges.foldl_define ?_ file l.functions
    refine ⟨?_, hwarn.definitions, hwarn.warnings⟩
    rw [Option.toList_some, OrderedMap.ofList_concat, ← h.libraries]
    rfl

/-- What is read of a file are its definitions. -/
theorem definitions_of_read_eq_ok {s : SourceFile} {l : LibraryFile}
    (h : LibraryFile.read limits s.file s.text aliases = .ok l) :
    s.definitions limits aliases = l.functions.map (⟨s.file, ·⟩) ∧
      ∀ w ∈ l.warnings, w.isAboutRepetition = false := by
  obtain ⟨library, rfl, hname⟩ := LibraryFile.exists_of_read_eq_ok h
  refine ⟨?_, fun w => BuildWarning.isAboutRepetition_of_mem_ofParts⟩
  rcases hname with hname | ⟨hname, hblocks⟩
  · rw [SourceFile.definitions, hname, LibraryFile.ofParts, List.map_map]
    rfl
  · rw [SourceFile.definitions, hname, hblocks]
    rfl

/-- A file that is left out has no short name, and so no definitions. -/
theorem definitions_of_read_eq_error {s : SourceFile} {w : BuildWarning}
    (h : LibraryFile.read limits s.file s.text aliases = .error w) :
    s.definitions limits aliases = [] ∧ w = LibraryFile.unnamed s.file := by
  obtain ⟨hname, -, hw⟩ := LibraryFile.read_eq_error_iff.1 h
  rw [SourceFile.definitions, hname]
  exact ⟨rfl, hw⟩

/-- A definition comes from a file that has been read. -/
theorem exists_of_mem_definitions {s : SourceFile} {n : Definition}
    (h : n ∈ s.definitions limits aliases) :
    ∃ l, LibraryFile.read limits s.file s.text aliases = .ok l ∧ n.signature ∈ l.functions := by
  cases hread : LibraryFile.read limits s.file s.text aliases with
  | error w =>
      rw [(definitions_of_read_eq_error hread).1] at h
      cases h
  | ok l =>
      rw [(definitions_of_read_eq_ok hread).1] at h
      obtain ⟨signature, hsignature, rfl⟩ := List.mem_map.1 h
      exact ⟨l, rfl, hsignature⟩

theorem Merges.addSource (h : d.Merges es ns) (s : SourceFile) :
    (d.addSource limits aliases s).Merges (es ++ (s.entry? limits aliases).toList)
      (ns ++ s.definitions limits aliases) := by
  unfold CatalogDraft.addSource SourceFile.entry?
  split
  · next w hread =>
      obtain ⟨hnil, rfl⟩ := definitions_of_read_eq_error hread
      rw [hnil, hread, List.append_nil]
      change CatalogDraft.Merges (es ++ []) ns _
      rw [List.append_nil]
      exact h.warn (List.forall_mem_singleton.2 rfl)
  · next l hread =>
      obtain ⟨hdefinitions, hwarnings⟩ := definitions_of_read_eq_ok hread
      rw [hdefinitions, hread]
      exact h.addFile s.file hwarnings

/-- A draft of files merges their entries and their definitions in the order of the files. -/
theorem merges_ofSources (limits : DocLimits) (sources : List SourceFile) :
    (ofSources limits sources).Merges
      (sources.filterMap (SourceFile.entry? limits (aliasesIn sources)))
      (sources.flatMap (SourceFile.definitions limits (aliasesIn sources))) := by
  unfold ofSources
  generalize aliasesIn sources = aliases
  induction sources using List.reverseRecOn with
  | nil =>
      exact merges_empty
  | append_singleton sources s ih =>
      rw [List.foldl_append, List.filterMap_append, List.flatMap_append, List.flatMap_singleton]
      have hentry : [s].filterMap (SourceFile.entry? limits aliases) =
          (s.entry? limits aliases).toList := by
        cases h : s.entry? limits aliases <;> simp [h]
      rw [hentry]
      exact ih.addSource s

/-- A file brings an entry if and only if it has definitions, and the entry counts them. -/
theorem entry?_eq_some_iff {s : SourceFile} {e : Text × LibraryInfo} :
    s.entry? limits aliases = some e ↔ ∃ l,
      LibraryFile.read limits s.file s.text aliases = .ok l ∧ l.functions ≠ [] ∧
        e = (s.file, l.info s.file) := by
  rw [SourceFile.entry?]
  cases LibraryFile.read limits s.file s.text aliases with
  | error w =>
      constructor
      · intro h
        cases h
      · rintro ⟨l, h, -⟩
        cases h
  | ok l =>
      change (if l.functions = [] then none else some (s.file, l.info s.file)) = some e ↔ _
      constructor
      · intro h
        split at h
        · cases h
        · next hne =>
            exact ⟨l, rfl, hne, (Option.some.inj h).symm⟩
      · rintro ⟨_, ⟨⟩, hne, rfl⟩
        rw [if_neg hne]

/-- The entries are those of the files that have definitions. -/
theorem map_fst_filterMap_entry? (sources : List SourceFile) :
    (sources.filterMap (SourceFile.entry? limits aliases)).map Prod.fst =
      (sources.filter fun s => s.definitions limits aliases ≠ []).map SourceFile.file := by
  induction sources with
  | nil =>
      rfl
  | cons s sources ih =>
      rw [List.filterMap_cons, List.filter_cons]
      cases hread : LibraryFile.read limits s.file s.text aliases with
      | error w =>
          have hentry : s.entry? limits aliases = none := by
            rw [SourceFile.entry?, hread]
            rfl
          rw [hentry, (definitions_of_read_eq_error hread).1]
          simpa using ih
      | ok l =>
          have hentry : s.entry? limits aliases = l.entry? s.file := by
            rw [SourceFile.entry?, hread]
            rfl
          rw [hentry, (definitions_of_read_eq_ok hread).1, LibraryFile.entry?]
          by_cases hnil : l.functions = []
          · simpa [hnil] using ih
          · simpa [hnil] using ih

end CatalogDraft
end DspCheck
