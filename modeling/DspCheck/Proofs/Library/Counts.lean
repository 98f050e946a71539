import DspCheck.Proofs.Catalog.RoundTrip
import DspCheck.Proofs.Library.Build

/-!
# Built catalogs can be held in artifacts

A library documents no more functions than it has lines, and a line of documentation shows no more
arguments and signals than it has characters.  So the counts of what is read from a library are
at most the number of its characters (`LibraryFile.fits_of_read`).

A catalog that is built from files keeps these counts.  If no file is larger than the largest count,
its counts fit (`CatalogBuild.fits_ofFiles`), and it is read back from its JSON text
(`CatalogBuild.ofJson_toJson_ofFiles`).
-/

namespace DspCheck

/-! ## Sizes of texts and lists -/

namespace Text

theorem length_le_byteSize (t : Text) : t.length ≤ byteSize t := by
  induction t with
  | nil =>
      exact Nat.le_refl 0
  | cons c t ih =>
      have hpos := c.utf8Size_pos
      rw [byteSize_cons, List.length_cons]
      omega

theorem size_toUtf8 (t : Text) : (toUtf8 t).size = byteSize t := by
  have key : t.utf8Encode.size = byteSize t := by
    induction t with
    | nil =>
        rfl
    | cons c t ih =>
        rw [List.utf8Encode_cons, ByteArray.size_append, ih, byteSize_cons,
          List.utf8Encode_singleton, List.size_toByteArray, String.length_utf8EncodeChar]
  exact (congrArg ByteArray.size String.toByteArray_ofList).trans key

theorem toUtf8_of_ofUtf8? {bytes : ByteArray} {t : Text} (h : ofUtf8? bytes = some t) :
    toUtf8 t = bytes := by
  obtain ⟨s, hs, rfl⟩ := Option.map_eq_some_iff.1 h
  unfold String.fromUTF8? at hs
  split at hs
  · cases hs
    rw [toUtf8, String.ofList_toList]
    rfl
  · cases hs

/-- Bytes that are a text hold no more characters than there are bytes. -/
theorem length_le_size {bytes : ByteArray} {t : Text} (h : ofUtf8? bytes = some t) :
    t.length ≤ bytes.size := by
  rw [← toUtf8_of_ofUtf8? h, size_toUtf8]
  exact length_le_byteSize t

end Text

namespace ArgumentList

/-- Between the texts of a join stand one separator less than there are texts. -/
theorem length_le_length_join (ts : List Text) : ts.length ≤ (Text.join "," ts).length + 1 := by
  induction ts with
  | nil =>
      exact Nat.zero_le _
  | cons t ts ih =>
      cases ts with
      | nil =>
          exact Nat.le_add_left ..
      | cons u ts =>
          have hcomma : (",".toList : Text).length = 1 := rfl
          rw [Text.join_cons_cons, List.length_cons, List.length_append, List.length_append, hcomma]
          omega

/-- An argument list has no more arguments than characters, and what follows it has the others. -/
theorem length_args_add_length_rest_le {t : Text} {l : ArgumentList} (h : read? t = some l) :
    l.args.length + l.rest.length ≤ t.length := by
  rw [← extent_append_rest h, List.length_append]
  apply Nat.add_le_add_right
  unfold read? at h
  split at h
  · obtain ⟨p, -, rfl⟩ := Option.map_eq_some_iff.1 h
    have hargs : (argsOf p.1).length ≤ p.1.length := by
      unfold argsOf
      split
      · exact Nat.zero_le _
      · rw [List.length_map]
    have hpieces := length_le_length_join p.1
    simp only [List.length_append, List.length_cons, List.length_nil]
    omega
  · cases h

end ArgumentList

/-! ## What lines of documentation show -/

namespace Shape

theorem placeholdersFrom_le (before? : Option Char) (depth : Nat) (t : Text) :
    placeholdersFrom before? depth t ≤ t.length := by
  induction t generalizing before? depth with
  | nil =>
      exact Nat.le_refl 0
  | cons c t ih =>
      have hstill := ih (some c) depth
      rw [placeholdersFrom, List.length_cons]
      split
      · exact (ih ..).trans (Nat.le_succ _)
      split
      · exact (ih ..).trans (Nat.le_succ _)
      dsimp only
      split
      · exact Nat.succ_le_succ hstill
      · exact hstill.trans (Nat.le_succ _)

theorem length_beforeCall_le (t : Text) : (beforeCall t).length ≤ t.length := by
  unfold beforeCall
  split
  · next r hr =>
      have hlength : t.length = r.length + 1 := by
        rw [← List.length_reverse, hr, List.length_cons]
      rw [List.length_reverse, hlength]
      exact ((List.dropWhile_suffix _).length_le).trans (Nat.le_succ _)
  · exact Nat.le_refl _

/-- The counts of a shape are at most a given number. -/
structure CountsTo (n : Nat) (s : Shape) : Prop where
  args : s.args.length ≤ n
  inputs : s.inputs ≤ n
  outputs : s.outputs ≤ n

variable {n : Nat} {name t : Text} {s : Shape}

theorem countsTo_ofArgs {args : List Text} (hn : 1 ≤ n) (h : args.length ≤ n) :
    (ofArgs args).CountsTo n :=
  ⟨h, Nat.zero_le n, hn⟩

theorem length_argsOfDefinition_le (name definition : Text) :
    (argsOfDefinition name definition).length ≤ definition.length := by
  unfold argsOfDefinition
  split
  · exact Nat.zero_le _
  · next rest hrest =>
      split
      · exact Nat.zero_le _
      · next l hl =>
          have hargs := ArgumentList.length_args_add_length_rest_le hl
          have htrim : (Text.trimStart rest).length ≤ rest.length :=
            (List.dropWhile_suffix _).length_le
          rw [Text.after?_eq_some_iff.1 hrest, List.length_append]
          omega

theorem length_argsAfter?_le {afterName rest : Text} {args : List Text}
    (h : argsAfter? afterName = some (args, rest)) :
    args.length + rest.length ≤ afterName.length := by
  unfold argsAfter? at h
  dsimp only at h
  split at h
  · obtain ⟨l, hl, hpair⟩ := Option.map_eq_some_iff.1 h
    cases hpair
    exact (ArgumentList.length_args_add_length_rest_le hl).trans
      (List.dropWhile_suffix _).length_le
  · cases h
    exact (Nat.zero_add _).le

/-- A line shows no more than it has characters. -/
theorem countsTo_of_ofLine? (hn : 1 ≤ n) (ht : t.length ≤ n) (h : ofLine? name t = some s) :
    s.CountsTo n := by
  simp only [ofLine?, Option.bind_eq_bind, Option.bind_eq_some_iff, Option.pure_def,
    Option.some.injEq] at h
  obtain ⟨⟨beforeName, afterName⟩, hbreak, ⟨args, rest⟩, hargs, rfl⟩ := h
  have hline := congrArg List.length (Text.append_of_breakAtWord? hbreak)
  simp only [List.length_append] at hline
  have hafter : args.length + rest.length ≤ afterName.length := length_argsAfter?_le hargs
  constructor
  · change args.length ≤ n
    omega
  · have hbefore := (placeholdersFrom_le none 0 _).trans (length_beforeCall_le beforeName)
    exact hbefore.trans (by omega)
  · have hrest := placeholdersFrom_le none 0 rest
    exact Nat.max_le.2 ⟨hn, hrest.trans (by omega)⟩

end Shape

/-! ## What libraries document -/

namespace DocBlock

variable {source : Text} {b : DocBlock}

/-- A block shows no more than its library has characters. -/
theorem countsTo_of_mem {n : Nat} (hn : 1 ≤ n) (hsource : source.length ≤ n)
    (h : b ∈ (DocSection.ofSource source).filterMap DocSection.block?) :
    (b.shape?.getD (.ofArgs [])).CountsTo n := by
  obtain ⟨husage, hdefinition⟩ := exists_line_of_mem h
  have hlength : ∀ t, (∃ line ∈ Text.lines source, t <:+: line) → t.length ≤ n := by
    rintro t ⟨line, hline, ht⟩
    exact (ht.trans (Text.isInfix_of_mem_lines hline)).length_le.trans hsource
  cases hshape : b.shape? with
  | none =>
      exact Shape.countsTo_ofArgs hn (Nat.zero_le n)
  | some shape =>
      unfold shape? at hshape
      split at hshape
      · cases hshape
        apply Shape.countsTo_ofArgs hn
        cases hb : b.definition? with
        | none =>
            exact Nat.zero_le n
        | some definition =>
            exact (Shape.length_argsOfDefinition_le b.name definition).trans
              (hlength definition (hdefinition definition hb))
      · obtain ⟨line, hline, hs⟩ := List.exists_of_findSome?_eq_some hshape
        exact Shape.countsTo_of_ofLine? hn (hlength line (husage line hline)) hs

end DocBlock

theorem DocSection.length_cut_le (n : Nat) (ls : List DocLine) :
    (cut n ls).length ≤ ls.length := by
  induction ls generalizing n with
  | nil =>
      exact Nat.le_refl 0
  | cons l ls ih =>
      rw [cut]
      split
      · exact Nat.succ_le_succ (ih (n + 1))
      · exact (ih (n + 1)).trans (Nat.le_succ _)

/-- The counts of what is read from a library fit if the number of its characters does. -/
theorem LibraryFile.fits_of_read {limits : DocLimits} {file source : Text}
    {aliases : OrderedMap Text Text} {l : LibraryFile} (hsource : source.length ≤ Value.maxCount)
    (h : read limits file source aliases = .ok l) :
    (l.info file).Fits ∧ ∀ s ∈ l.functions, s.Fits := by
  obtain ⟨library, hparts, -⟩ := exists_of_read_eq_ok h
  have hfunctions : l.functions = ((DocSection.ofSource source).filterMap DocSection.block?).map
      (DocBlock.signature limits library) := congrArg LibraryFile.functions hparts
  constructor
  · change l.functions.length ≤ Value.maxCount
    calc l.functions.length
        = ((DocSection.ofSource source).filterMap DocSection.block?).length := by
          rw [hfunctions, List.length_map]
      _ ≤ (DocSection.ofSource source).length := List.length_filterMap_le ..
      _ ≤ ((Text.lines source).map DocLine.classify).length := DocSection.length_cut_le ..
      _ = (Text.lines source).length := List.length_map _
      _ ≤ source.length := Text.length_lines_le source
      _ ≤ Value.maxCount := hsource
  · intro s hs
    rw [hfunctions] at hs
    obtain ⟨b, hb, rfl⟩ := List.mem_map.1 hs
    have hcounts := DocBlock.countsTo_of_mem (by decide) hsource hb
    exact ⟨hcounts.args, hcounts.inputs, hcounts.outputs⟩

/-! ## What is built -/

namespace CatalogDraft

/-- The counts of all that a draft holds fit. -/
structure Fits (d : CatalogDraft) : Prop where
  libraries : ∀ e ∈ d.libraries.entries, e.2.Fits
  definitions : ∀ e ∈ d.definitions.entries, e.2.signature.Fits

theorem fits_ofSources (limits : DocLimits) {sources : List SourceFile}
    (hsources : ∀ s ∈ sources, s.text.length ≤ Value.maxCount) :
    (ofSources limits sources).Fits where
  libraries e he := by
    obtain ⟨s, hs, l, hread, -, rfl⟩ := exists_of_mem_libraries_ofSources he
    exact (LibraryFile.fits_of_read (hsources s hs) hread).1
  definitions e he := by
    obtain ⟨-, s, hs, l, hread, hfunction⟩ := exists_of_mem_definitions_ofSources he
    exact (LibraryFile.fits_of_read (hsources s hs) hread).2 _ hfunction

end CatalogDraft

namespace CatalogBuild

variable {settings : LibrarySettings} {files : List FoundFile}

theorem length_le_of_mem_readable (settings : LibrarySettings)
    (hfiles : ∀ f ∈ files, ∀ bytes, f.content = .ok bytes → bytes.size ≤ Value.maxCount)
    {s : SourceFile} (hs : s ∈ (readable settings files).1) : s.text.length ≤ Value.maxCount := by
  obtain ⟨read, hread, hok⟩ := List.mem_filterMap.1 hs
  obtain ⟨f, hf, rfl⟩ := List.mem_map.1 hread
  unfold FoundFile.source at hok
  split at hok
  · next text htext =>
      cases hok
      obtain ⟨bytes, hbytes, hdecoded⟩ := exists_of_bind_eq_ok htext
      split at hdecoded
      · cases hdecoded
      · next t ht =>
          cases hdecoded
          exact (Text.length_le_size ht).trans
            (hfiles f (List.mem_of_mem_filter hf) bytes hbytes)
  · cases hok

/-- The counts of a catalog fit if the sizes of the files that it is built from do. -/
theorem fits_ofFiles (directory : Text)
    (hfiles : ∀ f ∈ files, ∀ bytes, f.content = .ok bytes → bytes.size ≤ Value.maxCount) :
    (ofFiles settings directory files).catalog.Fits := by
  have h := CatalogDraft.fits_ofSources settings.limits
    fun _ => length_le_of_mem_readable settings hfiles
  constructor
  · intro l hl
    obtain ⟨e, he, rfl⟩ := List.mem_map.1 hl
    exact h.libraries e he
  · intro s hs
    obtain ⟨e, he, rfl⟩ := List.mem_map.1 hs
    obtain ⟨⟨fullName, n⟩, hn, rfl⟩ := List.mem_map.1 he
    exact h.definitions _ hn

/-- A catalog that is built from files is read back from its JSON text. -/
theorem ofJson_toJson_ofFiles (directory : Text)
    (hfiles : ∀ f ∈ files, ∀ bytes, f.content = .ok bytes → bytes.size ≤ Value.maxCount) :
    Catalog.ofJson (ofFiles settings directory files).catalog.toJson =
      .ok (ofFiles settings directory files).catalog :=
  (fits_ofFiles directory hfiles).ofJson_eq_ok rfl

end CatalogBuild
end DspCheck
