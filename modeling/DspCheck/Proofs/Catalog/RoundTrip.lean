import DspCheck.Catalog.Document
import DspCheck.Proofs.Value

/-!
# Catalogs survive their documents

A catalog is written as a document that can be read (`writable_toValue`), and its document holds
the catalog itself (`ofValue?_toValue`), as long as its counts can be held in an artifact (`Fits`).
A catalog that has been read has such counts and the current version.  So a catalog that has been
built or read is read back from its JSON text as it is (`ofJson_toJson`).
-/

namespace DspCheck

open Json (Writable)

namespace LibraryInfo

/-- The count of the entry can be held in an artifact. -/
def Fits (l : LibraryInfo) : Prop :=
  l.functionCount ≤ Value.maxCount

theorem writable_toValue (l : LibraryInfo) : Writable l.toValue := by
  refine Writable.record ?_
  simp only [List.forall_mem_cons]
  exact ⟨Writable.text _, Writable.text _, Writable.natural _, List.forall_mem_nil _⟩

theorem ofValue?_toValue {l : LibraryInfo} (h : l.Fits) : ofValue? l.toValue = some l := by
  have hnodup : fieldNames.Nodup := by
    decide
  obtain ⟨field, hread, hfield⟩ := Value.exists_fieldsOf? (v := l.toValue) rfl fieldNames hnodup
  rw [ofValue?, hread]
  simp only [List.forall_mem_cons] at hfield
  obtain ⟨hfile, hlibrary, hcount, -⟩ := hfield
  simp only [Option.bind_eq_bind, Option.bind_some, Value.required, hfile, hlibrary, hcount,
    Value.asText?, Value.asCount?_natural h, Option.pure_def]

theorem fits_of_ofValue? {v : Value} {l : LibraryInfo} (h : ofValue? v = some l) : l.Fits := by
  simp only [ofValue?, Value.required, Option.bind_eq_bind, Option.bind_eq_some_iff,
    Option.pure_def, Option.some.injEq] at h
  obtain ⟨field, -, file, -, library, -, count, ⟨w, -, hcount⟩, rfl⟩ := h
  exact Value.le_of_asCount? hcount

end LibraryInfo

namespace Signature

/-- The counts of the signature can be held in an artifact. -/
structure Fits (s : Signature) : Prop where
  argCount : s.argCount ≤ Value.maxCount
  inputs : s.inputs ≤ Value.maxCount
  outputs : s.outputs ≤ Value.maxCount

theorem writable_toValue (s : Signature) : Writable s.toValue := by
  refine Writable.record ?_
  simp only [List.forall_mem_cons]
  exact ⟨Writable.text _, Writable.text _, Writable.text _, Value.writable_ofTexts _,
    Writable.natural _, Writable.natural _, Writable.natural _, Writable.text _,
    Value.writable_ofMap Writable.text _, Writable.text _, List.forall_mem_nil _⟩

theorem ofValue?_toValue {s : Signature} (h : s.Fits) : ofValue? s.toValue = some s := by
  have hnodup : fieldNames.Nodup := by
    decide
  obtain ⟨field, hread, hfield⟩ := Value.exists_fieldsOf? (v := s.toValue) rfl fieldNames hnodup
  have hdocs : Value.asMapOf? Value.asText? (Value.ofMap .text s.paramDocs) = some s.paramDocs :=
    Value.asMapOf?_ofMap fun _ _ => rfl
  rw [ofValue?, hread]
  simp only [List.forall_mem_cons] at hfield
  obtain ⟨hlibrary, hname, hfull, hargs, hcount, hinputs, houtputs, hdescription, hparams,
    hsample, -⟩ := hfield
  simp only [Option.bind_eq_bind, Option.bind_some, Value.required, Value.defaulted, hlibrary,
    hname, hfull, hargs, hcount, hinputs, houtputs, hdescription, hparams, hsample, Value.asText?,
    Value.asListOf?_ofTexts, Value.asCount?_natural h.argCount, Value.asCount?_natural h.inputs,
    Value.asCount?_natural h.outputs, hdocs, Option.pure_def]

theorem fits_of_ofValue? {v : Value} {s : Signature} (h : ofValue? v = some s) : s.Fits := by
  simp only [ofValue?, Value.required, Option.bind_eq_bind, Option.bind_eq_some_iff,
    Option.pure_def, Option.some.injEq] at h
  obtain ⟨field, -, library, -, name, -, fullName, -, args, -, argCount, ⟨v, -, hargs⟩, inputs,
    ⟨w, -, hinputs⟩, outputs, ⟨x, -, houtputs⟩, description, -, docs, -, sample, -, rfl⟩ := h
  constructor
  · exact Value.le_of_asCount? hargs
  · exact Value.le_of_asCount? hinputs
  · exact Value.le_of_asCount? houtputs

end Signature

namespace Catalog

/-- All counts of the catalog can be held in an artifact. -/
structure Fits (c : Catalog) : Prop where
  libraries : ∀ l ∈ c.libraries.values, l.Fits
  functions : ∀ s ∈ c.functions.values, s.Fits

theorem writable_toValue (c : Catalog) : Writable c.toValue := by
  refine Writable.record ?_
  simp only [List.forall_mem_cons]
  exact ⟨Writable.text _, Writable.text _,
    Value.writable_ofMap LibraryInfo.writable_toValue _,
    Value.writable_ofMap Signature.writable_toValue _, List.forall_mem_nil _⟩

theorem ofValue?_toValue {c : Catalog} (h : c.Fits) : ofValue? c.toValue = some c := by
  have hnodup : fieldNames.Nodup := by
    decide
  obtain ⟨field, hread, hfield⟩ := Value.exists_fieldsOf? (v := c.toValue) rfl fieldNames hnodup
  have hlibs := Value.asMapOf?_ofMap fun l hl => LibraryInfo.ofValue?_toValue (h.libraries l hl)
  have hfuns := Value.asMapOf?_ofMap fun s hs => Signature.ofValue?_toValue (h.functions s hs)
  rw [ofValue?, hread]
  simp only [List.forall_mem_cons] at hfield
  obtain ⟨hversion, hsource, hlibraries, hfunctions, -⟩ := hfield
  simp only [Option.bind_eq_bind, Option.bind_some, Value.required, hversion, hsource, hlibraries,
    hfunctions, Value.asText?, hlibs, hfuns, Option.pure_def]

theorem fits_of_ofValue? {v : Value} {c : Catalog} (h : ofValue? v = some c) : c.Fits := by
  simp only [ofValue?, Value.required, Option.bind_eq_bind, Option.bind_eq_some_iff,
    Option.pure_def, Option.some.injEq] at h
  obtain ⟨field, -, version, -, source, -, libraries, ⟨v, -, hlibs⟩, functions, ⟨w, -, hfuns⟩,
    rfl⟩ := h
  constructor
  · intro l hl
    obtain ⟨x, hx⟩ := Value.exists_of_mem_asMapOf? hlibs hl
    exact LibraryInfo.fits_of_ofValue? hx
  · intro s hs
    obtain ⟨x, hx⟩ := Value.exists_of_mem_asMapOf? hfuns hs
    exact Signature.fits_of_ofValue? hx

/-- A catalog whose counts fit is read from its JSON text, up to the check of its version. -/
theorem read?_toJson {c : Catalog} (h : c.Fits) : (Json.read? c.toJson).bind ofValue? = some c := by
  rw [toJson, Json.read?_write c.writable_toValue, Option.bind_some, ofValue?_toValue h]

theorem eq_ok_of_ofJson {json : Text} {c : Catalog} (h : ofJson json = .ok c) :
    (Json.read? json).bind ofValue? = some c ∧ c.version = currentVersion :=
  Artifact.read_eq_ok_iff.1 h

/-- A catalog of the current version whose counts fit is read back from its JSON text. -/
theorem Fits.ofJson_eq_ok {c : Catalog} (h : c.Fits) (hversion : c.version = currentVersion) :
    ofJson c.toJson = .ok c := by
  rw [ofJson, Artifact.read, read?_toJson h]
  exact if_pos hversion

/-- The catalogs of the program: those made of parts whose counts can be held in an artifact, and
those read from JSON texts. -/
inductive IsObtained : Catalog → Prop
  | parts {source : Text} {libraries : OrderedMap Text LibraryInfo}
      {functions : OrderedMap Text Signature} (h : (ofParts source libraries functions).Fits) :
      IsObtained (ofParts source libraries functions)
  | read {json : Text} {c : Catalog} (h : ofJson json = .ok c) : IsObtained c

theorem IsObtained.fits {c : Catalog} (h : c.IsObtained) : c.Fits := by
  cases h with
  | parts h =>
      exact h
  | read h =>
      obtain ⟨v, -, hv⟩ := Option.bind_eq_some_iff.1 (eq_ok_of_ofJson h).1
      exact fits_of_ofValue? hv

theorem IsObtained.version {c : Catalog} (h : c.IsObtained) : c.version = currentVersion := by
  cases h with
  | parts _ =>
      rfl
  | read h =>
      exact (eq_ok_of_ofJson h).2

/-- A catalog is read back from its JSON text. -/
theorem ofJson_toJson {c : Catalog} (h : c.IsObtained) : ofJson c.toJson = .ok c :=
  h.fits.ofJson_eq_ok h.version

/-- A catalog with the largest count and with texts that hold quotes, backslashes, control
characters, line breaks and characters beyond the first plane. -/
def escapeCatalog : Catalog :=
  ofParts "C:\\libs \"µ\""
    (OrderedMap.empty.insert "é\x7f.lib" ⟨"é\x7f.lib", "é", Value.maxCount⟩)
    (OrderedMap.empty.insert "é.f"
      { library := "é", name := "f", fullName := "é.f", args := ["x\x00y", "\t\r\n", ""]
        argCount := Value.maxCount, inputs := 0, outputs := 1, description := "𝄞 \x1f/"
        paramDocs := OrderedMap.ofList [("z", "\x08"), ("a", "\x0c")]
        sample := [] })

theorem ofJson_toJson_escapes :
    escapeCatalog.IsObtained ∧ ofJson escapeCatalog.toJson = .ok escapeCatalog := by
  have hfits : escapeCatalog.Fits := by
    constructor
    · intro l hl
      rcases List.mem_singleton.1 hl with rfl
      exact le_refl Value.maxCount
    · intro s hs
      rcases List.mem_singleton.1 hs with rfl
      exact ⟨le_refl Value.maxCount, Nat.zero_le _, by decide⟩
  constructor
  · exact IsObtained.parts hfits
  · exact ofJson_toJson (IsObtained.parts hfits)

end Catalog
end DspCheck
