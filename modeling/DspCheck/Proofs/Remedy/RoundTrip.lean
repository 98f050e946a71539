import DspCheck.Proofs.Value
import DspCheck.Remedy.Document
import DspCheck.Remedy.Explanation

/-!
# Catalogs of remedies survive their documents

The document of a remedy says neither its id nor the alternatives of its rule: the id is the key of
the document, and the rule is written as its source.  Samples are left out if there are none.  What
is read is the catalog without the ids (`ofValue?_toValue`), and the second pass puts them back.

That makes the catalog itself only if each remedy says the id it is kept under and has the
alternatives of its own rule (`IsCoherent`).  The catalogs of the program do
(`IsObtained.isCoherent`), so each of them is read back from its JSON text as it is, with the
remedies in their order, and it explains all errors as before (`exists_reload`).
-/

namespace DspCheck

open Json (Writable)

namespace Remedy

theorem writable_toValue (r : Remedy) : Writable r.toValue := by
  have hsample : ∀ t? : Option Text, ∀ v ∈ t?.map Value.text, Writable v := by
    intro t? v hv
    obtain ⟨t, -, rfl⟩ := Option.map_eq_some_iff.1 hv
    exact Writable.text t
  refine Value.writable_recordOf ?_
  simp only [List.forall_mem_cons]
  exact ⟨hsample (some _), hsample (some _), hsample (some _), hsample (some _), hsample _,
    hsample _, List.forall_mem_nil _⟩

theorem ofValue?_toValue (r : Remedy) : ofValue? r.toValue = some r := by
  have hnodup : fieldNames.Nodup := by
    decide
  obtain ⟨field, hread, hfield⟩ :=
    Value.exists_fieldsOf?_recordOf (v := r.toValue) rfl fieldNames hnodup
  rw [ofValue?, hread]
  simp only [List.forall_mem_cons] at hfield
  obtain ⟨hpattern, hmessage, hcause, hfix, hbad, hgood, -⟩ := hfield
  simp only [Option.bind_eq_bind, Option.bind_some, Value.required, hpattern, hmessage, hcause,
    hfix, hbad, hgood, Value.asText?, Value.defaulted_nullable_text, Option.pure_def]

end Remedy

namespace Sighting

theorem writable_toValue (s : Sighting) : Writable s.toValue := by
  refine Writable.record ?_
  simp only [List.forall_mem_cons]
  exact ⟨Writable.text _, Writable.text _, List.forall_mem_nil _⟩

theorem ofValue?_toValue (s : Sighting) : ofValue? s.toValue = some s := by
  have hnodup : fieldNames.Nodup := by
    decide
  obtain ⟨field, hread, hfield⟩ := Value.exists_fieldsOf? (v := s.toValue) rfl fieldNames hnodup
  rw [ofValue?, hread]
  simp only [List.forall_mem_cons] at hfield
  obtain ⟨htext, hplace, -⟩ := hfield
  simp only [Option.bind_eq_bind, Option.bind_some, Value.required, htext, hplace, Value.asText?,
    Option.pure_def]

end Sighting

namespace RemedyCatalog

theorem writable_toValue (c : RemedyCatalog) : Writable c.toValue := by
  have hsightings : Writable (.list (c.sightings.map Sighting.toValue)) := by
    refine Writable.list ?_
    intro v hv
    obtain ⟨s, -, rfl⟩ := List.mem_map.1 hv
    exact s.writable_toValue
  refine Writable.record ?_
  simp only [List.forall_mem_cons]
  exact ⟨Writable.text _, Writable.text _,
    Value.writable_ofMap (fun r => r.toRemedy.writable_toValue) _, hsightings,
    List.forall_mem_nil _⟩

/-- The catalog with remedies that say no id, and with the alternatives of their rules. -/
def unlabelled (c : RemedyCatalog) : RemedyCatalog :=
  { c with kept := c.remedies.mapValues fun _ => Remedy.kept [] }

theorem asMapOf?_kept (c : RemedyCatalog) :
    Value.asMapOf? KeptRemedy.ofValue? (Value.ofMap KeptRemedy.toValue c.kept) =
      some c.unlabelled.kept := by
  have hwritten : Value.ofMap KeptRemedy.toValue c.kept =
      Value.ofMap Remedy.toValue c.remedies := by
    simp only [Value.ofMap, remedies, OrderedMap.mapValues, List.map_map]
    rfl
  have hitem : KeptRemedy.ofValue? = fun v => (Remedy.ofValue? v).map (Remedy.kept []) := rfl
  have hread := Value.asMapOf?_ofMap (m := c.remedies) fun r _ => r.ofValue?_toValue
  rw [hwritten, hitem, Value.asMapOf?_map, hread]
  rfl

/-- The document of a catalog holds it up to the ids. -/
theorem ofValue?_toValue (c : RemedyCatalog) : ofValue? c.toValue = some c.unlabelled := by
  have hnodup : fieldNames.Nodup := by
    decide
  obtain ⟨field, hread, hfield⟩ := Value.exists_fieldsOf? (v := c.toValue) rfl fieldNames hnodup
  have hlist : Value.asListOf? Sighting.ofValue? (.list (c.sightings.map Sighting.toValue)) =
      some c.sightings :=
    Value.asListOf?_map fun s _ => s.ofValue?_toValue
  rw [ofValue?, hread]
  simp only [List.forall_mem_cons] at hfield
  obtain ⟨hversion, hsource, herrors, hsightings, -⟩ := hfield
  simp only [Option.bind_eq_bind, Option.bind_some, Value.required, Value.defaulted, hversion,
    hsource, herrors, hsightings, Value.asText?, asMapOf?_kept, hlist, Option.pure_def]
  rfl

/-! ## Ids and alternatives -/

/-- Each remedy says the id it is kept under, and has the alternatives of its rule. -/
structure IsCoherent (c : RemedyCatalog) : Prop where
  id : ∀ e ∈ c.kept.entries, e.2.id = e.1
  alternatives : ∀ e ∈ c.kept.entries, e.2.alternatives = e.2.rule.alternatives

theorem isCoherent_ofList (source : Text) (remedies : List (Text × Remedy)) :
    (ofList source remedies).IsCoherent := by
  have hkept : ∀ e ∈ (ofList source remedies).kept.entries, ∃ r : Remedy, e.2 = r.kept e.1 := by
    intro e he
    obtain ⟨e', -, rfl⟩ := List.mem_map.1 (OrderedMap.mem_of_mem_ofList he)
    exact ⟨e'.2, rfl⟩
  constructor
  · intro e he
    obtain ⟨r, hr⟩ := hkept e he
    rw [hr]
    rfl
  · intro e he
    obtain ⟨r, hr⟩ := hkept e he
    rw [hr]
    rfl

/-- Putting the ids back gives a coherent catalog, if the rules of the remedies are taken apart. -/
theorem isCoherent_relabelled {c : RemedyCatalog}
    (h : ∀ e ∈ c.kept.entries, e.2.alternatives = e.2.rule.alternatives) :
    c.relabelled.IsCoherent := by
  constructor
  · intro e he
    obtain ⟨e', -, rfl⟩ := List.mem_map.1 he
    rfl
  · intro e he
    obtain ⟨e', he', rfl⟩ := List.mem_map.1 he
    exact h e' he'

/-- The rules of the remedies that a document holds are taken apart when they are read. -/
theorem alternatives_of_ofValue? {v : Value} {c : RemedyCatalog} (h : ofValue? v = some c) :
    ∀ e ∈ c.kept.entries, e.2.alternatives = e.2.rule.alternatives := by
  simp only [ofValue?, Value.required, Option.bind_eq_bind, Option.bind_eq_some_iff,
    Option.pure_def, Option.some.injEq] at h
  obtain ⟨field, -, version, -, source, -, kept, ⟨w, -, hkept⟩, sightings, -, rfl⟩ := h
  intro e he
  obtain ⟨x, hx⟩ := Value.exists_of_mem_asMapOf? hkept (List.mem_map_of_mem he)
  obtain ⟨r, -, hr⟩ := Option.map_eq_some_iff.1 hx
  rw [← hr]
  rfl

/-- The second pass undoes what the document leaves out of a coherent catalog. -/
theorem IsCoherent.relabelled_unlabelled {c : RemedyCatalog} (h : c.IsCoherent) :
    c.unlabelled.relabelled = c := by
  have hentries : c.unlabelled.relabelled.kept = c.kept := by
    apply OrderedMap.ext
    simp only [relabelled, unlabelled, remedies, OrderedMap.mapValues, List.map_map]
    refine (List.map_congr_left fun e he => ?_).trans (List.map_id _)
    refine Prod.ext rfl ?_
    show ({ e.2.toRemedy.kept [] with id := e.1 } : KeptRemedy) = e.2
    rw [← h.id e he, Remedy.kept, ← h.alternatives e he]
  exact congrArg (fun kept => { c with kept }) hentries

/-! ## Reading a catalog back -/

/-- The catalogs of the program: those made of remedies in an order, those given other sightings,
and those read from JSON texts. -/
inductive IsObtained : RemedyCatalog → Prop
  | list (source : Text) (remedies : List (Text × Remedy)) : IsObtained (ofList source remedies)
  | sightings {c : RemedyCatalog} (h : IsObtained c) (ss : List Sighting) :
      IsObtained { c with sightings := ss }
  | read {json : Text} {c : RemedyCatalog} (h : ofJson json = .ok c) : IsObtained c

/-- What a catalog is read from, up to the ids. -/
theorem exists_of_ofJson {json : Text} {c : RemedyCatalog} (h : ofJson json = .ok c) :
    ∃ c', (Json.read? json).bind ofValue? = some c' ∧ c'.version = currentVersion ∧
      c'.relabelled = c := by
  obtain ⟨c', hread, rfl⟩ := exists_of_map_eq_ok h
  obtain ⟨hvalue, hversion⟩ := Artifact.read_eq_ok_iff.1 hread
  exact ⟨c', hvalue, hversion, rfl⟩

theorem IsObtained.version {c : RemedyCatalog} (h : c.IsObtained) :
    c.version = currentVersion := by
  induction h with
  | list source remedies =>
      rfl
  | sightings _ _ ih =>
      exact ih
  | read h =>
      obtain ⟨c, -, hversion, rfl⟩ := exists_of_ofJson h
      exact hversion

theorem IsObtained.isCoherent {c : RemedyCatalog} (h : c.IsObtained) : c.IsCoherent := by
  induction h with
  | list source remedies =>
      exact isCoherent_ofList source remedies
  | sightings _ _ ih =>
      exact ⟨ih.id, ih.alternatives⟩
  | read h =>
      obtain ⟨c, hread, -, rfl⟩ := exists_of_ofJson h
      obtain ⟨v, -, hv⟩ := Option.bind_eq_some_iff.1 hread
      exact isCoherent_relabelled (alternatives_of_ofValue? hv)

/-- A coherent catalog of the current version is read back from its JSON text. -/
theorem IsCoherent.ofJson_eq_ok {c : RemedyCatalog} (h : c.IsCoherent)
    (hversion : c.version = currentVersion) : ofJson c.toJson = .ok c := by
  have hread : Artifact.read "error catalog" currentVersion ofValue? RemedyCatalog.version
      c.toJson = .ok c.unlabelled := by
    refine Artifact.read_eq_ok_iff.2 ⟨?_, hversion⟩
    rw [toJson, Json.read?_write c.writable_toValue, Option.bind_some, ofValue?_toValue]
  rw [ofJson, hread]
  exact congrArg Except.ok h.relabelled_unlabelled

theorem IsObtained.ofJson_eq_ok {c : RemedyCatalog} (h : c.IsObtained) :
    ofJson c.toJson = .ok c :=
  h.isCoherent.ofJson_eq_ok h.version

/-- A catalog is read back from its JSON text: the one that is read has each remedy under the id
that it says and with the alternatives of its rule, as the one that was written has it.  It explains
every report and every output of the compiler in the same way. -/
theorem exists_reload {c : RemedyCatalog} (h : c.IsObtained) :
    ∃ reloaded, ofJson c.toJson = .ok reloaded ∧ reloaded = c ∧ reloaded.IsCoherent ∧
      (∀ report, Explanation.ofReport reloaded report = Explanation.ofReport c report) ∧
      ∀ output, Explanation.ofOutput reloaded output = Explanation.ofOutput c output :=
  ⟨c, h.ofJson_eq_ok, rfl, h.isCoherent, fun _ => rfl, fun _ => rfl⟩

/-- A catalog with a repeated id, with remedies of which one has a single sample and one has an
empty one, with a rule without fragments, and with a sighting. -/
def repeatedCatalog : RemedyCatalog :=
  { ofList "ref \"7\"" [
      ("outputs", ⟨⟨"number of outputs"⟩, "Outputs", "old", "old", none, none⟩),
      ("é", ⟨⟨"|.*|"⟩, "\\\t", "", "µ\n", none, some ""⟩),
      ("outputs", ⟨⟨"A:B.*outputs|Inputs"⟩, "Outputs", "new", "new", some "a:b", none⟩)] with
    sightings := [⟨"ERROR : \"x\"", "eval.cpp:12"⟩] }

theorem exists_reload_repeated :
    repeatedCatalog.IsObtained ∧ ∃ reloaded, ofJson repeatedCatalog.toJson = .ok reloaded ∧
      reloaded = repeatedCatalog ∧ reloaded.IsCoherent ∧
      (∀ report, Explanation.ofReport reloaded report =
        Explanation.ofReport repeatedCatalog report) ∧
      ∀ output, Explanation.ofOutput reloaded output =
        Explanation.ofOutput repeatedCatalog output := by
  have hobtained : repeatedCatalog.IsObtained := (IsObtained.list _ _).sightings _
  exact ⟨hobtained, exists_reload hobtained⟩

end RemedyCatalog
end DspCheck
