import DspCheck.Proofs.Remedy.RoundTrip

/-!
# The first remedy for an error

An explanation names the id that its remedy says.  In the catalogs of the program that is the id
under which the remedy is kept, also where an id was given twice and where the ids were put back
into a catalog that had been read; so the remedy is the one that is found under that id.

Main statement: `RemedyCatalog.explanation_of_isObtained`, by which the explanation of a report is
that of the first remedy for it.
-/

namespace DspCheck

open Explanation (lineOf? genericMessage genericFix ofReport)

namespace RemedyCatalog

/-- A remedy that is found under its own id and is for an error, as no remedy before it is. -/
structure IsFirstFor (c : RemedyCatalog) (error : Text) (r : KeptRemedy) : Prop where
  kept : c.kept.get? r.id = some r
  get?_id : c.get? r.id = some r.toRemedy
  isFor : r.isFor error
  isMatch : r.rule.isMatch error
  earlier : ∃ before after, c.kept.values = before ++ r :: after ∧
    ∀ r' ∈ before, ¬ r'.isFor error

/-- A remedy of a coherent catalog is found under the id it says. -/
theorem IsCoherent.get?_id {c : RemedyCatalog} (h : c.IsCoherent) {r : KeptRemedy}
    (hr : r ∈ c.kept.values) : c.kept.get? r.id = some r := by
  obtain ⟨e, he, rfl⟩ := List.mem_map.1 hr
  rw [OrderedMap.get?_eq_some_iff, h.id e he]
  exact he

/-- A remedy of a coherent catalog is for the errors that its rule matches. -/
theorem IsCoherent.isFor_eq {c : RemedyCatalog} (h : c.IsCoherent) {r : KeptRemedy}
    (hr : r ∈ c.kept.values) (error : Text) : r.isFor error = r.rule.isMatch error := by
  obtain ⟨e, he, rfl⟩ := List.mem_map.1 hr
  rw [KeptRemedy.isFor, PhraseRule.isMatch, h.alternatives e he]

/-- If some remedy is for an error, then the search ends at the first such remedy. -/
theorem IsCoherent.exists_isFirstFor {c : RemedyCatalog} (h : c.IsCoherent) {error : Text}
    (hany : ∃ r ∈ c.kept.values, r.isFor error) :
    ∃ r, c.firstFor? error = some (r.id, r.toRemedy) ∧ c.IsFirstFor error r := by
  obtain ⟨r, hfirst⟩ := Option.isSome_iff_exists.1 (List.find?_isSome.2 hany)
  have hmem : r ∈ c.kept.values := List.mem_of_find?_eq_some hfirst
  obtain ⟨hfor, before, after, hvalues, hbefore⟩ := List.find?_eq_some_iff_append.1 hfirst
  refine ⟨r, by rw [firstFor?, hfirst, Option.map_some], ?_⟩
  exact {
    kept := h.get?_id hmem
    get?_id := by rw [get?, h.get?_id hmem, Option.map_some]
    isFor := hfor
    isMatch := h.isFor_eq hmem error ▸ hfor
    earlier := ⟨before, after, hvalues, by simpa using hbefore⟩ }

/-- In a catalog made of a list each id stands where it came first and has the remedy that came
last. -/
theorem ofList_remedies (source : Text) (remedies : List (Text × Remedy)) :
    (ofList source remedies).kept.keys = (remedies.map Prod.fst).eraseDups ∧
      ∀ id, (ofList source remedies).get? id =
        (remedies.reverse.find? (·.1 = id)).map Prod.snd := by
  constructor
  · rw [ofList, OrderedMap.keys_ofList, List.map_map]
    rfl
  · intro id
    rw [get?, ofList, OrderedMap.get?_ofList, ← List.map_reverse, List.find?_map, Option.map_map,
      Option.map_map]
    rfl

/-- Reports are explained from the catalogs of the program by the first remedy for them, which is
the one under the id that the explanation names; a report that no remedy is for is its own cause.
In a catalog made of a list a repeated id keeps its place and has its last remedy. -/
theorem explanation_of_isObtained {c : RemedyCatalog} (h : c.IsObtained) (report : Text) :
    (ofReport c report).report = report ∧
    ((∃ r ∈ c.kept.values, r.isFor report) →
      ∃ r, c.IsFirstFor report r ∧ ofReport c report =
        ⟨report, some r.id, r.message, r.cause, r.fix, r.badSample?, r.goodSample?,
          lineOf? report⟩) ∧
    ((∀ r ∈ c.kept.values, ¬ r.isFor report) →
      ofReport c report =
        ⟨report, none, genericMessage, report, genericFix, none, none, lineOf? report⟩) ∧
    ∀ source remedies, c = ofList source remedies →
      c.kept.keys = (remedies.map Prod.fst).eraseDups ∧
        ∀ id, c.get? id = (remedies.reverse.find? (·.1 = id)).map Prod.snd := by
  refine ⟨?_, fun hany => ?_, fun hnone => ?_, ?_⟩
  · rw [ofReport]
    cases c.firstFor? report <;> rfl
  · obtain ⟨r, hfirst, hr⟩ := h.isCoherent.exists_isFirstFor hany
    exact ⟨r, hr, by rw [ofReport, hfirst]⟩
  · have hfirst : c.firstFor? report = none := by
      rw [firstFor?, List.find?_eq_none.2 hnone, Option.map_none]
    rw [ofReport, hfirst]
  · rintro source remedies rfl
    exact ofList_remedies source remedies

/-- Of three remedies two have the same id, and a sighting is added. -/
def repeatedLabels : RemedyCatalog :=
  { ofList "ref" [
      ("outputs", ⟨⟨"number of outputs"⟩, "Outputs", "old", "old", none, none⟩),
      ("é", ⟨⟨"error.*a:b|Inputs"⟩, "Both", "µ", "", none, some ""⟩),
      ("outputs", ⟨⟨"A:B"⟩, "Wires", "new", "new", some "a:b", none⟩)] with
    sightings := [⟨"ERROR : \"x\"", "eval.cpp:12"⟩] }

/-- The remedy that came last stands in the place of the first one with its id, before the other one
for the report. -/
theorem explanation_repeatedLabels :
    repeatedLabels.IsObtained ∧
      (∃ r ∈ repeatedLabels.kept.values, r.isFor "t.dsp : 7 : ERROR : A:B") ∧
      (∃ r, repeatedLabels.IsFirstFor "t.dsp : 7 : ERROR : A:B" r ∧ r.id = "outputs" ∧
        r.fix = "new") ∧
      ofReport repeatedLabels "t.dsp : 7 : ERROR : A:B" =
        ⟨"t.dsp : 7 : ERROR : A:B", some "outputs", "Wires", "new", "new", some "a:b", none,
          some 7⟩ := by
  have hobtained : repeatedLabels.IsObtained := (IsObtained.list _ _).sightings _
  have hany : ∃ r ∈ repeatedLabels.kept.values, r.isFor "t.dsp : 7 : ERROR : A:B" := by
    decide +kernel
  have hreport : ofReport repeatedLabels "t.dsp : 7 : ERROR : A:B" =
      ⟨"t.dsp : 7 : ERROR : A:B", some "outputs", "Wires", "new", "new", some "a:b", none,
        some 7⟩ := by
    decide +kernel
  obtain ⟨-, hfirst, -⟩ := explanation_of_isObtained hobtained "t.dsp : 7 : ERROR : A:B"
  obtain ⟨r, hr, hexplanation⟩ := hfirst hany
  obtain ⟨-, hid, -, -, hfix, -⟩ := Explanation.mk.inj (hexplanation.symm.trans hreport)
  exact ⟨hobtained, hany, ⟨r, hr, Option.some.inj hid, hfix⟩, hreport⟩

end RemedyCatalog
end DspCheck
