import DspCheck.Proofs.Check.Calls
import DspCheck.Proofs.Renaming.Bindings
import DspCheck.Proofs.Source.ArgumentList

/-!
# Calls on a line where a function is renamed

The calls before a name that is replaced by another one are read through it, since it may stand in
their arguments: they have as many arguments as before, and they end as many bytes further on as the
name has grown (`Reference.carries_remarkIn?`).  The calls behind it move.

Main statement: `ProgramLine.exists_callRemarks`.
-/

namespace DspCheck

namespace Reference

section Calls

variable {c : Catalog} {rules : Rules} {locals recursive : List Text}

theorem argumentRemark?_shift (s : Signature) (k : Nat) (r : Reference) :
    (r.shift k).argumentRemark? s = (r.argumentRemark? s).map (Remark.shift k) := by
  unfold argumentRemark?
  dsimp only [shift]
  split
  · rfl
  · split
    · rfl
    · simp only [Option.map_some, Remark.shift, Nat.add_assoc]
      rfl

theorem remarkIn?_shift (k : Nat) (r : Reference) :
    (r.shift k).remarkIn? c rules locals recursive =
      (r.remarkIn? c rules locals recursive).map (Remark.shift k) := by
  have hremark : (r.shift k).remark? c rules recursive =
      (r.remark? c rules recursive).map (Remark.shift k) := by
    unfold remark?
    show (if !c.hasLibrary r.library then _ else _) = _
    split
    · show (if recursive.contains r.library ||
        decide (rules.maxUnknownLibrary < Text.byteSize r.library) then _ else _) = _
      split
      · rfl
      · simp [unknownLibrary, shift, Remark.shift, Nat.add_assoc]
    · have hname : (r.shift k).fullName = r.fullName := rfl
      rw [hname]
      cases c.get? r.fullName with
      | none =>
          rfl
      | some s =>
          exact argumentRemark?_shift s k r
  unfold remarkIn?
  rw [hremark]
  show (if r.isCall && !locals.contains r.library then _ else _) = _
  split <;> rfl

/-! ### Calls around the member -/

theorem isWord_qualified {library name : Text} (hl : Ident.isIdent library = true)
    (hn : Ident.isIdent name = true) : ArgumentList.IsWord (Ident.qualified library name) where
  plain := fun _ hc => (Expression.inert_of_isRunChar (isRunChar_of_mem_qualified hl hn hc)).1
  visible := ⟨'.', by simp [Ident.qualified], by decide⟩

open Replacement (ofTexts)

variable {r : Reference} {front before blanks library name name' : Text}

theorem Stands.start_le (hr : r.Stands front before blanks) : r.start ≤ Text.byteSize front := by
  rw [hr.start, hr.split]
  simp only [Text.byteSize_append]
  omega

theorem Stands.followStart_add (hr : r.Stands front before blanks) :
    r.followStart + Text.byteSize r.follow = Text.byteSize front := by
  rw [hr.followStart, hr.stop, hr.start, hr.split]
  simp only [Text.byteSize_append]

/-- Where a list of arguments ends that goes on behind a word: as many bytes behind the word as
without it. -/
theorem Stands.followStart_add_consumed (hr : r.Stands front before blanks) {w b : Text}
    {l : ArgumentList} (hl : ArgumentList.read? (r.follow ++ (w ++ b)) = some l)
    (hrest : l.rest <:+ b) :
    r.followStart + l.consumed =
      Text.byteSize front + Text.byteSize w + (Text.byteSize b - Text.byteSize l.rest) := by
  obtain ⟨inner, hinner⟩ := hrest
  have hfollow := hr.followStart_add
  have hextent := congrArg Text.byteSize (ArgumentList.extent_append_rest hl)
  have hb := congrArg Text.byteSize hinner
  simp only [Text.byteSize_append] at hextent hb
  rw [ArgumentList.consumed]
  omega

/-- The remark about a list of arguments that ends before a member lies before the member. -/
theorem Stands.le_of_argumentRemark? (hr : r.Stands front before blanks) {s : Signature}
    {m : Remark} (hm : r.argumentRemark? s = some m) :
    m.start ≤ Text.byteSize front ∧ m.stop ≤ Text.byteSize front := by
  unfold argumentRemark? at hm
  split at hm
  · cases hm
  · next l hl =>
      split at hm
      · cases hm
      · obtain rfl := Option.some.inj hm
        have hsize := congrArg Text.byteSize (ArgumentList.extent_append_rest hl)
        have hfollow := hr.followStart_add
        rw [Text.byteSize_append] at hsize
        refine ⟨hr.start_le, ?_⟩
        show r.followStart + Text.byteSize l.extent ≤ Text.byteSize front
        omega

/-- The remark about the arguments of a call before a member does not depend on the member, but for
its end. -/
theorem carries_argumentRemark? (hr : r.Stands front before blanks)
    (hl : Ident.isIdent library = true) (hn : Ident.isIdent name = true)
    (hn' : Ident.isIdent name' = true) (b : Text) (s : Signature) :
    (ofTexts front (Ident.qualified library name) (Ident.qualified library name')).Carries
      ((r.extendBehind (Ident.qualified library name ++ b)).argumentRemark? s).toList
      ((r.extendBehind (Ident.qualified library name' ++ b)).argumentRemark? s).toList := by
  have hne : Ident.qualified library name ≠ [] := by
    simp [Ident.qualified]
  rcases ArgumentList.read?_cases r.follow b with
    ⟨list, hlist⟩ | hnone | ⟨count, rest, hrest, hsome⟩
  · -- the list ends before the member
    have hremark : ∀ t, (r.extendBehind t).argumentRemark? s = r.argumentRemark? s := by
      intro t
      have hfollow := hlist []
      rw [List.append_nil] at hfollow
      unfold argumentRemark?
      dsimp only [extendBehind]
      rw [hlist, hfollow]
      rfl
    rw [hremark, hremark]
    exact Replacement.carries_of_le hne fun m hm =>
      hr.le_of_argumentRemark? (Option.mem_toList.1 hm)
  · unfold argumentRemark?
    dsimp only [extendBehind]
    rw [hnone _ (isWord_qualified hl hn), hnone _ (isWord_qualified hl hn')]
    exact Replacement.carries_nil _
  · obtain ⟨list, hlist, hcount, rfl⟩ := hsome _ (isWord_qualified hl hn)
    obtain ⟨list', hlist', hcount', hrest'⟩ := hsome _ (isWord_qualified hl hn')
    have hstop := hr.followStart_add_consumed hlist hrest
    have hstop' := hr.followStart_add_consumed hlist' (hrest' ▸ hrest)
    unfold argumentRemark?
    dsimp only [extendBehind]
    rw [hlist, hlist']
    dsimp only
    rw [hcount, hcount', hstop, hstop', hrest']
    split
    · exact Replacement.carries_nil _
    · constructor
      · show [(_ : Remark)] = [_]
        rw [Replacement.remark]
        dsimp only
        rw [Replacement.move_add, Replacement.move_of_le hne hr.start_le]
        rfl
      · intro m hm
        obtain rfl := List.mem_singleton.1 hm
        exact Or.inl hr.start_le

/-- The remark about a call before a member does not depend on the member, but for its end. -/
theorem carries_remarkIn? (hr : r.Stands front before blanks)
    (hl : Ident.isIdent library = true) (hn : Ident.isIdent name = true)
    (hn' : Ident.isIdent name' = true) (b : Text) :
    (ofTexts front (Ident.qualified library name) (Ident.qualified library name')).Carries
      ((r.extendBehind (Ident.qualified library name ++ b)).remarkIn? c rules locals
        recursive).toList
      ((r.extendBehind (Ident.qualified library name' ++ b)).remarkIn? c rules locals
        recursive).toList := by
  have hne : Ident.qualified library name ≠ [] := by
    simp [Ident.qualified]
  have hcall : ∀ {n : Text}, (r.extendBehind (Ident.qualified library n ++ b)).isCall =
      (r.extendBehind (library ++ ['.'])).isCall := by
    intro n
    obtain ⟨first, others, rfl⟩ := List.exists_cons_of_ne_nil (Ident.ne_nil hl)
    unfold isCall extendBehind
    cases r.follow <;> rfl
  have hstop : r.start ≤ r.start + Text.byteSize r.library ∧
      r.start + Text.byteSize r.library ≤ r.stop ∧ r.stop ≤ Text.byteSize front := by
    rw [hr.stop, hr.start, hr.split]
    simp only [fullName, Ident.qualified, Text.byteSize_append, Text.byteSize_cons]
    omega
  have hlibrary : ∀ t, (r.extendBehind t).library = r.library := fun _ => rfl
  have hname : ∀ t, (r.extendBehind t).fullName = r.fullName := fun _ => rfl
  unfold remarkIn? remark?
  simp only [hcall, hlibrary, hname]
  split
  · split
    · split
      · exact Replacement.carries_nil _
      · refine Replacement.carries_of_le hne fun m hm => ?_
        obtain rfl := List.mem_singleton.1 hm
        exact ⟨Nat.le_trans hstop.1 (Nat.le_trans hstop.2.1 hstop.2.2),
          Nat.le_trans hstop.2.1 hstop.2.2⟩
    · cases c.get? r.fullName with
      | none =>
          refine Replacement.carries_of_le hne fun m hm => ?_
          obtain rfl := List.mem_singleton.1 hm
          exact ⟨Nat.le_trans hstop.1 (Nat.le_trans hstop.2.1 hstop.2.2), hstop.2.2⟩
      | some s =>
          exact carries_argumentRemark? hr hl hn hn' b s
  · exact Replacement.carries_nil _

end Calls
end Reference

/-! ## Lines -/

namespace ProgramLine

open Replacement (ofTexts)

variable {c : Catalog} {rules : Rules} {locals : List Text}

/-- A remark about a call is about a run of the line.  With another member of the library there, the
remarks before it and those behind it are made again. -/
theorem exists_callRemarks {l : ProgramLine} (hscan : Reference.scan l.code = .ok l.references)
    {front back : List Remark} {m : Remark}
    (hremarks : l.callRemarks c rules locals = front ++ m :: back) :
    ∃ (r : Reference) (a b : Text), r.IsRun l.code a b ∧
      r = .standing (Text.byteSize a) r.library r.name b ∧
      r.remarkIn? c rules locals l.recursiveNames = some m ∧
      ∀ (name' : Text) (l' : ProgramLine), Ident.isIdent name' = true →
        l'.code = a ++ (Ident.qualified r.library name' ++ b) →
        Reference.scan l'.code = .ok l'.references → l'.recursiveNames = l.recursiveNames →
        ∃ front' back', l'.callRemarks c rules locals = front' ++
            ((Reference.standing (Text.byteSize a) r.library name' b).remarkIn? c rules locals
              l.recursiveNames).toList ++ back' ∧
          (ofTexts a r.fullName (Ident.qualified r.library name')).Carries front front' ∧
          (ofTexts a r.fullName (Ident.qualified r.library name')).Carries back back' := by
  rw [callRemarks_eq_filterMap] at hremarks
  obtain ⟨rs, others, hreferences, hfront, hothers⟩ := List.filterMap_eq_append_iff.1 hremarks
  obtain ⟨skipped, r, ss, hsplit, hskipped, hr, hback⟩ := List.filterMap_eq_cons_iff.1 hothers
  rw [hreferences, hsplit, ← List.append_assoc] at hscan
  obtain ⟨a, b, rs', ss', hrun, hrs', hss', hrs, hstanding, hss⟩ :=
    Reference.exists_standing_of_scan hscan
  refine ⟨r, a, b, hrun, hstanding, hr, fun name' l' hn' hcode' hscan' hrecursive => ?_⟩
  have hreferences' := hscan'
  rw [hcode', Reference.scan_append hrun.front hrun.behind hrun.library hn' hrs' hss']
    at hreferences'
  have hskip : front = (rs'.map (Reference.extendBehind (r.fullName ++ b))).filterMap
      (Reference.remarkIn? c rules locals l.recursiveNames) := by
    rw [← hrs, List.filterMap_append, hfront, List.filterMap_eq_nil_iff.2 hskipped, List.append_nil]
  have hshift : ∀ k, (ss'.map (Reference.shift k)).filterMap
      (Reference.remarkIn? c rules locals l.recursiveNames) =
      (ss'.filterMap (Reference.remarkIn? c rules locals l.recursiveNames)).map
        (Remark.shift k) := by
    intro k
    rw [List.filterMap_map, List.map_filterMap]
    exact List.filterMap_congr fun q _ => Reference.remarkIn?_shift k q
  refine ⟨(rs'.map (Reference.extendBehind (Ident.qualified r.library name' ++ b))).filterMap
      (Reference.remarkIn? c rules locals l.recursiveNames),
    (ss'.map (Reference.shift
      (Text.byteSize a + Text.byteSize (Ident.qualified r.library name')))).filterMap
      (Reference.remarkIn? c rules locals l.recursiveNames), ?_, ?_, ?_⟩
  · rw [callRemarks_eq_filterMap, ← Except.ok.inj hreferences', hrecursive, List.filterMap_append,
      List.filterMap_cons, List.append_assoc]
    congr 1
    cases Reference.remarkIn? c rules locals l.recursiveNames
      (.standing (Text.byteSize a) r.library name' b) <;> rfl
  · rw [hskip, List.filterMap_map, List.filterMap_map]
    refine Replacement.carries_filterMap fun q hq => ?_
    obtain ⟨before, blanks, hstands⟩ := Reference.exists_stands_of_scan hrs' hq
    exact Reference.carries_remarkIn? hstands hrun.library hrun.name hn' b
  · rw [← hback, hss, hshift, hshift]
    exact Replacement.carries_shift _

end ProgramLine
end DspCheck
