import DspCheck.Proofs.Library.Written
import DspCheck.Proofs.Source.ExpressionText

/-!
# What a written usage shows

The placeholders before a call hold no other name, so the call is found where it stands, and the
reader counts the signals that have been written (`ofLine?_usage`).  Without a usage the arguments
are found in the definition (`argsOfDefinition_definition`).
-/

namespace DspCheck
namespace WrittenFunction

open Text (breakAtWordFrom? breakAtWord? isFree)
open Shape (placeholdersFrom)

variable (f : WrittenFunction)

/-! ## Finding the call -/

/-- No other name is found among placeholders. -/
theorem breakAtWordFrom?_signals (n : Nat) (before? : Option Char) (t : Text) :
    breakAtWordFrom? f.name.text before? (signals (n + 1) ++ ' ' :: t) =
      (breakAtWordFrom? f.name.text (some ' ') t).map
        fun p => (signals (n + 1) ++ ' ' :: p.1, p.2) := by
  induction n generalizing before? with
  | zero =>
      have hfirst : signals 1 ++ ' ' :: t = '_' :: ' ' :: t := rfl
      rw [hfirst, Text.breakAtWordFrom?_underscore f.name.isIdent f.name_ne (by decide),
        Text.breakAtWordFrom?_other f.name.isIdent (by decide), Option.map_map]
      rfl
  | succ n ih =>
      have hfirst : signals (n + 2) ++ ' ' :: t =
          '_' :: ',' :: (signals (n + 1) ++ ' ' :: t) := rfl
      rw [hfirst, Text.breakAtWordFrom?_underscore f.name.isIdent f.name_ne (by decide),
        Text.breakAtWordFrom?_other f.name.isIdent (by decide), ih, Option.map_map,
        Option.map_map]
      rfl

/-- The call is found behind the placeholders of its inputs. -/
theorem breakAtWord?_lead (n : Nat) {rest : Text} (hrest : isFree rest.head? = true) :
    breakAtWord? f.name.text (lead n ++ f.name.text ++ rest) = some (lead n, rest) := by
  cases n with
  | zero =>
      exact Text.breakAtWordFrom?_word f.name.isIdent rfl hrest
  | succ n =>
      have hsplit : lead (n + 1) ++ f.name.text ++ rest =
          signals (n + 1) ++ ' ' :: ':' :: ' ' :: (f.name.text ++ rest) := by
        simp [lead]
      rw [breakAtWord?, hsplit, f.breakAtWordFrom?_signals,
        Text.breakAtWordFrom?_other f.name.isIdent (by decide),
        Text.breakAtWordFrom?_other f.name.isIdent (by decide),
        Text.breakAtWordFrom?_word f.name.isIdent (by decide) hrest]
      rfl

/-! ## Reading the arguments -/

theorem callArgs_append (rest : Text) : f.callArgs ++ rest =
    '(' :: (Text.join "," (f.args.map Identifier.text) ++ ')' :: rest) := by
  simp [callArgs]

/-- The arguments are read as they are written. -/
theorem exists_read?_callArgs (rest : Text) :
    ∃ l, ArgumentList.read? (f.callArgs ++ rest) = some l ∧
      l.args = f.args.map Identifier.text ∧ l.rest = rest := by
  rw [f.callArgs_append]
  apply ArgumentList.exists_read?_tight
  · rw [List.forall_mem_map]
    exact fun x _ => Expression.passes_run (Expression.isRunChar_of_mem_identifier x)
  · rw [List.forall_mem_map]
    exact fun x _ => (isTrimmedLine_identifier x).trimmed
  · intro hnil
    obtain ⟨x, -, hx⟩ := List.map_eq_singleton_iff.1 hnil
    exact Ident.ne_nil x.isIdent hx

theorem trimStart_callArgs (rest : Text) :
    Text.trimStart (f.callArgs ++ rest) = f.callArgs ++ rest := by
  rw [f.callArgs_append]
  exact Text.trimStart_of_endsAt (Text.endsAt_cons (by decide) _)

theorem argsAfter?_callArgs (rest : Text) :
    Shape.argsAfter? (f.callArgs ++ rest) = some (f.args.map Identifier.text, rest) := by
  obtain ⟨l, hl, hargs, hrest⟩ := f.exists_read?_callArgs rest
  have hhead : (f.callArgs ++ rest).head? = some '(' := by
    rw [f.callArgs_append]
    rfl
  rw [Shape.argsAfter?]
  simp only [f.trimStart_callArgs, hhead, if_true, hl, Option.map_some, hargs, hrest]

/-! ## Counting placeholders -/

/-- The placeholders of some signals are as many as the signals. -/
theorem placeholdersFrom_signals (n : Nat) {before? : Option Char}
    (hbefore : isFree before? = true) {rest : Text} (hrest : isFree rest.head? = true) :
    placeholdersFrom before? 0 (signals (n + 1) ++ rest) =
      n + 1 + placeholdersFrom (some '_') 0 rest := by
  induction n generalizing before? with
  | zero =>
      have hfirst : signals 1 ++ rest = '_' :: rest := rfl
      rw [hfirst, placeholdersFrom]
      simp [hbefore, hrest, Nat.add_comm]
  | succ n ih =>
      have hfirst : signals (n + 2) ++ rest = '_' :: ',' :: (signals (n + 1) ++ rest) := rfl
      have hcomma : placeholdersFrom (some '_') 0 (',' :: (signals (n + 1) ++ rest)) =
          n + 1 + placeholdersFrom (some '_') 0 rest := by
        rw [placeholdersFrom]
        simpa using ih (by decide)
      have hfree : isFree (List.head? (',' :: (signals (n + 1) ++ rest))) = true := rfl
      rw [hfirst, placeholdersFrom, hcomma, hfree]
      simp [hbefore]
      omega

theorem placeholders_beforeCall_lead (n : Nat) :
    Shape.placeholders (Shape.beforeCall (lead n)) = n := by
  cases n with
  | zero =>
      rfl
  | succ n =>
      have hlead : lead (n + 1) = signals (n + 1) ++ " : " := rfl
      have hbefore : Shape.beforeCall (lead (n + 1)) = lead (n + 1) := by
        rw [Shape.beforeCall, hlead, List.reverse_append]
        rfl
      rw [hbefore, hlead, Shape.placeholders, placeholdersFrom_signals n rfl rfl]
      rfl

theorem placeholders_outputs (s : SignalCounts) :
    max 1 (Shape.placeholders (" : " ++ signals s.outputs)) = s.outputs := by
  obtain ⟨n, hn⟩ := Nat.exists_eq_succ_of_ne_zero (Nat.ne_of_gt s.pos)
  have hcount : placeholdersFrom (some ' ') 0 (signals (n + 1) ++ []) = n + 1 :=
    placeholdersFrom_signals n (by decide) rfl
  rw [List.append_nil] at hcount
  have hblank : Shape.placeholders (" : " ++ signals s.outputs) =
      placeholdersFrom (some ' ') 0 (signals s.outputs) := rfl
  rw [hblank, hn, hcount]
  omega

/-- The usage is read as it is written. -/
theorem ofLine?_usage (s : SignalCounts) :
    Shape.ofLine? f.name.text (f.usage s) =
      some ⟨f.args.map Identifier.text, s.inputs, s.outputs⟩ := by
  have hbehind : f.callArgs ++ " : " ++ signals s.outputs =
      f.callArgs ++ (" : " ++ signals s.outputs) := List.append_assoc ..
  have hfree : isFree (List.head? (f.callArgs ++ " : " ++ signals s.outputs)) = true := by
    rw [hbehind, f.callArgs_append]
    rfl
  rw [Shape.ofLine?, usage, f.breakAtWord?_lead s.inputs hfree]
  simp only [Option.bind_eq_bind, Option.bind_some, hbehind, f.argsAfter?_callArgs,
    placeholders_beforeCall_lead, placeholders_outputs]
  rfl

/-! ## The definition -/

theorem defines_definition : DocSection.defines f.name.text f.definition = true := by
  obtain ⟨c, t, hbehind, hc⟩ : ∃ c t,
      (if f.signals?.isSome then [] else f.callArgs) ++ " = _;".toList = c :: t ∧
        (c = '(' || c = '=' || Text.isBlank c) = true := by
    split
    · exact ⟨' ', _, rfl, by decide⟩
    · rw [f.callArgs_append]
      exact ⟨'(', _, rfl, by decide⟩
  rw [DocSection.defines, definition, Text.after?_append, hbehind]
  exact hc

/-- Without a usage the arguments are those of the definition. -/
theorem argsOfDefinition_definition (h : f.signals? = none) :
    Shape.argsOfDefinition f.name.text f.definition = f.args.map Identifier.text := by
  obtain ⟨l, hl, hargs, -⟩ := f.exists_read?_callArgs " = _;"
  rw [Shape.argsOfDefinition, definition, Text.after?_append, h]
  simp only [Option.isSome_none, Bool.false_eq_true, if_false, f.trimStart_callArgs, hl, hargs]

end WrittenFunction
end DspCheck
