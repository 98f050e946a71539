import DspCheck.Proofs.Bytewise.Text
import DspCheck.Proofs.Source.Masking
import DspCheck.Source.Line

/-!
# Masking with what is masked already

The masked form of a line grows from its left end.  Marks of comments and escaped characters are
read as a whole, and a line comment is as many blanks as the masked form lacks bytes.  That
difference is never negative, since what is masked has as many bytes as what was read
(`isMasked_maskOnto?`).

Main statement: `lines?_eq_some`.
-/

namespace DspCheck
namespace Bytewise

open Text (minus? byteSize)

/-- What a reader of whole comment marks and escapes is inside of. -/
inductive Region
  | code
  | string
  | block

namespace Region

/-- The mode in which the scanner is between two marks. -/
def mode : Region → Mode
  | code => .code
  | string => .string
  | block => .block

/-- The region at the start of the next line. -/
def nextLine : Region → Region
  | block => block
  | _ => code

end Region

/-- What is masked of a line of `size` bytes, followed by the masked form of the rest. -/
def maskOnto? (size : Nat) : Region → Text → Text → Option (Text × Region)
  | r, done, [] => some (done, r)
  | .code, done, '/' :: '/' :: _ =>
      (minus? size (byteSize done)).map fun n => (done ++ List.replicate n ' ', .code)
  | .code, done, '/' :: '*' :: t => maskOnto? size .block (done ++ [' ', ' ']) t
  | .code, done, '"' :: t => maskOnto? size .string (done ++ ['"']) t
  | .code, done, c :: t => maskOnto? size .code (done ++ [c]) t
  | .string, done, ['\\'] => some (done ++ [' '], .string)
  | .string, done, '\\' :: c :: t => maskOnto? size .string (done ++ ' ' :: Text.veil false c) t
  | .string, done, '"' :: t => maskOnto? size .code (done ++ ['"']) t
  | .string, done, c :: t => maskOnto? size .string (done ++ Text.veil false c) t
  | .block, done, '*' :: '/' :: t => maskOnto? size .code (done ++ [' ', ' ']) t
  | .block, done, c :: t => maskOnto? size .block (done ++ Text.veil false c) t

theorem mask_lineComment (t : Text) :
    Text.mask .lineComment t = List.replicate (byteSize t) ' ' ∧
      Mode.lineComment.after t = .lineComment := by
  induction t with
  | nil =>
      exact ⟨rfl, rfl⟩
  | cons c t ih =>
      rw [Text.mask_cons, Mode.after]
      simp only [Mode.step, Text.veil, Bool.false_eq_true, if_false]
      rw [ih.1, Text.byteSize_cons, List.replicate_add]
      exact ⟨rfl, ih.2⟩

/-- A result of masking is the masked form of a text that is read in a region, behind what is
masked already. -/
def IsMasked (r : Region) (done t : Text) (result? : Option (Text × Region)) : Prop :=
  ∃ r', result? = some (done ++ Text.mask r.mode t, r') ∧
    r'.nextLine.mode = (r.mode.after t).nextLine

section Masking

variable {size : Nat} {r₁ r₂ : Region} {done v t : Text} {result? : Option (Text × Region)}

/-- A part of a line that is masked at once. -/
theorem IsMasked.part {u : Text}
    (ih : byteSize (done ++ v) + byteSize t = size → IsMasked r₂ (done ++ v) t result?)
    (hmask : Text.mask r₁.mode (u ++ t) = v ++ Text.mask r₂.mode t)
    (hafter : r₁.mode.after (u ++ t) = r₂.mode.after t) (hv : byteSize v = byteSize u)
    (hsize : byteSize done + byteSize (u ++ t) = size) :
    IsMasked r₁ done (u ++ t) result? := by
  obtain ⟨r', hresult, hr'⟩ := ih (by
    rw [Text.byteSize_append, hv, Nat.add_assoc, ← Text.byteSize_append]
    exact hsize)
  exact ⟨r', by rw [hresult, hmask, List.append_assoc], by rw [hr', hafter]⟩

theorem IsMasked.character {kept : Bool} {c : Char}
    (ih : byteSize (done ++ v) + byteSize t = size → IsMasked r₂ (done ++ v) t result?)
    (hstep : r₁.mode.step c t.head? = (r₂.mode, kept)) (hv : Text.veil kept c = v)
    (hsize : byteSize done + byteSize (c :: t) = size) : IsMasked r₁ done (c :: t) result? := by
  subst hv
  refine IsMasked.part (u := [c]) ih ?_ ?_ (Text.byteSize_veil kept c) hsize
  · rw [List.singleton_append, Text.mask_cons, hstep]
  · rw [List.singleton_append, Mode.after, hstep]

/-- The room that is left for a line comment is never negative, and the line gets its masked
form. -/
theorem isMasked_maskOnto? {r : Region} (hsize : byteSize done + byteSize t = size) :
    IsMasked r done t (maskOnto? size r done t) := by
  fun_induction maskOnto? size r done t with
  | case1 r done =>
      exact ⟨r, by rw [Text.mask, List.append_nil], by cases r <;> rfl⟩
  | case2 done t =>
      obtain ⟨hmask, hafter⟩ := mask_lineComment ('/' :: t)
      have hroom : minus? size (byteSize done) = some (byteSize ('/' :: t) + 1) := by
        have hsplit : byteSize ('/' :: '/' :: t) = byteSize ('/' :: t) + 1 := Nat.add_comm _ _
        rw [minus?, if_pos (by omega)]
        exact congrArg some (by omega)
      refine ⟨.code, ?_, ?_⟩
      · rw [hroom, Option.map_some, List.replicate_succ, ← hmask]
        rfl
      · show Mode.code = (Mode.lineComment.after ('/' :: t)).nextLine
        rw [hafter]
        rfl
  | case3 done t ih =>
      exact IsMasked.part (u := ['/', '*']) ih rfl rfl rfl hsize
  | case4 done t ih =>
      exact IsMasked.part (u := ['"']) ih rfl rfl rfl hsize
  | case5 done c t hline hblock hquote ih =>
      have hstep : Mode.code.step c t.head? = (.code, true) := by
        refine Mode.step_code hquote ?_
        rintro ⟨hc, hhead | hhead⟩
        · exact hline t.tail hc (List.eq_cons_of_mem_head? hhead)
        · exact hblock t.tail hc (List.eq_cons_of_mem_head? hhead)
      exact IsMasked.character ih hstep rfl hsize
  | case6 done =>
      exact ⟨.string, rfl, rfl⟩
  | case7 done c t ih =>
      have hveil : byteSize (' ' :: Text.veil false c) = byteSize ['\\', c] := by
        rw [Text.byteSize_cons, Text.byteSize_veil]
        rfl
      exact IsMasked.part (u := ['\\', c]) ih rfl rfl hveil hsize
  | case8 done t ih =>
      exact IsMasked.part (u := ['"']) ih rfl rfl rfl hsize
  | case9 done c t hlast hescape hquote ih =>
      have hbackslash : c ≠ '\\' := fun hc => by
        cases t with
        | nil =>
            exact hlast hc rfl
        | cons d t =>
            exact hescape d t hc rfl
      exact IsMasked.character ih (Mode.step_string hquote hbackslash) rfl hsize
  | case10 done t ih =>
      exact IsMasked.part (u := ['*', '/']) ih rfl rfl rfl hsize
  | case11 done c t hclose ih =>
      have hstep : Mode.block.step c t.head? = (.block, false) := by
        refine if_neg fun h => ?_
        rw [Bool.and_eq_true, decide_eq_true_eq, decide_eq_true_eq] at h
        exact hclose t.tail h.1 (List.eq_cons_of_mem_head? h.2)
      exact IsMasked.character ih hstep rfl hsize

end Masking

/-! ## Lines -/

/-- The lines of a program from a given place on. -/
def linesFrom? (number offset depth : Nat) (r : Region) : List Text → Option (List Line)
  | [] => some []
  | raw :: raws => do
      let text := Text.dropReturn raw
      let (code, r) ← maskOnto? (byteSize text) r [] text
      let later ← linesFrom? (number + 1) (offset + byteSize raw + 1)
        (code.foldl depthAfter depth) r.nextLine raws
      some (⟨number, offset, depth, text, code⟩ :: later)

/-- The lines of a program. -/
def lines? (source : Text) : Option (List Line) :=
  linesFrom? 1 0 0 .code (Text.rawLines source)

theorem linesFrom?_eq_some (number offset depth : Nat) (r : Region) (raws : List Text) :
    linesFrom? number offset depth r raws =
      some (Line.linesFrom number offset depth r.mode raws) := by
  induction raws generalizing number offset depth r with
  | nil =>
      rfl
  | cons raw raws ih =>
      have hmasked : IsMasked r [] (Text.dropReturn raw)
          (maskOnto? (byteSize (Text.dropReturn raw)) r [] (Text.dropReturn raw)) :=
        isMasked_maskOnto? (Nat.zero_add _)
      obtain ⟨r', hresult, hr'⟩ := hmasked
      simp only [linesFrom?, hresult, Option.bind_eq_bind, Option.bind_some, ih, hr',
        List.nil_append, Line.linesFrom]

theorem lines?_eq_some (source : Text) : lines? source = some (Line.ofSource source) :=
  linesFrom?_eq_some 1 0 0 .code (Text.rawLines source)

end Bytewise
end DspCheck
