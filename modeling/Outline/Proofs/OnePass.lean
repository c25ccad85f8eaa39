import Outline.Proofs.Commas

/-!
# One pass over the commas

Splitting at commas starts the scan anew behind each comma. Here the same is done in one pass that
goes through the text once (`CommaPass`): it counts the open brackets, remembers the literal it is
in, and cuts wherever it meets a comma outside both. The pass keeps its own state and never looks
back. At each cut this state is the one it began with, whatever came before
(`CommaPass.foldl_step_of_cutAt`), so both give the same parts.
-/

set_option autoImplicit false

namespace Outline

/-- A string literal that is open. -/
structure OpenLiteral where
  /-- The quote that ends it. -/
  quote : Char
  /-- Whether a backslash protects the next character. -/
  escaped : Bool := false
  deriving DecidableEq, Repr

/-- Where a pass over a text stands. -/
structure CommaPass where
  /-- The number of open brackets. -/
  depth : Nat := 0
  /-- The literal that the pass is in. -/
  literal : Option OpenLiteral := none
  /-- The characters since the last cut, the last one first. -/
  piece : Text := []
  /-- The pieces before the last cut, the last one first. -/
  pieces : List Text := []
  deriving DecidableEq, Repr

namespace OpenLiteral

/-- The literal after one more character, unless it ends there. -/
def step (literal : OpenLiteral) (c : Char) : Option OpenLiteral :=
  if literal.escaped then some { literal with escaped := false }
  else if c = '\\' then some { literal with escaped := true }
  else if c = literal.quote then none
  else some literal

/-- The literal as a place of a scan. -/
def quoting (literal : OpenLiteral) : Quoting :=
  if literal.escaped then .escaped literal.quote else .inside literal.quote

/-- The literal is where the scan is, after each character. -/
theorem quoting_step (literal : OpenLiteral) (c : Char) :
    (literal.step c).elim .outside quoting = literal.quoting.step c := by
  obtain ⟨quote, escaped⟩ := literal
  cases escaped with
  | true => rfl
  | false =>
    by_cases slash : c = '\\'
    · simp [step, quoting, Quoting.step, slash]
    · by_cases ends : c = quote
      · subst ends
        simp [step, quoting, Quoting.step, slash]
      · simp [step, quoting, Quoting.step, slash, ends]

end OpenLiteral

namespace CommaPass

/-- The pass moves over one character. -/
def step (pass : CommaPass) (c : Char) : CommaPass :=
  match pass.literal with
  | some literal => { pass with literal := literal.step c, piece := c :: pass.piece }
  | none =>
    if c = ',' ∧ pass.depth = 0 then
      { pass with piece := [], pieces := pass.piece.reverse :: pass.pieces }
    else
      { pass with
        depth :=
          if Text.isOpening c then pass.depth + 1
          else if Text.isClosing c then pass.depth - 1
          else pass.depth
        literal := if Text.isQuote c then some { quote := c } else none
        piece := c :: pass.piece }

/-- All pieces, with what is left behind the last cut. -/
def all (pass : CommaPass) : List Text := pass.pieces.reverse ++ [pass.piece.reverse]

/-- The place of the pass with respect to brackets and literals. -/
def nesting (pass : CommaPass) : Nesting :=
  ⟨pass.depth, pass.literal.elim .outside OpenLiteral.quoting⟩

variable {pass : CommaPass} {c : Char} {s : Text}

/-! ## One step -/

theorem isTop_nesting_iff : pass.nesting.isTop = true ↔ pass.depth = 0 ∧ pass.literal = none := by
  rw [Nesting.isTop_iff]
  refine and_congr_right fun _ => ?_
  cases found : pass.literal with
  | none => simp [nesting, found]
  | some literal =>
    obtain ⟨quote, escaped⟩ := literal
    cases escaped <;> simp [nesting, found, OpenLiteral.quoting]

/-- The pass is where the scan is, after each character. -/
theorem nesting_step (pass : CommaPass) (c : Char) :
    (pass.step c).nesting = pass.nesting.step c := by
  obtain ⟨depth, literal, piece, pieces⟩ := pass
  cases literal with
  | some literal =>
    have inside : literal.quoting ≠ .outside := by
      unfold OpenLiteral.quoting
      split <;> simp
    show (⟨depth, (literal.step c).elim .outside OpenLiteral.quoting⟩ : Nesting) =
      ⟨if literal.quoting = .outside then _ else depth, literal.quoting.step c⟩
    rw [if_neg inside, OpenLiteral.quoting_step]
  | none =>
    by_cases cut : c = ',' ∧ depth = 0
    · obtain ⟨rfl, rfl⟩ := cut
      rfl
    · unfold step
      simp only [if_neg cut]
      by_cases quotes : Text.isQuote c = true <;>
        simp [nesting, Nesting.step, Nesting.depthAfter, Quoting.step, OpenLiteral.quoting, quotes]

/-- A comma outside brackets and literals is a cut. -/
theorem step_comma (top : pass.nesting.isTop = true) :
    pass.step ',' = { pass with piece := [], pieces := pass.piece.reverse :: pass.pieces } := by
  obtain ⟨flat, outside⟩ := isTop_nesting_iff.mp top
  unfold step
  rw [outside]
  exact if_pos ⟨rfl, flat⟩

/-- Any other character goes to the piece. -/
theorem step_keeps (kept : c = ',' → pass.nesting.isTop = false) :
    (pass.step c).piece = c :: pass.piece ∧ (pass.step c).pieces = pass.pieces := by
  unfold step
  split
  next => exact ⟨rfl, rfl⟩
  next outside =>
    have noCut : ¬(c = ',' ∧ pass.depth = 0) := by
      rintro ⟨comma, flat⟩
      have top := isTop_nesting_iff.mpr ⟨flat, outside⟩
      rw [kept comma] at top
      cases top
    rw [if_neg noCut]
    exact ⟨rfl, rfl⟩

/-! ## A whole pass -/

/-- Without a comma at top level the whole text goes to the piece. -/
theorem foldl_step_of_noComma (free : Text.NoCommaFrom pass.nesting s) :
    (s.foldl step pass).piece = s.reverse ++ pass.piece ∧
      (s.foldl step pass).pieces = pass.pieces ∧
      (s.foldl step pass).nesting = s.foldl Nesting.step pass.nesting := by
  induction s generalizing pass with
  | nil => exact ⟨rfl, rfl, rfl⟩
  | cons c s ih =>
    obtain ⟨own, later⟩ := Text.noCommaFrom_cons.mp free
    obtain ⟨piece, pieces⟩ := step_keeps own
    rw [← nesting_step] at later
    obtain ⟨pieceAfter, piecesAfter, nestingAfter⟩ := ih later
    rw [List.foldl_cons, pieceAfter, piecesAfter, nestingAfter, piece, pieces, nesting_step]
    exact ⟨by simp, rfl, rfl⟩

/-- At a cut the pass is where it began, but for the pieces that it has found. -/
theorem foldl_step_of_cutAt {before after : Text}
    (found : Text.cutAt? ',' s = some (before, after)) (older : List Text) :
    s.foldl step { pieces := older } = after.foldl step { pieces := before :: older } := by
  obtain rfl := Text.eq_append_of_cutAt found
  obtain ⟨top, free⟩ := Text.cutAt?_eq_some_iff.mp found
  obtain ⟨piece, pieces, nesting⟩ :=
    foldl_step_of_noComma (show Text.NoCommaFrom (nesting { pieces := older }) before from free)
  rw [List.foldl_append, List.foldl_cons]
  generalize before.foldl step { pieces := older } = here at piece pieces nesting
  have isTop : here.nesting.isTop = true := by
    rw [nesting]
    exact top
  obtain ⟨flat, outside⟩ := isTop_nesting_iff.mp isTop
  rw [step_comma isTop, flat, outside, piece, pieces]
  simp

end CommaPass

namespace Text

/-- The pieces of a text between the commas that one pass over it meets outside brackets and
literals. -/
def onePass (s : Text) : List Text := (s.foldl CommaPass.step {}).all

/-- A text without a comma at top level is one piece. -/
theorem onePass_of_noComma {s : Text} (free : NoComma s) : onePass s = [s] := by
  obtain ⟨piece, pieces, _⟩ :=
    CommaPass.foldl_step_of_noComma (show NoCommaFrom (CommaPass.nesting {}) s from free)
  rw [onePass, CommaPass.all, piece, pieces]
  simp

/-- The pieces that were found before stay in front of those that are found. -/
theorem all_foldl_step (s : Text) (older : List Text) :
    (s.foldl CommaPass.step { pieces := older }).all = older.reverse ++ onePass s := by
  fun_induction splitCommas s generalizing older with
  | case1 s before after found ih =>
    rw [onePass, CommaPass.foldl_step_of_cutAt found, CommaPass.foldl_step_of_cutAt found, ih, ih]
    simp
  | case2 s none =>
    have free := cutAt?_eq_none_iff.mp none
    obtain ⟨piece, pieces, _⟩ := CommaPass.foldl_step_of_noComma
      (show NoCommaFrom (CommaPass.nesting { pieces := older }) s from free)
    rw [onePass_of_noComma free, CommaPass.all, piece, pieces]
    simp

/-- The first comma at top level ends the first piece. -/
theorem onePass_of_cutAt {s before after : Text} (found : cutAt? ',' s = some (before, after)) :
    onePass s = before :: onePass after := by
  rw [onePass, CommaPass.foldl_step_of_cutAt found, all_foldl_step]
  rfl

theorem onePass_ne_nil (s : Text) : onePass s ≠ [] := by
  unfold onePass CommaPass.all
  simp

/-- Some texts without the last one if that is empty. -/
def dropEmptyLast (texts : List Text) : List Text :=
  if texts.getLast? = some [] then texts.dropLast else texts

theorem dropEmptyLast_cons {first : Text} {texts : List Text} (more : texts ≠ []) :
    dropEmptyLast (first :: texts) = first :: dropEmptyLast texts := by
  obtain ⟨second, rest, rfl⟩ := List.exists_cons_of_ne_nil more
  unfold dropEmptyLast
  rw [List.getLast?_cons_cons, List.dropLast_cons_cons]
  split <;> rfl

/-- No piece has a comma at top level. -/
theorem noComma_of_mem_onePass {s piece : Text} (mem : piece ∈ onePass s) : NoComma piece := by
  fun_induction splitCommas s with
  | case1 s before after found ih =>
    rw [onePass_of_cutAt found] at mem
    rcases List.mem_cons.mp mem with rfl | later
    · obtain rfl := eq_append_of_cutAt found
      exact (cutAt?_eq_some_iff.mp found).2
    · exact ih later
  | case2 s none =>
    have free := cutAt?_eq_none_iff.mp none
    rw [onePass_of_noComma free, List.mem_singleton] at mem
    rwa [mem]

/-- The pieces joined by commas are the text. -/
theorem intercalate_onePass (s : Text) : [','].intercalate (onePass s) = s := by
  fun_induction splitCommas s with
  | case1 s before after found ih =>
    obtain ⟨second, rest, pieces⟩ := List.exists_cons_of_ne_nil (onePass_ne_nil after)
    rw [onePass_of_cutAt found, pieces, List.intercalate_cons_cons, ← pieces, ih,
      eq_append_of_cutAt found]
    simp
  | case2 s none =>
    rw [onePass_of_noComma (cutAt?_eq_none_iff.mp none), List.intercalate_singleton]

/-- A list has the pieces of one pass for its elements, trimmed, and without the last if that is
blank. -/
theorem splitCommas_eq_onePass (s : Text) :
    splitCommas s = dropEmptyLast ((onePass s).map trim) := by
  fun_induction splitCommas s with
  | case1 s before after found ih =>
    have more : (onePass after).map trim ≠ [] := by simpa using onePass_ne_nil after
    rw [onePass_of_cutAt found, List.map_cons, dropEmptyLast_cons more, ih]
  | case2 s none =>
    rw [onePass_of_noComma (cutAt?_eq_none_iff.mp none)]
    cases cut : trim s with
    | nil => simp [dropEmptyLast, nonBlank?, cut]
    | cons c rest => simp [dropEmptyLast, nonBlank?, cut]

/-- Starting the scan anew behind each comma gives what one pass gives: its pieces, trimmed, but for
a blank last one. No part has a comma at top level, and the pieces joined by commas are the text. -/
theorem splitCommas_onePass (s : Text) :
    splitCommas s = dropEmptyLast ((onePass s).map trim) ∧
      (∀ part ∈ splitCommas s, NoComma part) ∧ [','].intercalate (onePass s) = s := by
  refine ⟨splitCommas_eq_onePass s, fun part mem => ?_, intercalate_onePass s⟩
  have inPieces : part ∈ (onePass s).map trim := by
    rw [splitCommas_eq_onePass, dropEmptyLast] at mem
    split at mem
    · exact List.dropLast_subset _ mem
    · exact mem
  obtain ⟨piece, isPiece, rfl⟩ := List.mem_map.mp inPieces
  exact (noComma_trim piece).mpr (noComma_of_mem_onePass isPiece)

-- Unmatched closing brackets, an escaped quote and a bracket that stays open.
example : onePass ")a], 'b\\', c', (d, e".toList =
    [")a]".toList, " 'b\\', c'".toList, " (d, e".toList] := by decide

end Text
end Outline
