import Outline.Text.Quoting
import Outline.Text.Word

/-!
# Balanced searches

A character of a line is at top level when it lies outside every bracket and every string literal.
The searches here look at top-level characters only. Brackets are counted without regard to their
kind, and a closing bracket too many leaves the depth at zero.
-/

set_option autoImplicit false

namespace Outline

namespace Text

/-- Whether a character opens a bracket. -/
def isOpening (c : Char) : Bool := c == '(' || c == '[' || c == '{'

/-- Whether a character closes a bracket. -/
def isClosing (c : Char) : Bool := c == ')' || c == ']' || c == '}'

end Text

/-- Where a scan stands with respect to brackets and string literals. -/
structure Nesting where
  /-- The number of open brackets. -/
  depth : Nat
  /-- The place with respect to string literals. -/
  quoting : Quoting
  deriving DecidableEq, Repr

namespace Nesting

/-- A scan starts outside everything. -/
def start : Nesting := ⟨0, .outside⟩

/-- Whether the scan is outside every bracket and string literal. -/
def isTop (n : Nesting) : Bool := n.depth == 0 && n.quoting == .outside

/-- The depth after a character met outside string literals. -/
def depthAfter (depth : Nat) (c : Char) : Nat :=
  if Text.isOpening c then depth + 1 else if Text.isClosing c then depth - 1 else depth

/-- The scan moves over one character, with backslash escapes inside string literals. -/
def step (n : Nesting) (c : Char) : Nesting :=
  { depth := if n.quoting = .outside then depthAfter n.depth c else n.depth
    quoting := n.quoting.step c }

/-- The scan moves over one character, without escapes. -/
def stepPlain (n : Nesting) (c : Char) : Nesting :=
  { depth := if n.quoting = .outside then depthAfter n.depth c else n.depth
    quoting := n.quoting.stepPlain c }

end Nesting

namespace Text

/-! ## Cutting at a character -/

/-- The search behind `cutAt?`, from a given state of the scan. -/
def cutAtFrom (target : Char) : Nesting → Text → Option (Text × Text)
  | _, [] => none
  | n, c :: rest =>
    if n.isTop && c == target && !isQuote c && !isOpening c && !isClosing c then some ([], rest)
    else (cutAtFrom target (n.step c) rest).map fun (before, after) => (c :: before, after)

/-- What stands before and after the first top-level occurrence of a character. A quote or a
bracket is never at top level. -/
def cutAt? (target : Char) (s : Text) : Option (Text × Text) := cutAtFrom target .start s

/-- The cut is at the character that was searched for. -/
theorem eq_append_of_cutAtFrom {target : Char} {n : Nesting} {s before after : Text}
    (found : cutAtFrom target n s = some (before, after)) : s = before ++ target :: after := by
  induction s generalizing n before with
  | nil => cases found
  | cons c rest ih =>
    rw [cutAtFrom] at found
    split at found
    next here =>
      simp only [Bool.and_eq_true, beq_iff_eq] at here
      obtain ⟨rfl, rfl⟩ := Prod.mk.inj (Option.some.inj found)
      rw [here.1.1.1.2, List.nil_append]
    next =>
      obtain ⟨⟨before', after'⟩, hrest, heq⟩ := Option.map_eq_some_iff.mp found
      obtain ⟨rfl, rfl⟩ := Prod.mk.inj heq
      rw [ih hrest, List.cons_append]

/-- A cut gives back the text around the character it was made at. -/
theorem eq_append_of_cutAt {target : Char} {s before after : Text}
    (found : cutAt? target s = some (before, after)) : s = before ++ target :: after :=
  eq_append_of_cutAtFrom found

theorem length_after_lt_of_cutAt {target : Char} {s before after : Text}
    (found : cutAt? target s = some (before, after)) : after.length < s.length := by
  rw [eq_append_of_cutAt found, List.length_append, List.length_cons]
  omega

/-! ## Splitting at commas -/

/-- The trimmed parts between the top-level commas; a blank last part does not count. -/
def splitCommas (s : Text) : List Text :=
  match _found : cutAt? ',' s with
  | some (before, after) => trim before :: splitCommas after
  | none => (nonBlank? s).toList
termination_by s.length
decreasing_by exact length_after_lt_of_cutAt _found

/-! ## Finding a keyword -/

/-- Whether a text, read from its start without escapes, ends at top level. -/
def endsAtTop (s : Text) : Bool := (s.foldl Nesting.stepPlain .start).isTop

/-- Whether a text does not begin with a character of a word. -/
def isWordBoundary (s : Text) : Bool :=
  match s with
  | [] => true
  | c :: _ => !isWordChar c

/-- What stands before and after the first occurrence of a keyword as a whole word at top level. -/
def cutAtKeyword? (keyword s : Text) : Option (Text × Text) :=
  cutAtOccurrence? keyword
    (fun before after => isWordBoundary before && isWordBoundary after && endsAtTop before.reverse)
    s

/-! ## Closing a bracket -/

/-- What stands before and after the bracket that brings the depth to zero, string literals
skipped. A closing bracket met at depth zero is such a bracket too. -/
def cutAtClosing? (opener closer : Char) : (depth : Nat) → Quoting → Text → Option (Text × Text)
  | _, _, [] => none
  | depth, quoting, c :: rest =>
    let further (depth : Nat) (quoting : Quoting) :=
      (cutAtClosing? opener closer depth quoting rest).map
        fun (before, after) => (c :: before, after)
    if quoting ≠ .outside ∨ isQuote c then further depth (quoting.step c)
    else if c = opener then further (depth + 1) .outside
    else if c = closer then
      if depth ≤ 1 then some ([], rest) else further (depth - 1) .outside
    else further depth .outside

/-- What follows a closing bracket is shorter than the text. -/
theorem length_after_lt_of_cutAtClosing {opener closer : Char} {depth : Nat} {quoting : Quoting}
    {s before after : Text}
    (found : cutAtClosing? opener closer depth quoting s = some (before, after)) :
    after.length < s.length := by
  induction s generalizing depth quoting before with
  | nil => cases found
  | cons c rest ih =>
    have further {d : Nat} {q : Quoting}
        (h : (cutAtClosing? opener closer d q rest).map (fun p => (c :: p.1, p.2)) =
          some (before, after)) : after.length < (c :: rest).length := by
      obtain ⟨⟨before', after'⟩, hrest, heq⟩ := Option.map_eq_some_iff.mp h
      obtain ⟨rfl, rfl⟩ := Prod.mk.inj heq
      exact Nat.lt_succ_of_lt (ih hrest)
    rw [cutAtClosing?] at found
    split at found
    · exact further found
    · split at found
      · exact further found
      · split at found
        · split at found
          · obtain ⟨rfl, rfl⟩ := Prod.mk.inj (Option.some.inj found)
            exact Nat.lt_succ_self _
          · exact further found
        · exact further found

end Text
end Outline
