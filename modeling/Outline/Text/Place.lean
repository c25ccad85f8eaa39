import Outline.Text.Nesting

/-!
# Places

A place is what can stand on the left of an assignment: an identifier followed by any number of
attributes `.name` and subscripts `[index]`, or several places separated by commas.
-/

set_option autoImplicit false

namespace Outline.Text

/-- Whether a text is a run of attributes and subscripts; a subscript is not empty. -/
def isTrailers (s : Text) : Bool :=
  match s with
  | [] => true
  | '.' :: c :: rest => isWordStart c && isTrailers (afterWord rest)
  | '[' :: rest =>
    match _found : cutAtClosing? '[' ']' 1 .outside rest with
    | some (index, after) => !index.isEmpty && isTrailers after
    | none => false
  | _ => false
termination_by s.length
decreasing_by
  · have := length_afterWord_le rest
    simp only [List.length_cons]
    omega
  · have := length_after_lt_of_cutAtClosing _found
    simp only [List.length_cons]
    omega

/-- Whether a text is a single place. -/
def isSinglePlace : Text → Bool
  | [] => false
  | c :: rest => isWordStart c && isTrailers (afterWord rest)

/-- Whether a text is one place, or several separated by commas. -/
def isPlace (s : Text) : Bool :=
  !(splitCommas s).isEmpty && (splitCommas s).all isSinglePlace

end Outline.Text
