import Outline.Error
import Outline.Header.Grammar

/-!
# Range sugar

`range.A.B` and `range.A.B.C` stand for a range with the given start, stop and step. Each component
is an integer or a name.
-/

set_option autoImplicit false

namespace Outline.RangeSugar

open Grammar

/-- What can be wrong with range sugar. -/
inductive Fault where
  /-- The text is not `range` followed by components. -/
  | malformed (text : Text)
  /-- There are fewer than two or more than three components. -/
  | arity (text : Text) (count : Nat)
  deriving DecidableEq, Repr

/-- The wording of a fault. -/
def Fault.message : Fault → String
  | .malformed text => s!"malformed range sugar `{String.ofList text}`"
  | .arity text count =>
    s!"range sugar `{String.ofList text}` has {count} component(s); " ++
      "expected start.stop or start.stop.step"

/-- A dot and a component, and what follows them. -/
def readComponent? [Letters] : Text → Option (Text × Text)
  | '.' :: rest => readInteger? rest <|> readName? rest
  | _ => none

/-- A component takes something, so reading components comes to an end. -/
theorem length_lt_of_readComponent [Letters] {s component rest : Text}
    (read : readComponent? s = some (component, rest)) : rest.length < s.length := by
  unfold readComponent? at read
  split at read
  next tail =>
    cases integer : readInteger? tail with
    | some pair =>
      rw [integer] at read
      cases read
      exact Nat.lt_succ_of_lt (length_lt_of_readInteger integer)
    | none =>
      rw [integer] at read
      exact Nat.lt_succ_of_lt (length_lt_of_readName read)
  next => cases read

/-- The components at the front of a text, and what follows the last. -/
def readComponents [Letters] (s : Text) : List Text × Text :=
  match _read : readComponent? s with
  | some (component, rest) =>
    let (components, after) := readComponents rest
    (component :: components, after)
  | none => ([], s)
termination_by s.length
decreasing_by exact length_lt_of_readComponent _read

/-- The components of a whole text, a gap at either end allowed; there is at least one. -/
def components? [Letters] (s : Text) : Option (List Text) := do
  let rest ← Text.after? "range".toList (skipGap s)
  let (components, after) := readComponents rest
  if components.isEmpty || !(skipGap after).isEmpty then none else some components

/-- The two or three bounds that range sugar gives. -/
def bounds [Letters] (s : Text) : Except Fault (List Text) :=
  match components? s with
  | none => .error (.malformed s)
  | some components =>
    if components.length = 2 ∨ components.length = 3 then .ok components
    else .error (.arity s components.length)

/-- The bounds that range sugar on a line gives. -/
def read [Letters] (line : Nat) (s : Text) : Except Error (List Text) :=
  match bounds s with
  | .ok bounds => .ok bounds
  | .error fault => .error (.expression line fault.message)

end Outline.RangeSugar
