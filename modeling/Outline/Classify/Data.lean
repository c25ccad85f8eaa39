import Outline.Classify.Fault

/-!
# Roles of data

What a node that can carry data holds is decided by its value and by the shapes of the lines below
it: a value alone is a scalar, pairs below make a mapping, and items below make a list.
-/

set_option autoImplicit false

namespace Outline.Classify

/-- What the lines of code below a node make, by their shapes: all pairs or all items. -/
def nestedAggregate (shapes : List Shape) : Except Fault Aggregate :=
  match shapes with
  | .keyed :: rest => if rest.all (· == .keyed) then .ok .dict else .error .nestedMix
  | .item :: rest => if rest.all (· == .item) then .ok .list else .error .nestedMix
  | _ => .error .nestedForm

/-- What an assignment or a pair of a mapping holds: a value or a nested block, not both. -/
def pairAggregate (key : Text) (node : Node) (shapes : List Shape) : Except Fault Aggregate :=
  match node.value, shapes with
  | some _, [] => .ok .scalar
  | none, [] => .error (.noValue key)
  | some _, _ :: _ => .error (.valueAndBlock key)
  | none, _ :: _ => nestedAggregate shapes

/-- What a call is given: arguments on its line or in a nested block, not both, or nothing. -/
def callAggregate (node : Node) (shapes : List Shape) : Except Fault Aggregate :=
  match node.value, shapes with
  | _, [] => .ok .scalar
  | some _, _ :: _ => .error (.argumentsAndBlock node.keyText)
  | none, _ :: _ => nestedAggregate shapes

/-- What an item of a list holds. An item that starts with a pair is a mapping, which pairs below
continue; a pair without a value takes the nested block as its value. An item without a key holds
its value, the nested block, or both when that block is a mapping. -/
def itemAggregate (node : Node) (shapes : List Shape) : Except Fault Aggregate :=
  match node.key, node.value, shapes with
  | some _, some _, [] => .ok .dict
  | some _, some _, _ :: _ =>
    match nestedAggregate shapes with
    | .error fault => .error fault
    | .ok .dict => .ok .dict
    | .ok _ => .error .pairThenItems
  | some key, none, [] => .error (.noValue key)
  | some _, none, _ :: _ => nestedAggregate shapes
  | none, some _, [] => .ok .scalar
  | none, none, [] => .error .emptyItem
  | none, some _, _ :: _ =>
    match nestedAggregate shapes with
    | .error fault => .error fault
    | .ok .list => .error .valueThenItems
    | .ok aggregate => .ok aggregate
  | none, none, _ :: _ => nestedAggregate shapes

/-- The role of a line of a mapping. -/
def dictEntry (node : Node) (shapes : List Shape) : Except Fault Role :=
  if node.shape ≠ .keyed then .error .notPair
  else if node.keyText.isEmpty then .error .missingKey
  else (pairAggregate node.keyText node shapes).map .dictEntry

/-- The role of a line of a list. -/
def listEntry (node : Node) (shapes : List Shape) : Except Fault Role :=
  if node.shape ≠ .item then .error .notItem
  else (itemAggregate node shapes).map .listEntry

end Outline.Classify
