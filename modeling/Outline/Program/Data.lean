import Outline.Expression.Basic
import Outline.Node.Basic

/-!
# Data of a program

The entries below a node become a mapping or a list of the target language, written on one line.
Every value on the way is read as an expression, and the names whose members it takes are gathered
with the line they stand on, in the order in which they are met.
-/

set_option autoImplicit false

namespace Outline

/-- A name whose member is taken, and the line where that is done. -/
structure MemberRoot where
  /-- The line. -/
  line : Nat
  /-- The name. -/
  name : Text
  deriving DecidableEq, Repr

namespace Program

/-- A result with the member roots met on the way to it. -/
abbrev Traced (α : Type) := α × List MemberRoot

/-- Texts joined by a comma and a space. -/
def commas (texts : List Text) : Text := [',', ' '].intercalate texts

/-- A mapping of the target language. -/
def mapping (pairs : List Text) : Text := '{' :: commas pairs ++ ['}']

/-- A list of the target language. -/
def listing (items : List Text) : Text := '[' :: commas items ++ [']']

/-- A pair of a mapping. -/
def pair (key value : Text) : Text := key ++ ": ".toList ++ value

/-- The expression of a value. -/
def value [Letters] (line : Nat) (raw : Text) : Except Error (Traced Text) := do
  let expression ← Expression.read line raw
  return (expression.text, expression.memberRoots.toList.map fun name => ⟨line, name⟩)

/-- A key of a mapping: an identifier stands for its own name, and any other key is a value. -/
def dictKey [Letters] (line : Nat) (key : Text) : Except Error (Traced Text) :=
  if Text.isIdentifier key then .ok ('\'' :: key ++ ['\''], []) else value line key

/-- What a node holds: its value, a mapping of the pairs below it, or a list of the items below
it. -/
def held [Letters] (aggregate : Aggregate) (node : Node)
    (pairs items : Unit → Except Error (Traced (List Text))) : Except Error (Traced Text) :=
  match aggregate with
  | .scalar => value node.line node.valueText
  | .dict => do
    let (pairs, roots) ← pairs ()
    return (mapping pairs, roots)
  | .list => do
    let (items, roots) ← items ()
    return (listing items, roots)

/-- The pair that the line of a list item itself gives to the mapping below it. -/
def inlinePair [Letters] (node : Node) : Except Error (Traced (List Text)) :=
  match node.key, node.value with
  | some key, some raw => do
    let (key, keyRoots) ← dictKey node.line key
    let (value, valueRoots) ← value node.line raw
    return ([pair key value], keyRoots ++ valueRoots)
  | none, some raw => do
    let (value, roots) ← value node.line raw
    return ([pair "'item'".toList value], roots)
  | _, none => .ok ([], [])

/-- The item that an entry of a list makes. An entry whose line is only a key is a mapping of that
key to what the entry holds; an entry that holds a mapping starts it with the pair of its own
line. -/
def listItem [Letters] (aggregate : Aggregate) (node : Node)
    (pairs items : Unit → Except Error (Traced (List Text))) : Except Error (Traced Text) :=
  match node.key, node.value, aggregate with
  | some key, none, _ => do
    let (key, keyRoots) ← dictKey node.line key
    let (value, valueRoots) ← held aggregate node pairs items
    return (mapping [pair key value], keyRoots ++ valueRoots)
  | _, _, .scalar => value node.line node.valueText
  | _, _, .list => do
    let (items, roots) ← items ()
    return (listing items, roots)
  | _, _, .dict => do
    let (first, firstRoots) ← inlinePair node
    let (pairs, roots) ← pairs ()
    return (mapping (first ++ pairs), firstRoots ++ roots)

mutual

/-- The pairs of a mapping, one for each entry. -/
def dictPairs [Letters] : Forest Node → Except Error (Traced (List Text))
  | .nil => .ok ([], [])
  | .cons node children rest =>
    match node.isCode, node.role with
    | true, .dictEntry aggregate => do
      let (key, keyRoots) ← dictKey node.line node.keyText
      let (value, valueRoots) ←
        held aggregate node (fun _ => dictPairs children) (fun _ => listItems children)
      let (pairs, roots) ← dictPairs rest
      return (pair key value :: pairs, keyRoots ++ valueRoots ++ roots)
    | _, _ => dictPairs rest

/-- The items of a list, one for each entry. -/
def listItems [Letters] : Forest Node → Except Error (Traced (List Text))
  | .nil => .ok ([], [])
  | .cons node children rest =>
    match node.isCode, node.role with
    | true, .listEntry aggregate => do
      let (item, itemRoots) ←
        listItem aggregate node (fun _ => dictPairs children) (fun _ => listItems children)
      let (items, roots) ← listItems rest
      return (item :: items, itemRoots ++ roots)
    | _, _ => listItems rest

end

/-- What a node holds, given the forest below it. -/
def nodeValue [Letters] (aggregate : Aggregate) (node : Node) (children : Forest Node) :
    Except Error (Traced Text) :=
  held aggregate node (fun _ => dictPairs children) (fun _ => listItems children)

/-- The wording for a keyword argument whose name is no identifier. -/
def badArgument (name : Text) : String :=
  s!"keyword argument name `{String.ofList name}` is not an identifier"

/-- The keyword arguments of a call, one for each entry. -/
def keywordArguments [Letters] : Forest Node → Except Error (Traced (List Text))
  | .nil => .ok ([], [])
  | .cons node children rest =>
    match node.isCode, node.role with
    | true, .dictEntry aggregate =>
      if Text.isIdentifier node.keyText then do
        let (value, valueRoots) ← nodeValue aggregate node children
        let (arguments, roots) ← keywordArguments rest
        return ((node.keyText ++ '=' :: value) :: arguments, valueRoots ++ roots)
      else .error (.expression node.line (badArgument node.keyText))
    | _, _ => keywordArguments rest

/-- The arguments of a call: the value on its line, or the entries below it. -/
def callArguments [Letters] (aggregate : Aggregate) (node : Node) (children : Forest Node) :
    Except Error (Traced Text) :=
  match aggregate with
  | .scalar =>
    match node.value with
    | some raw => value node.line raw
    | none => .ok ([], [])
  | .list => do
    let (items, roots) ← listItems children
    return (commas items, roots)
  | .dict => do
    let (arguments, roots) ← keywordArguments children
    return (commas arguments, roots)

end Program
end Outline
