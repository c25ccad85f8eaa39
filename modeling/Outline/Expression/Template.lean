import Outline.Error
import Outline.Text.Nesting

/-!
# Templates

The body of a string may hold placeholders: `Hello {name}, {price:.2f}`. A template is cut into
pieces first, from left to right, and a scan over the pieces (`Template.Scan`) joins them to
segments: runs of literal text and placeholders, each an expression with a conversion and format
part. Doubled braces are literal text, and so is a pair of braces with nothing but blanks for an
expression, which is allowed only in a body without placeholders. The scan ends with the segments
that the pieces become when they are read from the right (`Template.split_eq_segments`).
-/

set_option autoImplicit false

namespace Outline

/-- A part of a template. -/
inductive Segment where
  /-- Text that stands for itself, its braces doubled. -/
  | literal (text : Text)
  /-- A placeholder: an expression, and its conversion and format with the mark that starts them. -/
  | placeholder (expr spec : Text)
  deriving DecidableEq, Repr

namespace Template

/-! ## Pieces -/

/-- What a left-to-right scan of a template meets. -/
inductive Piece where
  /-- A character that is not a brace. -/
  | char (c : Char)
  /-- A brace written twice. -/
  | doubled (brace : Char)
  /-- A closing brace on its own. -/
  | lone
  /-- A pair of braces and what stands between them. -/
  | hole (inner : Text)
  deriving DecidableEq, Repr

/-- What stands before and after the brace that ends a placeholder. Brackets are counted without
regard to their kind, and quotes know no escapes. -/
def cutAtHoleEnd? : Nesting → Text → Option (Text × Text)
  | _, [] => none
  | n, c :: rest =>
    if n.isTop && c == '}' then some ([], rest)
    else (cutAtHoleEnd? (n.stepPlain c) rest).map fun (inner, after) => (c :: inner, after)

theorem eq_append_of_cutAtHoleEnd {n : Nesting} {s inner after : Text}
    (found : cutAtHoleEnd? n s = some (inner, after)) : s = inner ++ '}' :: after := by
  induction s generalizing n inner with
  | nil => cases found
  | cons c rest ih =>
    rw [cutAtHoleEnd?] at found
    split at found
    next here =>
      simp only [Bool.and_eq_true, beq_iff_eq] at here
      obtain ⟨rfl, rfl⟩ := Prod.mk.inj (Option.some.inj found)
      rw [here.2, List.nil_append]
    next =>
      obtain ⟨⟨inner', after'⟩, hrest, heq⟩ := Option.map_eq_some_iff.mp found
      obtain ⟨rfl, rfl⟩ := Prod.mk.inj heq
      rw [ih hrest, List.cons_append]

/-- The pieces of a template, if every placeholder ends. -/
def pieces? (s : Text) : Option (List Piece) :=
  match s with
  | [] => some []
  | '{' :: '{' :: rest => (pieces? rest).map (.doubled '{' :: ·)
  | '}' :: '}' :: rest => (pieces? rest).map (.doubled '}' :: ·)
  | '{' :: rest =>
    match _found : cutAtHoleEnd? .start rest with
    | some (inner, after) => (pieces? after).map (.hole inner :: ·)
    | none => none
  | '}' :: rest => (pieces? rest).map (.lone :: ·)
  | c :: rest => (pieces? rest).map (.char c :: ·)
termination_by s.length
decreasing_by
  all_goals simp only [List.length_cons]
  all_goals try omega
  rw [eq_append_of_cutAtHoleEnd _found, List.length_append, List.length_cons]
  omega

/-! ## Expression and format -/

/-- The cut behind `splitSpec`; `previous` is the character before. -/
def splitSpecFrom : (previous : Option Char) → Nesting → Text → Text × Text
  | _, _, [] => ([], [])
  | previous, n, c :: rest =>
    let starts := n.isTop && rest.head? != some '=' &&
      (c == '!' || c == ':' && previous != some '=')
    if starts then ([], c :: rest)
    else
      let (expr, spec) := splitSpecFrom (some c) (n.stepPlain c) rest
      (c :: expr, spec)

/-- The expression of a placeholder, and its conversion and format. These start at the first
top-level exclamation mark or colon that is no part of `!=` or `:=`; a colon after an equals sign
does not start them. -/
def splitSpec (inner : Text) : Text × Text := splitSpecFrom none .start inner

/-! ## Segments -/

/-- What can be wrong with a template. -/
inductive Fault where
  /-- A placeholder does not end. -/
  | unterminated
  /-- A placeholder is empty while another is not. -/
  | empty
  deriving DecidableEq, Repr

/-- The wording of a fault. -/
def Fault.message : Fault → String
  | .unterminated => "unterminated interpolation placeholder"
  | .empty => "empty interpolation placeholder '\x7b\x7d' next to other placeholders"

/-- What a scan of a template has made of the pieces it has met. -/
structure Scan where
  /-- The segments up to the last placeholder. -/
  done : List Segment := []
  /-- The literal text since then. -/
  literal : Text := []
  /-- Whether there were braces without an expression. -/
  blank : Bool := false

namespace Scan

/-- The segments met so far. The literal text since the last placeholder is one, if there is any. -/
def segments (scan : Scan) : List Segment :=
  if scan.literal.isEmpty then scan.done else scan.done ++ [.literal scan.literal]

/-- A scan meets literal text. -/
def addText (scan : Scan) (text : Text) : Scan := { scan with literal := scan.literal ++ text }

/-- A scan meets a pair of braces, given what stands between them and its expression and format.
Braces without an expression are literal text, and are remembered. -/
def addHole (scan : Scan) (inner : Text) (parts : Text × Text) : Scan :=
  if (Text.trim parts.1).isEmpty then { scan.addText ('{' :: inner ++ ['}']) with blank := true }
  else
    { scan with
      done := scan.segments ++ [.placeholder (Text.trim parts.1) parts.2]
      literal := [] }

/-- A scan meets a piece. A lone closing brace is doubled. -/
def add (scan : Scan) : Piece → Scan
  | .char c => scan.addText [c]
  | .doubled brace => scan.addText [brace, brace]
  | .lone => scan.addText ['}', '}']
  | .hole inner => scan.addHole inner (splitSpec inner)

end Scan

/-- Whether a segment is a placeholder. -/
def isPlaceholder : Segment → Bool
  | .placeholder .. => true
  | .literal _ => false

/-- Whether a placeholder is among segments. -/
def hasPlaceholders (segments : List Segment) : Bool := segments.any isPlaceholder

/-- The segments of a template. -/
def split (body : Text) : Except Fault (List Segment) :=
  match pieces? body with
  | none => .error .unterminated
  | some pieces =>
    let scan := pieces.foldl Scan.add {}
    if scan.blank && hasPlaceholders scan.segments then .error .empty else .ok scan.segments

/-- The segments of a template on a line. -/
def read (line : Nat) (body : Text) : Except Error (List Segment) :=
  match split body with
  | .ok segments => .ok segments
  | .error fault => .error (.expression line fault.message)

/-- The text of segments. -/
def render : List Segment → Text
  | [] => []
  | .literal text :: rest => text ++ render rest
  | .placeholder expr spec :: rest => '{' :: expr ++ spec ++ '}' :: render rest

/-! ## The segments of pieces

Read from the right, pieces become segments without a state: text joins the literal that follows it.
A scan that goes on over pieces puts what it has met before their segments. -/

/-- A text put before segments; it joins a literal that comes first. -/
def prepend (text : Text) (segments : List Segment) : List Segment :=
  match text, segments with
  | [], segments => segments
  | text, .literal more :: segments => .literal (text ++ more) :: segments
  | text, segments => .literal text :: segments

/-- Whether the expression between two braces is blank. -/
def isBlankHole (inner : Text) : Bool := (Text.trim (splitSpec inner).1).isEmpty

/-- The segments of pieces: all but the placeholders with an expression become literal text, in
which a lone closing brace is doubled. -/
def segments : List Piece → List Segment
  | [] => []
  | .char c :: rest => prepend [c] (segments rest)
  | .doubled brace :: rest => prepend [brace, brace] (segments rest)
  | .lone :: rest => prepend ['}', '}'] (segments rest)
  | .hole inner :: rest =>
    if isBlankHole inner then prepend ('{' :: inner ++ ['}']) (segments rest)
    else .placeholder (Text.trim (splitSpec inner).1) (splitSpec inner).2 :: segments rest

/-- Whether a piece is a pair of braces without an expression. -/
def Piece.isBlank : Piece → Bool
  | .hole inner => isBlankHole inner
  | _ => false

theorem prepend_nil (segments : List Segment) : prepend [] segments = segments := by
  cases segments <;> rfl

theorem prepend_append (s t : Text) (segments : List Segment) :
    prepend s (prepend t segments) = prepend (s ++ t) segments := by
  cases s with
  | nil => rw [prepend_nil, List.nil_append]
  | cons c s =>
    cases t with
    | nil => rw [prepend_nil, List.append_nil]
    | cons d t =>
      cases segments with
      | nil => rfl
      | cons segment segments => cases segment <;> simp [prepend]

namespace Scan

/-- What a scan has met, put before segments. -/
def before (scan : Scan) (later : List Segment) : List Segment :=
  scan.done ++ prepend scan.literal later

/-- Before no segments stand the segments met so far. -/
theorem before_nil (scan : Scan) : scan.before [] = scan.segments := by
  rw [before, segments]
  cases scan.literal with
  | nil => simp [prepend]
  | cons c text => rfl

/-- A placeholder ends the literal text before it. -/
theorem before_placeholder (scan : Scan) (expr spec : Text) (later : List Segment) :
    scan.before (.placeholder expr spec :: later) =
      scan.segments ++ .placeholder expr spec :: later := by
  rw [before, segments]
  cases scan.literal with
  | nil => rfl
  | cons c text => simp [prepend]

/-- Text that a scan meets joins the literal text on both sides of it. -/
theorem before_addText (scan : Scan) (text : Text) (later : List Segment) :
    (scan.addText text).before later = scan.before (prepend text later) := by
  rw [before, before, addText, prepend_append]

/-- A scan that meets a piece puts it before the segments of the pieces that follow. -/
theorem before_add (scan : Scan) (piece : Piece) (pieces : List Piece) :
    (scan.add piece).before (Template.segments pieces) =
      scan.before (Template.segments (piece :: pieces)) := by
  cases piece with
  | char c | doubled brace | lone => exact scan.before_addText _ _
  | hole inner =>
    rw [add, addHole, Template.segments, isBlankHole]
    split
    · exact scan.before_addText _ _
    · rw [before_placeholder, before, prepend_nil, List.append_assoc, List.singleton_append]

/-- A scan over pieces puts what it has met before their segments. -/
theorem segments_foldl (pieces : List Piece) (scan : Scan) :
    (pieces.foldl add scan).segments = scan.before (Template.segments pieces) := by
  induction pieces generalizing scan with
  | nil => exact scan.before_nil.symm
  | cons piece pieces ih => rw [List.foldl_cons, ih, before_add]

/-- A scan meets braces without an expression in a piece that is such a pair. -/
theorem blank_add (scan : Scan) (piece : Piece) :
    (scan.add piece).blank = (scan.blank || piece.isBlank) := by
  cases piece with
  | char c | doubled brace | lone => exact (Bool.or_false _).symm
  | hole inner =>
    rw [add, addHole, Piece.isBlank, isBlankHole]
    cases (Text.trim (splitSpec inner).1).isEmpty
    · exact (Bool.or_false _).symm
    · exact (Bool.or_true _).symm

/-- A scan over pieces meets braces without an expression if a piece is such a pair. -/
theorem blank_foldl (pieces : List Piece) (scan : Scan) :
    (pieces.foldl add scan).blank = (scan.blank || pieces.any Piece.isBlank) := by
  induction pieces generalizing scan with
  | nil => exact (Bool.or_false _).symm
  | cons piece pieces ih => rw [List.foldl_cons, ih, blank_add, List.any_cons, Bool.or_assoc]

end Scan

/-- A template has the segments of its pieces. -/
theorem split_eq_segments (body : Text) :
    split body =
      match pieces? body with
      | none => .error .unterminated
      | some pieces =>
        if pieces.any Piece.isBlank && hasPlaceholders (segments pieces) then .error .empty
        else .ok (segments pieces) := by
  rw [split]
  cases pieces? body with
  | none => rfl
  | some pieces =>
    have all : (pieces.foldl Scan.add {}).segments = segments pieces := by
      rw [Scan.segments_foldl, Scan.before, prepend_nil, List.nil_append]
    have blank : (pieces.foldl Scan.add {}).blank = pieces.any Piece.isBlank := by
      rw [Scan.blank_foldl, Bool.false_or]
    dsimp only
    rw [all, blank]

/-- A template that can be read has the segments of its pieces, among which there are not both
placeholders and braces without an expression. -/
theorem split_eq_ok_iff {body : Text} {template : List Segment} :
    split body = .ok template ↔
      ∃ pieces, pieces? body = some pieces ∧
        (pieces.any Piece.isBlank && hasPlaceholders (segments pieces)) = false ∧
        segments pieces = template := by
  rw [split_eq_segments]
  cases pieces? body with
  | none => simp
  | some pieces =>
    simp only [Option.some.injEq, exists_eq_left']
    cases pieces.any Piece.isBlank && hasPlaceholders (segments pieces) <;> simp

end Template
end Outline
