import Outline.Expression.Basic
import Outline.Proofs.Checked.Token
import Outline.Proofs.Expression

/-!
# Reading values by index

The placeholders of a string and the expressions of values, read by a program with indices. The end
of a placeholder is an index in the body; the brackets open on the way to it are counted, and a
closing brace takes one off only where one is open, so nothing is subtracted from zero. The
expression and the format of a placeholder are cut apart at a byte offset. Reading a value has no
trap and gives the expression, or the fault, that the library gives.
-/

set_option autoImplicit false

namespace Outline.Checked

open Text Template

/-! ## The end of a placeholder -/

/-- The scan of a placeholder moves over one character. A closing brace takes one off the open
brackets. -/
def stepHole (n : Nesting) (c : Char) : Checked Nesting :=
  if n.quoting = .outside ∧ c = '}' then do
    let depth ← sub n.depth 1
    return ⟨depth, n.quoting.stepPlain c⟩
  else .ok (n.stepPlain c)

/-- A brace outside strings that does not end the placeholder closes a bracket in it. -/
theorem stepHole_eq {n : Nesting} {c : Char} (inner : ¬(n.isTop && c == '}') = true) :
    stepHole n c = .ok (n.stepPlain c) := by
  rw [stepHole]
  split
  next brace =>
    obtain ⟨outside, rfl⟩ := brace
    have opened : n.depth ≠ 0 := by
      intro zero
      simp [Nesting.isTop, zero, outside] at inner
    rw [sub_of_le (Nat.one_le_iff_ne_zero.mpr opened), ok_bind, Nesting.stepPlain, if_pos outside]
    rfl
  next => rfl

/-- The index of the brace that ends the placeholder in which an index lies. -/
def holeEnd (chars : Text) (i : Nat) (n : Nesting) : Checked (Option Nat) :=
  match _here : chars[i]? with
  | none => .ok none
  | some c =>
    if n.isTop && c == '}' then .ok (some i)
    else do
      let n ← stepHole n c
      holeEnd chars (i + 1) n
termination_by chars.length - i
decreasing_by
  have := (List.getElem?_eq_some_iff.mp _here).1
  omega

/-- The end of a placeholder is the index of its closing brace. -/
theorem holeEnd_eq {chars before rest : Text} (n : Nesting) (whole : chars = before ++ rest) :
    holeEnd chars before.length n =
      .ok ((cutAtHoleEnd? n rest).map fun parts => before.length + parts.1.length) := by
  induction rest generalizing before n with
  | nil =>
    have none : chars[before.length]? = none := getElem?_next whole 0
    rw [holeEnd]
    split
    next => rfl
    next c here => cases none.symm.trans here
  | cons c rest ih =>
    have here : chars[before.length]? = some c := getElem?_next whole 0
    have further : chars = (before ++ [c]) ++ rest := by simp [whole]
    have size : (before ++ [c]).length = before.length + 1 := List.length_append
    rw [holeEnd]
    split
    next none => cases here.symm.trans none
    next d same =>
      obtain rfl := Option.some.inj (here.symm.trans same)
      rw [cutAtHoleEnd?]
      split
      next => rfl
      next inner =>
        rw [stepHole_eq inner, ok_bind, ← size, ih _ further, size, Option.map_map]
        congr 2
        funext parts
        simp only [Function.comp_apply, List.length_cons]
        omega

theorem le_of_holeEnd {chars : Text} {i stop : Nat} {n : Nesting}
    (ok : holeEnd chars i n = .ok (some stop)) : i ≤ stop := by
  fun_induction holeEnd chars i n with
  | case1 => cases ok
  | case2 i => exact Nat.le_of_eq (Option.some.inj (Except.ok.inj ok))
  | case3 i n c here inner ih =>
    obtain ⟨n', _, ok⟩ := bind_eq_ok.mp ok
    exact Nat.le_of_succ_le (ih n' ok)

/-! ## Expression and format -/

/-- The offset at which the format of a placeholder starts, for a text that starts at an offset. -/
def specOffset? : (offset : Nat) → (previous : Option Char) → Nesting → Text → Option Nat
  | _, _, _, [] => none
  | offset, previous, n, c :: rest =>
    let starts := n.isTop && rest.head? != some '=' &&
      (c == '!' || c == ':' && previous != some '=')
    if starts then some offset
    else specOffset? (offset + c.utf8Size) (some c) (n.stepPlain c) rest

/-- The format of a placeholder starts at the byte offset where the cut is, if there is one. -/
theorem specOffset?_eq (offset : Nat) (previous : Option Char) (n : Nesting) (s : Text) :
    specOffset? offset previous n s =
      if (splitSpecFrom previous n s).2 = [] then none
      else some (offset + byteSize (splitSpecFrom previous n s).1) := by
  induction s generalizing offset previous n with
  | nil => rfl
  | cons c rest ih =>
    rw [specOffset?, splitSpecFrom]
    dsimp only
    split
    next => rfl
    next => rw [ih, byteSize_cons, Nat.add_assoc]

/-- The expression of a placeholder, and its conversion and format. -/
def splitSpec (inner : Text) : Checked (Text × Text) :=
  match specOffset? 0 none .start inner with
  | none => .ok (inner, [])
  | some offset => do
    let expr ← front inner offset
    let spec ← back inner offset
    return (expr, spec)

/-- The cut between expression and format is on a character boundary. -/
theorem splitSpec_eq (inner : Text) : splitSpec inner = .ok (Template.splitSpec inner) := by
  have parts := splitSpecFrom_append none .start inner
  rw [splitSpec, specOffset?_eq, Template.splitSpec]
  generalize splitSpecFrom none .start inner = cut at parts ⊢
  obtain ⟨expr, spec⟩ := cut
  by_cases blank : spec = []
  · rw [if_pos blank, ← parts, blank, List.append_nil]
  · rw [if_neg blank]
    dsimp only
    rw [Nat.zero_add, front_append parts.symm rfl, back_append parts.symm rfl]
    rfl

/-! ## Segments -/

/-- A scan of a template goes on from an index, if every placeholder from there on ends. -/
def scanFrom (chars : Text) (i : Nat) (met : Scan) : Checked (Option Scan) :=
  if i < chars.length then do
    let c ← get chars i
    if c = '{' ∧ chars[i + 1]? = some '{' then scanFrom chars (i + 2) (met.addText ['{', '{'])
    else if c = '}' ∧ chars[i + 1]? = some '}' then scanFrom chars (i + 2) (met.addText ['}', '}'])
    else if c = '{' then
      match _found : holeEnd chars (i + 1) .start with
      | .error trap => .error trap
      | .ok none => return none
      | .ok (some stop) =>
        let inner ← slice chars (i + 1) stop
        let parts ← splitSpec inner
        scanFrom chars (stop + 1) (met.addHole inner parts)
    else scanFrom chars (i + 1) (met.addText (if c = '}' then ['}', '}'] else [c]))
  else return some met
termination_by chars.length - i
decreasing_by
  all_goals try omega
  have := le_of_holeEnd _found
  omega

theorem length_lt_of_next {chars before rest : Text} {c : Char}
    (whole : chars = before ++ c :: rest) : before.length < chars.length := by
  simp [whole]

theorem get_next {chars before rest : Text} {c : Char} (whole : chars = before ++ c :: rest) :
    get chars before.length = .ok c :=
  get_of_getElem? (getElem?_next whole 0)

theorem next_ne {brace c : Char} {rest : Text} (single : ∀ more, rest = brace :: more → False) :
    ¬(c :: rest)[1]? = some brace := by
  intro same
  cases rest with
  | nil => cases same
  | cons d rest =>
    obtain rfl : d = brace := Option.some.inj same
    exact single rest rfl

/-- A scan that has met what stands before the index goes on over the pieces of the rest. -/
theorem scanFrom_eq {chars before rest : Text} (whole : chars = before ++ rest) (met : Scan) :
    scanFrom chars before.length met =
      .ok ((pieces? rest).map fun pieces => pieces.foldl Scan.add met) := by
  -- The index is the length of what has been read, and each piece adds its own characters to it.
  fun_induction pieces? rest generalizing before met with
  | case1 =>
    rw [scanFrom, if_neg (by simp [whole])]
    rfl
  | case2 rest ih =>
    have further : chars = (before ++ ['{', '{']) ++ rest := by simp [whole]
    have size : (before ++ ['{', '{']).length = before.length + 2 := List.length_append
    rw [scanFrom, if_pos (length_lt_of_next whole), get_next whole, ok_bind, getElem?_next whole,
      if_pos ⟨rfl, rfl⟩, ← size, ih further, Option.map_map]
    rfl
  | case3 rest ih =>
    have further : chars = (before ++ ['}', '}']) ++ rest := by simp [whole]
    have size : (before ++ ['}', '}']).length = before.length + 2 := List.length_append
    rw [scanFrom, if_pos (length_lt_of_next whole), get_next whole, ok_bind, getElem?_next whole,
      if_neg (by simp), if_pos ⟨rfl, rfl⟩, ← size, ih further, Option.map_map]
    rfl
  | case4 rest single inner after found ih =>
    have parts := eq_append_of_cutAtHoleEnd found
    have opened : chars = (before ++ ['{']) ++ rest := by simp [whole]
    have size : (before ++ ['{']).length = before.length + 1 := List.length_append
    have range : chars = (before ++ ['{']) ++ inner ++ '}' :: after := by simp [whole, parts]
    have further : chars = (before ++ ['{'] ++ inner ++ ['}']) ++ after := by simp [range]
    have ended := holeEnd_eq .start opened
    rw [found, size] at ended
    rw [scanFrom, if_pos (length_lt_of_next whole), get_next whole, ok_bind, getElem?_next whole,
      if_neg fun here => next_ne single here.2, if_neg (by simp), if_pos rfl]
    split
    next trap failed => cases ended.symm.trans failed
    next failed => cases ended.symm.trans failed
    next stop same =>
      obtain rfl := Option.some.inj (Except.ok.inj (ended.symm.trans same))
      have behind : before.length + 1 + inner.length + 1 =
          (before ++ ['{'] ++ inner ++ ['}']).length := by
        simp only [List.length_append, List.length_singleton]
      rw [slice_append range size.symm (by rw [size]), ok_bind, splitSpec_eq, ok_bind, behind,
        ih further, Option.map_map]
      rfl
  | case5 rest single found =>
    have opened : chars = (before ++ ['{']) ++ rest := by simp [whole]
    have size : (before ++ ['{']).length = before.length + 1 := List.length_append
    have ended := holeEnd_eq .start opened
    rw [found, size] at ended
    rw [scanFrom, if_pos (length_lt_of_next whole), get_next whole, ok_bind, getElem?_next whole,
      if_neg fun here => next_ne single here.2, if_neg (by simp), if_pos rfl]
    split
    next trap failed => cases ended.symm.trans failed
    next => rfl
    next stop same => cases ended.symm.trans same
  | case6 rest single ih =>
    have further : chars = (before ++ ['}']) ++ rest := by simp [whole]
    have size : (before ++ ['}']).length = before.length + 1 := List.length_append
    rw [scanFrom, if_pos (length_lt_of_next whole), get_next whole, ok_bind, getElem?_next whole,
      if_neg (by simp), if_neg fun here => next_ne single here.2, if_neg (by simp), ← size,
      ih further, Option.map_map]
    rfl
  | case7 c rest doubledOpen doubledClose opening closing ih =>
    have further : chars = (before ++ [c]) ++ rest := by simp [whole]
    have size : (before ++ [c]).length = before.length + 1 := List.length_append
    rw [scanFrom, if_pos (length_lt_of_next whole), get_next whole, ok_bind, getElem?_next whole,
      if_neg fun here => opening here.1, if_neg fun here => closing here.1, if_neg opening,
      if_neg closing, ← size, ih further, Option.map_map]
    rfl

/-- The segments of a template. -/
def split (body : Text) : Run Template.Fault (List Segment) := do
  match ← scanFrom body 0 {} with
  | none => throw .unterminated
  | some met =>
    if met.blank && hasPlaceholders met.segments then throw .empty else return met.segments

/-- The segments of a template are found without a trap. -/
theorem split_eq (body : Text) : split body = total (Template.split body) := by
  have read : scanFrom body 0 {} =
      .ok ((pieces? body).map fun pieces => pieces.foldl Scan.add {}) :=
    scanFrom_eq (List.nil_append body).symm {}
  rw [split, lift_bind read, Template.split]
  cases pieces? body with
  | none => rfl
  | some pieces =>
    dsimp only [Option.map_some]
    split <;> rfl

/-! ## Expressions -/

/-- The segments of a string with each placeholder made an expression by `inner`. -/
def fill (inner : Text → Run Expression.Fault Expression) (quote : Char) :
    List Segment → Run Expression.Fault Expression
  | [] => return {}
  | .literal text :: rest => do
    let more ← fill inner quote rest
    return (Expression.plain text).append more
  | .placeholder expr spec :: rest => do
    let filled ← inner expr
    if filled.text.contains quote then throw (.quoteClash expr)
    else
      let more ← fill inner quote rest
      return { filled with text := '{' :: filled.text ++ spec ++ ['}'] }.append more

/-- The expression that a string literal makes. -/
def ofLiteral (inner : Text → Run Expression.Fault Expression) (mark : Text) (delimiter : Delimiter)
    (body : Text) : Run Expression.Fault Expression :=
  let asWritten := Expression.plain (mark ++ delimiter.text ++ body ++ delimiter.text)
  if Expression.interpolates mark then do
    let segments ← (split body).adapt .template
    if hasPlaceholders segments then
      let filled ← fill inner delimiter.quote segments
      return { filled with
        text :=
          Expression.interpolatedMark mark ++ delimiter.text ++ filled.text ++ delimiter.text }
    else return asWritten
  else return asWritten

/-- The expression that one token makes. -/
def ofToken [Letters] (inner : Text → Run Expression.Fault Expression) :
    Token → Run Expression.Fault Expression
  | .word name member => return Expression.ofWord name member
  | .attribute name => return Expression.plain name
  | .number digits => return Expression.plain digits
  | .range sugar => total (Expression.ofRange sugar)
  | .literal mark delimiter body => ofLiteral inner mark delimiter body
  | .unterminated _ => throw .unterminatedLiteral
  | .symbol c => return Expression.plain [c]

/-- The expression that tokens make, after the open brackets, innermost first. -/
def ofTokens [Letters] (inner : Text → Run Expression.Fault Expression) :
    (opened : List Char) → List Token → Run Expression.Fault Expression
  | [], [] => return {}
  | innermost :: _, [] => throw (.unclosed innermost)
  | opened, token :: rest => do
    let opened ← total (Expression.nest opened token)
    let first ← ofToken inner token
    let more ← ofTokens inner opened rest
    return first.append more

/-- The expression that a value makes. -/
def ofText [Letters] (raw : Text) : Run Expression.Fault Expression := do
  let tokens ← readAll (trim raw)
  ofTokens
    (fun expr => if expr.length < raw.length then ofText expr else throw .unterminatedLiteral)
    [] tokens
termination_by raw.length

section Inner

variable {inner : Text → Run Expression.Fault Expression}
  {inner' : Text → Except Expression.Fault Expression}
  (same : ∀ expr, inner expr = total (inner' expr))

include same

/-- Placeholders are filled without a trap, if expressions are read without one. -/
theorem fill_eq (quote : Char) (segments : List Segment) :
    fill inner quote segments = total (Expression.fill inner' quote segments) := by
  induction segments with
  | nil => rfl
  | cons segment rest ih =>
    cases segment with
    | literal text => exact total_bind ih fun more _ => rfl
    | placeholder expr spec =>
      refine total_bind (same expr) fun filled _ => ?_
      split
      · rfl
      · exact total_bind ih fun more _ => rfl

theorem ofLiteral_eq (mark : Text) (delimiter : Delimiter) (body : Text) :
    ofLiteral inner mark delimiter body =
      total (Expression.ofLiteral inner' mark delimiter body) := by
  rw [ofLiteral, Expression.ofLiteral]
  split
  next =>
    rw [adapt_total _ (split_eq body)]
    cases Template.split body with
    | error fault => rfl
    | ok segments =>
      change (if hasPlaceholders segments then _ else _) = _
      dsimp only
      split
      · exact total_bind (fill_eq same _ segments) fun filled _ => rfl
      · rfl
  next => rfl

theorem ofToken_eq [Letters] (token : Token) :
    ofToken inner token = total (Expression.ofToken inner' token) := by
  cases token with
  | literal mark delimiter body => exact ofLiteral_eq same mark delimiter body
  | _ => rfl

/-- Tokens make an expression without a trap, if the placeholders in them do. -/
theorem ofTokens_eq [Letters] (opened : List Char) (tokens : List Token) :
    ofTokens inner opened tokens = total (Expression.ofTokens inner' opened tokens) := by
  induction tokens generalizing opened with
  | nil => cases opened <;> rfl
  | cons token rest ih =>
    rw [ofTokens, Expression.ofTokens]
    refine total_bind rfl fun opened _ => ?_
    refine total_bind (ofToken_eq same token) fun first _ => ?_
    exact total_bind (ih opened) fun more _ => rfl

end Inner

/-- A value is read without a trap, however deep its placeholders nest. -/
theorem ofText_eq [Letters] (raw : Text) : ofText raw = total (Expression.ofText raw) := by
  induction size : raw.length using Nat.strongRecOn generalizing raw with
  | _ count ih =>
    rw [ofText, lift_bind (readAll_eq (trim raw)), Expression.ofText]
    refine ofTokens_eq (fun expr => ?_) [] _
    split
    next shorter => exact ih _ (size ▸ shorter) expr rfl
    next => rfl

/-- The expression that a value on a line makes. -/
def readValue [Letters] (line : Nat) (raw : Text) : Run Error Expression :=
  (ofText raw).adapt fun fault => .expression line fault.message

theorem readValue_eq [Letters] (line : Nat) (raw : Text) :
    readValue line raw = total (Expression.read line raw) := by
  rw [readValue, adapt_total _ (ofText_eq raw), Expression.read]
  cases Expression.ofText raw <;> rfl

end Outline.Checked
