import Outline.Expression.Unfold
import Outline.Program.Basic
import Outline.Proofs.Outcome

/-!
# Names whose members are taken

The names whose members an expression takes are words of it that start a name, wherever they stand:
in the value itself or in a placeholder of a string. They are gathered through every stage of
emission without a change, so each member root of a program is an identifier
(`Program.isIdentifier_of_statementsOf`).
-/

set_option autoImplicit false

namespace Outline

/-! ## Words -/

namespace Token

/-- A token whose name, if it is a word, is an identifier. -/
def Named : Token → Prop
  | .word name _ => Text.isIdentifier name = true
  | _ => True

theorem named_readLiteral (mark : Text) (quote : Char) (rest : Text) :
    (readLiteral mark quote rest).1.Named := by
  rw [readLiteral]
  split <;> trivial

/-- The token that an identifier starts has an identifier for its name, if it is a word. -/
theorem named_readWord {name : Text} (identifier : Text.isIdentifier name = true) (afterDot : Bool)
    (after : Text) : (readWord afterDot name after).1.Named := by
  cases after with
  | nil =>
    cases afterDot with
    | true => trivial
    | false => exact identifier
  | cons c rest =>
    rw [readWord]
    split
    · exact named_readLiteral name c rest
    split
    · trivial
    split
    · trivial
    · exact identifier

/-- Every word that is read is an identifier. -/
theorem named_read (afterDot : Bool) (c : Char) (rest : Text) : (read afterDot c rest).1.Named := by
  rw [read]
  split
  · exact named_readLiteral [] c rest
  split
  next start =>
    refine named_readWord ?_ afterDot _
    rw [Text.leadingWord, List.takeWhile_cons_of_pos (Text.isWordChar_of_isWordStart start),
      Text.isIdentifier, start, List.all_takeWhile]
    rfl
  next => split <;> trivial

/-- The words among the tokens of a text are identifiers. -/
theorem named_readAllFrom (afterDot : Bool) (s : Text) :
    ∀ token ∈ readAllFrom afterDot s, token.Named := by
  fun_induction readAllFrom afterDot s with
  | case1 =>
    intro token mem
    cases mem
  | case2 afterDot c rest ih =>
    intro token mem
    rcases List.mem_cons.mp mem with rfl | later
    · exact named_read afterDot c rest
    · exact ih token later

end Token

/-! ## Expressions -/

namespace Expression

/-- The names whose members the expression takes are identifiers. -/
def NamesRoots (e : Expression) : Prop := ∀ name ∈ e.memberRoots, Text.isIdentifier name = true

theorem namesRoots_plain (text : Text) : (plain text).NamesRoots := by
  intro name mem
  exact absurd mem (NameSet.not_mem_empty name)

/-- Two expressions side by side take the members of the names of both. -/
theorem NamesRoots.append {left right : Expression} (inLeft : left.NamesRoots)
    (inRight : right.NamesRoots) : (left.append right).NamesRoots := by
  intro name mem
  exact (NameSet.mem_union.mp mem).elim (inLeft name) (inRight name)

section

variable {inner : Text → Except Fault Expression}

/-- A string takes members of identifiers only, if its placeholders do. -/
theorem namesRoots_fill {quote : Char} {segments : List Segment} {e : Expression}
    (placeholders : ∀ expr spec, Segment.placeholder expr spec ∈ segments → ∀ e,
      inner expr = .ok e → e.NamesRoots)
    (ok : fill inner quote segments = .ok e) : e.NamesRoots := by
  induction segments generalizing e with
  | nil =>
    obtain rfl := Except.ok.inj ok
    exact namesRoots_plain []
  | cons segment rest ih =>
    have later {more : Expression} (ok : fill inner quote rest = .ok more) : more.NamesRoots :=
      ih (fun expr spec mem => placeholders expr spec (List.mem_cons_of_mem _ mem)) ok
    cases segment with
    | literal text =>
      obtain ⟨more, filled, ok⟩ := bind_eq_ok.mp ok
      obtain rfl := Except.ok.inj ok
      exact (namesRoots_plain text).append (later filled)
    | placeholder expr spec =>
      obtain ⟨first, read, ok⟩ := bind_eq_ok.mp ok
      split at ok
      · cases ok
      · obtain ⟨more, filled, ok⟩ := bind_eq_ok.mp ok
        obtain rfl := Except.ok.inj ok
        have here : first.NamesRoots := placeholders expr spec List.mem_cons_self first read
        exact NamesRoots.append here (later filled)

/-- A token takes members of identifiers only, if the placeholders in it do. -/
theorem namesRoots_ofToken [Letters] {token : Token} {e : Expression} (named : token.Named)
    (placeholders : ∀ expr, expr.length < token.text.length → ∀ e, inner expr = .ok e →
      e.NamesRoots)
    (ok : ofToken inner token = .ok e) : e.NamesRoots := by
  cases token with
  | word name member =>
    obtain rfl := Except.ok.inj ok
    intro other mem
    rw [ofWord] at mem
    split at mem
    · exact absurd mem (NameSet.not_mem_empty other)
    · cases member with
      | true =>
        obtain rfl := List.mem_singleton.mp (NameSet.mem_ofList.mp mem)
        exact named
      | false => exact absurd mem (NameSet.not_mem_empty other)
  | range sugar =>
    rw [ofToken, ofRange] at ok
    split at ok
    · cases ok
    · obtain rfl := Except.ok.inj ok
      intro name mem
      exact absurd mem (NameSet.not_mem_empty name)
  | literal mark delimiter body =>
    rw [ofToken, ofLiteral] at ok
    split at ok
    · split at ok
      next => cases ok
      next segments cut =>
        split at ok
        · obtain ⟨filled, made, ok⟩ := bind_eq_ok.mp ok
          obtain rfl := Except.ok.inj ok
          have inFilled : filled.NamesRoots := by
            refine namesRoots_fill ?_ made
            intro expr spec mem
            refine placeholders expr ?_
            have := Template.length_lt_of_mem_split cut mem
            simp only [Token.text, List.length_append]
            omega
          exact inFilled
        · obtain rfl := Except.ok.inj ok
          exact namesRoots_plain _
    · obtain rfl := Except.ok.inj ok
      exact namesRoots_plain _
  | unterminated rest => cases ok
  | _ =>
    obtain rfl := Except.ok.inj ok
    exact namesRoots_plain _

/-- Tokens take members of identifiers only, if the placeholders in them do. -/
theorem namesRoots_ofTokens [Letters] {opened : List Char} {tokens : List Token} {e : Expression}
    (named : ∀ token ∈ tokens, token.Named)
    (placeholders : ∀ token ∈ tokens, ∀ expr, expr.length < token.text.length → ∀ e,
      inner expr = .ok e → e.NamesRoots)
    (ok : ofTokens inner opened tokens = .ok e) : e.NamesRoots := by
  induction tokens generalizing opened e with
  | nil =>
    cases opened with
    | nil =>
      obtain rfl := Except.ok.inj ok
      exact namesRoots_plain []
    | cons innermost outer => cases ok
  | cons token rest ih =>
    rw [ofTokens] at ok
    obtain ⟨_, _, ok⟩ := bind_eq_ok.mp ok
    obtain ⟨first, made, ok⟩ := bind_eq_ok.mp ok
    obtain ⟨more, later, ok⟩ := bind_eq_ok.mp ok
    obtain rfl := Except.ok.inj ok
    have here := namesRoots_ofToken (named token List.mem_cons_self)
      (placeholders token List.mem_cons_self) made
    exact here.append (ih (fun other mem => named other (List.mem_cons_of_mem _ mem))
      (fun other mem => placeholders other (List.mem_cons_of_mem _ mem)) later)

/-- An expression takes members of identifiers only, in its placeholders too. -/
theorem namesRoots_ofText [Letters] {raw : Text} {e : Expression} (ok : ofText raw = .ok e) :
    e.NamesRoots := by
  rw [ofText_eq] at ok
  refine namesRoots_ofTokens (Token.named_readAllFrom false _) ?_ ok
  intro token mem expr short e read
  have h₁ := Token.length_text_le_of_mem mem
  have h₂ := Text.length_trim_le raw
  exact namesRoots_ofText read
termination_by raw.length
decreasing_by omega

end

end Expression

/-! ## Programs -/

namespace Program

variable {α β : Type}

/-- Member roots that are all identifiers. -/
def Rooted (roots : List MemberRoot) : Prop := ∀ root ∈ roots, Text.isIdentifier root.name = true

/-- Member roots are identifiers if those of both parts are. -/
theorem rooted_append {front back : List MemberRoot} :
    Rooted (front ++ back) ↔ Rooted front ∧ Rooted back :=
  List.forall_mem_append

theorem rooted_nil : Rooted [] := by
  intro root mem
  cases mem

/-- An outcome whose member roots are all identifiers. -/
def Roots (outcome : Except Error (Traced α)) : Prop :=
  ∀ result, outcome = .ok result → Rooted result.2

theorem Roots.ok {result : Traced α} (rooted : Rooted result.2) :
    Roots (.ok result : Except Error (Traced α)) := by
  intro other same
  obtain rfl := Except.ok.inj same
  exact rooted

/-- An error gives no member roots at all. -/
theorem Roots.error (error : Error) : Roots (.error error : Except Error (Traced α)) := by
  intro result same
  cases same

/-- A step whose roots are identifiers, followed by one that keeps them. -/
theorem Roots.bind {first : Except Error (Traced α)} {next : Traced α → Except Error (Traced β)}
    (own : Roots first) (more : ∀ result, Rooted result.2 → Roots (next result)) :
    Roots (first >>= next) := by
  intro result ok
  obtain ⟨middle, made, ok⟩ := bind_eq_ok.mp ok
  exact more middle (own middle made) result ok

/-- The member roots of a value are identifiers. -/
theorem roots_value [Letters] (line : Nat) (raw : Text) : Roots (value line raw) := by
  intro result ok
  obtain ⟨e, read, ok⟩ := bind_eq_ok.mp ok
  obtain rfl := Except.ok.inj ok
  rw [Expression.read] at read
  split at read
  next e' made =>
    obtain rfl := Except.ok.inj read
    intro root mem
    obtain ⟨name, inRoots, rfl⟩ := List.mem_map.mp mem
    exact Expression.namesRoots_ofText made name inRoots
  next => cases read

theorem roots_dictKey [Letters] (line : Nat) (key : Text) : Roots (dictKey line key) := by
  rw [dictKey]
  split
  · exact .ok rooted_nil
  · exact roots_value line key

section

variable {pairs items : Unit → Except Error (Traced (List Text))}

/-- What a node holds has identifiers for its member roots, if its children have, as pairs and as
items. -/
theorem roots_held [Letters] (aggregate : Aggregate) (node : Node) (inPairs : Roots (pairs ()))
    (inItems : Roots (items ())) : Roots (held aggregate node pairs items) := by
  cases aggregate with
  | scalar => exact roots_value node.line node.valueText
  | dict => exact inPairs.bind fun _ own => .ok own
  | list => exact inItems.bind fun _ own => .ok own

theorem roots_inlinePair [Letters] (node : Node) : Roots (inlinePair node) := by
  rw [inlinePair]
  split
  next key raw _ _ =>
    refine (roots_dictKey node.line key).bind fun _ inKey => ?_
    refine (roots_value node.line raw).bind fun _ inValue => ?_
    exact .ok (rooted_append.mpr ⟨inKey, inValue⟩)
  next raw _ _ => exact (roots_value node.line raw).bind fun _ own => .ok own
  next => exact .ok rooted_nil

/-- An item of a list has identifiers for its member roots, if its children have, as pairs and as
items. -/
theorem roots_listItem [Letters] (aggregate : Aggregate) (node : Node) (inPairs : Roots (pairs ()))
    (inItems : Roots (items ())) : Roots (listItem aggregate node pairs items) := by
  unfold listItem
  split
  next key _ _ =>
    refine (roots_dictKey node.line key).bind fun _ inKey => ?_
    refine (roots_held _ node inPairs inItems).bind fun _ inValue => ?_
    exact .ok (rooted_append.mpr ⟨inKey, inValue⟩)
  next => exact roots_value node.line node.valueText
  next => exact inItems.bind fun _ own => .ok own
  next =>
    refine (roots_inlinePair node).bind fun _ inFirst => ?_
    exact inPairs.bind fun _ own => .ok (rooted_append.mpr ⟨inFirst, own⟩)

end

/-- Pairs and items have identifiers for their member roots. Both hold at once, since each kind may
hold the other. -/
theorem roots_data [Letters] (forest : Forest Node) :
    Roots (dictPairs forest) ∧ Roots (listItems forest) := by
  induction forest with
  | nil => exact ⟨.ok rooted_nil, .ok rooted_nil⟩
  | cons node children rest ihChildren ihRest =>
    constructor
    · rw [dictPairs]
      split
      next aggregate _ _ =>
        refine (roots_dictKey node.line node.keyText).bind fun _ inKey => ?_
        refine (roots_held aggregate node ihChildren.1 ihChildren.2).bind fun _ inValue => ?_
        refine ihRest.1.bind fun _ inRest => .ok ?_
        exact rooted_append.mpr ⟨rooted_append.mpr ⟨inKey, inValue⟩, inRest⟩
      next => exact ihRest.1
    · rw [listItems]
      split
      next aggregate _ _ =>
        refine (roots_listItem aggregate node ihChildren.1 ihChildren.2).bind fun _ inItem => ?_
        exact ihRest.2.bind fun _ inRest => .ok (rooted_append.mpr ⟨inItem, inRest⟩)
      next => exact ihRest.2

theorem roots_nodeValue [Letters] (aggregate : Aggregate) (node : Node) (children : Forest Node) :
    Roots (nodeValue aggregate node children) :=
  roots_held aggregate node (roots_data children).1 (roots_data children).2

theorem roots_keywordArguments [Letters] (forest : Forest Node) :
    Roots (keywordArguments forest) := by
  induction forest with
  | nil => exact .ok rooted_nil
  | cons node children rest _ ih =>
    rw [keywordArguments]
    split
    next aggregate _ _ =>
      split
      · refine (roots_nodeValue aggregate node children).bind fun _ inValue => ?_
        exact ih.bind fun _ inRest => .ok (rooted_append.mpr ⟨inValue, inRest⟩)
      · exact .error _
    next => exact ih

/-- The arguments of a call have identifiers for their member roots, whichever way they are given.
-/
theorem roots_callArguments [Letters] (aggregate : Aggregate) (node : Node)
    (children : Forest Node) : Roots (callArguments aggregate node children) := by
  cases aggregate with
  | scalar =>
    rw [callArguments]
    split
    next raw _ => exact roots_value node.line raw
    next => exact .ok rooted_nil
  | list => exact (roots_data children).2.bind fun _ own => .ok own
  | dict => exact (roots_keywordArguments children).bind fun _ own => .ok own

theorem roots_printed [Letters] (node : Node) : Roots (printed node) := by
  rw [printed]
  split
  next => exact .ok rooted_nil
  next => exact roots_value node.line _

/-- What a loop goes over has identifiers for its member roots, also where `.items()` is added to
it. -/
theorem roots_iterated [Letters] (line : Nat) (targets : List Text) (iterable : Text) :
    Roots (iterated line targets iterable) := by
  refine (roots_value line iterable).bind fun (text, roots) own => ?_
  show Roots (if _ then _ else _)
  split
  · exact .ok own
  · exact .ok own

/-- What a node writes has identifiers for its member roots. -/
theorem roots_output [Letters] (node : Node) (children : Forest Node) :
    Roots (output node children) := by
  have condition (word : String) (form : StatementForm) (text : Text) :
      Roots (conditionHeader word form node.line text) :=
    (roots_value node.line text).bind fun _ own => .ok own
  rw [output.eq_def]
  cases node.role with
  | assignment aggregate =>
    exact (roots_nodeValue aggregate node children).bind fun _ own => .ok own
  | argCall aggregate =>
    exact (roots_callArguments aggregate node children).bind fun _ own => .ok own
  | print => exact (roots_printed node).bind fun _ own => .ok own
  | returnValue =>
    dsimp only
    split
    next raw _ _ => exact (roots_value node.line raw).bind fun _ own => .ok own
    next => exact .ok rooted_nil
  | ifHeader text | elifHeader text | whileHeader text => exact condition _ _ text
  | forHeader targets iterable =>
    exact (roots_iterated node.line targets iterable).bind fun _ own => .ok own
  | rangeForHeader targets range => exact (roots_value node.line range).bind fun _ own => .ok own
  | listEntry | dictEntry | unclassified => exact .error _
  | _ => exact .ok rooted_nil

/-- Each member root of a program is an identifier. -/
theorem isIdentifier_of_statementsOf [Letters] {forest : Forest Node}
    {statements : Forest Statement}
    {roots : List MemberRoot} (ok : statementsOf forest = .ok (statements, roots)) :
    ∀ root ∈ roots, Text.isIdentifier root.name = true := by
  have all (forest : Forest Node) : Roots (statementsOf forest) := by
    induction forest with
    | nil => exact .ok rooted_nil
    | cons node children rest ihChildren ihRest =>
      rw [statementsOf]
      refine (roots_output node children).bind fun (out, own) inOwn => ?_
      cases out with
      | line text => exact ihRest.bind fun _ inRest => .ok (rooted_append.mpr ⟨inOwn, inRest⟩)
      | block | children =>
        refine ihChildren.bind fun _ inBody => ihRest.bind fun _ inRest => .ok ?_
        exact rooted_append.mpr ⟨rooted_append.mpr ⟨inOwn, inBody⟩, inRest⟩
  exact all forest _ ok

end Program
end Outline
