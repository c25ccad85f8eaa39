import Outline.Proofs.Advice
import Outline.Proofs.Lossless
import Outline.Proofs.Members

/-!
# What the member roots of a program tell

Every value of a document is read as an expression, and the program gathers the names whose members
they take. If all names gathered are good, for whatever that means, the statements take members of
good names only (`Program.tells_statementsOf`). Some texts are not read as values: what is called is
known to the document (`Classify.voiced_of_classify`), and the place of an assignment and a loop
over items are set apart in `Node.Writes`.
-/

set_option autoImplicit false

namespace Outline

namespace Program

open Text

variable {good joined : Text → Prop}

/-! ## Data -/

/-- A quiet word and a blank before a text add no member use to it. -/
theorem told_spaced {word t : Text} (quiet : word.all isQuiet = true) (back : Told good joined t) :
    Told good joined (word ++ ' ' :: t) := by
  have spaced : Told good joined ([' '] ++ t) := told_append_of_last (by decide) (by decide) back
  exact (told_of_quiet quiet).append_of_head spaced rfl

/-- An identifier has neither quotes nor dots. -/
theorem quiet_of_isIdentifier {name : Text} (identifier : isIdentifier name = true) :
    name.all isQuiet = true :=
  List.all_eq_true.mpr fun c mem =>
    isQuiet_of_isWordChar (isWordChar_of_mem_identifier identifier c mem)

/-- A name between quotes. -/
theorem told_quoted {name : Text} (identifier : isIdentifier name = true) :
    Told good joined ('\'' :: name ++ ['\'']) := by
  have words := isWordChar_of_mem_identifier identifier
  have encloses : Delimiter.Encloses ⟨'\'', false⟩ name [] := by
    refine ⟨rfl, Delimiter.keeps_of_forall fun c mem => ⟨?_, ?_⟩, fun _ _ => by simp⟩
    · rintro rfl
      exact absurd (words _ mem) (by decide)
    · rintro rfl
      exact absurd (words _ mem) (by decide)
  have cut : Parted [] ('\'' :: name ++ ['\'']) [.string ⟨'\'', false⟩ name] := by
    have string : Parted [] (['\''] ++ name ++ ['\''] ++ []) [.string ⟨'\'', false⟩ name] :=
      .string encloses .nil
    rwa [List.append_nil] at string
  refine .of_noDot ⟨_, cut⟩ ?_
  simp [dot_not_mem_of_quiet (quiet_of_isIdentifier identifier)]

/-- The name of an argument and its value. -/
theorem told_argument {name value : Text} (identifier : isIdentifier name = true)
    (inValue : Told good joined value) : Told good joined (name ++ '=' :: value) := by
  have back : Told good joined (['='] ++ value) :=
    told_append_of_last (by decide) (by decide) inValue
  exact (told_of_quiet (quiet_of_isIdentifier identifier)).append_of_head back rfl

/-- The member uses of a pair are those of its key and of its value. -/
theorem told_pair {key value : Text} (inKey : Told good joined key)
    (inValue : Told good joined value) : Told good joined (pair key value) := by
  rw [pair, List.append_assoc]
  exact inKey.append_of_head (told_append_of_last (by decide) (by decide) inValue) rfl

theorem told_nil : Told good joined [] := told_of_quiet rfl

/-- The member uses of a list are those of its elements: a comma separates them. -/
theorem told_commas {texts : List Text} (told : ∀ text ∈ texts, Told good joined text) :
    Told good joined (commas texts) := by
  induction texts with
  | nil => exact told_nil
  | cons first rest ih =>
    have own := told first List.mem_cons_self
    have later := ih fun text mem => told text (List.mem_cons_of_mem _ mem)
    rw [commas] at later ⊢
    cases rest with
    | nil =>
      rw [List.intercalate_singleton]
      exact own
    | cons second rest =>
      rw [List.intercalate_cons_cons, List.append_assoc]
      refine own.append_of_head ?_ rfl
      exact told_append_of_last (by decide) (by decide) later

/-- Brackets around a text separate it from what is outside. -/
theorem told_bracketed {opening closing : Char} {s : Text} (first : isSeparator opening = true)
    (last : isSeparator closing = true) (inside : Told good joined s) :
    Told good joined (opening :: s ++ [closing]) := by
  have quiet {c : Char} (separates : isSeparator c = true) : [c].all isQuiet = true := by
    rw [isSeparator, Bool.and_eq_true] at separates
    simp [separates.1]
  have front : Told good joined ([opening] ++ s) := told_append_of_last (quiet first) first inside
  exact front.append_of_head (told_of_quiet (quiet last)) last

end Program

/-- The values of a node join strings only to names that have a property. -/
def Node.JoinsOnly (joined : Text → Prop) (node : Node) : Prop :=
  ∀ raw ∈ node.reads, Text.JoinsOnly joined raw

/-- Of an entry of data both the key and the value are read. -/
theorem Node.JoinsOnly.holds {joined : Text → Prop} {node : Node} (own : node.JoinsOnly joined)
    (entry : (∃ aggregate, node.role = .dictEntry aggregate) ∨
      ∃ aggregate, node.role = .listEntry aggregate) :
    node.Holds (Text.JoinsOnly joined) := by
  have reads : node.reads = [node.keyText, node.valueText] := node.reads_of_entry entry
  rw [JoinsOnly, reads] at own
  exact ⟨own _ List.mem_cons_self, own _ (List.mem_cons_of_mem _ List.mem_cons_self)⟩

/-- What holds for all nodes of a forest holds for its first root, for the nodes below that root and
for the rest. -/
theorem forall_preorder_cons {α : Type} {p : α → Prop} {label : α} {children rest : Forest α}
    (all : ∀ other ∈ (Forest.cons label children rest).preorder, p other) :
    p label ∧ (∀ other ∈ children.preorder, p other) ∧ ∀ other ∈ rest.preorder, p other := by
  rw [Forest.preorder, List.forall_mem_cons, List.forall_mem_append] at all
  exact all

namespace Program

open Text

variable {good joined : Text → Prop}

/-! ## What an outcome tells -/

/-- Member roots whose names are all good. -/
def AllGood (good : Text → Prop) (roots : List MemberRoot) : Prop := ∀ root ∈ roots, good root.name

theorem allGood_append {front back : List MemberRoot} :
    AllGood good (front ++ back) ↔ AllGood good front ∧ AllGood good back :=
  List.forall_mem_append

section

variable {α β : Type} {p : α → Prop} {q : β → Prop}

/-- An outcome has a property if the member roots met on the way to it are good. -/
def Tells (good : Text → Prop) (p : α → Prop) (outcome : Except Error (Traced α)) : Prop :=
  ∀ result, outcome = .ok result → AllGood good result.2 → p result.1

theorem Tells.ok {result : Traced α} (holds : AllGood good result.2 → p result.1) :
    Tells good p (.ok result) := by
  intro other same
  obtain rfl := Except.ok.inj same
  exact holds

theorem Tells.error (error : Error) : Tells good p (.error error) := by
  intro result same
  cases same

/-- One step after the other: what the second tells may use what the first has told. -/
theorem Tells.bind {first : Except Error (Traced α)} {next : Traced α → Except Error (Traced β)}
    (own : Tells good p first)
    (more : ∀ result, (AllGood good result.2 → p result.1) → Tells good q (next result)) :
    Tells good q (first >>= next) := by
  intro result ok
  obtain ⟨middle, made, ok⟩ := bind_eq_ok.mp ok
  exact more middle (own middle made) result ok

end

/-- Texts that take members of good names only. -/
def AllTold (good joined : Text → Prop) (texts : List Text) : Prop :=
  ∀ text ∈ texts, Told good joined text

theorem allTold_cons {text : Text} {texts : List Text} :
    AllTold good joined (text :: texts) ↔ Told good joined text ∧ AllTold good joined texts :=
  List.forall_mem_cons

/-- The member uses of a mapping are those of its pairs. -/
theorem told_mapping {pairs : List Text} (told : AllTold good joined pairs) :
    Told good joined (mapping pairs) :=
  told_bracketed rfl rfl (told_commas told)

/-- The member uses of a list are those of its items. -/
theorem told_listing {items : List Text} (told : AllTold good joined items) :
    Told good joined (listing items) :=
  told_bracketed rfl rfl (told_commas told)

section

variable (language : ∀ name, Expression.keywords.contains name = true → good name)

include language

/-- A value takes members of good names only, if the member roots it reports are good. -/
theorem tells_value [Letters] (line : Nat) {raw : Text} (joins : JoinsOnly joined raw) :
    Tells good (Told good joined) (value line raw) := by
  intro result ok
  obtain ⟨e, read, ok⟩ := bind_eq_ok.mp ok
  obtain rfl := Except.ok.inj ok
  rw [Expression.read] at read
  split at read
  next e' made =>
    obtain rfl := Except.ok.inj read
    intro gathered
    refine Expression.told_ofText made (fun name mem => ?_) joins language
    exact gathered ⟨line, name⟩ (List.mem_map_of_mem mem)
  next => cases read

/-- So does a key of a mapping: a quoted identifier takes no member. -/
theorem tells_dictKey [Letters] (line : Nat) {key : Text} (joins : JoinsOnly joined key) :
    Tells good (Told good joined) (dictKey line key) := by
  rw [dictKey]
  split
  next identifier => exact .ok fun _ => told_quoted identifier
  next => exact tells_value language line joins

section

variable {node : Node} {pairs items : Unit → Except Error (Traced (List Text))}

/-- So does what a node holds, if its children do, as pairs and as items. -/
theorem tells_held [Letters] (aggregate : Aggregate) (own : JoinsOnly joined node.valueText)
    (inPairs : Tells good (AllTold good joined) (pairs ()))
    (inItems : Tells good (AllTold good joined) (items ())) :
    Tells good (Told good joined) (held aggregate node pairs items) := by
  cases aggregate with
  | scalar => exact tells_value language node.line own
  | dict => exact inPairs.bind fun _ own => .ok fun all => told_mapping (own all)
  | list => exact inItems.bind fun _ own => .ok fun all => told_listing (own all)

/-- So does the pair that an item holds on its own line. -/
theorem tells_inlinePair [Letters] (own : node.Holds (JoinsOnly joined)) :
    Tells good (AllTold good joined) (inlinePair node) := by
  rw [inlinePair]
  split
  next key raw hasKey hasValue =>
    rw [Node.Holds, Node.keyText, Node.valueText, hasKey, hasValue] at own
    refine (tells_dictKey language node.line own.1).bind fun _ inKey => ?_
    refine (tells_value language node.line own.2).bind fun _ inValue => .ok fun all => ?_
    obtain ⟨goodKey, goodValue⟩ := allGood_append.mp all
    exact List.forall_mem_singleton.mpr (told_pair (inKey goodKey) (inValue goodValue))
  next raw _ hasValue =>
    rw [Node.Holds, Node.valueText, hasValue] at own
    refine (tells_value language node.line own.2).bind fun _ inValue => .ok fun all => ?_
    have item : Told good joined ('\'' :: "item".toList ++ ['\'']) := told_quoted (by decide)
    exact List.forall_mem_singleton.mpr (told_pair item (inValue all))
  next => exact .ok fun _ text mem => absurd mem List.not_mem_nil

/-- So does an item of a list, if its children do, as pairs and as items. -/
theorem tells_listItem [Letters] (aggregate : Aggregate) (own : node.Holds (JoinsOnly joined))
    (inPairs : Tells good (AllTold good joined) (pairs ()))
    (inItems : Tells good (AllTold good joined) (items ())) :
    Tells good (Told good joined) (listItem aggregate node pairs items) := by
  unfold listItem
  split
  next key hasKey _ =>
    have inKey : JoinsOnly joined key := by
      have inText := own.1
      rwa [Node.keyText, hasKey] at inText
    refine (tells_dictKey language node.line inKey).bind fun _ inKey => ?_
    refine (tells_held language _ own.2 inPairs inItems).bind fun _ inValue => .ok fun all => ?_
    obtain ⟨goodKey, goodValue⟩ := allGood_append.mp all
    exact told_mapping
      (List.forall_mem_singleton.mpr (told_pair (inKey goodKey) (inValue goodValue)))
  next => exact tells_value language node.line own.2
  next => exact inItems.bind fun _ own => .ok fun all => told_listing (own all)
  next =>
    refine (tells_inlinePair language own).bind fun _ inFirst => ?_
    refine inPairs.bind fun _ inRest => .ok fun all => told_mapping ?_
    obtain ⟨goodFirst, goodRest⟩ := allGood_append.mp all
    exact List.forall_mem_append.mpr ⟨inFirst goodFirst, inRest goodRest⟩

end

/-- So do pairs and items. Both hold at once, since each kind may hold the other. -/
theorem tells_data [Letters] {forest : Forest Node}
    (joins : ∀ node ∈ forest.preorder, node.JoinsOnly joined) :
    Tells good (AllTold good joined) (dictPairs forest) ∧
      Tells good (AllTold good joined) (listItems forest) := by
  have none : AllTold good joined [] := fun text mem => absurd mem List.not_mem_nil
  induction forest with
  | nil => exact ⟨.ok fun _ => none, .ok fun _ => none⟩
  | cons node children rest ihChildren ihRest =>
    obtain ⟨own, below, behind⟩ := forall_preorder_cons joins
    have inChildren := ihChildren below
    have inRest := ihRest behind
    constructor
    · rw [dictPairs]
      split
      next aggregate _ role =>
        have holds := own.holds (.inl ⟨aggregate, role⟩)
        refine (tells_dictKey language node.line holds.1).bind fun _ inKey => ?_
        refine (tells_held language aggregate holds.2 inChildren.1 inChildren.2).bind
          fun _ inValue => ?_
        refine inRest.1.bind fun _ inRest => .ok fun all => ?_
        obtain ⟨goodPair, goodRest⟩ := allGood_append.mp all
        obtain ⟨goodKey, goodValue⟩ := allGood_append.mp goodPair
        exact allTold_cons.mpr ⟨told_pair (inKey goodKey) (inValue goodValue), inRest goodRest⟩
      next => exact inRest.1
    · rw [listItems]
      split
      next aggregate _ role =>
        have holds := own.holds (.inr ⟨aggregate, role⟩)
        refine (tells_listItem language aggregate holds inChildren.1 inChildren.2).bind
          fun _ inItem => ?_
        refine inRest.2.bind fun _ inRest => .ok fun all => ?_
        obtain ⟨goodItem, goodRest⟩ := allGood_append.mp all
        exact allTold_cons.mpr ⟨inItem goodItem, inRest goodRest⟩
      next => exact inRest.2

theorem tells_nodeValue [Letters] (aggregate : Aggregate) {node : Node} {children : Forest Node}
    (own : JoinsOnly joined node.valueText)
    (below : ∀ node ∈ children.preorder, node.JoinsOnly joined) :
    Tells good (Told good joined) (nodeValue aggregate node children) := by
  obtain ⟨inPairs, inItems⟩ := tells_data language below
  exact tells_held language aggregate own inPairs inItems

/-- So do the named arguments of a call, whose names take no member. -/
theorem tells_keywordArguments [Letters] {forest : Forest Node}
    (joins : ∀ node ∈ forest.preorder, node.JoinsOnly joined) :
    Tells good (AllTold good joined) (keywordArguments forest) := by
  induction forest with
  | nil => exact .ok fun _ text mem => absurd mem List.not_mem_nil
  | cons node children rest _ ih =>
    obtain ⟨own, below, behind⟩ := forall_preorder_cons joins
    rw [keywordArguments]
    split
    next aggregate _ role =>
      split
      next identifier =>
        have holds := own.holds (.inl ⟨aggregate, role⟩)
        refine (tells_nodeValue language aggregate holds.2 below).bind fun _ inValue => ?_
        refine (ih behind).bind fun _ inRest => .ok fun all => ?_
        obtain ⟨goodValue, goodRest⟩ := allGood_append.mp all
        exact allTold_cons.mpr ⟨told_argument identifier (inValue goodValue), inRest goodRest⟩
      next => exact .error _
    next => exact ih behind

/-- So do the arguments of a call, whichever way they are given. -/
theorem tells_callArguments [Letters] (aggregate : Aggregate) {node : Node}
    {children : Forest Node} (own : JoinsOnly joined node.valueText)
    (below : ∀ node ∈ children.preorder, node.JoinsOnly joined) :
    Tells good (Told good joined) (callArguments aggregate node children) := by
  cases aggregate with
  | scalar =>
    rw [callArguments]
    split
    next raw hasValue =>
      rw [Node.valueText, hasValue] at own
      exact tells_value language node.line own
    next => exact .ok fun _ => told_nil
  | list =>
    exact (tells_data language below).2.bind fun _ own => .ok fun all => told_commas (own all)
  | dict =>
    exact (tells_keywordArguments language below).bind fun _ own =>
      .ok fun all => told_commas (own all)

/-- So does what a node prints, quoted or not. -/
theorem tells_printed [Letters] {node : Node} (role : node.role = .print)
    (own : node.JoinsOnly joined) : Tells good (Told good joined) (printed node) := by
  rw [Node.JoinsOnly, Node.reads, role, Node.valueText] at own
  rw [printed]
  split
  next => exact .ok fun _ => told_nil
  next raw hasValue =>
    rw [hasValue] at own
    refine tells_value language node.line ?_
    split
    · exact own _ (List.mem_cons_of_mem _ List.mem_cons_self)
    · exact own _ List.mem_cons_self

end

end Program

/-! ## Texts that are written as they are -/

namespace Text

variable {good joined : Text → Prop} {s before after : Text}

/-- The cut is at the first dot. -/
theorem cutAtFirstDot?_eq_some_iff :
    cutAtFirstDot? s = some (before, after) ↔ s = before ++ '.' :: after ∧ '.' ∉ before := by
  constructor
  · intro cut
    refine ⟨eq_append_of_cutAtFirstDot cut, ?_⟩
    rw [cutAtFirstDot?] at cut
    split at cut
    next => cases cut
    next =>
      obtain ⟨rfl, _⟩ := Prod.mk.inj (Option.some.inj cut)
      intro mem
      have differ := List.all_eq_true.mp List.all_takeWhile _ mem
      simp at differ
  · rintro ⟨rfl, noDot⟩
    have differ : ∀ c ∈ before, (c != '.') = true := by
      intro c mem
      rw [bne_iff_ne]
      rintro rfl
      exact noDot mem
    rw [cutAtFirstDot?, List.dropWhile_append_of_pos differ, List.takeWhile_append_of_pos differ]
    simp

theorem cutAtFirstDot?_eq_none (none : cutAtFirstDot? s = none) : '.' ∉ s := by
  intro mem
  obtain ⟨before, after, rfl, noDot⟩ := List.eq_append_cons_of_mem mem
  rw [cutAtFirstDot?_eq_some_iff.mpr ⟨rfl, noDot⟩] at none
  cases none

/-- A path takes a member of what stands before its first dot only. -/
theorem told_of_path (path : ∀ c ∈ s, c = '.' ∨ isWordChar c = true)
    (root : ∀ root rest, cutAtFirstDot? s = some (root, rest) → good root) :
    Told good joined s where
  ends := by
    refine ⟨_, parted_of_noQuote (fun c mem => ?_) []⟩
    rcases path c mem with rfl | word
    · rfl
    · exact isQuote_eq_false_of_isWordChar word
  tells := by
    intro before name after takes
    rcases before.eq_nil_or_concat with rfl | ⟨front, last, rfl⟩
    · have noDot : '.' ∉ name := fun mem =>
        ne_dot_of_isWordChar (isWordChar_of_mem_identifier takes.identifier _ mem) rfl
      exact .inl (root name after (cutAtFirstDot?_eq_some_iff.mpr ⟨takes.split, noDot⟩))
    · exfalso
      have alone := takes.alone
      have undotted := takes.undotted
      rcases path last (by simp [takes.split]) with rfl | word
      · rw [List.concat_eq_append, endsInDot_append_ink (t := ['.']) rfl (by decide)] at undotted
        cases undotted
      · simp [word] at alone

/-- A dotted path has one member use, the one of its root. -/
theorem told_of_root {root rest : Text} (words : ∀ c ∈ root, isWordChar c = true)
    (path : isDottedPath rest = true) (known : good root) :
    Told good joined (root ++ '.' :: rest) := by
  have noDot : '.' ∉ root := fun mem => ne_dot_of_isWordChar (words _ mem) rfl
  refine told_of_path (fun c mem => ?_) fun root' rest' cut => ?_
  · rw [List.mem_append, List.mem_cons] at mem
    rcases mem with inRoot | rfl | inRest
    · exact .inr (words c inRoot)
    · exact .inl rfl
    · exact mem_isDottedPath path c inRest
  · rw [cutAtFirstDot?_eq_some_iff.mpr ⟨rfl, noDot⟩] at cut
    obtain ⟨rfl, _⟩ := Prod.mk.inj (Option.some.inj cut)
    exact known

end Text

namespace Classify

/-- The name that an import binds has no dot. -/
theorem dot_not_mem_boundName {text : Text} {path : ImportPath}
    (read : importPath? text = some path) :
    '.' ∉ path.boundName := by
  rw [importPath?] at read
  split at read
  next written nickname cut =>
    split at read
    next allowed =>
      rw [Bool.and_eq_true] at allowed
      have named (name : Text) (same : nickname = some name) : '.' ∉ name := by
        rw [same] at allowed
        exact fun mem => Text.ne_dot_of_isWordChar
          (Text.isWordChar_of_mem_identifier allowed.2 _ mem) rfl
      split at read
      next source member dot =>
        obtain rfl := Option.some.inj read
        rw [Text.cutAtLastDot?, Option.map_eq_some_iff] at dot
        obtain ⟨⟨last, first⟩, found, same⟩ := dot
        obtain ⟨_, rfl⟩ := Prod.mk.inj same
        have noDot := (Text.cutAtFirstDot?_eq_some_iff.mp found).2
        cases nickname with
        | some name => exact named name rfl
        | none => simpa [ImportPath.boundName] using noDot
      next whole =>
        obtain rfl := Option.some.inj read
        rw [Text.cutAtLastDot?, Option.map_eq_none_iff] at whole
        have noDot := Text.cutAtFirstDot?_eq_none whole
        cases nickname with
        | some name => exact named name rfl
        | none => simpa [ImportPath.boundName] using noDot
    next => cases read

/-- An import binds a word. -/
theorem isWordChar_boundName {text : Text} {path : ImportPath}
    (read : importPath? text = some path) :
    ∀ c ∈ path.boundName, Text.isWordChar c = true := by
  intro c mem
  rcases (importPath?_texts read _ path.boundName_mem_texts).2 c mem with rfl | word
  · exact absurd mem (dot_not_mem_boundName read)
  · exact word

end Classify

/-- The texts that a node puts into its row as they are take members of good names only. Only what
is called may take a member at all. -/
def Node.Voiced (good joined : Text → Prop) (node : Node) : Prop :=
  match node.role with
  | .argCall _ => Text.Told good joined node.keyText
  | .bareCall callee => Text.Told good joined callee
  | .importEntry path => ∀ c ∈ path.boundName, Text.isWordChar c = true
  | _ => ∀ text ∈ node.verbatim, text.all Text.isQuiet = true

namespace Classify

open Text

variable {good joined : Text → Prop}

/-- A character of a name is neither a quote nor a dot. -/
theorem isQuiet_of_isNameChar [Letters] {c : Char} (inName : Grammar.isNameChar c = true) :
    isQuiet c = true := by
  have neutral := Grammar.isNeutral_of_isNameChar inName
  simp only [Nesting.isNeutral, Bool.and_eq_true] at neutral
  rw [isQuiet, neutral.1.1, Bool.true_and, bne_iff_ne]
  exact Grammar.ne_of_isNameChar inName (by decide) (by decide)

/-- What a decision puts into the program as it is, if the key of a call is voiced. -/
theorem Decision.voiced [Letters] {table : SymbolTable} {context : Context} {previous : Option Role}
    {node : Node} {shapes : List Shape} {role : Role}
    (decided : Decision table context previous node shapes role)
    (known : ∀ name, table.isKnown name = true → good name)
    (called : ∀ aggregate, role = .argCall aggregate → Told good joined node.keyText) :
    ({ node with role } : Node).Voiced good joined := by
  cases decided with
  | argCall aggregate => exact called aggregate rfl
  | bareCall callee _ _ _ path resolved =>
    refine told_of_path (mem_isDottedPath path) fun root rest cut => known root ?_
    rw [resolves, cut] at resolved
    exact resolved
  | importEntry _ path _ _ _ _ read => exact isWordChar_boundName read
  | flow _ _ word =>
    intro text mem
    obtain rfl := List.mem_singleton.mp mem
    have quiet : flowWords.all (·.all isQuiet) = true := by decide
    exact List.all_eq_true.mp quiet _ word
  | header _ header _ _ _ _ _ read decided =>
    have names (name : Text) (mem : name ∈ header.names) : name.all isQuiet = true :=
      List.all_eq_true.mpr fun c inName =>
        isQuiet_of_isNameChar (Header.isNameChar_of_read? read name mem c inName)
    cases decided with
    | forLoop | rangeLoop => exact names
    | function name param =>
      intro text mem
      rcases List.mem_cons.mp mem with rfl | later
      · exact names text List.mem_cons_self
      · have isParam : text = param := by
          split at later
          · cases later
          · exact List.mem_singleton.mp later
        exact names text (isParam ▸ List.mem_cons_of_mem _ List.mem_cons_self)
    | _ =>
      intro text mem
      cases mem
  | _ =>
    intro text mem
    cases mem

/-- The name that an import binds is a word. -/
theorem isWordChar_of_lastImport {nodes : List Node} {name : Text} {path : ImportPath}
    (voiced : ∀ node ∈ nodes, (∀ aggregate, node.role ≠ .argCall aggregate) →
      node.Voiced good joined)
    (imported : LastImport nodes name path) : ∀ c ∈ name, isWordChar c = true := by
  obtain ⟨before, node, after, rfl, role, rfl, _⟩ := imported
  have own : node.Voiced good joined := by
    refine voiced node (List.mem_append_right _ List.mem_cons_self) fun aggregate call => ?_
    rw [role] at call
    cases call
  rw [Node.Voiced, role] at own
  exact own

/-- A name that can be called takes no member. -/
theorem told_of_callable {nodes : List Node} {name : Text}
    (voiced : ∀ node ∈ nodes, (∀ aggregate, node.role ≠ .argCall aggregate) →
      node.Voiced good joined)
    (callable : Callable nodes name) : Told good joined name := by
  rcases callable with ⟨node, mem, param, role⟩ | ⟨path, imported, _⟩
  · have own : node.Voiced good joined := by
      refine voiced node mem fun aggregate call => ?_
      rw [role] at call
      cases call
    rw [Node.Voiced, role] at own
    refine told_of_quiet (own name ?_)
    rw [Node.verbatim, role]
    exact List.mem_cons_self
  · have words := isWordChar_of_lastImport voiced imported
    exact told_of_quiet (List.all_eq_true.mpr fun c mem => isQuiet_of_isWordChar (words c mem))

/-- A name stays known as more nodes are declared. -/
theorem isKnown_of_prefix {front back : List Node} {name : Text}
    (known : (SymbolTable.declareAll {} front).isKnown name = true) :
    (SymbolTable.declareAll {} (front ++ back)).isKnown name = true := by
  rw [SymbolTable.isKnown_declareAll_iff] at known ⊢
  refine known.imp_right ?_
  rintro ⟨node, mem, binds⟩
  exact ⟨node, List.mem_append_left _ mem, binds⟩

/-- An imported name is known. -/
theorem isKnown_of_lastImport {nodes : List Node} {name : Text} {path : ImportPath}
    (imported : LastImport nodes name path) :
    (SymbolTable.declareAll {} nodes).isKnown name = true := by
  obtain ⟨before, node, after, rfl, role, bound, _⟩ := imported
  have inNodes : node ∈ before ++ node :: after := List.mem_append_right _ List.mem_cons_self
  have imports : node.Imports name := ⟨path, role, bound⟩
  exact SymbolTable.isKnown_declareAll_iff.mpr (.inr ⟨node, inNodes, .inr (.inl imports)⟩)

/-- Every node of a classified forest is voiced by the names that are known at the end. -/
theorem voiced_of_classify [Letters] {forest forest' : Forest Node} {table : SymbolTable}
    (ok : forest.classify = .ok (forest', table)) :
    ∀ node ∈ forest'.preorder, node.Voiced (table.isKnown · = true) joined := by
  obtain rfl := (classified_of_siblings ok).decision_at.1
  have known {before after : List Node} {node : Node}
      (split : forest'.preorder = before ++ node :: after) (name : Text)
      (inBefore : (SymbolTable.declareAll {} before).isKnown name = true) :
      (SymbolTable.declareAll {} forest'.preorder).isKnown name = true := by
    rw [split]
    exact isKnown_of_prefix inBefore
  -- Nodes that are no calls come first, because what is called goes back to them.
  have others : ∀ node ∈ forest'.preorder, (∀ aggregate, node.role ≠ .argCall aggregate) →
      node.Voiced ((SymbolTable.declareAll {} forest'.preorder).isKnown · = true) joined := by
    intro node mem noCall
    obtain ⟨before, after, split⟩ := List.append_of_mem mem
    obtain ⟨_, _, plain, _, decided, same⟩ := decision_of_classify ok split
    rw [same]
    exact decided.voiced (known split) fun aggregate role => absurd role (noCall aggregate)
  intro node mem
  obtain ⟨before, after, split⟩ := List.append_of_mem mem
  obtain ⟨_, _, plain, _, decided, same⟩ := decision_of_classify ok split
  have earlier : ∀ node ∈ before, (∀ aggregate, node.role ≠ .argCall aggregate) →
      node.Voiced ((SymbolTable.declareAll {} forest'.preorder).isKnown · = true) joined := by
    intro other inBefore
    exact others other (by rw [split]; exact List.mem_append_left _ inBefore)
  rw [same]
  refine decided.voiced (known split) fun aggregate role => ?_
  rw [role] at decided
  rcases decided.argCall_declared with callable | ⟨root, rest, path, key, dotted, imported, _⟩
  · exact told_of_callable earlier callable
  · rw [key]
    exact told_of_root (isWordChar_of_lastImport earlier imported) dotted
      (known split root (isKnown_of_lastImport imported))

end Classify

/-! ## Rows -/

/-- A statement that a node makes. -/
inductive Node.Writes (good joined : Text → Prop) (node : Node) : Statement → Prop
  | comment {text : Text} (mark : text.head? = some '#') : Writes good joined node ⟨text, .plain⟩
  | imported {path : ImportPath} (role : node.role = .importEntry path) :
      Writes good joined node ⟨Program.importStatement path, .plain⟩
  | assigned {aggregate : Aggregate} {value : Text} (role : node.role = .assignment aggregate)
      (told : Text.Told good joined value) :
      Writes good joined node ⟨node.keyText ++ (" = ".toList ++ value), .plain⟩
  | items {targets : List Text} {iterable : Text} (role : node.role = .forHeader targets iterable)
      (two : targets.length = 2)
      (told : Text.Told (fun name => good name ∨ name = Expression.respell iterable) joined
        (Program.forHeader targets (Expression.respell iterable ++ ".items()".toList))) :
      Writes good joined node
        ⟨Program.forHeader targets (Expression.respell iterable ++ ".items()".toList), .header⟩
  | told {statement : Statement} (told : Text.Told good joined statement.text) :
      Writes good joined node statement

/-- The statement that a contribution to a program puts into it. -/
def Program.Output.statement? : Output → Option Statement
  | .line text => some ⟨text, .plain⟩
  | .block header form => some ⟨header, form⟩
  | .children => none

/-- The contribution puts a statement of the node into a program, or none. -/
def Program.Output.WrittenBy (good joined : Text → Prop) (node : Node) (out : Output) : Prop :=
  ∀ statement, out.statement? = some statement → node.Writes good joined statement

/-- A line is written by a node that makes its statement. -/
theorem Program.Output.WrittenBy.line {good joined : Text → Prop} {node : Node} {text : Text}
    (writes : node.Writes good joined ⟨text, .plain⟩) :
    Output.WrittenBy good joined node (.line text) := by
  intro statement same
  obtain rfl := Option.some.inj same
  exact writes

/-- A block is written by a node that makes its header. -/
theorem Program.Output.WrittenBy.block {good joined : Text → Prop} {node : Node} {header : Text}
    {form : StatementForm} (writes : node.Writes good joined ⟨header, form⟩) :
    Output.WrittenBy good joined node (.block header form) := by
  intro statement same
  obtain rfl := Option.some.inj same
  exact writes

/-- The expression of a name alone is the name. -/
theorem Expression.text_of_isIdentifier [Letters] {name : Text} {e : Expression}
    (identifier : Text.isIdentifier name = true) (ok : ofText name = .ok e) :
    e.text = respell name := by
  obtain ⟨c, rest, rfl, start⟩ := Text.exists_head_of_isIdentifier identifier
  have words := Text.isWordChar_of_mem_identifier identifier
  have noQuote := Text.isQuote_eq_false_of_isWordChar (Text.isWordChar_of_isWordStart start)
  have read : Token.read false c rest = (.word (c :: rest) false, []) := by
    have whole : ((c :: rest) ++ []).takeWhile Text.isWordChar = (c :: rest) ++ [] :=
      List.takeWhile_append_of_pos words
    have nothing : ((c :: rest) ++ []).dropWhile Text.isWordChar = [] :=
      List.dropWhile_append_of_pos words
    rw [List.append_nil] at whole nothing
    rw [Token.read, if_neg (by rw [noQuote]; decide), if_pos start, Text.leadingWord,
      Text.afterWord, whole, nothing]
    rfl
  rw [ofText_eq, Text.trim_eq_self (Text.trimmed_of_isIdentifier identifier), Token.readAll,
    Token.readAllFrom, read, Token.readAllFrom] at ok
  obtain rfl := Except.ok.inj ok
  show (ofWord (c :: rest) false).text ++ [] = _
  rw [List.append_nil, text_ofWord]

namespace Program

open Text

variable {good joined : Text → Prop} {node : Node}

theorem told_call {callee arguments : Text} (inCallee : Told good joined callee)
    (inside : Told good joined arguments) : Told good joined (call callee arguments) := by
  rw [call, List.append_assoc]
  exact inCallee.append_of_head (told_bracketed rfl rfl inside) rfl

/-- The member uses of a loop header are those of what the loop goes over. -/
theorem told_forHeader {targets : List Text} {iterated : Text}
    (quiet : ∀ target ∈ targets, target.all isQuiet = true)
    (told : Told good joined iterated) : Told good joined (forHeader targets iterated) := by
  have inTargets : Told good joined (commas targets) :=
    told_commas fun target mem => told_of_quiet (quiet target mem)
  show Told good joined ("for ".toList ++ commas targets ++ " in ".toList ++ iterated)
  rw [List.append_assoc, List.append_assoc]
  refine told_append_of_last (by decide) (by decide) ?_
  exact inTargets.append_of_head (told_append_of_last (by decide) (by decide) told) rfl

/-- Where `.items()` is added to a name, that name has one more member use. -/
theorem told_items {targets : List Text} {iterable : Text}
    (quiet : ∀ target ∈ targets, target.all isQuiet = true)
    (identifier : isIdentifier iterable = true) :
    Told (fun name => good name ∨ name = Expression.respell iterable) joined
      (forHeader targets (Expression.respell iterable ++ ".items()".toList)) := by
  have words := isWordChar_of_mem_identifier (Expression.isIdentifier_respell identifier)
  refine told_forHeader quiet ?_
  have path : Told (fun name => good name ∨ name = Expression.respell iterable) joined
      (Expression.respell iterable ++ '.' :: "items".toList) :=
    told_of_root words (by decide) (.inr rfl)
  have whole := path.append_of_head (told_of_quiet (by decide : "()".toList.all isQuiet = true)) rfl
  rwa [List.append_assoc] at whole

section

variable (language : ∀ name, Expression.keywords.contains name = true → good name)

include language

/-- A loop runs over a value, or over the items of a name. -/
theorem tells_iterated [Letters] (line : Nat) (targets : List Text) {iterable : Text}
    (joins : JoinsOnly joined iterable) :
    Tells good (fun text => Told good joined text ∨ targets.length = 2 ∧
      isIdentifier iterable = true ∧ text = Expression.respell iterable ++ ".items()".toList)
      (iterated line targets iterable) := by
  intro result ok all
  obtain ⟨⟨text, found⟩, read, ok⟩ := bind_eq_ok.mp ok
  change (if _ then _ else _) = _ at ok
  split at ok
  next items =>
    obtain rfl := Except.ok.inj ok
    rw [Bool.and_eq_true, decide_eq_true_eq] at items
    obtain ⟨e, made, rfl⟩ := value_eq_ok read
    rw [Expression.text_of_isIdentifier items.2 made]
    exact .inr ⟨items.1, items.2, rfl⟩
  next =>
    obtain rfl := Except.ok.inj ok
    exact .inl (tells_value language line joins _ read all)

/-- A condition stands behind its word, which takes no member. -/
theorem tells_conditionHeader [Letters] {word : String} (quiet : word.toList.all isQuiet = true)
    (form : StatementForm) (line : Nat) {condition : Text} (joins : JoinsOnly joined condition) :
    Tells good (Output.WrittenBy good joined node) (conditionHeader word form line condition) :=
  (tells_value language line joins).bind fun _ told =>
    .ok fun all => .block (.told (told_spaced quiet (told all)))

/-- What a node writes takes members of good names only, if the member roots it reports are good. -/
theorem tells_output [Letters] {children : Forest Node} (voiced : node.Voiced good joined)
    (own : node.JoinsOnly joined) (below : ∀ node ∈ children.preorder, node.JoinsOnly joined) :
    Tells good (Output.WrittenBy good joined node) (output node children) := by
  have reads {raw : Text} (single : node.reads = [raw]) : JoinsOnly joined raw := by
    rw [Node.JoinsOnly, single] at own
    exact own raw List.mem_cons_self
  -- By its role, a node writes texts that it has as they are, of which it is voiced, or texts that
  -- are read as expressions, whose member roots are reported.
  rw [Node.Voiced] at voiced
  rw [Node.reads] at reads
  rw [output.eq_def]
  cases role : node.role with
  | comment => exact .ok fun _ => .line (.comment rfl)
  | flow =>
    rw [Node.verbatim, role] at voiced
    exact .ok fun _ => .line (.told (told_of_quiet (voiced _ List.mem_cons_self)))
  | assignment aggregate =>
    rw [role] at reads
    refine (tells_nodeValue language aggregate (reads rfl) below).bind fun _ inValue =>
      .ok fun all => .line ?_
    rw [List.append_assoc]
    exact .assigned role (inValue all)
  | argCall aggregate =>
    rw [role] at voiced reads
    exact (tells_callArguments language aggregate (reads rfl) below).bind fun _ inside =>
      .ok fun all => .line (.told (told_call voiced (inside all)))
  | bareCall callee =>
    rw [role] at voiced
    exact .ok fun _ => .line (.told (told_call voiced told_nil))
  | print =>
    exact (tells_printed language role own).bind fun _ shown =>
      .ok fun all => .line (.told (told_call (told_of_quiet (by decide)) (shown all)))
  | returnValue =>
    rw [role] at reads
    dsimp only
    split
    next raw _ hasValue =>
      have inRaw : JoinsOnly joined node.valueText := reads rfl
      rw [Node.valueText, hasValue] at inRaw
      exact (tells_value language node.line inRaw).bind fun _ inValue =>
        .ok fun all => .line (.told (told_append_of_last (by decide) (by decide) (inValue all)))
    next => exact .ok fun _ => .line (.told (told_of_quiet (by decide)))
  | ifHeader text | elifHeader text | whileHeader text =>
    rw [role] at reads
    exact tells_conditionHeader language (by decide) _ _ (reads rfl)
  | elseHeader => exact .ok fun _ => .block (.told (told_of_quiet (by decide)))
  | forHeader targets iterable =>
    rw [Node.verbatim, role] at voiced
    rw [role] at reads
    refine (tells_iterated language node.line targets (reads rfl)).bind fun _ inIterated =>
      .ok fun all => .block ?_
    rcases inIterated all with told | ⟨two, identifier, items⟩
    · exact .told (told_forHeader voiced told)
    · rw [items]
      exact .items role two (told_items voiced identifier)
  | rangeForHeader targets range =>
    rw [Node.verbatim, role] at voiced
    rw [role] at reads
    exact (tells_value language node.line (reads rfl)).bind fun _ inRange =>
      .ok fun all => .block (.told (told_forHeader voiced (inRange all)))
  | functionDef name param =>
    rw [Node.verbatim, role] at voiced
    have inParam : Told good joined (param.getD []) := by
      cases param with
      | none => exact told_nil
      | some param => exact told_of_quiet (voiced param (List.mem_cons_of_mem _ List.mem_cons_self))
    have whole := told_call (told_of_quiet (voiced name List.mem_cons_self)) inParam
    exact .ok fun _ => .block (.told (told_append_of_last (by decide) (by decide) whole))
  | importList =>
    refine .ok fun _ statement same => ?_
    cases same
  | importEntry path => exact .ok fun _ => .line (.imported role)
  | listEntry | dictEntry | unclassified => exact .error _

/-- Each statement of a program is written by a node. -/
theorem tells_statementsOf [Letters] {forest : Forest Node}
    (voiced : ∀ node ∈ forest.preorder, node.Voiced good joined)
    (joins : ∀ node ∈ forest.preorder, node.JoinsOnly joined) :
    Tells good (fun statements => ∀ statement ∈ statements.preorder, ∃ node ∈ forest.preorder,
      node.Writes good joined statement) (statementsOf forest) := by
  induction forest with
  | nil =>
    refine .ok fun _ statement mem => ?_
    cases mem
  | cons node children rest ihChildren ihRest =>
    obtain ⟨voicedOwn, voicedBelow, voicedBehind⟩ := forall_preorder_cons voiced
    obtain ⟨joinsOwn, joinsBelow, joinsBehind⟩ := forall_preorder_cons joins
    have own := tells_output language voicedOwn joinsOwn joinsBelow
    have below := ihChildren voicedBelow joinsBelow
    have behind := ihRest voicedBehind joinsBehind
    have inChildren {statement : Statement}
        (found : ∃ node ∈ children.preorder, node.Writes good joined statement) :
        ∃ other ∈ (Forest.cons node children rest).preorder,
          other.Writes good joined statement := by
      obtain ⟨other, mem, writes⟩ := found
      exact ⟨other, List.mem_cons_of_mem _ (List.mem_append_left _ mem), writes⟩
    have inRest {statement : Statement}
        (found : ∃ node ∈ rest.preorder, node.Writes good joined statement) :
        ∃ other ∈ (Forest.cons node children rest).preorder,
          other.Writes good joined statement := by
      obtain ⟨other, mem, writes⟩ := found
      exact ⟨other, List.mem_cons_of_mem _ (List.mem_append_right _ mem), writes⟩
    rw [statementsOf]
    refine own.bind fun result inOwn => ?_
    obtain ⟨out, roots⟩ := result
    -- The member roots come in document order: of the node, of what is below it, of the rest.
    cases out with
    | line text =>
      refine behind.bind fun _ inBehind => .ok fun all statement mem => ?_
      obtain ⟨goodOwn, goodRest⟩ := allGood_append.mp all
      rcases List.mem_cons.mp mem with rfl | later
      · exact ⟨node, List.mem_cons_self, inOwn goodOwn _ rfl⟩
      · exact inRest (inBehind goodRest statement later)
    | block header form =>
      refine below.bind fun _ inBelow => behind.bind fun _ inBehind =>
        .ok fun all statement mem => ?_
      obtain ⟨goodFront, goodRest⟩ := allGood_append.mp all
      obtain ⟨goodOwn, goodBody⟩ := allGood_append.mp goodFront
      rcases List.mem_cons.mp mem with rfl | later
      · exact ⟨node, List.mem_cons_self, inOwn goodOwn _ rfl⟩
      rcases List.mem_append.mp later with inBody | after
      · exact inChildren (inBelow goodBody statement inBody)
      · exact inRest (inBehind goodRest statement after)
    | children =>
      refine below.bind fun _ inBelow => behind.bind fun _ inBehind =>
        .ok fun all statement mem => ?_
      obtain ⟨goodFront, goodRest⟩ := allGood_append.mp all
      obtain ⟨_, goodBody⟩ := allGood_append.mp goodFront
      rw [preorder_append] at mem
      rcases List.mem_append.mp mem with inBody | after
      · exact inChildren (inBelow goodBody statement inBody)
      · exact inRest (inBehind goodRest statement after)

end

end Program

end Outline
