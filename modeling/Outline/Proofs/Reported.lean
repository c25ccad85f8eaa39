import Outline.Header.Edition
import Outline.Proofs.Comments
import Outline.Proofs.Gathered

/-!
# Members are known or reported

Each row of a program is looked at as it is written: of the names whose members it takes outside
strings, which ones are known to the document or reported in a warning? All of them, except where a
text goes into the row that was not read as a value (`diagnose_reported`).
-/

set_option autoImplicit false

namespace Outline

/-! ## Lines -/

/-- The ways in which a statement is written on a line of its own. -/
inductive Statement.OnLine (style : BlockStyle) (statement : Statement) : Text → Prop
  | plain (form : statement.form = .plain) : OnLine style statement statement.text
  | opened (form : statement.form ≠ .plain) : OnLine style statement (style.opened statement.text)
  | continued {closing : Text} (form : statement.form = .continuation)
      (closes : style.closing? = some closing) :
      OnLine style statement (closing ++ ' ' :: style.opened statement.text)

namespace Buffer

variable {style : BlockStyle}

/-- A line of a buffer after a push is an old one or the one pushed. -/
theorem mem_push {p : Text → Prop} {depth : Nat} {text : Text} {buffer : Buffer} {line : CodeLine}
    (own : p text) (mem : line ∈ (buffer.push depth text).toList) :
    line ∈ buffer.toList ∨ p line.text := by
  rw [toList_push, List.mem_append, List.mem_singleton] at mem
  refine mem.imp_right ?_
  rintro rfl
  exact own

/-- A line of a buffer after a block is opened is an old one or holds the header. -/
theorem mem_openBlock {depth : Nat} {statement : Statement} {buffer : Buffer} {line : CodeLine}
    (form : statement.form ≠ .plain)
    (mem : line ∈ (buffer.openBlock style depth statement).toList) :
    line ∈ buffer.toList ∨ statement.OnLine style line.text := by
  have header (mem : line ∈ (buffer.push depth (style.opened statement.text)).toList) :
      line ∈ buffer.toList ∨ statement.OnLine style line.text :=
    mem_push (.opened form) mem
  rw [openBlock.eq_def] at mem
  dsimp only at mem
  split at mem
  next closing continues closes =>
    split at mem
    next shorter popped =>
      rw [toList_of_popIfLast? popped, List.mem_append]
      exact (mem_push (.continued continues closes) mem).imp_left .inl
    next => exact header mem
  next => exact header mem

/-- A line of a buffer after a block is closed is an old one or the closing one. -/
theorem mem_closeBlock {depth : Nat} {buffer : Buffer} {line : CodeLine}
    (mem : line ∈ (buffer.closeBlock style depth).toList) :
    line ∈ buffer.toList ∨ style.closing? = some line.text := by
  rw [closeBlock] at mem
  split at mem
  next closing closes => exact mem_push (p := (style.closing? = some ·)) closes mem
  next => exact .inl mem

/-- A line of a program is written by a statement, or closes a block. -/
theorem mem_layout {depth : Nat} {statements : Forest Statement} {buffer : Buffer} {line : CodeLine}
    (mem : line ∈ (layout style depth statements buffer).toList) :
    line ∈ buffer.toList ∨ style.closing? = some line.text ∨
      ∃ statement ∈ statements.preorder, statement.OnLine style line.text := by
  induction statements generalizing depth buffer with
  | nil => exact .inl mem
  | cons statement body rest ihBody ihRest =>
    have own (onLine : statement.OnLine style line.text) :
        ∃ other ∈ (Forest.cons statement body rest).preorder, other.OnLine style line.text :=
      ⟨statement, List.mem_cons_self, onLine⟩
    have inBody (found : ∃ other ∈ body.preorder, other.OnLine style line.text) :
        ∃ other ∈ (Forest.cons statement body rest).preorder, other.OnLine style line.text := by
      obtain ⟨other, mem, onLine⟩ := found
      exact ⟨other, List.mem_cons_of_mem _ (List.mem_append_left _ mem), onLine⟩
    have inRest (found : ∃ other ∈ rest.preorder, other.OnLine style line.text) :
        ∃ other ∈ (Forest.cons statement body rest).preorder, other.OnLine style line.text := by
      obtain ⟨other, mem, onLine⟩ := found
      exact ⟨other, List.mem_cons_of_mem _ (List.mem_append_right _ mem), onLine⟩
    have block (form : statement.form ≠ .plain) (mem : line ∈ (layout style depth rest
        ((layout style (depth + 1) body (buffer.openBlock style depth statement)).closeBlock
          style depth)).toList) :
        line ∈ buffer.toList ∨ style.closing? = some line.text ∨
          ∃ other ∈ (Forest.cons statement body rest).preorder, other.OnLine style line.text := by
      rcases ihRest mem with before | closes | later
      · rcases mem_closeBlock before with before | closes
        · rcases ihBody before with before | closes | inside
          · exact (mem_openBlock form before).imp_right fun onLine => .inr (own onLine)
          · exact .inr (.inl closes)
          · exact .inr (.inr (inBody inside))
        · exact .inr (.inl closes)
      · exact .inr (.inl closes)
      · exact .inr (.inr (inRest later))
    rw [layout] at mem
    cases form : statement.form with
    | plain =>
      rw [form] at mem
      rcases ihRest mem with before | closes | later
      · exact (mem_push (.plain form) before).imp_right fun onLine => .inr (own onLine)
      · exact .inr (.inl closes)
      · exact .inr (.inr (inRest later))
    | header | continuation =>
      rw [form] at mem
      refine block ?_ mem
      rw [form]
      intro same
      cases same

end Buffer

namespace Statement

open Text Program

variable {good joined : Text → Prop} {style : BlockStyle} {statement : Statement} {text : Text}

/-- The end of a header takes no member. -/
theorem told_opened (told : Told good joined text) (style : BlockStyle) :
    Told good joined (style.opened text) := by
  cases style with
  | colonIndent =>
    have colon : Told good joined [':'] := told_of_quiet (by decide)
    exact told.append_of_head colon rfl
  | brace =>
    have brace : Told good joined [' ', '{'] := told_of_quiet (by decide)
    exact told.append_of_head brace rfl

theorem closing_eq {closing : Text} (closes : style.closing? = some closing) : closing = ['}'] := by
  cases style with
  | colonIndent => cases closes
  | brace => exact (Option.some.inj closes).symm

theorem OnLine.of_plain (onLine : statement.OnLine style text) (form : statement.form = .plain) :
    text = statement.text := by
  cases onLine with
  | plain => rfl
  | opened block => exact absurd form block
  | continued other =>
    rw [form] at other
    cases other

theorem OnLine.of_header (onLine : statement.OnLine style text) (form : statement.form = .header) :
    text = style.opened statement.text := by
  cases onLine with
  | opened => rfl
  | plain other | continued other =>
    rw [form] at other
    cases other

/-- What is told of a statement is told of its line. -/
theorem OnLine.told (onLine : statement.OnLine style text)
    (told : Told good joined statement.text) : Told good joined text := by
  cases onLine with
  | plain => exact told
  | opened => exact told_opened told style
  | continued _ closes =>
    rw [closing_eq closes]
    exact told_spaced (by decide) (told_opened told style)

/-- A statement on one row is written on one row. -/
theorem OnLine.oneRow (onLine : statement.OnLine style text) (oneRow : '\n' ∉ statement.text) :
    '\n' ∉ text := by
  have opened : '\n' ∉ style.opened statement.text := by
    cases style <;> simp [BlockStyle.opened, oneRow]
  cases onLine with
  | plain => exact oneRow
  | opened => exact opened
  | continued _ closes =>
    rw [closing_eq closes]
    simp [opened]

end Statement

/-! ## Places -/

namespace Text

open SymbolTable

variable {front key value name after rest : Text}

/-- A member that is taken from within the key of an assignment is in it. -/
theorem exists_rest_of_key
    (split : key ++ (" = ".toList ++ value) = front ++ (name ++ '.' :: after))
    (identifier : isIdentifier name = true) (short : front.length < key.length) :
    ∃ rest, key = front ++ (name ++ '.' :: rest) := by
  rcases List.append_eq_append_iff.mp split with ⟨more, long, _⟩ | ⟨own, rfl, behind⟩
  · rw [long, List.length_append] at short
    omega
  have same : (name ++ ['.']) ++ after = own ++ (" = ".toList ++ value) := by simpa using behind
  rcases List.append_eq_append_iff.mp same with ⟨rest, rfl, _⟩ | ⟨more, whole, behind⟩
  · exact ⟨rest, by simp⟩
  cases more with
  | nil =>
    rw [List.append_nil] at whole
    exact ⟨[], by rw [← whole]⟩
  | cons d more =>
    -- The blank behind the key is part of no name.
    obtain rfl : ' ' = d := (List.cons.inj behind).1
    rcases mem_name_dot identifier (by rw [whole]; simp : ' ' ∈ name ++ ['.']) with other | word
    · cases other
    · exact absurd word (by decide)

/-- The root of a path is found behind blanks. -/
theorem rootName_of_blank_append {blanks : Text} (blank : ∀ c ∈ blanks, isBlank c = true)
    (identifier : isIdentifier name = true) (rest : Text) :
    rootName (blanks ++ (name ++ '.' :: rest)) = name := by
  have stop : ∀ c ∈ ('.' :: rest).head?, isWordChar c = false := by
    intro c head
    obtain rfl := Option.some.inj head
    decide
  obtain ⟨first, more, rfl, start⟩ := exists_head_of_isIdentifier identifier
  have ink : isBlank first = false :=
    isBlank_eq_false_of_isWordChar (isWordChar_of_isWordStart start)
  have front {t : Text} : ∀ c ∈ (first :: more ++ t).head?, isBlank c = false := by
    intro c head
    obtain rfl := Option.some.inj head
    exact ink
  have whole := rootName_of_isIdentifier identifier
  rw [rootName_eq, ← List.append_nil (first :: more), trimStart_eq_self front] at whole
  rw [rootName_eq, trimStart_append blank, trimStart_eq_self front, leadingWord_append stop]
  simpa using whole

end Text

/-- The name at the start of an assigned key, or behind a comma of it, is a variable. -/
theorem Node.mem_variableNames_of_front {node : Node} {aggregate : Aggregate}
    {front name rest : Text} (role : node.role = .assignment aggregate)
    (key : node.keyText = front ++ (name ++ '.' :: rest))
    (identifier : Text.isIdentifier name = true)
    (starts : (Text.trimEnd front).getLast?.any (· != ',') = false) :
    name ∈ node.variableNames := by
  have names : node.variableNames = (node.keyText.splitOn ',').map SymbolTable.rootName := by
    rw [variableNames, role]
  obtain ⟨blanks, split, blank⟩ := Text.exists_eq_trimEnd_append front
  have root := Text.rootName_of_blank_append blank identifier rest
  rw [names, SymbolTable.mem_map_rootName_splitOn, key]
  rcases (Text.trimEnd front).eq_nil_or_concat with empty | ⟨more, last, ends⟩
  · rw [empty, List.nil_append] at split
    rw [split]
    exact .inl root
  · rw [ends, List.concat_eq_append, List.getLast?_concat, Option.any_some, bne_eq_false_iff_eq]
      at starts
    rw [starts] at ends
    refine .inr ⟨more, blanks ++ (name ++ '.' :: rest), ?_, root⟩
    rw [split, ends]
    simp

/-! ## What a row takes members of -/

/-- The row is an assignment of a value to the key of a node. -/
structure Forest.Assigns (forest : Forest Node) (row lead key value : Text) : Prop where
  node : ∃ node ∈ forest.preorder, (∃ aggregate, node.role = .assignment aggregate) ∧
    node.keyText = key
  written : row = lead ++ (key ++ (" = ".toList ++ value))
  blank : ∀ c ∈ lead, Text.isBlank c = true

/-- The row is the import of an entry. -/
def Forest.Imports (forest : Forest Node) (row : Text) : Prop :=
  ∃ node ∈ forest.preorder, ∃ path lead, node.role = .importEntry path ∧
    row = lead ++ Program.importStatement path ∧ ∀ c ∈ lead, Text.isBlank c = true

/-- A string is joined to the name by a dot in a value of the document. -/
def Forest.JoinsString (forest : Forest Node) (name : Text) : Prop :=
  ∃ node ∈ forest.preorder, ∃ raw ∈ node.reads, Text.JoinsString raw name

/-- The ways in which a member that a row takes goes unnoticed. -/
inductive Forest.Overlooks (forest : Forest Node) (style : BlockStyle)
    (row before name after : Text) : Prop
  /-- The member is the mark that was put before a string, which the document joins to the name. -/
  | mark (joined : forest.JoinsString name) (marked : Text.StartsMark after)
  /-- The member is what two targets take from a name that a loop runs over. -/
  | items {node : Node} {targets : List Text} {lead : Text} (mem : node ∈ forest.preorder)
      (role : node.role = .forHeader targets name) (two : targets.length = 2)
      (written : row =
        lead ++ style.opened (Program.forHeader targets (name ++ ".items()".toList)))
      (blank : ∀ c ∈ lead, Text.isBlank c = true)
  /-- The name stands in the key of an assignment, neither at its start nor behind a comma. -/
  | place {lead key value front : Text} (assigns : forest.Assigns row lead key value)
      (inside : before = lead ++ front) (short : front.length < key.length)
      (later : (Text.trimEnd front).getLast?.any (· != ',') = true)
  /-- The name stands behind the key of an assignment, and a string in the key does not end. -/
  | openPlace {lead key value : Text} (assigns : forest.Assigns row lead key value)
      (behind : lead.length + key.length ≤ before.length)
      (opens : ¬ ∃ parts, Text.Parted [] key parts)

section

open Text

variable {good : Text → Prop} {forest : Forest Node} {style : BlockStyle} {lead text : Text}

theorem Text.quiet_of_blank {s : Text} (blank : ∀ c ∈ s, isBlank c = true) :
    s.all isQuiet = true ∧ s.getLast?.all isSeparator = true := by
  have quiet (c : Char) (mem : c ∈ s) : isQuiet c = true := by
    have loud : (!isQuiet c) = false :=
      eq_false_of_isBlank (p := fun c => !isQuiet c) (by decide) (blank c mem)
    simpa using loud
  refine ⟨List.all_eq_true.mpr quiet, ?_⟩
  cases last : s.getLast? with
  | none => rfl
  | some c =>
    have mem := List.mem_of_getLast? last
    rw [Option.all_some, isSeparator, quiet c mem, isWordChar_eq_false_of_isBlank (blank c mem)]
    rfl

/-- The members that an assignment takes. -/
theorem Forest.Assigns.tells {row key value before name after : Text}
    (assigns : forest.Assigns row lead key value)
    (bound : ∀ node ∈ forest.preorder, ∀ name ∈ node.variableNames, good name)
    (told : Told good forest.JoinsString value) (takes : TakesMember row before name after) :
    good name ∨ forest.Overlooks style row before name after := by
  obtain ⟨quiet, last⟩ := quiet_of_blank assigns.blank
  have takes' := takes
  rw [assigns.written] at takes'
  obtain ⟨front, rfl, inside⟩ := takes'.exists_back quiet last
  by_cases short : front.length < key.length
  · obtain ⟨node, mem, ⟨aggregate, role⟩, rfl⟩ := assigns.node
    obtain ⟨rest, whole⟩ := exists_rest_of_key inside.split takes.identifier short
    cases starts : (trimEnd front).getLast?.any (· != ',') with
    | true => exact .inr (.place assigns rfl short starts)
    | false =>
      exact .inl (bound node mem name
        (Node.mem_variableNames_of_front role whole takes.identifier starts))
  · by_cases ends : ∃ parts, Parted [] key parts
    · obtain ⟨parts, cut⟩ := ends
      have far : Parted (" = ".toList ++ value) key parts := by
        refine cut.of_head fun quote isQuote starts => ?_
        obtain rfl : ' ' = quote := Option.some.inj starts
        cases isQuote
      have inValue : Told good forest.JoinsString (" = ".toList ++ value) :=
        told_append_of_last (by decide) (by decide) told
      rcases inside.cases_append far with
        ⟨back, _, found⟩ | ⟨more, _, found⟩ | ⟨tail, more, filled, whole, _, _⟩
      · exact (inValue.tells found).imp_right fun found => .mark found.1 found.2
      · have length := congrArg List.length found.split
        simp only [List.length_append, List.length_cons] at length
        omega
      · have length := congrArg List.length whole
        have some := List.length_pos_iff.mpr filled
        rw [List.length_append] at length
        omega
    · refine .inr (.openPlace assigns ?_ ends)
      rw [List.length_append]
      omega

/-- The row of a statement, and the members it takes. -/
theorem Node.Writes.row_cases {node : Node} {statement : Statement} (mem : node ∈ forest.preorder)
    (writes : node.Writes good forest.JoinsString statement) (onLine : statement.OnLine style text)
    (blank : ∀ c ∈ lead, isBlank c = true)
    (language : ∀ name, Expression.keywords.contains name = true → good name)
    (bound : ∀ node ∈ forest.preorder, ∀ name ∈ node.variableNames, good name) :
    isCommentRow (lead ++ text) = true ∨ forest.Imports (lead ++ text) ∨
      ∀ before name after, TakesMember (lead ++ text) before name after →
        good name ∨ forest.Overlooks style (lead ++ text) before name after := by
  obtain ⟨quiet, last⟩ := quiet_of_blank blank
  cases writes with
  | comment mark =>
    obtain rfl := onLine.of_plain rfl
    have front : ∀ c ∈ text.head?, isBlank c = false := by
      intro c first
      rw [mark] at first
      obtain rfl := Option.some.inj first
      decide
    left
    rw [isCommentRow, trimStart_append blank, trimStart_eq_self front, mark]
    rfl
  | imported role =>
    obtain rfl := onLine.of_plain rfl
    exact .inr (.inl ⟨node, mem, _, lead, role, rfl, blank⟩)
  | @assigned aggregate value role told =>
    obtain rfl := onLine.of_plain rfl
    have assigns : forest.Assigns _ lead node.keyText value :=
      ⟨⟨node, mem, ⟨aggregate, role⟩, rfl⟩, rfl, blank⟩
    exact .inr (.inr fun before name after takes => assigns.tells bound told takes)
  | items role two told =>
    have header := onLine.told told
    obtain rfl := onLine.of_header rfl
    refine .inr (.inr fun before name after takes => ?_)
    rcases (told_append_of_last quiet last header).tells takes with
      (known | same) | ⟨joined, marked⟩
    · exact .inl known
    · rcases Expression.respell_cases _ with plain | keyword
      · rw [plain] at same ⊢
        subst same
        exact .inr (.items mem role two rfl blank)
      · rw [same]
        exact .inl (language _ keyword)
    · exact .inr (.mark joined marked)
  | told told =>
    refine .inr (.inr fun before name after takes => ?_)
    exact ((told_append_of_last quiet last (onLine.told told)).tells takes).imp_right
      fun found => .mark found.1 found.2

end

/-- A weaker property of names is had as well. -/
theorem Node.Voiced.mono {good better joined : Text → Prop} {node : Node}
    (voiced : node.Voiced good joined) (le : ∀ name, good name → better name) :
    node.Voiced better joined := by
  rw [Voiced] at voiced ⊢
  cases role : node.role with
  | argCall | bareCall =>
    rw [role] at voiced
    exact Text.Told.mono voiced le
  | _ =>
    rw [role] at voiced
    exact voiced

/-- The name is reported as a module that is not imported. -/
def Diagnostics.Reports (diagnostics : Diagnostics) (name : Text) : Prop :=
  ∃ warning ∈ diagnostics, warning.code = "PYML-UNRESOLVED-MODULE" ∧ warning.subject = some name

/-- A member root is known or reported. -/
theorem isKnown_or_reports (file : Option String) (source : Text) {table : SymbolTable}
    {roots : List MemberRoot} {root : MemberRoot} (mem : root ∈ roots) :
    table.isKnown root.name = true ∨
      (unresolvedModules file source roots table).Reports root.name := by
  rcases @isKnown_or_reported table roots [] root mem with known | seen | reported
  · exact .inl known
  · cases seen
  · obtain ⟨other, unresolved, same⟩ := List.mem_map.mp reported
    exact .inr ⟨_, List.mem_map_of_mem unresolved, rfl, congrArg some same⟩

/-- What is to be said of a name whose member is taken. -/
def SymbolTable.Accounts (table : SymbolTable) (warnings : Diagnostics) (name : Text) : Prop :=
  name ∈ Expression.keywords ∨ table.isKnown name = true ∨ warnings.Reports name

/-- Members are known or reported. A row of the code that is neither a comment nor an import takes
members of names. Each such name that is no word of the language is known to the document at its
end, or it is reported, or the row overlooks it: the member is the mark put before a string that the
document joins to the name, or the items that two targets run over, or the name stands within the
key of an assignment, or behind a key in which a string stays open. -/
theorem diagnose_reported [Letters] {config : Config} {file : Option String} {source : Text}
    {compiled : Compiled} (ok : diagnose config file source = .ok compiled) :
    ∃ (analysis : Analysis) (rows : List Text), analyze config source = .ok analysis ∧
      compiled.code = rows.flatMap (· ++ ['\n']) ∧
      ∀ row ∈ rows, '\n' ∉ row ∧ (Text.isCommentRow row = true ∨ analysis.forest.Imports row ∨
        ∀ before name after, Text.TakesMember row before name after → name ∉ Expression.keywords →
          analysis.symbols.isKnown name = true ∨ compiled.warnings.Reports name ∨
            analysis.forest.Overlooks config.blockStyle row before name after) := by
  obtain ⟨lines, forest, forest', table, statements, roots, scanned, nested, classified, found,
    rfl⟩ := diagnose_eq_ok_iff.mp ok
  have analyzed : analyze config source = .ok ⟨forest', table⟩ :=
    analyze_eq_ok_iff.mpr ⟨lines, forest, scanned, nested, classified⟩
  have language (name : Text) (keyword : Expression.keywords.contains name = true) :
      table.Accounts (unresolvedModules file source roots table) name :=
    .inl (List.contains_iff_mem.mp keyword)
  have voiced : ∀ node ∈ forest'.preorder,
      node.Voiced (table.Accounts (unresolvedModules file source roots table))
        forest'.JoinsString := fun node mem =>
    (Classify.voiced_of_classify classified node mem).mono fun _ known => .inr (.inl known)
  have bound : ∀ node ∈ forest'.preorder, ∀ name ∈ node.variableNames,
      table.Accounts (unresolvedModules file source roots table) name := by
    intro node mem name assigned
    refine .inr (.inl ?_)
    rw [(Classify.classified_of_siblings classified).decision_at.1]
    exact SymbolTable.isKnown_declareAll_iff.mpr (.inr ⟨node, mem, .inr (.inr assigned)⟩)
  -- Every reported member root is known or has its warning, so what is told of good names holds.
  have gathered : Program.AllGood (table.Accounts (unresolvedModules file source roots table))
      roots :=
    fun root mem => .inr (isKnown_or_reports file source mem)
  have joins : ∀ node ∈ forest'.preorder, node.JoinsOnly forest'.JoinsString :=
    fun node mem raw read name joins => ⟨node, mem, raw, read, joins⟩
  have written := Program.tells_statementsOf language voiced joins _ found gathered
  have sound := Program.sound_statementsOf (settled_of_analyze analyzed) found
  have isUnit := isIndentUnit_of_analyze analyzed
  refine ⟨⟨forest', table⟩, (Program.lines ⟨statements, roots⟩ config.blockStyle).map
    (CodeLine.row config.indentationUnit), analyzed, ?_, fun row mem => ?_⟩
  · rw [List.flatMap_map]
    rfl
  obtain ⟨line, inLines, rfl⟩ := List.mem_map.mp mem
  have blank := Text.blank_indentation isUnit line.depth
  -- A row is a closing brace, which takes no member, or has a statement of some node on it.
  rcases Buffer.mem_layout inLines with none | closes | ⟨statement, inStatements, onLine⟩
  · cases none
  · have brace : line.text = ['}'] := Statement.closing_eq closes
    have oneRow : '\n' ∉ line.text := by
      rw [brace]
      decide
    refine ⟨CodeLine.row_oneRow isUnit oneRow, .inr (.inr fun before name after takes => ?_)⟩
    obtain ⟨quiet, last⟩ := Text.quiet_of_blank blank
    obtain ⟨back, _, inside⟩ := takes.exists_back quiet last
    have dot : '.' ∈ line.text := by simp [inside.split]
    rw [brace] at dot
    exact absurd dot (by decide)
  · obtain ⟨node, inForest, writes⟩ := written statement inStatements
    refine ⟨CodeLine.row_oneRow isUnit (onLine.oneRow (sound statement inStatements).oneRow), ?_⟩
    refine (writes.row_cases inForest onLine blank language bound).imp_right (.imp_right ?_)
    intro tells before name after takes noKeyword
    rcases tells before name after takes with (keyword | known) | overlooked
    · exact absurd keyword noKeyword
    · exact known.imp_right .inl
    · exact .inr (.inr overlooked)

/-- Where no quote stands before it, a name that is a word of its own takes the member behind its
dot. -/
theorem Text.takesMember_of_noQuote {s before name after : Text}
    (split : s = before ++ (name ++ '.' :: after)) (quiet : before.any isQuote = false)
    (identifier : isIdentifier name = true) (alone : before.getLast?.any isWordChar = false)
    (undotted : endsInDot before = false) (member : after.head?.any isWordStart = true) :
    TakesMember s before name after := by
  refine ⟨split, ⟨_, parted_of_noQuote (fun c mem => ?_) _⟩, identifier, alone, undotted, member⟩
  simpa using List.any_eq_false.mp quiet c mem

/-- An import, a comment, a row with a name that is imported and one that is not, and a name in a
condition. -/
theorem diagnose_reported_mixed :
    let config : Config := { keepComments := true, blockStyle := .brace }
    let source := ("packages:\n  - math\n# see m.x\nx: math.pi + os.name\n" ++
      "if a.b == '.c':\n  print: x\n").toList
    let code := ("import math\n# see m.x\nx = math.pi + os.name\n" ++
      "if a.b == '.c' \x7b\n  print(x)\n\x7d\n").toList
    ∃ compiled, diagnose config none source = .ok compiled ∧ compiled.code = code ∧
      compiled.warnings.subjects = ["os".toList, "a".toList] ∧
      Text.TakesMember "x = math.pi + os.name".toList "x = math.pi + ".toList "os".toList
        "name".toList ∧
      ∃ (analysis : Analysis) (rows : List Text), analyze config source = .ok analysis ∧
        compiled.code = rows.flatMap (· ++ ['\n']) ∧
        ∀ row ∈ rows, '\n' ∉ row ∧ (Text.isCommentRow row = true ∨ analysis.forest.Imports row ∨
          ∀ before name after, Text.TakesMember row before name after →
            name ∉ Expression.keywords →
              analysis.symbols.isKnown name = true ∨ compiled.warnings.Reports name ∨
                analysis.forest.Overlooks config.blockStyle row before name after) := by
  intro config source code
  have found : (diagnose config none source).toOption.map
      (fun compiled => (compiled.code, compiled.warnings.subjects)) =
        some (code, ["os".toList, "a".toList]) := by decide +kernel
  obtain ⟨compiled, made, same⟩ := Option.map_eq_some_iff.mp found
  obtain ⟨written, subjects⟩ := Prod.mk.inj same
  have ok := eq_ok_of_toOption made
  refine ⟨compiled, ok, written, subjects, ?_, diagnose_reported ok⟩
  exact Text.takesMember_of_noQuote (by decide) (by decide) (by decide) (by decide)
    (by decide) (by decide)

/-- A name in the subscript of a place is neither known nor reported. -/
theorem diagnose_overlooked :
    (diagnose {} none "a[m.x]: 1\n".toList).toOption =
        some ⟨"a[m.x] = 1\n".toList, []⟩ ∧
      Text.TakesMember "a[m.x] = 1".toList "a[".toList "m".toList "x] = 1".toList ∧
      "m".toList ∉ Expression.keywords ∧
      (analyze {} "a[m.x]: 1\n".toList).toOption.map (·.symbols.isKnown "m".toList) =
        some false := by
  have subscript := Text.takesMember_of_noQuote
    (by decide : "a[m.x] = 1".toList = "a[".toList ++ ("m".toList ++ '.' :: "x] = 1".toList))
    (by decide) (by decide) (by decide) (by decide) (by decide)
  exact ⟨by decide +kernel, subscript, by decide, by decide +kernel⟩

end Outline
