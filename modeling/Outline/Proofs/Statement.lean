import Outline.Proofs.Data
import Outline.Proofs.Expression
import Outline.Proofs.Settled

/-!
# What analysis promises of a statement

`Program.Emission` says what a node contributes to a program, one rule for each role. From settled
nodes it makes sound statements: on one row, and either a comment or a text that starts as a name
does and does not end with an opening brace (`Statement.Sound`).
-/

set_option autoImplicit false

namespace Outline

/-- The key and the value of a node are on one row. -/
def Node.OneRow (node : Node) : Prop := '\n' ∉ node.keyText ∧ '\n' ∉ node.valueText

theorem Settled.nodeOneRow [Letters] {node : Node} {children : Forest Node}
    (settled : Settled node children) : node.OneRow :=
  ⟨settled.oneRow _ List.mem_cons_self,
    settled.oneRow _ (List.mem_cons_of_mem _ List.mem_cons_self)⟩

namespace Program

/-! ## Data on one row -/

/-- The translation of a value on one row is on one row. -/
theorem ofText_oneRow [Letters] {raw : Text} {e : Expression} (oneRow : '\n' ∉ raw)
    (read : Expression.ofText raw = .ok e) : '\n' ∉ e.text := by
  have chars : ∀ c ∈ raw, c ≠ '\n' := by
    rintro c mem rfl
    exact oneRow mem
  intro feed
  have own : ∀ c ∈ Expression.respelling, c ≠ '\n' := by
    rintro c mem rfl
    exact absurd mem (by decide)
  exact Expression.ofText_chars own chars read '\n' feed rfl

/-- The translation of a value does not end with an opening brace, which would be unclosed. -/
theorem getLast?_value [Letters] {line : Nat} {raw text : Text} {roots : List MemberRoot}
    (ok : value line raw = .ok (text, roots)) : text.getLast? ≠ some '{' := by
  obtain ⟨e, read, rfl⟩ := value_eq_ok ok
  exact Expression.getLast?_ofText read

/-- Texts on one row stay on one row when they are joined by commas. -/
theorem commas_oneRow {texts : List Text} (oneRow : ∀ text ∈ texts, '\n' ∉ text) :
    '\n' ∉ commas texts := by
  intro feed
  rcases Text.mem_intercalate feed with between | ⟨text, mem, inText⟩
  · exact absurd between (by decide)
  · exact oneRow text mem inText

theorem mapping_oneRow {pairs : List Text} (oneRow : ∀ text ∈ pairs, '\n' ∉ text) :
    '\n' ∉ mapping pairs := by
  simp [mapping, commas_oneRow oneRow]

theorem listing_oneRow {items : List Text} (oneRow : ∀ text ∈ items, '\n' ∉ text) :
    '\n' ∉ listing items := by
  simp [listing, commas_oneRow oneRow]

theorem pair_oneRow {key value : Text} (inKey : '\n' ∉ key) (inValue : '\n' ∉ value) :
    '\n' ∉ pair key value := by
  simp [pair, inKey, inValue]

/-- Data are on one row if the keys and values they are made of are. -/
theorem composes_oneRow [Letters] : Composes ('\n' ∉ ·) ('\n' ∉ ·) where
  value oneRow read := ofText_oneRow oneRow read
  name oneRow _ := by simp [oneRow]
  argument inKey _ inValue := by simp [inKey, inValue]
  item := by decide
  pair := pair_oneRow
  commas := commas_oneRow
  mapping := mapping_oneRow
  listing := listing_oneRow

/-! ## What a node contributes -/

/-- What a node contributes to a program, by its role. -/
inductive Emission [Letters] (node : Node) (children : Forest Node) : Output → Prop
  | comment (role : node.role = .comment) :
      Emission node children (.line ("# ".toList ++ node.valueText))
  | flow (role : node.role = .flow) : Emission node children (.line node.valueText)
  | assignment (aggregate : Aggregate) (text : Text) (roots : List MemberRoot)
      (role : node.role = .assignment aggregate)
      (held : nodeValue aggregate node children = .ok (text, roots)) :
      Emission node children (.line (node.keyText ++ " = ".toList ++ text))
  | argCall (aggregate : Aggregate) (arguments : Text) (roots : List MemberRoot)
      (role : node.role = .argCall aggregate)
      (given : callArguments aggregate node children = .ok (arguments, roots)) :
      Emission node children (.line (call node.keyText arguments))
  | bareCall (callee : Text) (role : node.role = .bareCall callee) :
      Emission node children (.line (call callee []))
  | print (text : Text) (roots : List MemberRoot) (role : node.role = .print)
      (shown : printed node = .ok (text, roots)) :
      Emission node children (.line (call "print".toList text))
  | returnPair (raw text : Text) (roots : List MemberRoot) (role : node.role = .returnValue)
      (hasValue : node.value = some raw) (read : value node.line raw = .ok (text, roots)) :
      Emission node children (.line ("return ".toList ++ text))
  | returnBare (role : node.role = .returnValue) : Emission node children (.line "return".toList)
  | ifThen (condition text : Text) (roots : List MemberRoot)
      (role : node.role = .ifHeader condition)
      (read : value node.line condition = .ok (text, roots)) :
      Emission node children (.block ("if".toList ++ ' ' :: text) .header)
  | elifThen (condition text : Text) (roots : List MemberRoot)
      (role : node.role = .elifHeader condition)
      (read : value node.line condition = .ok (text, roots)) :
      Emission node children (.block ("elif".toList ++ ' ' :: text) .continuation)
  | otherwise (role : node.role = .elseHeader) :
      Emission node children (.block "else".toList .continuation)
  | whileLoop (condition text : Text) (roots : List MemberRoot)
      (role : node.role = .whileHeader condition)
      (read : value node.line condition = .ok (text, roots)) :
      Emission node children (.block ("while".toList ++ ' ' :: text) .header)
  | forLoop (targets : List Text) (iterable text : Text) (roots : List MemberRoot)
      (role : node.role = .forHeader targets iterable)
      (read : iterated node.line targets iterable = .ok (text, roots)) :
      Emission node children (.block (forHeader targets text) .header)
  | rangeLoop (targets : List Text) (range text : Text) (roots : List MemberRoot)
      (role : node.role = .rangeForHeader targets range)
      (read : value node.line range = .ok (text, roots)) :
      Emission node children (.block (forHeader targets text) .header)
  | function (name : Text) (param : Option Text) (role : node.role = .functionDef name param) :
      Emission node children (.block ("def ".toList ++ call name (param.getD [])) .header)
  | importList (role : node.role = .importList) : Emission node children .children
  | importEntry (path : ImportPath) (role : node.role = .importEntry path) :
      Emission node children (.line (importStatement path))

theorem conditionHeader_eq_ok [Letters] {word : String} {form : StatementForm} {line : Nat}
    {condition : Text} {out : Output} {roots : List MemberRoot}
    (ok : conditionHeader word form line condition = .ok (out, roots)) :
    ∃ text, value line condition = .ok (text, roots) ∧
      out = .block (word.toList ++ ' ' :: text) form := by
  obtain ⟨⟨text, found⟩, read, ok⟩ := bind_eq_ok.mp ok
  obtain ⟨rfl, rfl⟩ := Prod.mk.inj (Except.ok.inj ok)
  exact ⟨text, read, rfl⟩

/-- What a node writes is what its role says. -/
theorem emission_of_output [Letters] {node : Node} {children : Forest Node} {out : Output}
    {roots : List MemberRoot} (ok : output node children = .ok (out, roots)) :
    Emission node children out := by
  rw [output] at ok
  split at ok
  next role =>
    obtain ⟨rfl, rfl⟩ := Prod.mk.inj (Except.ok.inj ok)
    exact .comment role
  next role =>
    obtain ⟨rfl, rfl⟩ := Prod.mk.inj (Except.ok.inj ok)
    exact .flow role
  next aggregate role =>
    obtain ⟨⟨text, found⟩, held, ok⟩ := bind_eq_ok.mp ok
    obtain ⟨rfl, rfl⟩ := Prod.mk.inj (Except.ok.inj ok)
    exact .assignment aggregate text found role held
  next aggregate role =>
    obtain ⟨⟨arguments, found⟩, given, ok⟩ := bind_eq_ok.mp ok
    obtain ⟨rfl, rfl⟩ := Prod.mk.inj (Except.ok.inj ok)
    exact .argCall aggregate arguments found role given
  next callee role =>
    obtain ⟨rfl, rfl⟩ := Prod.mk.inj (Except.ok.inj ok)
    exact .bareCall callee role
  next role =>
    obtain ⟨⟨text, found⟩, shown, ok⟩ := bind_eq_ok.mp ok
    obtain ⟨rfl, rfl⟩ := Prod.mk.inj (Except.ok.inj ok)
    exact .print text found role shown
  next role =>
    split at ok
    next raw _ hasValue =>
      obtain ⟨⟨text, found⟩, read, ok⟩ := bind_eq_ok.mp ok
      obtain ⟨rfl, rfl⟩ := Prod.mk.inj (Except.ok.inj ok)
      exact .returnPair raw text found role hasValue read
    next =>
      obtain ⟨rfl, rfl⟩ := Prod.mk.inj (Except.ok.inj ok)
      exact .returnBare role
  next condition role =>
    obtain ⟨text, read, rfl⟩ := conditionHeader_eq_ok ok
    exact .ifThen condition text roots role read
  next condition role =>
    obtain ⟨text, read, rfl⟩ := conditionHeader_eq_ok ok
    exact .elifThen condition text roots role read
  next role =>
    obtain ⟨rfl, rfl⟩ := Prod.mk.inj (Except.ok.inj ok)
    exact .otherwise role
  next condition role =>
    obtain ⟨text, read, rfl⟩ := conditionHeader_eq_ok ok
    exact .whileLoop condition text roots role read
  next targets iterable role =>
    obtain ⟨⟨text, found⟩, read, ok⟩ := bind_eq_ok.mp ok
    obtain ⟨rfl, rfl⟩ := Prod.mk.inj (Except.ok.inj ok)
    exact .forLoop targets iterable text found role read
  next targets range role =>
    obtain ⟨⟨text, found⟩, read, ok⟩ := bind_eq_ok.mp ok
    obtain ⟨rfl, rfl⟩ := Prod.mk.inj (Except.ok.inj ok)
    exact .rangeLoop targets range text found role read
  next name param role =>
    obtain ⟨rfl, rfl⟩ := Prod.mk.inj (Except.ok.inj ok)
    exact .function name param role
  next role =>
    obtain ⟨rfl, rfl⟩ := Prod.mk.inj (Except.ok.inj ok)
    exact .importList role
  next path role =>
    obtain ⟨rfl, rfl⟩ := Prod.mk.inj (Except.ok.inj ok)
    exact .importEntry path role
  next => cases ok
  next => cases ok
  next => cases ok

end Program

/-! ## Sound statements -/

open Grammar

/-- A text on one row that starts a comment, or that starts as a name does and, on a line of its
own, does not end with an opening brace. -/
structure Statement.Sound [Letters] (statement : Statement) : Prop where
  oneRow : '\n' ∉ statement.text
  kind : (statement.form = .plain ∧ statement.text.head? = some '#') ∨
    (StartsName statement.text ∧
      (statement.form = .plain → statement.text.getLast? ≠ some '{'))

namespace Program

/-- An output that makes sound statements. -/
def Output.Sound [Letters] : Output → Prop
  | .line text => Statement.Sound ⟨text, .plain⟩
  | .block header form => form ≠ .plain ∧ Statement.Sound ⟨header, form⟩
  | .children => True

/-- A line that starts as a name does and does not end with an opening brace is sound. -/
theorem sound_line [Letters] {text : Text} (oneRow : '\n' ∉ text) (start : StartsName text)
    (last : text.getLast? ≠ some '{') : (Output.line text).Sound :=
  ⟨oneRow, .inr ⟨start, fun _ => last⟩⟩

/-- The header of a block is sound if it starts as a name does. -/
theorem sound_block [Letters] {header : Text} {form : StatementForm} (opens : form ≠ .plain)
    (oneRow : '\n' ∉ header) (start : StartsName header) : (Output.block header form).Sound :=
  ⟨opens, oneRow, .inr ⟨start, fun plain => absurd plain opens⟩⟩

theorem call_oneRow {callee arguments : Text} (inCallee : '\n' ∉ callee)
    (inArguments : '\n' ∉ arguments) : '\n' ∉ call callee arguments := by
  simp [call, inCallee, inArguments]

theorem getLast?_call (callee arguments : Text) : (call callee arguments).getLast? ≠ some '{' := by
  rw [call, List.getLast?_concat]
  decide

theorem startsName_call [Letters] {callee : Text} (start : StartsName callee) (arguments : Text) :
    StartsName (call callee arguments) := by
  rw [call, List.append_assoc]
  exact start.append _

theorem getLast?_append_of_ne {front text : Text} (front' : front.getLast? ≠ some '{')
    (text' : text.getLast? ≠ some '{') : (front ++ text).getLast? ≠ some '{' := by
  rw [List.getLast?_append]
  cases last : text.getLast? with
  | none => exact front'
  | some c => rwa [last] at text'

/-- What a node holds does not end with an opening brace. -/
theorem getLast?_nodeValue [Letters] {aggregate : Aggregate} {node : Node} {children : Forest Node}
    {text : Text} {roots : List MemberRoot}
    (ok : nodeValue aggregate node children = .ok (text, roots)) : text.getLast? ≠ some '{' := by
  cases aggregate with
  | scalar => exact getLast?_value ok
  | dict =>
    obtain ⟨⟨pairs, found⟩, _, ok⟩ := bind_eq_ok.mp ok
    obtain ⟨rfl, rfl⟩ := Prod.mk.inj (Except.ok.inj ok)
    rw [mapping, List.getLast?_concat]
    decide
  | list =>
    obtain ⟨⟨items, found⟩, _, ok⟩ := bind_eq_ok.mp ok
    obtain ⟨rfl, rfl⟩ := Prod.mk.inj (Except.ok.inj ok)
    rw [listing, List.getLast?_concat]
    decide

/-- A printed value is on one row, also where it is quoted. -/
theorem printed_oneRow [Letters] {node : Node} {text : Text} {roots : List MemberRoot}
    (own : node.OneRow) (ok : printed node = .ok (text, roots)) : '\n' ∉ text := by
  rw [printed] at ok
  split at ok
  next =>
    obtain ⟨rfl, rfl⟩ := Prod.mk.inj (Except.ok.inj ok)
    exact List.not_mem_nil
  next raw hasValue =>
    rw [Node.OneRow, Node.valueText, hasValue] at own
    have inRaw : '\n' ∉ raw := own.2
    refine composes_oneRow.ofValue ?_ ok
    split
    · intro feed
      rw [Expression.quoteTemplate] at feed
      rcases List.mem_append.mp feed with front | quote
      · rcases List.mem_cons.mp front with quote | inside
        · exact absurd quote (by decide)
        · obtain ⟨c, mem, escaped⟩ := List.mem_flatMap.mp inside
          split at escaped
          · simp only [List.mem_cons, List.not_mem_nil, or_false] at escaped
            rcases escaped with slash | rfl
            · exact absurd slash (by decide)
            · exact inRaw mem
          · obtain rfl := List.mem_singleton.mp escaped
            exact inRaw mem
      · exact absurd quote (by decide)
    · exact inRaw

theorem iterated_oneRow [Letters] {line : Nat} {targets : List Text} {iterable text : Text}
    {roots : List MemberRoot} (inRaw : '\n' ∉ iterable)
    (ok : iterated line targets iterable = .ok (text, roots)) : '\n' ∉ text := by
  obtain ⟨⟨value, found⟩, read, ok⟩ := bind_eq_ok.mp ok
  have inValue := composes_oneRow.ofValue inRaw read
  change (if _ then _ else _) = _ at ok
  split at ok
  · obtain ⟨rfl, rfl⟩ := Prod.mk.inj (Except.ok.inj ok)
    simp [inValue]
  · obtain ⟨rfl, rfl⟩ := Prod.mk.inj (Except.ok.inj ok)
    exact inValue

/-- The header of a loop is on one row if its targets and what it goes over are. -/
theorem forHeader_oneRow {targets : List Text} {iterated : Text}
    (inTargets : ∀ target ∈ targets, '\n' ∉ target) (inIterated : '\n' ∉ iterated) :
    '\n' ∉ forHeader targets iterated := by
  show '\n' ∉ "for ".toList ++ commas targets ++ " in ".toList ++ iterated
  simp [commas_oneRow inTargets, inIterated]

theorem startsName_forHeader [Letters] (targets : List Text) (iterated : Text) :
    StartsName (forHeader targets iterated) :=
  ⟨'f', _, rfl, isNameStart_of_isWordStart (by decide)⟩

/-- An import holds a character only if one of its texts or words does. -/
theorem mem_importStatement {path : ImportPath} {c : Char} (mem : c ∈ importStatement path) :
    c ∈ "from import as ".toList ∨ ∃ part ∈ path.texts, c ∈ part := by
  have inFrom : "from ".toList ⊆ "from import as ".toList := Text.subset_of_all (by decide)
  have inMiddle : " import ".toList ⊆ "from import as ".toList := Text.subset_of_all (by decide)
  have inImport : "import ".toList ⊆ "from import as ".toList := Text.subset_of_all (by decide)
  have inAs : " as ".toList ⊆ "from import as ".toList := Text.subset_of_all (by decide)
  cases path with
  | mk source member nickname =>
    have inSource : source ∈ ImportPath.texts ⟨source, member, nickname⟩ := List.mem_cons_self
    have renamed {name : Text} (given : nickname = some name)
        (inSuffix : c ∈ " as ".toList ++ name) :
        c ∈ "from import as ".toList ∨
          ∃ part ∈ ImportPath.texts ⟨source, member, nickname⟩, c ∈ part := by
      rcases List.mem_append.mp inSuffix with inWord | inName
      · exact .inl (inAs inWord)
      · exact .inr ⟨name, by simp [ImportPath.texts, given], inName⟩
    cases member with
    | none =>
      rcases List.mem_append.mp mem with front | back
      · rcases List.mem_append.mp front with inWord | inPath
        · exact .inl (inImport inWord)
        · exact .inr ⟨source, inSource, inPath⟩
      · cases nickname with
        | none => cases back
        | some name => exact renamed rfl back
    | some member =>
      rcases List.mem_append.mp mem with front | back
      · rcases List.mem_append.mp front with front | inMember
        · rcases List.mem_append.mp front with front | inWord
          · rcases List.mem_append.mp front with inWord | inPath
            · exact .inl (inFrom inWord)
            · exact .inr ⟨source, inSource, inPath⟩
          · exact .inl (inMiddle inWord)
        · exact .inr ⟨member, by simp [ImportPath.texts], inMember⟩
      · cases nickname with
        | none => cases back
        | some name => exact renamed rfl back

/-- An import statement starts with a keyword, and so as a name does. -/
theorem startsName_importStatement [Letters] (path : ImportPath) :
    StartsName (importStatement path) := by
  rw [importStatement]
  split
  · exact ⟨'f', _, rfl, isNameStart_of_isWordStart (by decide)⟩
  · exact ⟨'i', _, rfl, isNameStart_of_isWordStart (by decide)⟩

/-- The text that an output puts into a statement of its own. -/
def Output.text? : Output → Option Text
  | .line text => some text
  | .block header _ => some header
  | .children => none

/-- What a settled node other than a comment contributes starts as a name does. -/
theorem Emission.startsName [Letters] {node : Node} {children : Forest Node} {out : Output}
    {text : Text} (emission : Emission node children out) (settled : Settled node children)
    (code : node.role ≠ .comment) (own : out.text? = some text) : StartsName text := by
  have lead (first : Text) (leads : node.lead? = some first) : StartsName first :=
    settled.lead first leads
  rw [Node.lead?] at lead
  cases emission with
  | comment role => exact absurd role code
  | flow role =>
    obtain rfl := Option.some.inj own
    rw [role] at lead
    exact lead _ rfl
  | assignment aggregate text roots role held =>
    obtain rfl := Option.some.inj own
    rw [role] at lead
    rw [List.append_assoc]
    exact (lead _ rfl).append _
  | argCall aggregate arguments roots role given =>
    obtain rfl := Option.some.inj own
    rw [role] at lead
    exact startsName_call (lead _ rfl) _
  | bareCall callee role =>
    obtain rfl := Option.some.inj own
    rw [role] at lead
    exact startsName_call (lead _ rfl) _
  | forLoop | rangeLoop =>
    obtain rfl := Option.some.inj own
    exact startsName_forHeader _ _
  | importList role => cases own
  | importEntry path role =>
    obtain rfl := Option.some.inj own
    exact startsName_importStatement path
  | print | returnPair | returnBare | ifThen | elifThen | otherwise | whileLoop | function =>
    -- The statement starts with a word of its own.
    obtain rfl := Option.some.inj own
    exact ⟨_, _, rfl, isNameStart_of_isWordStart (by decide)⟩

/-- A settled node contributes sound statements. -/
theorem Emission.sound [Letters] {node : Node} {children : Forest Node} {out : Output}
    (emission : Emission node children out) (settled : Settled node children)
    (below : ∀ node ∈ children.preorder, node.OneRow) : out.Sound := by
  have own := settled.nodeOneRow
  have inRole (text : Text) (mem : text ∈ node.role.texts) : '\n' ∉ text :=
    settled.oneRow text (List.mem_cons_of_mem _ (List.mem_cons_of_mem _ mem))
  have start {text : Text} : node.role ≠ .comment → out.text? = some text → StartsName text :=
    emission.startsName settled
  cases emission with
  | comment role => exact ⟨by simp [own.2], .inl ⟨rfl, rfl⟩⟩
  | flow role =>
    have noBrace : ∀ word ∈ Classify.flowWords, word.getLast? ≠ some '{' := by decide
    exact sound_line own.2 (start (by simp [role]) rfl) (noBrace _ (settled.word role))
  | assignment aggregate text roots role held =>
    have inText := composes_oneRow.ofNodeValue own below held
    refine sound_line (by simp [own.1, inText]) (start (by simp [role]) rfl)
      (getLast?_append_of_ne ?_ (getLast?_nodeValue held))
    rw [List.getLast?_append]
    show some ' ' ≠ some '{'
    decide
  | argCall aggregate arguments roots role given =>
    exact sound_line (call_oneRow own.1 (composes_oneRow.ofCallArguments own below given))
      (start (by simp [role]) rfl) (getLast?_call _ _)
  | bareCall callee role =>
    refine sound_line (call_oneRow (inRole callee ?_) List.not_mem_nil)
      (start (by simp [role]) rfl) (getLast?_call _ _)
    rw [role]
    exact List.mem_cons_self
  | print text roots role shown =>
    exact sound_line (call_oneRow (by decide) (printed_oneRow own shown))
      (start (by simp [role]) rfl) (getLast?_call _ _)
  | returnPair raw text roots role hasValue read =>
    have inRaw : '\n' ∉ raw := by
      have := own.2
      rwa [Node.valueText, hasValue] at this
    refine sound_line ?_ (start (by simp [role]) rfl)
      (getLast?_append_of_ne (by decide) (getLast?_value read))
    simp [composes_oneRow.ofValue inRaw read]
  | returnBare role => exact sound_line (by decide) (start (by simp [role]) rfl) (by decide)
  | ifThen condition text roots role read
  | elifThen condition text roots role read
  | whileLoop condition text roots role read =>
    have inCondition := inRole condition (by rw [role]; exact List.mem_cons_self)
    have inText := composes_oneRow.ofValue inCondition read
    exact sound_block (by decide) (by simp [inText]) (start (by simp [role]) rfl)
  | otherwise role => exact sound_block (by decide) (by decide) (start (by simp [role]) rfl)
  | forLoop targets iterable text roots role read =>
    have start := start (by simp [role]) rfl
    rw [role] at inRole
    have inText := iterated_oneRow (inRole iterable List.mem_cons_self) read
    exact sound_block (by decide)
      (forHeader_oneRow (fun target mem => inRole target (List.mem_cons_of_mem _ mem)) inText) start
  | rangeLoop targets range text roots role read =>
    have start := start (by simp [role]) rfl
    rw [role] at inRole
    have inText := composes_oneRow.ofValue (inRole range List.mem_cons_self) read
    exact sound_block (by decide)
      (forHeader_oneRow (fun target mem => inRole target (List.mem_cons_of_mem _ mem)) inText) start
  | function name param role =>
    have start := start (by simp [role]) rfl
    rw [role] at inRole
    have inParam : '\n' ∉ param.getD [] := by
      cases param with
      | none => exact List.not_mem_nil
      | some text => exact inRole text (List.mem_cons_of_mem _ List.mem_cons_self)
    have inCall := call_oneRow (inRole name List.mem_cons_self) inParam
    exact sound_block (by decide) (by simp [inCall]) start
  | importList role => trivial
  | importEntry path role =>
    have start := start (by simp [role]) rfl
    rw [role] at inRole
    refine sound_line ?_ start ?_
    · intro feed
      rcases mem_importStatement feed with inWords | ⟨part, mem, inPart⟩
      · exact absurd inWords (by decide)
      · exact inRole part mem inPart
    · intro last
      rcases mem_importStatement (List.mem_of_getLast? last) with inWords | ⟨part, mem, inPart⟩
      · exact absurd inWords (by decide)
      · exact Token.brace_not_mem (settled.path path role part mem) inPart

/-! ## Sound programs -/

/-- The three ways in which a tree of nodes becomes statements before those of the trees after
it. -/
theorem statementsOf_cons [Letters] {node : Node} {children rest : Forest Node}
    {statements : Forest Statement} {roots : List MemberRoot}
    (ok : statementsOf (.cons node children rest) = .ok (statements, roots)) :
    ∃ out own after later, output node children = .ok (out, own) ∧
      statementsOf rest = .ok (after, later) ∧
      ((∃ text, out = .line text ∧ statements = .cons ⟨text, .plain⟩ .nil after) ∨
        (∃ header form body inner, out = .block header form ∧
          statementsOf children = .ok (body, inner) ∧
          statements = .cons ⟨header, form⟩ body after) ∨
        ∃ body inner, out = .children ∧ statementsOf children = .ok (body, inner) ∧
          statements = body.append after) := by
  rw [statementsOf] at ok
  obtain ⟨⟨out, own⟩, made, ok⟩ := bind_eq_ok.mp ok
  cases out with
  | line text =>
    obtain ⟨⟨after, later⟩, more, ok⟩ := bind_eq_ok.mp ok
    obtain ⟨rfl, rfl⟩ := Prod.mk.inj (Except.ok.inj ok)
    exact ⟨.line text, own, after, later, made, more, .inl ⟨text, rfl, rfl⟩⟩
  | block header form =>
    obtain ⟨⟨body, inner⟩, below, ok⟩ := bind_eq_ok.mp ok
    obtain ⟨⟨after, later⟩, more, ok⟩ := bind_eq_ok.mp ok
    obtain ⟨rfl, rfl⟩ := Prod.mk.inj (Except.ok.inj ok)
    exact ⟨.block header form, own, after, later, made, more,
      .inr (.inl ⟨header, form, body, inner, rfl, below, rfl⟩)⟩
  | children =>
    obtain ⟨⟨body, inner⟩, below, ok⟩ := bind_eq_ok.mp ok
    obtain ⟨⟨after, later⟩, more, ok⟩ := bind_eq_ok.mp ok
    obtain ⟨rfl, rfl⟩ := Prod.mk.inj (Except.ok.inj ok)
    exact ⟨.children, own, after, later, made, more, .inr (.inr ⟨body, inner, rfl, below, rfl⟩)⟩

/-- What a node of an analyzed forest contributes is sound. -/
theorem sound_output [Letters] {node : Node} {children : Forest Node} {out : Output}
    {roots : List MemberRoot} (settled : Settled node children) (below : children.Every Settled)
    (ok : output node children = .ok (out, roots)) : out.Sound := by
  refine (emission_of_output ok).sound settled ?_
  exact (below.imp fun _ _ inner => inner.nodeOneRow).of_mem_preorder

/-- The labels of two forests side by side are those of the first and then those of the second. -/
theorem preorder_append {α : Type} (left right : Forest α) :
    (left.append right).preorder = left.preorder ++ right.preorder := by
  induction left with
  | nil => rfl
  | cons label children rest _ ih => simp [Forest.append, Forest.preorder, ih]

/-- Every statement of an analyzed forest is sound. -/
theorem sound_statementsOf [Letters] {forest : Forest Node} {statements : Forest Statement}
    {roots : List MemberRoot} (settled : forest.Every Settled)
    (ok : statementsOf forest = .ok (statements, roots)) :
    ∀ statement ∈ statements.preorder, statement.Sound := by
  induction forest generalizing statements roots with
  | nil =>
    obtain ⟨rfl, rfl⟩ := Prod.mk.inj (Except.ok.inj ok)
    intro statement mem
    cases mem
  | cons node children rest ihChildren ihRest =>
    obtain ⟨out, own, after, later, made, more, ways⟩ := statementsOf_cons ok
    have sound := sound_output settled.1 settled.2.1 made
    have inAfter := ihRest settled.2.2 more
    intro statement mem
    rcases ways with ⟨text, rfl, rfl⟩ | ⟨header, form, body, inner, rfl, below, rfl⟩ |
      ⟨body, inner, rfl, below, rfl⟩
    · rcases List.mem_cons.mp mem with rfl | mem
      · exact sound
      · exact inAfter statement mem
    · rcases List.mem_cons.mp mem with rfl | mem
      · exact sound.2
      · rcases List.mem_append.mp mem with inBody | mem
        · exact ihChildren settled.2.1 below statement inBody
        · exact inAfter statement mem
    · rw [preorder_append] at mem
      rcases List.mem_append.mp mem with inBody | mem
      · exact ihChildren settled.2.1 below statement inBody
      · exact inAfter statement mem

end Program
end Outline
