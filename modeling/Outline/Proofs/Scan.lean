import Outline.Line.Scan
import Outline.Proofs.Outcome
import Outline.Proofs.Text

/-!
# What scanning promises of a line

Every scanned line holds a trimmed text on one row, made of characters of the source. The text of a
line of code is not empty, does not start with the comment mark, and holds no comment any more:
dropping comments from it again changes nothing (`Line.Clean`).
-/

set_option autoImplicit false

namespace Outline

namespace Text

/-- An indentation unit repeats one of two blanks. -/
theorem isIndentUnit_iff {unit : Text} :
    isIndentUnit unit = true ↔
      ∃ c width, (c = ' ' ∨ c = '\t') ∧ 0 < width ∧ unit = List.replicate width c := by
  rw [isIndentUnit, Bool.and_eq_true, Bool.or_eq_true, List.all_eq_true, List.all_eq_true,
    Bool.not_eq_true', List.isEmpty_eq_false_iff]
  constructor
  · rintro ⟨filled, spaces | tabs⟩
    · exact ⟨' ', unit.length, .inl rfl, List.length_pos_iff.mpr filled,
        List.eq_replicate_iff.mpr ⟨rfl, fun c mem => eq_of_beq (spaces c mem)⟩⟩
    · exact ⟨'\t', unit.length, .inr rfl, List.length_pos_iff.mpr filled,
        List.eq_replicate_iff.mpr ⟨rfl, fun c mem => eq_of_beq (tabs c mem)⟩⟩
  · rintro ⟨c, width, kind, wide, rfl⟩
    refine ⟨fun empty => Nat.ne_of_gt wide ((List.replicate_eq_nil_iff c).mp empty), ?_⟩
    refine kind.imp ?_ ?_
    · rintro rfl c mem
      exact beq_iff_eq.mpr (List.eq_of_mem_replicate mem)
    · rintro rfl c mem
      exact beq_iff_eq.mpr (List.eq_of_mem_replicate mem)

/-! ## Dropping comments -/

/-- What is left is the front of the text. -/
theorem dropCommentFrom_prefix (quoting : Quoting) (s : Text) :
    dropCommentFrom quoting s <+: s := by
  induction s generalizing quoting with
  | nil => exact List.prefix_refl _
  | cons c rest ih =>
    rw [dropCommentFrom]
    split
    · exact List.nil_prefix
    · exact List.cons_prefix_cons.mpr ⟨rfl, ih _⟩

/-- What is left holds no comment. -/
theorem dropCommentFrom_idem (quoting : Quoting) (s : Text) :
    dropCommentFrom quoting (dropCommentFrom quoting s) = dropCommentFrom quoting s := by
  induction s generalizing quoting with
  | nil => rfl
  | cons c rest ih =>
    rw [dropCommentFrom]
    split
    · rfl
    next kept => rw [dropCommentFrom, if_neg kept, ih]

/-- A text in two parts holds no comment when neither part does, the second read from where the
first leaves the scan. -/
theorem dropCommentFrom_append_eq_self {quoting : Quoting} {front back : Text} :
    dropCommentFrom quoting (front ++ back) = front ++ back ↔
      dropCommentFrom quoting front = front ∧
        dropCommentFrom (front.foldl Quoting.step quoting) back = back := by
  induction front generalizing quoting with
  | nil => simp [dropCommentFrom]
  | cons c rest ih =>
    rw [List.cons_append, dropCommentFrom, dropCommentFrom]
    split
    · simp
    · rw [List.cons.injEq, List.cons.injEq, ih, List.foldl_cons]
      simp

end Text

theorem Config.isIndentUnit_of_given {config : Config} {unit : Text}
    (given : config.sourceIndentationUnit = some unit) (valid : config.validate = .ok ()) :
    Text.isIndentUnit unit = true := by
  obtain ⟨_, _, checked⟩ := bind_eq_ok.mp valid
  rw [given] at checked
  change checkUnit "sourceIndentationUnit" unit = .ok () at checked
  rw [checkUnit] at checked
  split at checked
  next isUnit => exact isUnit
  next => cases checked

namespace Line

/-! ## Lines and their rows -/

/-- What scanning promises of a line. -/
structure Clean (line : Line) : Prop where
  /-- The text neither starts nor ends with a blank. -/
  trimmed : Text.Trimmed line.content
  /-- The text is on one row. -/
  oneRow : '\n' ∉ line.content
  /-- The text of code is not empty. -/
  nonempty : line.kind = .code → line.content ≠ []
  /-- The text of code does not start as a comment does. -/
  unmarked : line.kind = .code → line.content.head? ≠ some commentMark
  /-- The text of code holds no comment. -/
  commentFree : line.kind = .code → Text.dropComment line.content = line.content

/-- A row makes a line only if it is a comment to be kept, or code whose depth can be told. -/
theorem mem_ofRow {keep : Bool} {unit : Option Text} {row : Row} {made : List Line} {line : Line}
    (ok : ofRow keep unit row = .ok made) (mem : line ∈ made) :
    (keep = true ∧ ∃ text, row.comment? = some text ∧
        line = .comment (Indent.depthRounded unit row.indent) text row.number) ∨
      (row.body ≠ [] ∧ row.comment? = none ∧
        ∃ depth, Indent.depth unit row.indent = .ok depth ∧
          line = .code depth (Text.trimEnd (Text.dropComment row.body)) row.number) := by
  rw [ofRow] at ok
  split at ok
  next =>
    obtain rfl := Except.ok.inj ok
    cases mem
  next filled =>
    split at ok
    next text comment =>
      obtain rfl := Except.ok.inj ok
      left
      split at mem
      next kept =>
        rw [List.mem_singleton] at mem
        exact ⟨kept, text, comment, mem⟩
      next => cases mem
    next code =>
      split at ok
      next => cases ok
      next depth measured =>
        obtain rfl := Except.ok.inj ok
        rw [List.mem_singleton] at mem
        rw [List.isEmpty_iff] at filled
        exact .inr ⟨filled, code, depth, measured, mem⟩

theorem exists_row_of_mem_ofRows {keep : Bool} {unit : Option Text} {rows : List Row}
    {lines : List Line} {line : Line} (ok : ofRows keep unit rows = .ok lines)
    (mem : line ∈ lines) :
    ∃ row ∈ rows, ∃ made, ofRow keep unit row = .ok made ∧ line ∈ made := by
  induction rows generalizing lines with
  | nil =>
    obtain rfl := Except.ok.inj ok
    cases mem
  | cons row rows ih =>
    obtain ⟨made, first, ok⟩ := bind_eq_ok.mp ok
    obtain ⟨more, later, ok⟩ := bind_eq_ok.mp ok
    obtain rfl := Except.ok.inj ok
    rcases List.mem_append.mp mem with here | after
    · exact ⟨row, List.mem_cons_self, made, first, here⟩
    · obtain ⟨found, inRows, rest⟩ := ih later after
      exact ⟨found, List.mem_cons_of_mem _ inRows, rest⟩

/-- A scan validates the configuration, settles the unit, and makes the rows lines. -/
theorem scan_eq_ok_iff {config : Config} {source : Text} {lines : List Line} :
    scan config source = .ok lines ↔
      config.validate = .ok () ∧
        ∃ unit, Indent.unitOf config (Row.ofSource source) = .ok unit ∧
          ofRows config.keepComments unit (Row.ofSource source) = .ok lines := by
  rw [scan, bind_eq_ok]
  constructor
  · rintro ⟨⟨⟩, valid, rest⟩
    exact ⟨valid, bind_eq_ok.mp rest⟩
  · rintro ⟨valid, rest⟩
    exact ⟨(), valid, bind_eq_ok.mpr rest⟩

end Line

namespace Row

theorem exists_line_of_mem_ofSource {source : Text} {row : Row} (mem : row ∈ ofSource source) :
    ∃ number line, row = ofText number line ∧ ∀ c ∈ line, c ∈ source ∧ c ≠ '\n' := by
  rw [ofSource.eq_def] at mem
  obtain ⟨⟨line, index⟩, inLines, rfl⟩ := List.mem_map.mp mem
  refine ⟨index + 1, line, rfl, ?_⟩
  intro c inLine
  have inText := Text.mem_of_mem_lines (List.fst_mem_of_mem_zipIdx inLines) c inLine
  refine ⟨?_, inText.2⟩
  split at inText
  · exact List.mem_cons_of_mem _ inText.1
  · exact inText.1

theorem trim_comment {row : Row} {text : Text} (comment : row.comment? = some text) :
    ∃ rest, row.body = commentMark :: rest ∧ text = Text.trim rest := by
  rw [comment?] at comment
  split at comment
  next => cases comment
  next c rest body =>
    split at comment
    next mark =>
      obtain rfl := Option.some.inj comment
      exact ⟨rest, by rw [body, mark], rfl⟩
    next => cases comment

theorem comment?_eq_none_iff {row : Row} :
    row.comment? = none ↔ row.body.head? ≠ some commentMark := by
  rw [comment?]
  split
  next empty => simp [empty]
  next c rest body => simp [body]

end Row

namespace Line

/-! ## Scanned lines are clean -/

/-- The text of a code row keeps its first character. -/
theorem exists_content_of_body {c : Char} (ink : Text.isBlank c = false) (code : c ≠ commentMark)
    (rest : Text) :
    ∃ more, Text.trimEnd (Text.dropComment (c :: rest)) = c :: more := by
  have kept : Text.dropComment (c :: rest) =
      c :: Text.dropCommentFrom (Quoting.outside.step c) rest := by
    rw [Text.dropComment, Text.dropCommentFrom, if_neg]
    rintro ⟨_, mark⟩
    exact code mark
  rw [kept]
  obtain ⟨tail, split, blank⟩ :=
    Text.exists_eq_trimEnd_append (c :: Text.dropCommentFrom (Quoting.outside.step c) rest)
  cases cut : Text.trimEnd (c :: Text.dropCommentFrom (Quoting.outside.step c) rest) with
  | nil =>
    rw [cut, List.nil_append] at split
    rw [blank c (split ▸ List.mem_cons_self)] at ink
    cases ink
  | cons first more =>
    rw [cut] at split
    obtain ⟨rfl, _⟩ := List.cons.inj split
    exact ⟨more, rfl⟩

/-- The text of a code row makes a clean line. -/
theorem clean_code {row : Row} (trimmed : Text.Trimmed row.body) (oneRow : '\n' ∉ row.body)
    (filled : row.body ≠ []) (code : row.comment? = none) (depth number : Nat) :
    Clean (.code depth (Text.trimEnd (Text.dropComment row.body)) number) := by
  obtain ⟨c, rest, body⟩ := List.exists_cons_of_ne_nil filled
  have ink : Text.isBlank c = false := trimmed.front c (by rw [body]; rfl)
  have plain : c ≠ commentMark := by
    rintro rfl
    exact Row.comment?_eq_none_iff.mp code (by rw [body]; rfl)
  obtain ⟨more, content⟩ := exists_content_of_body ink plain rest
  rw [← body] at content
  obtain ⟨tail, split, _⟩ := Text.exists_eq_trimEnd_append (Text.dropComment row.body)
  have free : Text.dropComment (c :: more) = c :: more := by
    have again : Text.dropComment (Text.dropComment row.body) = Text.dropComment row.body :=
      Text.dropCommentFrom_idem .outside row.body
    rw [split, content] at again
    exact (Text.dropCommentFrom_append_eq_self.mp again).1
  have back := Text.trimEnd_back (Text.dropComment row.body)
  have onRow : '\n' ∉ c :: more := by
    intro feed
    refine oneRow ((Text.dropCommentFrom_prefix .outside row.body).subset ?_)
    rw [← Text.dropComment, split, content]
    exact List.mem_append_left _ feed
  rw [content] at back ⊢
  refine ⟨⟨?_, back⟩, onRow, fun _ => List.cons_ne_nil c more, ?_, fun _ => free⟩
  · intro first head
    obtain rfl := Option.some.inj head
    exact ink
  · intro _ mark
    exact plain (Option.some.inj mark)

/-- Every scanned line is clean and holds characters of the source. -/
theorem clean_of_mem_scan {config : Config} {source : Text} {lines : List Line} {line : Line}
    (scanned : scan config source = .ok lines) (mem : line ∈ lines) :
    Clean line ∧ ∀ c ∈ line.content, c ∈ source := by
  obtain ⟨_, unit, _, made⟩ := scan_eq_ok_iff.mp scanned
  obtain ⟨row, inRows, own, ofRow, inOwn⟩ := exists_row_of_mem_ofRows made mem
  obtain ⟨number, text, rfl, chars⟩ := Row.exists_line_of_mem_ofSource inRows
  have body : ∀ c ∈ Text.trim text, c ∈ source ∧ c ≠ '\n' :=
    fun c inBody => chars c (Text.mem_of_mem_trim inBody)
  rcases mem_ofRow ofRow inOwn with ⟨_, comment, found, rfl⟩ | ⟨filled, code, depth, _, rfl⟩
  · obtain ⟨rest, marked, rfl⟩ := Row.trim_comment found
    have inBody : ∀ c ∈ Text.trim rest, c ∈ source ∧ c ≠ '\n' := by
      intro c inRest
      refine body c ?_
      rw [show Text.trim text = _ from marked]
      exact List.mem_cons_of_mem _ (Text.mem_of_mem_trim inRest)
    refine ⟨⟨Text.trimmed_trim rest, ?_, nofun, nofun, nofun⟩, fun c inRest => (inBody c inRest).1⟩
    intro feed
    exact (inBody _ feed).2 rfl
  · refine ⟨clean_code (Text.trimmed_trim text) (fun feed => (body _ feed).2 rfl) filled code
      depth number, ?_⟩
    intro c inContent
    obtain ⟨tail, split, _⟩ := Text.exists_eq_trimEnd_append (Text.dropComment (Text.trim text))
    have inDropped : c ∈ Text.dropComment (Text.trim text) := by
      rw [split]
      exact List.mem_append_left _ inContent
    exact (body c ((Text.dropCommentFrom_prefix _ _).subset inDropped)).1

theorem keepComments_of_mem_scan {config : Config} {source : Text} {lines : List Line} {line : Line}
    (scanned : scan config source = .ok lines) (mem : line ∈ lines)
    (comment : line.kind = .comment) : config.keepComments = true := by
  obtain ⟨_, unit, _, made⟩ := scan_eq_ok_iff.mp scanned
  obtain ⟨row, _, own, ofRow, inOwn⟩ := exists_row_of_mem_ofRows made mem
  rcases mem_ofRow ofRow inOwn with ⟨kept, _⟩ | ⟨_, _, depth, _, rfl⟩
  · exact kept
  · cases comment

end Line
end Outline
