import Outline.Header.Basic
import Outline.Proofs.Text

/-!
# Where the parts of a header come from

A header is made of pieces of its text: every part that `Header.read?` returns holds characters of
the text only, and every name it returns starts as names do.
-/

set_option autoImplicit false

namespace Outline

namespace Grammar

/-- Below U+0080 names start as words do. -/
theorem isNameStart_of_lt [Letters] {c : Char} (small : c.toNat < 0x80) :
    isNameStart c = Text.isWordStart c := by
  rw [isNameStart, Text.isWordStart, Letters.ascii small]

/-- Below U+0080 the characters of names are those of words. -/
theorem isNameChar_of_lt [Letters] {c : Char} (small : c.toNat < 0x80) :
    isNameChar c = Text.isWordChar c := by
  rw [isNameChar, Text.isWordChar, Text.isNumeric, if_pos small, Letters.ascii small]

/-- No character of a name is one that, below U+0080, is none of words. -/
theorem ne_of_isNameChar [Letters] {c d : Char} (inName : isNameChar c = true)
    (small : d.toNat < 0x80) (outside : Text.isWordChar d = false) : c ≠ d := by
  rintro rfl
  rw [isNameChar_of_lt small, outside] at inName
  cases inName

/-- What starts a word starts a name. -/
theorem isNameStart_of_isWordStart [Letters] {c : Char} (start : Text.isWordStart c = true) :
    isNameStart c = true := by
  rw [Text.isWordStart, Bool.or_eq_true] at start
  rw [isNameStart, Bool.or_eq_true]
  rcases start with letter | underscore
  · exact .inl (Letters.alphabetic letter)
  · exact .inr underscore

/-- A text that starts as a name does. -/
def StartsName [Letters] (s : Text) : Prop := ∃ c rest, s = c :: rest ∧ isNameStart c = true

theorem skipGap_subset (s : Text) : skipGap s ⊆ s := List.dropWhile_subset isGap

theorem readKeyword?_subset [Letters] {keyword s rest : Text}
    (read : readKeyword? keyword s = some rest) : rest ⊆ s := by
  have suffix : ∀ tail, Text.after? keyword s = some tail → tail ⊆ s := by
    intro tail after
    rw [Text.after?_eq_some_iff.mp after]
    exact List.subset_append_right _ _
  rw [readKeyword?] at read
  split at read
  next => cases read
  next after =>
    obtain rfl := Option.some.inj read
    exact List.nil_subset s
  next c tail after =>
    split at read
    · cases read
    · obtain rfl := Option.some.inj read
      exact suffix _ after

/-- A name that is read is at the front, and starts as a name does. -/
theorem readName?_eq_some [Letters] {s name rest : Text} (read : readName? s = some (name, rest)) :
    s = name ++ rest ∧ StartsName name := by
  cases s with
  | nil => cases read
  | cons c tail =>
    rw [readName?] at read
    split at read
    next start =>
      obtain ⟨rfl, rfl⟩ := Prod.mk.inj (Option.some.inj read)
      refine ⟨?_, c, _, rfl, start⟩
      rw [List.cons_append, List.takeWhile_append_dropWhile]
    next => cases read

theorem readName?_subset [Letters] {s name rest : Text} (read : readName? s = some (name, rest)) :
    name ⊆ s ∧ rest ⊆ s := by
  rw [(readName?_eq_some read).1]
  exact ⟨List.subset_append_left _ _, List.subset_append_right _ _⟩

end Grammar

namespace Header

open Grammar

/-- The texts that a header holds. -/
def texts : Header → List Text
  | .ifThen condition | .elifThen condition | .whileLoop condition => [condition]
  | .otherwise => []
  | .forLoop targets iterable => iterable :: targets
  | .function name param => [name, param]

theorem readNextTarget?_subset [Letters] {s name rest : Text}
    (read : readNextTarget? s = some (name, rest)) : name ⊆ s ∧ rest ⊆ s := by
  rw [readNextTarget?] at read
  split at read
  next tail gap =>
    have inText : skipGap tail ⊆ s := by
      intro c mem
      refine skipGap_subset s ?_
      rw [gap]
      exact List.mem_cons_of_mem _ (skipGap_subset tail mem)
    have parts := readName?_subset read
    exact ⟨fun _ mem => inText (parts.1 mem), fun _ mem => inText (parts.2 mem)⟩
  next => cases read

/-- Further targets have characters of the header only. -/
theorem readMoreTargets_subset [Letters] (s : Text) :
    (∀ name ∈ (readMoreTargets s).1, name ⊆ s) ∧ (readMoreTargets s).2 ⊆ s := by
  fun_induction readMoreTargets s with
  | case1 s name rest read names after more ih =>
    rw [more] at ih
    have parts := readNextTarget?_subset read
    refine ⟨?_, fun _ mem => parts.2 (ih.2 mem)⟩
    intro other mem
    rcases List.mem_cons.mp mem with rfl | later
    · exact parts.1
    · exact fun _ inOther => parts.2 (ih.1 other later inOther)
  | case2 s none => exact ⟨fun _ mem => (nomatch mem), List.Subset.refl s⟩

/-- The targets of a loop have characters of the header only. -/
theorem readTargets?_subset [Letters] {s rest : Text} {targets : List Text}
    (read : readTargets? s = some (targets, rest)) : (∀ name ∈ targets, name ⊆ s) ∧ rest ⊆ s := by
  obtain ⟨⟨name, after⟩, first, more⟩ := Option.bind_eq_some_iff.mp read
  obtain ⟨rfl, rfl⟩ := Prod.mk.inj (Option.some.inj more)
  have parts := readName?_subset first
  have later := readMoreTargets_subset after
  refine ⟨?_, fun _ mem => parts.2 (later.2 mem)⟩
  intro other mem
  rcases List.mem_cons.mp mem with rfl | inMore
  · exact parts.1
  · exact fun _ inOther => parts.2 (later.1 other inMore inOther)

theorem readRest?_subset {s text : Text} (read : readRest? s = some text) : text ⊆ s := by
  rw [readRest?] at read
  split at read
  · cases read
  · obtain rfl := Option.some.inj read
    exact fun _ mem => Text.mem_of_mem_trim mem

/-- A condition has characters of the header only. -/
theorem readCondition?_subset [Letters] {keyword : String} {s text : Text}
    (read : readCondition? keyword s = some text) : text ⊆ s := by
  obtain ⟨rest, found, last⟩ := Option.bind_eq_some_iff.mp read
  intro c mem
  exact readKeyword?_subset found (skipGap_subset rest (readRest?_subset last mem))

/-- The texts of a loop have characters of the header only. -/
theorem readFor?_texts [Letters] {s : Text} {header : Header} (read : readFor? s = some header) :
    ∀ text ∈ header.texts, text ⊆ s := by
  obtain ⟨rest, found, more⟩ := Option.bind_eq_some_iff.mp read
  obtain ⟨⟨targets, rest₁⟩, names, more⟩ := Option.bind_eq_some_iff.mp more
  obtain ⟨rest₂, keyword, more⟩ := Option.bind_eq_some_iff.mp more
  obtain ⟨iterable, last, more⟩ := Option.bind_eq_some_iff.mp more
  obtain rfl := Option.some.inj more
  have inText : skipGap rest ⊆ s := fun _ mem => readKeyword?_subset found (skipGap_subset _ mem)
  have named := readTargets?_subset names
  intro text mem
  rcases List.mem_cons.mp mem with rfl | inTargets
  · intro c inLast
    have inRest₂ := skipGap_subset _ (readRest?_subset last inLast)
    have inRest₁ := skipGap_subset _ (readKeyword?_subset keyword inRest₂)
    exact inText (named.2 inRest₁)
  · exact fun _ inName => inText (named.1 text inTargets inName)

/-- A function starts as a name does, and its texts have characters of the header only. -/
theorem readFunction?_texts [Letters] {s : Text} {header : Header}
    (read : readFunction? s = some header) :
    ∃ name param, header = .function name param ∧ StartsName name ∧ name ⊆ s ∧ param ⊆ s := by
  obtain ⟨rest, found, more⟩ := Option.bind_eq_some_iff.mp read
  obtain ⟨⟨name, rest₁⟩, named, more⟩ := Option.bind_eq_some_iff.mp more
  obtain ⟨rest₂, keyword, more⟩ := Option.bind_eq_some_iff.mp more
  obtain ⟨⟨param, rest₃⟩, last, more⟩ := Option.bind_eq_some_iff.mp more
  have inText : skipGap rest ⊆ s := fun _ mem => readKeyword?_subset found (skipGap_subset _ mem)
  have parts := readName?_subset named
  change (if _ then some (Header.function name param) else none) = some header at more
  split at more
  next =>
    obtain rfl := Option.some.inj more
    refine ⟨name, param, rfl, (readName?_eq_some named).2, ?_, ?_⟩
    · exact fun _ mem => inText (parts.1 mem)
    · intro c mem
      have inRest₂ := skipGap_subset _ ((readName?_subset last).1 mem)
      have inRest₁ := skipGap_subset _ (readKeyword?_subset keyword inRest₂)
      exact inText (parts.2 inRest₁)
  next => cases more

theorem readElse?_eq_some [Letters] {s : Text} {header : Header}
    (read : readElse? s = some header) : header = .otherwise := by
  obtain ⟨rest, _, more⟩ := Option.bind_eq_some_iff.mp read
  split at more
  · exact (Option.some.inj more).symm
  · cases more

/-- The alternatives that a header is read by, in the order in which they are tried. -/
theorem read?_cases [Letters] {s : Text} {header : Header} (read : read? s = some header) :
    readFunction? (skipGap s) = some header ∨ readFor? (skipGap s) = some header ∨
      (∃ condition, readCondition? "elif" (skipGap s) = some condition ∧
        header = .elifThen condition) ∨
      (∃ condition, readCondition? "if" (skipGap s) = some condition ∧
        header = .ifThen condition) ∨
      (∃ condition, readCondition? "while" (skipGap s) = some condition ∧
        header = .whileLoop condition) ∨
      readElse? (skipGap s) = some header := by
  have first {a b : Option Header} (found : (a <|> b) = some header) :
      a = some header ∨ b = some header := by
    cases a with
    | none => exact .inr found
    | some given => exact .inl found
  rw [read?] at read
  rcases first read with found | read
  · exact .inl found
  rcases first read with found | read
  · exact .inr (.inl found)
  rcases first read with found | read
  · obtain ⟨condition, piece, rfl⟩ := Option.map_eq_some_iff.mp found
    exact .inr (.inr (.inl ⟨condition, piece, rfl⟩))
  rcases first read with found | read
  · obtain ⟨condition, piece, rfl⟩ := Option.map_eq_some_iff.mp found
    exact .inr (.inr (.inr (.inl ⟨condition, piece, rfl⟩)))
  rcases first read with found | read
  · obtain ⟨condition, piece, rfl⟩ := Option.map_eq_some_iff.mp found
    exact .inr (.inr (.inr (.inr (.inl ⟨condition, piece, rfl⟩))))
  · exact .inr (.inr (.inr (.inr (.inr read))))

/-- The texts of a header hold characters of the text it was read from. -/
theorem texts_subset [Letters] {s : Text} {header : Header} (read : read? s = some header) :
    ∀ text ∈ header.texts, text ⊆ s := by
  intro text mem c inText
  apply skipGap_subset s
  rcases read?_cases read with found | found | ⟨condition, found, rfl⟩ | ⟨condition, found, rfl⟩ |
    ⟨condition, found, rfl⟩ | found
  · obtain ⟨name, param, rfl, _, inName, inParam⟩ := readFunction?_texts found
    rcases List.mem_cons.mp mem with rfl | last
    · exact inName inText
    · obtain rfl := List.mem_singleton.mp last
      exact inParam inText
  · exact readFor?_texts found text mem inText
  · obtain rfl := List.mem_singleton.mp mem
    exact readCondition?_subset found inText
  · obtain rfl := List.mem_singleton.mp mem
    exact readCondition?_subset found inText
  · obtain rfl := List.mem_singleton.mp mem
    exact readCondition?_subset found inText
  · rw [readElse?_eq_some found] at mem
    cases mem

/-- The name of a function starts as a name does. -/
theorem startsName_of_read? [Letters] {s name param : Text}
    (read : read? s = some (.function name param)) : StartsName name := by
  rcases read?_cases read with found | found | ⟨condition, found, same⟩ |
    ⟨condition, found, same⟩ | ⟨condition, found, same⟩ | found
  · obtain ⟨name', param', same, start, _⟩ := readFunction?_texts found
    obtain ⟨rfl, rfl⟩ := Header.function.inj same
    exact start
  · obtain ⟨rest, _, more⟩ := Option.bind_eq_some_iff.mp found
    obtain ⟨⟨targets, rest₁⟩, _, more⟩ := Option.bind_eq_some_iff.mp more
    obtain ⟨rest₂, _, more⟩ := Option.bind_eq_some_iff.mp more
    obtain ⟨iterable, _, more⟩ := Option.bind_eq_some_iff.mp more
    cases Option.some.inj more
  · cases same
  · cases same
  · cases same
  · cases readElse?_eq_some found

end Header
end Outline
