import Outline.Proofs.Classify
import Outline.Proofs.Header

/-!
# Names and where they start

Dotted paths, places and imports start as names do, and so does every name that the table of symbols
calls a function or an import (`SymbolTable.Named`). So a line that begins with such a name does not
begin with a blank.
-/

set_option autoImplicit false

namespace Outline

namespace Grammar

theorem isBlank_eq_false_of_isNameStart [Letters] {c : Char} (start : isNameStart c = true) :
    Text.isBlank c = false := by
  cases blank : Text.isBlank c with
  | false => rfl
  | true =>
    have noUnderscore : (c == '_') = false := by
      rw [beq_eq_false_iff_ne]
      rintro rfl
      revert blank
      decide
    rw [isNameStart, Letters.blank blank, noUnderscore] at start
    cases start

theorem StartsName.append [Letters] {s : Text} (start : StartsName s) (t : Text) :
    StartsName (s ++ t) := by
  obtain ⟨c, rest, rfl, first⟩ := start
  exact ⟨c, rest ++ t, rfl, first⟩

end Grammar

namespace Text

open Grammar

/-! ## Paths -/

/-- An identifier starts as a name does. -/
theorem startsName_of_isIdentifier [Letters] {s : Text} (identifier : isIdentifier s = true) :
    StartsName s := by
  cases s with
  | nil => cases identifier
  | cons c rest =>
    rw [isIdentifier, Bool.and_eq_true] at identifier
    exact ⟨c, rest, rfl, isNameStart_of_isWordStart identifier.1⟩

theorem isWordChar_of_mem_identifier {s : Text} (identifier : isIdentifier s = true) :
    ∀ c ∈ s, isWordChar c = true := by
  cases s with
  | nil => cases identifier
  | cons first rest =>
    rw [isIdentifier, Bool.and_eq_true, List.all_eq_true] at identifier
    intro c mem
    rcases List.mem_cons.mp mem with rfl | later
    · exact isWordChar_of_isWordStart identifier.1
    · exact identifier.2 c later

/-- A dotted path starts as a name does. -/
theorem startsName_of_isDottedPath [Letters] {s : Text} (path : isDottedPath s = true) :
    StartsName s := by
  cases s with
  | nil =>
    rw [isDottedPath, List.splitOn_nil] at path
    cases path
  | cons c rest =>
    rw [isDottedPath, List.splitOn_cons_eq_if_modifyHead] at path
    split at path
    · cases path
    · obtain ⟨first, more, split⟩ := List.exists_cons_of_ne_nil (List.splitOn_ne_nil '.' rest)
      rw [split, List.modifyHead_cons, List.all_cons, Bool.and_eq_true, isIdentifier,
        Bool.and_eq_true] at path
      exact ⟨c, rest, rfl, isNameStart_of_isWordStart path.1.1⟩

/-- A dotted path is made of characters of words, and dots. -/
theorem mem_isDottedPath {s : Text} (path : isDottedPath s = true) :
    ∀ c ∈ s, c = '.' ∨ isWordChar c = true := by
  intro c mem
  have whole : ['.'].intercalate (s.splitOn '.') = s := List.intercalate_splitOn '.'
  rw [← whole] at mem
  rcases mem_intercalate mem with dot | ⟨part, inParts, inPart⟩
  · exact .inl (List.mem_singleton.mp dot)
  · exact .inr (isWordChar_of_mem_identifier (List.all_eq_true.mp path part inParts) c inPart)

theorem eq_append_of_cutAtFirstDot {s before after : Text}
    (cut : cutAtFirstDot? s = some (before, after)) : s = before ++ '.' :: after := by
  rw [cutAtFirstDot?] at cut
  split at cut
  next => cases cut
  next c rest dropped =>
    obtain ⟨rfl, rfl⟩ := Prod.mk.inj (Option.some.inj cut)
    have stop := List.head?_dropWhile_not (· != '.') s
    rw [dropped] at stop
    obtain rfl : c = '.' := by simpa using stop
    rw [← dropped, List.takeWhile_append_dropWhile]

theorem eq_append_of_cutAtLastDot {s before after : Text}
    (cut : cutAtLastDot? s = some (before, after)) : s = before ++ '.' :: after := by
  obtain ⟨⟨last, first⟩, found, same⟩ := Option.map_eq_some_iff.mp cut
  obtain ⟨rfl, rfl⟩ := Prod.mk.inj same
  have whole := congrArg List.reverse (eq_append_of_cutAtFirstDot found)
  simpa using whole

/-! ## Places -/

/-- A place to assign to starts as a name does. -/
theorem startsName_of_isSinglePlace [Letters] {s : Text} (place : isSinglePlace s = true) :
    StartsName s := by
  cases s with
  | nil => cases place
  | cons c rest =>
    rw [isSinglePlace, Bool.and_eq_true] at place
    exact ⟨c, rest, rfl, isNameStart_of_isWordStart place.1⟩

/-- A trimmed place starts as a name does. -/
theorem startsName_of_isPlace [Letters] {s : Text} (trimmed : Trimmed s)
    (place : isPlace s = true) : StartsName s := by
  rw [isPlace, Bool.and_eq_true, List.all_eq_true] at place
  rw [splitCommas.eq_def] at place
  split at place
  next before after found =>
    have first := startsName_of_isSinglePlace (place.2 _ List.mem_cons_self)
    have whole := eq_append_of_cutAt found
    have front : ∀ c ∈ before.head?, isBlank c = false := by
      intro c head
      refine trimmed.front c ?_
      rw [whole, List.head?_append, Option.mem_def.mp head]
      rfl
    obtain ⟨tail, split, _⟩ := exists_eq_trimEnd_append before
    rw [trim, trimStart_eq_self front] at first
    rw [whole, split, List.append_assoc]
    exact first.append _
  next =>
    cases cut : nonBlank? s with
    | none =>
      rw [cut] at place
      cases place.1
    | some text =>
      rw [cut] at place
      have start := startsName_of_isSinglePlace (place.2 text List.mem_cons_self)
      rw [← (nonBlank?_eq_some_iff.mp cut).1, trim_eq_self trimmed] at start
      exact start

/-! ## Occurrences -/

/-- A cut gives back the text around the word it was made at. -/
theorem eq_append_of_cutAtOccurrenceFrom {word : Text} {accept : Text → Text → Bool} {skip : Nat}
    {behind s before after : Text}
    (cut : cutAtOccurrenceFrom word accept skip behind s = some (before, after)) :
    behind.reverse ++ s = before ++ (word ++ after) := by
  induction s generalizing skip behind with
  | nil =>
    rw [cutAtOccurrenceFrom] at cut
    split at cut
    next found here =>
      split at cut
      · obtain ⟨rfl, rfl⟩ := Prod.mk.inj (Option.some.inj cut)
        split at here
        · rw [after?_eq_some_iff.mp here]
        · cases here
      · cases cut
    next => cases cut
  | cons c rest ih =>
    have further {skip : Nat}
        (cut : cutAtOccurrenceFrom word accept skip (c :: behind) rest = some (before, after)) :
        behind.reverse ++ c :: rest = before ++ (word ++ after) := by
      rw [← ih cut, List.reverse_cons, List.append_assoc]
      rfl
    rw [cutAtOccurrenceFrom] at cut
    split at cut
    next found here =>
      split at cut
      · obtain ⟨rfl, rfl⟩ := Prod.mk.inj (Option.some.inj cut)
        split at here
        · rw [after?_eq_some_iff.mp here]
        · cases here
      · exact further cut
    next => exact further cut

/-- What a cut is made at has been approved. -/
theorem accept_of_cutAtOccurrenceFrom {word : Text} {accept : Text → Text → Bool} {skip : Nat}
    {behind s before after : Text}
    (cut : cutAtOccurrenceFrom word accept skip behind s = some (before, after)) :
    accept before.reverse after = true := by
  induction s generalizing skip behind with
  | nil =>
    rw [cutAtOccurrenceFrom] at cut
    split at cut
    next =>
      split at cut
      next approved =>
        obtain ⟨rfl, rfl⟩ := Prod.mk.inj (Option.some.inj cut)
        rwa [List.reverse_reverse]
      next => cases cut
    next => cases cut
  | cons c rest ih =>
    rw [cutAtOccurrenceFrom] at cut
    split at cut
    next =>
      split at cut
      next approved =>
        obtain ⟨rfl, rfl⟩ := Prod.mk.inj (Option.some.inj cut)
        rwa [List.reverse_reverse]
      next => exact ih cut
    next => exact ih cut

theorem cutAtKeyword?_subset {keyword s before after : Text}
    (cut : cutAtKeyword? keyword s = some (before, after)) : before ⊆ s ∧ after ⊆ s := by
  have whole : s = before ++ (keyword ++ after) := eq_append_of_cutAtOccurrenceFrom cut
  rw [whole]
  refine ⟨List.subset_append_left _ _, ?_⟩
  exact List.Subset.trans (List.subset_append_right keyword after) (List.subset_append_right _ _)

/-- The parts around a dot of a dotted path are dotted paths. -/
theorem isDottedPath_append_dot {before after : Text} :
    isDottedPath (before ++ '.' :: after) = true ↔
      isDottedPath before = true ∧ isDottedPath after = true := by
  rw [isDottedPath, List.splitOn_append_cons_self, List.all_append, Bool.and_eq_true, isDottedPath,
    isDottedPath]

end Text

/-! ## Imports -/

/-- The texts that an import holds. -/
def ImportPath.texts (path : ImportPath) : List Text :=
  path.source :: (path.member.toList ++ path.nickname.toList)

namespace Classify

open Grammar

/-- An import and its nickname have characters of the entry only. -/
theorem splitNickname_subset (text : Text) :
    (splitNickname text).1 ⊆ text ∧ ∀ name ∈ (splitNickname text).2, name ⊆ text := by
  rw [splitNickname]
  split
  next path nickname cut =>
    have parts := Text.cutAtKeyword?_subset cut
    refine ⟨fun _ mem => parts.1 (Text.mem_of_mem_trim mem), ?_⟩
    intro name same c mem
    obtain rfl := Option.some.inj same
    exact parts.2 (Text.mem_of_mem_trim mem)
  next => exact ⟨List.Subset.refl text, fun _ same => (nomatch same)⟩

/-- What is known of an import: its path is dotted, its nickname an identifier, and both are taken
from the text. -/
theorem importPath?_cases {text : Text} {path : ImportPath}
    (read : importPath? text = some path) :
    (∀ name ∈ path.nickname, Text.isIdentifier name = true ∧ name ⊆ text) ∧
      ((path.member = none ∧ Text.isDottedPath path.source = true ∧ path.source ⊆ text) ∨
        ∃ member, path.member = some member ∧ Text.isDottedPath path.source = true ∧
          Text.isDottedPath member = true ∧ path.source ⊆ text ∧ member ⊆ text) := by
  rw [importPath?] at read
  split at read
  next written nickname cut =>
    have parts := splitNickname_subset text
    rw [cut] at parts
    split at read
    next allowed =>
      rw [Bool.and_eq_true] at allowed
      have named : ∀ name ∈ nickname, Text.isIdentifier name = true ∧ name ⊆ text := by
        intro name same
        refine ⟨?_, parts.2 name same⟩
        rw [Option.mem_def.mp same] at allowed
        exact allowed.2
      split at read
      next source member dot =>
        obtain rfl := Option.some.inj read
        have whole := Text.eq_append_of_cutAtLastDot dot
        rw [whole, Text.isDottedPath_append_dot] at allowed
        refine ⟨named, .inr ⟨member, rfl, allowed.1.1, allowed.1.2, ?_, ?_⟩⟩
        · intro c mem
          refine parts.1 ?_
          rw [whole]
          exact List.mem_append_left _ mem
        · intro c mem
          refine parts.1 ?_
          rw [whole]
          exact List.mem_append_right _ (List.mem_cons_of_mem _ mem)
      next =>
        obtain rfl := Option.some.inj read
        exact ⟨named, .inl ⟨rfl, allowed.1, parts.1⟩⟩
    next => cases read

/-- An import holds characters of its text, all of them dots or characters of words. -/
theorem importPath?_texts {text : Text} {path : ImportPath} (read : importPath? text = some path) :
    ∀ part ∈ path.texts, part ⊆ text ∧ ∀ c ∈ part, c = '.' ∨ Text.isWordChar c = true := by
  obtain ⟨named, rest⟩ := importPath?_cases read
  have nickname : ∀ part ∈ path.nickname.toList,
      part ⊆ text ∧ ∀ c ∈ part, c = '.' ∨ Text.isWordChar c = true := by
    intro part mem
    have known := named part (Option.mem_toList.mp mem)
    exact ⟨known.2, fun c inPart => .inr (Text.isWordChar_of_mem_identifier known.1 c inPart)⟩
  intro part mem
  rcases rest with ⟨noMember, dotted, inText⟩ | ⟨member, isMember, dotted, dotted', inText, inText'⟩
  · rw [ImportPath.texts, noMember] at mem
    rcases List.mem_cons.mp mem with rfl | later
    · exact ⟨inText, Text.mem_isDottedPath dotted⟩
    · exact nickname part later
  · rw [ImportPath.texts, isMember] at mem
    rcases List.mem_cons.mp mem with rfl | later
    · exact ⟨inText, Text.mem_isDottedPath dotted⟩
    · rcases List.mem_cons.mp later with rfl | last
      · exact ⟨inText', Text.mem_isDottedPath dotted'⟩
      · exact nickname part last

/-- The name that an import binds starts as a name does. -/
theorem startsName_boundName [Letters] {text : Text} {path : ImportPath}
    (read : importPath? text = some path) : StartsName path.boundName := by
  obtain ⟨named, rest⟩ := importPath?_cases read
  rw [ImportPath.boundName]
  cases nickname : path.nickname with
  | some name => exact Text.startsName_of_isIdentifier (named name nickname).1
  | none =>
    rcases rest with ⟨noMember, dotted, _⟩ | ⟨member, isMember, _, dotted, _⟩
    · rw [noMember]
      exact Text.startsName_of_isDottedPath dotted
    · rw [isMember]
      exact Text.startsName_of_isDottedPath dotted

end Classify

/-! ## Names in scope -/

namespace SymbolTable

open Grammar Classify

/-- A table in which functions and imports start as names do. -/
structure Named [Letters] (table : SymbolTable) : Prop where
  functions : ∀ entry ∈ table.functions, StartsName entry.1
  imports : ∀ entry ∈ table.imports, StartsName entry.1

theorem named_empty [Letters] : Named {} := by
  constructor <;> (intro entry mem; cases mem)

/-- Variables touch neither functions nor imports. -/
theorem defineVariables_frame (table : SymbolTable) (names : List Text) :
    (table.defineVariables names).functions = table.functions ∧
      (table.defineVariables names).imports = table.imports := by
  induction names generalizing table with
  | nil => exact ⟨rfl, rfl⟩
  | cons name names ih => exact ih (table.defineVariable name)

/-- Variables change nothing in functions and imports. -/
theorem Named.defineVariables [Letters] {table : SymbolTable} (named : table.Named)
    (names : List Text) : (table.defineVariables names).Named := by
  obtain ⟨functions, imports⟩ := table.defineVariables_frame names
  refine ⟨?_, ?_⟩
  · rw [functions]
    exact named.functions
  · rw [imports]
    exact named.imports

/-- The names that a node introduces start as names do. -/
theorem Named.declare [Letters] {table : SymbolTable} {context : Context} {previous : Option Role}
    {node : Node} {shapes : List Shape} {role : Role} (named : table.Named)
    (decided : Decision table context previous node shapes role) :
    (table.declare node role).Named := by
  cases decided with
  | assignment =>
    rw [SymbolTable.declare]
    split
    · exact ⟨named.functions, named.imports⟩
    · exact named.defineVariables _
  | importEntry text path _ _ _ _ read =>
    refine ⟨named.functions, ?_⟩
    intro entry mem
    rcases List.mem_cons.mp mem with rfl | later
    · exact startsName_boundName read
    · exact named.imports entry later
  | header keyword header _ _ _ _ _ read decided =>
    cases decided with
    | forLoop targets => exact named.defineVariables targets
    | rangeLoop targets => exact named.defineVariables targets
    | function name param =>
      have before := named.defineVariables (if param = ['_'] then none else some param).toList
      refine ⟨?_, before.imports⟩
      intro entry mem
      rcases List.mem_cons.mp mem with rfl | later
      · exact Header.startsName_of_read? read
      · exact before.functions entry later
    | _ => exact named
  | _ => exact named

/-- A key that names something to call starts as a name does. -/
theorem Named.startsName_of_isCallableKey [Letters] {table : SymbolTable} {key : Text}
    (named : table.Named) (callable : isCallableKey table key = true) : StartsName key := by
  have imported {kind : ImportKind} {name : Text} (found : table.imports.lookup name = some kind) :
      StartsName name := by
    obtain ⟨before, after, split, _⟩ := List.lookup_eq_some_iff.mp found
    exact named.imports (name, kind) (by rw [split]; simp)
  rw [isCallableKey, Bool.or_eq_true, isCallable, Bool.or_eq_true] at callable
  rcases callable with (defined | member) | dotted
  · obtain ⟨line, found⟩ := Option.isSome_iff_exists.mp defined
    obtain ⟨before, after, split, _⟩ := List.lookup_eq_some_iff.mp found
    exact named.functions (key, line) (by rw [split]; simp)
  · exact imported (beq_iff_eq.mp member)
  · split at dotted
    next root rest cut =>
      rw [Bool.and_eq_true, isModule, beq_iff_eq] at dotted
      rw [Text.eq_append_of_cutAtFirstDot cut]
      exact (imported dotted.1).append _
    next => cases dotted

end SymbolTable
end Outline
