import Outline.Node.Basic
import Outline.Proofs.Scan

/-!
# Nodes written back as text

`Node.written` writes a node as a line of a source: `key: value`, `- value`, `# text` and so on. The
text of a line and what is written for its node need not be the same, but they say the same: both
are cut alike, and what is written is again trimmed and free of comments
(`Node.respelled_written`). The point is that a cut at a colon depends only on what stands before
the colon, and that the blanks around a key leave the search at top level.
-/

set_option autoImplicit false

namespace Outline

/-! ## Blanks and the search for a character -/

namespace Quoting

/-- The quote that ends a literal is one. -/
def Proper : Quoting → Prop
  | .outside => True
  | .inside quote | .escaped quote => Text.isQuote quote = true

/-- A scan of strings never takes another character for a quote. -/
theorem Proper.step {quoting : Quoting} (proper : quoting.Proper) (c : Char) :
    (quoting.step c).Proper := by
  cases quoting with
  | outside =>
    rw [Quoting.step]
    split
    next quote => exact quote
    next => trivial
  | inside quote =>
    rw [Quoting.step]
    split
    · exact proper
    · split
      · trivial
      · exact proper
  | escaped quote => exact proper

theorem isQuote_eq_false_of_isBlank {c : Char} (blank : Text.isBlank c = true) :
    Text.isQuote c = false :=
  Text.eq_false_of_isBlank (by decide) blank

/-- Blanks open no string. -/
theorem foldl_step_blanks {blanks : Text} (blank : ∀ c ∈ blanks, Text.isBlank c = true) :
    blanks.foldl Quoting.step .outside = .outside := by
  induction blanks with
  | nil => rfl
  | cons c rest ih =>
    have plain := isQuote_eq_false_of_isBlank (blank c List.mem_cons_self)
    rw [List.foldl_cons, Quoting.step, if_neg (by rw [plain]; decide)]
    exact ih fun d mem => blank d (List.mem_cons_of_mem _ mem)

/-- A blank does not end a literal. -/
theorem eq_outside_of_step_blank {quoting : Quoting} {c : Char} (proper : quoting.Proper)
    (blank : Text.isBlank c = true) (outside : quoting.step c = .outside) : quoting = .outside := by
  cases quoting with
  | outside => rfl
  | inside quote =>
    have differ : c ≠ quote := by
      rintro rfl
      have plain := isQuote_eq_false_of_isBlank blank
      rw [show Text.isQuote c = true from proper] at plain
      cases plain
    rw [Quoting.step, if_neg differ] at outside
    split at outside <;> cases outside
  | escaped quote => cases outside

end Quoting

namespace Nesting

/-- The strings that a scan sees do not depend on the brackets. -/
theorem quoting_foldl_step (n : Nesting) (s : Text) :
    (s.foldl Nesting.step n).quoting = s.foldl Quoting.step n.quoting := by
  induction s generalizing n with
  | nil => rfl
  | cons c rest ih => exact ih (n.step c)

theorem proper_foldl_step {n : Nesting} (proper : n.quoting.Proper) (s : Text) :
    (s.foldl Nesting.step n).quoting.Proper := by
  induction s generalizing n with
  | nil => exact proper
  | cons c rest ih => exact ih (proper.step c)

theorem isTop_iff {n : Nesting} : n.isTop = true ↔ n.depth = 0 ∧ n.quoting = .outside := by
  simp [isTop]

/-- At top level, a scan is where it started. -/
theorem eq_start_of_isTop {n : Nesting} (top : n.isTop = true) : n = .start := by
  obtain ⟨depth, quoting⟩ := n
  simp only [isTop, Bool.and_eq_true, beq_iff_eq] at top
  rw [top.1, top.2]
  rfl

theorem depthAfter_blank {c : Char} (blank : Text.isBlank c = true) (depth : Nat) :
    depthAfter depth c = depth := by
  have notOpening : Text.isOpening c = false := Text.eq_false_of_isBlank (by decide) blank
  have notClosing : Text.isClosing c = false := Text.eq_false_of_isBlank (by decide) blank
  rw [depthAfter, notOpening, notClosing]
  rfl

/-- Blanks bring no search to top level that was not there before. -/
theorem isTop_of_foldl_blanks {n : Nesting} (proper : n.quoting.Proper) {blanks : Text}
    (blank : ∀ c ∈ blanks, Text.isBlank c = true)
    (top : (blanks.foldl Nesting.step n).isTop = true) : n.isTop = true := by
  induction blanks generalizing n with
  | nil => exact top
  | cons c rest ih =>
    have here := blank c List.mem_cons_self
    have next := ih (proper.step c) (fun d mem => blank d (List.mem_cons_of_mem _ mem)) top
    obtain ⟨depth, quoting⟩ := isTop_iff.mp next
    have outside := Quoting.eq_outside_of_step_blank proper here quoting
    change (if n.quoting = .outside then depthAfter n.depth c else n.depth) = 0 at depth
    rw [if_pos outside, depthAfter_blank here] at depth
    exact isTop_iff.mpr ⟨depth, outside⟩

end Nesting

namespace Text

/-- Whether a search can stop at a character: it is neither a quote nor a bracket. -/
def isTarget (c : Char) : Bool := !isQuote c && !isOpening c && !isClosing c

/-- A cut is made at the first occurrence at top level. -/
theorem cutAtFrom_iff {target : Char} (plain : isTarget target = true) {n : Nesting}
    {s before after : Text} :
    cutAtFrom target n s = some (before, after) ↔
      s = before ++ target :: after ∧ (before.foldl Nesting.step n).isTop = true ∧
        ∀ front back, before = front ++ target :: back →
          (front.foldl Nesting.step n).isTop = false := by
  induction s generalizing n before with
  | nil => simp [cutAtFrom]
  | cons c rest ih =>
    have guard : (n.isTop && c == target && !isQuote c && !isOpening c && !isClosing c) = true ↔
        n.isTop = true ∧ c = target := by
      constructor
      · intro all
        simp only [Bool.and_eq_true, beq_iff_eq] at all
        exact all.1.1.1
      · rintro ⟨top, rfl⟩
        simp only [isTarget, Bool.and_eq_true] at plain
        simp only [top, beq_self_eq_true, plain, Bool.and_self]
    rw [cutAtFrom]
    -- A cut here has nothing before it, and a cut further on has no target here at top level.
    by_cases here : n.isTop = true ∧ c = target
    · obtain ⟨top, rfl⟩ := here
      rw [if_pos (guard.mpr ⟨top, rfl⟩)]
      constructor
      · intro same
        obtain ⟨rfl, rfl⟩ := Prod.mk.inj (Option.some.inj same)
        refine ⟨rfl, top, ?_⟩
        intro front back empty
        exact absurd empty (by simp)
      · rintro ⟨split, _, first⟩
        cases before with
        | nil =>
          obtain ⟨_, rfl⟩ := List.cons.inj split
          rfl
        | cons d front =>
          obtain ⟨rfl, _⟩ := List.cons.inj split
          have := first [] front rfl
          rw [List.foldl_nil, top] at this
          cases this
    · rw [if_neg (fun all => here (guard.mp all)), Option.map_eq_some_iff]
      constructor
      · rintro ⟨⟨front, tail⟩, found, same⟩
        obtain ⟨rfl, rfl⟩ := Prod.mk.inj same
        obtain ⟨split, top, first⟩ := ih.mp found
        refine ⟨by rw [split, List.cons_append], top, ?_⟩
        intro lead back cut
        cases lead with
        | nil =>
          obtain ⟨rfl, _⟩ := List.cons.inj cut
          rw [List.foldl_nil, ← Bool.not_eq_true]
          exact fun isTop => here ⟨isTop, rfl⟩
        | cons d lead =>
          obtain ⟨rfl, later⟩ := List.cons.inj cut
          exact first lead back later
      · rintro ⟨split, top, first⟩
        cases before with
        | nil =>
          obtain ⟨rfl, _⟩ := List.cons.inj split
          exact absurd ⟨top, rfl⟩ here
        | cons d front =>
          obtain ⟨rfl, later⟩ := List.cons.inj split
          refine ⟨(front, after), ih.mpr ⟨later, top, ?_⟩, rfl⟩
          rintro lead back rfl
          exact first (c :: lead) back rfl

/-- The part of a key that is left when the blanks after it are cut off. -/
theorem cutAt?_of_blanks {key blanks s after : Text}
    (blank : ∀ c ∈ blanks, isBlank c = true) (found : cutAt? ':' s = some (key ++ blanks, after))
    (rest : Text) :
    cutAt? ':' (key ++ ':' :: rest) = some (key, rest) ∧
      key.foldl Quoting.step .outside = .outside := by
  obtain ⟨_, top, first⟩ := (cutAtFrom_iff rfl).mp found
  rw [List.foldl_append] at top
  have proper : (key.foldl Nesting.step .start).quoting.Proper :=
    Nesting.proper_foldl_step (n := .start) trivial key
  have keyTop := Nesting.isTop_of_foldl_blanks proper blank top
  refine ⟨(cutAtFrom_iff rfl).mpr ⟨rfl, keyTop, ?_⟩, ?_⟩
  · rintro front back rfl
    exact first front (back ++ blanks) (by simp)
  · have quoting := Nesting.quoting_foldl_step .start key
    rw [(Nesting.isTop_iff.mp keyTop).2] at quoting
    exact quoting.symm

/-! ## Texts free of comments -/

/-- A text without a comment has none when it is trimmed. -/
theorem dropComment_trim {s : Text} (free : dropComment s = s) : dropComment (trim s) = trim s := by
  obtain ⟨lead, tail, split, blankLead, _⟩ := exists_eq_trim_between s
  rw [split, List.append_assoc] at free
  have afterLead := (dropCommentFrom_append_eq_self.mp free).2
  rw [Quoting.foldl_step_blanks blankLead] at afterLead
  exact (dropCommentFrom_append_eq_self.mp afterLead).1

/-- A text led by characters outside of literals is free of comments if what it leads is. -/
theorem dropComment_append {front back : Text} (freeFront : dropComment front = front)
    (outside : front.foldl Quoting.step .outside = .outside) (freeBack : dropComment back = back) :
    dropComment (front ++ back) = front ++ back := by
  refine dropCommentFrom_append_eq_self.mpr ⟨freeFront, ?_⟩
  rw [outside]
  exact freeBack

/-- A text without a comment has none in its parts, if the first leaves no string open. -/
theorem dropComment_of_append {front back : Text}
    (outside : front.foldl Quoting.step .outside = .outside)
    (free : dropComment (front ++ back) = front ++ back) :
    dropComment front = front ∧ dropComment back = back := by
  have parts := dropCommentFrom_append_eq_self.mp free
  rw [outside] at parts
  exact parts

end Text

/-! ## Writing nodes -/

namespace Node

/-- What stands after the colon of a pair. -/
def afterColon : Option Text → Text
  | none => []
  | some text => ' ' :: text

/-- A key with its value, if it has one. -/
def pairText (key : Text) (value : Option Text) : Text := key ++ ':' :: afterColon value

/-- A pair, or a value that stands alone. -/
def partsText : Option Text × Option Text → Text
  | (some key, value) => pairText key value
  | (none, value) => value.getD []

/-- The text of a shape, a key and a value. -/
def shapeText : Shape × Option Text × Option Text → Text
  | (.comment, _, value) => commentMark :: ' ' :: value.getD []
  | (.item, none, none) => ['-']
  | (.item, parts) => '-' :: ' ' :: partsText parts
  | (_, parts) => partsText parts

/-- A node as a line of a source, without its indentation. -/
def written (node : Node) : Text := shapeText (node.shape, node.key, node.value)

/-! ## Pairs -/

/-- A value written after a colon is read back. -/
theorem nonBlank?_afterColon (s : Text) :
    Text.nonBlank? (afterColon (Text.nonBlank? s)) = Text.nonBlank? s := by
  cases cut : Text.nonBlank? s with
  | none => rfl
  | some text =>
    obtain ⟨rfl, some⟩ := Text.nonBlank?_eq_some_iff.mp cut
    have lead : ∀ c ∈ [' '], Text.isBlank c = true := List.forall_mem_singleton.mpr (by decide)
    exact Text.nonBlank?_eq_some_iff.mpr ⟨Text.trim_append lead (Text.trimmed_trim s), some⟩

section

variable {s before after : Text}

/-- Between a key and its colon stand only blanks, since there are none before the key. -/
theorem exists_blanks_after_key (trimmed : Text.Trimmed s)
    (found : Text.cutAt? ':' s = some (before, after)) :
    ∃ blanks, before = Text.trim before ++ blanks ∧ ∀ c ∈ blanks, Text.isBlank c = true := by
  have front : ∀ c ∈ before.head?, Text.isBlank c = false := by
    intro c head
    refine trimmed.front c ?_
    rw [Text.eq_append_of_cutAt found, List.head?_append, Option.mem_def.mp head]
    rfl
  rw [Text.trim, Text.trimStart_eq_self front]
  exact Text.exists_eq_trimEnd_append before

/-- A pair written out is cut at its colon again. -/
theorem cutAt?_pairText (trimmed : Text.Trimmed s)
    (found : Text.cutAt? ':' s = some (before, after)) (value : Option Text) :
    Text.cutAt? ':' (pairText (Text.trim before) value) =
        some (Text.trim before, afterColon value) ∧
      (Text.trim before).foldl Quoting.step .outside = .outside := by
  obtain ⟨blanks, split, blank⟩ := exists_blanks_after_key trimmed found
  rw [split] at found
  exact Text.cutAt?_of_blanks blank found _

/-- A pair written out starts as the line it was read from. -/
theorem head?_pairText (trimmed : Text.Trimmed s)
    (found : Text.cutAt? ':' s = some (before, after)) (value : Option Text) :
    (pairText (Text.trim before) value).head? = s.head? := by
  obtain ⟨blanks, split, blank⟩ := exists_blanks_after_key trimmed found
  have whole := Text.eq_append_of_cutAt found
  rw [split] at whole
  cases key : Text.trim before with
  | cons c rest =>
    rw [whole, key]
    rfl
  | nil =>
    -- The blanks would start the text, so there are none.
    rw [key, List.nil_append] at whole
    cases blanks with
    | nil =>
      rw [whole]
      rfl
    | cons c rest =>
      have ink := trimmed.front c (by rw [whole]; rfl)
      rw [blank c List.mem_cons_self] at ink
      cases ink

/-- A pair written out has no blanks around it. -/
theorem trimmed_pairText (trimmed : Text.Trimmed s)
    (found : Text.cutAt? ':' s = some (before, after)) :
    Text.Trimmed (pairText (Text.trim before) (Text.nonBlank? after)) := by
  refine ⟨?_, ?_⟩
  · rw [head?_pairText trimmed found]
    exact trimmed.front
  · intro c last
    rw [pairText, List.getLast?_append, List.getLast?_cons] at last
    cases value : Text.nonBlank? after with
    | none =>
      rw [value] at last
      obtain rfl := Option.some.inj last
      decide
    | some text =>
      obtain ⟨rfl, some⟩ := Text.nonBlank?_eq_some_iff.mp value
      have isLast := List.getLast?_eq_some_getLast some
      rw [value, afterColon, List.getLast?_cons, isLast] at last
      obtain rfl := Option.some.inj last
      exact (Text.trimmed_trim after).back _ isLast

/-- A pair written out has no comment. -/
theorem dropComment_pairText (trimmed : Text.Trimmed s) (free : Text.dropComment s = s)
    (found : Text.cutAt? ':' s = some (before, after)) :
    Text.dropComment (pairText (Text.trim before) (Text.nonBlank? after)) =
      pairText (Text.trim before) (Text.nonBlank? after) := by
  obtain ⟨blanks, split, blank⟩ := exists_blanks_after_key trimmed found
  have outside := (cutAt?_pairText trimmed found none).2
  have whole := Text.eq_append_of_cutAt found
  -- The text is the key, blanks, the colon and the rest, each read from outside of literals.
  have parts : s = Text.trim before ++ ((blanks ++ [':']) ++ after) := by
    calc
      s = before ++ ':' :: after := whole
      _ = (Text.trim before ++ blanks) ++ ':' :: after := by rw [← split]
      _ = Text.trim before ++ ((blanks ++ [':']) ++ after) := by simp
  rw [parts] at free
  obtain ⟨freeKey, freeRest⟩ := Text.dropComment_of_append outside free
  have colon : (blanks ++ [':']).foldl Quoting.step .outside = .outside := by
    rw [List.foldl_append, Quoting.foldl_step_blanks blank]
    rfl
  have freeAfter := (Text.dropComment_of_append colon freeRest).2
  refine Text.dropComment_append freeKey outside ?_
  cases value : Text.nonBlank? after with
  | none => rfl
  | some text =>
    obtain ⟨rfl, _⟩ := Text.nonBlank?_eq_some_iff.mp value
    have lead : Text.dropComment [':', ' '] = [':', ' '] := rfl
    exact Text.dropComment_append lead rfl (Text.dropComment_trim freeAfter)

/-- A pair written out has the characters of its line, and perhaps one blank more. -/
theorem mem_pairText (found : Text.cutAt? ':' s = some (before, after)) :
    ∀ c ∈ pairText (Text.trim before) (Text.nonBlank? after), c ∈ s ∨ c = ' ' := by
  intro c mem
  rw [Text.eq_append_of_cutAt found]
  rcases List.mem_append.mp mem with inKey | later
  · exact .inl (List.mem_append_left _ (Text.mem_of_mem_trim inKey))
  rcases List.mem_cons.mp later with rfl | inValue
  · exact .inl (List.mem_append_right _ List.mem_cons_self)
  cases value : Text.nonBlank? after with
  | none =>
    rw [value] at inValue
    cases inValue
  | some text =>
    obtain ⟨rfl, _⟩ := Text.nonBlank?_eq_some_iff.mp value
    rw [value] at inValue
    rcases List.mem_cons.mp inValue with rfl | inText
    · exact .inr rfl
    · exact .inl (List.mem_append_right _ (List.mem_cons_of_mem _ (Text.mem_of_mem_trim inText)))

end

/-! ## Lines -/

/-- A text that says what a line says: a way to cut texts does not tell them apart. -/
structure Respelled {α : Type} (cut : Text → α) (content text : Text) : Prop where
  same : cut text = cut content
  trimmed : Text.Trimmed text
  commentFree : Text.dropComment text = text
  head : text.head? = content.head?
  chars : ∀ c ∈ text, c ∈ content ∨ c = ' '

section

variable {content : Text} (trimmed : Text.Trimmed content)
  (free : Text.dropComment content = content)

include trimmed free

theorem respelled_refl {α : Type} (cut : Text → α) : Respelled cut content content :=
  ⟨rfl, trimmed, free, rfl, fun _ mem => .inl mem⟩

/-- A line with a colon says the same as its pair written out, for any way to cut texts that does
not tell them apart. -/
theorem respelled_pairText {α : Type} {cut : Text → α} {before after : Text}
    (found : Text.cutAt? ':' content = some (before, after))
    (same : cut (pairText (Text.trim before) (Text.nonBlank? after)) = cut content) :
    Respelled cut content (pairText (Text.trim before) (Text.nonBlank? after)) :=
  ⟨same, trimmed_pairText trimmed found, dropComment_pairText trimmed free found,
    head?_pairText trimmed found _, mem_pairText found⟩

/-- What is written after the dash of an item is cut as the item is. -/
theorem respelled_splitItem (filled : content ≠ []) :
    Respelled splitItem content (partsText (splitItem content)) := by
  have whole := Text.nonBlank?_of_trimmed trimmed filled
  cases found : Text.cutAt? ':' content with
  | none =>
    have parts : splitItem content = (none, some content) := by rw [splitItem, found, whole]
    rw [parts]
    exact respelled_refl trimmed free splitItem
  | some cut =>
    obtain ⟨before, after⟩ := cut
    by_cases named : (Text.isIdentifier (Text.trim before) || isEnclosed (Text.trim before)) = true
    · have parts : splitItem content = (some (Text.trim before), Text.nonBlank? after) := by
        rw [splitItem, found]
        exact if_pos named
      rw [parts]
      refine respelled_pairText trimmed free found ?_
      rw [parts, splitItem, (cutAt?_pairText trimmed found _).1]
      simp only [Text.trim_eq_self (Text.trimmed_trim before), nonBlank?_afterColon, named, if_true]
    · have parts : splitItem content = (none, some content) := by
        rw [splitItem, found, ← whole]
        exact if_neg named
      rw [parts]
      exact respelled_refl trimmed free splitItem

end

/-- A line that is no item of a list is cut at its colon, if it has one. -/
theorem splitContent_of_not_item {content : Text} (notDash : content ≠ ['-'])
    (notItem : ∀ item, content ≠ '-' :: ' ' :: item) :
    splitContent content =
      match Text.cutAt? ':' content with
      | some (before, after) => (.keyed, some (Text.trim before), Text.nonBlank? after)
      | none => (.bare, none, Text.nonBlank? content) := by
  unfold splitContent
  split
  next => exact absurd rfl notDash
  next item => exact absurd rfl (notItem item)
  next => rfl

/-- What is written for a pair is no list item if the line was none. -/
theorem pairText_ne_item {content before after : Text} (trimmed : Text.Trimmed content)
    (notItem : ∀ item, content ≠ '-' :: ' ' :: item)
    (found : Text.cutAt? ':' content = some (before, after)) (value : Option Text) (item : Text) :
    pairText (Text.trim before) value ≠ '-' :: ' ' :: item := by
  intro same
  obtain ⟨blanks, split, _⟩ := exists_blanks_after_key trimmed found
  have whole := Text.eq_append_of_cutAt found
  rw [split] at whole
  cases key : Text.trim before with
  | nil =>
    rw [key] at same
    exact absurd (List.cons.inj same).1 (by decide)
  | cons first rest =>
    rw [key] at same whole
    obtain ⟨rfl, afterDash⟩ := List.cons.inj same
    cases rest with
    | nil => exact absurd (List.cons.inj afterDash).1 (by decide)
    | cons second rest =>
      obtain ⟨rfl, _⟩ := List.cons.inj afterDash
      exact notItem _ whole

theorem pairText_ne_dash (key : Text) (value : Option Text) : pairText key value ≠ ['-'] := by
  intro same
  have colon : ':' ∈ pairText key value := List.mem_append_right _ List.mem_cons_self
  rw [same] at colon
  exact absurd colon (by decide)

/-- A list item whose text is written anew. -/
theorem Respelled.item {item text : Text} (trimmed : Text.Trimmed ('-' :: ' ' :: item))
    (filled : Text.trim item ≠ []) (respelled : Respelled splitItem (Text.trim item) text) :
    Respelled splitContent ('-' :: ' ' :: item) ('-' :: ' ' :: text) := by
  have filledText : text ≠ [] := by
    rintro rfl
    exact filled (List.head?_eq_none_iff.mp respelled.head.symm)
  refine ⟨?_, ⟨trimmed.front, ?_⟩, ?_, rfl, ?_⟩
  · rw [splitContent, splitContent, Text.trim_eq_self respelled.trimmed, respelled.same]
  · intro c last
    have isLast := List.getLast?_eq_some_getLast filledText
    rw [List.getLast?_cons, List.getLast?_cons, isLast] at last
    obtain rfl := Option.some.inj last
    exact respelled.trimmed.back _ isLast
  · have lead : Text.dropComment ['-', ' '] = ['-', ' '] := rfl
    exact Text.dropComment_append lead rfl respelled.commentFree
  · intro c mem
    rcases List.mem_cons.mp mem with rfl | mem
    · exact .inl List.mem_cons_self
    rcases List.mem_cons.mp mem with rfl | mem
    · exact .inr rfl
    rcases respelled.chars c mem with inItem | blank
    · exact .inl (List.mem_cons_of_mem _ (List.mem_cons_of_mem _ (Text.mem_of_mem_trim inItem)))
    · exact .inr blank

/-- What is written for a line of code says what the line says. -/
theorem respelled_written {content : Text} (trimmed : Text.Trimmed content) (filled : content ≠ [])
    (free : Text.dropComment content = content) :
    Respelled splitContent content (shapeText (splitContent content)) := by
  by_cases dash : content = ['-']
  · subst dash
    exact respelled_refl trimmed free splitContent
  by_cases isItem : ∃ item, content = '-' :: ' ' :: item
  · obtain ⟨item, rfl⟩ := isItem
    have filledItem : Text.trim item ≠ [] := by
      have back : ∀ c ∈ (' ' :: item).getLast?, Text.isBlank c = false := by
        intro c last
        exact trimmed.back c (by rw [List.getLast?_cons, Option.mem_def.mp last]; rfl)
      exact Text.trim_ne_nil (s := ' ' :: item) (List.cons_ne_nil _ _) back
    have freeItem : Text.dropComment item = item := by
      have lead : ['-', ' '].foldl Quoting.step .outside = .outside := rfl
      exact (Text.dropComment_of_append lead free).2
    have respelled := respelled_splitItem (Text.trimmed_trim item)
      (Text.dropComment_trim freeItem) filledItem
    have parts : shapeText (splitContent ('-' :: ' ' :: item)) =
        '-' :: ' ' :: partsText (splitItem (Text.trim item)) := by
      rw [splitContent, shapeText]
      intro nothing
      rw [nothing] at respelled
      exact filledItem (List.head?_eq_none_iff.mp respelled.head.symm)
    rw [parts]
    exact respelled.item trimmed filledItem
  · have notItem : ∀ item, content ≠ '-' :: ' ' :: item := fun item same => isItem ⟨item, same⟩
    have parts := splitContent_of_not_item dash notItem
    cases found : Text.cutAt? ':' content with
    | none =>
      rw [parts, found, Text.nonBlank?_of_trimmed trimmed filled]
      exact respelled_refl trimmed free splitContent
    | some cut =>
      obtain ⟨before, after⟩ := cut
      have same : splitContent (pairText (Text.trim before) (Text.nonBlank? after)) =
          splitContent content := by
        rw [parts, splitContent_of_not_item (pairText_ne_dash _ _)
          (pairText_ne_item trimmed notItem found _), (cutAt?_pairText trimmed found _).1, found]
        simp only [Text.trim_eq_self (Text.trimmed_trim before), nonBlank?_afterColon]
      rw [parts, found]
      exact respelled_pairText trimmed free found same

end Node
end Outline
