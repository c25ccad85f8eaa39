import Outline.Proofs.Checked.Basic
import Outline.Proofs.Names
import Outline.Text.Place

/-!
# Searching a text by byte offsets

The searches in a line, as a program with byte offsets makes them: a scan gives the offset of what
it finds, and the text is cut there. Every offset found is the size of what was scanned before it,
which makes the cuts defined; the separators take one byte, so the text may be cut again behind
them. Each search has no trap and finds what the search of the library finds.
-/

set_option autoImplicit false

namespace Outline.Checked

open Text

/-! ## Cutting at a character -/

/-- The scan behind `cutAt`, which starts at an offset. -/
def offsetOfFrom (target : Char) : (offset : Nat) → Nesting → Text → Option Nat
  | _, _, [] => none
  | offset, n, c :: rest =>
    if n.isTop && c == target && !isQuote c && !isOpening c && !isClosing c then some offset
    else offsetOfFrom target (offset + c.utf8Size) (n.step c) rest

/-- The text is cut at the first top-level occurrence of a character. -/
def cutAt (target : Char) (s : Text) : Checked (Option (Text × Text)) :=
  match offsetOfFrom target 0 .start s with
  | none => .ok none
  | some offset => do
    let before ← front s offset
    let after ← back s (offset + 1)
    return some (before, after)

/-- The search finds a character at the byte offset where the cut is. -/
theorem offsetOfFrom_eq (target : Char) (offset : Nat) (n : Nesting) (s : Text) :
    offsetOfFrom target offset n s =
      (cutAtFrom target n s).map fun parts => offset + byteSize parts.1 := by
  induction s generalizing offset n with
  | nil => rfl
  | cons c rest ih =>
    rw [offsetOfFrom, cutAtFrom]
    split
    · rfl
    · rw [ih, Option.map_map]
      congr 1
      funext parts
      simp [Nat.add_assoc]

/-- A text is cut at a character of one byte, and both sides start and end on character boundaries.
-/
theorem cutAt_eq {target : Char} (single : target.utf8Size = 1) (s : Text) :
    cutAt target s = .ok (cutAt? target s) := by
  rw [cutAt, offsetOfFrom_eq, cutAt?]
  cases found : cutAtFrom target .start s with
  | none => rfl
  | some parts =>
    have whole := eq_append_of_cutAtFrom found
    have beyond : s = (parts.1 ++ [target]) ++ parts.2 := by
      rw [whole, List.append_assoc, List.singleton_append]
    change (do
      let before ← front s (0 + byteSize parts.1)
      let after ← back s (0 + byteSize parts.1 + 1)
      return some (before, after)) = _
    rw [front_append whole (Nat.zero_add _), back_append beyond (by simp [single])]
    rfl

/-! ## Splitting at commas -/

theorem cutAt_comma (s : Text) : cutAt ',' s = .ok (cutAt? ',' s) := cutAt_eq rfl s

/-- The trimmed parts between the top-level commas; a blank last part does not count. -/
def splitCommas (s : Text) : Checked (List Text) :=
  match _parts : cutAt ',' s with
  | .error trap => .error trap
  | .ok none => .ok (nonBlank? s).toList
  | .ok (some (before, after)) => do
    let parts ← splitCommas after
    return trim before :: parts
termination_by s.length
decreasing_by exact length_after_lt_of_cutAt (Except.ok.inj ((cutAt_comma s).symm.trans _parts))

/-- A list is taken apart without a trap. -/
theorem splitCommas_eq (s : Text) : splitCommas s = .ok (Text.splitCommas s) := by
  fun_induction splitCommas s with
  | case1 s trap parts => cases (cutAt_comma s).symm.trans parts
  | case2 s parts =>
    have found := Except.ok.inj ((cutAt_comma s).symm.trans parts)
    rw [Text.splitCommas, found]
  | case3 s before after parts ih =>
    have found := Except.ok.inj ((cutAt_comma s).symm.trans parts)
    rw [Text.splitCommas, found, ih]
    rfl

/-! ## Finding a word -/

/-- The offset of the first occurrence of a word in a text that starts at an offset. -/
def find? (word : Text) : (offset : Nat) → Text → Option Nat
  | offset, s =>
    if (after? word s).isSome then some offset
    else
      match s with
      | [] => none
      | c :: rest => find? word (offset + c.utf8Size) rest

/-- Where the word does not stand, the search goes on. -/
theorem cutAtOccurrenceFrom_absent {word rest : Text} {c : Char}
    (absent : ¬(after? word (c :: rest)).isSome) (accept : Text → Text → Bool) (before : Text) :
    cutAtOccurrenceFrom word accept 0 before (c :: rest) =
      cutAtOccurrenceFrom word accept 0 (c :: before) rest := by
  rw [cutAtOccurrenceFrom, if_pos rfl, Option.not_isSome_iff_eq_none.mp absent]

/-- Without the word there is no occurrence. -/
theorem cutAtOccurrenceFrom_of_find?_eq_none {word s : Text} {offset : Nat}
    (missing : find? word offset s = none) (accept : Text → Text → Bool) (before : Text) :
    cutAtOccurrenceFrom word accept 0 before s = none := by
  fun_induction find? word offset s generalizing before with
  | case1 => cases missing
  | case2 offset absent =>
    rw [cutAtOccurrenceFrom, if_pos rfl, Option.not_isSome_iff_eq_none.mp absent]
  | case3 offset c rest absent ih => rw [cutAtOccurrenceFrom_absent absent, ih missing]

/-- The search comes to the first occurrence of the word. -/
theorem exists_of_find? {word s : Text} {offset position : Nat}
    (found : find? word offset s = some position) :
    ∃ lead after, s = lead ++ (word ++ after) ∧ position = offset + byteSize lead ∧
      ∀ (accept : Text → Text → Bool) (before : Text), cutAtOccurrenceFrom word accept 0 before s =
        cutAtOccurrenceFrom word accept 0 (lead.reverse ++ before) (word ++ after) := by
  fun_induction find? word offset s with
  | case1 offset s here =>
    obtain ⟨after, here⟩ := Option.isSome_iff_exists.mp here
    obtain rfl := after?_eq_some_iff.mp here
    exact ⟨[], after, rfl, (Option.some.inj found).symm, fun accept before => rfl⟩
  | case2 => cases found
  | case3 offset c rest absent ih =>
    obtain ⟨lead, after, whole, size, same⟩ := ih found
    refine ⟨c :: lead, after, congrArg (c :: ·) whole, ?_, ?_⟩
    · rw [size, byteSize_cons, Nat.add_assoc]
    · intro accept before
      rw [cutAtOccurrenceFrom_absent absent, same, List.reverse_cons, List.append_assoc,
        List.singleton_append]

/-- The characters still to be skipped are passed over. -/
theorem cutAtOccurrenceFrom_skip {word : Text} {accept : Text → Text → Bool} (passed after : Text)
    (before : Text) :
    cutAtOccurrenceFrom word accept passed.length before (passed ++ after) =
      cutAtOccurrenceFrom word accept 0 (passed.reverse ++ before) after := by
  induction passed generalizing before with
  | nil => rfl
  | cons c passed ih =>
    rw [List.length_cons, List.cons_append, cutAtOccurrenceFrom, if_neg (Nat.succ_ne_zero _)]
    change cutAtOccurrenceFrom word accept passed.length (c :: before) (passed ++ after) = _
    rw [ih, List.reverse_cons, List.append_assoc, List.singleton_append]

/-- A refused occurrence is passed over as a whole. -/
theorem cutAtOccurrenceFrom_here {word : Text} (filled : word ≠ []) (accept : Text → Text → Bool)
    (before after : Text) :
    cutAtOccurrenceFrom word accept 0 before (word ++ after) =
      if accept before after then some (before.reverse, after)
      else cutAtOccurrenceFrom word accept 0 (word.reverse ++ before) after := by
  have here : after? word (word ++ after) = some after := after?_eq_some_iff.mpr rfl
  cases word with
  | nil => exact absurd rfl filled
  | cons c word =>
    rw [List.cons_append] at here ⊢
    rw [cutAtOccurrenceFrom, if_pos rfl, here]
    change (if accept before after then some (before.reverse, after)
      else cutAtOccurrenceFrom (c :: word) accept word.length (c :: before) (word ++ after)) = _
    rw [cutAtOccurrenceFrom_skip, List.reverse_cons, List.append_assoc, List.singleton_append]

/-- The next occurrence of a word from an offset on: its offset, and what stands before and after
it. -/
def nextOccurrence (word s : Text) (start : Nat) : Checked (Option (Nat × Text × Text)) := do
  let rest ← back s start
  match find? word start rest with
  | none => return none
  | some position =>
    let before ← front s position
    let after ← back s (position + byteSize word)
    return some (position, before, after)

/-- What stands before and after the word starts and ends on character boundaries. -/
theorem nextOccurrence_of_find? {word s before lead after : Text}
    (found : find? word (byteSize before) (lead ++ (word ++ after)) =
      some (byteSize before + byteSize lead))
    (whole : s = before ++ (lead ++ (word ++ after))) :
    nextOccurrence word s (byteSize before) =
      .ok (some (byteSize (before ++ lead), before ++ lead, after)) := by
  have upTo : s = (before ++ lead) ++ (word ++ after) := by rw [whole, List.append_assoc]
  have beyond : s = (before ++ lead ++ word) ++ after := by
    rw [upTo, List.append_assoc (before ++ lead)]
  rw [nextOccurrence, back_append whole rfl, ok_bind, found, byteSize_append]
  dsimp only
  rw [front_append upTo (byteSize_append _ _).symm, ok_bind,
    back_append beyond (by simp [Nat.add_assoc]), ok_bind]
  rfl

/-- The next occurrence lies in the text and behind the offset. -/
theorem bounds_of_nextOccurrence {word s before after : Text} {start position : Nat}
    (ok : nextOccurrence word s start = .ok (some (position, before, after))) :
    start ≤ position ∧ position + byteSize word ≤ byteSize s := by
  obtain ⟨rest, sliced, ok⟩ := bind_eq_ok.mp ok
  split at ok
  next => cases ok
  next position' found =>
    obtain ⟨before', upTo, ok⟩ := bind_eq_ok.mp ok
    obtain ⟨after', beyond, ok⟩ := bind_eq_ok.mp ok
    obtain ⟨rfl, -⟩ := Prod.mk.inj (Option.some.inj (Except.ok.inj ok))
    obtain ⟨lead, _, _, rfl, _⟩ := exists_of_find? found
    obtain ⟨passed, whole, size⟩ := exists_of_back_eq_ok beyond
    rw [whole, byteSize_append]
    omega

/-- The offset of the first occurrence of a word, from an offset on, that `accept` approves. Like
the search of the library, it goes on behind an occurrence that is refused, and `accept` sees the
text before, last character first, and the text after. -/
def search (word : Text) (filled : word ≠ []) (accept : Text → Text → Bool) (s : Text)
    (start : Nat) : Checked (Option Nat) :=
  match _next : nextOccurrence word s start with
  | .error trap => .error trap
  | .ok none => .ok none
  | .ok (some (position, before, after)) =>
    if accept before.reverse after then .ok (some position)
    else search word filled accept s (position + byteSize word)
termination_by byteSize s - start
decreasing_by
  have := bounds_of_nextOccurrence _next
  have := byteSize_pos filled
  omega

/-- The search over byte offsets finds the occurrence that is found from left to right. -/
theorem search_eq {word : Text} (filled : word ≠ []) (accept : Text → Text → Bool)
    {s before rest : Text} (whole : s = before ++ rest) :
    search word filled accept s (byteSize before) =
      .ok ((cutAtOccurrenceFrom word accept 0 before.reverse rest).map
        fun parts => byteSize parts.1) := by
  -- Each round starts behind the occurrence that the round before it has refused.
  induction size : rest.length using Nat.strongRecOn generalizing before rest with
  | _ count ih =>
    cases found : find? word (byteSize before) rest with
    | none =>
      have next : nextOccurrence word s (byteSize before) = .ok none := by
        rw [nextOccurrence, back_append whole rfl, ok_bind, found]
        rfl
      rw [search, next, cutAtOccurrenceFrom_of_find?_eq_none found]
      rfl
    | some position =>
      obtain ⟨lead, after, rfl, rfl, same⟩ := exists_of_find? found
      rw [search, nextOccurrence_of_find? found whole, same, ← List.reverse_append,
        cutAtOccurrenceFrom_here filled]
      dsimp only
      split
      · rw [Option.map_some, List.reverse_reverse]
      · have shorter : after.length < count := by
          have := List.length_pos_iff.mpr filled
          simp only [← size, List.length_append]
          omega
        have beyond : s = (before ++ lead ++ word) ++ after := by simp [whole]
        have reversed : word.reverse ++ (before ++ lead).reverse =
            (before ++ lead ++ word).reverse := List.reverse_append.symm
        rw [← byteSize_append, ih _ shorter beyond rfl, reversed]

/-! ## Finding a keyword -/

/-- The text is cut around the first occurrence of a keyword as a whole word at top level. -/
def cutAtKeyword (keyword : Text) (filled : keyword ≠ []) (s : Text) :
    Checked (Option (Text × Text)) := do
  let isKeyword (before after : Text) : Bool :=
    isWordBoundary before && isWordBoundary after && endsAtTop before.reverse
  match ← search keyword filled isKeyword s 0 with
  | none => return none
  | some position =>
    let before ← front s position
    let after ← back s (position + byteSize keyword)
    return some (before, after)

theorem cutAtKeyword_eq (keyword : Text) (filled : keyword ≠ []) (s : Text) :
    cutAtKeyword keyword filled s = .ok (cutAtKeyword? keyword s) := by
  rw [cutAtKeyword, cutAtKeyword?, cutAtOccurrence?]
  have searched := search_eq filled
    (fun before after => isWordBoundary before && isWordBoundary after && endsAtTop before.reverse)
    (List.nil_append s).symm
  rw [byteSize_nil, List.reverse_nil] at searched
  rw [searched, ok_bind]
  split
  next missing => rw [Option.map_eq_none_iff.mp missing]; rfl
  next position found =>
    obtain ⟨⟨before, after⟩, cut, rfl⟩ := Option.map_eq_some_iff.mp found
    have whole : s = before ++ (keyword ++ after) := eq_append_of_cutAtOccurrenceFrom cut
    have beyond : s = (before ++ keyword) ++ after := by rw [whole, List.append_assoc]
    have upTo := back_append beyond (byteSize_append before keyword).symm
    rw [front_append whole rfl, ok_bind, upTo, ok_bind, cut]
    rfl

/-! ## The word at the front -/

/-- The offset at which the word at the front of a text ends, for a text that starts at an
offset. -/
def wordEnd : (offset : Nat) → Text → Nat
  | offset, [] => offset
  | offset, c :: rest => if isWordChar c then wordEnd (offset + c.utf8Size) rest else offset

/-- The word a text starts with, possibly empty. -/
def leadingWord (s : Text) : Checked Text := front s (wordEnd 0 s)

/-- A word ends where its characters do. -/
theorem wordEnd_eq (offset : Nat) (s : Text) :
    wordEnd offset s = offset + byteSize (Text.leadingWord s) := by
  induction s generalizing offset with
  | nil => rfl
  | cons c rest ih =>
    rw [wordEnd, Text.leadingWord, List.takeWhile_cons]
    split
    · rw [ih, byteSize_cons, Text.leadingWord, Nat.add_assoc]
    · rfl

theorem leadingWord_eq (s : Text) : leadingWord s = .ok (Text.leadingWord s) := by
  rw [leadingWord, wordEnd_eq, Nat.zero_add]
  exact front_append (List.takeWhile_append_dropWhile).symm rfl

/-! ## Places -/

/-- The offset of the bracket that brings the depth to zero, string literals skipped, in a text
that starts at an offset. -/
def offsetOfClosing? (opener closer : Char) : (offset depth : Nat) → Quoting → Text → Option Nat
  | _, _, _, [] => none
  | offset, depth, quoting, c :: rest =>
    let further (depth : Nat) (quoting : Quoting) :=
      offsetOfClosing? opener closer (offset + c.utf8Size) depth quoting rest
    if quoting ≠ .outside ∨ isQuote c then further depth (quoting.step c)
    else if c = opener then further (depth + 1) .outside
    else if c = closer then
      if depth ≤ 1 then some offset else further (depth - 1) .outside
    else further depth .outside

/-- The closing bracket is found at the byte offset where the cut is. -/
theorem offsetOfClosing?_eq (opener closer : Char) (offset depth : Nat) (quoting : Quoting)
    (s : Text) :
    offsetOfClosing? opener closer offset depth quoting s =
      (cutAtClosing? opener closer depth quoting s).map
        fun parts => offset + byteSize parts.1 := by
  induction s generalizing offset depth quoting with
  | nil => rfl
  | cons c rest ih =>
    have further (depth : Nat) (quoting : Quoting) :
        offsetOfClosing? opener closer (offset + c.utf8Size) depth quoting rest =
          ((cutAtClosing? opener closer depth quoting rest).map
            fun parts => (c :: parts.1, parts.2)).map fun parts => offset + byteSize parts.1 := by
      rw [ih, Option.map_map]
      congr 1
      funext parts
      simp [Nat.add_assoc]
    simp only [offsetOfClosing?, cutAtClosing?, further]
    split
    · rfl
    · split
      · rfl
      · split
        · split <;> rfl
        · rfl

/-- The offset of the bracket that closes the one at an offset. -/
def matchingBracket (opener closer : Char) (s : Text) (start : Nat) : Checked (Option Nat) := do
  let rest ← back s start
  return offsetOfClosing? opener closer start 0 .outside rest

/-- The bracket that closes another is found behind it. -/
theorem matchingBracket_eq {opener : Char} (closer : Char) (single : opener.utf8Size = 1)
    (unquoted : isQuote opener = false) {s before rest : Text}
    (whole : s = before ++ opener :: rest) :
    matchingBracket opener closer s (byteSize before) =
      .ok ((cutAtClosing? opener closer 1 .outside rest).map
        fun parts => byteSize before + 1 + byteSize parts.1) := by
  have opened : offsetOfClosing? opener closer (byteSize before) 0 .outside (opener :: rest) =
      offsetOfClosing? opener closer (byteSize before + opener.utf8Size) 1 .outside rest := by
    rw [offsetOfClosing?, if_neg (by simp [unquoted]), if_pos rfl]
  rw [matchingBracket, back_append whole rfl, ok_bind, opened, offsetOfClosing?_eq, single]
  rfl

/-- The cut is at the closing bracket. -/
theorem eq_append_of_cutAtClosing {opener closer : Char} {depth : Nat} {quoting : Quoting}
    {s index after : Text}
    (found : cutAtClosing? opener closer depth quoting s = some (index, after)) :
    s = index ++ closer :: after := by
  induction s generalizing depth quoting index with
  | nil => cases found
  | cons c rest ih =>
    have further {depth : Nat} {quoting : Quoting}
        (found : (cutAtClosing? opener closer depth quoting rest).map
          (fun parts => (c :: parts.1, parts.2)) = some (index, after)) :
        c :: rest = index ++ closer :: after := by
      obtain ⟨⟨index', after'⟩, inner, same⟩ := Option.map_eq_some_iff.mp found
      obtain ⟨rfl, rfl⟩ := Prod.mk.inj same
      exact congrArg (c :: ·) (ih inner)
    rw [cutAtClosing?] at found
    split at found
    · exact further found
    · split at found
      · exact further found
      · split at found
        next closes =>
          split at found
          · obtain ⟨rfl, rfl⟩ := Prod.mk.inj (Option.some.inj found)
            rw [closes, List.nil_append]
          · exact further found
        next => exact further found

/-- The characters of a text that starts at an offset, each with its own offset. -/
def indexFrom : (offset : Nat) → Text → List (Nat × Char)
  | _, [] => []
  | offset, c :: rest => (offset, c) :: indexFrom (offset + c.utf8Size) rest

/-- The iterator over characters and their offsets skips a word. -/
theorem dropWhile_word_indexFrom (offset : Nat) (s : Text) :
    (indexFrom offset s).dropWhile (fun next => isWordChar next.2) =
      indexFrom (offset + byteSize (Text.leadingWord s)) (afterWord s) := by
  induction s generalizing offset with
  | nil => rfl
  | cons c rest ih =>
    rw [indexFrom, List.dropWhile_cons, Text.leadingWord, afterWord, List.takeWhile_cons,
      List.dropWhile_cons]
    split
    · rw [ih, byteSize_cons, ← Nat.add_assoc]
      rfl
    · rfl

/-- The iterator skips an index and the bracket that closes it. -/
theorem dropWhile_upTo_indexFrom {closer : Char} (single : closer.utf8Size = 1) (offset : Nat)
    (index after : Text) :
    (indexFrom offset (index ++ closer :: after)).dropWhile
        (fun next => next.1 ≤ offset + byteSize index) =
      indexFrom (offset + byteSize index + 1) after := by
  induction index generalizing offset with
  | nil =>
    cases after with
    | nil => simp [indexFrom]
    | cons c after =>
      have beyond : ¬offset + 1 ≤ offset := by omega
      simp [indexFrom, single, beyond]
  | cons c index ih =>
    have size : offset + byteSize (c :: index) = offset + c.utf8Size + byteSize index := by
      rw [byteSize_cons, Nat.add_assoc]
    rw [List.cons_append, indexFrom, List.dropWhile_cons, if_pos (by simp), size, ih]

/-- Whether the characters from an offset on are a run of attributes and subscripts. -/
def isTrailers (s : Text) (rest : List (Nat × Char)) : Checked Bool :=
  match rest with
  | [] => .ok true
  | (_, '.') :: (_, c) :: rest =>
    if isWordStart c then isTrailers s (rest.dropWhile fun next => isWordChar next.2)
    else .ok false
  | (start, '[') :: rest => do
    match ← matchingBracket '[' ']' s start with
    | none => return false
    | some stop =>
      if start + 1 < stop then isTrailers s (rest.dropWhile fun next => next.1 ≤ stop)
      else return false
  | _ => .ok false
termination_by rest.length
decreasing_by
  all_goals
    simp only [List.length_cons]
    apply Nat.lt_of_le_of_lt (List.dropWhile_sublist _).length_le
    omega

/-- Attributes and subscripts are read from the iterator as from the text. -/
theorem isTrailers_eq {s before rest : Text} (whole : s = before ++ rest) :
    isTrailers s (indexFrom (byteSize before) rest) = .ok (Text.isTrailers rest) := by
  fun_induction Text.isTrailers rest generalizing before with
  | case1 => rw [indexFrom, isTrailers]
  | case2 c rest ih =>
    have further : s = (before ++ '.' :: c :: Text.leadingWord rest) ++ afterWord rest := by
      rw [whole, List.append_assoc, List.cons_append, List.cons_append, Text.leadingWord, afterWord,
        List.takeWhile_append_dropWhile]
    have size : byteSize before + '.'.utf8Size + c.utf8Size + byteSize (Text.leadingWord rest) =
        byteSize (before ++ '.' :: c :: Text.leadingWord rest) := by
      simp [Nat.add_assoc]
    rw [indexFrom, indexFrom, isTrailers]
    rw [dropWhile_word_indexFrom, size, ih further]
    cases isWordStart c <;> rfl
  | case3 rest index after found ih =>
    have parts := eq_append_of_cutAtClosing found
    have further : s = (before ++ '[' :: index ++ [']']) ++ after := by simp [whole, parts]
    have size : byteSize before + 1 + byteSize index + 1 =
        byteSize (before ++ '[' :: index ++ [']']) := by
      simp only [byteSize_append, byteSize_cons, byteSize_nil]
      have : '['.utf8Size = 1 := rfl
      have : ']'.utf8Size = 1 := rfl
      omega
    rw [indexFrom, isTrailers, matchingBracket_eq ']' rfl rfl whole, found, ok_bind, parts]
    change (if byteSize before + 1 < byteSize before + 1 + byteSize index then
      isTrailers s ((indexFrom (byteSize before + 1) (index ++ ']' :: after)).dropWhile _)
      else pure false) = _
    rw [dropWhile_upTo_indexFrom rfl, size, ih further]
    cases index with
    | nil => simp; rfl
    | cons c index =>
      have := byteSize_pos (List.cons_ne_nil c index)
      rw [if_pos (by omega)]
      rfl
  | case4 rest found =>
    rw [indexFrom, isTrailers, matchingBracket_eq ']' rfl rfl whole, found]
    rfl
  | case5 rest blank dotted bracketed =>
    cases rest with
    | nil => exact absurd rfl blank
    | cons c rest =>
      rw [indexFrom, isTrailers]
      · exact List.cons_ne_nil _ _
      · intro start next d more same
        obtain ⟨here, more⟩ := List.cons.inj same
        obtain ⟨-, rfl⟩ := Prod.mk.inj here
        cases rest with
        | nil => cases more
        | cons e rest => exact dotted e rest rfl
      · intro start more same
        obtain ⟨-, rfl⟩ := Prod.mk.inj (List.cons.inj same).1
        exact bracketed rest rfl

/-- Whether a text is a single place. -/
def isSinglePlace (s : Text) : Checked Bool :=
  match indexFrom 0 s with
  | [] => .ok false
  | (_, c) :: rest =>
    if isWordStart c then isTrailers s (rest.dropWhile fun next => isWordChar next.2)
    else .ok false

theorem isSinglePlace_eq (s : Text) : isSinglePlace s = .ok (Text.isSinglePlace s) := by
  cases s with
  | nil => rfl
  | cons c rest =>
    have whole : c :: rest = (c :: Text.leadingWord rest) ++ afterWord rest := by
      rw [List.cons_append, Text.leadingWord, afterWord, List.takeWhile_append_dropWhile]
    have size : 0 + c.utf8Size + byteSize (Text.leadingWord rest) =
        byteSize (c :: Text.leadingWord rest) := by
      rw [byteSize_cons, Nat.zero_add]
    rw [isSinglePlace, indexFrom]
    dsimp only
    rw [dropWhile_word_indexFrom, size, isTrailers_eq whole, Text.isSinglePlace]
    cases isWordStart c <;> rfl

/-- Whether each part is a single place. -/
def areSinglePlaces : List Text → Checked Bool
  | [] => .ok true
  | part :: parts => do
    let here ← isSinglePlace part
    if here then areSinglePlaces parts else return false

theorem areSinglePlaces_eq (parts : List Text) :
    areSinglePlaces parts = .ok (parts.all Text.isSinglePlace) := by
  induction parts with
  | nil => rfl
  | cons part parts ih =>
    rw [areSinglePlaces, isSinglePlace_eq, ok_bind, ih, List.all_cons]
    cases Text.isSinglePlace part <;> rfl

/-- Whether a text is one place, or several separated by commas. -/
def isPlace (s : Text) : Checked Bool := do
  let parts ← splitCommas s
  if parts.isEmpty then return false else areSinglePlaces parts

/-- Whether a text is a place to assign to is found out without a trap. -/
theorem isPlace_eq (s : Text) : isPlace s = .ok (Text.isPlace s) := by
  rw [isPlace, splitCommas_eq, ok_bind, areSinglePlaces_eq, Text.isPlace]
  cases (Text.splitCommas s).isEmpty <;> rfl

end Outline.Checked
