import Outline.Proofs.Marks
import Outline.Proofs.Verbatim

/-!
# Members in a text

`Text.TakesMember` finds the names whose members a text takes, without a look at what the text was
made from. An expression gathers every one of them that is no word of the language
(`Expression.told_ofText`), with one exception: where a string is joined to a name by a dot
(`Text.JoinsString`), the mark `f` put before its quote looks like a member.
-/

set_option autoImplicit false

namespace Outline

namespace Text

variable {s t before name after : Text} {c : Char} {parts : List Part}

/-- Outside the strings of a text stands a name that is a word of its own and follows no dot, blanks
not counted. Right behind it come a dot and the start of a word. -/
structure TakesMember (s before name after : Text) : Prop where
  split : s = before ++ (name ++ '.' :: after)
  outside : ∃ parts, Parted (name ++ '.' :: after) before parts
  identifier : isIdentifier name = true
  alone : before.getLast?.any isWordChar = false
  undotted : endsInDot before = false
  member : after.head?.any isWordStart = true

/-- The mark `f` and the quote of a string. -/
def StartsMark (s : Text) : Prop := ∃ quote rest, s = 'f' :: quote :: rest ∧ isQuote quote = true

theorem StartsMark.append (starts : StartsMark s) (t : Text) : StartsMark (s ++ t) := by
  obtain ⟨quote, rest, rfl, isQuote⟩ := starts
  exact ⟨quote, rest ++ t, rfl, isQuote⟩

/-- A name stands in a text, and right behind it a dot and the quote of a string without a mark. -/
def JoinsString (s name : Text) : Prop :=
  ∃ front quote rest, s = front ++ (name ++ '.' :: quote :: rest) ∧ isQuote quote = true

/-- A string that is joined to a name stays so behind other text. -/
theorem JoinsString.append_left (joins : JoinsString t name) (s : Text) :
    JoinsString (s ++ t) name := by
  obtain ⟨front, quote, rest, rfl, isQuote⟩ := joins
  exact ⟨s ++ front, quote, rest, by rw [List.append_assoc], isQuote⟩

/-- A string that is joined to a name stays so before other text. -/
theorem JoinsString.append_right (joins : JoinsString s name) (t : Text) :
    JoinsString (s ++ t) name := by
  obtain ⟨front, quote, rest, rfl, isQuote⟩ := joins
  exact ⟨front, quote, rest ++ t, by simp, isQuote⟩

/-- The names to which a text joins strings all have a property. -/
def JoinsOnly (joined : Text → Prop) (s : Text) : Prop := ∀ name, JoinsString s name → joined name

/-- A text whose strings end and that takes members of good names only, the marks put before strings
that are joined to a name apart. -/
structure Told (good joined : Text → Prop) (s : Text) : Prop where
  ends : ∃ parts, Parted [] s parts
  tells : ∀ {before name after : Text}, TakesMember s before name after →
    good name ∨ (joined name ∧ StartsMark after)

/-- A weaker property of names is told as well. -/
theorem Told.mono {good better joined : Text → Prop} (told : Told good joined s)
    (le : ∀ name, good name → better name) : Told better joined s :=
  ⟨told.ends, fun takes => (told.tells takes).imp_left (le _)⟩

/-! ## Where a member is taken -/

theorem isQuote_eq_false_of_isWordChar (word : isWordChar c = true) : isQuote c = false := by
  cases quote : isQuote c with
  | false => rfl
  | true =>
    rw [isWordChar_eq_false_of_isQuote quote] at word
    cases word

theorem mem_name_dot (identifier : isIdentifier name = true) (mem : c ∈ name ++ ['.']) :
    c = '.' ∨ isWordChar c = true := by
  rcases List.mem_append.mp mem with inName | dot
  · exact .inr (isWordChar_of_mem_identifier identifier c inName)
  · exact .inl (List.mem_singleton.mp dot)

/-- There is no quote in an identifier and the dot behind it. -/
theorem noQuote_name_dot (identifier : isIdentifier name = true) :
    ∀ c ∈ name ++ ['.'], isQuote c = false := by
  intro c mem
  rcases mem_name_dot identifier mem with rfl | word
  · rfl
  · exact isQuote_eq_false_of_isWordChar word

/-- An identifier starts as a word does. -/
theorem exists_head_of_isIdentifier (identifier : isIdentifier name = true) :
    ∃ first rest, name = first :: rest ∧ isWordStart first = true := by
  cases name with
  | nil => cases identifier
  | cons first rest =>
    rw [isIdentifier, Bool.and_eq_true] at identifier
    exact ⟨first, rest, rfl, identifier.1⟩

/-- A property that the last character of a text does not have is not had by the last one of its
end. -/
theorem any_getLast?_of_append {p : Char → Bool} (none : (s ++ t).getLast?.any p = false) :
    t.getLast?.any p = false := by
  cases last : t.getLast? with
  | none => rfl
  | some c =>
    rw [List.getLast?_append, last] at none
    exact none

theorem endsInDot_of_append (none : endsInDot (s ++ t) = false) : endsInDot t = false := by
  by_contra dotted
  rw [Bool.not_eq_false, endsInDot, trimEnd, List.getLast?_reverse, beq_iff_eq] at dotted
  rw [endsInDot, trimEnd, List.getLast?_reverse, List.reverse_append, List.dropWhile_append] at none
  split at none
  next empty =>
    rw [List.isEmpty_iff.mp empty] at dotted
    cases dotted
  next =>
    rw [List.head?_append, dotted] at none
    cases none

/-- What a text takes a member of behind some front, it takes a member of without it. -/
theorem TakesMember.drop (takes : TakesMember (s ++ t) (s ++ before) name after)
    (outside : Parted (name ++ '.' :: after) before parts) : TakesMember t before name after where
  split := by
    have split := takes.split
    rw [List.append_assoc] at split
    exact List.append_cancel_left split
  outside := ⟨parts, outside⟩
  identifier := takes.identifier
  alone := any_getLast?_of_append takes.alone
  undotted := endsInDot_of_append takes.undotted
  member := takes.member

/-- In two texts one after the other, a member is taken in the second, or in the first, or the name
and its dot are cut. -/
theorem TakesMember.cases_append (takes : TakesMember (s ++ t) before name after)
    (cut : Parted t s parts) :
    (∃ back, before = s ++ back ∧ TakesMember t back name after) ∨
      (∃ inside, after = inside ++ t ∧ TakesMember s before name inside) ∨
      ∃ tail more, tail ≠ [] ∧ s = before ++ tail ∧ name ++ ['.'] = tail ++ more ∧
        t = more ++ after := by
  obtain ⟨front, outside⟩ := takes.outside
  have split : s ++ t = before ++ (name ++ '.' :: after) := takes.split
  rcases cut.compare outside split with ⟨tail, rest, rfl, _, _⟩ | ⟨back, rest, rfl, _, outside⟩
  · rw [List.append_assoc] at split
    have same : tail ++ t = (name ++ ['.']) ++ after := by
      simpa using List.append_cancel_left split
    rcases List.append_eq_append_iff.mp same with ⟨more, whole, behind⟩ | ⟨inside, whole, behind⟩
    · by_cases filled : tail = []
      · subst filled
        have here : TakesMember (before ++ t) (before ++ []) name after := by simpa using takes
        exact .inl ⟨[], by simp, here.drop .nil⟩
      · exact .inr (.inr ⟨tail, more, filled, rfl, whole, behind⟩)
    · by_cases filled : inside = []
      · subst filled
        refine .inr (.inr ⟨tail, [], ?_, rfl, by simp [whole], behind.symm⟩)
        simp [whole]
      · refine .inr (.inl ⟨inside, behind, ?_, ⟨front, ?_⟩, takes.identifier, takes.alone,
          takes.undotted, ?_⟩)
        · rw [whole, List.append_assoc, List.singleton_append]
        · obtain ⟨first, rest, rfl, _⟩ := exists_head_of_isIdentifier takes.identifier
          exact outside.of_head fun _ _ starts => starts
        · have member := takes.member
          rwa [behind, List.head?_append_of_ne_nil _ filled] at member
  · exact .inl ⟨back, rfl, takes.drop outside⟩

/-- A word starts behind the dot of a member. -/
theorem TakesMember.exists_head (takes : TakesMember s before name after) :
    ∃ first rest, after = first :: rest ∧ isWordStart first = true := by
  have member := takes.member
  cases after with
  | nil => cases member
  | cons first rest => exact ⟨first, rest, rfl, member⟩

/-- The dot behind the name is outside strings too. -/
theorem TakesMember.mem_parts (takes : TakesMember s before name after) (cut : Parted t s parts) :
    .char '.' ∈ parts := by
  obtain ⟨front, outside⟩ := takes.outside
  obtain ⟨first, rest, rfl, _⟩ := exists_head_of_isIdentifier takes.identifier
  have far : Parted ((first :: rest ++ ['.']) ++ (after ++ t)) before front :=
    outside.of_head fun _ _ starts => starts
  have known := far.append (parted_of_noQuote (noQuote_name_dot takes.identifier) (after ++ t))
  have same : s ++ t = before ++ (first :: rest ++ ['.']) ++ (after ++ t) := by
    simp [takes.split]
  rcases cut.compare known same with ⟨more, tail, _, rfl, _⟩ | ⟨more, tail, short, _, _⟩
  · simp
  · have length := congrArg List.length short
    obtain ⟨c, more, rfl, _⟩ := takes.exists_head
    rw [takes.split] at length
    simp only [List.length_append, List.length_cons, List.length_nil] at length
    omega

/-! ## Texts one after the other -/

/-- Whether a character neither starts a string nor takes a member. -/
def isQuiet (c : Char) : Bool := !isQuote c && c != '.'

/-- Whether a character is quiet and no part of a name. -/
def isSeparator (c : Char) : Bool := isQuiet c && !isWordChar c

theorem isQuiet_of_isWordChar (word : isWordChar c = true) : isQuiet c = true := by
  rw [isQuiet, isQuote_eq_false_of_isWordChar word, bne_iff_ne.mpr (ne_dot_of_isWordChar word)]
  rfl

theorem noQuote_of_quiet (quiet : s.all isQuiet = true) : ∀ c ∈ s, isQuote c = false := by
  intro c mem
  have own := List.all_eq_true.mp quiet c mem
  rw [isQuiet, Bool.and_eq_true, Bool.not_eq_true'] at own
  exact own.1

theorem dot_not_mem_of_quiet (quiet : s.all isQuiet = true) : '.' ∉ s := fun mem =>
  absurd (List.all_eq_true.mp quiet '.' mem) (by decide)

/-- Without a dot no member is taken. -/
theorem Told.of_noDot {good joined : Text → Prop} (ends : ∃ parts, Parted [] s parts)
    (noDot : '.' ∉ s) : Told good joined s where
  ends := ends
  tells takes := by
    refine absurd ?_ noDot
    simp [takes.split]

/-- A text of quiet characters takes no member. -/
theorem told_of_quiet {good joined : Text → Prop} (quiet : s.all isQuiet = true) :
    Told good joined s :=
  .of_noDot ⟨_, parted_of_noQuote (noQuote_of_quiet quiet) []⟩ (dot_not_mem_of_quiet quiet)

/-- Where a name and its dot are cut, neither side is a separator. -/
theorem TakesMember.not_separated {tail more : Text} (takes : TakesMember s before name after)
    (filled : tail ≠ []) (whole : name ++ ['.'] = tail ++ more) :
    (∃ c, tail.getLast? = some c ∧ isSeparator c = false) ∧
      ∃ d, (more ++ after).head? = some d ∧ isSeparator d = false := by
  have word (c : Char) (mem : c ∈ name ++ ['.']) : isSeparator c = false := by
    rcases mem_name_dot takes.identifier mem with rfl | word
    · rfl
    · simp [isSeparator, word]
  constructor
  · refine ⟨_, List.getLast?_eq_some_getLast filled, word _ ?_⟩
    rw [whole]
    exact List.mem_append_left _ (List.getLast_mem filled)
  · cases more with
    | nil =>
      obtain ⟨d, rest, rfl, starts⟩ := takes.exists_head
      exact ⟨d, rfl, by simp [isSeparator, isWordChar_of_isWordStart starts]⟩
    | cons d more =>
      refine ⟨d, rfl, word d ?_⟩
      rw [whole]
      simp

/-- Two texts side by side take the members that each takes, if a separator stands between them. -/
theorem Told.append {good joined : Text → Prop} (front : Told good joined s)
    (back : Told good joined t) (cut : Parted t s parts)
    (apart : ∀ c d, s.getLast? = some c → t.head? = some d →
      isSeparator c = true ∨ isSeparator d = true) : Told good joined (s ++ t) where
  ends := by
    obtain ⟨others, cut'⟩ := back.ends
    rw [← List.append_nil t] at cut
    exact ⟨_, cut.append cut'⟩
  tells := by
    intro before name after takes
    rcases takes.cases_append cut with
      ⟨rest, _, inBack⟩ | ⟨inside, rfl, inFront⟩ | ⟨tail, more, filled, rfl, whole, rfl⟩
    · exact back.tells inBack
    · exact (front.tells inFront).imp_right fun marked => ⟨marked.1, marked.2.append t⟩
    · exfalso
      obtain ⟨⟨c, last, inTail⟩, d, starts, inHead⟩ := takes.not_separated filled whole
      have lastOf : (before ++ tail).getLast? = some c := by rw [List.getLast?_append, last]; rfl
      rcases apart c d lastOf starts with separates | separates
      · rw [inTail] at separates
        cases separates
      · rw [inHead] at separates
        cases separates

/-- A quiet text that ends in a separator takes no part in a member. -/
theorem TakesMember.exists_back (quiet : s.all isQuiet = true)
    (last : s.getLast?.all isSeparator = true) (takes : TakesMember (s ++ t) before name after) :
    ∃ back, before = s ++ back ∧ TakesMember t back name after := by
  have cut := parted_of_noQuote (noQuote_of_quiet quiet) t
  rcases takes.cases_append cut with
    found | ⟨inside, _, inFront⟩ | ⟨tail, more, filled, rfl, whole, _⟩
  · exact found
  · refine absurd ?_ (dot_not_mem_of_quiet quiet)
    simp [inFront.split]
  · obtain ⟨⟨c, ends, inTail⟩, _⟩ := takes.not_separated filled whole
    rw [List.getLast?_append, ends] at last
    rw [show isSeparator c = true from last] at inTail
    cases inTail

section

variable {good joined : Text → Prop}

/-- So they do if the second starts with a separator. -/
theorem Told.append_of_head (front : Told good joined s) (back : Told good joined t)
    (head : t.head?.all isSeparator = true) : Told good joined (s ++ t) := by
  obtain ⟨parts, cut⟩ := front.ends
  have far : Parted t s parts := cut.of_head fun quote isQuote starts => by
    rw [starts, Option.all_some, isSeparator, isQuiet, isQuote] at head
    cases head
  refine front.append back far fun c d _ starts => .inr ?_
  rw [starts] at head
  exact head

/-- So they do if the first is quiet and ends with a separator. -/
theorem told_append_of_last (quiet : s.all isQuiet = true)
    (last : s.getLast?.all isSeparator = true) (back : Told good joined t) :
    Told good joined (s ++ t) := by
  have far := parted_of_noQuote (noQuote_of_quiet quiet) t
  refine (told_of_quiet quiet).append back far fun c d ends _ => .inl ?_
  rw [ends] at last
  exact last

end

end Text

/-! ## Values -/

namespace RangeSugar

open Grammar

theorem dot_not_mem_integer {s digits rest : Text} (read : readInteger? s = some (digits, rest)) :
    '.' ∉ digits := by
  have other {c : Char} (digit : c.isDigit = true) : '.' ≠ c := by
    rintro rfl
    cases digit
  have run (tail : Text) : '.' ∉ tail.takeWhile Char.isDigit := fun mem =>
    other (List.all_eq_true.mp List.all_takeWhile _ mem) rfl
  unfold readInteger? at read
  split at read
  next c tail =>
    split at read
    next digit =>
      obtain ⟨rfl, rfl⟩ := Prod.mk.inj (Option.some.inj read)
      simp [run tail, other digit]
    next => cases read
  next c tail _ =>
    split at read
    next digit =>
      obtain ⟨rfl, rfl⟩ := Prod.mk.inj (Option.some.inj read)
      simp [run tail, other digit]
    next => cases read
  next => cases read

/-- A component of range sugar has no dot in it: dots separate components. -/
theorem dot_not_mem_component [Letters] {s component rest : Text}
    (read : readComponent? s = some (component, rest)) : '.' ∉ component := by
  unfold readComponent? at read
  split at read
  next tail =>
    cases integer : readInteger? tail with
    | some pair =>
      rw [integer] at read
      obtain rfl := Option.some.inj read
      exact dot_not_mem_integer integer
    | none =>
      rw [integer] at read
      intro mem
      exact ne_of_isNameChar (isNameChar_of_readName? read _ mem) (by decide) (by decide) rfl
  next => cases read

/-- None of the components of range sugar has a dot in it. -/
theorem dot_not_mem_components [Letters] (s : Text) :
    ∀ component ∈ (readComponents s).1, '.' ∉ component := by
  fun_induction readComponents s with
  | case1 s component rest read components after more ih =>
    rw [more] at ih
    exact List.forall_mem_cons.mpr ⟨dot_not_mem_component read, ih⟩
  | case2 =>
    intro component mem
    cases mem

/-- The bounds of a range have no dot in them. -/
theorem dot_not_mem_bounds [Letters] {sugar : Text} {found : List Text}
    (ok : bounds sugar = .ok found) : ∀ bound ∈ found, '.' ∉ bound := by
  rw [bounds] at ok
  split at ok
  next => cases ok
  next components read =>
    split at ok
    · obtain rfl := Except.ok.inj ok
      obtain ⟨rest, _, more⟩ := Option.bind_eq_some_iff.mp read
      change (if _ then none else some (readComponents rest).1) = some components at more
      split at more
      · cases more
      · obtain rfl := Option.some.inj more
        exact dot_not_mem_components rest
    · cases ok

end RangeSugar

namespace Expression

open Text

variable {inner : Text → Except Fault Expression} {e : Expression} {afterDot : Bool}
  {opened : List Char}

/-- A respelled identifier is an identifier. -/
theorem isIdentifier_respell {name : Text} (identifier : isIdentifier name = true) :
    isIdentifier (respell name) = true := by
  rw [respell]
  split
  · decide
  split
  · decide
  split
  · decide
  · exact identifier

/-- A word that is respelled becomes a word of the language. -/
theorem respell_cases (name : Text) :
    respell name = name ∨ keywords.contains (respell name) = true := by
  rw [respell]
  split
  · exact .inr (by decide)
  split
  · exact .inr (by decide)
  split
  · exact .inr (by decide)
  · exact .inl rfl

/-- The call that range sugar stands for takes no member. -/
theorem dot_not_mem_ofRange [Letters] {sugar : Text} (ok : ofRange sugar = .ok e) :
    '.' ∉ e.text := by
  rw [ofRange] at ok
  split at ok
  next => cases ok
  next bounds found =>
    obtain rfl := Except.ok.inj ok
    have noDot := RangeSugar.dot_not_mem_bounds found
    intro mem
    rcases List.mem_append.mp mem with inFront | last
    · rcases List.mem_append.mp inFront with word | inBounds
      · exact absurd word (by decide)
      · rcases mem_intercalate inBounds with between | ⟨bound, inFound, inBound⟩
        · exact absurd between (by decide)
        · exact noDot bound inFound inBound
    · exact absurd last (by decide)

theorem getLast?_ofRange [Letters] {sugar : Text} (ok : ofRange sugar = .ok e) :
    e.text.getLast? = some ')' := by
  rw [ofRange] at ok
  split at ok
  next => cases ok
  next =>
    obtain rfl := Except.ok.inj ok
    exact List.getLast?_concat

/-! ### What an expression starts and ends with -/

/-- Range sugar starts as a word does. -/
theorem isWordStart_of_range {c : Char} {rest sugar : Text}
    (read : (Token.read afterDot c rest).1 = .range sugar) : isWordStart c = true := by
  rw [Token.read] at read
  split at read
  · rw [Token.readLiteral] at read
    split at read <;> cases read
  split at read
  next start => exact start
  next => split at read <;> cases read

/-- An expression starts as its token does, or both start with a word, or the mark of a string was
put in front of its quote. -/
theorem starts_ofToken [Letters] {c : Char} {rest : Text}
    (ok : ofToken inner (Token.read afterDot c rest).1 = .ok e) :
    (∃ d tail, e.text = d :: tail ∧ (d = c ∨ isWordStart d = true ∧ isWordStart c = true)) ∨
      (isQuote c = true ∧ StartsMark e.text) := by
  have whole := Token.text_read afterDot c rest
  have reads := Token.reads_read afterDot c rest
  have formed := Token.formed_read afterDot c rest
  have filled := Token.text_read_ne_nil afterDot c rest
  have ranges := fun sugar => @isWordStart_of_range afterDot c rest sugar
  generalize (Token.read afterDot c rest).1 = token at *
  generalize (Token.read afterDot c rest).2 = after at *
  obtain ⟨first, tail, written⟩ := List.exists_cons_of_ne_nil filled
  rw [written] at whole
  obtain ⟨rfl, _⟩ := List.cons.inj whole
  cases token with
  | word name member =>
    obtain rfl := Except.ok.inj ok
    obtain ⟨d, more, front, start⟩ := exists_head_of_isIdentifier (isIdentifier_respell reads.2.1)
    obtain ⟨d', more', front', start'⟩ := exists_head_of_isIdentifier reads.2.1
    obtain ⟨rfl, _⟩ := List.cons.inj (front'.symm.trans written)
    rw [text_ofWord]
    exact .inl ⟨d, more, front, .inr ⟨start, start'⟩⟩
  | range sugar =>
    rw [ofToken, ofRange] at ok
    split at ok
    next => cases ok
    next =>
      obtain rfl := Except.ok.inj ok
      exact .inl ⟨'r', _, rfl, .inr ⟨by decide, ranges sugar rfl⟩⟩
  | literal mark d body =>
    obtain ⟨quotes, delimiter⟩ := head_delimiter d
    rcases ofLiteral_cases ok with ⟨_, same⟩ | ⟨_, _, pieces, _, _, _, _, same⟩
    · exact .inl ⟨first, tail, same.trans written, .inl rfl⟩
    · rcases reads with rfl | ⟨identifier, _⟩
      · rw [Token.text, delimiter] at written
        obtain ⟨rfl, _⟩ := List.cons.inj written
        refine .inr ⟨formed.1, d.quote, quotes ++ Template.render pieces ++ d.text, ?_, formed.1⟩
        rw [same, delimiter]
        rfl
      · obtain ⟨m, ms, rfl, start⟩ := exists_head_of_isIdentifier identifier
        obtain ⟨rfl, _⟩ := List.cons.inj written
        obtain ⟨d', more, marked, start'⟩ :
            ∃ d' more, interpolatedMark (m :: ms) = d' :: more ∧ isWordStart d' = true := by
          rw [interpolatedMark]
          split
          · exact ⟨m, ms, rfl, start⟩
          · exact ⟨'f', m :: ms, rfl, by decide⟩
        rw [same, marked]
        exact .inl ⟨d', _, rfl, .inr ⟨start', start⟩⟩
  | unterminated rest => cases ok
  | _ =>
    obtain rfl := Except.ok.inj ok
    exact .inl ⟨first, tail, written, .inl rfl⟩

/-- A rewritten value starts with the character it started with, or with another that starts a word.
Otherwise it started with a string and now has the mark `f` before it. -/
theorem starts_ofTokens [Letters] {s tail : Text} {d : Char}
    (ok : ofTokens inner opened (Token.readAllFrom afterDot s) = .ok e)
    (front : e.text = d :: tail) :
    (∃ c, s.head? = some c ∧ (d = c ∨ isWordStart d = true ∧ isWordStart c = true)) ∨
      ((∃ c, s.head? = some c ∧ isQuote c = true) ∧ StartsMark e.text) := by
  cases s with
  | nil =>
    rw [Token.readAllFrom] at ok
    cases opened with
    | nil =>
      obtain rfl := Except.ok.inj ok
      cases front
    | cons => cases ok
  | cons c rest =>
    rw [Token.readAllFrom, ofTokens] at ok
    obtain ⟨_, _, ok⟩ := bind_eq_ok.mp ok
    obtain ⟨first, own, ok⟩ := bind_eq_ok.mp ok
    obtain ⟨more, _, ok⟩ := bind_eq_ok.mp ok
    obtain rfl := Except.ok.inj ok
    rcases starts_ofToken own with ⟨d', tail', written, same⟩ | ⟨quote, marked⟩
    · have whole : first.text ++ more.text = d :: tail := front
      rw [written] at whole
      obtain ⟨rfl, _⟩ := List.cons.inj whole
      exact .inl ⟨c, rfl, same⟩
    · exact .inr ⟨⟨c, rfl, quote⟩, marked.append more.text⟩

/-- What ends in an identifier does not end in a dot. -/
theorem endsInDot_append_identifier {name : Text} (identifier : isIdentifier name = true)
    (s : Text) : endsInDot (s ++ name) = false := by
  have filled : name ≠ [] := by
    rintro rfl
    cases identifier
  exact endsInDot_append_word (List.getLast?_eq_some_getLast filled)
    (isWordChar_of_mem_identifier identifier _ (List.getLast_mem filled)) s

/-- Whether the next token follows a dot can be seen at the text so far. -/
theorem endsInDot_ofToken [Letters] {token : Token} {prior after : Text}
    (ok : ofToken inner token = .ok e)
    (formed : token.Formed) (reads : token.Reads afterDot after) :
    endsInDot (prior ++ e.text) = token.leavesDot (endsInDot prior) := by
  cases token with
  | word name member =>
    obtain rfl := Except.ok.inj ok
    rw [text_ofWord]
    exact endsInDot_append_identifier (isIdentifier_respell reads.2.1) prior
  | number digits =>
    obtain rfl := Except.ok.inj ok
    obtain ⟨⟨c, rest, digit, rfl⟩, _⟩ := reads
    have last := List.getLast?_eq_some_getLast formed.1
    exact endsInDot_append_word last (Token.getLast?_cutNumber _ _ last) prior
  | range sugar => exact endsInDot_append_ink (getLast?_ofRange ok) (by decide) prior
  | literal mark d body =>
    have quote : d.quote = '"' ∨ d.quote = '\'' := by simpa [isQuote] using formed.1
    have ink : isBlank d.quote = false ∧ (d.quote == '.') = false := by
      rcases quote with same | same <;> rw [same] <;> decide
    exact (endsInDot_append_ink (getLast?_ofLiteral ok) ink.1 prior).trans ink.2
  | unterminated rest => cases ok
  | symbol c =>
    obtain rfl := Except.ok.inj ok
    rw [Token.leavesDot]
    split
    next blank => exact endsInDot_append_blank blank prior
    next ink => exact endsInDot_append_ink rfl (Bool.eq_false_iff.mpr ink) prior
  | _ =>
    obtain rfl := Except.ok.inj ok
    exact endsInDot_append_identifier reads.2.1 prior

/-! ### Where an expression takes a member -/

/-- A number is made of dots and characters of words. -/
theorem mem_cutNumber {s : Text} {c : Char} (mem : c ∈ (Token.cutNumber s).1) :
    c = '.' ∨ isWordChar c = true := by
  induction s with
  | nil => cases mem
  | cons first rest ih =>
    rw [Token.cutNumber] at mem
    split at mem
    next taken =>
      rcases List.mem_cons.mp mem with rfl | later
      · simp only [Bool.or_eq_true, Bool.and_eq_true, beq_iff_eq] at taken
        rcases taken with word | dot
        · exact .inr word
        · exact .inl dot.1
      · exact ih later
    next => cases mem

/-- The mark of a string with placeholders is a word if the mark before was. -/
theorem word_of_mem_interpolatedMark {mark : Text} {c : Char}
    (words : ∀ c ∈ mark, isWordChar c = true) (mem : c ∈ interpolatedMark mark) :
    isWordChar c = true := by
  rw [interpolatedMark] at mem
  split at mem
  · exact words c mem
  · rcases List.mem_cons.mp mem with rfl | later
    · decide
    · exact words c later

/-- A name that follows no dot starts with a token that is a word, unless the token is range sugar
or a string. -/
theorem cases_of_startsName [Letters] {token : Token} {prior before tail after : Text}
    (ok : ofToken inner token = .ok e) (reads : token.Reads afterDot after)
    (split : e.text = before ++ tail) (start : tail.head?.any isWordStart = true)
    (follows : endsInDot prior = afterDot)
    (alone : (prior ++ before).getLast?.any isWordChar = false)
    (undotted : endsInDot (prior ++ before) = false) :
    (before = [] ∧ ∃ name member, token = .word name member) ∨ (∃ sugar, token = .range sugar) ∨
      ∃ mark d body, token = .literal mark d body := by
  -- In a token made of characters of words, a name that is a word of its own starts at the front.
  have whole {s : Text} (words : ∀ c ∈ s, isWordChar c = true) (text : s = before ++ tail) :
      before = [] := by
    rcases before.eq_nil_or_concat with rfl | ⟨front, last, rfl⟩
    · rfl
    · have word := words last (by simp [text])
      simp [word] at alone
  cases token with
  | word name member =>
    obtain rfl := Except.ok.inj ok
    rw [text_ofWord] at split
    have words := isWordChar_of_mem_identifier (isIdentifier_respell reads.2.1)
    exact .inl ⟨whole words split, name, member, rfl⟩
  | number digits =>
    obtain rfl := Except.ok.inj ok
    obtain ⟨⟨c, rest, digit, rfl⟩, _⟩ := reads
    exfalso
    rcases before.eq_nil_or_concat with rfl | ⟨front, last, rfl⟩
    · have front : tail = c :: (Token.cutNumber rest).1 := by
        rw [List.nil_append] at split
        rw [← split, plain, Token.cutNumber, if_pos (by simp [isWordChar_of_isDigit digit])]
      rw [front] at start
      exact absurd start (by simp [isWordStart_eq_false_of_isDigit digit])
    · have mem : last ∈ (Token.cutNumber (c :: rest)).1 := by
        rw [show (Token.cutNumber (c :: rest)).1 = _ from split]
        simp
      rcases mem_cutNumber mem with rfl | word
      · rw [List.concat_eq_append, ← List.append_assoc,
          endsInDot_append_ink (t := ['.']) rfl (by decide)] at undotted
        cases undotted
      · simp [word] at alone
  | range sugar => exact .inr (.inl ⟨sugar, rfl⟩)
  | literal mark d body => exact .inr (.inr ⟨mark, d, body, rfl⟩)
  | unterminated rest => cases ok
  | symbol c =>
    obtain rfl := Except.ok.inj ok
    exfalso
    obtain ⟨_, noStart, _⟩ := reads
    rcases List.cons_eq_append_iff.mp split with ⟨rfl, rfl⟩ | ⟨rest, rfl, nothing⟩
    · rw [List.head?_cons, Option.any_some, noStart] at start
      cases start
    · rw [(List.append_eq_nil_iff.mp nothing.symm).2] at start
      cases start
  | _ =>
    obtain rfl := Except.ok.inj ok
    rw [whole (isWordChar_of_mem_identifier reads.2.1) split, List.append_nil, follows,
      reads.1] at undotted
    cases undotted

/-- A token by itself takes no member. -/
theorem not_takesMember_ofToken [Letters] {token : Token}
    {prior before name after inside more : Text}
    {parts : List Part} (ok : ofToken inner token = .ok e) (reads : token.Reads afterDot after)
    (rewritten : Rewritten inner token parts) (cut : Parted more e.text parts)
    (follows : endsInDot prior = afterDot)
    (alone : (prior ++ before).getLast?.any isWordChar = false)
    (undotted : endsInDot (prior ++ before) = false) :
    ¬ TakesMember e.text before name inside := by
  intro takes
  have start : (name ++ '.' :: inside).head?.any isWordStart = true := by
    obtain ⟨first, rest, rfl, start⟩ := exists_head_of_isIdentifier takes.identifier
    exact start
  have dot : '.' ∈ e.text := by simp [takes.split]
  rcases cases_of_startsName ok reads takes.split start follows alone undotted with
    ⟨_, word, member, rfl⟩ | ⟨sugar, rfl⟩ | ⟨mark, d, body, rfl⟩
  · obtain rfl := Except.ok.inj ok
    rw [text_ofWord] at dot
    exact ne_dot_of_isWordChar
      (isWordChar_of_mem_identifier (isIdentifier_respell reads.2.1) _ dot) rfl
  · exact dot_not_mem_ofRange ok dot
  · have words : ∀ c ∈ mark, isWordChar c = true := by
      rcases reads with rfl | ⟨identifier, _⟩
      · intro c mem
        cases mem
      · exact isWordChar_of_mem_identifier identifier
    have mem := takes.mem_parts cut
    cases rewritten with
    | plain noString => cases noString
    | kept =>
      simp only [List.mem_append, List.mem_map, Part.char.injEq, exists_eq_right,
        List.mem_singleton, reduceCtorEq, or_false] at mem
      exact ne_dot_of_isWordChar (words _ mem) rfl
    | filled =>
      simp only [List.mem_append, List.mem_map, Part.char.injEq, exists_eq_right,
        List.mem_singleton, reduceCtorEq, or_false] at mem
      exact ne_dot_of_isWordChar (word_of_mem_interpolatedMark words mem) rfl

/-- A name that starts in a token, with its dot behind the token, is a word. -/
theorem word_of_cut [Letters] {token : Token} {prior before name after tail more : Text}
    (ok : ofToken inner token = .ok e) (formed : token.Formed) (reads : token.Reads afterDot after)
    (identifier : isIdentifier name = true) (filled : tail ≠ []) (split : e.text = before ++ tail)
    (whole : name ++ ['.'] = tail ++ more) (follows : endsInDot prior = afterDot)
    (alone : (prior ++ before).getLast?.any isWordChar = false)
    (undotted : endsInDot (prior ++ before) = false) :
    ∃ word member, token = .word word member ∧ tail = respell word := by
  have start : tail.head?.any isWordStart = true := by
    obtain ⟨first, rest, rfl, start⟩ := exists_head_of_isIdentifier identifier
    obtain ⟨d, tail, rfl⟩ := List.exists_cons_of_ne_nil filled
    obtain ⟨rfl, _⟩ := List.cons.inj whole
    exact start
  have last (c : Char) (isLast : e.text.getLast? = some c) : c = '.' ∨ isWordChar c = true := by
    refine mem_name_dot identifier ?_
    rw [split, List.getLast?_append_of_ne_nil _ filled] at isLast
    rw [whole]
    exact List.mem_append_left _ (List.mem_of_getLast? isLast)
  rcases cases_of_startsName ok reads split start follows alone undotted with
    ⟨rfl, word, member, rfl⟩ | ⟨sugar, rfl⟩ | ⟨mark, d, body, rfl⟩
  · obtain rfl := Except.ok.inj ok
    rw [text_ofWord] at split
    exact ⟨word, member, rfl, split.symm⟩
  · rcases last ')' (getLast?_ofRange ok) with other | word
    · cases other
    · exact absurd word (by decide)
  · rcases last d.quote (getLast?_ofLiteral ok) with other | word
    · have isQuote := formed.1
      rw [other] at isQuote
      cases isQuote
    · rw [isWordChar_eq_false_of_isQuote formed.1] at word
      cases word

/-- A dot is a token of its own. -/
theorem read_dot (afterDot : Bool) (rest : Text) :
    Token.read afterDot '.' rest = (.symbol '.', rest) := by
  rw [Token.read, if_neg (by decide), if_neg (by decide), if_neg (by decide)]

/-- A dot and the start of a word in an expression come from a dot and the start of a word, or from
a dot and the quote of a string that gets its mark. -/
theorem followedByMember_of_ofTokens [Letters] {s after : Text}
    (ok : ofTokens inner opened (Token.readAllFrom afterDot s) = .ok e)
    (written : e.text = '.' :: after) (member : after.head?.any isWordStart = true) :
    Token.followedByMember s = true ∨
      ((∃ quote rest, s = '.' :: quote :: rest ∧ isQuote quote = true) ∧ StartsMark after) := by
  rcases starts_ofTokens ok written with ⟨c, head, same⟩ | ⟨_, quote, rest, marked, _⟩
  · have isDot : c = '.' := by
      rcases same with same | ⟨start, _⟩
      · exact same.symm
      · exact absurd start (by decide)
    subst isDot
    obtain ⟨rest, rfl⟩ := List.head?_eq_some_iff.mp head
    rw [Token.readAllFrom, read_dot, ofTokens] at ok
    obtain ⟨_, _, ok⟩ := bind_eq_ok.mp ok
    obtain ⟨first, own, ok⟩ := bind_eq_ok.mp ok
    obtain ⟨more, later, ok⟩ := bind_eq_ok.mp ok
    obtain rfl := Except.ok.inj ok
    obtain rfl := Except.ok.inj own
    obtain ⟨_, rfl⟩ := List.cons.inj written
    cases front : more.text with
    | nil =>
      rw [front] at member
      cases member
    | cons d tail =>
      rw [front] at member
      rcases starts_ofTokens later front with ⟨c, head, same⟩ | ⟨⟨quote, head, isQuote⟩, marked⟩
      · left
        obtain ⟨rest, rfl⟩ := List.head?_eq_some_iff.mp head
        rcases same with rfl | ⟨_, start⟩
        · exact member
        · exact start
      · obtain ⟨behind, rfl⟩ := List.head?_eq_some_iff.mp head
        rw [← front]
        exact .inr ⟨⟨quote, behind, rfl, isQuote⟩, marked⟩
  · rw [written] at marked
    cases marked

/-- A word in front of a dot and the start of a word is gathered, unless it is a word of the
language. -/
theorem mem_memberRoots_of_word {word : Text} {member : Bool} (isMember : member = true) :
    respell word ∈ (ofWord word member).memberRoots ∨
      keywords.contains (respell word) = true := by
  subst isMember
  rcases respell_cases word with same | keyword
  · cases keyword : keywords.contains (respell word) with
    | true => exact .inr rfl
    | false =>
      refine .inl (Lexeme.mem_memberRoots_ofWord.mpr ⟨same, ?_, rfl⟩)
      rw [same] at keyword ⊢
      rwa [same]
  · exact .inr keyword

/-- A name that starts with a word ends with it. -/
theorem name_eq_of_cut [Letters] {s word name after missing : Text}
    (ok : ofTokens inner opened (Token.readAllFrom afterDot s) = .ok e)
    (reads : isIdentifier word = true) (stops : s.head?.any isWordChar = false)
    (identifier : isIdentifier name = true) (whole : name ++ ['.'] = word ++ missing)
    (behind : e.text = missing ++ after) : name = word ∧ e.text = '.' :: after := by
  rcases missing.eq_nil_or_concat with rfl | ⟨front, last, rfl⟩
  · have dot : '.' ∈ word := by
      rw [List.append_nil] at whole
      simp [← whole]
    exact absurd rfl (ne_dot_of_isWordChar (isWordChar_of_mem_identifier reads _ dot))
  rw [List.concat_eq_append] at whole behind
  rw [← List.append_assoc] at whole
  obtain ⟨rfl, single⟩ := List.append_inj' whole rfl
  obtain rfl : '.' = last := List.singleton_inj.mp single
  cases front with
  | nil => exact ⟨List.append_nil word, behind⟩
  | cons d front =>
    exfalso
    have words := isWordChar_of_mem_identifier identifier
    have inName : isWordChar d = true := words d (by simp)
    rcases starts_ofTokens ok behind with ⟨c, head, same⟩ | ⟨_, quote, rest, marked, isQuote⟩
    · have word : isWordChar c = true := by
        rcases same with rfl | ⟨_, start⟩
        · exact inName
        · exact isWordChar_of_isWordStart start
      rw [head, Option.any_some, word] at stops
      cases stops
    · -- Behind the mark comes a quote, and neither the name nor its dot has one.
      have second : quote ∈ word ++ d :: front ++ ['.'] := by
        rw [marked] at behind
        obtain ⟨_, behind⟩ := List.cons.inj behind
        cases front with
        | nil =>
          obtain ⟨rfl, _⟩ := List.cons.inj behind
          simp
        | cons x front =>
          obtain ⟨rfl, _⟩ := List.cons.inj behind
          simp
      rw [noQuote_name_dot identifier quote second] at isQuote
      cases isQuote

/-- An expression behind some text gathers every name whose member is taken, unless a string is
joined to the name. -/
theorem tells_ofTokens [Letters] {s prior before name after : Text}
    (ok : ofTokens inner opened (Token.readAllFrom afterDot s) = .ok e)
    (takes : TakesMember e.text before name after) (follows : endsInDot prior = afterDot)
    (alone : (prior ++ before).getLast?.any isWordChar = false)
    (undotted : endsInDot (prior ++ before) = false) :
    (name ∈ e.memberRoots ∨ keywords.contains name = true) ∨
      (JoinsString s name ∧ StartsMark after) := by
  fun_induction Token.readAllFrom afterDot s generalizing opened e prior before with
  | case1 =>
    cases opened with
    | nil =>
      obtain rfl := Except.ok.inj ok
      have split := takes.split
      cases before <;> cases name <;> cases split
    | cons => cases ok
  | case2 afterDot c rest ih =>
    have source := Token.text_read afterDot c rest
    have reads := Token.reads_read afterDot c rest
    have formed := Token.formed_read afterDot c rest
    rw [ofTokens] at ok
    obtain ⟨_, _, ok⟩ := bind_eq_ok.mp ok
    obtain ⟨first, own, ok⟩ := bind_eq_ok.mp ok
    obtain ⟨more, later, ok⟩ := bind_eq_ok.mp ok
    obtain rfl := Except.ok.inj ok
    obtain ⟨parts, rewritten, cut⟩ := parted_ofToken formed own (fun _ _ _ => Token.encloses_read)
      (openAfter?_ofTokens later).2
    -- The member use stands behind the first token, within it, or across its end. Within a token
    -- there is none, and across its end the token is the word itself.
    rcases takes.cases_append cut with
      ⟨back, rfl, inMore⟩ | ⟨inside, _, inFirst⟩ | ⟨tail, missing, filled, split, whole, behind⟩
    · rw [← List.append_assoc] at alone undotted
      have follows' : endsInDot (prior ++ first.text) = _ := endsInDot_ofToken own formed reads
      rw [follows] at follows'
      refine (ih later inMore follows' alone undotted).imp (.imp_left fun gathered => ?_)
        fun joined => ⟨?_, joined.2⟩
      · exact NameSet.mem_union.mpr (.inr gathered)
      · rw [← source]
        exact joined.1.append_left _
    · exact absurd inFirst
        (not_takesMember_ofToken own reads rewritten cut follows alone undotted)
    · obtain ⟨word, member, isWord, rfl⟩ := word_of_cut own formed reads takes.identifier filled
        split whole follows alone undotted
      rw [isWord] at source reads own
      obtain rfl := Except.ok.inj own
      obtain ⟨_, identifier, ends, isMember⟩ := reads
      obtain ⟨rfl, written⟩ := name_eq_of_cut later (isIdentifier_respell identifier) ends.1
        takes.identifier whole behind
      rcases followedByMember_of_ofTokens later written takes.member with
        follows' | ⟨⟨quote, behind, joins, isQuote⟩, marked⟩
      · left
        refine (mem_memberRoots_of_word (isMember.trans follows')).imp_left fun gathered => ?_
        exact NameSet.mem_union.mpr (.inl gathered)
      · rcases respell_cases word with same | keyword
        · rw [same]
          refine .inr ⟨⟨[], quote, behind, ?_, isQuote⟩, marked⟩
          rw [← source, joins]
          rfl
        · exact .inl (.inr keyword)

/-- What an expression takes members of is gathered, words of the language apart. -/
theorem told_ofText [Letters] {raw : Text} {good joined : Text → Prop} (ok : ofText raw = .ok e)
    (gathered : ∀ name ∈ e.memberRoots, good name) (joins : JoinsOnly joined raw)
    (language : ∀ name, keywords.contains name = true → good name) : Told good joined e.text := by
  have inRaw {name : Text} (inTrimmed : JoinsString (trim raw) name) : joined name := by
    obtain ⟨lead, trail, whole, _⟩ := exists_eq_trim_between raw
    refine joins name ?_
    rw [whole]
    exact (inTrimmed.append_left lead).append_right trail
  rw [ofText_eq] at ok
  obtain ⟨made, _, parted⟩ := parted_ofTokens ok
  refine ⟨⟨_, parted⟩, fun takes => ?_⟩
  have alone := takes.alone
  have undotted := takes.undotted
  exact (tells_ofTokens ok takes (rfl : endsInDot [] = false) alone undotted).imp
    (fun known => known.elim (gathered _) (language _)) fun found => ⟨inRaw found.1, found.2⟩

end Expression

end Outline
