import Outline.Expression.Basic

/-!
# Values and the expressions of their placeholders

`Expression.ofText` bounds the length of the placeholders it descends into. Here that bound is shown
to hold for every placeholder of a value, so the definition unfolds without it.
-/

set_option autoImplicit false

namespace Outline

namespace Template

theorem length_splitSpecFrom_le (previous : Option Char) (n : Nesting) (s : Text) :
    (splitSpecFrom previous n s).1.length ≤ s.length := by
  induction s generalizing previous n with
  | nil => exact Nat.le_refl _
  | cons c rest ih =>
    rw [splitSpecFrom]
    split
    · exact Nat.zero_le _
    · exact Nat.succ_le_succ (ih _ _)

/-- Literal text put before segments adds no placeholder. -/
theorem placeholder_mem_prepend {text expr spec : Text} {segments : List Segment} :
    Segment.placeholder expr spec ∈ prepend text segments ↔
      Segment.placeholder expr spec ∈ segments := by
  unfold prepend
  split <;> simp

/-- The expression of a placeholder is shorter than the body it stands in. -/
theorem length_lt_of_mem_segments {body expr spec : Text} {pieces : List Piece}
    (cut : pieces? body = some pieces) (mem : Segment.placeholder expr spec ∈ segments pieces) :
    expr.length < body.length := by
  fun_induction pieces? body generalizing pieces with
  | case1 =>
    cases cut
    cases mem
  | case2 rest ih | case3 rest ih | case6 rest _ ih =>
    obtain ⟨more, hmore, rfl⟩ := Option.map_eq_some_iff.mp cut
    have := ih hmore (placeholder_mem_prepend.mp mem)
    simp only [List.length_cons]
    omega
  | case4 rest _ inner after found ih =>
    obtain ⟨more, hmore, rfl⟩ := Option.map_eq_some_iff.mp cut
    have whole := congrArg List.length (eq_append_of_cutAtHoleEnd found)
    rw [List.length_append, List.length_cons] at whole
    rw [segments] at mem
    split at mem
    next =>
      have := ih hmore (placeholder_mem_prepend.mp mem)
      simp only [List.length_cons]
      omega
    next =>
      rcases List.mem_cons.mp mem with here | later
      · obtain ⟨rfl, rfl⟩ := Segment.placeholder.inj here
        have h₁ := Text.length_trim_le (splitSpec inner).1
        have h₂ : (splitSpec inner).1.length ≤ inner.length := length_splitSpecFrom_le _ _ _
        simp only [List.length_cons]
        omega
      · have := ih hmore later
        simp only [List.length_cons]
        omega
  | case5 => cases cut
  | case7 c rest _ _ _ _ ih =>
    obtain ⟨more, hmore, rfl⟩ := Option.map_eq_some_iff.mp cut
    have := ih hmore (placeholder_mem_prepend.mp mem)
    simp only [List.length_cons]
    omega

/-- The expression of a placeholder of a template is shorter than the template. -/
theorem length_lt_of_mem_split {body expr spec : Text} {segments : List Segment}
    (cut : split body = .ok segments) (mem : Segment.placeholder expr spec ∈ segments) :
    expr.length < body.length := by
  obtain ⟨pieces, hpieces, _, rfl⟩ := split_eq_ok_iff.mp cut
  exact length_lt_of_mem_segments hpieces mem

end Template

namespace Token

/-- A token is no longer than the text it was read from. -/
theorem length_text_le_of_mem {token : Token} {s : Text} (mem : token ∈ readAll s) :
    token.text.length ≤ s.length := by
  have mapped : token.text ∈ (readAll s).map text := List.mem_map_of_mem mem
  have sub := List.sublist_flatten_of_mem mapped
  rw [← List.flatMap_def, text_readAll] at sub
  exact sub.length_le

end Token

namespace Expression

variable {f g : Text → Except Fault Expression}

/-- Filling reads nothing but the placeholders. -/
theorem fill_congr {quote : Char} {segments : List Segment}
    (same : ∀ expr spec, Segment.placeholder expr spec ∈ segments → f expr = g expr) :
    fill f quote segments = fill g quote segments := by
  induction segments with
  | nil => rfl
  | cons segment rest ih =>
    have more := ih fun expr spec mem => same expr spec (List.mem_cons_of_mem _ mem)
    cases segment with
    | literal text => rw [fill, fill, more]
    | placeholder expr spec => rw [fill, fill, more, same expr spec List.mem_cons_self]

/-- A token reads nothing but texts that are shorter than itself. -/
theorem ofToken_congr [Letters] {token : Token}
    (same : ∀ expr, expr.length < token.text.length → f expr = g expr) :
    ofToken f token = ofToken g token := by
  cases token with
  | literal mark delimiter body =>
    simp only [ofToken, ofLiteral]
    split
    · split
      · rfl
      next segments hsplit =>
        rw [fill_congr fun expr spec mem => same expr ?_]
        have := Template.length_lt_of_mem_split hsplit mem
        simp only [Token.text, List.length_append]
        omega
    · rfl
  | _ => rfl

theorem ofTokens_congr [Letters] {opened : List Char} {tokens : List Token}
    (same : ∀ token ∈ tokens, ofToken f token = ofToken g token) :
    ofTokens f opened tokens = ofTokens g opened tokens := by
  induction tokens generalizing opened with
  | nil => cases opened <;> rfl
  | cons token rest ih =>
    have first := same token List.mem_cons_self
    have more (opened : List Char) := @ih opened fun t mem =>
      same t (List.mem_cons_of_mem _ mem)
    simp only [ofTokens, first, more]

/-- The expression of a value is made of its tokens, and each placeholder in it is a value. -/
theorem ofText_eq [Letters] (raw : Text) :
    ofText raw = ofTokens ofText [] (Token.readAll (Text.trim raw)) := by
  rw [ofText]
  refine ofTokens_congr fun token mem => ofToken_congr fun expr short => if_pos ?_
  have h₁ := Token.length_text_le_of_mem mem
  have h₂ := Text.length_trim_le raw
  omega

end Expression
end Outline
