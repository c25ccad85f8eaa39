import Outline.Proofs.Outcome
import Outline.Text.Basic

/-!
# Operations that may be undefined

The library takes texts apart by their characters, so none of its steps can go wrong. A program that
works with positions has other steps: it cuts a text at a byte offset, takes the element at an index
or a range of elements, subtracts, and divides. Each of these is defined only for some arguments.
Here they are operations with a result or a `Trap`, and the modules below this one do the work of
the library with them.

A step that may also refuse the document has two ways to fail. It runs in `Checked.Run`, and
`Checked.total` says that it has no trap and the outcome of a step of the library.
-/

set_option autoImplicit false

namespace Outline

namespace Text

@[simp]
theorem byteSize_nil : byteSize [] = 0 := rfl

@[simp]
theorem byteSize_cons (c : Char) (s : Text) : byteSize (c :: s) = c.utf8Size + byteSize s := by
  have shift (n : Nat) : s.foldl (fun size c => size + c.utf8Size) n = n + byteSize s := by
    rw [byteSize]
    induction s generalizing n with
    | nil => rfl
    | cons d s ih =>
      rw [List.foldl_cons, List.foldl_cons, ih, ih (0 + d.utf8Size)]
      omega
  rw [byteSize, List.foldl_cons, shift]
  omega

@[simp]
theorem byteSize_append (s t : Text) : byteSize (s ++ t) = byteSize s + byteSize t := by
  induction s with
  | nil => rw [List.nil_append, byteSize_nil, Nat.zero_add]
  | cons c s ih => rw [List.cons_append, byteSize_cons, byteSize_cons, ih, Nat.add_assoc]

theorem byteSize_pos {s : Text} (filled : s ≠ []) : 0 < byteSize s := by
  cases s with
  | nil => exact absurd rfl filled
  | cons c s =>
    have := c.utf8Size_pos
    rw [byteSize_cons]
    omega

end Text

/-- Why an operation is undefined. -/
inductive Trap where
  /-- Nothing stands at the index. -/
  | index
  /-- The range does not lie in what it is taken from. -/
  | range
  /-- The offset lies inside a character. -/
  | boundary
  /-- More is subtracted than there is. -/
  | subtraction
  /-- The divisor is zero. -/
  | division
  deriving DecidableEq, Repr

/-- A result, or the trap of the first undefined operation on the way to it. -/
abbrev Checked (α : Type) := Except Trap α

namespace Checked

open Text

variable {α β ε : Type}

theorem ok_bind (a : α) (next : α → Checked β) : (.ok a : Checked α) >>= next = next a := rfl

/-! ## Numbers -/

/-- The difference of two numbers. -/
def sub (a b : Nat) : Checked Nat := if b ≤ a then .ok (a - b) else .error .subtraction

/-- The quotient of two numbers. -/
def div (a b : Nat) : Checked Nat := if b = 0 then .error .division else .ok (a / b)

/-- The remainder of two numbers. -/
def mod (a b : Nat) : Checked Nat := if b = 0 then .error .division else .ok (a % b)

/-- A difference has no trap if it is not below zero. -/
theorem sub_of_le {a b : Nat} (le : b ≤ a) : sub a b = .ok (a - b) := if_pos le

/-- A quotient has no trap if the divisor is not zero. -/
theorem div_of_ne_zero {a b : Nat} (filled : b ≠ 0) : div a b = .ok (a / b) := if_neg filled

theorem mod_of_ne_zero {a b : Nat} (filled : b ≠ 0) : mod a b = .ok (a % b) := if_neg filled

/-! ## Elements by index -/

/-- The element at an index. -/
def get (xs : List α) (i : Nat) : Checked α :=
  match xs[i]? with
  | some a => .ok a
  | none => .error .index

/-- The elements from one index up to another. -/
def slice (xs : List α) (start stop : Nat) : Checked (List α) :=
  if start ≤ stop ∧ stop ≤ xs.length then .ok ((xs.drop start).take (stop - start))
  else .error .range

/-- Access by an index has no trap within the bounds. -/
theorem get_of_getElem? {xs : List α} {i : Nat} {a : α} (here : xs[i]? = some a) :
    get xs i = .ok a := by
  rw [get, here]

/-- The range that a part of a list takes up is defined and holds that part. -/
theorem slice_append {xs before middle after : List α} {start stop : Nat}
    (whole : xs = before ++ middle ++ after) (first : start = before.length)
    (last : stop = before.length + middle.length) : slice xs start stop = .ok middle := by
  subst whole first last
  have inside : before.length ≤ before.length + middle.length ∧
      before.length + middle.length ≤ (before ++ middle ++ after).length := by
    simp only [List.length_append]
    omega
  rw [slice, if_pos inside]
  simp

/-! ## Text by byte offset -/

/-- What stands before and after a byte offset. -/
def cut : Text → Nat → Checked (Text × Text)
  | [], offset => if offset = 0 then .ok ([], []) else .error .range
  | c :: rest, offset =>
    if offset = 0 then .ok ([], c :: rest)
    else if c.utf8Size ≤ offset then do
      let (before, after) ← cut rest (offset - c.utf8Size)
      return (c :: before, after)
    else .error .boundary

/-- The text up to a byte offset. -/
def front (s : Text) (offset : Nat) : Checked Text := do
  let (before, _) ← cut s offset
  return before

/-- The text from a byte offset on. -/
def back (s : Text) (offset : Nat) : Checked Text := do
  let (_, after) ← cut s offset
  return after

/-- The size of the first of two texts is an offset at which they can be cut apart. -/
theorem cut_append (before after : Text) :
    cut (before ++ after) (byteSize before) = .ok (before, after) := by
  induction before with
  | nil => cases after <;> rfl
  | cons c before ih =>
    have pos := c.utf8Size_pos
    rw [List.cons_append, byteSize_cons, cut, if_neg (by omega), if_pos (by omega),
      Nat.add_sub_cancel_left, ih]
    rfl

/-- A text can be cut in front of an offset that is on a character boundary. -/
theorem front_append {s before after : Text} {offset : Nat} (whole : s = before ++ after)
    (size : offset = byteSize before) : front s offset = .ok before := by
  rw [front, whole, size, cut_append]
  rfl

/-- A text can be cut behind an offset that is on a character boundary. -/
theorem back_append {s before after : Text} {offset : Nat} (whole : s = before ++ after)
    (size : offset = byteSize before) : back s offset = .ok after := by
  rw [back, whole, size, cut_append]
  rfl

/-- What is cut off at an offset makes up the text again, and the offset is the size of the first
part. -/
theorem cut_eq_ok {s before after : Text} {offset : Nat} (ok : cut s offset = .ok (before, after)) :
    s = before ++ after ∧ offset = byteSize before := by
  induction s generalizing offset before with
  | nil =>
    rw [cut] at ok
    split at ok
    next zero =>
      obtain ⟨rfl, rfl⟩ := Prod.mk.inj (Except.ok.inj ok)
      exact ⟨rfl, zero⟩
    next => cases ok
  | cons c rest ih =>
    rw [cut] at ok
    split at ok
    next zero =>
      obtain ⟨rfl, rfl⟩ := Prod.mk.inj (Except.ok.inj ok)
      exact ⟨rfl, zero⟩
    next =>
      split at ok
      next fits =>
        obtain ⟨⟨before', after'⟩, inner, same⟩ := bind_eq_ok.mp ok
        obtain ⟨rfl, rfl⟩ := Prod.mk.inj (Except.ok.inj same)
        obtain ⟨whole, size⟩ := ih inner
        refine ⟨congrArg (c :: ·) whole, ?_⟩
        rw [byteSize_cons, ← size]
        omega
      next => cases ok

-- An offset inside a character, and one behind the end, are traps.
example : cut ['é', 'a'] 1 = .error .boundary ∧ cut ['é', 'a'] 4 = .error .range := ⟨rfl, rfl⟩

/-- Where a text can be cut is a character boundary. -/
theorem exists_of_back_eq_ok {s after : Text} {offset : Nat} (ok : back s offset = .ok after) :
    ∃ before, s = before ++ after ∧ offset = byteSize before := by
  obtain ⟨⟨before, after'⟩, parts, same⟩ := bind_eq_ok.mp ok
  obtain rfl := Except.ok.inj same
  exact ⟨before, cut_eq_ok parts⟩

/-! ## Two ways to fail -/

/-- A step that may refuse the document or meet a trap. -/
abbrev Run (ε α : Type) := ExceptT ε Checked α

/-- The step without a trap that has an outcome. -/
def total (outcome : Except ε α) : Run ε α := ExceptT.mk (.ok outcome)

/-- Steps without traps make a chain without traps. -/
theorem total_bind {first : Run ε α} {next : α → Run ε β} {outcome : Except ε α}
    {more : α → Except ε β} (head : first = total outcome)
    (tail : ∀ a, outcome = .ok a → next a = total (more a)) :
    first >>= next = total (outcome >>= more) := by
  subst head
  cases outcome with
  | error e => rfl
  | ok a => exact tail a rfl

theorem lift_bind {step : Checked α} {a : α} (ok : step = .ok a) (next : α → Run ε β) :
    (liftM step : Run ε α) >>= next = next a := by
  subst ok
  rfl

theorem adapt_total {ε' : Type} {first : Run ε α} {outcome : Except ε α} (f : ε → ε')
    (same : first = total outcome) : ExceptT.adapt f first = total (outcome.mapError f) := by
  subst same
  rfl

end Checked
end Outline
