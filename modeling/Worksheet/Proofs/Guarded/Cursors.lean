import Worksheet.Formula.Read
import Worksheet.Proofs.Guarded.Stops

/-! Cursors. A formula is read at a cursor, which stands before a token, by functions for the levels of
the grammar that call each other. A call that takes a token moves the cursor on, so the calls come to an
end. -/

namespace Worksheet

namespace Token.Kind

def additive? : Token.Kind → Option Operator
  | .plus => some .add
  | .minus => some .sub
  | _ => none

def multiplicative? : Token.Kind → Option Operator
  | .times => some .mul
  | .divide => some .div
  | _ => none

end Token.Kind

namespace Guarded

/-- A place among tokens. The last one ends the formula. -/
structure Cursor where
  tokens : List Token
  index : Nat

namespace Cursor

def last (cursor : Cursor) : Except Stop Nat := subtract .cursor cursor.tokens.length 1

def peek (cursor : Cursor) : Except Stop Token := do
  let last ← cursor.last
  match cursor.tokens[min cursor.index last]? with
  | some token => return token
  | none => throw (.site .cursor)

/-- Takes a token. The last one is never passed. -/
def advance (cursor : Cursor) : Except Stop (Token × Cursor) := do
  let token ← cursor.peek
  let last ← cursor.last
  return (token, if cursor.index < last then { cursor with index := cursor.index + 1 } else cursor)

def left (cursor : Cursor) : Nat := cursor.tokens.length - 1 - cursor.index

abbrev Beyond (cursor : Cursor) : Type := { next : Cursor // next.left < cursor.left }

def take (cursor : Cursor) : Except Stop (Token × cursor.Beyond) := do
  let (token, next) ← cursor.advance
  -- At the last token the cursor stays, and a call that went on from there would not come to an end.
  if less : next.left < cursor.left then return (token, ⟨next, less⟩) else throw (.site .standstill)

def unexpected {α : Type} (cursor : Cursor) : Except Stop α := do
  let token ← cursor.peek
  throw (.fault (.formula (.unexpected token)))

def expect (kind : Token.Kind) (cursor : Cursor) : Except Stop cursor.Beyond := do
  let token ← cursor.peek
  if token.kind = kind then do
    let (_, next) ← cursor.take
    return next
  else cursor.unexpected

/-- What is read at a cursor, and the cursor behind it. -/
structure Parsed (cursor : Cursor) (α : Type) where
  value : α
  next : Cursor
  le : next.left ≤ cursor.left

-- Each call either takes a token first or goes down from sum to product to factor.
mutual

def sum (cursor : Cursor) : Except Stop (cursor.Parsed Formula) := do
  let ⟨x, behind, le⟩ ← cursor.product
  let ⟨y, next, le'⟩ ← behind.terms x
  return ⟨y, next, by omega⟩
termination_by 3 * cursor.left + 2

def terms (cursor : Cursor) (x : Formula) : Except Stop (cursor.Parsed Formula) := do
  let token ← cursor.peek
  match token.kind.additive? with
  | none => return ⟨x, cursor, Nat.le_refl _⟩
  | some operator => do
      let (_, ⟨right, less⟩) ← cursor.take
      let ⟨y, behind, le⟩ ← right.product
      let ⟨z, next, le'⟩ ← behind.terms (.apply operator [x, y])
      return ⟨z, next, by omega⟩
termination_by 3 * cursor.left

def product (cursor : Cursor) : Except Stop (cursor.Parsed Formula) := do
  let ⟨x, behind, le⟩ ← cursor.factor
  let ⟨y, next, le'⟩ ← behind.factors x
  return ⟨y, next, by omega⟩
termination_by 3 * cursor.left + 1

def factors (cursor : Cursor) (x : Formula) : Except Stop (cursor.Parsed Formula) := do
  let token ← cursor.peek
  match token.kind.multiplicative? with
  | none => return ⟨x, cursor, Nat.le_refl _⟩
  | some operator => do
      let (_, ⟨right, less⟩) ← cursor.take
      let ⟨y, behind, le⟩ ← right.factor
      let ⟨z, next, le'⟩ ← behind.factors (.apply operator [x, y])
      return ⟨z, next, by omega⟩
termination_by 3 * cursor.left

def factor (cursor : Cursor) : Except Stop (cursor.Parsed Formula) := do
  let token ← cursor.peek
  match token.kind with
  | .number value => do
      let (_, ⟨next, less⟩) ← cursor.take
      return ⟨.number value, next, by omega⟩
  | .reference r => do
      let (_, ⟨next, less⟩) ← cursor.take
      return ⟨.reference r, next, by omega⟩
  | .minus => do
      let (_, ⟨inner, less⟩) ← cursor.take
      let ⟨x, next, le⟩ ← inner.factor
      return ⟨.apply .sub [x], next, by omega⟩
  | .name text => do
      let (called, ⟨bracket, less⟩) ← cursor.take
      match Operator.ofName? text with
      | none => throw (.fault (.formula (.unknownFunction called)))
      | some operator => do
          let ⟨x, next, le⟩ ← bracket.call operator
          return ⟨x, next, by omega⟩
  | .opening => do
      let (_, ⟨inner, less⟩) ← cursor.take
      let ⟨x, final, le⟩ ← inner.sum
      let ⟨next, less'⟩ ← final.expect .closing
      return ⟨x, next, by omega⟩
  | _ => cursor.unexpected
termination_by 3 * cursor.left

def call (cursor : Cursor) (operator : Operator) : Except Stop (cursor.Parsed Formula) := do
  let ⟨inner, less⟩ ← cursor.expect .opening
  let ⟨x, behind, le⟩ ← inner.sum
  let ⟨xs, final, le'⟩ ← behind.operands [x]
  let ⟨next, less'⟩ ← final.expect .closing
  return ⟨.apply operator xs, next, by omega⟩
termination_by 3 * cursor.left

def operands (cursor : Cursor) (xs : List Formula) : Except Stop (cursor.Parsed (List Formula)) := do
  let token ← cursor.peek
  if token.kind = .comma then do
    let (_, ⟨right, less⟩) ← cursor.take
    let ⟨x, behind, le⟩ ← right.sum
    let ⟨ys, next, le'⟩ ← behind.operands (xs ++ [x])
    return ⟨ys, next, by omega⟩
  else return ⟨xs, cursor, Nat.le_refl _⟩
termination_by 3 * cursor.left

end

def parse (cursor : Cursor) : Except Stop Formula := do
  let ⟨x, next, _⟩ ← cursor.sum
  let token ← next.peek
  if token.kind = .finish then return x else next.unexpected

structure Faces (cursor : Cursor) (rest : List Token) (finish : Token) : Prop where
  place : ∃ front, cursor = ⟨front ++ (rest ++ [finish]), front.length⟩
  inner : ∀ token ∈ rest, token.kind ≠ .finish
  ends : finish.kind = .finish

section

variable {cursor : Cursor} {rest : List Token} {token finish : Token}

theorem last_eq (front : List Token) (token : Token) (back : List Token) (index : Nat) :
    last ⟨front ++ token :: back, index⟩ = .ok (front.length + back.length) := by
  have long : (front ++ token :: back).length = front.length + back.length + 1 := by
    rw [List.length_append, List.length_cons, Nat.add_assoc]
  unfold last
  rw [long]
  exact subtract_of_le (Nat.le_add_left 1 _)

theorem peek_at (front : List Token) (token : Token) (back : List Token) :
    peek ⟨front ++ token :: back, front.length⟩ = .ok token := by
  unfold peek
  rw [last_eq]
  change (match (front ++ token :: back)[min front.length (front.length + back.length)]? with
    | some token => _ | none => _) = _
  rw [Nat.min_eq_left (Nat.le_add_right _ _), List.getElem?_append_right (Nat.le_refl _), Nat.sub_self]
  rfl

theorem advance_at (front : List Token) (token next : Token) (back : List Token) :
    advance ⟨front ++ token :: next :: back, front.length⟩ =
      .ok (token, ⟨(front ++ [token]) ++ next :: back, (front ++ [token]).length⟩) := by
  unfold advance
  rw [peek_at, last_eq]
  change Except.ok (token, if front.length < front.length + (back.length + 1) then _ else _) = _
  rw [if_pos (by omega), List.length_append, List.append_assoc]
  rfl

theorem Faces.peek (faces : cursor.Faces rest finish) : cursor.peek = pure (rest.headD finish) := by
  obtain ⟨front, rfl⟩ := faces.place
  cases rest with
  | nil => exact peek_at front finish []
  | cons token back => exact peek_at front token (back ++ [finish])

theorem Faces.left (faces : cursor.Faces rest finish) : cursor.left = rest.length := by
  obtain ⟨front, rfl⟩ := faces.place
  unfold Cursor.left
  dsimp only
  rw [List.length_append, List.length_append, List.length_singleton]
  omega

theorem Faces.unexpected {α : Type} (faces : cursor.Faces rest finish) :
    (cursor.unexpected : Except Stop α) =
      .error (.fault (.formula (.unexpected (rest.headD finish)))) := by
  unfold Cursor.unexpected
  rw [faces.peek]
  rfl

theorem Faces.advance (faces : cursor.Faces (token :: rest) finish) :
    ∃ next, cursor.advance = .ok (token, next) ∧ next.Faces rest finish := by
  obtain ⟨front, rfl⟩ := faces.place
  obtain ⟨other, back, same⟩ := List.exists_cons_of_ne_nil
    (List.append_ne_nil_of_right_ne_nil rest (List.cons_ne_nil finish []))
  have advanced := advance_at front token other back
  rw [← same] at advanced
  exact ⟨_, advanced, ⟨_, rfl⟩, fun token member => faces.inner token (List.mem_cons_of_mem _ member),
    faces.ends⟩

theorem Faces.take (faces : cursor.Faces (token :: rest) finish) :
    ∃ (next : Cursor) (less : next.left < cursor.left),
      cursor.take = .ok (token, ⟨next, less⟩) ∧ next.Faces rest finish := by
  obtain ⟨next, advanced, behind⟩ := faces.advance
  have less : next.left < cursor.left := by
    rw [behind.left, faces.left]
    exact Nat.lt_succ_self _
  refine ⟨next, less, ?_, behind⟩
  unfold Cursor.take
  rw [advanced]
  exact dif_pos less

theorem Faces.take_head (faces : cursor.Faces rest finish)
    (other : (rest.headD finish).kind ≠ .finish) :
    ∃ (token : Token) (back : List Token) (next : Cursor) (less : next.left < cursor.left),
      rest = token :: back ∧ cursor.take = .ok (token, ⟨next, less⟩) ∧ next.Faces back finish := by
  cases rest with
  | nil => exact absurd faces.ends other
  | cons token back =>
    obtain ⟨next, less, taken, behind⟩ := faces.take
    exact ⟨token, back, next, less, rfl, taken, behind⟩

theorem Faces.expect (faces : cursor.Faces rest finish) (kind : Token.Kind) (inner : kind ≠ .finish) :
    (∃ (token : Token) (back : List Token) (next : Cursor) (less : next.left < cursor.left),
        rest = token :: back ∧ token.kind = kind ∧ cursor.expect kind = .ok ⟨next, less⟩ ∧
          next.Faces back finish) ∨
      ((rest.headD finish).kind ≠ kind ∧
        cursor.expect kind = .error (.fault (.formula (.unexpected (rest.headD finish))))) := by
  unfold Cursor.expect
  rw [faces.peek, pure_bind]
  by_cases met : (rest.headD finish).kind = kind
  · obtain ⟨token, back, next, less, rfl, taken, faces'⟩ :=
      faces.take_head fun same => inner (met.symm.trans same)
    refine .inl ⟨token, back, next, less, rfl, met, ?_, faces'⟩
    rw [if_pos met, taken]
    rfl
  · refine .inr ⟨met, ?_⟩
    rw [if_neg met, faces.unexpected]

end

end Cursor

end Guarded

end Worksheet
