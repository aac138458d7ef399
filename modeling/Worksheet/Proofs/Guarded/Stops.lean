import Worksheet.Address
import Worksheet.Fault
import Worksheet.Operator

/-! Guarded runs. Some steps of the program are possible only on what they are meant for. In a guarded
run each of them is checked, and one that is not possible stops the run at its site. -/

namespace Worksheet

/-- The steps that are checked. The value of a letter is taken from `a` on, an ordinal is one or more, and a text
is cut between two of its characters. A cursor stands at a token, and behind a token that is taken it stands
further on, so that a reading comes to its end. Sums and differences of coordinates keep to 64 bits with a sign,
an operator has as many operands as it takes, and a listed name has a record. -/
inductive Site where
  | letter
  | ordinal
  | cut
  | lexeme
  | cursor
  | standstill
  | coordinate
  | value (operator : Operator) (count : Nat)
  | text (operator : Operator) (count : Nat)
  | record (name : String)

inductive Stop where
  | fault (fault : Fault)
  | site (site : Site)

namespace Guarded

def ofText {α : Type} (result : Except FormulaFault α) : Except Stop α :=
  result.mapError fun cause => .fault (.formula cause)

def subtract (site : Site) (m n : Nat) : Except Stop Nat :=
  if n ≤ m then .ok (m - n) else .error (.site site)

def within (n : Int) : Except Stop Int :=
  if -9223372036854775808 ≤ n ∧ n < 9223372036854775808 then .ok n else .error (.site .coordinate)

theorem subtract_of_le {site : Site} {m n : Nat} (le : n ≤ m) : subtract site m n = .ok (m - n) :=
  if_pos le

theorem within_of_bounds {n : Int} (low : -8589934592 ≤ n) (high : n ≤ 8589934592) :
    within n = .ok n :=
  if_pos ⟨by omega, by omega⟩

theorem ofText_bind {α β : Type} (first : Except FormulaFault α) (next : α → Except FormulaFault β) :
    ofText (first >>= next) = ofText first >>= fun x => ofText (next x) := by
  cases first with
  | ok x => rfl
  | error cause => rfl

end Guarded

end Worksheet
