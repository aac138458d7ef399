import Worksheet.Proofs.Guarded.Reading
import Worksheet.Proofs.References
import Worksheet.Proofs.WellFormed

/-! Guarded formulas. The offsets of a formula that is well-formed in some cell are those of two cells of
the sheet, so they can be added to any cell; and its operators have as many operands as they take. So it
is written in any cell without a stop. -/

namespace Worksheet

/-- An offset from a cell of the sheet to another. -/
def Coord.Short : Coord → Prop
  | .absolute _ => True
  | .relative offset => -4294967296 < offset ∧ offset < 4294967296

def Reference.Short (r : Reference) : Prop := r.col.Short ∧ r.row.Short

theorem Coord.short_of_resolve? {c : Coord} {base index : Index}
    (denotes : c.resolve? base = some index) : c.Short := by
  cases c with
  | absolute i => exact trivial
  | relative offset =>
    have same := Index.ofInt?_eq_some_iff.1 denotes
    have bound := index.isLt
    have bound' := base.isLt
    exact ⟨by omega, by omega⟩

theorem Reference.short_of_resolve? {r : Reference} {base target : Address}
    (denotes : r.resolve? base = some target) : r.Short := by
  obtain ⟨col, row⟩ := resolve?_eq_some_iff.1 denotes
  exact ⟨Coord.short_of_resolve? col, Coord.short_of_resolve? row⟩

theorem Formula.WellFormed.short {base : Address} {formula : Formula}
    (fine : formula.WellFormed base) : ∀ r ∈ formula.references, r.Short := by
  intro r member
  obtain ⟨target, denotes, _⟩ := fine.resolves r member
  exact Reference.short_of_resolve? denotes

namespace Guarded

/-! Places. -/

def index (base : Index) : Coord → Except Stop (Option Index)
  | .absolute index => .ok (Index.ofInt? index)
  | .relative offset => Index.ofInt? <$> within (base.val + offset)

def target (base : Address) (r : Reference) : Except Stop (Option Address) := do
  match ← index base.col r.col with
  | none => return none
  | some col =>
      match ← index base.row r.row with
      | none => return none
      | some row => return some ⟨col, row⟩

def targets (base : Address) : List Reference → Except Stop (List Address)
  | [] => .ok []
  | r :: rest => do
      let found ← target base r
      let others ← targets base rest
      return found.toList ++ others

theorem index_eq (base : Index) {c : Coord} (short : c.Short) : index base c = .ok (c.resolve? base) := by
  cases c with
  | absolute i => rfl
  | relative offset =>
    have bound := base.isLt
    obtain ⟨low, high⟩ := short
    have sum : within (base.val + offset) = .ok (base.val + offset) :=
      within_of_bounds (by omega) (by omega)
    change Index.ofInt? <$> within (base.val + offset) = _
    rw [sum]
    rfl

theorem target_eq (base : Address) {r : Reference} (short : r.Short) :
    target base r = .ok (r.resolve? base) := by
  unfold target Reference.resolve?
  rw [index_eq base.col short.1]
  cases r.col.resolve? base.col with
  | none => rfl
  | some col =>
    simp only [bind, Except.bind, Option.bind]
    rw [index_eq base.row short.2]
    cases r.row.resolve? base.row with
    | none => rfl
    | some row => rfl

theorem targets_eq (base : Address) {references : List Reference}
    (short : ∀ r ∈ references, r.Short) :
    targets base references = .ok (references.filterMap (Reference.resolve? base)) := by
  induction references with
  | nil => rfl
  | cons r rest ih =>
    rw [targets, target_eq base (short r List.mem_cons_self),
      ih fun s member => short s (List.mem_cons_of_mem r member)]
    cases found : r.resolve? base with
    | none => rw [List.filterMap_cons_none found]; rfl
    | some p => rw [List.filterMap_cons_some found]; rfl

/-! Texts. -/

def faults {α : Type} (result : Except Fault α) : Except Stop α := result.mapError .fault

theorem faults_bind {α β : Type} (first : Except Fault α) (next : α → Except Fault β) :
    faults (first >>= next) = faults first >>= fun x => faults (next x) := by
  cases first with
  | ok x => rfl
  | error fault => rfl

mutual

def write (base : Address) : Formula → Except Stop (List Char)
  | .number x => .ok (Decimal.formulaChars x)
  | .reference r => do
      match ← target base r with
      | some place => return r.marked place
      | none => throw (.fault (.formula (.placedOutside base)))
  | .apply operator operands =>
      if Formula.isCall operator then do
        let texts ← writeAll base operands
        return operator.symbol.toList ++ '(' :: Formula.separate texts ++ [')']
      else
        match operator, operands with
        | .sub, [x] => do
            let text ← write base x
            return '-' :: Formula.parenthesize
              (decide (x.strength.rank < Formula.Strength.atom.rank)) text
        | operator, [x, y] => do
            let rank := (Formula.strength (.apply operator [x, y])).rank
            let left ← write base x
            let right ← write base y
            return Formula.parenthesize (decide (x.strength.rank < rank)) left ++
              operator.symbol.toList ++ Formula.parenthesize (decide (y.strength.rank ≤ rank)) right
        | operator, operands => .error (.site (.text operator operands.length))

def writeAll (base : Address) : List Formula → Except Stop (List (List Char))
  | [] => .ok []
  | x :: xs => do
      let text ← write base x
      let texts ← writeAll base xs
      return text :: texts

end

def render (base : Address) (formula : Formula) : Except Stop String :=
  String.ofList <$> write base formula

theorem writeAll_eq {base : Address} {operands : List Formula}
    (each : ∀ x ∈ operands, write base x = faults (x.write base)) :
    writeAll base operands = faults (Formula.writeAll base operands) := by
  induction operands with
  | nil => rfl
  | cons x xs ih =>
    rw [writeAll, Formula.writeAll, faults_bind, each x List.mem_cons_self,
      ih fun y member => each y (List.mem_cons_of_mem x member)]
    simp only [faults_bind]
    rfl

theorem write_eq {home : Address} {formula : Formula} (fine : formula.WellFormed home)
    (base : Address) : write base formula = faults (formula.write base) := by
  induction fine with
  | number bits finite => rfl
  | reference r place denotes nameable =>
    rw [write, Formula.write, target_eq base (Reference.short_of_resolve? denotes)]
    cases found : r.resolve? base with
    | none =>
      unfold Reference.write?
      rw [found]
      rfl
    | some p =>
      rw [Reference.write?_of_resolves found]
      rfl
  | apply operator operands takes each ih =>
    obtain ⟨rfl, x, rfl⟩ | ⟨between, x, y, rfl⟩ | ⟨call, x, rest, rfl⟩ := Operator.takes_shapes takes
    · rw [write, if_neg (by decide), Formula.write_negation, ih x List.mem_cons_self]
      cases x.write base with
      | ok text => rfl
      | error fault => rfl
    · have first := ih x List.mem_cons_self
      have second := ih y (List.mem_cons_of_mem x List.mem_cons_self)
      rw [Formula.write_between between]
      cases operator with
      | min | max => cases between
      | add | sub | mul | div =>
        rw [write, if_neg (by decide), first, second]
        cases x.write base with
        | error fault => rfl
        | ok left =>
          cases y.write base with
          | error fault => rfl
          | ok right => rfl
    · rw [Formula.write_call call]
      unfold write
      rw [if_pos call, writeAll_eq ih]
      cases Formula.writeAll base (x :: rest) with
      | ok texts => rfl
      | error fault => rfl

theorem render_eq {home : Address} {formula : Formula} (fine : formula.WellFormed home)
    (base : Address) : render base formula = faults (formula.render base) := by
  unfold render Formula.render
  rw [write_eq fine]
  cases formula.write base with
  | ok cs => rfl
  | error fault => rfl

example : render .origin (.apply .mul [.number 1]) = .error (.site (.text .mul 1)) := rfl

end Guarded

end Worksheet
