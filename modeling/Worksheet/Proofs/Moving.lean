import Worksheet.Proofs.Placing
import Worksheet.Proofs.Spelling

/-! References moved to other cells. An axis with a dollar sign stays where it leads, and another one moves by
as much as the cell does; where both lead onto the sheet the reference is written as the name of the cell
there, with its dollar signs. In the last column and the last row of the sheet that name cannot be read. -/

namespace Worksheet

open Lexeme

def Coord.IsAbsolute : Coord → Prop
  | .absolute _ => True
  | .relative _ => False

/-- Where an axis that leads to `index` in a cell at `base` leads in a cell at `moved`. -/
def Index.shift (fixed : Prop) [Decidable fixed] (index base moved : Index) : Int :=
  if fixed then index.val else index.val + (moved.val - base.val)

def Index.OnSheet (place : Int) : Prop := 0 ≤ place ∧ place ≤ 4294967295

namespace Coord

variable {fixed : Prop} [Decidable fixed] {index base moved target : Index} {c : Coord}

theorem isAbsolute_of_iff : (Coord.of fixed index base).IsAbsolute ↔ fixed := by
  unfold Coord.of
  by_cases held : fixed
  · simp [held, IsAbsolute]
  · simp [held, IsAbsolute]

theorem place_of : (Coord.of fixed index base).place moved = Index.shift fixed index base moved := by
  unfold Coord.of Index.shift
  by_cases held : fixed
  · simp [held, place]
  · simp only [held, decide_false, Bool.false_eq_true, if_false, place]
    omega

theorem resolve?_eq_some_iff : c.resolve? base = some target ↔ c.place base = target.val := by
  rw [resolve?_eq_ofInt?, Index.ofInt?_eq_some_iff]

theorem exists_resolve?_iff : (∃ target, c.resolve? base = some target) ↔ Index.OnSheet (c.place base) := by
  simp only [resolve?_eq_some_iff]
  unfold Index.OnSheet
  constructor
  · rintro ⟨target, same⟩
    omega
  · intro inside
    exact ⟨⟨(c.place base).toNat, by omega⟩, (Int.toNat_of_nonneg inside.1).symm⟩

theorem marker_of {marker : List Char} (fine : Address.IsMarker marker) (index base : Index) :
    (Coord.of (marker = ['$']) index base).marker = marker := by
  rcases fine with rfl | rfl
  · rfl
  · rfl

end Coord

theorem Address.nameable_iff {a : Address} : a.Nameable ↔ ∃ text, ofName? text = some a :=
  ⟨fun nameable => ⟨a.name, ofName?_name nameable⟩, fun ⟨_, found⟩ => nameable_of_ofName? found⟩

namespace Reference

variable {base d target : Address} {r : Reference}

theorem resolve?_eq_some_iff_place :
    r.resolve? d = some target ↔
      (target.col.val : Int) = r.col.place d.col ∧ (target.row.val : Int) = r.row.place d.row := by
  rw [resolve?_eq_some_iff, Coord.resolve?_eq_some_iff, Coord.resolve?_eq_some_iff]
  exact and_congr eq_comm eq_comm

theorem exists_resolve?_iff :
    (∃ target, r.resolve? d = some target) ↔
      Index.OnSheet (r.col.place d.col) ∧ Index.OnSheet (r.row.place d.row) := by
  rw [← Coord.exists_resolve?_iff, ← Coord.exists_resolve?_iff]
  simp only [resolve?_eq_some_iff]
  constructor
  · rintro ⟨target, col, row⟩
    exact ⟨⟨target.col, col⟩, target.row, row⟩
  · rintro ⟨⟨col, colFound⟩, row, rowFound⟩
    exact ⟨⟨col, row⟩, colFound, rowFound⟩

theorem resolve?_eq_none_iff :
    r.resolve? d = none ↔
      ¬ (Index.OnSheet (r.col.place d.col) ∧ Index.OnSheet (r.row.place d.row)) := by
  rw [← exists_resolve?_iff, Option.eq_none_iff_forall_ne_some, not_exists]

/-- The name of a cell is read in every cell, as a reference that is fixed on the axes with a dollar sign. It
leads to the cell of the name; in another cell its fixed axes stay and the others move along, as far as the
sheet goes, and it is written there as the name of the cell that it leads to, with its dollar signs. -/
theorem moves_with_cell {text : String} {p : Address} (named : Address.ofName? text = some p) :
    ∃ first ls second ds, NameParts first ls second ds ∧ text.toList = first ++ (ls ++ (second ++ ds)) ∧
      ∀ b, ∃ r, ofName? b text = some r ∧
        (r.col.IsAbsolute ↔ first = ['$']) ∧ (r.row.IsAbsolute ↔ second = ['$']) ∧
        r.resolve? b = some p ∧
        ∀ d,
          (∀ q, r.resolve? d = some q ↔
            (q.col.val : Int) = Index.shift (first = ['$']) p.col b.col d.col ∧
            (q.row.val : Int) = Index.shift (second = ['$']) p.row b.row d.row) ∧
          (r.resolve? d = none ↔
            ¬ (Index.OnSheet (Index.shift (first = ['$']) p.col b.col d.col) ∧
              Index.OnSheet (Index.shift (second = ['$']) p.row b.row d.row))) ∧
          ∀ q, r.resolve? d = some q →
            ∃ cols rows, q.nameChars = cols ++ rows ∧ NameParts first cols second rows ∧
              r.write? d = some (first ++ (cols ++ (second ++ rows))) := by
  unfold Address.ofName? at named
  obtain ⟨first, ls, second, ds, parts, whole⟩ := Address.exists_nameParts named
  refine ⟨first, ls, second, ds, parts, whole, fun b => ?_⟩
  rw [whole] at named
  have read : ofChars? b _ = some _ := ofChars?_parts parts.first parts.letters.1 parts.letters.2 parts.second
    parts.digits.2 named
  refine ⟨_, (congrArg (ofChars? b) whole).trans read, Coord.isAbsolute_of_iff, Coord.isAbsolute_of_iff,
    resolve?_eq_some_iff.2 ⟨Coord.resolve?_of _ _ _, Coord.resolve?_of _ _ _⟩, fun d => ⟨fun q => ?_, ?_,
    fun q denotes => ?_⟩⟩
  · rw [resolve?_eq_some_iff_place, Coord.place_of, Coord.place_of]
  · rw [resolve?_eq_none_iff, Coord.place_of, Coord.place_of]
  · refine ⟨Address.letters q.col.ordinal, Nat.toDigits 10 q.row.ordinal, rfl, ?_, ?_⟩
    · exact ⟨parts.first,
        ⟨Address.letters_ne_nil _ (Nat.succ_pos _), Address.isAlpha_of_mem_letters _⟩, parts.second,
        ⟨Nat.toDigits_ne_nil, fun _ member => Address.isDigit_of_mem_toDigits member⟩⟩
    · rw [write?_of_resolves denotes]
      unfold marked
      rw [Coord.marker_of parts.first, Coord.marker_of parts.second]

theorem moves_with_cell_fixed_row :
    Address.ofName? "c$2" = some ⟨2, 1⟩ ∧ ∃ r, ofName? ⟨0, 4⟩ "c$2" = some r ∧
      r.resolve? ⟨5, 5⟩ = some ⟨7, 1⟩ ∧
      ∃ cols rows, Address.nameChars ⟨7, 1⟩ = cols ++ rows ∧
        r.write? ⟨5, 5⟩ = some (cols ++ '$' :: rows) := by
  have named : Address.ofName? "c$2" = some ⟨2, 1⟩ := by decide +kernel
  have known : ofName? ⟨0, 4⟩ "c$2" = some ⟨.relative 2, .absolute 1⟩ := by decide +kernel
  obtain ⟨first, ls, second, ds, parts, _, moves⟩ := moves_with_cell named
  obtain ⟨r, read, col, row, _, moved⟩ := moves ⟨0, 4⟩
  cases known.symm.trans read
  have loose : ¬ first = ['$'] := fun marked => col.2 marked
  have empty : first = [] := parts.first.resolve_right loose
  have fixed : second = ['$'] := row.1 trivial
  have denotes := ((moved ⟨5, 5⟩).1 ⟨7, 1⟩).2 (by simp only [loose, fixed, Index.shift]; decide)
  obtain ⟨cols, rows, split, _, written⟩ := (moved ⟨5, 5⟩).2.2 _ denotes
  rw [empty, fixed] at written
  exact ⟨named, _, known, denotes, cols, rows, split, written⟩

theorem ofChars?_marked_eq_some_iff (denotes : r.resolve? d = some target) :
    ofChars? d (r.marked target) = some r ↔ target.Nameable :=
  ⟨nameable_of_ofChars?_marked, ofChars?_marked denotes⟩

theorem ofChars?_marked_eq_none_iff (denotes : r.resolve? d = some target) :
    ofChars? d (r.marked target) = none ↔ ¬ target.Nameable := by
  constructor
  · intro unread nameable
    rw [ofChars?_marked denotes nameable] at unread
    cases unread
  · intro nameless
    cases read : ofChars? d (r.marked target) with
    | none => rfl
    | some s => exact absurd (nameable_of_ofChars?_marked read) nameless

/-- A reference that leads onto the sheet is written as a text that is read there as the reference again, if
the cell that it leads to has a name, and that cannot be read at all otherwise. A cell has no name if it lies in
the last column or the last row. -/
theorem text_reads_back_iff {r : Reference} {d target : Address} (denotes : r.resolve? d = some target) :
    ((∃ text, Address.ofName? text = some target) ↔
      target.col.val ≠ 4294967295 ∧ target.row.val ≠ 4294967295) ∧
    ∃ cs, r.write? d = some cs ∧
      (ofChars? d cs = some r ↔ ∃ text, Address.ofName? text = some target) ∧
      (ofChars? d cs = none ↔ ¬ ∃ text, Address.ofName? text = some target) := by
  rw [← Address.nameable_iff]
  refine ⟨?_, _, write?_of_resolves denotes, ofChars?_marked_eq_some_iff denotes,
    ofChars?_marked_eq_none_iff denotes⟩
  have col := target.col.isLt
  have row := target.row.isLt
  unfold Address.Nameable
  omega

theorem text_reads_back_iff_last_name :
    resolve? ⟨0, 0⟩ ⟨.relative 0, .relative 4294967294⟩ = some ⟨0, 4294967294⟩ ∧
      ∃ cs, write? ⟨0, 0⟩ ⟨.relative 0, .relative 4294967294⟩ = some cs ∧
        ofChars? ⟨0, 0⟩ cs = some ⟨.relative 0, .relative 4294967294⟩ := by
  have denotes : resolve? ⟨0, 0⟩ ⟨.relative 0, .relative 4294967294⟩ = some ⟨0, 4294967294⟩ := by
    decide +kernel
  obtain ⟨named, cs, written, read, _⟩ := text_reads_back_iff denotes
  exact ⟨denotes, cs, written, read.2 (named.2 (by decide))⟩

theorem text_unread_below_last_name :
    ofName? .origin "a4294967295" = some ⟨.relative 0, .relative 4294967294⟩ ∧
      Address.ofName? "a2" = some ⟨0, 1⟩ ∧
      write? ⟨0, 1⟩ ⟨.relative 0, .relative 4294967294⟩ = some "a4294967296".toList ∧
      ofChars? ⟨0, 1⟩ "a4294967296".toList = none := by
  decide +kernel

end Reference

end Worksheet
