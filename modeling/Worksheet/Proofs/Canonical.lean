import Worksheet.Proofs.RoundTrip

/-! Canonical texts. In its cell a well-formed formula has a text of its own, from which it is read
back, and whatever is read is well-formed; so a text written anew from its formula stays as it is. -/

namespace Worksheet

namespace Decimal.Binary64

theorem toFloat_toBits {x : Float} (finite : x.toBits.toNat < infinity) :
    toFloat x.toBits.toNat = x := by
  have word : (toFloat x.toBits.toNat).toBits = x.toBits :=
    UInt64.toNat_inj.1 (toBits_toFloat finite)
  generalize toFloat x.toBits.toNat = y at word
  obtain ⟨⟨bits, valid⟩⟩ := x
  obtain ⟨⟨others, fine⟩⟩ := y
  cases word
  rfl

end Decimal.Binary64

namespace Formula

variable {base : Address} {x y : Formula}

/-- The numbers of well-formed formulas are those without a sign that are finite. -/
theorem wellFormed_number_iff {value : Float} :
    WellFormed base (.number value) ↔
      ∃ bits, Decimal.Binary64.shape value = .finite false bits := by
  constructor
  · intro fine
    cases fine with
    | number bits finite => exact ⟨bits, Decimal.Binary64.shape_toFloat finite⟩
  · intro shaped
    obtain ⟨bits, shaped⟩ := shaped
    unfold Decimal.Binary64.shape at shaped
    dsimp only at shaped
    split at shaped
    next finite =>
      have unsigned := of_decide_eq_false (Decimal.Binary64.Shape.finite.inj shaped).1
      rw [Nat.mod_eq_of_lt (Nat.not_le.1 unsigned)] at finite
      rw [← Decimal.Binary64.toFloat_toBits finite]
      exact .number _ finite
    next => split at shaped <;> cases shaped

def normalize (base : Address) (text : String) : Except Fault String :=
  match read base text with
  | .ok x => x.render base
  | .error cause => .error (.formula cause)

theorem normalize_of_read {text : String} (found : read base text = .ok x) :
    normalize base text = x.render base := by
  unfold normalize
  rw [found]

theorem WellFormed.eq_of_render (fine : x.WellFormed base) (other : y.WellFormed base)
    (same : x.render base = y.render base) : x = y := by
  obtain ⟨text, rendered, found⟩ := fine.read_render
  obtain ⟨text', rendered', found'⟩ := other.read_render
  have texts : text = text' := Except.ok.inj (rendered.symm.trans (same.trans rendered'))
  rw [texts, found'] at found
  exact (Except.ok.inj found).symm

/-- Every well-formed formula is read back from its text, every formula that is read is well-formed,
no two well-formed formulas have one text, and a text written anew is written the same again. -/
theorem render_reads_back (base : Address) :
    (∀ x, WellFormed base x → ∃ text, x.render base = .ok text ∧ read base text = .ok x) ∧
    (∀ text x, read base text = .ok x → WellFormed base x) ∧
    (∀ x y, WellFormed base x → WellFormed base y → x.render base = y.render base → x = y) ∧
    ∀ text x, read base text = .ok x →
      ∃ canonical, normalize base text = .ok canonical ∧
        normalize base canonical = .ok canonical := by
  refine ⟨fun x fine => fine.read_render, fun text x => wellFormed_of_read,
    fun x y fine other => fine.eq_of_render other, fun text x found => ?_⟩
  obtain ⟨canonical, rendered, back⟩ := (wellFormed_of_read found).read_render
  refine ⟨canonical, ?_, ?_⟩
  · rw [normalize_of_read found, rendered]
  · rw [normalize_of_read back, rendered]

theorem render_reads_back_signs :
    ∃ text, render ⟨1, 1⟩ (.apply .sub [.apply .sub [.number 1, .apply .sub [.number 2]],
        .apply .max [.reference ⟨.relative (-1), .absolute 0⟩, .number 0.1]]) = .ok text ∧
      read ⟨1, 1⟩ text = .ok (.apply .sub [.apply .sub [.number 1, .apply .sub [.number 2]],
        .apply .max [.reference ⟨.relative (-1), .absolute 0⟩, .number 0.1]]) := by
  have one : WellFormed ⟨1, 1⟩ (.number 1) :=
    wellFormed_number_iff.2 ⟨4607182418800017408, by decide +kernel⟩
  have two : WellFormed ⟨1, 1⟩ (.number 2) :=
    wellFormed_number_iff.2 ⟨4611686018427387904, by decide +kernel⟩
  have tenth : WellFormed ⟨1, 1⟩ (.number 0.1) :=
    wellFormed_number_iff.2 ⟨4591870180066957722, by decide +kernel⟩
  have corner : WellFormed ⟨1, 1⟩ (.reference ⟨.relative (-1), .absolute 0⟩) :=
    .reference _ .origin (by decide) ⟨by decide, by decide⟩
  have negated : WellFormed ⟨1, 1⟩ (.apply .sub [.number 2]) :=
    .apply .sub _ (.inl rfl) (by simpa using two)
  have difference : WellFormed ⟨1, 1⟩ (.apply .sub [.number 1, .apply .sub [.number 2]]) :=
    .apply .sub _ (.inr rfl) (by simp [one, negated])
  have largest : WellFormed ⟨1, 1⟩
      (.apply .max [.reference ⟨.relative (-1), .absolute 0⟩, .number 0.1]) :=
    .apply .max _ (Nat.succ_pos 1) (by simp [corner, tenth])
  exact (render_reads_back _).1 _ (.apply .sub _ (.inr rfl) (by simp [difference, largest]))

end Formula

end Worksheet
