import Mathlib.Data.String.Basic
import Worksheet.Proofs.Sheet.Circles

/-! Walks along readers. A walk goes depth first from cell to reader, the readers of a cell in the order
of their names, and enters no cell twice. A cascade enters cells again and again, once for every path
that leads to them; but in the order of the first computations it is a walk. -/

namespace Worksheet

open Relation Cells

def ReadersInOrder (formulas : Address → Option Formula) (p : Address) (readers : List Address) :
    Prop :=
  readers.Pairwise (fun a b => a.name < b.name) ∧ ∀ a, a ∈ readers ↔ Reads formulas a p

/-- A walk from the cells of a list, one after another: from those met before to those met at its end,
each in the order in which it was met. -/
inductive Walks (formulas : Address → Option Formula) :
    List Address → List Address → List Address → Prop
  | nil (seen : List Address) : Walks formulas seen [] seen
  | pass {seen rest last : List Address} {a : Address} (met : a ∈ seen)
      (next : Walks formulas seen rest last) : Walks formulas seen (a :: rest) last
  | enter {seen readers mid rest last : List Address} {a : Address} (fresh : a ∉ seen)
      (order : ReadersInOrder formulas a readers)
      (inner : Walks formulas (seen ++ [a]) readers mid) (next : Walks formulas mid rest last) :
      Walks formulas seen (a :: rest) last

section

variable {formulas : Address → Option Formula} {p : Address}
  {seen mid last todo rest readers others : List Address}

theorem ReadersInOrder.unique (one : ReadersInOrder formulas p readers)
    (other : ReadersInOrder formulas p others) : readers = others := by
  have irreflexive : Std.Irrefl fun a b : Address => a.name < b.name := ⟨fun a => lt_irrefl a.name⟩
  have antisymmetric : Std.Antisymm fun a b : Address => a.name < b.name :=
    ⟨fun a b first second => absurd second (lt_asymm first)⟩
  exact one.1.eq_of_mem_iff other.1 fun a => (one.2 a).trans (other.2 a).symm

namespace Walks

theorem subset (walks : Walks formulas seen todo last) : seen ⊆ last := by
  induction walks with
  | nil seen => exact List.Subset.refl seen
  | pass met next ih => exact ih
  | enter fresh order inner next ih ih' =>
    exact fun c member => ih' (ih (List.mem_append_left _ member))

theorem covers (walks : Walks formulas seen todo last) : todo ⊆ last := by
  induction walks with
  | nil seen => exact List.nil_subset seen
  | pass met next ih => exact List.cons_subset.2 ⟨next.subset met, ih⟩
  | enter fresh order inner next ih ih' =>
    refine List.cons_subset.2 ⟨next.subset (inner.subset ?_), ih'⟩
    exact List.mem_append_right _ (List.mem_singleton_self _)

theorem eq_of_subset (walks : Walks formulas seen todo last) (met : todo ⊆ seen) : last = seen := by
  induction walks with
  | nil seen => rfl
  | pass _ next ih => exact ih (List.cons_subset.1 met).2
  | enter fresh order inner next ih ih' => exact absurd (List.cons_subset.1 met).1 fresh

/-- What the walk has met itself it has left only after all readers. -/
theorem closed (walks : Walks formulas seen todo last) {c d : Address} (met : c ∈ last)
    (fresh : c ∉ seen) (reads : Reads formulas d c) : d ∈ last := by
  induction walks with
  | nil seen => exact absurd met fresh
  | pass _ next ih => exact ih met fresh
  | @enter seen readers mid rest last a new order inner next ih ih' =>
    by_cases early : c ∈ mid
    · by_cases same : c = a
      · subst same
        exact next.subset (inner.covers ((order.2 d).2 reads))
      · refine next.subset (ih early fun before => ?_)
        rcases List.mem_append.1 before with old | here
        · exact fresh old
        · exact same (List.mem_singleton.1 here)
    · exact ih' met early

theorem reachable (walks : Walks formulas seen todo last) {c : Address} (met : c ∈ last) :
    c ∈ seen ∨ ∃ s ∈ todo, ReflTransGen (Reads formulas) c s := by
  induction walks with
  | nil seen => exact .inl met
  | pass _ next ih =>
    exact (ih met).imp_right fun found => found.imp fun s inside =>
      ⟨List.mem_cons_of_mem _ inside.1, inside.2⟩
  | @enter seen readers mid rest last a new order inner next ih ih' =>
    rcases ih' met with early | ⟨s, member, path⟩
    · rcases ih early with before | ⟨s, member, path⟩
      · rcases List.mem_append.1 before with old | here
        · exact .inl old
        · exact .inr ⟨a, List.mem_cons_self, List.mem_singleton.1 here ▸ .refl⟩
      · exact .inr ⟨a, List.mem_cons_self, path.tail ((order.2 s).1 member)⟩
    · exact .inr ⟨s, List.mem_cons_of_mem a member, path⟩

theorem mem_iff (walks : Walks formulas [] todo last) {c : Address} :
    c ∈ last ↔ ∃ s ∈ todo, ReflTransGen (Reads formulas) c s := by
  refine ⟨fun met => (walks.reachable met).resolve_left List.not_mem_nil, ?_⟩
  rintro ⟨s, member, path⟩
  induction path using ReflTransGen.head_induction_on with
  | refl => exact walks.covers member
  | head reads _ ih => exact walks.closed ih List.not_mem_nil reads

theorem nodup (walks : Walks formulas seen todo last) (distinct : seen.Nodup) : last.Nodup := by
  induction walks with
  | nil seen => exact distinct
  | pass met next ih => exact ih distinct
  | enter fresh order inner next ih ih' =>
    exact ih' (ih (List.nodup_append_comm.1 (List.nodup_cons.2 ⟨fresh, distinct⟩)))

theorem append (first : Walks formulas seen todo mid) (second : Walks formulas mid rest last) :
    Walks formulas seen (todo ++ rest) last := by
  induction first with
  | nil seen => exact second
  | pass met next ih => exact .pass met (ih second)
  | enter fresh order inner next ih ih' => exact .enter fresh order inner (ih' second)

theorem unique {last' : List Address} (one : Walks formulas seen todo last)
    (other : Walks formulas seen todo last') : last = last' := by
  induction one generalizing last' with
  | nil seen =>
    cases other
    rfl
  | pass met next ih =>
    cases other with
    | pass _ next' => exact ih next'
    | enter fresh _ _ _ => exact absurd met fresh
  | enter fresh order inner next ih ih' =>
    cases other with
    | pass met _ => exact absurd met fresh
    | enter _ order' inner' next' =>
      cases order.unique order'
      cases ih inner'
      exact ih' next'

end Walks

end

end Worksheet
