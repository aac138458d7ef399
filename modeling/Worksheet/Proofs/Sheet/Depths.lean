import Mathlib.Data.String.Basic
import Worksheet.Proofs.Sheet.Rebuilding

/-! Depths. A cell that reads no formula cell has depth zero, and every other cell is one deeper than the
deepest formula cell that it reads. Where there is no circle these depths exist, and a listing goes by
them: a layer of the dependencies is what has one depth, and within a layer the order of the names stays. -/

namespace Worksheet

open Relation Cells

def ReadsFormula (formulas : Address → Option Formula) (a p : Address) : Prop :=
  Reads formulas a p ∧ ∃ formula, formulas p = some formula

structure IsDepth (formulas : Address → Option Formula) (depth : Address → Nat) : Prop where
  zero : ∀ a, (∀ p, ¬ ReadsFormula formulas a p) → depth a = 0
  succ : ∀ a p, ReadsFormula formulas a p →
    (∀ q, ReadsFormula formulas a q → depth q ≤ depth p) → depth a = depth p + 1

section

variable {formulas : Address → Option Formula}

theorem exists_deepest (depth : Address → Nat) {a p : Address} (reads : ReadsFormula formulas a p) :
    ∃ q, ReadsFormula formulas a q ∧ ∀ r, ReadsFormula formulas a r → depth r ≤ depth q :=
  Set.exists_max_image {q | ReadsFormula formulas a q} depth (Set.toFinite _) ⟨p, reads⟩

theorem exists_isDepth (acyclic : ∀ a, ¬ TransGen (Reads formulas) a a) :
    ∃ depth, IsDepth formulas depth := by
  classical
  have descent := wellFounded_reads acyclic
  let sources : Address → Finset Address :=
    fun a => (Set.toFinite {p | ReadsFormula formulas a p}).toFinset
  have mem_sources : ∀ a p, p ∈ sources a ↔ ReadsFormula formulas a p :=
    fun a p => Set.Finite.mem_toFinset _
  let depth : Address → Nat := descent.fix fun a below =>
    (sources a).attach.sup fun p => below p.1 ((mem_sources a p.1).1 p.2).1 + 1
  have unfolded : ∀ a, depth a = (sources a).sup fun p => depth p + 1 := by
    intro a
    change descent.fix _ a = _
    rw [descent.fix_eq]
    exact Finset.sup_attach (sources a) fun p => depth p + 1
  refine ⟨depth, fun a none => ?_, fun a p reads deepest => ?_⟩
  · rw [unfolded, Finset.eq_empty_of_forall_notMem fun p member => none p ((mem_sources a p).1 member)]
    rfl
  · rw [unfolded]
    refine le_antisymm (Finset.sup_le fun q member => ?_) ?_
    · exact Nat.succ_le_succ (deepest q ((mem_sources a q).1 member))
    · exact Finset.le_sup (f := fun p => depth p + 1) ((mem_sources a p).2 reads)

namespace IsDepth

variable {depth other : Address → Nat}

theorem lt (law : IsDepth formulas depth) {a p : Address} (reads : ReadsFormula formulas a p) :
    depth p < depth a := by
  obtain ⟨q, found, deepest⟩ := exists_deepest depth reads
  rw [law.succ a q found deepest]
  exact Nat.lt_succ_of_le (deepest p reads)

theorem exists_le (law : IsDepth formulas depth) {a : Address} {k : Nat} (deeper : k < depth a) :
    ∃ p, ReadsFormula formulas a p ∧ k ≤ depth p := by
  by_cases some : ∃ p, ReadsFormula formulas a p
  · obtain ⟨p, reads⟩ := some
    obtain ⟨q, found, deepest⟩ := exists_deepest depth reads
    rw [law.succ a q found deepest] at deeper
    exact ⟨q, found, Nat.le_of_lt_succ deeper⟩
  · rw [law.zero a (not_exists.1 some)] at deeper
    exact absurd deeper (Nat.not_lt_zero k)

theorem unique (acyclic : ∀ a, ¬ TransGen (Reads formulas) a a) (law : IsDepth formulas depth)
    (law' : IsDepth formulas other) : other = depth := by
  funext a
  -- Upward along what is read: where the sources agree, the deepest of them is the same.
  induction a using (wellFounded_reads acyclic).induction with
  | h a ih =>
    by_cases some : ∃ p, ReadsFormula formulas a p
    · obtain ⟨p, reads⟩ := some
      obtain ⟨q, found, deepest⟩ := exists_deepest depth reads
      have same : ∀ r, ReadsFormula formulas a r → other r = depth r := fun r reads => ih r reads.1
      rw [law.succ a q found deepest, ← same q found]
      refine law'.succ a q found fun r reads => ?_
      rw [same r reads, same q found]
      exact deepest r reads
    · rw [law.zero a (not_exists.1 some), law'.zero a (not_exists.1 some)]

end IsDepth

end

namespace Dependencies

/-- A rank that says how far down a name stands: the names of a rank above `k` are those that have a
source of rank `k` or more among the names. -/
def Ranks (all : Dependencies) (rank : String → Nat) : Prop :=
  ∀ entry ∈ all, ∀ k, k < rank entry.1 ↔ ∃ source ∈ entry.2, source ∈ all.names ∧ k ≤ rank source

def atLeast (all : Dependencies) (rank : String → Nat) (k : Nat) : Dependencies :=
  all.filter fun entry => k ≤ rank entry.1

def Before (rank : String → Nat) (one other : String) : Prop :=
  rank one < rank other ∨ rank one = rank other ∧ one < other

section

variable {all : Dependencies} {rank : String → Nat} {k : Nat}

theorem mem_names_atLeast {name : String} :
    name ∈ (all.atLeast rank k).names ↔ name ∈ all.names ∧ k ≤ rank name := by
  unfold names atLeast
  simp only [List.mem_map, List.mem_filter, decide_eq_true_eq]
  constructor
  · rintro ⟨entry, ⟨member, deep⟩, rfl⟩
    exact ⟨⟨entry, member, rfl⟩, deep⟩
  · rintro ⟨⟨entry, member, rfl⟩, deep⟩
    exact ⟨entry, ⟨member, deep⟩, rfl⟩

/-- Of the names of rank `k` and more, those go first that have no source left, which are those of
rank `k`. -/
theorem split_atLeast (ranks : all.Ranks rank) :
    (all.atLeast rank k).split = (all.filter fun entry => rank entry.1 = k, all.atLeast rank (k + 1)) := by
  have left : ∀ entry ∈ all, (entry.2.all fun source =>
      !(Std.ExtTreeSet.ofList (all.atLeast rank k).names).contains source) =
        decide (¬ k < rank entry.1) := by
    intro entry member
    rw [Bool.eq_iff_iff, decide_eq_true_iff, List.all_eq_true, ranks entry member]
    simp only [Std.ExtTreeSet.contains_ofList, Bool.not_eq_true', List.contains_eq_mem,
      decide_eq_false_iff_not, mem_names_atLeast, not_exists, not_and]
  unfold split
  dsimp only
  rw [List.partition_eq_filter_filter]
  unfold atLeast at left ⊢
  rw [List.filter_filter, List.filter_filter]
  refine Prod.ext (List.filter_congr fun entry member => ?_) (List.filter_congr fun entry member => ?_)
  · rw [left entry member, Bool.eq_iff_iff, Bool.and_eq_true]
    simp only [decide_eq_true_eq]
    omega
  · rw [Function.comp_apply, left entry member, Bool.eq_iff_iff, Bool.and_eq_true]
    simp only [Bool.not_eq_true', decide_eq_false_iff_not, decide_eq_true_eq]
    omega

theorem exists_rank (ranks : all.Ranks rank) {name : String} (member : name ∈ all.names)
    (deep : k ≤ rank name) : ∃ other ∈ all.names, rank other = k := by
  obtain ⟨n, same⟩ := Nat.exists_eq_add_of_le deep
  induction n generalizing name with
  | zero => exact ⟨name, member, same⟩
  | succ n ih =>
    obtain ⟨entry, found, rfl⟩ := List.mem_map.1 member
    obtain ⟨source, reads, listed, high⟩ := (ranks entry found (k + n)).1 (by omega)
    have low := (ranks entry found (rank source)).2 ⟨source, reads, listed, le_rfl⟩
    exact ih listed (by omega) (by omega)

theorem pairwise_layers (ranks : all.Ranks rank) (sorted : all.names.Pairwise (· < ·)) (k : Nat) :
    (all.atLeast rank k).layers.flatten.Pairwise (Before rank) := by
  induction size : (all.atLeast rank k).length using Nat.strong_induction_on generalizing k with
  | _ n ih =>
    have halves := split_atLeast (k := k) ranks
    rw [layers]
    split
    next smaller =>
      rw [halves] at smaller ⊢
      rw [List.flatten_cons, List.pairwise_append]
      refine ⟨?_, ih _ (size ▸ smaller) (k + 1) rfl, fun one first other later => ?_⟩
      · have layer : ((all.filter fun entry => rank entry.1 = k).map Prod.fst).Pairwise (· < ·) :=
          sorted.sublist (List.filter_sublist.map Prod.fst)
        refine List.Pairwise.imp_of_mem (fun {one other} first second below => .inr ⟨?_, below⟩) layer
        obtain ⟨entry, member, rfl⟩ := List.mem_map.1 first
        obtain ⟨entry', member', rfl⟩ := List.mem_map.1 second
        rw [of_decide_eq_true (List.mem_filter.1 member).2, of_decide_eq_true (List.mem_filter.1 member').2]
      · obtain ⟨entry, member, rfl⟩ := List.mem_map.1 first
        rw [(perm_layers _).mem_iff, mem_names_atLeast] at later
        have same : rank entry.1 = k := of_decide_eq_true (List.mem_filter.1 member).2
        exact .inl (by omega)
    next stuck =>
      -- a name that is left would have one of rank `k` beside it, and the split would take that
      have none : all.atLeast rank k = [] := by
        by_contra some
        obtain ⟨entry, member⟩ := List.exists_mem_of_ne_nil _ some
        obtain ⟨listed, deep⟩ := mem_names_atLeast.1 (List.mem_map_of_mem member)
        obtain ⟨other, found, same⟩ := exists_rank ranks listed deep
        obtain ⟨entry, held, rfl⟩ := List.mem_map.1 found
        refine stuck ?_
        have parts := (perm_split (all.atLeast rank k)).length_eq
        have first : entry.1 ∈ (all.atLeast rank k).split.1.names := by
          rw [halves]
          exact List.mem_map_of_mem (List.mem_filter.2 ⟨held, decide_eq_true same⟩)
        have positive := List.length_pos_of_mem first
        unfold names at parts positive
        simp only [List.length_append, List.length_map] at parts positive
        omega
      rw [none]
      exact List.Pairwise.nil

end

end Dependencies

section

variable {cells : Cells} {depth : Address → Nat}

theorem Cells.tellsReader_eq_true_iff {p : Address} {name : String} :
    cells.tellsReader p.name name = true ↔ name ∈ cells.readers p := by
  unfold tellsReader readers
  cases cells[p.name]? with
  | some cell => exact cell.readers.contains_iff_mem
  | none => exact iff_of_false Bool.false_ne_true Std.ExtTreeSet.not_mem_empty

def Cells.rank (cells : Cells) (depth : Address → Nat) (name : String) : Nat :=
  match cells.formulaAt? name with
  | some a => depth a
  | none => 0

theorem Cells.Proper.rank_name (proper : cells.Proper) {a : Address} {formula : Formula}
    (held : cells.formula? a = some formula) : cells.rank depth a.name = depth a := by
  unfold rank
  rw [proper.formulaAt?_eq_some.2 ⟨rfl, formula, held⟩]

theorem Cells.Intact.ranks_dependencies (intact : cells.Intact)
    (law : IsDepth cells.formula? depth) : cells.dependencies.Ranks (cells.rank depth) := by
  intro entry member k
  rw [names_dependencies]
  obtain ⟨name, listed, rfl⟩ := List.mem_map.1 member
  obtain ⟨a, found⟩ := mem_formulaNames.1 listed
  obtain ⟨rfl, formula, held⟩ := intact.proper.formulaAt?_eq_some.1 found
  dsimp only
  rw [intact.proper.rank_name held]
  constructor
  · intro deeper
    obtain ⟨p, ⟨reads, other, inside⟩, deep⟩ := law.exists_le deeper
    have source : p.name ∈ cells.formulaNames := intact.working.mem_formulaNames.2 ⟨other, inside⟩
    refine ⟨p.name, List.mem_filter.2 ⟨source, ?_⟩, source, ?_⟩
    · rw [tellsReader_eq_true_iff]
      exact (intact.told p a.name).2 ⟨a, rfl, reads⟩
    · rw [intact.proper.rank_name inside]
      exact deep
  · rintro ⟨source, told, member, deep⟩
    obtain ⟨p, found⟩ := mem_formulaNames.1 member
    obtain ⟨rfl, other, inside⟩ := intact.proper.formulaAt?_eq_some.1 found
    rw [intact.proper.rank_name inside] at deep
    have reads := intact.formula_of_told (tellsReader_eq_true_iff.1 (List.mem_filter.1 told).2)
    exact Nat.lt_of_le_of_lt deep (law.lt ⟨reads, other, inside⟩)

theorem Cells.pairwise_formulaNames (cells : Cells) : cells.formulaNames.Pairwise (· < ·) := by
  have keys : cells.keys.Pairwise fun one other => compare one other = .lt :=
    Std.ExtTreeMap.ordered_keys
  refine List.Pairwise.filter _ (keys.imp fun {one other} below => ?_)
  exact compare_lt_iff_lt.1 below

theorem Cells.Intact.pairwise_listed (intact : cells.Intact) (law : IsDepth cells.formula? depth) :
    cells.listed.Pairwise (Dependencies.Before (cells.rank depth)) := by
  have sorted : Dependencies.names cells.dependencies |>.Pairwise (· < ·) := by
    rw [names_dependencies]
    exact cells.pairwise_formulaNames
  have layers := Dependencies.pairwise_layers (intact.ranks_dependencies law) sorted 0
  have whole : cells.dependencies.atLeast (cells.rank depth) 0 = cells.dependencies :=
    List.filter_eq_self.2 fun entry _ => decide_eq_true (Nat.zero_le _)
  rw [whole] at layers
  exact layers

def Cells.listedCells (cells : Cells) : List Address := cells.listed.filterMap cells.formulaAt?

theorem Cells.Proper.map_name_listedCells (proper : cells.Proper) :
    cells.listedCells.map Address.name = cells.listed :=
  proper.map_name_filterMap fun _ member => mem_formulaNames.1 (cells.perm_listed.mem_iff.1 member)

theorem Cells.Proper.mem_listedCells (proper : cells.Proper) {a : Address} :
    a ∈ cells.listedCells ↔ ∃ formula, cells.formula? a = some formula := by
  rw [← List.mem_map_of_injective Address.name_injective, proper.map_name_listedCells,
    cells.perm_listed.mem_iff, mem_formulaNames]
  simp only [proper.formulaAt?_eq_some]
  constructor
  · rintro ⟨b, same, held⟩
    exact Address.name_injective same ▸ held
  · intro held
    exact ⟨a, rfl, held⟩

theorem Cells.Intact.pairwise_listedCells (intact : cells.Intact)
    (law : IsDepth cells.formula? depth) :
    cells.listedCells.Pairwise fun a b => depth a < depth b ∨ depth a = depth b ∧ a.name < b.name := by
  have below := intact.pairwise_listed law
  rw [← intact.proper.map_name_listedCells, List.pairwise_map] at below
  refine below.imp_of_mem fun {a b} first second before => ?_
  obtain ⟨formula, held⟩ := intact.proper.mem_listedCells.1 first
  obtain ⟨other, inside⟩ := intact.proper.mem_listedCells.1 second
  unfold Dependencies.Before at before
  rw [intact.proper.rank_name held, intact.proper.rank_name inside] at before
  exact before

theorem Cells.Intact.mem_front (intact : cells.Intact) (law : IsDepth cells.formula? depth)
    {front back : List Address} {a p : Address} (same : cells.listedCells = front ++ a :: back)
    (reads : ReadsFormula cells.formula? a p) : p ∈ front := by
  have ordered := intact.pairwise_listedCells law
  have member : p ∈ cells.listedCells := intact.proper.mem_listedCells.2 reads.2
  have shallower := law.lt reads
  rw [same] at member ordered
  rcases List.mem_append.1 member with before | behind
  · exact before
  · rcases List.mem_cons.1 behind with itself | later
    · exact absurd shallower (itself ▸ lt_irrefl _)
    · have above := (List.pairwise_cons.1 (List.pairwise_append.1 ordered).2.1).1 p later
      omega

theorem Cells.Proper.nodup_listedCells (proper : cells.Proper) : cells.listedCells.Nodup := by
  refine List.Nodup.of_map Address.name ?_
  rw [proper.map_name_listedCells]
  exact cells.perm_listed.nodup_iff.2 (nodup_formulaNames cells)

theorem Cells.Intact.wellFounded_tellsReader (intact : cells.Intact) :
    WellFounded fun source name : String => cells.tellsReader source name = true := by
  have inhabited : Nonempty Address := ⟨.origin⟩
  have home : ∀ a : Address, Function.invFun Address.name a.name = a :=
    Function.leftInverse_invFun Address.name_injective
  refine Subrelation.wf (fun {source name} told => ?_)
    (InvImage.wf (Function.invFun Address.name) (wellFounded_reads intact.acyclic))
  change Reads cells.formula? (Function.invFun Address.name name) (Function.invFun Address.name source)
  cases held : cells[source]? with
  | none =>
    unfold tellsReader at told
    rw [held] at told
    cases told
  | some cell =>
    have named := (intact.proper source cell held).named
    subst named
    obtain ⟨a, rfl, reads⟩ := (intact.told _ name).1 (tellsReader_eq_true_iff.1 told)
    rw [home, home]
    exact reads

end

namespace Sheet

theorem listing_eq_map {sheet : Sheet} (stable : sheet.cells.Stable) :
    sheet.listing = sheet.cells.listedCells.map fun a => (a.name, (sheet.query a.name).text) := by
  unfold listing Cells.listing
  rw [← stable.intact.proper.map_name_listedCells, List.map_map]
  refine List.map_congr_left fun a member => ?_
  obtain ⟨formula, held⟩ := stable.intact.proper.mem_listedCells.1 member
  rw [text_query (Address.ofName?_name (stable.nameable a formula held))]
  rfl

theorem length_listing (sheet : Sheet) : sheet.listing.length = sheet.size := by
  unfold listing Cells.listing size
  rw [List.length_map]
  exact (Cells.perm_listed sheet.cells).length_eq

/-- A listing has every formula cell once and nothing else, each with the text that a query shows, by
depth and within one depth by name; so every cell comes behind all formula cells that it reads. The
depths are there to be counted, in one way only, and the recorded readers lead back to an end. -/
theorem listing_by_depth (history : List Operation) :
    ∃ (depth : Address → Nat) (listed : List Address),
      IsDepth (after history).cells.formula? depth ∧
      (∀ other, IsDepth (after history).cells.formula? other → other = depth) ∧
      (after history).listing = listed.map (fun a => (a.name, ((after history).query a.name).text)) ∧
      (∀ a, a ∈ listed ↔ ∃ formula, (after history).cells.formula? a = some formula) ∧
      listed.Nodup ∧ (after history).listing.length = (after history).size ∧
      listed.Pairwise (fun a b => depth a < depth b ∨ depth a = depth b ∧ a.name < b.name) ∧
      (∀ front a back, listed = front ++ a :: back →
        ∀ p, ReadsFormula (after history).cells.formula? a p → p ∈ front) ∧
      WellFounded (fun source name : String =>
        (after history).cells.tellsReader source name = true) := by
  have stable := (after_stable history).now
  obtain ⟨depth, law⟩ := exists_isDepth stable.intact.acyclic
  exact ⟨depth, (after history).cells.listedCells, law,
    fun other law' => law.unique stable.intact.acyclic law', listing_eq_map stable,
    fun a => stable.intact.proper.mem_listedCells, stable.intact.proper.nodup_listedCells,
    length_listing (after history), stable.intact.pairwise_listedCells law,
    fun front a back same p reads => stable.intact.mem_front law same reads,
    stable.intact.wellFounded_tellsReader⟩

example : (after [.edit "a3" "b1*2", .edit "a10" "a2", .edit "a2" "7", .edit "b1" "a2+c9"]).listing =
    [("a2", "7"), ("a10", "a2"), ("b1", "a2+c9"), ("a3", "b1*2")] := by
  decide +kernel

end Sheet

end Worksheet
