import Worksheet.Proofs.Sheet.Depths

/-! Counting depths. The depth of a name can be counted through its sources, with a table of the depths
that have been counted already. Where the sources lead to an end, sorting the names by the counted depths
comes to the same order as taking them away layer by layer. -/

namespace Worksheet

namespace Dependencies

def sources (all : Dependencies) (name : String) : List String := (all.lookup name).getD []

abbrev Ends (all : Dependencies) : Prop := WellFounded fun source name => source ∈ all.sources name

def above (depths : List Nat) : Nat :=
  match depths.max? with
  | some deepest => deepest + 1
  | none => 0

/-- Counts the depth of a name that is not in the table, and enters it there. -/
def countDepth (all : Dependencies) (ends : all.Ends) (name : String) :
    StateM (Std.ExtTreeMap String Nat) Nat := do
  match (← get)[name]? with
  | some depth => return depth
  | none => do
      let depth := above (← (all.sources name).attach.mapM fun source => all.countDepth ends source.val)
      modify fun known => known.insert name depth
      return depth
termination_by ends.wrap name
decreasing_by exact source.property

def counted (all : Dependencies) (ends : all.Ends) : List (Nat × String) :=
  ((all.names.mapM fun name => return (← all.countDepth ends name, name)).run' ∅).run

def sorted (all : Dependencies) (ends : all.Ends) : List String :=
  ((all.counted ends).mergeSort fun one other => toLex one ≤ toLex other).map Prod.snd

def Sound (rank : String → Nat) (known : Std.ExtTreeMap String Nat) : Prop :=
  ∀ name depth, known[name]? = some depth → depth = rank name

section

variable {all : Dependencies} {rank : String → Nat} {known : Std.ExtTreeMap String Nat}

theorem Sound.insert (sound : Sound rank known) (name : String) :
    Sound rank (known.insert name (rank name)) := by
  intro other depth found
  rw [Std.ExtTreeMap.getElem?_insert] at found
  split at found
  next same =>
    rw [← compare_eq_iff_eq.1 same]
    exact (Option.some.inj found).symm
  next => exact sound other depth found

theorem lt_above {depths : List Nat} {k : Nat} : k < above depths ↔ ∃ depth ∈ depths, k ≤ depth := by
  unfold above
  split
  next deepest found =>
    obtain ⟨member, largest⟩ := List.max?_eq_some_iff.1 found
    constructor
    · intro low
      exact ⟨deepest, member, Nat.le_of_lt_succ low⟩
    · rintro ⟨depth, listed, low⟩
      exact Nat.lt_succ_of_le (low.trans (largest depth listed))
  next none =>
    rw [List.max?_eq_none_iff.1 none]
    constructor
    · nofun
    · rintro ⟨_, listed, _⟩
      exact absurd listed List.not_mem_nil

theorem sources_of_mem {entry : String × List String} (distinct : all.names.Nodup) (member : entry ∈ all) :
    all.sources entry.1 = entry.2 := by
  induction all with
  | nil => exact absurd member List.not_mem_nil
  | cons first rest ih =>
    obtain ⟨fresh, distinct⟩ := List.nodup_cons.1 distinct
    unfold sources
    rw [List.lookup_cons]
    obtain rfl | later := List.mem_cons.1 member
    · rw [beq_self_eq_true]
      rfl
    · have other : (entry.1 == first.1) = false :=
        beq_false_of_ne fun same => fresh (same ▸ List.mem_map_of_mem later)
      rw [other]
      exact ih distinct later

theorem exists_mem_of_mem_sources {source name : String} (reads : source ∈ all.sources name) :
    ∃ entry ∈ all, entry.1 = name ∧ source ∈ entry.2 := by
  unfold sources at reads
  cases found : all.lookup name with
  | none =>
    rw [found] at reads
    exact absurd reads List.not_mem_nil
  | some listed =>
    rw [found] at reads
    obtain ⟨front, back, same, _⟩ := List.lookup_eq_some_iff.1 found
    exact ⟨(name, listed), by rw [same]; exact List.mem_append_right front List.mem_cons_self, rfl, reads⟩

theorem mapM_run {α : Type} {count : String → StateM (Std.ExtTreeMap String Nat) α} {value : String → α}
    {names : List String}
    (step : ∀ name ∈ names, ∀ known, Sound rank known →
      ∃ next, (count name).run known = pure (value name, next) ∧ Sound rank next)
    (sound : Sound rank known) :
    ∃ next, (names.mapM count).run known = pure (names.map value, next) ∧ Sound rank next := by
  induction names generalizing known with
  | nil => exact ⟨known, rfl, sound⟩
  | cons name rest ih =>
    obtain ⟨next, first, sound⟩ := step name List.mem_cons_self known sound
    obtain ⟨last, others, sound⟩ :=
      ih (fun other member => step other (List.mem_cons_of_mem name member)) sound
    refine ⟨last, ?_, sound⟩
    simp only [List.mapM_cons, StateT.run_bind, first, others, pure_bind, StateT.run_pure, List.map_cons]

/-- The ranks of what stands in a table of dependencies are the depths that are counted. -/
theorem rank_eq_above (ranks : all.Ranks rank) {entry : String × List String} (member : entry ∈ all)
    (listed : ∀ source ∈ entry.2, source ∈ all.names) : rank entry.1 = above (entry.2.map rank) := by
  refine eq_of_forall_lt_iff fun k => ?_
  rw [ranks entry member k, lt_above]
  constructor
  · rintro ⟨source, reads, _, low⟩
    exact ⟨rank source, List.mem_map_of_mem reads, low⟩
  · rintro ⟨_, found, low⟩
    obtain ⟨source, reads, rfl⟩ := List.mem_map.1 found
    exact ⟨source, reads, listed source reads, low⟩

variable (ends : all.Ends) (ranks : all.Ranks rank) (distinct : all.names.Nodup)
  (closed : ∀ entry ∈ all, ∀ source ∈ entry.2, source ∈ all.names)

include ranks distinct closed

theorem countDepth_run {name : String} (member : name ∈ all.names) (sound : Sound rank known) :
    ∃ next, (all.countDepth ends name).run known = pure (rank name, next) ∧ Sound rank next := by
  induction name using ends.induction generalizing known with
  | h name ih =>
    obtain ⟨entry, listed, rfl⟩ := List.mem_map.1 member
    have sources := sources_of_mem distinct listed
    rw [countDepth, StateT.run_bind, StateT.run_get, pure_bind]
    -- A depth in the table is true. Otherwise the sources are counted first, and the largest gives this one.
    cases found : known[entry.1]? with
    | some depth =>
      rw [sound _ _ found]
      exact ⟨known, rfl, sound⟩
    | none =>
      have below : ∀ source ∈ all.sources entry.1, ∀ known, Sound rank known →
          ∃ next, (all.countDepth ends source).run known = pure (rank source, next) ∧ Sound rank next :=
        fun source reads known sound => ih source reads (closed entry listed source (sources ▸ reads)) sound
      obtain ⟨next, counted, sound⟩ := mapM_run below sound
      refine ⟨next.insert entry.1 (rank entry.1), ?_, sound.insert entry.1⟩
      dsimp only
      rw [List.mapM_subtype fun source _ => rfl, List.unattach_attach, StateT.run_bind, counted, pure_bind,
        sources, ← rank_eq_above ranks listed (closed entry listed)]
      rfl

theorem counted_eq : all.counted ends = all.names.map fun name => (rank name, name) := by
  have empty : Sound rank ∅ := by
    intro name depth found
    rw [Std.ExtTreeMap.getElem?_empty] at found
    cases found
  have one : ∀ name ∈ all.names, ∀ known, Sound rank known →
      ∃ next, StateT.run (do return (← all.countDepth ends name, name)) known =
        (pure ((rank name, name), next) : Id _) ∧ Sound rank next := by
    intro name member known sound
    obtain ⟨next, run, sound⟩ := countDepth_run ends ranks distinct closed member sound
    refine ⟨next, ?_, sound⟩
    rw [StateT.run_bind, run]
    rfl
  obtain ⟨_, run, _⟩ := mapM_run one empty
  unfold counted
  rw [StateT.run'_eq, run]
  rfl

/-- Sorting by counted depths comes to the only order of the names that goes by rank. -/
theorem sorted_eq {listed : List String} (whole : listed.Perm all.names)
    (order : listed.Pairwise (Before rank)) : all.sorted ends = listed := by
  have both : (all.counted ends).mergeSort (fun one other => toLex one ≤ toLex other) =
      listed.map fun name => (rank name, name) := by
    rw [counted_eq ends ranks distinct closed]
    -- Both lists have the same entries in the same order, and pairs of depth and name are ordered without ties.
    refine List.Perm.eq_of_pairwise
      (fun one other _ _ (le : toLex one ≤ toLex other) ge => toLex.injective (le_antisymm le ge)) ?_ ?_ ?_
    · refine (List.pairwise_mergeSort (fun one other third before after => ?_) (fun one other => ?_) _).imp
        of_decide_eq_true
      · exact decide_eq_true ((of_decide_eq_true before).trans (of_decide_eq_true after))
      · rw [Bool.or_eq_true, decide_eq_true_eq, decide_eq_true_eq]
        exact le_total _ _
    · rw [List.pairwise_map]
      refine order.imp fun {one other} before => ?_
      rw [Prod.Lex.toLex_le_toLex]
      exact before.imp id (And.imp id le_of_lt)
    · exact (List.mergeSort_perm _ _).trans (whole.symm.map _)
  unfold sorted
  rw [both, List.map_map]
  exact List.map_id listed

end

end Dependencies

namespace Cells

variable {cells : Cells}

theorem nodup_names_dependencies (cells : Cells) : cells.dependencies.names.Nodup :=
  cells.names_dependencies ▸ nodup_formulaNames cells

theorem mem_names_of_source : ∀ entry ∈ cells.dependencies, ∀ source ∈ entry.2,
    source ∈ cells.dependencies.names := by
  intro entry member source reads
  obtain ⟨name, _, rfl⟩ := List.mem_map.1 member
  rw [names_dependencies]
  exact (List.mem_filter.1 reads).1

end Cells

namespace Cells.Intact

variable {cells : Cells}

theorem ends_dependencies (intact : cells.Intact) : cells.dependencies.Ends := by
  refine Subrelation.wf (fun {source name} reads => ?_) intact.wellFounded_tellsReader
  obtain ⟨entry, member, rfl, inside⟩ := Dependencies.exists_mem_of_mem_sources reads
  obtain ⟨name, _, rfl⟩ := List.mem_map.1 member
  exact (List.mem_filter.1 inside).2

theorem counted_dependencies (intact : cells.Intact) {depth : Address → Nat}
    (law : IsDepth cells.formula? depth) :
    cells.dependencies.counted intact.ends_dependencies =
      cells.formulaNames.map fun name => (cells.rank depth name, name) := by
  rw [Dependencies.counted_eq _ (intact.ranks_dependencies law) (nodup_names_dependencies cells)
    mem_names_of_source, names_dependencies]

theorem listed_eq_sorted (intact : cells.Intact) :
    cells.listed = cells.dependencies.sorted intact.ends_dependencies := by
  obtain ⟨depth, law⟩ := exists_isDepth intact.acyclic
  have whole : cells.listed.Perm cells.dependencies.names := cells.names_dependencies ▸ cells.perm_listed
  exact (Dependencies.sorted_eq _ (intact.ranks_dependencies law) (nodup_names_dependencies cells)
    mem_names_of_source whole (intact.pairwise_listed law)).symm

end Cells.Intact

theorem Sheet.listing_eq_sorted (history : List Operation) :
    ∃ ends : (after history).cells.dependencies.Ends, (after history).listing =
      ((after history).cells.dependencies.sorted ends).map
        fun name => (name, (after history).cells.textOf name) := by
  have intact := (after_stable history).now.intact
  refine ⟨intact.ends_dependencies, ?_⟩
  rw [← intact.listed_eq_sorted]
  rfl

end Worksheet
