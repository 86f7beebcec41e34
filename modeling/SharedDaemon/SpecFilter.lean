import Mathlib.Algebra.Order.BigOperators.Group.List
import Mathlib.Algebra.Order.Group.Nat
import SharedDaemon.Startup

/-!
# Whose filter an event meets

`watch_loop` tries every path of an event with the filter of every spec, also of specs that
watch another directory.
-/

namespace SharedDaemon
namespace SpecFilter

open StdPath Watch Startup

/-- The path lies under what the spec watches: the directory, or what a watch on it sees. -/
def covers (dirs : DirAnswers) (spec : WatchSpec) (p : OsStr) : Bool :=
  components p = components (targetOf dirs spec) || sees dirs spec p

/-- Some path of the event passes the filter of a spec that watches it. -/
def Own (dirs : DirAnswers) (specs : List WatchSpec) (e : Event) : Prop :=
  ∃ p ∈ e.paths, ∃ spec ∈ specs, covers dirs spec p ∧ isRelevantPath p spec.filter

def named (p : OsStr) : Bool := ((fileName p).bind toStr).any fun name => !isJunkName name

/-- An event is relevant only to a spec that watches its paths, so that specs which watch
none of them change nothing, wherever they stand in the list. -/
structure FiltersOwn (dirs : DirAnswers) (specs : List WatchSpec) (e : Event) : Prop where
  own : relevant specs e = true → e.kind.changes = true ∧ Own dirs specs e
  frame : ∀ pre post new, specs = pre ++ post → (∀ p ∈ e.paths, covers dirs new p = false) →
    relevant (pre ++ new :: post) e = relevant specs e

variable {dirs : DirAnswers} {specs : List WatchSpec} {e : Event}

theorem relevant_eq_true : relevant specs e = true ↔
    e.kind.changes = true ∧ ∃ p ∈ e.paths, ∃ spec ∈ specs, isRelevantPath p spec.filter = true := by
  simp [relevant]

theorem named_of_isRelevantPath {p : OsStr} {filter : PathFilter}
    (h : isRelevantPath p filter = true) : named p = true := by
  simp only [isRelevantPath] at h
  simp only [named]
  split at h
  · cases h
  · rename_i name hname
    split at h
    · cases h
    · rename_i hjunk
      simpa [hname] using hjunk

theorem isRelevantPath_any (p : OsStr) : isRelevantPath p (.any [] [] []) = named p := by
  simp only [isRelevantPath, named]
  cases (fileName p).bind toStr with
  | none => rfl
  | some name => cases hjunk : isJunkName name <;> simp [hjunk]

theorem relevant_insert (pre post : List WatchSpec) (new : WatchSpec) :
    relevant (pre ++ new :: post) e =
      (relevant (pre ++ post) e ||
        (e.kind.changes && e.paths.any fun p => isRelevantPath p new.filter)) := by
  rw [Bool.eq_iff_iff]
  simp only [relevant, Bool.or_eq_true, Bool.and_eq_true, List.any_eq_true, List.mem_append,
    List.mem_cons]
  constructor
  · rintro ⟨hkind, p, hp, spec, hpre | rfl | hpost, hpasses⟩
    · exact .inl ⟨hkind, p, hp, spec, .inl hpre, hpasses⟩
    · exact .inr ⟨hkind, p, hp, hpasses⟩
    · exact .inl ⟨hkind, p, hp, spec, .inr hpost, hpasses⟩
  · rintro (⟨hkind, p, hp, spec, hpre | hpost, hpasses⟩ | ⟨hkind, p, hp, hpasses⟩)
    · exact ⟨hkind, p, hp, spec, .inl hpre, hpasses⟩
    · exact ⟨hkind, p, hp, spec, .inr (.inr hpost), hpasses⟩
    · exact ⟨hkind, p, hp, new, .inr (.inl rfl), hpasses⟩

theorem exists_deep (n : ℕ) : ∃ p : OsStr, p ≠ [] ∧ n < (components p).length := by
  induction n with
  | zero => exact ⟨[slash], by simp, by simp⟩
  | succ n ih =>
    obtain ⟨p, hp, hlt⟩ := ih
    have hname : IsName (ofString "x") := ⟨by decide +kernel, by decide +kernel, by decide +kernel⟩
    refine ⟨push p (ofString "x"), push_ne_nil hp _, ?_⟩
    rw [components_push hp hname.hasRoot, hname.following]
    simpa using hlt

/-- Some recursive watch covers none of the paths. -/
theorem exists_elsewhere (dirs : DirAnswers) (paths : List OsStr) :
    ∃ q, ∀ p ∈ paths, covers dirs (.dir q true) p = false := by
  obtain ⟨q, -, hq⟩ := exists_deep (paths.map fun p => (components p).length).sum
  refine ⟨q, fun p hp => ?_⟩
  have hle : (components p).length ≤ (paths.map fun p => (components p).length).sum :=
    List.le_sum_of_mem (List.mem_map_of_mem hp)
  have hlt : (components p).length < (components q).length := by omega
  have hne : components p ≠ components q := fun heq => by simp [heq] at hlt
  have hprefix : ¬ (components q).length < (components p).length := by omega
  simp [covers, sees, targetOf, WatchSpec.dir, hne, hprefix]

/-- A spec that passes nothing more changes nothing. -/
theorem relevant_of_insert {pre post : List WatchSpec} {new : WatchSpec}
    (h : relevant (pre ++ post) e = true ∨
      (e.kind.changes && e.paths.any fun p => isRelevantPath p new.filter) = false) :
    relevant (pre ++ new :: post) e = relevant (pre ++ post) e := by
  rw [relevant_insert]
  rcases h with hrel | hnone
  · rw [hrel, Bool.true_or]
  · rw [hnone, Bool.or_false]

theorem filtersOwn_of_not_changes (dirs : DirAnswers) (specs : List WatchSpec)
    (hkind : e.kind.changes = false) : FiltersOwn dirs specs e := by
  constructor
  · intro hrel
    rw [(relevant_eq_true.mp hrel).1] at hkind
    cases hkind
  · rintro pre post new rfl -
    exact relevant_of_insert (.inr (by simp [hkind]))

theorem filtersOwn_of_not_named (dirs : DirAnswers) (specs : List WatchSpec)
    (hnamed : ∀ p ∈ e.paths, named p = false) : FiltersOwn dirs specs e := by
  have hnone (filter : PathFilter) : ∀ p ∈ e.paths, isRelevantPath p filter = false := by
    intro p hp
    rw [Bool.eq_false_iff]
    intro hpasses
    have htrue := named_of_isRelevantPath hpasses
    rw [hnamed p hp] at htrue
    cases htrue
  constructor
  · intro hrel
    obtain ⟨-, p, hp, spec, -, hpasses⟩ := relevant_eq_true.mp hrel
    rw [hnone _ p hp] at hpasses
    cases hpasses
  · rintro pre post new rfl -
    exact relevant_of_insert (.inr (by simpa using fun _ => hnone new.filter))

theorem filtersOwn_of_own {dirs : DirAnswers} {specs : List WatchSpec}
    (hkind : e.kind.changes = true) (hown : Own dirs specs e) : FiltersOwn dirs specs e := by
  have hrel : relevant specs e = true := by
    obtain ⟨p, hp, spec, hspec, -, hpasses⟩ := hown
    exact relevant_eq_true.mpr ⟨hkind, p, hp, spec, hspec, hpasses⟩
  refine ⟨fun _ => ⟨hkind, hown⟩, ?_⟩
  rintro pre post new rfl -
  exact relevant_of_insert (.inl hrel)

/-- The filters keep to their own paths in an event exactly when it is no change, or names
nothing that is not junk, or passes the filter of a spec that watches it. -/
theorem filters_own_paths_iff (dirs : DirAnswers) (specs : List WatchSpec) (e : Event) :
    FiltersOwn dirs specs e ↔
      e.kind.changes = false ∨ (∀ p ∈ e.paths, named p = false) ∨ Own dirs specs e := by
  constructor
  · intro h
    by_contra hnot
    push Not at hnot
    obtain ⟨hkind, ⟨p, hp, hnamed⟩, hown⟩ := hnot
    have hirrelevant : relevant specs e = false := by
      rw [Bool.eq_false_iff]
      exact fun hrel => hown (h.own hrel).2
    obtain ⟨q, hq⟩ := exists_elsewhere dirs e.paths
    have hframe := h.frame [] specs (.dir q true) rfl hq
    have hany : (e.paths.any fun p => isRelevantPath p (WatchSpec.dir q true).filter) = true := by
      refine List.any_eq_true.mpr ⟨p, hp, ?_⟩
      simpa [WatchSpec.dir, isRelevantPath_any] using hnamed
    rw [relevant_insert, List.nil_append, hirrelevant, hany] at hframe
    simp [hkind] at hframe
  · rintro (hkind | hnamed | hown)
    · exact filtersOwn_of_not_changes dirs specs hkind
    · exact filtersOwn_of_not_named dirs specs hnamed
    · by_cases hkind : e.kind.changes = true
      · exact filtersOwn_of_own hkind hown
      · exact filtersOwn_of_not_changes dirs specs (by simpa using hkind)

/-- A file by its name, and a drop-in directory that takes every name. -/
def fileAndDropIns : List WatchSpec :=
  [.file (ofString "/etc/net.json"), .dir (ofString "/data/net.d") true]

/-- The drop-in directory's filter lets another file of `/etc` through. -/
theorem foreign_filter_passes :
    ¬ ∀ (dirs : DirAnswers) (specs : List WatchSpec) (e : Event), relevant specs e = true →
      Own dirs specs e := by
  intro h
  have hown := h ⟨fun p => p = ofString "/etc", fun _ => false, fun _ _ => true⟩ fileAndDropIns
    ⟨.modify, [ofString "/etc/passwd"]⟩ (by decide +kernel)
  simp only [Own] at hown
  exact absurd hown (by decide +kernel)

end SpecFilter
end SharedDaemon
