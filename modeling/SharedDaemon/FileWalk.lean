import SharedDaemon.FileTree

/-!
# Walks that agree

A path is walked through its parent, and what stands at the end of it does not matter to the
walks of others unless it is a directory or a link.
-/

namespace FileTree

open StdPath StdIo

variable {t u : Tree} {follow : Bool} {links : ℕ} {cur place r : Place} {cs ds : List Component}

def partComponents (ps : List OsStr) : List Component := (ps.filter (· ≠ [])).map component

theorem segments_eq (p : OsStr) :
    segments p = (if hasRoot p then [.rootDir] else []) ++ partComponents (parts p) := rfl

theorem exists_trimmed (leading : Bool) (ps : List OsStr) :
    ∃ junk, ps = trimRight leading ps ++ junk ∧ ∀ part ∈ junk, skipped part := by
  induction ps generalizing leading with
  | nil => exact ⟨[], rfl, by simp⟩
  | cons part ps ih =>
    obtain ⟨junk, hps, hjunk⟩ := ih false
    simp only [trimRight]
    split
    · rename_i hnil
      rw [hnil, List.nil_append] at hps
      subst hps
      split
      · rename_i hskip
        refine ⟨part :: ps, rfl, ?_⟩
        intro x hx
        rcases List.mem_cons.mp hx with rfl | hx
        · rcases hskip with hempty | hskip
          · simp [skipped, hempty]
          · simpa using (Bool.and_eq_true_iff.mp hskip).2
        · exact hjunk x hx
      · exact ⟨ps, rfl, hjunk⟩
    · exact ⟨junk, by rw [List.cons_append, ← hps], hjunk⟩

theorem curDir_of_skipped {ps : List OsStr} (h : ∀ part ∈ ps, skipped part) :
    ∀ c ∈ partComponents ps, c = .curDir := by
  intro c hc
  simp only [partComponents, List.mem_map, List.mem_filter, decide_eq_true_eq] at hc
  obtain ⟨part, ⟨hmem, hne⟩, rfl⟩ := hc
  have hskip := h part hmem
  simp only [skipped, decide_eq_true_eq, hne, false_or] at hskip
  simp [component, hskip]

theorem partComponents_append (ps qs : List OsStr) :
    partComponents (ps ++ qs) = partComponents ps ++ partComponents qs := by
  simp [partComponents]

theorem segments_intercalate {p : OsStr} {qs : List OsStr} (hqs : qs <+: parts p)
    (hne : (if hasRoot p then [slash] else []) ++ [slash].intercalate qs ≠ []) :
    segments ((if hasRoot p then [slash] else []) ++ [slash].intercalate qs) =
      (if hasRoot p then [.rootDir] else []) ++ partComponents qs := by
  have hslash : ∀ part ∈ qs, slash ∉ part := fun part hpart =>
    notMem_of_mem_splitOn (hqs.subset hpart)
  have hparts : partComponents (([slash].intercalate qs).splitOn slash) = partComponents qs := by
    by_cases hnil : qs = []
    · subst hnil
      rfl
    · rw [List.splitOn_intercalate slash hslash hnil]
  cases hroot : hasRoot p with
  | true =>
    simp [segments_eq, parts, ← hparts]
  | false =>
    have hfirst : hasRoot ([slash].intercalate qs) = false := by
      cases p with
      | nil =>
        rcases List.prefix_cons_iff.mp hqs with rfl | ⟨rest, rfl, hrest⟩
        · rfl
        · obtain rfl := List.prefix_nil.mp hrest
          rfl
      | cons c p =>
        have hc : c ≠ slash := by simpa using hroot
        obtain ⟨part, ps, hps⟩ := exists_splitOn hc p
        rw [parts, hroot, if_neg (by simp), hps] at hqs
        rcases List.prefix_cons_iff.mp hqs with rfl | ⟨qs, rfl, -⟩
        · rfl
        · cases qs <;> simp [List.intercalate, hc]
    simp [segments_eq, parts, hfirst, ← hparts]

theorem getLast?_of_named {p : OsStr} (h : named p) :
    ∃ name, (segments p).getLast? = some (.normal name) := by
  unfold named at h
  split at h
  · exact ⟨_, by assumption⟩
  · cases h

theorem trimRight_getLast? {leading : Bool} {ps : List OsStr} {part : OsStr}
    (h : (trimRight leading ps).getLast? = some part) : part ≠ [] := by
  induction ps generalizing leading with
  | nil => simp [trimRight] at h
  | cons first ps ih =>
    simp only [trimRight] at h
    split at h
    · split at h
      · simp at h
      · rename_i hkeep
        obtain rfl := Option.some.inj h
        exact fun hnil => hkeep (.inl hnil)
    · rename_i qs hqs
      obtain ⟨x, xs, hx⟩ := List.exists_cons_of_ne_nil (fun hnil => hqs hnil)
      rw [hx, List.getLast?_cons_cons, ← hx] at h
      exact ih h

/-- A path that ends in a name leads there through its parent. -/
theorem segments_parent {p q : OsStr} (hp : parent p = some q) (hq : q ≠ []) (hnamed : named p) :
    ∃ dots name, (∀ c ∈ dots, c = .curDir) ∧
      segments p = segments q ++ (dots ++ [.normal name]) := by
  obtain ⟨junk, hjunk, hskip⟩ := exists_trimmed (!hasRoot p) (parts p)
  simp only [parent] at hp
  split at hp
  · cases hp
  · rename_i ps hps
    obtain rfl := Option.some.inj hp
    obtain ⟨last, hlast⟩ := Option.ne_none_iff_exists'.mp (mt List.getLast?_eq_none_iff.mp hps)
    obtain ⟨above, habove⟩ := List.getLast?_eq_some_iff.mp hlast
    rw [habove, List.dropLast_concat] at hq ⊢
    rw [habove] at hjunk
    obtain ⟨junk', hjunk', hskip'⟩ := exists_trimmed (!hasRoot p) above
    generalize trimRight (!hasRoot p) above = qs at hq hjunk' ⊢
    subst hjunk'
    have hqs : qs <+: parts p := ⟨junk' ++ [last] ++ junk, by rw [hjunk]; simp⟩
    rw [segments_intercalate hqs hq]
    have hsegments : segments p = (if hasRoot p then [.rootDir] else []) ++ partComponents qs ++
        (partComponents junk' ++ [component last]) ++ partComponents junk := by
      rw [segments_eq, hjunk]
      have hone : partComponents [last] = [component last] := by
        simp [partComponents, trimRight_getLast? hlast]
      simp only [partComponents_append, hone, List.append_assoc]
    -- what is left over after the last part has no components, or a dot would stand last
    obtain ⟨name, hname⟩ := getLast?_of_named hnamed
    have hnone : partComponents junk = [] := by
      by_contra hne
      obtain ⟨c, hc⟩ := Option.ne_none_iff_exists'.mp (mt List.getLast?_eq_none_iff.mp hne)
      have hdot := curDir_of_skipped hskip c (List.mem_of_getLast? hc)
      rw [hsegments, List.getLast?_append, hc, hdot] at hname
      cases hname
    rw [hnone, List.append_nil] at hsegments
    rw [hsegments, ← List.append_assoc, List.getLast?_concat] at hname
    refine ⟨partComponents junk', name, curDir_of_skipped hskip', ?_⟩
    rw [hsegments, Option.some.inj hname]

theorem intercalate_isPrefix {qs ps : List OsStr} (h : qs <+: ps) :
    [slash].intercalate qs <+: [slash].intercalate ps := by
  induction qs generalizing ps with
  | nil => exact List.nil_prefix
  | cons part qs ih =>
    obtain ⟨rest, rfl⟩ := h
    have hrest := ih (List.prefix_append qs rest)
    cases qs with
    | nil =>
      cases rest with
      | nil => exact List.prefix_rfl
      | cons part' rest =>
        simp only [List.intercalate_singleton, List.cons_append, List.nil_append,
          List.intercalate_cons_cons]
        exact ⟨_, by rw [List.append_assoc]⟩
    | cons part' qs =>
      simp only [List.cons_append, List.intercalate_cons_cons, List.append_assoc] at hrest ⊢
      exact (List.prefix_append_right_inj part).mpr
        ((List.prefix_append_right_inj [slash]).mpr hrest)

theorem parent_isPrefix {p q : OsStr} (hp : parent p = some q) : q <+: p := by
  simp only [parent] at hp
  split at hp
  · cases hp
  · obtain rfl := Option.some.inj hp
    have hparts :
        trimRight (!hasRoot p) (trimRight (!hasRoot p) (parts p)).dropLast <+: parts p := by
      have htrimmed (ps : List OsStr) := trimRight_prefix (!hasRoot p) ps
      exact ((htrimmed _).trans (List.dropLast_prefix _)).trans (htrimmed _)
    conv_rhs => rw [← root_append_parts p]
    exact (List.prefix_append_right_inj _).mpr (intercalate_isPrefix hparts)

theorem walk_curDir (hwalk : walk t true links cur cs = .ok r) (hdir : t.entry r = some .dir) :
    walk t true links cur (cs ++ [.curDir]) = .ok r := by
  fun_induction walk t true links cur cs with
  | case1 links cur => simpa [walk] using hwalk
  | case2 links cur cs ih => simpa [walk] using ih hwalk
  | case3 links cur cs ih => simpa [walk] using ih hwalk
  | case4 links cur cs ih => simpa [walk] using ih hwalk
  | case5 links cur name hentry =>
    obtain rfl := Except.ok.inj hwalk
    simp [hentry] at hdir
  | case6 => cases hwalk
  | case7 links cur name cs hentry ih => simpa [walk, hentry] using ih hwalk
  | case8 links cur name cs target hentry hlast => simp at hlast
  | case9 => cases hwalk
  | case10 cur name cs target hentry hlast links ih => simpa [walk, hentry] using ih hwalk
  | case11 links cur name content hentry =>
    obtain rfl := Except.ok.inj hwalk
    simp [hentry] at hdir
  | case13 links cur name listener hentry =>
    obtain rfl := Except.ok.inj hwalk
    simp [hentry] at hdir
  | case12 | case14 => cases hwalk

theorem walk_through (hcur : t.entry cur = some .dir) (hds : ds ≠ [])
    (h : walk t follow links cur (cs ++ ds) = .ok place) :
    ∃ dir left, walk t true links cur cs = .ok dir ∧ t.entry dir = some .dir ∧
      walk t follow left dir ds = .ok place := by
  fun_induction walk t true links cur cs with
  | case1 links cur => exact ⟨cur, links, rfl, hcur, h⟩
  | case2 links cur cs ih => exact ih t.root (by simpa [walk] using h)
  | case3 links cur cs ih => exact ih hcur (by simpa [walk] using h)
  | case4 links cur cs ih => exact ih (t.entry_dropLast (by simp [hcur])) (by simpa [walk] using h)
  | case5 links cur name hentry => simp [walk, hentry, hds] at h
  | case6 links cur name cs hentry hne => simp [walk, hentry, hds] at h
  | case7 links cur name cs hentry ih => exact ih hentry (by simpa [walk, hentry] using h)
  | case8 links cur name cs target hentry hlast => simp at hlast
  | case9 cur name cs target hentry hlast => simp [walk, hentry, hds] at h
  | case10 cur name cs target hentry hlast links ih =>
    exact ih hcur (by simpa [walk, hentry, hds] using h)
  | case11 links cur name content hentry => simp [walk, hentry, hds] at h
  | case12 links cur name cs content hentry hne => simp [walk, hentry, hds] at h
  | case13 links cur name listener hentry => simp [walk, hentry, hds] at h
  | case14 links cur name cs listener hentry hne => simp [walk, hentry, hds] at h

theorem exists_walk_unfollowed (h : walk t true links cur cs = .ok place) :
    ∃ r, walk t false links cur cs = .ok r := by
  fun_induction walk t false links cur cs with
  | case1 links cur => exact ⟨cur, rfl⟩
  | case2 links cur cs ih => exact ih (by simpa [walk] using h)
  | case3 links cur cs ih => exact ih (by simpa [walk] using h)
  | case4 links cur cs ih => exact ih (by simpa [walk] using h)
  | case5 links cur name hentry => exact ⟨_, rfl⟩
  | case6 links cur name cs hentry hne => simp [walk, hentry, hne] at h
  | case7 links cur name cs hentry ih => exact ih (by simpa [walk, hentry] using h)
  | case8 links cur name cs target hentry hlast => exact ⟨_, rfl⟩
  | case9 cur name cs target hentry hlast => simp [walk, hentry] at h
  | case10 cur name cs target hentry hlast links ih => exact ih (by simpa [walk, hentry] using h)
  | case11 links cur name content hentry => exact ⟨_, rfl⟩
  | case12 links cur name cs content hentry hne => simp [walk, hentry, hne] at h
  | case13 links cur name listener hentry => exact ⟨_, rfl⟩
  | case14 links cur name cs listener hentry hne => simp [walk, hentry, hne] at h

/-- Nothing, a file or a socket: a walk may end there but not go on. -/
def Tree.Leaf (t : Tree) (place : Place) : Prop :=
  t.entry place ≠ some .dir ∧ ∀ target, t.entry place ≠ some (.symlink target)

structure Tree.Swaps (t u : Tree) (place : Place) : Prop where
  cwd : u.cwd = t.cwd
  entry : ∀ q, q ≠ place → u.entry q = t.entry q
  before : t.Leaf place
  after : u.Leaf place

theorem walk_leaf {name : OsStr} (h : t.Leaf (cur ++ [name])) :
    walk t follow links cur [.normal name] = .ok (cur ++ [name]) := by
  cases hentry : t.entry (cur ++ [name]) with
  | none => simp [walk, hentry]
  | some kind =>
    cases kind with
    | dir => exact absurd hentry h.1
    | symlink target => exact absurd hentry (h.2 target)
    | file | socket => simp [walk, hentry]

/-- A walk that succeeds does not look at the leaf, or ends there. -/
theorem Tree.Swaps.walk_eq_ok (h : t.Swaps u place)
    (hwalk : walk t follow links cur cs = .ok r) : walk u follow links cur cs = .ok r := by
  have hdir {q : Place} (hentry : t.entry q = some .dir) : u.entry q = some .dir := by
    rw [h.entry q, hentry]
    rintro rfl
    exact h.before.1 hentry
  have hlink {q : Place} {target : OsStr} (hentry : t.entry q = some (.symlink target)) :
      u.entry q = some (.symlink target) := by
    rw [h.entry q, hentry]
    rintro rfl
    exact h.before.2 target hentry
  have hleaf {q : Place} (hbefore : t.Leaf q) : u.Leaf q := by
    by_cases hplace : q = place
    · exact hplace ▸ h.after
    · simpa only [Tree.Leaf, h.entry q hplace] using hbefore
  fun_induction walk t follow links cur cs with
  | case1 links cur => simpa [walk] using hwalk
  | case2 links cur cs ih => simpa [walk] using ih hwalk
  | case3 links cur cs ih => simpa [walk] using ih hwalk
  | case4 links cur cs ih => simpa [walk] using ih hwalk
  | case5 links cur name hentry =>
    rw [walk_leaf (hleaf (by simp [Tree.Leaf, hentry]))]
    exact hwalk
  | case6 => cases hwalk
  | case7 links cur name cs hentry ih => simpa [walk, hdir hentry] using ih hwalk
  | case8 links cur name cs target hentry hlast => simpa [walk, hlink hentry, hlast] using hwalk
  | case9 => cases hwalk
  | case10 cur name cs target hentry hlast links ih =>
    simpa [walk, hlink hentry, hlast] using ih hwalk
  | case11 links cur name content hentry =>
    rw [walk_leaf (hleaf (by simp [Tree.Leaf, hentry]))]
    exact hwalk
  | case13 links cur name listener hentry =>
    rw [walk_leaf (hleaf (by simp [Tree.Leaf, hentry]))]
    exact hwalk
  | case12 | case14 => cases hwalk

theorem Tree.swaps_of_update {kind : Option Kind} (hcwd : u.cwd = t.cwd)
    (hentry : u.entry = Function.update t.entry place kind) (hbefore : t.Leaf place)
    (hdir : kind ≠ some .dir) (hlink : ∀ target, kind ≠ some (.symlink target)) :
    t.Swaps u place := by
  refine ⟨hcwd, fun q hq => ?_, hbefore, ?_⟩
  · rw [hentry, Function.update_of_ne hq]
  · rw [Tree.Leaf, hentry, Function.update_self]
    exact ⟨hdir, hlink⟩

theorem Tree.Swaps.lookup_eq_ok {p : OsStr} (h : t.Swaps u place)
    (hlookup : lookup t follow p = .ok r) : lookup u follow p = .ok r := by
  unfold lookup at hlookup ⊢
  split at hlookup
  · cases hlookup
  · rename_i hnil
    split at hlookup
    · cases hlookup
    · rename_i hnul
      rw [if_neg hnil, if_neg hnul, h.cwd]
      exact h.walk_eq_ok hlookup

theorem lookup_eq_ok_iff {p : OsStr} :
    lookup t follow p = .ok r ↔ p ≠ [] ∧ 0 ∉ p ∧
      walk t follow maxLinks t.cwd (if follow then steps p else segments p) = .ok r := by
  unfold lookup
  split
  · simp_all
  · split <;> simp_all

theorem parent_of_lookup {p q : OsStr} (hp : parent p = some q) (hq : q ≠ []) (hnamed : named p)
    (h : lookup t false p = .ok place) :
    mkdir t q = .error .eexist ∧ stat t q = .ok .dir := by
  obtain ⟨-, hnul, hwalk⟩ := lookup_eq_ok_iff.mp h
  have hnul' : 0 ∉ q := fun hmem => hnul ((parent_isPrefix hp).subset hmem)
  obtain ⟨dots, name, -, hsegments⟩ := segments_parent hp hq hnamed
  simp only [Bool.false_eq_true, if_false, hsegments] at hwalk
  obtain ⟨dir, left, hdir, hentry, -⟩ := walk_through t.cwd_dir (by simp) hwalk
  constructor
  · obtain ⟨found, hfound⟩ := exists_walk_unfollowed hdir
    have hlookup : lookup t false q = .ok found :=
      lookup_eq_ok_iff.mpr ⟨hq, hnul', by simpa using hfound⟩
    have hfree : ¬ (named q ∧ t.entry found = none) := by
      rintro ⟨hnamed, hnone⟩
      obtain ⟨last, hlast⟩ := getLast?_of_named hnamed
      rcases walk_last hlast hfound with ⟨-, hsame⟩ | ⟨target, hlink, -⟩
      · obtain rfl : dir = found := by simpa [hdir] using hsame
        simp [hentry] at hnone
      · simp [hlink] at hnone
    simp [mkdir, create, hlookup, hfree, Except.map]
  · have hsteps : walk t true maxLinks t.cwd (steps q) = .ok dir := by
      unfold steps
      split
      · exact walk_curDir hdir hentry
      · simpa using hdir
    have hlookup : lookup t true q = .ok dir :=
      lookup_eq_ok_iff.mpr ⟨hq, hnul', by simpa using hsteps⟩
    simp [stat, hlookup, hentry]

end FileTree
