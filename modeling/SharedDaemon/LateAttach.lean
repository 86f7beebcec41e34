import SharedDaemon.WatchTree

/-!
# Late attach

A spec whose directory is not there when the loop starts is tried again until
`attach_spec` returns true. A recursive spec waits for its own directory. One that is not
recursive watches the parent instead, and is attached with that.
-/

namespace SharedDaemon
namespace WatchTree

open StdPath Watch TransitionSystem

/-- Directories are made but never removed, and `watch` succeeds. -/
def Growing : Action → Prop
  | .rmdir _ => False
  | .attach _ registered => registered = true
  | _ => True

/-- When spec `k` is tried and is not recursive, its directory is there, or the parent is
not and cannot be made. -/
def InPlace (setup : Setup) (k : ℕ) (s : State) : Action → Prop
  | .attach created _ =>
    ∀ pass spec, s.pass = some pass → pass.answers.length = k → setup.specs[k]? = some spec →
      s.watch.attached[k]? ≠ some true → spec.recursive = false → s.tree.isDir spec.path = false →
      s.tree.isDir ((parent spec.path).getD [dot]) = false ∧
        (created = false ∨ (parent spec.path).getD [dot] = [])
  | _ => True

variable {setup : Setup} {s t : State}

theorem parent_getD_ne (p : OsStr) : (parent p).getD [dot] ≠ p := by
  cases h : parent p with
  | some q =>
    rintro rfl
    exact parent_ne q h
  | none =>
    rintro rfl
    exact absurd h (by decide)

theorem targetOf_eq_path {tree : Tree} {created registered : Bool} {spec : WatchSpec} :
    targetOf (tree.answers created registered) spec = spec.path ↔
      spec.recursive ∨ tree.isDir spec.path := by
  by_cases hrec : spec.recursive
  · simp [targetOf, hrec]
  · by_cases hdir : tree.isDir spec.path
    · simp [targetOf, watchDirFor, Tree.answers, hrec, hdir]
    · simp [targetOf, watchDirFor, Tree.answers, hrec, hdir, parent_getD_ne]

theorem attachSpec_of_isDir {tree : Tree} {spec : WatchSpec} (created : Bool)
    (h : tree.isDir spec.path) : attachSpec (tree.answers created true) spec := by
  by_cases hrec : spec.recursive
  · simp [attachSpec, Tree.answers, hrec, h]
  · simp [attachSpec, watchDirFor, Tree.answers, hrec, h]

/-- Targets are watched directories, and spec `k` is attached once a pass has begun with its
directory there and come to it. -/
structure Late (k : ℕ) (path : OsStr) (s : State) : Prop where
  held : ∀ j p, s.targets j = some p → ∃ i, s.tree.inode p = some i ∧ s.tree.watched i
  begun : ∀ pass, s.pass = some pass → ∀ p, pass.begun.isDir p → s.tree.isDir p
  met : ∀ pass, s.pass = some pass → k < pass.answers.length → pass.begun.isDir path →
    (s.targets k).isSome
  last : ∀ tree, s.last = some tree → tree.isDir path → (s.targets k).isSome

/-- The tree grows: directories stay, and so do their watches. -/
structure Tree.Grows (t u : Tree) : Prop where
  inode : ∀ p i, t.inode p = some i → u.inode p = some i
  watched : ∀ i, t.watched i → u.watched i

theorem Tree.Grows.isDir {t u : Tree} (h : t.Grows u) {p : OsStr} (hp : t.isDir p) : u.isDir p := by
  obtain ⟨i, hi⟩ := Tree.isDir_eq_true.mp hp
  exact Tree.isDir_eq_true.mpr ⟨i, h.inode p i hi⟩

theorem grows_step {a : Action} (ha : Growing a) (hstep : step setup s a = some t) :
    s.tree.Grows t.tree := by
  cases Step.of_step hstep with
  | touched | unseen | beginPass | endPass | loop => exact ⟨fun _ _ h => h, fun _ h => h⟩
  | mkdir p hp hdir =>
    refine ⟨fun q i hi => ?_, fun i h => h⟩
    have hne : q ≠ p := by
      rintro rfl
      simp [Tree.isDir, hi] at hdir
    rwa [Tree.mkdir_inode_of_ne hne]
  | rmdir => cases ha
  | adopt p => exact ⟨fun _ _ h => h, fun i h => Tree.watched_watch.mpr (.inr h)⟩
  | attach created registered pass spec =>
    simp only [State.visit]
    split
    · exact ⟨fun _ _ h => h, fun _ h => h⟩
    · exact ⟨fun _ _ h => Tree.attach_inode h, fun _ h => Tree.watched_attach h⟩

theorem late_visit {k : ℕ} {path : OsStr} (h : Late k path s) (hrecorded : Recorded setup s)
    {spec₀ : WatchSpec} (hk : setup.specs[k]? = some spec₀) (hpath : spec₀.path = path)
    {pass : Pass} {spec : WatchSpec} (hpass : s.pass = some pass)
    (hspec : setup.specs[pass.answers.length]? = some spec) {created : Bool}
    (hstep : step setup s (.attach created true) = some (s.visit pass spec created true)) :
    Late k path (s.visit pass spec created true) := by
  have hgrows : s.tree.Grows (s.visit pass spec created true).tree :=
    grows_step (a := Action.attach created true) rfl hstep
  have hlast : (s.visit pass spec created true).last = s.last := by
    simp only [State.visit]
    split <;> rfl
  refine ⟨fun j p hj => ?_, ?_, ?_, ?_⟩
  · rcases of_visit_targets hj with hj | ⟨rfl, hdone, rfl, hattach⟩
    · obtain ⟨i, hi, hw⟩ := h.held j p hj
      exact ⟨i, hgrows.inode p i hi, hgrows.watched i hw⟩
    · obtain ⟨-, i, hi⟩ := Tree.attach_target hattach
      rw [visit_tree hdone]
      exact ⟨i, hi, Tree.watched_target hi⟩
  · rw [visit_pass]
    rintro _ ⟨⟩ p hp
    exact hgrows.isDir (h.begun pass hpass p hp)
  · rw [visit_pass]
    rintro _ ⟨⟩ hlt hdir
    by_cases hkey : k = pass.answers.length
    · -- the spec is met while its directory is there
      subst hkey
      obtain rfl := Option.some.inj (hk.symm.trans hspec)
      have hattach := attachSpec_of_isDir created (hpath ▸ h.begun pass hpass path hdir)
      exact ((recorded_step hrecorded hstep).target _).mpr
        (.inr ⟨_, _, spec₀, visit_pass, List.getElem?_concat_length, hk, hattach⟩)
    · rw [visit_targets_of_ne hkey]
      simp only [List.length_append, List.length_singleton] at hlt
      exact h.met pass hpass (by omega) hdir
  · intro tree htree hdir
    obtain ⟨p, hp⟩ := Option.isSome_iff_exists.mp (h.last tree (hlast ▸ htree) hdir)
    rw [targets_step hrecorded hp hstep]
    rfl

theorem late_step {k : ℕ} {path : OsStr} {a : Action} (h : Late k path s)
    (hrecorded : Recorded setup s) {spec : WatchSpec} (hk : setup.specs[k]? = some spec)
    (hpath : spec.path = path) (ha : Growing a) (hstep : step setup s a = some t) :
    Late k path t := by
  have hgrows := grows_step ha hstep
  have hheld : ∀ j p, s.targets j = some p → ∃ i, t.tree.inode p = some i ∧ t.tree.watched i := by
    intro j p hj
    obtain ⟨i, hi, hw⟩ := h.held j p hj
    exact ⟨i, hgrows.inode p i hi, hgrows.watched i hw⟩
  cases Step.of_step hstep with
  | touched | unseen | loop => exact ⟨h.held, h.begun, h.met, h.last⟩
  | mkdir | adopt =>
    exact ⟨hheld, fun pass hpass p hp => hgrows.isDir (h.begun pass hpass p hp), h.met, h.last⟩
  | rmdir => cases ha
  | beginPass hpass =>
    refine ⟨h.held, ?_, ?_, h.last⟩
    · rintro _ ⟨⟩ p hp
      exact hp
    · rintro _ ⟨⟩ hlt
      cases hlt
  | attach created registered pass spec hpass hspec =>
    obtain rfl : registered = true := ha
    exact late_visit h hrecorded hk hpath hpass hspec hstep
  | endPass d₁ d₂ pass w hpass hlen hw =>
    refine ⟨h.held, fun _ hnone => (by cases hnone), fun _ hnone => (by cases hnone), ?_⟩
    rintro _ ⟨⟩ hdir
    have hlt : k < pass.answers.length := hlen ▸ (List.getElem?_eq_some_iff.mp hk).1
    exact h.met pass hpass hlt hdir

theorem late_of_reachable {C : State → Action → Prop} (hC : ∀ s a, C s a → Growing a)
    (hs : (watching setup).ReachableUnder C s) {k : ℕ} {spec : WatchSpec}
    (hk : setup.specs[k]? = some spec) : Late k spec.path s := by
  have hboth : Recorded setup s ∧ Late k spec.path s := by
    refine hs.invariant (I := fun s => Recorded setup s ∧ Late k spec.path s) ?_ ?_
    · intro s hinit
      refine ⟨recorded_of_reachable (.init hinit), ?_⟩
      obtain ⟨-, -, hpass, hlast, htargets⟩ := hinit
      exact ⟨by simp [htargets], by simp [hpass], by simp [hpass], by simp [hlast]⟩
    · intro s a t hI ha hstep
      exact ⟨recorded_step hI.1 hstep, late_step hI.2 hI.1 hk rfl (hC s a ha) hstep⟩
  exact hboth.2

theorem Late.touch {k : ℕ} {path : OsStr} (h : Late k path s)
    (htarget : ∀ p, s.targets k = some p → p = path) {tree : Tree} (hlast : s.last = some tree)
    (hdir : tree.isDir path) (e : Event) :
    ∃ t, step setup s (.touch path e) = some t ∧ t.watch.kernel = s.watch.kernel ++ [.ok e] := by
  obtain ⟨p, hp⟩ := Option.isSome_iff_exists.mp (h.last tree hlast hdir)
  obtain rfl := htarget p hp
  obtain ⟨i, hi, hw⟩ := h.held k p hp
  refine ⟨{ s with watch := { s.watch with kernel := s.watch.kernel ++ [.ok e] } }, ?_, rfl⟩
  simp [step, hi, hw, Watch.step]

theorem attachSpec_parent {tree : Tree} {created registered : Bool} {spec : WatchSpec}
    (hrec : spec.recursive = false) (hdir : tree.isDir spec.path = false) :
    attachSpec (tree.answers created registered) spec =
      ((tree.isDir ((parent spec.path).getD [dot]) ||
        (created && (parent spec.path).getD [dot] ≠ [])) && registered) := by
  simp [attachSpec, watchDirFor, Tree.answers, hrec, hdir]

theorem path_step {k : ℕ} {spec : WatchSpec} {a : Action} (hk : setup.specs[k]? = some spec)
    (h : ∀ p, s.targets k = some p → p = spec.path) (hC : InPlace setup k s a)
    (hstep : step setup s a = some t) : ∀ p, t.targets k = some p → p = spec.path := by
  cases Step.of_step hstep with
  | mkdir | rmdir | touched | unseen | adopt | beginPass | endPass | loop => exact h
  | attach created registered pass spec' hpass hspec =>
    intro p hp
    rcases of_visit_targets hp with hp | ⟨rfl, hdone, rfl, hattach⟩
    · exact h p hp
    · obtain rfl := Option.some.inj (hk.symm.trans hspec)
      rw [targetOf_eq_path]
      by_contra hnot
      rw [not_or, Bool.not_eq_true, Bool.not_eq_true] at hnot
      obtain ⟨hrec, hdir⟩ := hnot
      obtain ⟨hparent, hcreated⟩ := hC pass spec hpass rfl hk hdone hrec hdir
      rw [attachSpec_parent hrec hdir, hparent] at hattach
      rcases hcreated with rfl | hnil
      · simp at hattach
      · simp [hnil] at hattach

theorem path_of_reachable {C : State → Action → Prop} {k : ℕ} {spec : WatchSpec}
    (hC : ∀ s a, C s a → InPlace setup k s a) (hs : (watching setup).ReachableUnder C s)
    (hk : setup.specs[k]? = some spec) : ∀ p, s.targets k = some p → p = spec.path := by
  refine hs.invariant (I := fun s => ∀ p, s.targets k = some p → p = spec.path) ?_ ?_
  · rintro s ⟨-, -, -, -, htargets⟩ p hp
    simp [htargets] at hp
  · intro s a t hI ha hstep
    exact path_step hk hI (hC s a ha) hstep

/-- A spec tried too early is attached to its parent. -/
theorem parent_of_not_inPlace {k : ℕ} {a : Action} (ha : Growing a) (h : ¬ InPlace setup k s a)
    (hstep : step setup s a = some t) {spec : WatchSpec} (hk : setup.specs[k]? = some spec) :
    t.targets k = some ((parent spec.path).getD [dot]) := by
  cases Step.of_step hstep with
  | mkdir | rmdir | touched | unseen | adopt | beginPass | endPass | loop => exact absurd trivial h
  | attach created registered pass spec' hpass hspec =>
    obtain rfl : registered = true := ha
    simp only [InPlace] at h
    push Not at h
    obtain ⟨_, _, hpass', rfl, hk', hdone, hrec, hdir, hparent⟩ := h
    obtain rfl := Option.some.inj (hpass.symm.trans hpass')
    obtain rfl := Option.some.inj (hk.symm.trans hk')
    obtain rfl := Option.some.inj (hk.symm.trans hspec)
    have hattach : attachSpec (s.tree.answers created true) spec := by
      rw [attachSpec_parent hrec hdir]
      cases hexists : s.tree.isDir ((parent spec.path).getD [dot])
      · simpa using hparent hexists
      · rfl
    have hvisit : (s.visit pass spec created true).targets pass.answers.length =
        some (targetOf (s.tree.answers created true) spec) := by
      simp [State.visit, hdone, hattach]
    rw [hvisit]
    simp [targetOf, watchDirFor, Tree.answers, hrec, hdir]

/-- A spec built by `WatchSpec::dir` is watched on its own path if it is recursive or its
directory is there. In a run in which it is never tried too early, no watch is elsewhere, and
once a pass has begun with the directory there, what happens in it raises events. Tried too
early, it stays with another directory. -/
theorem late_attach_reaches (setup : Setup) (k : ℕ) (path : OsStr) (recursive : Bool)
    (hk : setup.specs[k]? = some (.dir path recursive)) :
    (∀ (tree : Tree) created registered,
        attachSpec (tree.answers created registered) (.dir path recursive) →
        (targetOf (tree.answers created registered) (.dir path recursive) = path ↔
          recursive ∨ tree.isDir path)) ∧
      (∀ s, (watching setup).ReachableUnder (fun s a => Growing a ∧ InPlace setup k s a) s →
        (∀ p, s.targets k = some p → p = path) ∧
          ∀ tree, s.last = some tree → tree.isDir path → ∀ e, ∃ t,
            step setup s (.touch path e) = some t ∧
              t.watch.kernel = s.watch.kernel ++ [.ok e]) ∧
      ∀ s a t, (watching setup).ReachableUnder (fun _ a => Growing a) s → Growing a →
        ¬ InPlace setup k s a → step setup s a = some t →
        ∃ p, p ≠ path ∧ ∀ as u, (watching setup).run t as = some u → u.targets k = some p := by
  refine ⟨fun tree created registered _ => targetOf_eq_path, fun s hs => ?_, ?_⟩
  · have hpath : ∀ p, s.targets k = some p → p = path :=
      path_of_reachable (fun _ _ h => h.2) hs hk
    have hlate : Late k path s := late_of_reachable (fun _ _ h => h.1) hs hk
    exact ⟨hpath, fun tree hlast hdir e => hlate.touch hpath hlast hdir e⟩
  · intro s a t hs ha h hstep
    have htarget := parent_of_not_inPlace ha h hstep hk
    have hrecorded := recorded_step (recorded_of_reachable hs.reachable) hstep
    refine ⟨_, parent_getD_ne path, fun as u hrun => ?_⟩
    have hkept := run_invariant
      (I := fun u => Recorded setup u ∧ u.targets k = some ((parent path).getD [dot]))
      (fun s a t _ hI hstep => ⟨recorded_step hI.1 hstep, targets_step hI.1 hI.2 hstep⟩)
      ⟨hrecorded, htarget⟩ hrun
    exact hkept.2

def lateDir : OsStr := [slash, 0x64]

def lateSetup : Setup := ⟨[.dir lateDir false], 300⟩

def rootOnly : Tree := Tree.empty.mkdir [slash]

def lateStart : State := ⟨initial lateSetup, rootOnly, none, none, fun _ => none⟩

theorem lateStart_init : (watching lateSetup).init lateStart := ⟨rfl, rfl, rfl, rfl, rfl⟩

def appeared : Event := ⟨.create, [lateDir ++ [slash, 0x61]]⟩

theorem late_attach_reaches_inTime :
    ∃ s, (watching lateSetup).run lateStart
        [.mkdir lateDir, .beginPass, .attach false true, .endPass 0 0] = some s ∧
      ∃ t, step lateSetup s (.touch lateDir appeared) = some t ∧ t.watch.kernel = [.ok appeared] := by
  have h₀ : (watching lateSetup).ReachableUnder
      (fun s a => Growing a ∧ InPlace lateSetup 0 s a) lateStart := .init lateStart_init
  have h₁ := h₀.step (a := Action.mkdir lateDir) ⟨trivial, trivial⟩ rfl
  have h₂ := h₁.step (a := Action.beginPass) ⟨trivial, trivial⟩ rfl
  have h₃ := h₂.step (a := Action.attach false true)
    ⟨rfl, fun _ _ _ _ hspec _ _ hdir => (by cases hspec; cases hdir)⟩ rfl
  have h₄ := h₃.step (a := Action.endPass 0 0) ⟨trivial, trivial⟩ rfl
  have hlate := (late_attach_reaches lateSetup 0 lateDir false rfl).2.1 _ h₄
  exact ⟨_, rfl, hlate.2 _ rfl rfl appeared⟩

/-- The first pass finds no directory and watches the root for it. The directory is made, a
pass runs, and what happens in the directory is not seen. -/
theorem early_attach_watches_parent :
    (¬ ∀ s, (watching lateSetup).ReachableUnder (fun _ a => Growing a) s →
      ∀ p, s.targets 0 = some p → p = lateDir) ∧
    ¬ ∀ s, (watching lateSetup).ReachableUnder (fun _ a => Growing a) s →
      ∀ tree, s.last = some tree → tree.isDir lateDir → ∀ e, ∃ t,
        step lateSetup s (.touch lateDir e) = some t ∧
          t.watch.kernel = s.watch.kernel ++ [.ok e] := by
  have h₀ : (watching lateSetup).ReachableUnder (fun _ a => Growing a) lateStart :=
    .init lateStart_init
  have h₁ := h₀.step (a := Action.beginPass) trivial rfl
  have h₂ := h₁.step (a := Action.attach false true) rfl rfl
  have h₃ := h₂.step (a := Action.endPass 0 0) trivial rfl
  have h₄ := h₃.step (a := Action.mkdir lateDir) trivial rfl
  have h₅ := h₄.step (a := Action.loop .loopTop) trivial rfl
  have h₆ := h₅.step (a := Action.loop (.tick 1000000000)) trivial rfl
  have h₇ := h₆.step (a := Action.beginPass) trivial rfl
  have h₈ := h₇.step (a := Action.attach false true) rfl rfl
  have h₉ := h₈.step (a := Action.endPass 0 0) trivial rfl
  constructor
  · intro h
    cases h _ h₉ [slash] rfl
  · intro h
    obtain ⟨t, ht, hkernel⟩ := h _ h₉ _ rfl rfl appeared
    cases ht
    cases hkernel

end WatchTree
end SharedDaemon
