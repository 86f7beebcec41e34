import SharedDaemon.WatchTree

/-!
# Attached means watched

The flags of `attached` are only ever set, while the watch a flag stands for goes with its
directory. Attached specs are watched as long as no directory that went comes back.
-/

namespace SharedDaemon
namespace WatchTree

open StdPath Watch TransitionSystem

/-- Every attached spec has a target, which is watched while it is a directory. -/
def AttachedWatched (s : State) : Prop :=
  ∀ k, s.watch.attached[k]? = some true →
    ∃ p, s.targets k = some p ∧ ∀ i, s.tree.inode p = some i → s.tree.watched i

def State.Target (s : State) (p : OsStr) : Prop := ∃ k, s.targets k = some p

def State.Makes (s : State) (setup : Setup) (created registered : Bool) (p : OsStr) : Prop :=
  ∃ pass spec, s.pass = some pass ∧ setup.specs[pass.answers.length]? = some spec ∧
    s.watch.attached[pass.answers.length]? ≠ some true ∧ s.tree.isDir p = false ∧
    spec.recursive = false ∧ p = targetOf (s.tree.answers created registered) spec ∧ created = true

/-- No directory comes back at the target of an attached spec, unless it is made and
watched by a pass. -/
def Rewatched (setup : Setup) (s : State) : Action → Prop
  | .mkdir p => ¬ s.Target p
  | .attach created registered =>
    ∀ p, s.Target p → s.Makes setup created registered p → registered = true
  | _ => True

variable {setup : Setup} {s t : State}

def Live (s : State) : Prop :=
  ∀ k p i, s.targets k = some p → s.tree.inode p = some i → s.tree.watched i

theorem live_visit (h : Live s) {pass : Pass} {spec : WatchSpec} {created registered : Bool}
    (hpass : s.pass = some pass) (hspec : setup.specs[pass.answers.length]? = some spec)
    (hC : Rewatched setup s (.attach created registered)) :
    Live (s.visit pass spec created registered) := by
  by_cases hdone : s.watch.attached[pass.answers.length]? = some true
  · simp only [State.visit, if_pos hdone]
    exact h
  · intro k p i hk hi
    rw [visit_tree hdone] at hi ⊢
    rcases of_visit_targets hk with hk | ⟨rfl, -, rfl, hattach⟩
    · rcases Tree.of_attach_inode hi with hi | ⟨hdir, hrec, rfl, hcreated⟩
      · exact Tree.watched_attach (h k p i hk hi)
      · -- a pass has made the target of another spec again, and watches it
        have hregistered : registered = true :=
          hC _ ⟨k, hk⟩ ⟨pass, spec, hpass, hspec, hdone, hdir, hrec, rfl, hcreated⟩
        subst hregistered
        exact Tree.watched_target hi
    · obtain ⟨rfl, -⟩ := Tree.attach_target hattach
      exact Tree.watched_target hi

theorem live_step {a : Action} (h : Live s) (hC : Rewatched setup s a)
    (hstep : step setup s a = some t) : Live t := by
  cases Step.of_step hstep with
  | touched | unseen | beginPass | endPass | loop => exact h
  | mkdir p hp hdir =>
    intro k q i hk hi
    have hq : q ≠ p := by
      rintro rfl
      exact hC ⟨k, hk⟩
    rw [Tree.mkdir_inode_of_ne hq] at hi
    exact h k q i hk hi
  | rmdir p hdir =>
    intro k q i hk hi
    rcases Tree.update_inode hi with ⟨-, hnone⟩ | ⟨hq, hi⟩
    · cases hnone
    · have hne : s.tree.inode p ≠ some i := fun hp => hq (s.tree.inode_inj q p i hi hp)
      exact Tree.watched_rmdir hne (h k q i hk hi)
  | adopt p hcovered => exact fun k q i hk hi => Tree.watched_watch.mpr (.inr (h k q i hk hi))
  | attach created registered pass spec hpass hspec => exact live_visit h hpass hspec hC

theorem live_of_reachable (hs : (watching setup).ReachableUnder (Rewatched setup) s) : Live s := by
  refine hs.invariant (I := Live) ?_ fun _ _ _ hI hC hstep => live_step hI hC hstep
  rintro s ⟨-, -, -, -, htargets⟩ k p i hk
  simp [htargets] at hk

/-- All specs are attached, and the target of one is a directory that is not watched. -/
structure Dark (setup : Setup) (k : ℕ) (p : OsStr) (s : State) : Prop where
  recorded : Recorded setup s
  attached : ∀ j < setup.specs.length, s.watch.attached[j]? = some true
  lt : k < setup.specs.length
  target : s.targets k = some p
  dark : ∃ i, s.tree.inode p = some i ∧ ¬ s.tree.watched i

theorem dark_step {a : Action} {k : ℕ} {p : OsStr} (h : Dark setup k p s)
    (hstep : step setup s a = some t) (hrmdir : a ≠ .rmdir p) (hadopt : a ≠ .adopt p) :
    Dark setup k p t := by
  obtain ⟨i, hi, hdark⟩ := h.dark
  have hrecorded := recorded_step h.recorded hstep
  have htarget := targets_step h.recorded h.target hstep
  refine ⟨hrecorded, fun j hj => attached_step h.recorded (h.attached j hj) hstep, h.lt, htarget, ?_⟩
  cases Step.of_step hstep with
  | touched | unseen | beginPass | endPass | loop => exact ⟨i, hi, hdark⟩
  | mkdir q hq hdir =>
    have hne : p ≠ q := by
      rintro rfl
      simp [Tree.isDir, hi] at hdir
    exact ⟨i, by rwa [Tree.mkdir_inode_of_ne hne], hdark⟩
  | rmdir q hdir =>
    have hne : p ≠ q := fun heq => hrmdir (by rw [heq])
    have hinode : (s.tree.rmdir q).inode p = some i := (Function.update_of_ne hne _ _).trans hi
    exact ⟨i, hinode, fun hw => hdark (Tree.of_watched_rmdir hw)⟩
  | adopt q hcovered =>
    refine ⟨i, hi, fun hw => ?_⟩
    rcases Tree.watched_watch.mp hw with hq | hw
    · exact hadopt (by rw [s.tree.inode_inj p q i hi hq])
    · exact hdark hw
  | attach created registered pass spec hpass hspec =>
    have hdone := h.attached _ (List.getElem?_eq_some_iff.mp hspec).1
    simp only [State.visit, if_pos hdone]
    exact ⟨i, hi, hdark⟩

theorem Dark.not_attachedWatched {k : ℕ} {p : OsStr} (h : Dark setup k p s) :
    ¬ AttachedWatched s := by
  intro hwatched
  obtain ⟨q, hq, hlive⟩ := hwatched k (h.attached k h.lt)
  obtain ⟨i, hi, hdark⟩ := h.dark
  obtain rfl := Option.some.inj (h.target.symm.trans hq)
  exact hdark (hlive i hi)

/-- With all specs attached, what goes wrong is a directory that comes back. -/
theorem dark_of_not_rewatched (hs : (watching setup).Reachable s)
    (hattached : ∀ j < setup.specs.length, s.watch.attached[j]? = some true) {a : Action}
    (h : ¬ Rewatched setup s a) (hstep : step setup s a = some t) :
    ∃ k p, Dark setup k p t := by
  cases Step.of_step hstep with
  | mkdir p =>
    obtain ⟨k, hk⟩ := not_not.mp h
    have hrecorded := recorded_of_reachable hs
    refine ⟨k, p, recorded_step hrecorded hstep, hattached, hrecorded.target_lt hk, hk, _,
      Tree.mkdir_inode_self, fun hw => ?_⟩
    rw [Tree.watched_mkdir] at hw
    exact absurd (Tree.lt_of_watched hw) (Nat.lt_irrefl _)
  | attach created registered pass spec hpass hspec =>
    refine absurd (fun p _ hmakes => ?_) h
    obtain ⟨pass', spec', hpass', hspec', hnot, -⟩ := hmakes
    exact absurd (hattached _ (List.getElem?_eq_some_iff.mp hspec').1) hnot
  | rmdir | touched | unseen | adopt | beginPass | endPass | loop => exact absurd trivial h

/-- Attached specs are watched in every run in which no target comes back unwatched. Once
all specs are attached, a target that does come back is never watched again, unless by
way of a recursive watch above it. -/
theorem attached_watched (setup : Setup) :
    (∀ s, (watching setup).ReachableUnder (Rewatched setup) s → AttachedWatched s) ∧
      ∀ s a t, (watching setup).Reachable s →
        (∀ j < setup.specs.length, s.watch.attached[j]? = some true) →
        ¬ Rewatched setup s a → step setup s a = some t →
        ∃ p, ∀ as u, (∀ b ∈ as, b ≠ .rmdir p ∧ b ≠ .adopt p) →
          (watching setup).run t as = some u → ¬ AttachedWatched u := by
  constructor
  · intro s hs k hk
    have hsome := ((recorded_of_reachable hs.reachable).target k).mpr (.inl hk)
    obtain ⟨p, hp⟩ := Option.isSome_iff_exists.mp hsome
    exact ⟨p, hp, fun i hi => live_of_reachable hs k p i hp hi⟩
  · intro s a t hs hattached h hstep
    obtain ⟨k, p, hdark⟩ := dark_of_not_rewatched hs hattached h hstep
    refine ⟨p, fun as u has hrun => ?_⟩
    have hdark' : Dark setup k p u := run_invariant
      (fun s a t ha hI hstep => dark_step hI hstep (has a ha).1 (has a ha).2) hdark hrun
    exact hdark'.not_attachedWatched

def dropIn : OsStr := [slash, 0x64]

def dropInSetup : Setup := ⟨[.dir dropIn true], 300⟩

def dropInThere : State :=
  ⟨initial dropInSetup, Tree.empty.mkdir dropIn, none, none, fun _ => none⟩

theorem dropInThere_init : (watching dropInSetup).init dropInThere := ⟨rfl, rfl, rfl, rfl, rfl⟩

def netSetup : Setup := ⟨[.dir dropIn true, .file (dropIn ++ [slash, 0x6E])], 300⟩

def netThere : State := { dropInThere with watch := initial netSetup }

/-- At first only the directory is attached. It is removed, and the next pass makes it again
and watches it, for the file. -/
theorem attached_watched_dropIn :
    ∃ s, (watching netSetup).run netThere [.beginPass, .attach false true, .attach false false,
      .endPass 0 0, .rmdir dropIn, .loop .loopTop, .loop (.tick 1000000000), .beginPass,
      .attach false true, .attach true true, .endPass 0 0] = some s ∧
      s.watch.attached = [true, true] ∧ s.tree.inode dropIn = some 1 ∧ AttachedWatched s := by
  have h₀ : (watching netSetup).ReachableUnder (Rewatched netSetup) netThere :=
    .init ⟨rfl, rfl, rfl, rfl, rfl⟩
  have h₁ := h₀.step (a := Action.beginPass) trivial rfl
  have h₂ := h₁.step (a := Action.attach false true) (fun _ _ _ => rfl) rfl
  have h₃ := h₂.step (a := Action.attach false false)
    (fun _ _ ⟨_, _, _, _, _, _, _, _, hcreated⟩ => absurd hcreated (by decide)) rfl
  have h₄ := h₃.step (a := Action.endPass 0 0) trivial rfl
  have h₅ := h₄.step (a := Action.rmdir dropIn) trivial rfl
  have h₆ := h₅.step (a := Action.loop .loopTop) trivial rfl
  have h₇ := h₆.step (a := Action.loop (.tick 1000000000)) trivial rfl
  have h₈ := h₇.step (a := Action.beginPass) trivial rfl
  have h₉ := h₈.step (a := Action.attach false true) (fun _ _ _ => rfl) rfl
  have h₁₀ := h₉.step (a := Action.attach true true) (fun _ _ _ => rfl) rfl
  have h₁₁ := h₁₀.step (a := Action.endPass 0 0) trivial rfl
  exact ⟨_, rfl, rfl, rfl, (attached_watched netSetup).1 _ h₁₁⟩

/-- The directory is removed and created again, and the pass of the next timeout skips it. -/
theorem recreated_dropIn_is_dark :
    ¬ ∀ s t d₁ d₂, (watching dropInSetup).Reachable s →
      step dropInSetup s (.endPass d₁ d₂) = some t → AttachedWatched t := by
  intro h
  have h₀ : (watching dropInSetup).Reachable dropInThere := .init dropInThere_init
  have h₁ := h₀.step (a := Action.beginPass) trivial rfl
  have h₂ := h₁.step (a := Action.attach false true) trivial rfl
  have h₃ := h₂.step (a := Action.endPass 0 0) trivial rfl
  have h₄ := h₃.step (a := Action.rmdir dropIn) trivial rfl
  have h₅ := h₄.step (a := Action.mkdir dropIn) trivial rfl
  have h₆ := h₅.step (a := Action.loop .loopTop) trivial rfl
  have h₇ := h₆.step (a := Action.loop (.tick 1000000000)) trivial rfl
  have h₈ := h₇.step (a := Action.beginPass) trivial rfl
  have h₉ := h₈.step (a := Action.attach false true) trivial rfl
  obtain ⟨p, hp, hlive⟩ := h _ _ 0 0 h₉ rfl 0 rfl
  cases hp
  cases hlive 1 rfl

end WatchTree
end SharedDaemon
