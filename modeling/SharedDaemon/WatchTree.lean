import Mathlib.Logic.Function.Basic
import SharedDaemon.Watch

/-!
# The tree of directories under watch

A directory is an inode at a path. A watch belongs to the inode and goes with it, so a
directory that is created again is another one. The attach passes of `watch_loop` go over
the specs one by one, and the tree may change at any time, also during a pass.
-/

namespace SharedDaemon
namespace WatchTree

open StdPath Watch TransitionSystem

/-- A live watch; the watcher knows it by its path. -/
structure Watching where
  ino : ℕ
  path : OsStr
  recursive : Bool

/-- No inode is in two places, and those to come are new. -/
structure Tree where
  inode : OsStr → Option ℕ
  nextIno : ℕ
  watches : List Watching
  inode_lt : ∀ p i, inode p = some i → i < nextIno
  inode_inj : ∀ p q i, inode p = some i → inode q = some i → p = q
  watches_lt : ∀ w ∈ watches, w.ino < nextIno

namespace Tree

def empty : Tree := ⟨fun _ => none, 0, [], nofun, nofun, nofun⟩

def isDir (t : Tree) (p : OsStr) : Bool := (t.inode p).isSome

def watched (t : Tree) (i : ℕ) : Bool := t.watches.any fun w => w.ino = i

def covered (t : Tree) (p : OsStr) : Bool :=
  t.watches.any fun w =>
    w.recursive && (components w.path).isPrefixOf (components p) &&
      (components w.path).length < (components p).length

theorem update_inode {t : Tree} {p q : OsStr} {new : Option ℕ} {i : ℕ}
    (h : Function.update t.inode p new q = some i) :
    (q = p ∧ new = some i) ∨ (q ≠ p ∧ t.inode q = some i) := by
  by_cases hq : q = p
  · subst hq
    rw [Function.update_self] at h
    exact .inl ⟨rfl, h⟩
  · rw [Function.update_of_ne hq] at h
    exact .inr ⟨hq, h⟩

def mkdir (t : Tree) (p : OsStr) : Tree where
  inode := Function.update t.inode p (some t.nextIno)
  nextIno := t.nextIno + 1
  watches := t.watches
  inode_lt q i h := by
    rcases update_inode h with ⟨-, hi⟩ | ⟨-, hi⟩
    · obtain rfl := Option.some.inj hi
      exact Nat.lt_succ_self _
    · exact Nat.lt_succ_of_lt (t.inode_lt q i hi)
  inode_inj q r i hq hr := by
    rcases update_inode hq with ⟨rfl, hi⟩ | ⟨-, hi⟩ <;>
      rcases update_inode hr with ⟨rfl, hj⟩ | ⟨-, hj⟩
    · rfl
    · obtain rfl := Option.some.inj hi
      exact absurd (t.inode_lt r _ hj) (Nat.lt_irrefl _)
    · obtain rfl := Option.some.inj hj
      exact absurd (t.inode_lt q _ hi) (Nat.lt_irrefl _)
    · exact t.inode_inj q r i hi hj
  watches_lt w hw := Nat.lt_succ_of_lt (t.watches_lt w hw)

def rmdir (t : Tree) (p : OsStr) : Tree where
  inode := Function.update t.inode p none
  nextIno := t.nextIno
  watches := t.watches.filter fun w => t.inode p ≠ some w.ino
  inode_lt q i h := by
    rcases update_inode h with ⟨-, hi⟩ | ⟨-, hi⟩
    · cases hi
    · exact t.inode_lt q i hi
  inode_inj q r i hq hr := by
    rcases update_inode hq with ⟨-, hi⟩ | ⟨-, hi⟩
    · cases hi
    · rcases update_inode hr with ⟨-, hj⟩ | ⟨-, hj⟩
      · cases hj
      · exact t.inode_inj q r i hi hj
  watches_lt w hw := t.watches_lt w (List.mem_of_mem_filter hw)

def watch (t : Tree) (p : OsStr) (recursive : Bool) : Tree where
  inode := t.inode
  nextIno := t.nextIno
  watches := ((t.inode p).map fun i => ⟨i, p, recursive⟩).toList ++ t.watches
  inode_lt := t.inode_lt
  inode_inj := t.inode_inj
  watches_lt w hw := by
    rcases List.mem_append.mp hw with hw | hw
    · obtain ⟨i, hi, rfl⟩ := Option.map_eq_some_iff.mp (Option.mem_toList.mp hw)
      exact t.inode_lt p i hi
    · exact t.watches_lt w hw

/-- What `attach_spec` is answered, given how its `create_dir_all` and its `watch` end.
The empty path is never a directory. -/
def answers (t : Tree) (created registered : Bool) : DirAnswers :=
  ⟨t.isDir, fun p => created && p ≠ [], fun _ _ => registered⟩

/-- The tree after the `create_dir_all` of `attach_spec`, if it makes one; parents that it makes
too come by steps of the tree before. -/
def prepare (t : Tree) (os : DirAnswers) (spec : WatchSpec) : Tree :=
  let target := targetOf os spec
  if !t.isDir target && !spec.recursive && os.createDirAll target then t.mkdir target else t

def attach (t : Tree) (spec : WatchSpec) (created registered : Bool) : Tree :=
  let os := t.answers created registered
  let u := t.prepare os spec
  if u.isDir (targetOf os spec) && registered then u.watch (targetOf os spec) spec.recursive else u

variable {t : Tree} {p q : OsStr} {i : ℕ} {spec : WatchSpec} {created registered : Bool}

theorem mkdir_inode_of_ne (h : q ≠ p) : (t.mkdir p).inode q = t.inode q :=
  Function.update_of_ne h _ _

@[simp] theorem mkdir_inode_self : (t.mkdir p).inode p = some t.nextIno :=
  Function.update_self _ _ _

@[simp] theorem watched_mkdir : (t.mkdir p).watched i = t.watched i := rfl

theorem watched_rmdir (h : t.inode p ≠ some i) (hi : t.watched i) : (t.rmdir p).watched i := by
  simp only [watched, List.any_eq_true, decide_eq_true_eq] at hi ⊢
  obtain ⟨w, hw, rfl⟩ := hi
  exact ⟨w, List.mem_filter.mpr ⟨hw, by simpa using h⟩, rfl⟩

theorem of_watched_rmdir (hi : (t.rmdir p).watched i) : t.watched i := by
  simp only [watched, List.any_eq_true, decide_eq_true_eq] at hi ⊢
  obtain ⟨w, hw, rfl⟩ := hi
  exact ⟨w, List.mem_of_mem_filter hw, rfl⟩

theorem watched_watch {recursive : Bool} :
    (t.watch p recursive).watched i ↔ t.inode p = some i ∨ t.watched i := by
  cases h : t.inode p <;> simp [watch, watched, h]

theorem lt_of_watched (h : t.watched i) : i < t.nextIno := by
  simp only [watched, List.any_eq_true, decide_eq_true_eq] at h
  obtain ⟨w, hw, rfl⟩ := h
  exact t.watches_lt w hw

theorem isDir_eq_true : t.isDir p ↔ ∃ i, t.inode p = some i := Option.isSome_iff_exists

theorem prepare_inode (os : DirAnswers) (h : t.inode q = some i) :
    (t.prepare os spec).inode q = some i := by
  simp only [prepare]
  split
  · rename_i hguard
    have hq : q ≠ targetOf os spec := by
      rintro rfl
      simp [isDir, h] at hguard
    rw [mkdir_inode_of_ne hq, h]
  · exact h

/-- The result of `attach_spec`, read off the tree it has prepared. -/
theorem attachSpec_answers : attachSpec (t.answers created registered) spec =
    ((t.prepare (t.answers created registered) spec).isDir
      (targetOf (t.answers created registered) spec) && registered) := by
  have hspec : attachSpec (t.answers created registered) spec =
      ((t.isDir (targetOf (t.answers created registered) spec) || (!spec.recursive &&
        (t.answers created registered).createDirAll (targetOf (t.answers created registered) spec)))
        && registered) := by
    simp only [attachSpec, targetOf]
    split <;> simp_all [answers]
  rw [hspec]
  congr 1
  simp only [prepare]
  split
  · rename_i hguard
    simp only [Bool.and_eq_true] at hguard
    simp [isDir, hguard.1.2, hguard.2]
  · rename_i hguard
    cases hdir : t.isDir (targetOf (t.answers created registered) spec)
    · simpa [hdir] using hguard
    · rfl

theorem inode_attach : (t.attach spec created registered).inode =
    (t.prepare (t.answers created registered) spec).inode := by
  simp only [attach]
  split <;> rfl

theorem attach_inode (h : t.inode q = some i) :
    (t.attach spec created registered).inode q = some i := by
  rw [inode_attach]
  exact prepare_inode _ h

theorem of_attach_inode (h : (t.attach spec created registered).inode q = some i) :
    t.inode q = some i ∨ (t.isDir q = false ∧ spec.recursive = false ∧
      q = targetOf (t.answers created registered) spec ∧ created = true) := by
  rw [inode_attach] at h
  simp only [prepare] at h
  split at h
  · rename_i hguard
    simp only [answers, Bool.and_eq_true, Bool.not_eq_true'] at hguard
    obtain ⟨⟨hdir, hrec⟩, hcreated, -⟩ := hguard
    by_cases hq : q = targetOf (t.answers created registered) spec
    · subst hq
      exact .inr ⟨hdir, hrec, rfl, hcreated⟩
    · rw [mkdir_inode_of_ne hq] at h
      exact .inl h
  · exact .inl h

theorem watched_attach (h : t.watched i) : (t.attach spec created registered).watched i := by
  have hprepare : (t.prepare (t.answers created registered) spec).watched i := by
    simp only [prepare]
    split <;> exact h
  simp only [attach]
  split
  · exact watched_watch.mpr (.inr hprepare)
  · exact hprepare

theorem watched_target
    (h : (t.attach spec created true).inode (targetOf (t.answers created true) spec) = some i) :
    (t.attach spec created true).watched i := by
  rw [inode_attach] at h
  have hdir : (t.prepare (t.answers created true) spec).isDir
      (targetOf (t.answers created true) spec) := isDir_eq_true.mpr ⟨i, h⟩
  simp only [attach, hdir, Bool.and_self, if_true]
  exact watched_watch.mpr (.inl h)

theorem attach_target (h : attachSpec (t.answers created registered) spec) :
    registered = true ∧ ∃ i,
      (t.attach spec created registered).inode (targetOf (t.answers created registered) spec) =
        some i := by
  rw [attachSpec_answers] at h
  obtain ⟨hdir, hregistered⟩ := (Bool.and_eq_true _ _).mp h
  rw [inode_attach]
  exact ⟨hregistered, isDir_eq_true.mp hdir⟩

end Tree

/-- An attach pass under way: the tree it began with, and what the specs it has met were
answered. -/
structure Pass where
  begun : Tree
  answers : List DirAnswers

/-- `targets` are the directories `attach_spec` has registered, `last` the tree with which
the last complete pass began. -/
structure State where
  watch : Watch.State
  tree : Tree
  pass : Option Pass
  last : Option Tree
  targets : ℕ → Option OsStr

/-- A directory comes or goes, or something in it changes; the watcher adopts a directory
below a recursive watch; and the loop goes on. -/
inductive Action
  | mkdir (p : OsStr)
  | rmdir (p : OsStr)
  | touch (p : OsStr) (e : Event)
  | adopt (p : OsStr)
  | beginPass
  | attach (created registered : Bool)
  | endPass (d₁ d₂ : ℕ)
  | loop (a : Watch.Action)

/-- The loop attaches specs before it starts, on an event and on a timeout. -/
def passDue (w : Watch.State) : Bool :=
  match w.pc, w.queue with
  | .starting, _ => true
  | .waiting _, .ok _ :: _ => true
  | .waiting deadline, [] => deadline ≤ w.clock
  | _, _ => false

def passAction (w : Watch.State) (os : ℕ → DirAnswers) (d₁ d₂ : ℕ) : Watch.Action :=
  match w.pc, w.queue with
  | .starting, _ => .startup os
  | _, [] => .timeout os d₁ d₂
  | _, _ => .recv os d₁ d₂

def isOk : Item → Bool
  | .ok _ => true
  | .error _ => false

/-- The other steps of the loop and of its surroundings. During a pass the queue is left
alone: nobody reads it. -/
def elsewhere (s : State) : Watch.Action → Bool
  | .setStop | .tick _ | .raise _ => true
  | .deliver | .loopTop | .fired => s.pass.isNone
  | .recv _ _ _ => s.pass.isNone && !s.watch.queue.head?.any isOk
  | .startup _ | .timeout _ _ _ => false

def Pass.os (pass : Pass) (k : ℕ) : DirAnswers :=
  pass.answers[k]?.getD (pass.begun.answers false false)

/-- The pass comes to its next spec, and skips it if it is attached. -/
def State.visit (s : State) (pass : Pass) (spec : WatchSpec) (created registered : Bool) : State :=
  let k := pass.answers.length
  let os := s.tree.answers created registered
  let met := some { pass with answers := pass.answers ++ [os] }
  if s.watch.attached[k]? = some true then { s with pass := met }
  else
    { s with
      tree := s.tree.attach spec created registered
      pass := met
      targets := if attachSpec os spec then Function.update s.targets k (some (targetOf os spec))
        else s.targets }

def step (setup : Setup) (s : State) : Action → Option State
  | .mkdir p => if p = [] ∨ s.tree.isDir p then none else some { s with tree := s.tree.mkdir p }
  | .rmdir p => if s.tree.isDir p then some { s with tree := s.tree.rmdir p } else none
  | .touch p e =>
    if (s.tree.inode p).any s.tree.watched then
      (Watch.step setup s.watch (.raise (.ok e))).map fun w => { s with watch := w }
    else some s
  | .adopt p => if s.tree.covered p then some { s with tree := s.tree.watch p true } else none
  | .beginPass =>
    if s.pass.isNone && passDue s.watch then some { s with pass := some ⟨s.tree, []⟩ } else none
  | .attach created registered =>
    match s.pass with
    | some pass =>
      setup.specs[pass.answers.length]?.map fun spec => s.visit pass spec created registered
    | none => none
  | .endPass d₁ d₂ =>
    match s.pass with
    | some pass =>
      if pass.answers.length = setup.specs.length then
        (Watch.step setup s.watch (passAction s.watch pass.os d₁ d₂)).map fun w =>
          { s with watch := w, pass := none, last := some pass.begun }
      else none
    | none => none
  | .loop a =>
    if elsewhere s a then (Watch.step setup s.watch a).map fun w => { s with watch := w } else none

def watching (setup : Setup) : TransitionSystem State Action where
  init s := s.watch = initial setup ∧ s.tree.watches = [] ∧ s.pass = none ∧ s.last = none ∧
    s.targets = fun _ => none
  step := step setup

variable {setup : Setup} {s t : State}

inductive Step (setup : Setup) (s : State) : Action → State → Prop
  | mkdir (p : OsStr) (hp : p ≠ []) (h : s.tree.isDir p = false) :
      Step setup s (.mkdir p) { s with tree := s.tree.mkdir p }
  | rmdir (p : OsStr) (h : s.tree.isDir p = true) :
      Step setup s (.rmdir p) { s with tree := s.tree.rmdir p }
  | touched (p : OsStr) (e : Event) (w : Watch.State)
      (h : (s.tree.inode p).any s.tree.watched = true)
      (hw : Watch.step setup s.watch (.raise (.ok e)) = some w) :
      Step setup s (.touch p e) { s with watch := w }
  | unseen (p : OsStr) (e : Event) (h : (s.tree.inode p).any s.tree.watched = false) :
      Step setup s (.touch p e) s
  | adopt (p : OsStr) (h : s.tree.covered p = true) :
      Step setup s (.adopt p) { s with tree := s.tree.watch p true }
  | beginPass (h : s.pass = none) (hdue : passDue s.watch = true) :
      Step setup s .beginPass { s with pass := some ⟨s.tree, []⟩ }
  | attach (created registered : Bool) (pass : Pass) (spec : WatchSpec) (h : s.pass = some pass)
      (hspec : setup.specs[pass.answers.length]? = some spec) :
      Step setup s (.attach created registered) (s.visit pass spec created registered)
  | endPass (d₁ d₂ : ℕ) (pass : Pass) (w : Watch.State) (h : s.pass = some pass)
      (hlen : pass.answers.length = setup.specs.length)
      (hw : Watch.step setup s.watch (passAction s.watch pass.os d₁ d₂) = some w) :
      Step setup s (.endPass d₁ d₂) { s with watch := w, pass := none, last := some pass.begun }
  | loop (a : Watch.Action) (w : Watch.State) (h : elsewhere s a = true)
      (hw : Watch.step setup s.watch a = some w) :
      Step setup s (.loop a) { s with watch := w }

theorem Step.of_step {a : Action} (h : step setup s a = some t) : Step setup s a t := by
  cases a with
  | mkdir p =>
    simp only [step, Option.ite_none_left_eq_some, not_or, Option.some.injEq] at h
    obtain ⟨⟨hp, hdir⟩, rfl⟩ := h
    exact .mkdir p hp (by simpa using hdir)
  | rmdir p | adopt p =>
    simp only [step, Option.ite_none_right_eq_some, Option.some.injEq] at h
    obtain ⟨hguard, rfl⟩ := h
    constructor
    exact hguard
  | touch p e =>
    simp only [step] at h
    split at h
    · rename_i hwatched
      obtain ⟨w, hw, rfl⟩ := Option.map_eq_some_iff.mp h
      exact .touched p e w hwatched hw
    · rename_i hwatched
      obtain rfl := Option.some.inj h
      exact .unseen p e (by simpa using hwatched)
  | beginPass =>
    simp only [step, Option.ite_none_right_eq_some, Bool.and_eq_true, Option.isNone_iff_eq_none,
      Option.some.injEq] at h
    obtain ⟨⟨hpass, hdue⟩, rfl⟩ := h
    exact .beginPass hpass hdue
  | attach created registered =>
    simp only [step] at h
    split at h
    · rename_i pass hpass
      obtain ⟨spec, hspec, rfl⟩ := Option.map_eq_some_iff.mp h
      exact .attach created registered pass spec hpass hspec
    · cases h
  | endPass d₁ d₂ =>
    simp only [step] at h
    split at h
    · rename_i pass hpass
      simp only [Option.ite_none_right_eq_some, Option.map_eq_some_iff] at h
      obtain ⟨hlen, w, hw, rfl⟩ := h
      exact .endPass d₁ d₂ pass w hpass hlen hw
    · cases h
  | loop a =>
    simp only [step, Option.ite_none_right_eq_some, Option.map_eq_some_iff] at h
    obtain ⟨hguard, w, hw, rfl⟩ := h
    exact .loop a w hguard hw

theorem visit_watch (pass : Pass) (spec : WatchSpec) (created registered : Bool) :
    (s.visit pass spec created registered).watch = s.watch := by
  simp only [State.visit]
  split <;> rfl

/-- The loop over the tree is the loop: what it attaches, the tree has answered. -/
theorem watcher_of_reachable (hs : (watching setup).Reachable s) :
    (watcher setup).Reachable s.watch := by
  refine hs.invariant (I := fun s => (watcher setup).Reachable s.watch) ?_ ?_
  · rintro s ⟨hwatch, -⟩
    exact .init hwatch
  · intro s a t hI _ hstep
    cases Step.of_step hstep with
    | mkdir | rmdir | unseen | adopt | beginPass => exact hI
    | attach created registered pass spec =>
      rw [visit_watch]
      exact hI
    | touched p e w _ hw => exact hI.step (a := Watch.Action.raise (.ok e)) trivial hw
    | endPass _ _ _ _ _ _ hw => exact hI.step trivial hw
    | loop _ _ _ hw => exact hI.step trivial hw

theorem attachPending_length (os : ℕ → DirAnswers) {specs : List WatchSpec} {attached : List Bool}
    (hlen : attached.length = specs.length) :
    (attachPending os specs attached).2.length = specs.length := by
  simp [attachPending, hlen]

theorem attachPending_getElem? (os : ℕ → DirAnswers) {specs : List WatchSpec}
    {attached : List Bool} (hlen : attached.length = specs.length) (k : ℕ) :
    (attachPending os specs attached).2[k]? = some true ↔
      attached[k]? = some true ∨ ∃ spec, specs[k]? = some spec ∧ attachSpec (os k) spec := by
  by_cases hk : k < specs.length
  · have hk' : k < attached.length := hlen ▸ hk
    have hzip : (specs.zip attached)[k]? = some (specs[k], attached[k]) :=
      List.getElem?_zip_eq_some.mpr ⟨List.getElem?_eq_getElem hk, List.getElem?_eq_getElem hk'⟩
    simp only [attachPending, List.getElem?_map, List.getElem?_zipIdx, hzip]
    simp [hk, hk']
  · have hk' : attached.length ≤ k := by omega
    have hzip : (specs.zip attached)[k]? = none := by simp [hlen, hk]
    simp only [attachPending, List.getElem?_map, List.getElem?_zipIdx, hzip]
    simp [hk, hk']

theorem onTimeout_attached (w : Watch.State) (os : ℕ → DirAnswers) (d₁ d₂ : ℕ) :
    (w.onTimeout setup os d₁ d₂).attached = (attachPending os setup.specs w.attached).2 := by
  simp only [Watch.State.onTimeout]
  split <;> rfl

theorem attached_of_endPass {os : ℕ → DirAnswers} {d₁ d₂ : ℕ} {w : Watch.State}
    (hdue : passDue s.watch) (hw : Watch.step setup s.watch (passAction s.watch os d₁ d₂) = some w) :
    w.attached = (attachPending os setup.specs s.watch.attached).2 := by
  simp only [passAction] at hw
  split at hw
  · cases Watch.Step.of_step hw with
    | startup => rfl
  · cases Watch.Step.of_step hw with
    | timeout => exact onTimeout_attached s.watch os d₁ d₂
  · cases Watch.Step.of_step hw with
    | event => rfl
    | error _ _ _ _ _ _ hpc hq => simp [passDue, hpc, hq] at hdue

theorem attached_of_loop {a : Watch.Action} {w : Watch.State} (h : elsewhere s a = true)
    (hw : Watch.step setup s.watch a = some w) : w.attached = s.watch.attached := by
  cases Watch.Step.of_step hw with
  | setStop | tick | raise | deliver | stopped | wait | error | fired => rfl
  | startup | timeout => cases h
  | event _ _ _ _ _ _ _ hq => simp [elsewhere, hq, isOk] at h

/-- During a pass the loop stays where it is. -/
theorem passDue_of_loop {a : Watch.Action} {w : Watch.State} (hpass : s.pass ≠ none)
    (hdue : passDue s.watch) (h : elsewhere s a = true) (hw : Watch.step setup s.watch a = some w) :
    passDue w := by
  have hsome : s.pass.isNone = false := by simpa [Option.isSome_iff_ne_none] using hpass
  cases Watch.Step.of_step hw with
  | setStop | raise => exact hdue
  | tick d =>
    simp only [passDue] at hdue ⊢
    split <;> simp_all
    omega
  | startup | timeout | deliver | stopped | wait | event | error | fired => simp [elsewhere, hsome] at h

/-- A spec has a target if its flag is set, or has been answered so by the pass under way. -/
structure Recorded (setup : Setup) (s : State) : Prop where
  length : s.watch.attached.length = setup.specs.length
  due : s.pass ≠ none → passDue s.watch
  target : ∀ k, (s.targets k).isSome ↔ s.watch.attached[k]? = some true ∨
    ∃ pass os spec, s.pass = some pass ∧ pass.answers[k]? = some os ∧
      setup.specs[k]? = some spec ∧ attachSpec os spec

theorem Pass.os_of_getElem? {pass : Pass} {k : ℕ} {os : DirAnswers}
    (h : pass.answers[k]? = some os) : pass.os k = os := by
  simp [Pass.os, h]

theorem visit_pass {pass : Pass} {spec : WatchSpec} {created registered : Bool} :
    (s.visit pass spec created registered).pass =
      some { pass with answers := pass.answers ++ [s.tree.answers created registered] } := by
  simp only [State.visit]
  split <;> rfl

theorem visit_targets_of_ne {pass : Pass} {spec : WatchSpec} {created registered : Bool} {k : ℕ}
    (hk : k ≠ pass.answers.length) :
    (s.visit pass spec created registered).targets k = s.targets k := by
  simp only [State.visit]
  split
  · rfl
  · split
    · exact Function.update_of_ne hk _ _
    · rfl

theorem of_visit_targets {pass : Pass} {spec : WatchSpec} {created registered : Bool} {k : ℕ}
    {p : OsStr} (h : (s.visit pass spec created registered).targets k = some p) :
    s.targets k = some p ∨ (k = pass.answers.length ∧ s.watch.attached[k]? ≠ some true ∧
      p = targetOf (s.tree.answers created registered) spec ∧
      attachSpec (s.tree.answers created registered) spec) := by
  by_cases hk : k = pass.answers.length
  · subst hk
    simp only [State.visit] at h
    split at h
    · exact .inl h
    · rename_i hdone
      split at h
      · rename_i hattach
        simp only [Function.update_self, Option.some.injEq] at h
        exact .inr ⟨rfl, hdone, h.symm, hattach⟩
      · exact .inl h
  · rw [visit_targets_of_ne hk] at h
    exact .inl h

theorem visit_tree {pass : Pass} {spec : WatchSpec} {created registered : Bool}
    (h : s.watch.attached[pass.answers.length]? ≠ some true) :
    (s.visit pass spec created registered).tree = s.tree.attach spec created registered := by
  simp only [State.visit, if_neg h]

theorem recorded_visit (h : Recorded setup s) {pass : Pass} {spec : WatchSpec}
    (hpass : s.pass = some pass) (hspec : setup.specs[pass.answers.length]? = some spec)
    (created registered : Bool) : Recorded setup (s.visit pass spec created registered) := by
  refine ⟨by rw [visit_watch]; exact h.length, fun _ => ?_, fun k => ?_⟩
  · rw [visit_watch]
    exact h.due (by simp [hpass])
  · rw [visit_watch, visit_pass]
    by_cases hk : k = pass.answers.length
    · -- the spec just met
      subst hk
      have hunmet : (s.targets pass.answers.length).isSome ↔
          s.watch.attached[pass.answers.length]? = some true := by
        rw [h.target]
        simp [hpass]
      by_cases hdone : s.watch.attached[pass.answers.length]? = some true
      · simp [State.visit, hdone, hunmet]
      · simp only [State.visit, if_neg hdone]
        split
        · rename_i hattach
          simp [hattach, hspec]
        · rename_i hattach
          simp [hattach, hspec, hunmet]
    · have hget : (pass.answers ++ [s.tree.answers created registered])[k]? = pass.answers[k]? := by
        by_cases hlt : k < pass.answers.length
        · exact List.getElem?_append_left hlt
        · rw [List.getElem?_eq_none (by simp; omega), List.getElem?_eq_none (by omega)]
      rw [visit_targets_of_ne hk, h.target]
      simp [hpass, hget]

theorem recorded_endPass (h : Recorded setup s) {pass : Pass} (hpass : s.pass = some pass)
    (hlen : pass.answers.length = setup.specs.length) {d₁ d₂ : ℕ} {w : Watch.State}
    (hw : Watch.step setup s.watch (passAction s.watch pass.os d₁ d₂) = some w) :
    Recorded setup { s with watch := w, pass := none, last := some pass.begun } := by
  have hattached := attached_of_endPass (h.due (by simp [hpass])) hw
  refine ⟨?_, fun hne => absurd rfl hne, fun k => ?_⟩
  · rw [hattached]
    exact attachPending_length pass.os h.length
  · rw [h.target, hattached, attachPending_getElem? pass.os h.length]
    constructor
    · rintro (hk | ⟨_, os, spec, heq, hos, hspec, hattach⟩)
      · exact .inl (.inl hk)
      · obtain rfl := Option.some.inj (hpass.symm.trans heq)
        rw [← Pass.os_of_getElem? hos] at hattach
        exact .inl (.inr ⟨spec, hspec, hattach⟩)
    · rintro ((hk | ⟨spec, hspec, hattach⟩) | ⟨_, _, _, heq, -⟩)
      · exact .inl hk
      · obtain ⟨hk, -⟩ := List.getElem?_eq_some_iff.mp hspec
        have hos : pass.answers[k]? = some (pass.os k) := by
          simp [Pass.os, List.getElem?_eq_getElem (hlen ▸ hk : k < pass.answers.length)]
        exact .inr ⟨pass, pass.os k, spec, hpass, hos, hspec, hattach⟩
      · cases heq

theorem recorded_step {a : Action} (h : Recorded setup s) (hstep : step setup s a = some t) :
    Recorded setup t := by
  cases Step.of_step hstep with
  | mkdir | rmdir | unseen | adopt => exact ⟨h.length, h.due, h.target⟩
  | touched p e w _ hw =>
    cases Watch.Step.of_step hw with
    | raise => exact ⟨h.length, h.due, h.target⟩
  | beginPass hpass hdue =>
    refine ⟨h.length, fun _ => hdue, fun k => ?_⟩
    rw [h.target]
    simp [hpass]
  | attach created registered pass spec hpass hspec =>
    exact recorded_visit h hpass hspec created registered
  | endPass d₁ d₂ pass w hpass hlen hw => exact recorded_endPass h hpass hlen hw
  | loop a w hguard hw =>
    have hattached := attached_of_loop hguard hw
    refine ⟨?_, fun hpass => passDue_of_loop (s := s) hpass (h.due hpass) hguard hw, fun k => ?_⟩
    · rw [hattached]
      exact h.length
    · rw [h.target, hattached]

theorem recorded_of_reachable (hs : (watching setup).Reachable s) : Recorded setup s := by
  refine hs.invariant (I := Recorded setup) ?_ fun _ _ _ hI _ hstep => recorded_step hI hstep
  rintro s ⟨hwatch, -, hpass, -, htargets⟩
  refine ⟨by simp [hwatch, initial], fun hne => absurd hpass hne, fun k => ?_⟩
  simp [hwatch, hpass, htargets, initial, List.getElem?_replicate]

theorem Recorded.target_lt {k : ℕ} {p : OsStr} (h : Recorded setup s)
    (hk : s.targets k = some p) : k < setup.specs.length := by
  rcases (h.target k).mp (by simp [hk]) with hdone | ⟨_, _, _, -, -, hspec, -⟩
  · rw [← h.length]
    exact (List.getElem?_eq_some_iff.mp hdone).1
  · exact (List.getElem?_eq_some_iff.mp hspec).1

theorem attached_step {a : Action} {k : ℕ} (h : Recorded setup s)
    (hk : s.watch.attached[k]? = some true) (hstep : step setup s a = some t) :
    t.watch.attached[k]? = some true := by
  cases Step.of_step hstep with
  | mkdir | rmdir | unseen | adopt | beginPass => exact hk
  | touched p e w _ hw =>
    cases Watch.Step.of_step hw with
    | raise => exact hk
  | attach created registered pass spec hpass hspec => rwa [visit_watch]
  | endPass d₁ d₂ pass w hpass hlen hw =>
    simp only [attached_of_endPass (h.due (by simp [hpass])) hw]
    exact (attachPending_getElem? pass.os h.length k).mpr (.inl hk)
  | loop a w hguard hw =>
    simp only [attached_of_loop hguard hw]
    exact hk

theorem targets_step {a : Action} {k : ℕ} {p : OsStr} (h : Recorded setup s)
    (hk : s.targets k = some p) (hstep : step setup s a = some t) : t.targets k = some p := by
  cases Step.of_step hstep with
  | mkdir | rmdir | touched | unseen | adopt | beginPass | endPass | loop => exact hk
  | attach created registered pass spec hpass hspec =>
    by_cases hlen : k = pass.answers.length
    · -- only its flag can have given the next spec a target
      subst hlen
      have hdone : s.watch.attached[pass.answers.length]? = some true := by
        have hsome := (h.target pass.answers.length).mp (by simp [hk])
        simpa [hpass] using hsome
      simpa [State.visit, hdone] using hk
    · rw [visit_targets_of_ne hlen, hk]

end WatchTree
end SharedDaemon
