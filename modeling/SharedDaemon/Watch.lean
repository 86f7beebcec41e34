import SharedDaemon.StdPath
import SharedDaemon.TransitionSystem

/-!
# The configuration watcher

The path filter, the attaching of watch specs, and `watch_loop` as a transition system
with a clock. An iteration of the loop is one step, apart from the wait it starts with
and the reload it may end with; the directories and the event queue may change in between.
-/

namespace SharedDaemon
namespace Watch

open StdPath

inductive PathFilter
  | basename (want : String)
  | any (extensions extraNames ignoreSuffixes : List String)
  deriving DecidableEq

structure WatchSpec where
  path : OsStr
  recursive : Bool
  filter : PathFilter
  deriving DecidableEq

def WatchSpec.file (path : OsStr) : WatchSpec :=
  ⟨path, false, .basename (((fileName path).bind toStr).getD "config")⟩

def WatchSpec.dir (path : OsStr) (recursive : Bool) : WatchSpec := ⟨path, recursive, .any [] [] []⟩

def endsWith (name suffix : String) : Bool := suffix.toList.isSuffixOf name.toList

def isJunkName (name : String) : Bool :=
  name.toList.head? = some '.' || endsWith name "~" || endsWith name ".swp" || endsWith name ".tmp"

def isRelevantPath (path : OsStr) (filter : PathFilter) : Bool :=
  match (fileName path).bind toStr with
  | none => false
  | some name =>
    if isJunkName name then false
    else
      match filter with
      | .basename want => name = want
      | .any extensions extraNames ignoreSuffixes =>
        if ignoreSuffixes.any (endsWith name) then false
        else if extraNames.contains name then true
        else if extensions.isEmpty then true
        else ((extension path).bind toStr).any extensions.contains

/-- What the system answers while one spec is attached: which paths are directories now,
which are after `create_dir_all`, and whether `watch` succeeds on a directory. -/
structure DirAnswers where
  isDir : OsStr → Bool
  createDirAll : OsStr → Bool
  watch : OsStr → Bool → Bool

def watchDirFor (os : DirAnswers) (path : OsStr) : OsStr :=
  if os.isDir path then path else (parent path).getD [dot]

def targetOf (os : DirAnswers) (spec : WatchSpec) : OsStr :=
  if spec.recursive then spec.path else watchDirFor os spec.path

def attachSpec (os : DirAnswers) (spec : WatchSpec) : Bool :=
  let target := if spec.recursive then spec.path else watchDirFor os spec.path
  if os.isDir target || (!spec.recursive && os.createDirAll target) then
    os.watch target spec.recursive
  else false

/-- Attach the specs that are not; also whether one was. Spec `i` meets the answers `os i`. -/
def attachPending (os : ℕ → DirAnswers) (specs : List WatchSpec) (attached : List Bool) :
    Bool × List Bool :=
  let now := (specs.zip attached).zipIdx.map fun ((spec, done), i) => done || attachSpec (os i) spec
  ((now.zip attached).any fun (after, before) => after && !before, now)

inductive EventKind
  | any | access | create | modify | remove | other
  deriving DecidableEq

structure Event where
  kind : EventKind
  paths : List OsStr
  deriving DecidableEq

/-- An entry of the raw queue: an event, or the text of a watcher error. -/
abbrev Item := Except String Event

def EventKind.changes : EventKind → Bool
  | .create | .modify | .remove | .any => true
  | .access | .other => false

def relevant (specs : List WatchSpec) (event : Event) : Bool :=
  event.kind.changes && event.paths.any fun p => specs.any fun s => isRelevantPath p s.filter

/-- `watch_loop` before its first attach pass, at the top of the loop, in `recv_timeout`
until a deadline, inside `fire_reload`, or past the loop. -/
inductive Pc
  | starting
  | top
  | waiting (deadline : ℕ)
  | firing
  | stopped
  deriving DecidableEq

/-- Events wait in the kernel until the watcher's own thread puts them on the queue. -/
structure State where
  pc : Pc
  attached : List Bool
  pending : Option ℕ
  stop : Bool
  clock : ℕ
  kernel : List Item
  queue : List Item
  deriving DecidableEq

inductive Action
  | setStop
  | tick (d : ℕ)
  | raise (item : Item)
  | deliver
  | startup (os : ℕ → DirAnswers)
  | loopTop
  | recv (os : ℕ → DirAnswers) (d₁ d₂ : ℕ)
  | timeout (os : ℕ → DirAnswers) (d₁ d₂ : ℕ)
  | fired

structure Setup where
  specs : List WatchSpec
  debounce : ℕ

def initial (setup : Setup) : State :=
  ⟨.starting, setup.specs.map fun _ => false, none, false, 0, [], []⟩

/-- How long `recv_timeout` may wait; a second when nothing is pending. -/
def timeoutFrom (debounce clock : ℕ) : Option ℕ → ℕ
  | none => 1000000000
  | some t => debounce - (clock - t)

def State.attach (s : State) (setup : Setup) (os : ℕ → DirAnswers) (d : ℕ) : State :=
  let (newly, attached) := attachPending os setup.specs s.attached
  let now := s.clock + d
  { s with attached, clock := now, pending := if newly then some now else s.pending }

/-- The arm of an event, `d₁` and `d₂` being the time passed before each `Instant::now`. -/
def State.onEvent (s : State) (setup : Setup) (e : Event) (os : ℕ → DirAnswers) (d₁ d₂ : ℕ) :
    State :=
  let t := s.attach setup os d₁
  let now := t.clock + d₂
  { t with
    pc := .top
    clock := now
    pending := if relevant setup.specs e then some now else t.pending }

def State.due (s : State) (setup : Setup) : Bool :=
  s.pending.any fun t => setup.debounce ≤ s.clock - t

/-- The arm of a timeout; `pending` is cleared before the reload is fired. -/
def State.onTimeout (s : State) (setup : Setup) (os : ℕ → DirAnswers) (d₁ d₂ : ℕ) : State :=
  let t := { s.attach setup os d₁ with clock := s.clock + d₁ + d₂ }
  if t.due setup then { t with pc := .firing, pending := none } else { t with pc := .top }

/-- One step of `watch_loop` or of what goes on around it. The sender of the raw queue
lives as long as the loop, so the queue is never disconnected. -/
def step (setup : Setup) (s : State) : Action → Option State
  | .setStop => some { s with stop := true }
  | .tick d => some { s with clock := s.clock + d }
  | .raise item => some { s with kernel := s.kernel ++ [item] }
  | .deliver =>
    match s.kernel with
    | item :: rest => some { s with kernel := rest, queue := s.queue ++ [item] }
    | [] => none
  | .startup os =>
    match s.pc with
    | .starting =>
      some { s with pc := .top, attached := (attachPending os setup.specs s.attached).2 }
    | _ => none
  | .loopTop =>
    match s.pc with
    | .top =>
      if s.stop then some { s with pc := .stopped }
      else some { s with pc := .waiting (s.clock + timeoutFrom setup.debounce s.clock s.pending) }
    | _ => none
  | .recv os d₁ d₂ =>
    match s.pc, s.queue with
    | .waiting _, .ok e :: rest => some ({ s with queue := rest }.onEvent setup e os d₁ d₂)
    | .waiting _, .error _ :: rest => some { s with pc := .top, queue := rest }
    | _, _ => none
  | .timeout os d₁ d₂ =>
    match s.pc, s.queue with
    | .waiting deadline, [] =>
      if deadline ≤ s.clock then some (s.onTimeout setup os d₁ d₂) else none
    | _, _ => none
  | .fired =>
    match s.pc with
    | .firing => some { s with pc := .top }
    | _ => none

def watcher (setup : Setup) : TransitionSystem State Action where
  init s := s = initial setup
  step := step setup

/-- All that one step can do, guards included. -/
inductive Step (setup : Setup) (s : State) : Action → State → Prop
  | setStop : Step setup s .setStop { s with stop := true }
  | tick (d : ℕ) : Step setup s (.tick d) { s with clock := s.clock + d }
  | raise (item : Item) : Step setup s (.raise item) { s with kernel := s.kernel ++ [item] }
  | deliver (item : Item) (rest : List Item) (h : s.kernel = item :: rest) :
      Step setup s .deliver { s with kernel := rest, queue := s.queue ++ [item] }
  | startup (os : ℕ → DirAnswers) (h : s.pc = .starting) :
      Step setup s (.startup os)
        { s with pc := .top, attached := (attachPending os setup.specs s.attached).2 }
  | stopped (h : s.pc = .top) (hstop : s.stop = true) : Step setup s .loopTop { s with pc := .stopped }
  | wait (h : s.pc = .top) (hstop : s.stop = false) :
      Step setup s .loopTop
        { s with pc := .waiting (s.clock + timeoutFrom setup.debounce s.clock s.pending) }
  | event (os : ℕ → DirAnswers) (d₁ d₂ deadline : ℕ) (e : Event) (rest : List Item)
      (h : s.pc = .waiting deadline) (hq : s.queue = .ok e :: rest) :
      Step setup s (.recv os d₁ d₂) ({ s with queue := rest }.onEvent setup e os d₁ d₂)
  | error (os : ℕ → DirAnswers) (d₁ d₂ deadline : ℕ) (text : String) (rest : List Item)
      (h : s.pc = .waiting deadline) (hq : s.queue = .error text :: rest) :
      Step setup s (.recv os d₁ d₂) { s with pc := .top, queue := rest }
  | timeout (os : ℕ → DirAnswers) (d₁ d₂ deadline : ℕ) (h : s.pc = .waiting deadline)
      (hq : s.queue = []) (hdeadline : deadline ≤ s.clock) :
      Step setup s (.timeout os d₁ d₂) (s.onTimeout setup os d₁ d₂)
  | fired (h : s.pc = .firing) : Step setup s .fired { s with pc := .top }

theorem Step.of_step {setup : Setup} {s t : State} {a : Action} (h : step setup s a = some t) :
    Step setup s a t := by
  cases a with
  | setStop | tick | raise =>
    obtain rfl := Option.some.inj h
    constructor
  | deliver | startup os | fired =>
    simp only [step] at h
    split at h
    · rename_i hguard
      obtain rfl := Option.some.inj h
      constructor
      exact hguard
    · cases h
  | loopTop =>
    simp only [step] at h
    split at h
    · rename_i hpc
      split at h
      · rename_i hstop
        obtain rfl := Option.some.inj h
        exact .stopped hpc hstop
      · rename_i hstop
        obtain rfl := Option.some.inj h
        exact .wait hpc (by simpa using hstop)
    · cases h
  | recv os d₁ d₂ =>
    simp only [step] at h
    split at h
    · rename_i deadline e rest hpc hq
      obtain rfl := Option.some.inj h
      exact .event os d₁ d₂ deadline e rest hpc hq
    · rename_i deadline text rest hpc hq
      obtain rfl := Option.some.inj h
      exact .error os d₁ d₂ deadline text rest hpc hq
    · cases h
  | timeout os d₁ d₂ =>
    simp only [step] at h
    split at h
    · rename_i deadline hpc hq
      simp only [Option.ite_none_right_eq_some] at h
      obtain ⟨hdeadline, ht⟩ := h
      obtain rfl := Option.some.inj ht
      exact .timeout os d₁ d₂ deadline hpc hq hdeadline
    · cases h

theorem stopped_step {setup : Setup} {s t : State} {a : Action}
    (h : s.pc = .stopped → s.stop = true) (hstep : step setup s a = some t) :
    t.pc = .stopped → t.stop = true := by
  intro hpc
  cases Step.of_step hstep with
  | setStop => rfl
  | tick | raise | deliver => exact h hpc
  | stopped _ hstop => exact hstop
  | startup | wait | event | error | fired => cases hpc
  | timeout os d₁ d₂ =>
    simp only [State.onTimeout] at hpc
    split at hpc <;> cases hpc

def State.Triggered (setup : Setup) (s : State) : Prop :=
  (∃ e, Except.ok e ∈ s.kernel ++ s.queue ∧ relevant setup.specs e) ∨ s.pending.isSome

theorem attach_pending_isSome {s : State} (setup : Setup) (os : ℕ → DirAnswers) (d : ℕ)
    (h : s.pending.isSome) : (s.attach setup os d).pending.isSome := by
  simp only [State.attach]
  split <;> simp [h]

/-- A timeout that clears `pending` goes on to fire. -/
theorem onTimeout_spec (s : State) (setup : Setup) (os : ℕ → DirAnswers) (d₁ d₂ : ℕ) :
    (s.onTimeout setup os d₁ d₂).kernel = s.kernel ∧ (s.onTimeout setup os d₁ d₂).queue = s.queue ∧
      ((s.onTimeout setup os d₁ d₂).pc = .firing ∨
        (s.onTimeout setup os d₁ d₂).pending = (s.attach setup os d₁).pending) := by
  simp only [State.onTimeout]
  split
  · exact ⟨rfl, rfl, .inl rfl⟩
  · exact ⟨rfl, rfl, .inr rfl⟩

/-- A trigger stays until a reload is fired. -/
theorem triggered_step {setup : Setup} {s t : State} {a : Action} (h : s.Triggered setup)
    (hstep : step setup s a = some t) :
    t.Triggered setup ∨ (s.pc ≠ .firing ∧ t.pc = .firing) := by
  cases Step.of_step hstep with
  | setStop | tick | startup | stopped | wait | fired => exact .inl h
  | raise item =>
    rcases h with ⟨e, he, hrel⟩ | hp
    · exact .inl (.inl ⟨e, by simp at he ⊢; tauto, hrel⟩)
    · exact .inl (.inr hp)
  | deliver item rest hk =>
    rcases h with ⟨e, he, hrel⟩ | hp
    · exact .inl (.inl ⟨e, by simp [hk] at he ⊢; tauto, hrel⟩)
    · exact .inl (.inr hp)
  | event os d₁ d₂ deadline e rest hpc hq =>
    rcases h with ⟨f, hf, hrel⟩ | hp
    · by_cases hfe : f = e
      · subst hfe
        exact .inl (.inr (by simp [State.onEvent, hrel]))
      · exact .inl (.inl ⟨f, by simpa [hq, hfe, State.onEvent, State.attach] using hf, hrel⟩)
    · have hattach := attach_pending_isSome (s := { s with queue := rest }) setup os d₁ hp
      refine .inl (.inr ?_)
      simp only [State.onEvent]
      split
      · rfl
      · exact hattach
  | error os d₁ d₂ deadline text rest hpc hq =>
    rcases h with ⟨e, he, hrel⟩ | hp
    · exact .inl (.inl ⟨e, by simpa [hq] using he, hrel⟩)
    · exact .inl (.inr hp)
  | timeout os d₁ d₂ deadline hpc hq hdeadline =>
    obtain ⟨hkernel, hqueue, hfire | hpending⟩ := onTimeout_spec s setup os d₁ d₂
    · exact .inr ⟨by simp [hpc], hfire⟩
    · left
      rcases h with he | hp
      · exact .inl (by rwa [hkernel, hqueue])
      · exact .inr (by rw [hpending]; exact attach_pending_isSome setup os d₁ hp)

/-- How many steps the events on the way still take: out of the kernel, and off the queue. -/
def State.onTheWay (s : State) : ℕ := 2 * s.kernel.length + s.queue.length

theorem onTheWay_recv {s t : State} {item : Item} {rest : List Item} (hq : s.queue = item :: rest)
    (hkernel : t.kernel = s.kernel) (hqueue : t.queue = rest) : t.onTheWay < s.onTheWay := by
  simp [State.onTheWay, hq, hkernel, hqueue]

theorem onTheWay_deliver {s t : State} {item : Item} {rest : List Item}
    (hk : s.kernel = item :: rest) (hkernel : t.kernel = rest)
    (hqueue : t.queue = s.queue ++ [item]) : t.onTheWay < s.onTheWay := by
  simp only [State.onTheWay, hk, hkernel, hqueue, List.length_cons, List.length_append,
    List.length_nil]
  omega

theorem firing_step {setup : Setup} {s t : State} {a : Action} (h : s.pc = .firing)
    (ha : a ≠ .fired) (hstep : step setup s a = some t) : t.pc = .firing := by
  cases Step.of_step hstep with
  | setStop | tick | raise | deliver => exact h
  | startup _ hpc | stopped hpc | wait hpc | event _ _ _ _ _ _ hpc | error _ _ _ _ _ _ hpc
  | timeout _ _ _ _ hpc =>
    rw [h] at hpc
    cases hpc
  | fired => exact absurd rfl ha

end Watch
end SharedDaemon
