import SharedDaemon.Config
import SharedDaemon.Watch

/-!
# Hot reload converges

The watcher with a callback that runs `try_reload` on one file, while others change the
file. Reads are numbered by how many states the file has had, so that a read before and a
read after a change that restores old content are told apart.
-/

namespace SharedDaemon
namespace Reload

open StdIo StdPath Config TransitionSystem

/-- The callback: not begun, with the result of its load in hand, or about to return. -/
inductive Callback (T : Type)
  | idle
  | loaded (result : Except ConfigError T)
  | done
  deriving DecidableEq

/-- `history` and `reads` only record: every state of the file, and every state that a
load read with its number; the latest first. -/
structure State (T : Type) where
  watch : Watch.State
  file : Except IoError String
  live : T
  callback : Callback T
  history : List (Except IoError String)
  reads : List (ℕ × Except IoError String)
  deriving DecidableEq

inductive Action
  | watch (a : Watch.Action)
  | change (next : Except IoError String) (e : Watch.Event)
  | load
  | replace

structure Setup (T : Type) where
  watch : Watch.Setup
  source : ReadOnlyFile
  codec : Codec T

variable {T : Type}

def start (setup : Setup T) (live : T) (file : Except IoError String) : State T :=
  ⟨Watch.initial setup.watch, file, live, .idle, [file], []⟩

def names (setup : Setup T) (e : Watch.Event) : Bool :=
  e.kind.changes && e.paths.contains setup.source.source.path

def step (setup : Setup T) (s : State T) : Action → Option (State T)
  | .watch .fired =>
    match s.callback with
    | .done => (Watch.step setup.watch s.watch .fired).map fun w => { s with watch := w, callback := .idle }
    | _ => none
  | .watch a => (Watch.step setup.watch s.watch a).map fun w => { s with watch := w }
  | .change next e =>
    if names setup e then
      (Watch.step setup.watch s.watch (.raise (.ok e))).map fun w =>
        { s with watch := w, file := next, history := next :: s.history }
    else none
  | .load =>
    match s.watch.pc, s.callback with
    | .firing, .idle =>
      some { s with
        callback := .loaded (setup.source.load setup.codec s.file)
        reads := (s.history.length, s.file) :: s.reads }
    | _, _ => none
  | .replace =>
    match s.callback with
    | .loaded result => some { s with live := (tryReload s.live result).1, callback := .done }
    | _ => none

def reloader (setup : Setup T) (live : T) (file : Except IoError String) :
    TransitionSystem (State T) Action where
  init s := s = start setup live file
  step := step setup

def State.settled (s : State T) : T :=
  match s.callback with
  | .loaded result => (tryReload s.live result).1
  | _ => s.live

/-- Nothing is left of a change but the reload it caused. -/
structure State.Drained (s : State T) : Prop where
  kernel : s.watch.kernel = []
  queue : s.watch.queue = []
  pending : s.watch.pending = none
  returned : s.watch.pc ≠ .firing

def State.Due (setup : Setup T) (s : State T) : Prop :=
  s.watch.Triggered setup.watch ∨ (s.watch.pc = .firing ∧ s.callback = .idle)

structure Tracked (setup : Setup T) (init : T) (s : State T) : Prop where
  running : s.callback ≠ .idle → s.watch.pc = .firing
  settled : s.settled = setup.source.lastGood setup.codec init (s.reads.map Prod.snd)
  current : s.file ∈ s.history
  reads_subset : ∀ r ∈ s.reads, r.2 ∈ s.history
  origin : s.live = init ∨ ∃ got ∈ s.history, setup.source.load setup.codec got = .ok s.live
  seen : s.history.length = 1 ∨ s.reads.head? = some (s.history.length, s.file) ∨ s.Due setup

theorem tracked_start (setup : Setup T) (live : T) (file : Except IoError String) :
    Tracked setup live (start setup live file) :=
  ⟨fun h => absurd rfl h, rfl, by simp [start], by simp [start], .inl rfl, .inl rfl⟩

theorem relevant_of_names {setup : Setup T} {e : Watch.Event}
    (hspec : ∃ spec ∈ setup.watch.specs,
      Watch.isRelevantPath setup.source.source.path spec.filter)
    (h : names setup e) : Watch.relevant setup.watch.specs e := by
  obtain ⟨spec, hmem, hrel⟩ := hspec
  simp only [names, Bool.and_eq_true, List.contains_iff_mem] at h
  simp only [Watch.relevant, Bool.and_eq_true, List.any_eq_true]
  exact ⟨h.1, _, h.2, spec, hmem, hrel⟩

theorem Tracked.watch {setup : Setup T} {init : T} {s : State T} {a : Watch.Action}
    {w : Watch.State} (h : Tracked setup init s) (ha : a ≠ .fired)
    (hstep : Watch.step setup.watch s.watch a = some w) :
    Tracked setup init { s with watch := w } := by
  refine ⟨fun hc => Watch.firing_step (h.running hc) ha hstep, h.settled, h.current,
    h.reads_subset, h.origin, ?_⟩
  rcases h.seen with hone | hread | hdue
  · exact .inl hone
  · exact .inr (.inl hread)
  · right; right
    rcases hdue with htrig | ⟨hpc, hidle⟩
    · rcases Watch.triggered_step htrig hstep with ht | ⟨hnot, hfire⟩
      · exact .inl ht
      · refine .inr ⟨hfire, ?_⟩
        by_contra hc
        exact hnot (h.running hc)
    · exact .inr ⟨Watch.firing_step hpc ha hstep, hidle⟩

/-- The callback returns. -/
theorem Tracked.fired {setup : Setup T} {init : T} {s : State T} {w : Watch.State}
    (h : Tracked setup init s) (hdone : s.callback = .done)
    (hstep : Watch.step setup.watch s.watch .fired = some w) :
    Tracked setup init { s with watch := w, callback := .idle } := by
  refine ⟨fun hc => absurd rfl hc, ?_, h.current, h.reads_subset, h.origin, ?_⟩
  · have hsettled := h.settled
    simpa only [State.settled, hdone] using hsettled
  · rcases h.seen with hone | hread | htrig | ⟨-, hidle⟩
    · exact .inl hone
    · exact .inr (.inl hread)
    · right; right; left
      rcases Watch.triggered_step htrig hstep with ht | ⟨hnot, -⟩
      · exact ht
      · exact absurd (h.running (by simp [hdone])) hnot
    · rw [hdone] at hidle
      cases hidle

theorem Tracked.change {setup : Setup T} {init : T} {s : State T} {e : Watch.Event}
    (h : Tracked setup init s) (next : Except IoError String)
    (hrel : Watch.relevant setup.watch.specs e) :
    Tracked setup init { s with
      watch := { s.watch with kernel := s.watch.kernel ++ [.ok e] }
      file := next
      history := next :: s.history } := by
  refine ⟨h.running, h.settled, by simp, ?_, ?_, ?_⟩
  · exact fun r hr => List.mem_cons_of_mem _ (h.reads_subset r hr)
  · rcases h.origin with hinit | ⟨got, hgot, hload⟩
    · exact .inl hinit
    · exact .inr ⟨got, List.mem_cons_of_mem _ hgot, hload⟩
  · right; right; left; left
    exact ⟨e, by simp, hrel⟩

theorem Tracked.load {setup : Setup T} {init : T} {s : State T} (h : Tracked setup init s)
    (hpc : s.watch.pc = .firing) (hidle : s.callback = .idle) :
    Tracked setup init { s with
      callback := .loaded (setup.source.load setup.codec s.file)
      reads := (s.history.length, s.file) :: s.reads } := by
  refine ⟨fun _ => hpc, ?_, h.current, ?_, h.origin, .inr (.inl rfl)⟩
  · have hsettled := h.settled
    simp only [State.settled, hidle] at hsettled
    simp [State.settled, readOnly_lastGood_cons, hsettled]
  · intro r hr
    rcases List.mem_cons.mp hr with rfl | hr
    · exact h.current
    · exact h.reads_subset r hr

theorem Tracked.replace {setup : Setup T} {init : T} {s : State T} (h : Tracked setup init s)
    {result : Except ConfigError T} (hloaded : s.callback = .loaded result) :
    Tracked setup init { s with live := (tryReload s.live result).1, callback := .done } := by
  have hsettled := h.settled
  simp only [State.settled, hloaded] at hsettled
  refine ⟨fun _ => h.running (by simp [hloaded]), hsettled, h.current, h.reads_subset, ?_, ?_⟩
  · rcases readOnly_lastGood_origin setup.source setup.codec init (s.reads.map Prod.snd) with
      hinit | hgot
    · exact .inl (hsettled.trans hinit)
    · obtain ⟨got, hmem, hload⟩ := hgot
      obtain ⟨r, hr, rfl⟩ := List.mem_map.mp hmem
      exact .inr ⟨r.2, h.reads_subset r hr, by rw [hload, ← hsettled]⟩
  · rcases h.seen with hone | hread | htrig | ⟨-, hidle⟩
    · exact .inl hone
    · exact .inr (.inl hread)
    · exact .inr (.inr (.inl htrig))
    · rw [hloaded] at hidle
      cases hidle

theorem tracked_step {setup : Setup T} {init : T} {s t : State T} {a : Action}
    (hspec : ∃ spec ∈ setup.watch.specs,
      Watch.isRelevantPath setup.source.source.path spec.filter)
    (h : Tracked setup init s) (hstep : step setup s a = some t) : Tracked setup init t := by
  cases a with
  | watch a =>
    by_cases ha : a = .fired
    · subst ha
      simp only [step] at hstep
      split at hstep
      · rename_i hdone
        obtain ⟨w, hw, rfl⟩ := Option.map_eq_some_iff.mp hstep
        exact h.fired hdone hw
      · cases hstep
    · have hmap :
          (Watch.step setup.watch s.watch a).map (fun w => { s with watch := w }) = some t := by
        cases a <;> first | exact hstep | exact absurd rfl ha
      obtain ⟨w, hw, rfl⟩ := Option.map_eq_some_iff.mp hmap
      exact h.watch ha hw
  | change next e =>
    simp only [step, Option.ite_none_right_eq_some] at hstep
    obtain ⟨hnames, ht⟩ := hstep
    obtain ⟨w, hw, rfl⟩ := Option.map_eq_some_iff.mp ht
    obtain rfl := Option.some.inj hw
    exact h.change next (relevant_of_names hspec hnames)
  | load =>
    simp only [step] at hstep
    split at hstep
    · rename_i hpc hidle
      obtain rfl := Option.some.inj hstep
      exact h.load hpc hidle
    · cases hstep
  | replace =>
    simp only [step] at hstep
    split at hstep
    · rename_i result hloaded
      obtain rfl := Option.some.inj hstep
      exact h.replace hloaded
    · cases hstep

/-- Behind a drained queue the last read is of the present file and the live value is
what that read gives, or the last good one if it does not load. -/
theorem Tracked.converged {setup : Setup T} {init : T} {s : State T} (h : Tracked setup init s)
    (hchanged : 1 < s.history.length) (hdrained : s.Drained) :
    ∃ earlier, s.reads = (s.history.length, s.file) :: earlier ∧
      (∀ v, setup.source.load setup.codec s.file = .ok v → s.live = v) ∧
      ∀ e, setup.source.load setup.codec s.file = .error e →
        s.live = setup.source.lastGood setup.codec init (earlier.map Prod.snd) := by
  have hidle : s.callback = .idle := by
    by_contra hc
    exact hdrained.returned (h.running hc)
  rcases h.seen with hone | hread | (⟨e, he, -⟩ | hpending) | ⟨hfiring, -⟩
  · omega
  · obtain ⟨earlier, hearlier⟩ := List.head?_eq_some_iff.mp hread
    refine ⟨earlier, hearlier, ?_⟩
    have hsettled := h.settled
    rw [hearlier] at hsettled
    simp only [State.settled, hidle] at hsettled
    exact lastGood_cons_cases hsettled
  · simp [hdrained.kernel, hdrained.queue] at he
  · simp [hdrained.pending] at hpending
  · exact absurd hfiring hdrained.returned

/-- The live value always comes from a state the file had, and once the events of all
changes are drained it comes from a read of the file as it is. -/
theorem hot_reload_converges (setup : Setup T) (init : T) (file : Except IoError String)
    (hspec : ∃ spec ∈ setup.watch.specs,
      Watch.isRelevantPath setup.source.source.path spec.filter)
    (s : State T) (hs : (reloader setup init file).Reachable s) :
    (s.live = init ∨ ∃ got ∈ s.history, setup.source.load setup.codec got = .ok s.live) ∧
      (1 < s.history.length → s.Drained →
        ∃ earlier, s.reads = (s.history.length, s.file) :: earlier ∧
          (∀ v, setup.source.load setup.codec s.file = .ok v → s.live = v) ∧
          ∀ e, setup.source.load setup.codec s.file = .error e →
            s.live = setup.source.lastGood setup.codec init (earlier.map Prod.snd)) := by
  have h : Tracked setup init s := by
    refine hs.invariant (I := Tracked setup init) ?_ fun _ _ _ hI _ hstep =>
      tracked_step hspec hI hstep
    rintro s rfl
    exact tracked_start setup init file
  exact ⟨h.origin, h.converged⟩

def boolSetup : Setup Bool where
  watch := ⟨[.file (ofString "/etc/c.json")], 300⟩
  source := ⟨.new (ofString "/etc/c.json"), by decide⟩
  codec := boolCodec

def dirsThere (_ : ℕ) : Watch.DirAnswers := ⟨fun _ => true, fun _ => true, fun _ _ => true⟩

def written : Watch.Event := ⟨.modify, [ofString "/etc/c.json"]⟩

/-- The file is emptied and then written while the reload of the first change runs. -/
def rewrite : List Action :=
  [.watch (.startup dirsThere), .watch .loopTop, .change (.ok "") written, .watch .deliver,
    .watch (.recv dirsThere 0 0), .watch .loopTop, .watch (.tick 300),
    .watch (.timeout dirsThere 0 0), .load, .change (.ok "true\n") written, .replace, .watch .fired,
    .watch .loopTop, .watch .deliver, .watch (.recv dirsThere 0 0), .watch .loopTop,
    .watch (.tick 300), .watch (.timeout dirsThere 0 0), .load, .replace, .watch .fired]

def rewritten : State Bool :=
  ⟨⟨.top, [true], none, false, 600, [], []⟩, .ok "true\n", true, .idle,
    [.ok "true\n", .ok "", .ok "false\n"], [(3, .ok "true\n"), (2, .ok "")]⟩

theorem hot_reload_converges_rewrite :
    ∃ earlier, rewritten.reads = (3, .ok "true\n") :: earlier ∧
      (∀ v, boolSetup.source.load boolSetup.codec (.ok "true\n") = .ok v → rewritten.live = v) ∧
      ∀ e, boolSetup.source.load boolSetup.codec (.ok "true\n") = .error e →
        rewritten.live = boolSetup.source.lastGood boolSetup.codec false (earlier.map Prod.snd) := by
  have hrun : (reloader boolSetup false (.ok "false\n")).run
      (start boolSetup false (.ok "false\n")) rewrite = some rewritten := by decide +kernel
  have hspec : ∃ spec ∈ boolSetup.watch.specs,
      Watch.isRelevantPath boolSetup.source.source.path spec.filter :=
    ⟨_, List.mem_singleton_self _, by decide +kernel⟩
  exact (hot_reload_converges boolSetup false (.ok "false\n") hspec rewritten
    (.run (.init rfl) (fun _ _ _ => trivial) hrun)).2 (by decide) ⟨rfl, rfl, rfl, by decide⟩

end Reload
end SharedDaemon
