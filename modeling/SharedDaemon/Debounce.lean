import SharedDaemon.Debouncer
import SharedDaemon.Watch

/-!
# The watch loop debounces

`watch_loop` with a log of the triggers it processes and of the reloads it fires. The log
is read off the events and the attach flags, not off `pending`.
-/

namespace SharedDaemon
namespace Debounce

open StdPath Watch Debouncer TransitionSystem

structure State where
  watch : Watch.State
  log : List Mark
  deriving DecidableEq

def gained (before after : List Bool) : ℕ := (after.zip before).countP fun (new, old) => new && !old

/-- What a step from `s` to `w` adds to the log, the latest first. Attaching at start-up
triggers nothing. -/
def marks (setup : Setup) (s w : Watch.State) : Action → List Mark
  | .recv _ d₁ _ =>
    (match s.queue with
      | .ok e :: _ => if relevant setup.specs e then [.trigger w.clock] else []
      | _ => []) ++
      List.replicate (gained s.attached w.attached) (.trigger (s.clock + d₁))
  | .timeout _ d₁ _ =>
    (if w.pc = .firing then [.fire w.clock] else []) ++
      List.replicate (gained s.attached w.attached) (.trigger (s.clock + d₁))
  | _ => []

def step (setup : Setup) (s : State) (a : Action) : Option State :=
  (Watch.step setup s.watch a).map fun w => ⟨w, marks setup s.watch w a ++ s.log⟩

def logged (setup : Setup) : TransitionSystem State Action where
  init s := s = ⟨initial setup, []⟩
  step := step setup

theorem gained_self (attached : List Bool) : gained attached attached = 0 := by
  simp only [gained, List.countP_eq_zero]
  intro p hp
  obtain ⟨i, hi, rfl⟩ := List.mem_iff_getElem.mp hp
  simp

theorem attachPending_newly (os : ℕ → DirAnswers) (specs : List WatchSpec) (attached : List Bool) :
    (attachPending os specs attached).1 =
      decide (0 < gained attached (attachPending os specs attached).2) := by
  apply Bool.eq_iff_iff.mpr
  simp only [attachPending, gained, List.any_eq_true, decide_eq_true_eq, List.countP_pos_iff]

variable {setup : Setup} {s : Watch.State} {log : List Mark}

theorem sound_attach (h : Sound setup.debounce s.pending s.clock log) (os : ℕ → DirAnswers)
    (d : ℕ) :
    Sound setup.debounce (s.attach setup os d).pending (s.clock + d)
      (List.replicate (gained s.attached (s.attach setup os d).attached)
        (.trigger (s.clock + d)) ++ log) := by
  have hh := h.triggers (Nat.le_add_right s.clock d)
    (gained s.attached (s.attach setup os d).attached)
  simpa [State.attach, attachPending_newly] using hh

theorem sound_onEvent (h : Sound setup.debounce s.pending s.clock log) (e : Event)
    (os : ℕ → DirAnswers) (d₁ d₂ : ℕ) :
    Sound setup.debounce (s.onEvent setup e os d₁ d₂).pending (s.onEvent setup e os d₁ d₂).clock
      ((if relevant setup.specs e then [.trigger (s.onEvent setup e os d₁ d₂).clock] else []) ++
        (List.replicate (gained s.attached (s.onEvent setup e os d₁ d₂).attached)
          (.trigger (s.clock + d₁)) ++ log)) := by
  have hattach := sound_attach h os d₁
  have hclock : s.clock + d₁ ≤ s.clock + d₁ + d₂ := Nat.le_add_right _ _
  by_cases hrel : relevant setup.specs e
  · simpa [State.onEvent, State.attach, hrel] using hattach.trigger hclock
  · simpa [State.onEvent, State.attach, hrel] using hattach.tick hclock

theorem sound_onTimeout (h : Sound setup.debounce s.pending s.clock log) (os : ℕ → DirAnswers)
    (d₁ d₂ : ℕ) :
    Sound setup.debounce (s.onTimeout setup os d₁ d₂).pending (s.onTimeout setup os d₁ d₂).clock
      ((if (s.onTimeout setup os d₁ d₂).pc = .firing then
          [.fire (s.onTimeout setup os d₁ d₂).clock] else []) ++
        (List.replicate (gained s.attached (s.onTimeout setup os d₁ d₂).attached)
          (.trigger (s.clock + d₁)) ++ log)) := by
  have hattach := (sound_attach h os d₁).tick (Nat.le_add_right (s.clock + d₁) d₂)
  unfold State.onTimeout
  simp only
  split
  · rename_i hdue
    obtain ⟨t, ht, hrest⟩ := (Option.any_eq_true _ _).mp hdue
    have hle := hattach.pending_le ht
    have hrested : t + setup.debounce ≤ s.clock + d₁ + d₂ := by
      simp only [decide_eq_true_eq] at hrest
      omega
    simpa using hattach.fire ht hrested
  · simpa using hattach

theorem sound_step {s t : State} {a : Action} (hstep : step setup s a = some t)
    (h : Sound setup.debounce s.watch.pending s.watch.clock s.log) :
    Sound setup.debounce t.watch.pending t.watch.clock t.log := by
  obtain ⟨w, hw, rfl⟩ := Option.map_eq_some_iff.mp hstep
  cases Step.of_step hw with
  | setStop | raise | deliver | startup | stopped | wait | fired => exact h
  | tick d => exact h.tick (Nat.le_add_right _ d)
  | event os d₁ d₂ deadline e rest hpc hq =>
    have hevent := sound_onEvent (s := { s.watch with queue := rest }) h e os d₁ d₂
    simpa [marks, hq] using hevent
  | error os d₁ d₂ deadline text rest hpc hq => simpa [marks, hq, gained_self] using h
  | timeout os d₁ d₂ deadline hpc hq hdeadline =>
    have htimeout := sound_onTimeout h os d₁ d₂
    simpa [marks] using htimeout

theorem stopped_step {s t : State} {a : Action} (h : s.watch.pc = .stopped)
    (hstep : step setup s a = some t) : t.watch.pc = .stopped ∧ t.log = s.log := by
  obtain ⟨w, hw, rfl⟩ := Option.map_eq_some_iff.mp hstep
  cases Step.of_step hw with
  | setStop | tick | raise | deliver => exact ⟨h, rfl⟩
  | startup _ hpc | stopped hpc | wait hpc | event _ _ _ _ _ _ hpc | error _ _ _ _ _ _ hpc
  | timeout _ _ _ _ hpc | fired hpc =>
    rw [h] at hpc
    cases hpc

theorem stopped_run {s t : State} {as : List Action} (h : s.watch.pc = .stopped)
    (hrun : (logged setup).run s as = some t) : t.log = s.log := by
  have hh : t.watch.pc = .stopped ∧ t.log = s.log := by
    refine run_invariant (I := fun u => u.watch.pc = .stopped ∧ u.log = s.log) ?_ ⟨h, rfl⟩ hrun
    intro u a v _ ⟨hpc, hlog⟩ hstep
    obtain ⟨hpc', hlog'⟩ := stopped_step hpc hstep
    exact ⟨hpc', hlog'.trans hlog⟩
  exact hh.2

theorem sound_of_reachable {s : State} (hs : (logged setup).Reachable s) :
    Sound setup.debounce s.watch.pending s.watch.clock s.log := by
  refine hs.invariant
    (I := fun s => Sound setup.debounce s.watch.pending s.watch.clock s.log) ?_
    fun _ _ _ hI _ hstep => sound_step hstep hI
  rintro s rfl
  exact sound_nil setup.debounce 0

/-- At every point of every run `pending` holds the latest trigger since the last fire, each
fire follows such a trigger and its rest, no trigger is forgotten before a fire at or after
it, and a loop that has seen `stop` fires no more. -/
theorem debounce_sound (setup : Setup) (s : State) (hs : (logged setup).Reachable s) :
    (s.watch.pending.isSome ↔ unfired s.log ≠ []) ∧
      (∀ t, s.watch.pending = some t → t ∈ unfired s.log ∧ ∀ u ∈ unfired s.log, u ≤ t) ∧
      (∀ newer u older, s.log = newer ++ .fire u :: older →
        ∃ t ∈ unfired older, t + setup.debounce ≤ u ∧ ∀ m ∈ older, m.time ≤ t) ∧
      s.log.countP Mark.isFire ≤ s.log.countP Mark.isTrigger ∧
      (∀ newer t older, s.log = newer ++ .trigger t :: older →
        (∃ u, .fire u ∈ newer ∧ t ≤ u) ∨ ∃ p, s.watch.pending = some p ∧ t ≤ p) ∧
      (s.watch.pc = .top → s.watch.stop → ∃ w, step setup s .loopTop = some w ∧
        ∀ as t, (logged setup).run w as = some t → t.log = s.log) := by
  have h := sound_of_reachable hs
  refine ⟨?_, ?_, ?_, h.countP_isFire_le, ?_, ?_⟩
  · rw [h.pending, List.isSome_head?]
  · intro t ht
    obtain ⟨hmem, hle⟩ := h.latest ht
    exact ⟨hmem, fun u hu => hle (.trigger u) (mem_of_mem_unfired hu)⟩
  · exact fun newer u older heq => h.fire_rested heq
  · exact fun newer t older heq => h.answered heq
  · intro hpc hstop
    refine ⟨⟨{ s.watch with pc := .stopped }, s.log⟩, ?_, ?_⟩
    · simp [step, Watch.step, hpc, hstop, marks]
    · exact fun as t hrun => stopped_run (s := ⟨{ s.watch with pc := .stopped }, s.log⟩) rfl hrun

def lateSetup : Setup where
  specs := [.file (ofString "/etc/c.json"), .dir (ofString "/etc/c.d") true]
  debounce := 300

def fileThere (_ : ℕ) : DirAnswers := ⟨(· == ofString "/etc"), fun _ => false, fun _ _ => true⟩

def bothThere (_ : ℕ) : DirAnswers := ⟨fun _ => true, fun _ => true, fun _ _ => true⟩

/-- A change, then the directory attached in the iteration that would have fired, then its
fire, and a stop. -/
def lateRun : List Action :=
  [.startup fileThere, .raise (.ok ⟨.modify, [ofString "/etc/c.json"]⟩), .deliver, .loopTop,
    .tick 5, .recv fileThere 1 1, .loopTop, .tick 300, .timeout bothThere 1 1, .loopTop,
    .tick 299, .timeout bothThere 0 0, .fired, .setStop]

def lateFired : State :=
  ⟨⟨.top, [true, true], none, true, 608, [], []⟩, [.fire 608, .trigger 308, .trigger 7]⟩

theorem debounce_sound_late :
    lateFired.log.countP Mark.isFire ≤ lateFired.log.countP Mark.isTrigger ∧
      (∃ t ∈ unfired [.trigger 308, .trigger 7], t + 300 ≤ 608) ∧
      ∃ w, step lateSetup lateFired .loopTop = some w := by
  have hrun : (logged lateSetup).run ⟨initial lateSetup, []⟩ lateRun = some lateFired := by
    decide +kernel
  obtain ⟨-, -, hrested, hcount, -, hstop⟩ := debounce_sound lateSetup lateFired
    (.run (.init rfl) (fun _ _ _ => trivial) hrun)
  obtain ⟨t, ht, hle, -⟩ := hrested [] 608 _ rfl
  obtain ⟨w, hw, -⟩ := hstop rfl rfl
  exact ⟨hcount, ⟨t, ht, hle⟩, w, hw⟩

end Debounce
end SharedDaemon
