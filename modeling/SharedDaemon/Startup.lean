import SharedDaemon.Watch

/-!
# Changes during start-up

`spawn_signal` and `spawn_callback` return as soon as the watcher thread has been started.
The thread attaches the specs one after the other before it enters its loop, and a change
in a directory that is not watched yet raises no event.
-/

namespace SharedDaemon
namespace Startup

open StdPath Watch TransitionSystem

/-- A watch on a directory reports what happens to its entries, a recursive one also to
theirs. -/
def sees (dirs : DirAnswers) (spec : WatchSpec) (p : OsStr) : Bool :=
  let dir := components (targetOf dirs spec)
  if spec.recursive then dir.isPrefixOf (components p) && dir.length < (components p).length
  else dir = (components p).dropLast

def Available (dirs : DirAnswers) (spec : WatchSpec) : Prop :=
  dirs.isDir (targetOf dirs spec) ∧ dirs.watch (targetOf dirs spec) spec.recursive

/-- `next` specs have been attached by the initial pass. `owed` records a relevant change
since the return of `spawn` that no reload has followed. -/
structure State where
  watch : Watch.State
  returned : Bool
  next : ℕ
  owed : Bool
  deriving DecidableEq

inductive Action
  | returns
  | attach
  | enterLoop
  | change (kind : EventKind) (p : OsStr)
  | loop (a : Watch.Action)

def relevantChange (setup : Setup) (dirs : DirAnswers) (kind : EventKind) (p : OsStr) : Bool :=
  kind.changes && setup.specs.any fun spec => sees dirs spec p && isRelevantPath p spec.filter

def watched (setup : Setup) (dirs : DirAnswers) (s : State) (p : OsStr) : Bool :=
  (setup.specs.take s.next).any fun spec => sees dirs spec p

/-- Steps of the loop itself, and errors of the watcher; events come from changes. -/
def isLoopAction : Watch.Action → Bool
  | .raise (.ok _) | .startup _ => false
  | _ => true

def step (setup : Setup) (dirs : DirAnswers) (s : State) : Action → Option State
  | .returns => some { s with returned := true }
  | .attach =>
    if s.watch.pc = .starting ∧ s.next < setup.specs.length then some { s with next := s.next + 1 }
    else none
  | .enterLoop =>
    if s.next = setup.specs.length then
      (Watch.step setup s.watch (.startup fun _ => dirs)).map fun w => { s with watch := w }
    else none
  | .change kind p =>
    let owed := s.owed || (s.returned && relevantChange setup dirs kind p)
    if watched setup dirs s p then
      (Watch.step setup s.watch (.raise (.ok ⟨kind, [p]⟩))).map fun w => { s with watch := w, owed }
    else some { s with owed }
  | .loop a =>
    if isLoopAction a then
      (Watch.step setup s.watch a).map fun w =>
        { s with watch := w, owed := s.owed && !(s.watch.pc ≠ .firing ∧ w.pc = .firing) }
    else none

def begin (setup : Setup) : State := ⟨initial setup, false, 0, false⟩

def spawned (setup : Setup) (dirs : DirAnswers) : TransitionSystem State Action where
  init s := s = begin setup
  step := step setup dirs

/-- A change after the return of `spawn` that nothing will follow. -/
structure State.Missed (s : State) : Prop where
  owed : s.owed = true
  attached : ∀ b ∈ s.watch.attached, b = true
  kernel : s.watch.kernel = []
  queue : s.watch.queue = []
  pending : s.watch.pending = none

/-- A relevant change after the return is made where a watch is registered, or while a
reload is due anyway. -/
def Timely (setup : Setup) (dirs : DirAnswers) (s : State) : Action → Prop
  | .change kind p =>
    s.returned → relevantChange setup dirs kind p →
      watched setup dirs s p ∨ s.watch.Triggered setup
  | _ => True

variable {setup : Setup} {dirs : DirAnswers} {s t : State}

theorem relevant_of_relevantChange {kind : EventKind} {p : OsStr}
    (h : relevantChange setup dirs kind p) : relevant setup.specs ⟨kind, [p]⟩ := by
  simp only [relevantChange, Bool.and_eq_true, List.any_eq_true] at h
  obtain ⟨hkind, spec, hspec, -, hfilter⟩ := h
  simp only [relevant, Bool.and_eq_true, List.any_eq_true]
  exact ⟨hkind, p, by simp, spec, hspec, hfilter⟩

inductive Step (setup : Setup) (dirs : DirAnswers) (s : State) : Action → State → Prop
  | returns : Step setup dirs s .returns { s with returned := true }
  | attach (h : s.watch.pc = .starting) (hlt : s.next < setup.specs.length) :
      Step setup dirs s .attach { s with next := s.next + 1 }
  | enterLoop (h : s.next = setup.specs.length) (hpc : s.watch.pc = .starting) :
      Step setup dirs s .enterLoop { s with
        watch := { s.watch with
          pc := .top
          attached := (attachPending (fun _ => dirs) setup.specs s.watch.attached).2 } }
  | seen (kind : EventKind) (p : OsStr) (h : watched setup dirs s p) :
      Step setup dirs s (.change kind p) { s with
        watch := { s.watch with kernel := s.watch.kernel ++ [.ok ⟨kind, [p]⟩] }
        owed := s.owed || (s.returned && relevantChange setup dirs kind p) }
  | unseen (kind : EventKind) (p : OsStr) (h : ¬ watched setup dirs s p) :
      Step setup dirs s (.change kind p) { s with
        owed := s.owed || (s.returned && relevantChange setup dirs kind p) }
  | loop (a : Watch.Action) (w : Watch.State) (h : isLoopAction a)
      (hw : Watch.step setup s.watch a = some w) :
      Step setup dirs s (.loop a) { s with
        watch := w
        owed := s.owed && !(s.watch.pc ≠ .firing ∧ w.pc = .firing) }

theorem Step.of_step {a : Action} (h : step setup dirs s a = some t) : Step setup dirs s a t := by
  cases a with
  | returns =>
    obtain rfl := Option.some.inj h
    exact .returns
  | attach =>
    simp only [step, Option.ite_none_right_eq_some, Option.some.injEq] at h
    obtain ⟨⟨hpc, hlt⟩, rfl⟩ := h
    exact .attach hpc hlt
  | enterLoop =>
    simp only [step, Option.ite_none_right_eq_some, Option.map_eq_some_iff] at h
    obtain ⟨hnext, w, hw, rfl⟩ := h
    cases Watch.Step.of_step hw with
    | startup _ hpc => exact .enterLoop hnext hpc
  | change kind p =>
    simp only [step] at h
    split at h
    · rename_i hwatched
      obtain ⟨w, hw, rfl⟩ := Option.map_eq_some_iff.mp h
      cases Watch.Step.of_step hw with
      | raise => exact .seen kind p hwatched
    · rename_i hwatched
      obtain rfl := Option.some.inj h
      exact .unseen kind p hwatched
  | loop a =>
    simp only [step, Option.ite_none_right_eq_some, Option.map_eq_some_iff] at h
    obtain ⟨ha, w, hw, rfl⟩ := h
    exact .loop a w ha hw

def Kept (setup : Setup) (s : State) : Prop := s.owed = true → s.watch.Triggered setup

theorem kept_step {a : Action} (h : Kept setup s) (hC : Timely setup dirs s a)
    (hstep : step setup dirs s a = some t) : Kept setup t := by
  intro howed
  cases Step.of_step hstep with
  | returns | attach | enterLoop => exact h howed
  | seen kind p =>
    rw [Bool.or_eq_true, Bool.and_eq_true] at howed
    rcases howed with howed | ⟨-, hrel⟩
    · rcases h howed with ⟨e, he, hrel⟩ | hpending
      · exact .inl ⟨e, by simp at he ⊢; tauto, hrel⟩
      · exact .inr hpending
    · exact .inl ⟨_, by simp, relevant_of_relevantChange hrel⟩
  | unseen kind p hwatched =>
    rw [Bool.or_eq_true, Bool.and_eq_true] at howed
    rcases howed with howed | ⟨hreturned, hrel⟩
    · exact h howed
    · exact (hC hreturned hrel).resolve_left hwatched
  | loop a w ha hw =>
    rw [Bool.and_eq_true, Bool.not_eq_true', decide_eq_false_iff_not] at howed
    exact (triggered_step (h howed.1) hw).resolve_right howed.2

theorem kept_of_reachable (hs : (spawned setup dirs).ReachableUnder (Timely setup dirs) s) :
    Kept setup s := by
  refine hs.invariant (I := Kept setup) ?_ fun _ _ _ hI hC hstep => kept_step hI hC hstep
  rintro s rfl howed
  cases howed

theorem Kept.not_missed (h : Kept setup s) : ¬ s.Missed := by
  intro hmissed
  rcases h hmissed.owed with ⟨e, he, -⟩ | hpending
  · simp [hmissed.kernel, hmissed.queue] at he
  · simp [hmissed.pending] at hpending

/-- The thread has not entered its loop, or has attached all specs. -/
structure Begun (setup : Setup) (s : State) : Prop where
  next_le : s.next ≤ setup.specs.length
  starting : s.watch.pc = .starting →
    s.watch.pending = none ∧ s.watch.attached = setup.specs.map fun _ => false
  entered : s.watch.pc ≠ .starting → s.next = setup.specs.length

theorem begun_loop {a : Watch.Action} {w : Watch.State} (h : Begun setup s)
    (ha : isLoopAction a) (hw : Watch.step setup s.watch a = some w) (owed : Bool) :
    Begun setup { s with watch := w, owed } := by
  cases Watch.Step.of_step hw with
  | setStop | tick | raise | deliver => exact ⟨h.next_le, h.starting, h.entered⟩
  | startup => cases ha
  | stopped hpc | wait hpc | error _ _ _ _ _ _ hpc | fired hpc =>
    exact ⟨h.next_le, fun hs => by simp at hs, fun _ => h.entered (by simp [hpc])⟩
  | event _ _ _ _ _ _ hpc =>
    exact ⟨h.next_le, fun hs => by simp [State.onEvent] at hs, fun _ => h.entered (by simp [hpc])⟩
  | timeout os d₁ d₂ _ hpc =>
    refine ⟨h.next_le, fun hs => ?_, fun _ => h.entered (by simp [hpc])⟩
    simp only [State.onTimeout] at hs
    split at hs <;> simp at hs

theorem begun_step {a : Action} (h : Begun setup s) (hstep : step setup dirs s a = some t) :
    Begun setup t := by
  cases Step.of_step hstep with
  | returns | seen | unseen => exact ⟨h.next_le, h.starting, h.entered⟩
  | attach hpc hlt => exact ⟨hlt, h.starting, fun hne => absurd hpc hne⟩
  | enterLoop hnext hpc => exact ⟨h.next_le, fun hs => by simp at hs, fun _ => hnext⟩
  | loop a w ha hw => exact begun_loop h ha hw _

theorem begun_of_reachable (hs : (spawned setup dirs).Reachable s) : Begun setup s := by
  refine hs.invariant (I := Begun setup) ?_ fun _ _ _ hI _ hstep => begun_step hI hstep
  rintro s rfl
  exact ⟨Nat.zero_le _, fun _ => ⟨rfl, rfl⟩, fun hne => absurd rfl hne⟩

theorem attachSpec_of_available {spec : WatchSpec} (h : Available dirs spec) :
    attachSpec dirs spec = true := by
  obtain ⟨hdir, hwatch⟩ := h
  simp only [targetOf] at hdir hwatch
  simp [attachSpec, hdir, hwatch]

theorem attachPending_available (hdirs : ∀ spec ∈ setup.specs, Available dirs spec)
    (attached : List Bool) :
    ∀ b ∈ (attachPending (fun _ => dirs) setup.specs attached).2, b = true := by
  intro b hb
  simp only [attachPending, List.mem_map] at hb
  obtain ⟨⟨⟨spec, done⟩, i⟩, hmem, rfl⟩ := hb
  obtain ⟨hspec, -⟩ := List.of_mem_zip (List.fst_mem_of_mem_zipIdx hmem)
  simp [attachSpec_of_available (hdirs spec hspec)]

theorem attachPending_attached {attached : List Bool} (h : ∀ b ∈ attached, b = true)
    (os : ℕ → DirAnswers) (specs : List WatchSpec) :
    (attachPending os specs attached).1 = false ∧
      ∀ b ∈ (attachPending os specs attached).2, b = true := by
  constructor
  · rw [Bool.eq_false_iff]
    intro hany
    simp only [attachPending, List.any_eq_true] at hany
    obtain ⟨⟨after, before⟩, hmem, hnew⟩ := hany
    rw [h before (List.of_mem_zip hmem).2] at hnew
    simp at hnew
  · intro b hb
    simp only [attachPending, List.mem_map] at hb
    obtain ⟨⟨⟨spec, done⟩, i⟩, hmem, rfl⟩ := hb
    obtain ⟨-, hdone⟩ := List.of_mem_zip (List.fst_mem_of_mem_zipIdx hmem)
    simp [h done hdone]

theorem loop_step (dirs : DirAnswers) {a : Watch.Action} {w : Watch.State} (ha : isLoopAction a)
    (hw : Watch.step setup s.watch a = some w) (hpc : w.pc ≠ .firing) :
    step setup dirs s (.loop a) = some { s with watch := w } := by
  simp [step, ha, hw, hpc]

/-- At the top of the loop, with all specs attached, nothing pending and nothing relevant
queued. -/
structure Quiet (setup : Setup) (w : Watch.State) : Prop where
  pc : w.pc = .top
  running : w.stop = false
  attached : ∀ b ∈ w.attached, b = true
  pending : w.pending = none
  irrelevant : ∀ e, Except.ok e ∈ w.kernel ++ w.queue → ¬ relevant setup.specs e

theorem Quiet.onEvent {w : Watch.State} {e : Event} {rest : List Item} (h : Quiet setup w)
    (hq : w.queue = .ok e :: rest) (deadline : ℕ) (os : ℕ → DirAnswers) :
    Quiet setup ({ w with pc := .waiting deadline, queue := rest }.onEvent setup e os 0 0) := by
  obtain ⟨hnewly, hattached⟩ := attachPending_attached h.attached os setup.specs
  have hrel := h.irrelevant e (by simp [hq])
  refine ⟨rfl, h.running, hattached, ?_, fun f hf => h.irrelevant f ?_⟩
  · simp [State.onEvent, State.attach, hnewly, hrel, h.pending]
  · simp only [State.onEvent, State.attach, List.mem_append] at hf
    simp only [hq, List.mem_append, List.mem_cons]
    tauto

theorem recv_run (dirs : DirAnswers) {w : Watch.State} (h : Quiet setup s.watch)
    (hw : Watch.step setup { s.watch with
        pc := .waiting (s.watch.clock + timeoutFrom setup.debounce s.watch.clock s.watch.pending) }
      (.recv (fun _ => dirs) 0 0) = some w) (hpc : w.pc ≠ .firing) :
    (spawned setup dirs).run s [.loop .loopTop, .loop (.recv (fun _ => dirs) 0 0)] =
      some { s with watch := w } := by
  have htop : Watch.step setup s.watch .loopTop = some { s.watch with
      pc := .waiting (s.watch.clock + timeoutFrom setup.debounce s.watch.clock s.watch.pending) } := by
    simp [Watch.step, h.pc, h.running]
  have hwait := loop_step dirs rfl htop (by simp)
  have hrecv := loop_step (s := { s with watch := _ }) dirs rfl hw hpc
  exact run_cons_eq_some.mpr ⟨_, hwait, run_single hrecv⟩

theorem quiet_recv (dirs : DirAnswers) {item : Item} {rest : List Item}
    (h : Quiet setup s.watch) (hq : s.watch.queue = item :: rest) :
    ∃ as t, (spawned setup dirs).run s as = some t ∧ Quiet setup t.watch ∧ t.owed = s.owed ∧
      t.watch.kernel = s.watch.kernel ∧ t.watch.queue = rest := by
  cases item with
  | ok e =>
    have hrun := recv_run dirs h (by simp only [Watch.step, hq]; rfl) (by simp [State.onEvent])
    exact ⟨_, _, hrun, h.onEvent hq _ _, rfl, rfl, rfl⟩
  | error text =>
    have hrun := recv_run dirs h (by simp only [Watch.step, hq]; rfl) (by simp)
    refine ⟨_, _, hrun, ⟨rfl, h.running, h.attached, h.pending, fun f hf => h.irrelevant f ?_⟩,
      rfl, rfl, rfl⟩
    simp only [hq, List.mem_append, List.mem_cons] at hf ⊢
    tauto

theorem quiet_deliver (dirs : DirAnswers) {item : Item} {rest : List Item}
    (h : Quiet setup s.watch) (hk : s.watch.kernel = item :: rest) :
    ∃ t, step setup dirs s (.loop .deliver) = some t ∧ Quiet setup t.watch ∧ t.owed = s.owed ∧
      t.watch.kernel = rest ∧ t.watch.queue = s.watch.queue ++ [item] := by
  have hw : Watch.step setup s.watch .deliver =
      some { s.watch with kernel := rest, queue := s.watch.queue ++ [item] } := by
    simp only [Watch.step, hk]
  refine ⟨_, loop_step dirs rfl hw (by simp [h.pc]), ?_, rfl, rfl, rfl⟩
  refine ⟨h.pc, h.running, h.attached, h.pending, fun e he => h.irrelevant e ?_⟩
  simp only [hk, List.mem_append, List.mem_cons, List.not_mem_nil, or_false] at he ⊢
  tauto

theorem missed_of_quiet (dirs : DirAnswers) (h : Quiet setup s.watch) (howed : s.owed = true) :
    ∃ as t, (spawned setup dirs).run s as = some t ∧ t.Missed := by
  refine exists_run_of_measure (I := fun s => Quiet setup s.watch ∧ s.owed = true)
    (fun s => s.watch.onTheWay) ?_ ⟨h, howed⟩
  rintro s ⟨h, howed⟩
  cases hq : s.watch.queue with
  | cons item rest =>
    obtain ⟨as, t, hrun, ht, howed', hkernel, hqueue⟩ := quiet_recv dirs h hq
    exact .inr ⟨as, t, hrun, ⟨ht, howed'.trans howed⟩, Watch.onTheWay_recv hq hkernel hqueue⟩
  | nil =>
    cases hk : s.watch.kernel with
    | cons item rest =>
      obtain ⟨t, hstep, ht, howed', hkernel, hqueue⟩ := quiet_deliver dirs h hk
      exact .inr ⟨[.loop .deliver], t, run_single hstep, ⟨ht, howed'.trans howed⟩,
        Watch.onTheWay_deliver hk hkernel hqueue⟩
    | nil => exact .inl ⟨howed, h.attached, hk, hq, h.pending⟩

theorem attach_rest (dirs : DirAnswers) (hpc : s.watch.pc = .starting) (hle : s.next ≤ setup.specs.length) :
    ∃ as, (spawned setup dirs).run s as = some { s with next := setup.specs.length } := by
  induction hn : setup.specs.length - s.next generalizing s with
  | zero =>
    have hnext : s.next = setup.specs.length := by omega
    exact ⟨[], by rw [← hnext]; rfl⟩
  | succ n ih =>
    have hstep : step setup dirs s .attach = some { s with next := s.next + 1 } := by
      simp only [step, hpc, true_and]
      rw [if_pos (by omega)]
    obtain ⟨as, hrun⟩ := ih (s := { s with next := s.next + 1 }) hpc (by simp; omega) (by simp; omega)
    exact ⟨.attach :: as, run_cons_eq_some.mpr ⟨_, hstep, hrun⟩⟩

/-- The initial pass attaches every spec, and a loop with nothing relevant queued starts
quiet. -/
theorem enter_run (hdirs : ∀ spec ∈ setup.specs, Available dirs spec)
    (hpc : s.watch.pc = .starting) (hle : s.next ≤ setup.specs.length)
    (hstop : s.watch.stop = false) (hpending : s.watch.pending = none)
    (hirrelevant : ∀ e, Except.ok e ∈ s.watch.kernel ++ s.watch.queue →
      ¬ relevant setup.specs e) :
    ∃ as t, (spawned setup dirs).run s as = some t ∧ Quiet setup t.watch ∧ t.owed = s.owed := by
  obtain ⟨as, hrun⟩ := attach_rest dirs hpc hle
  have henter : (spawned setup dirs).run { s with next := setup.specs.length } [.enterLoop] =
      some { s with
        watch := { s.watch with
          pc := .top
          attached := (attachPending (fun _ => dirs) setup.specs s.watch.attached).2 }
        next := setup.specs.length } := by
    simp [run, spawned, step, Watch.step, hpc]
  have hentered := run_trans hrun henter
  have hattached := attachPending_available hdirs s.watch.attached
  exact ⟨_, _, hentered, ⟨rfl, hstop, hattached, hpending, hirrelevant⟩, rfl⟩

/-- A relevant change that no watch reports and no reload will follow is missed. -/
theorem missed_of_untimely (hdirs : ∀ spec ∈ setup.specs, Available dirs spec)
    (hs : (spawned setup dirs).Reachable s) (hstop : s.watch.stop = false) {a : Action}
    (h : ¬ Timely setup dirs s a) (hstep : step setup dirs s a = some t) :
    ∃ as u, (spawned setup dirs).run t as = some u ∧ u.Missed := by
  unfold Timely at h
  split at h
  · rename_i kind p
    push Not at h
    obtain ⟨hreturned, hrel, hunwatched, huntriggered⟩ := h
    have hbegun := begun_of_reachable hs
    have hstarting : s.watch.pc = .starting := by
      by_contra hpc
      apply hunwatched
      simp only [relevantChange, Bool.and_eq_true, List.any_eq_true] at hrel
      obtain ⟨-, spec, hspec, hsees, -⟩ := hrel
      rw [watched, hbegun.entered hpc, List.take_length, List.any_eq_true]
      exact ⟨spec, hspec, hsees⟩
    obtain ⟨hpending, -⟩ := hbegun.starting hstarting
    simp only [step, if_neg hunwatched, hreturned, hrel, Bool.and_self, Bool.or_true] at hstep
    obtain rfl := Option.some.inj hstep
    obtain ⟨as, u, henter, hquiet, howed⟩ := enter_run
      (s := { s with returned := true, owed := true }) hdirs hstarting hbegun.next_le hstop hpending
      fun e he hrel => huntriggered (.inl ⟨e, he, hrel⟩)
    obtain ⟨bs, v, hdrain, hv⟩ := missed_of_quiet dirs hquiet howed
    exact ⟨as ++ bs, v, run_trans henter hdrain, hv⟩
  · exact absurd trivial h

/-- A run in which every relevant change is made where it is watched already, or while a
reload is due anyway, misses none; any other change can end up missed. -/
theorem startup_misses_nothing (setup : Setup) (dirs : DirAnswers)
    (hdirs : ∀ spec ∈ setup.specs, Available dirs spec) :
    (∀ s, (spawned setup dirs).ReachableUnder (Timely setup dirs) s → ¬ s.Missed) ∧
      ∀ s a t, (spawned setup dirs).Reachable s → s.watch.stop = false →
        ¬ Timely setup dirs s a → step setup dirs s a = some t →
        ∃ as u, (spawned setup dirs).run t as = some u ∧ u.Missed := by
  constructor
  · intro s hs
    exact (kept_of_reachable hs).not_missed
  · intro s a t hs hstop h hstep
    exact missed_of_untimely hdirs hs hstop h hstep

def fileSetup : Setup := ⟨[.file (ofString "/etc/c.json")], 300⟩

def etcOnly : DirAnswers := ⟨fun p => p = ofString "/etc", fun _ => false, fun _ _ => true⟩

theorem etcOnly_available : ∀ spec ∈ fileSetup.specs, Available etcOnly spec := by
  intro spec hspec
  obtain rfl := List.mem_singleton.mp hspec
  exact ⟨by decide +kernel, rfl⟩

def modified : Event := ⟨.modify, [ofString "/etc/c.json"]⟩

/-- The directory is attached, the loop runs, and `spawn` has returned. -/
def entered : State := ⟨⟨.top, [true], none, false, 0, [], []⟩, true, 1, false⟩

/-- The file changes in a directory that is attached: the event is on its way. -/
theorem startup_misses_nothing_attached :
    ∃ as s, (spawned fileSetup etcOnly).run (begin fileSetup) as = some s ∧ s.owed = true ∧
      (∀ b ∈ s.watch.attached, b = true) ∧ ¬ s.Missed := by
  have hrun : (spawned fileSetup etcOnly).run (begin fileSetup) [.attach, .enterLoop, .returns] =
      some entered := by decide +kernel
  have hchange : step fileSetup etcOnly entered (.change .modify (ofString "/etc/c.json")) =
      some { entered with watch := { entered.watch with kernel := [.ok modified] }, owed := true } := by
    decide +kernel
  have h₁ : (spawned fileSetup etcOnly).ReachableUnder (Timely fileSetup etcOnly) entered := by
    refine .run (.init rfl) (fun s a ha => ?_) hrun
    simp only [List.mem_cons, List.not_mem_nil, or_false] at ha
    rcases ha with rfl | rfl | rfl <;> trivial
  have h₂ := h₁.step (a := Action.change .modify (ofString "/etc/c.json"))
    (fun _ _ => .inl (by decide +kernel)) hchange
  have hnot := (startup_misses_nothing fileSetup etcOnly etcOnly_available).1 _ h₂
  have hlast : (spawned fileSetup etcOnly).run entered
      [.change .modify (ofString "/etc/c.json")] = some _ := run_single hchange
  exact ⟨_, _, run_trans hrun hlast, rfl, by decide, hnot⟩

/-- The file changes after the return of `spawn` and before its directory is attached. -/
theorem change_before_attach_is_missed :
    ¬ ∀ s, (spawned fileSetup etcOnly).Reachable s → ¬ s.Missed := by
  intro h
  have hrun : (spawned fileSetup etcOnly).run (begin fileSetup)
      [.returns, .change .modify (ofString "/etc/c.json"), .attach, .enterLoop] =
      some ⟨⟨.top, [true], none, false, 0, [], []⟩, true, 1, true⟩ := by decide +kernel
  exact h _ (.run (.init rfl) (fun _ _ _ => trivial) hrun) ⟨rfl, by decide, rfl, rfl, rfl⟩

end Startup
end SharedDaemon
