import SharedDaemon.DueReload

/-!
# Overflow of the kernel's event queue

The kernel keeps a bounded number of events for a watcher. A change that finds the queue full
is dropped, and one event of kind `Other`, without a path, stands for all that were.
-/

namespace SharedDaemon
namespace QueueOverflow

open StdPath Watch
open TransitionSystem hiding step
open DueReload (unattachable isNoise recv_noise)

def rescan : Item := .ok ⟨.other, []⟩

def isEvent : Item → Bool
  | .ok _ => true
  | .error _ => false

/-- `owed` records a relevant change since the last fire began. -/
structure State where
  watch : Watch.State
  owed : Bool
  deriving DecidableEq

inductive Action
  | change (kind : EventKind) (paths : List OsStr)
  | loop (a : Watch.Action)

def isLoopAction : Watch.Action → Bool
  | .raise (.ok _) => false
  | _ => true

def State.room (s : State) (capacity : ℕ) : Bool := s.watch.kernel.countP isEvent < capacity

def enqueue (s : State) (capacity : ℕ) (e : Event) : List Item :=
  if s.room capacity then s.watch.kernel ++ [.ok e]
  else if rescan ∈ s.watch.kernel then s.watch.kernel
  else s.watch.kernel ++ [rescan]

def step (setup : Setup) (capacity : ℕ) (s : State) : Action → Option State
  | .change kind paths => some {
      watch := { s.watch with kernel := enqueue s capacity ⟨kind, paths⟩ }
      owed := s.owed || relevant setup.specs ⟨kind, paths⟩ }
  | .loop a =>
    if isLoopAction a then
      (Watch.step setup s.watch a).map fun w =>
        ⟨w, s.owed && !(s.watch.pc ≠ .firing ∧ w.pc = .firing)⟩
    else none

def begin (setup : Setup) : State := ⟨initial setup, false⟩

def bounded (setup : Setup) (capacity : ℕ) : TransitionSystem State Action where
  init s := s = begin setup
  step := step setup capacity

/-- Nothing is left on the way, and no reload will follow the change that is owed one. -/
structure State.Missed (s : State) : Prop where
  owed : s.owed = true
  kernel : s.watch.kernel = []
  queue : s.watch.queue = []
  pending : s.watch.pending = none

/-- A relevant change finds room, or a reload is due for another one. -/
def Roomy (setup : Setup) (capacity : ℕ) (s : State) : Action → Prop
  | .change kind paths =>
    relevant setup.specs ⟨kind, paths⟩ → s.room capacity ∨ s.watch.Triggered setup
  | .loop _ => True

variable {setup : Setup} {capacity : ℕ} {s t : State}

inductive Step (setup : Setup) (capacity : ℕ) (s : State) : Action → State → Prop
  | change (kind : EventKind) (paths : List OsStr) :
      Step setup capacity s (.change kind paths) {
        watch := { s.watch with kernel := enqueue s capacity ⟨kind, paths⟩ }
        owed := s.owed || relevant setup.specs ⟨kind, paths⟩ }
  | loop (a : Watch.Action) (w : Watch.State) (h : isLoopAction a)
      (hw : Watch.step setup s.watch a = some w) :
      Step setup capacity s (.loop a)
        ⟨w, s.owed && !(s.watch.pc ≠ .firing ∧ w.pc = .firing)⟩

theorem Step.of_step {a : Action} (h : step setup capacity s a = some t) :
    Step setup capacity s a t := by
  cases a with
  | change kind paths =>
    obtain rfl := Option.some.inj h
    exact .change kind paths
  | loop a =>
    simp only [step, Option.ite_none_right_eq_some, Option.map_eq_some_iff] at h
    obtain ⟨ha, w, hw, rfl⟩ := h
    exact .loop a w ha hw

theorem mem_enqueue {e f : Event} (h : Except.ok f ∈ s.watch.kernel) :
    Except.ok f ∈ enqueue s capacity e := by
  simp only [enqueue]
  split
  · exact List.mem_append_left _ h
  · split
    · exact h
    · exact List.mem_append_left _ h

theorem triggered_enqueue {e : Event} (h : s.watch.Triggered setup) :
    ({ s.watch with kernel := enqueue s capacity e } : Watch.State).Triggered setup := by
  rcases h with ⟨f, hf, hrel⟩ | hpending
  · left
    refine ⟨f, ?_, hrel⟩
    rcases List.mem_append.mp hf with hkernel | hqueue
    · exact List.mem_append_left _ (mem_enqueue hkernel)
    · exact List.mem_append_right _ hqueue
  · exact .inr hpending

def Kept (setup : Setup) (s : State) : Prop := s.owed = true → s.watch.Triggered setup

theorem kept_step {a : Action} (h : Kept setup s) (hC : Roomy setup capacity s a)
    (hstep : step setup capacity s a = some t) : Kept setup t := by
  intro howed
  cases Step.of_step hstep with
  | change kind paths =>
    by_cases hkept : s.watch.Triggered setup
    · exact triggered_enqueue hkept
    · have hrel : relevant setup.specs ⟨kind, paths⟩ = true := by
        simpa [mt h hkept] using howed
      have hroom := (hC hrel).resolve_right hkept
      exact .inl ⟨⟨kind, paths⟩, by simp [enqueue, hroom], hrel⟩
  | loop a w ha hw =>
    rw [Bool.and_eq_true, Bool.not_eq_true', decide_eq_false_iff_not] at howed
    exact (triggered_step (h howed.1) hw).resolve_right howed.2

theorem kept_of_reachable (hs : (bounded setup capacity).ReachableUnder (Roomy setup capacity) s) :
    Kept setup s := by
  refine hs.invariant (I := Kept setup) ?_ fun _ _ _ hI hC hstep => kept_step hI hC hstep
  rintro s rfl howed
  cases howed

/-- What is due, with nothing on the way, is pending. -/
theorem Kept.pending (h : Kept setup s) (howed : s.owed = true) (hkernel : s.watch.kernel = [])
    (hqueue : s.watch.queue = []) : s.watch.pending.isSome := by
  rcases h howed with ⟨e, he, -⟩ | hpending
  · simp [hkernel, hqueue] at he
  · exact hpending

/-- The loop goes on, and nothing it will see is a trigger for what is owed. -/
structure Lost (setup : Setup) (s : State) : Prop where
  owed : s.owed = true
  running : s.watch.stop = false
  entered : s.watch.pc ≠ .stopped
  untriggered : ¬ s.watch.Triggered setup

theorem Lost.pending (h : Lost setup s) : s.watch.pending = none := by
  rw [← Option.not_isSome_iff_eq_none]
  exact fun hpending => h.untriggered (.inr hpending)

theorem Lost.noise (h : Lost setup s) :
    ∀ item ∈ s.watch.queue, isNoise setup.specs item = true := by
  intro item hitem
  cases item with
  | error text => rfl
  | ok e =>
    simp only [isNoise, Bool.not_eq_true']
    rw [Bool.eq_false_iff]
    exact fun hrel => h.untriggered (.inl ⟨e, List.mem_append_right _ hitem, hrel⟩)

theorem Lost.of_sub {w : Watch.State} (h : Lost setup s) (hstop : w.stop = s.watch.stop)
    (hpc : w.pc ≠ .stopped) (hpending : w.pending = s.watch.pending)
    (hitems : ∀ e, Except.ok e ∈ w.kernel ++ w.queue → Except.ok e ∈ s.watch.kernel ++ s.watch.queue) :
    Lost setup { s with watch := w } := by
  refine ⟨h.owed, hstop.trans h.running, hpc, ?_⟩
  rintro (⟨e, he, hrel⟩ | hsome)
  · exact h.untriggered (.inl ⟨e, hitems e he, hrel⟩)
  · exact h.untriggered (.inr (hpending ▸ hsome))

theorem loop_step {a : Watch.Action} {w : Watch.State} (capacity : ℕ) (ha : isLoopAction a)
    (hw : Watch.step setup s.watch a = some w) (hpc : w.pc = .firing → s.watch.pc = .firing) :
    step setup capacity s (.loop a) = some { s with watch := w } := by
  simp only [step, ha, if_true, hw, Option.map_some]
  have hnew : ¬ (s.watch.pc ≠ .firing ∧ w.pc = .firing) := fun h => h.1 (hpc h.2)
  simp [hnew]

theorem lost_wait_of_top (capacity : ℕ) (h : Lost setup s) (hpc : s.watch.pc = .top) :
    ∃ t deadline, (bounded setup capacity).run s [.loop .loopTop] = some t ∧ Lost setup t ∧
      t.watch.pc = .waiting deadline ∧ t.watch.kernel = s.watch.kernel ∧
      t.watch.queue = s.watch.queue := by
  have hw : Watch.step setup s.watch .loopTop = some { s.watch with
      pc := .waiting (s.watch.clock + timeoutFrom setup.debounce s.watch.clock s.watch.pending) } := by
    simp [Watch.step, hpc, h.running]
  exact ⟨_, _, run_single (loop_step capacity rfl hw (by simp)),
    h.of_sub rfl (by simp) rfl fun e he => he, rfl, rfl, rfl⟩

theorem lost_wait (capacity : ℕ) (h : Lost setup s) :
    ∃ as t deadline, (bounded setup capacity).run s as = some t ∧ Lost setup t ∧
      t.watch.pc = .waiting deadline ∧ t.watch.kernel = s.watch.kernel ∧
      t.watch.queue = s.watch.queue := by
  cases hpc : s.watch.pc with
  | stopped => exact absurd hpc h.entered
  | waiting deadline => exact ⟨[], s, deadline, rfl, h, hpc, rfl, rfl⟩
  | top =>
    obtain ⟨t, deadline, hwait⟩ := lost_wait_of_top capacity h hpc
    exact ⟨_, t, deadline, hwait⟩
  | starting =>
    have hw : Watch.step setup s.watch (.startup unattachable) = some { s.watch with
        pc := .top
        attached := (attachPending unattachable setup.specs s.watch.attached).2 } := by
      simp [Watch.step, hpc]
    have hfirst : (bounded setup capacity).run s [.loop (.startup unattachable)] = some _ :=
      run_single (loop_step capacity rfl hw (by simp))
    have htop := h.of_sub (w := { s.watch with
      pc := .top
      attached := (attachPending unattachable setup.specs s.watch.attached).2 })
      rfl (by simp) rfl fun e he => he
    obtain ⟨t, deadline, hrun, hwait⟩ := lost_wait_of_top capacity htop rfl
    exact ⟨_, t, deadline, run_trans hfirst hrun, hwait⟩
  | firing =>
    have hw : Watch.step setup s.watch .fired = some { s.watch with pc := .top } := by
      simp [Watch.step, hpc]
    have hfirst : (bounded setup capacity).run s [.loop .fired] = some _ :=
      run_single (loop_step capacity rfl hw (by simp))
    have htop := h.of_sub (w := { s.watch with pc := .top }) rfl (by simp) rfl fun e he => he
    obtain ⟨t, deadline, hrun, hwait⟩ := lost_wait_of_top capacity htop rfl
    exact ⟨_, t, deadline, run_trans hfirst hrun, hwait⟩

theorem lost_recv (capacity : ℕ) {item : Item} {rest : List Item} (h : Lost setup s)
    (hq : s.watch.queue = item :: rest) :
    ∃ as t, (bounded setup capacity).run s as = some t ∧ Lost setup t ∧
      t.watch.kernel = s.watch.kernel ∧ t.watch.queue = rest := by
  obtain ⟨as, t, deadline, hrun, ht, hpc, hkernel, hqueue⟩ := lost_wait capacity h
  rw [hq] at hqueue
  obtain ⟨attached, hw⟩ := recv_noise hpc hqueue (ht.noise item (by simp [hqueue]))
  have hlast : (bounded setup capacity).run t [.loop (.recv unattachable 0 0)] = some _ :=
    run_single (loop_step capacity rfl hw (by simp))
  refine ⟨_, _, run_trans hrun hlast, ?_, hkernel, rfl⟩
  refine ht.of_sub rfl (by simp) rfl fun e he => ?_
  rw [hqueue]
  simp only [List.mem_append, List.mem_cons] at he ⊢
  tauto

theorem lost_deliver (capacity : ℕ) {item : Item} {rest : List Item} (h : Lost setup s)
    (hk : s.watch.kernel = item :: rest) :
    ∃ t, step setup capacity s (.loop .deliver) = some t ∧ Lost setup t ∧
      t.watch.kernel = rest ∧ t.watch.queue = s.watch.queue ++ [item] := by
  have hw : Watch.step setup s.watch .deliver =
      some { s.watch with kernel := rest, queue := s.watch.queue ++ [item] } := by
    simp only [Watch.step, hk]
  refine ⟨_, loop_step capacity rfl hw fun hpc => hpc, ?_, rfl, rfl⟩
  refine h.of_sub rfl h.entered rfl fun e he => ?_
  simp only [hk, List.mem_append, List.mem_cons, List.not_mem_nil, or_false] at he ⊢
  tauto

/-- Everything on the way is taken, and the change is missed. -/
theorem missed_of_lost (capacity : ℕ) (h : Lost setup s) :
    ∃ as t, (bounded setup capacity).run s as = some t ∧ t.Missed := by
  refine exists_run_of_measure (fun s => s.watch.onTheWay) (fun s h => ?_) h
  cases hq : s.watch.queue with
  | cons item rest =>
    obtain ⟨as, t, hrun, ht, hkernel, hqueue⟩ := lost_recv capacity h hq
    exact .inr ⟨as, t, hrun, ht, Watch.onTheWay_recv hq hkernel hqueue⟩
  | nil =>
    cases hk : s.watch.kernel with
    | cons item rest =>
      obtain ⟨t, hstep, ht, hkernel, hqueue⟩ := lost_deliver capacity h hk
      exact .inr ⟨[.loop .deliver], t, run_single hstep, ht,
        Watch.onTheWay_deliver hk hkernel hqueue⟩
    | nil => exact .inl ⟨h.owed, hk, hq, h.pending⟩

theorem entered_of_reachable (hs : (bounded setup capacity).Reachable s)
    (hstop : s.watch.stop = false) : s.watch.pc ≠ .stopped := by
  intro hpc
  have hkept : s.watch.pc = .stopped → s.watch.stop = true := by
    refine hs.invariant (I := fun s => s.watch.pc = .stopped → s.watch.stop = true) ?_ ?_
    · rintro s rfl hpc
      cases hpc
    · intro s a t hI _ hstep
      cases Step.of_step hstep with
      | change => exact hI
      | loop b w hb hw => exact stopped_step hI hw
  rw [hkept hpc] at hstop
  cases hstop

theorem missed_of_dropped {kind : EventKind} {paths : List OsStr}
    (hs : (bounded setup capacity).Reachable s) (hstop : s.watch.stop = false)
    (h : ¬ Roomy setup capacity s (.change kind paths))
    (hstep : step setup capacity s (.change kind paths) = some t) :
    ∃ as u, (bounded setup capacity).run t as = some u ∧ u.Missed := by
  simp only [Roomy, Classical.not_imp, not_or] at h
  obtain ⟨hrel, hfull, huntriggered⟩ := h
  obtain rfl := Option.some.inj hstep
  have hentered : s.watch.pc ≠ .stopped := entered_of_reachable hs hstop
  refine missed_of_lost capacity ⟨by simp [hrel], hstop, hentered, ?_⟩
  rintro (⟨e, he, hrele⟩ | hpending)
  · have hkernel : e = ⟨.other, []⟩ ∨ Except.ok e ∈ s.watch.kernel ++ s.watch.queue := by
      simp only [enqueue, if_neg hfull] at he
      split at he
      · exact .inr he
      · simp only [rescan, List.mem_append, List.mem_singleton, Except.ok.injEq] at he ⊢
        tauto
    rcases hkernel with rfl | hmem
    · simp [relevant] at hrele
    · exact huntriggered (.inl ⟨e, hmem, hrele⟩)
  · exact huntriggered (.inr hpending)

/-- While no relevant change is dropped with no reload due, a change that is owed a reload is
pending whenever everything on the way has been taken; any other one that is dropped can be
missed. -/
theorem overflow_loses_nothing (setup : Setup) (capacity : ℕ) :
    (∀ s, (bounded setup capacity).ReachableUnder (Roomy setup capacity) s → s.owed = true →
      s.watch.kernel = [] → s.watch.queue = [] → s.watch.pending.isSome) ∧
      ∀ s kind paths t, (bounded setup capacity).Reachable s → s.watch.stop = false →
        ¬ Roomy setup capacity s (.change kind paths) →
        step setup capacity s (.change kind paths) = some t →
        ∃ as u, (bounded setup capacity).run t as = some u ∧ u.Missed := by
  constructor
  · exact fun s hs => (kept_of_reachable hs).pending
  · exact fun s kind paths t hs hstop => missed_of_dropped hs hstop

def netSetup : Setup := ⟨[.file (ofString "/etc/net.json")], 300⟩

def etcThere (_ : ℕ) : DirAnswers := ⟨(· == ofString "/etc"), fun _ => false, fun _ _ => true⟩

def written : Action := .change .modify [ofString "/etc/net.json"]

def logRead : Action := .change .access [ofString "/etc/boot.log"]

def taken : List Action :=
  [.loop .deliver, .loop .deliver, .loop .loopTop, .loop (.recv etcThere 1 1), .loop .loopTop,
    .loop (.recv etcThere 1 1)]

theorem taken_roomy (s : State) : ∀ a ∈ taken, Roomy netSetup 1 s a := by
  intro a ha
  simp only [taken, List.mem_cons, List.not_mem_nil, or_false] at ha
  rcases ha with rfl | rfl | rfl | rfl | rfl | rfl <;> trivial

def started : State := ⟨⟨.top, [true], none, false, 0, [], []⟩, false⟩

def modified : Item := .ok ⟨.modify, [ofString "/etc/net.json"]⟩

theorem overflow_loses_nothing_twice :
    ∃ s, (bounded netSetup 1).run started ([written, written] ++ taken) = some s ∧
      s.watch.pending.isSome := by
  let full : State := ⟨{ started.watch with kernel := [modified] }, true⟩
  let dropped : State := ⟨{ started.watch with kernel := [modified, rescan] }, true⟩
  let drained : State := ⟨⟨.top, [true], some 2, false, 4, [], []⟩, true⟩
  have hstarted : (bounded netSetup 1).ReachableUnder (Roomy netSetup 1) started :=
    .step (a := .loop (.startup etcThere)) (.init rfl) trivial (by decide +kernel)
  have hfull : (bounded netSetup 1).ReachableUnder (Roomy netSetup 1) full :=
    .step (a := written) hstarted (fun _ => .inl (by decide +kernel)) (by decide +kernel)
  have hdropped : (bounded netSetup 1).ReachableUnder (Roomy netSetup 1) dropped :=
    .step (a := written) hfull
      (fun _ => .inr (.inl ⟨⟨.modify, [ofString "/etc/net.json"]⟩, by decide +kernel⟩))
      (by decide +kernel)
  have hdrain : (bounded netSetup 1).run dropped taken = some drained := by decide +kernel
  have hpending := (overflow_loses_nothing netSetup 1).1 drained
    (hdropped.run (fun s => taken_roomy s) hdrain) rfl rfl rfl
  exact ⟨drained, by decide +kernel, hpending⟩

/-- The only change is dropped, and the event in its place ignored. -/
theorem rescan_is_ignored :
    ¬ ∀ (setup : Setup) (capacity : ℕ) (s : State), (bounded setup capacity).Reachable s →
      s.owed = true → s.watch.kernel = [] → s.watch.queue = [] → s.watch.pending.isSome := by
  intro h
  have hrun : (bounded netSetup 1).run (begin netSetup)
      ([.loop (.startup etcThere), logRead, written] ++ taken) =
      some ⟨⟨.top, [true], none, false, 4, [], []⟩, true⟩ := by
    decide +kernel
  have hpending := h netSetup 1 _ (.run (.init rfl) (fun _ _ _ => trivial) hrun) rfl rfl rfl
  exact absurd hpending (by decide)

end QueueOverflow
end SharedDaemon
