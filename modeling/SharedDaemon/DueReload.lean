import SharedDaemon.Watch

/-!
# A due reload among irrelevant traffic

The reload is fired in the timeout branch of `watch_loop`, which is taken only when there is
nothing on the queue to receive.
-/

namespace SharedDaemon
namespace DueReload

open StdPath Watch
open TransitionSystem hiding step

def isOutside : Action → Bool
  | .setStop | .tick _ | .raise _ | .deliver => true
  | _ => false

/-- The end of `recv_timeout`, with an item or without, and the arm that follows. -/
def receives : Action → Bool
  | .recv .. | .timeout .. => true
  | _ => false

def takesRelevant (setup : Setup) (s : State) : Action → Bool
  | .recv .. =>
    match s.queue with
    | .ok e :: _ => relevant setup.specs e
    | _ => false
  | _ => false

def attaches (setup : Setup) (s : State) : Action → Bool
  | .recv os _ _ =>
    match s.queue with
    | .ok _ :: _ => (attachPending os setup.specs s.attached).1
    | _ => false
  | .timeout os _ _ => (attachPending os setup.specs s.attached).1
  | _ => false

/-- The iteration has a reason not to fire, a new trigger. -/
def Excused (setup : Setup) (s : State) (a : Action) : Prop :=
  takesRelevant setup s a = true ∨ attaches setup s a = true

def isNoise (specs : List WatchSpec) : Item → Bool
  | .ok e => !relevant specs e
  | .error _ => true

/-- One iteration from the top of the loop in `s`: while it waits other things happen, and it
receives in `u`. -/
structure Iteration (setup : Setup) (s : State) (mid : List Action) (u : State) (a : Action)
    (t : State) : Prop where
  outside : ∀ b ∈ mid, isOutside b = true
  waited : (watcher setup).run s (.loopTop :: mid) = some u
  receives : receives a = true
  received : step setup u a = some t

/-- A step that only takes noise, if it takes anything, and fires nothing. -/
def Idle (setup : Setup) (s : State) (a : Action) : Prop :=
  ¬ Excused setup s a ∧ ∀ t, step setup s a = some t → t.pc ≠ .firing

variable {setup : Setup} {s t u : State} {a : Action}

theorem attach_of_not_newly {os : ℕ → DirAnswers} (d : ℕ)
    (h : (attachPending os setup.specs s.attached).1 = false) :
    (s.attach setup os d).pending = s.pending := by
  simp [State.attach, h]

theorem idle_step (h : Idle setup s a) (hstep : step setup s a = some t) :
    t.pending = s.pending := by
  obtain ⟨hexcused, hfire⟩ := h
  have hpc := hfire t hstep
  cases Step.of_step hstep with
  | setStop | tick | raise | deliver | startup | stopped | wait | error | fired => rfl
  | event os d₁ d₂ deadline e rest hwait hq =>
    simp only [Excused, takesRelevant, attaches, hq, not_or, Bool.not_eq_true] at hexcused
    obtain ⟨hrel, hnewly⟩ := hexcused
    have hattach := attach_of_not_newly (s := { s with queue := rest }) d₁ hnewly
    simp only [State.onEvent, hrel, Bool.false_eq_true, if_false]
    exact hattach
  | timeout os d₁ d₂ deadline hwait hq hdeadline =>
    have hnewly : (attachPending os setup.specs s.attached).1 = false := by
      simpa [Excused, takesRelevant, attaches] using hexcused
    obtain ⟨-, -, hfiring | hkept⟩ := onTimeout_spec s setup os d₁ d₂
    · exact absurd hfiring hpc
    · rw [hkept, attach_of_not_newly d₁ hnewly]

theorem pending_of_idle {t₀ : ℕ} (hpending : s.pending = some t₀)
    (hu : ((watcher setup).startAt s).ReachableUnder (Idle setup) u) : u.pending = some t₀ := by
  refine hu.invariant (I := fun v => v.pending = some t₀) ?_ ?_
  · rintro v rfl
    exact hpending
  · intro v b w hv hidle hstep
    rw [idle_step hidle hstep, hv]

/-- The loop waits, with the reload still pending, attached as before, and no earlier. -/
structure Waited (s u : State) : Prop where
  waiting : ∃ deadline, u.pc = .waiting deadline
  pending : u.pending = s.pending
  attached : u.attached = s.attached
  clock : s.clock ≤ u.clock

theorem waited_step (h : Waited s u) (ha : isOutside a = true) (hstep : step setup u a = some t) :
    Waited s t := by
  cases Step.of_step hstep with
  | setStop | raise | deliver => exact ⟨h.waiting, h.pending, h.attached, h.clock⟩
  | tick d => exact ⟨h.waiting, h.pending, h.attached, Nat.le_add_right_of_le h.clock⟩
  | startup | stopped | wait | event | error | timeout | fired => cases ha

theorem Iteration.wait {mid : List Action} (h : Iteration setup s mid u a t)
    (hstop : s.stop = false) : Waited s u := by
  obtain ⟨v, hv, hmid⟩ := run_cons_eq_some.mp h.waited
  have hloop : Watch.step setup s .loopTop = some v := hv
  have hwait : Waited s v := by
    cases Step.of_step hloop with
    | stopped hpc htrue =>
      rw [hstop] at htrue
      cases htrue
    | wait hpc => exact ⟨⟨_, rfl⟩, rfl, rfl, Nat.le_refl _⟩
  exact run_invariant (I := fun v => Waited s v)
    (fun _ b _ hb hI hstep => waited_step hI (h.outside b hb) hstep) hwait hmid

theorem Waited.due {t₀ : ℕ} (h : Waited s u) (hdue : setup.debounce ≤ s.clock - t₀) (d : ℕ) :
    setup.debounce ≤ u.clock + d - t₀ := by
  have hclock := h.clock
  omega

theorem onTimeout_fires {t₀ : ℕ} {os : ℕ → DirAnswers} {d₁ d₂ : ℕ} (hpending : s.pending = some t₀)
    (hnewly : (attachPending os setup.specs s.attached).1 = false)
    (hdue : setup.debounce ≤ s.clock + (d₁ + d₂) - t₀) :
    (s.onTimeout setup os d₁ d₂).pc = .firing := by
  have hattach := attach_of_not_newly (s := s) d₁ hnewly
  have htrue : ({ s.attach setup os d₁ with clock := s.clock + d₁ + d₂ } : State).due setup =
      true := by
    simpa [State.due, hattach, hpending, Nat.add_assoc] using hdue
  rw [State.onTimeout]
  simp only [htrue, if_true]

/-- A due reload without an excuse is fired exactly if the queue has nothing for the
iteration. -/
theorem Iteration.fires_iff {mid : List Action} {t₀ : ℕ} (h : Iteration setup s mid u a t)
    (hstop : s.stop = false) (hpending : s.pending = some t₀)
    (hdue : setup.debounce ≤ s.clock - t₀) (hexcused : ¬ Excused setup u a) :
    t.pc = .firing ↔ u.queue = [] := by
  have hwait := h.wait hstop
  have hreceives := h.receives
  cases Step.of_step h.received with
  | setStop | tick | raise | deliver | startup | stopped | wait | fired => cases hreceives
  | event os d₁ d₂ deadline e rest hpc hq => simp [State.onEvent, hq]
  | error os d₁ d₂ deadline text rest hpc hq => simp [hq]
  | timeout os d₁ d₂ deadline hpc hq hdeadline =>
    have hnewly : (attachPending os setup.specs u.attached).1 = false := by
      simpa [Excused, takesRelevant, attaches] using hexcused
    have hfires := onTimeout_fires (hwait.pending.trans hpending) hnewly
      (hwait.due hdue (d₁ + d₂))
    simp [hfires, hq]

def unattachable (_ : ℕ) : DirAnswers := ⟨fun _ => false, fun _ => false, fun _ _ => false⟩

theorem attachPending_unattachable (specs : List WatchSpec) (attached : List Bool) :
    (attachPending unattachable specs attached).1 = false := by
  have hnever (spec : WatchSpec) (i : ℕ) : attachSpec (unattachable i) spec = false := by
    simp [attachSpec, unattachable]
  rw [Bool.eq_false_iff]
  intro hany
  simp only [attachPending, hnever, Bool.or_false, List.any_eq_true] at hany
  obtain ⟨⟨after, before⟩, hmem, hnew⟩ := hany
  obtain ⟨k, hk, heq⟩ := List.mem_iff_getElem.mp hmem
  simp only [List.getElem_zip, List.getElem_map, List.getElem_zipIdx, Prod.mk.injEq] at heq
  obtain ⟨rfl, rfl⟩ := heq
  simp at hnew

theorem recv_noise {item : Item} {rest : List Item} {deadline : ℕ} (hpc : s.pc = .waiting deadline)
    (hq : s.queue = item :: rest) (hnoise : isNoise setup.specs item = true) :
    ∃ attached, step setup s (.recv unattachable 0 0) =
      some { s with pc := .top, queue := rest, attached } := by
  cases item with
  | ok e =>
    have hrel : relevant setup.specs e = false := by simpa [isNoise] using hnoise
    have hnewly := attachPending_unattachable setup.specs s.attached
    refine ⟨(attachPending unattachable setup.specs s.attached).2, ?_⟩
    simp [step, hpc, hq, State.onEvent, State.attach, hrel, hnewly]
  | error text => exact ⟨s.attached, by simp [step, hpc, hq]⟩

theorem iteration_of_noise {item : Item} {rest : List Item} (hpc : s.pc = .top)
    (hstop : s.stop = false) (hq : s.queue = item :: rest) (hnoise : isNoise setup.specs item = true) :
    ∃ u a t, Iteration setup s [] u a t ∧ ¬ Excused setup u a := by
  let v : State := { s with pc := .waiting (s.clock + timeoutFrom setup.debounce s.clock s.pending) }
  have hwaited : (watcher setup).run s [.loopTop] = some v := by
    refine run_cons_eq_some.mpr ⟨v, ?_, rfl⟩
    simp [watcher, step, hpc, hstop, v]
  obtain ⟨attached, hstep⟩ := recv_noise (s := v) rfl hq hnoise
  refine ⟨v, _, _, ⟨by simp, hwaited, rfl, hstep⟩, ?_⟩
  cases item with
  | ok e =>
    have hrel : relevant setup.specs e = false := by simpa [isNoise] using hnoise
    simp [Excused, takesRelevant, attaches, v, hq, hrel, attachPending_unattachable]
  | error text => simp [Excused, takesRelevant, attaches, v, hq]

theorem Iteration.queue_eq (h : Iteration setup s [] u a t) : u.queue = s.queue := by
  obtain ⟨v, hv, hnil⟩ := run_cons_eq_some.mp h.waited
  obtain rfl := Option.some.inj hnil
  have hloop : Watch.step setup s .loopTop = some v := hv
  cases Step.of_step hloop <;> rfl

/-- The reload that is due is fired in this iteration, or excused, however the iteration
goes. -/
def FiresWith (setup : Setup) (s : State) (noise : List Item) : Prop :=
  ∀ u a t, Iteration setup { s with queue := noise } [] u a t → t.pc = .firing ∨ Excused setup u a

theorem firesWith_iff {t₀ : ℕ} (hpc : s.pc = .top) (hstop : s.stop = false)
    (hpending : s.pending = some t₀) (hdue : setup.debounce ≤ s.clock - t₀) {noise : List Item}
    (hnoise : ∀ item ∈ noise, isNoise setup.specs item = true) :
    FiresWith setup s noise ↔ noise = [] := by
  constructor
  · intro h
    cases noise with
    | nil => rfl
    | cons item rest =>
      obtain ⟨u, a, t, hiter, hexcused⟩ :=
        iteration_of_noise (s := { s with queue := item :: rest }) hpc hstop rfl
          (hnoise item (by simp))
      have hfires := (h u a t hiter).resolve_right hexcused
      have hempty := (hiter.fires_iff hstop hpending hdue hexcused).mp hfires
      rw [hiter.queue_eq] at hempty
      cases hempty
  · rintro rfl u a t hiter
    by_cases hexcused : Excused setup u a
    · exact .inr hexcused
    · exact .inl ((hiter.fires_iff hstop hpending hdue hexcused).mpr hiter.queue_eq)

/-- A pending reload stays pending whatever noise is taken. In an iteration in which it is
due it is fired or excused exactly when the loop finds its queue empty or has that excuse, so
that noise added to a queue that was empty holds the reload back, unless it is none at all. -/
theorem due_reload_fires_iff (setup : Setup) (s : State) (t₀ : ℕ) (hpending : s.pending = some t₀)
    (u : State) (hu : ((watcher setup).startAt s).ReachableUnder (Idle setup) u) :
    u.pending = some t₀ ∧
      (u.pc = .top → u.stop = false → setup.debounce ≤ u.clock - t₀ →
        (∀ mid v a t, Iteration setup u mid v a t →
          (t.pc = .firing ∨ Excused setup v a ↔ v.queue = [] ∨ Excused setup v a)) ∧
        ∀ noise, (∀ item ∈ noise, isNoise setup.specs item = true) →
          (FiresWith setup u noise ↔ noise = [])) := by
  have hkept := pending_of_idle hpending hu
  refine ⟨hkept, fun hpc hstop hdue => ⟨?_, fun noise => firesWith_iff hpc hstop hkept hdue⟩⟩
  intro mid v a t hiter
  by_cases hexcused : Excused setup v a
  · simp [hexcused]
  · simp [hexcused, hiter.fires_iff hstop hkept hdue hexcused]

def netSetup : Setup := ⟨[.file (ofString "/etc/net.json")], 300⟩

def etcThere (_ : ℕ) : DirAnswers := ⟨(· == ofString "/etc"), fun _ => false, fun _ _ => true⟩

def changed : State := ⟨.top, [true], some 7, false, 307, [], []⟩

def logRead : Item := .ok ⟨.access, [ofString "/etc/boot.log"]⟩

theorem idle_of_step (h : step setup s a = some t) (hexcused : ¬ Excused setup s a)
    (hpc : t.pc ≠ .firing) : Idle setup s a :=
  ⟨hexcused, fun _ h' => Option.some.inj (h.symm.trans h') ▸ hpc⟩

/-- A watcher error and the look at the log file are taken first; then the queue is empty. -/
theorem due_reload_fires_quiet :
    ∃ v u t, (watcher netSetup).run changed [.raise (.error "overflow"), .raise logRead, .deliver,
        .deliver, .loopTop, .recv etcThere 0 0, .loopTop, .recv etcThere 0 0] = some v ∧
      v.pending = some 7 ∧ Iteration netSetup v [] u (.timeout etcThere 0 0) t ∧
      t.pc = .firing := by
  have h₀ : ((watcher netSetup).startAt changed).ReachableUnder (Idle netSetup) changed :=
    .init rfl
  have hquiet (s : State) (a : Action) (hreads : receives a = false) : ¬ Excused netSetup s a := by
    cases a <;> simp [receives, Excused, takesRelevant, attaches] at hreads ⊢
  have h₁ := h₀.step (idle_of_step rfl (hquiet _ (.raise (.error "overflow")) rfl) (by decide)) rfl
  have h₂ := h₁.step (idle_of_step rfl (hquiet _ (.raise logRead) rfl) (by decide)) rfl
  have h₃ := h₂.step (idle_of_step rfl (hquiet _ .deliver rfl) (by decide)) rfl
  have h₄ := h₃.step (idle_of_step rfl (hquiet _ .deliver rfl) (by decide)) rfl
  have h₅ := h₄.step (idle_of_step rfl (hquiet _ .loopTop rfl) (by decide)) rfl
  have h₆ := h₅.step (a := .recv etcThere 0 0)
    (idle_of_step rfl (by unfold Excused; decide +kernel) (by decide)) rfl
  have h₇ := h₆.step (idle_of_step rfl (hquiet _ .loopTop rfl) (by decide)) rfl
  have h₈ := h₇.step (a := .recv etcThere 0 0)
    (idle_of_step rfl (by unfold Excused; decide +kernel) (by decide +kernel)) rfl
  obtain ⟨hpending, hdue⟩ := due_reload_fires_iff netSetup changed 7 rfl _ h₈
  have hiter : Iteration netSetup changed [] { changed with pc := .waiting 307 }
      (.timeout etcThere 0 0) { changed with pc := .firing, pending := none } :=
    ⟨by simp, by decide +kernel, rfl, by decide +kernel⟩
  have hfires := ((hdue rfl rfl (by decide)).1 _ _ _ _ hiter).mpr (.inl rfl)
  exact ⟨_, _, _, rfl, hpending, hiter, hfires.resolve_right (by unfold Excused; decide +kernel)⟩

/-- One look at a log file holds back a reload that is due. -/
theorem log_read_holds_back :
    ¬ ∀ (setup : Setup) (s : State) (t₀ : ℕ), (watcher setup).Reachable s → s.pc = .top →
      s.stop = false → s.pending = some t₀ → setup.debounce ≤ s.clock - t₀ →
      ∀ mid u a t, Iteration setup s mid u a t → t.pc = .firing ∨ Excused setup u a := by
  intro h
  have hrun : (watcher netSetup).run (initial netSetup)
      [.startup etcThere, .raise (.ok ⟨.modify, [ofString "/etc/net.json"]⟩), .deliver, .loopTop,
        .tick 5, .recv etcThere 1 1, .raise logRead, .deliver, .tick 300] =
      some { changed with queue := [logRead] } := by
    decide +kernel
  have hiter : Iteration netSetup { changed with queue := [logRead] } []
      { changed with pc := .waiting 307, queue := [logRead] } (.recv etcThere 0 0) changed :=
    ⟨by simp, by decide +kernel, rfl, by decide +kernel⟩
  have hfires := h netSetup _ 7 (.run (.init rfl) (fun _ _ _ => trivial) hrun) rfl rfl rfl
    (by decide) _ _ _ _ hiter
  unfold Excused at hfires
  exact absurd hfires (by decide +kernel)

end DueReload
end SharedDaemon
