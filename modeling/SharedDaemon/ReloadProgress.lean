import SharedDaemon.SeededReload

/-!
# Hot reload comes to rest

Once the other programs leave the file alone, the watcher and its callback have a bounded
number of steps to take, and can take the next one until nothing is left of any change.
-/

namespace SharedDaemon
namespace SeededReload

open StdIo StdPath Config TransitionSystem

variable {T : Type} {setup : Setup T} {init : T} {s t : State T}

def callWork : Seeding.Call → ℕ
  | .write (.error e) => if e.kind = .interrupted then 0 else 1
  | _ => 1

def work (s : State T) : Action → ℕ
  | .watch a => Watch.work s.watch a
  | .change _ _ => 0
  | .load c _ => callWork c
  | .begin | .replace => 1

def pcWork (codec : Codec T) : Seeding.Pc T → ℕ
  | .idle => 0
  | .reading => seedEvents codec + 4
  | .creatingDir => seedEvents codec + 3
  | .opening _ => seedEvents codec + 2
  | .writing _ _ rest => rest.length + 1
  | .returned _ => 1

/-- The work of one reload: its first step, its calls, `replace` and the way back. -/
def reloadWork (codec : Codec T) : ℕ := seedEvents codec + 6

def State.callbackWork (setup : Setup T) (s : State T) : ℕ :=
  match s.callback with
  | .idle => reloadWork setup.codec * s.watch.pc.fires
  | .running => pcWork setup.codec (s.files.pc ()) + 1
  | .done => 1

/-- A bound on the work still to do when nobody else changes the file. An event costs its
delivery, its turn of the loop and a reload. -/
def State.budget (setup : Setup T) (s : State T) : ℕ :=
  s.watch.rest setup.watch (reloadWork setup.codec) +
    (reloadWork setup.codec + 3) * loadFuel setup.codec s.files + s.callbackWork setup

def Action.adds (setup : Setup T) : Action → ℕ
  | .watch a => a.gain setup.watch (reloadWork setup.codec)
  | .change _ _ => (reloadWork setup.codec + 3) * (1 + seedEvents setup.codec)
  | _ => 0

theorem rest_raise (setup : Watch.Setup) (reload : ℕ) (w : Watch.State) (e : Watch.Event) :
    Watch.State.rest setup reload { w with kernel := w.kernel ++ [.ok e] } ≤
      w.rest setup reload + (reload + 3) := by
  simp only [Watch.State.rest, Watch.State.fuel, Watch.State.onTheWay, List.countP_append,
    List.countP_singleton, List.length_append, List.length_singleton, Nat.mul_add]
  split <;> omega

theorem pcWork_loadStep {f : JsonFile} {codec : Codec T} {files files' : Seeding.State Unit T}
    {c : Seeding.Call} (hc : c ≠ .start ∧ c ≠ .crash)
    (hfollows : Seeding.Follows f codec (files.pc ()))
    (h : Seeding.loadStep f codec files () c = some files') :
    callWork c + pcWork codec (files'.pc ()) ≤ pcWork codec (files.pc ()) := by
  cases Seeding.Effect.of_step h with
  | start => exact absurd rfl hc.1
  | crash => exact absurd rfl hc.2
  | read fault hpc =>
    rw [Seeding.goto_pc_self, hpc]
    rcases Seeding.afterRead_cases f codec (files.disk.readAnswer fault) with ⟨r, hr⟩ | hdir
    · simp only [hr, callWork, pcWork]
      omega
    · simp only [hdir, callWork, pcWork]
      omega
  | createDirAll fault hpc =>
    rw [Seeding.goto_pc_self, hpc]
    rcases Seeding.afterCreateDir_cases f codec fault with ⟨r, hr⟩ | ⟨text, htext⟩
    · simp only [hr, callWork, pcWork]
      omega
    · simp only [htext, callWork, pcWork]
      omega
  | notOpened text e hpc =>
    rw [Seeding.goto_pc_self, hpc]
    simp only [callWork, pcWork]
    omega
  | opened text hpc =>
    rw [hpc] at hfollows ⊢
    obtain ⟨-, body, hbody, rfl⟩ := hfollows
    have hevents : seedEvents codec = (Seeding.seedText body).length + 1 := by
      simp [seedEvents, hbody]
    rw [Seeding.goto_pc_self]
    simp only [callWork, pcWork]
    omega
  | interrupted ino offset rest e hpc he => simp [callWork, he]
  | notWritten ino offset rest e hpc he =>
    rw [hpc] at hfollows ⊢
    obtain ⟨-, body, -, rfl, hlt⟩ := hfollows
    rw [Seeding.goto_pc_self]
    simp only [callWork, he, if_false, pcWork, List.length_drop]
    omega
  | written ino offset rest n hpc =>
    rw [hpc] at hfollows ⊢
    obtain ⟨-, body, -, rfl, hlt⟩ := hfollows
    rw [Seeding.goto_pc_self, Seeding.afterWrite]
    split
    · simp only [callWork, pcWork, List.length_drop]
      omega
    · split
      · simp only [callWork, pcWork, List.length_drop]
        omega
      · simp only [callWork, pcWork, List.length_drop]
        omega

theorem watch_reachable (hs : (reloader setup init).Reachable s) :
    (Watch.watcher setup.watch).Reachable s.watch := by
  refine hs.project State.watch ?_ fun s a t _ hstep => ?_
  · rintro s ⟨files, -, rfl⟩
    rfl
  · cases Step.of_step hstep with
    | watch a w _ hw => exact .inr ⟨a, trivial, hw⟩
    | fired w _ hw => exact .inr ⟨.fired, trivial, hw⟩
    | change a e | touched c e => exact .inr ⟨.raise (.ok e), trivial, rfl⟩
    | begin | read | untouched | replace => exact .inl rfl

theorem awake_loadStep {f : JsonFile} {codec : Codec T} {files files' : Seeding.State Unit T}
    {c : Seeding.Call} (hc : c ≠ .crash) (hawake : files.pc () ≠ .idle)
    (h : Seeding.loadStep f codec files () c = some files') : files'.pc () ≠ .idle := by
  cases Seeding.Effect.of_step h with
  | crash => exact absurd rfl hc
  | start | notOpened | opened | notWritten => simp
  | interrupted => exact hawake
  | read fault =>
    rw [Seeding.goto_pc_self]
    rcases Seeding.afterRead_cases f codec (files.disk.readAnswer fault) with ⟨r, hr⟩ | hdir
    · simp [hr]
    · simp [hdir]
  | createDirAll fault =>
    rw [Seeding.goto_pc_self]
    rcases Seeding.afterCreateDir_cases f codec fault with ⟨r, hr⟩ | ⟨text, htext⟩
    · simp [hr]
    · simp [htext]
  | written ino offset rest n =>
    rw [Seeding.goto_pc_self, Seeding.afterWrite]
    split
    · simp
    · split <;> simp

/-- Once begun, a load is somewhere; before, another can begin. -/
structure Awake (s : State T) : Prop where
  running : s.callback = .running → s.files.pc () ≠ .idle
  ready : s.callback ≠ .running → s.files.pc () = .idle ∨ ∃ r, s.files.pc () = .returned r

theorem awake_step {a : Action} (h : Awake s) (hstep : step setup s a = some t) : Awake t := by
  cases Step.of_step hstep with
  | watch => exact ⟨h.running, h.ready⟩
  | fired w hdone => exact ⟨by simp, fun _ => h.ready (by simp [hdone])⟩
  | change a e files he hpc => exact ⟨hpc ▸ h.running, hpc ▸ h.ready⟩
  | begin => exact ⟨by simp, by simp⟩
  | read fault e hrunning hpc =>
    have hread : Seeding.loadStep setup.source setup.codec s.files () (.read fault) =
        some (s.files.goto ()
          (Seeding.afterRead setup.source setup.codec (s.files.disk.readAnswer fault))) := by
      simp [Seeding.loadStep, hpc]
    exact ⟨fun _ => awake_loadStep (by simp) (h.running hrunning) hread, absurd hrunning⟩
  | touched c e files hrunning he htouches hc hload
  | untouched c e files hrunning htouches hc hload =>
    exact ⟨fun _ => awake_loadStep hc.2.1 (h.running hrunning) hload, absurd hrunning⟩
  | replace r hrunning hpc => exact ⟨by simp, fun _ => .inr ⟨r, hpc⟩⟩

theorem awake_reachable (hs : (reloader setup init).Reachable s) : Awake s := by
  refine hs.invariant (I := Awake) ?_ fun _ _ _ h _ hstep => awake_step h hstep
  rintro s ⟨files, hfiles, rfl⟩
  exact ⟨by simp, fun _ => .inl (hfiles.idle ())⟩

/-- All work is paid for. -/
theorem budget_step {a : Action} (h : Tracked setup init s)
    (hpaced : Watch.Paced setup.watch s.watch) (hstep : step setup s a = some t) :
    work s a + t.budget setup ≤ s.budget setup + a.adds setup := by
  cases Step.of_step hstep with
  | watch a w ha hw =>
    have hpaid := Watch.work_step hpaced ha (reloadWork setup.codec) hw
    simp only [work, State.budget, Action.adds, State.callbackWork]
    cases hc : s.callback with
    | idle =>
      simp only
      omega
    | running | done =>
      have hfiring := h.firing (by simp [hc])
      have hkeep := Watch.firing_step hfiring ha hw
      rw [hfiring, hkeep] at hpaid
      simp only
      omega
  | fired w hdone hw =>
    have hrest : w.rest setup.watch (reloadWork setup.codec) =
        s.watch.rest setup.watch (reloadWork setup.codec) ∧ w.pc.fires = 0 := by
      cases Watch.Step.of_step hw with
      | fired hpc =>
        simp [Watch.State.rest, Watch.State.fuel, Watch.State.onTheWay, hpc, Watch.Pc.starts,
          Watch.Pc.fires]
    simp only [work, Watch.work, State.budget, Action.adds, State.callbackWork, hdone, hrest]
    omega
  | change a e files he hpc =>
    have hrest := rest_raise setup.watch (reloadWork setup.codec) s.watch e
    have hload := Nat.mul_le_mul_left (reloadWork setup.codec + 3) (loadFuel_le setup.codec hpc)
    have hcall : (s.changed files e).callbackWork setup = s.callbackWork setup := by
      simp only [State.callbackWork, State.changed, hpc]
    rw [Nat.mul_add] at hload
    simp only [work, State.budget, Action.adds, hcall, Nat.mul_add]
    simp only [State.changed]
    omega
  | begin hfiring hidle =>
    have hload : loadFuel setup.codec (s.files.goto () .reading) ≤ loadFuel setup.codec s.files :=
      loadFuel_goto_le (Nat.zero_le _)
    have hmul := Nat.mul_le_mul_left (reloadWork setup.codec + 3) hload
    simp only [work, State.budget, Action.adds, State.callbackWork, hidle, hfiring,
      Watch.Pc.fires, Seeding.goto_pc_self, pcWork, reloadWork] at hmul ⊢
    omega
  | read fault e hrunning hpc =>
    have hread : Seeding.loadStep setup.source setup.codec s.files () (.read fault) =
        some (s.files.goto ()
          (Seeding.afterRead setup.source setup.codec (s.files.disk.readAnswer fault))) := by
      simp [Seeding.loadStep, hpc]
    have hload := loadFuel_loadStep h.follows hread
    have hmul := Nat.mul_le_mul_left (reloadWork setup.codec + 3) (Nat.le_of_add_right_le hload)
    have hcall := pcWork_loadStep (by simp) h.follows hread
    simp only [work, State.budget, Action.adds, State.callbackWork, hrunning]
    omega
  | touched c e files hrunning he htouches hc hloadStep =>
    have hrest := rest_raise setup.watch (reloadWork setup.codec) s.watch e
    have hload := loadFuel_loadStep h.follows hloadStep
    rw [if_pos htouches] at hload
    have hmul := Nat.mul_le_mul_left (reloadWork setup.codec + 3) hload
    rw [Nat.mul_add, Nat.mul_one] at hmul
    have hcall := pcWork_loadStep ⟨hc.1, hc.2.1⟩ h.follows hloadStep
    simp only [work, State.budget, Action.adds, State.callbackWork, State.changed, hrunning]
    omega
  | untouched c e files hrunning htouches hc hloadStep =>
    have hload := loadFuel_loadStep h.follows hloadStep
    have hmul := Nat.mul_le_mul_left (reloadWork setup.codec + 3) (Nat.le_of_add_right_le hload)
    have hcall := pcWork_loadStep ⟨hc.1, hc.2.1⟩ h.follows hloadStep
    simp only [work, State.budget, Action.adds, State.callbackWork, hrunning]
    omega
  | replace r hrunning hpc =>
    simp only [work, State.budget, Action.adds, State.callbackWork, hrunning, hpc, pcWork]
    omega

def waits : Action → Prop
  | .watch .loopTop | .watch (.tick _) => True
  | _ => False

def idleDirs (_ : ℕ) : Watch.DirAnswers := ⟨fun _ => false, fun _ => false, fun _ _ => false⟩

/-- The loop can take up what is on the way or pending. -/
theorem exists_watch_work {w : Watch.State} (hstop : w.stop = false) (hstopped : w.pc ≠ .stopped)
    (hfiring : w.pc ≠ .firing) (hwork : w.kernel ≠ [] ∨ w.queue ≠ [] ∨ w.pending ≠ none)
    (setup : Watch.Setup) :
    ∃ ws u a, (∀ b ∈ ws, waits (.watch b)) ∧ (Watch.watcher setup).run w ws = some u ∧
      a ≠ .fired ∧ (Watch.step setup u a).isSome ∧ Watch.work u a = 1 := by
  have hwaiting {v : Watch.State} {deadline : ℕ} (hpc : v.pc = .waiting deadline)
      (hleft : v.queue ≠ [] ∨ v.pending ≠ none) :
      ∃ ws u a, (∀ b ∈ ws, waits (.watch b)) ∧ (Watch.watcher setup).run v ws = some u ∧
        a ≠ .fired ∧ (Watch.step setup u a).isSome ∧ Watch.work u a = 1 := by
    cases hqueue : v.queue with
    | cons item rest =>
      refine ⟨[], v, .recv idleDirs 0 0, by simp, rfl, by simp, ?_, rfl⟩
      cases item <;> simp [Watch.step, hpc, hqueue]
    | nil =>
      obtain ⟨t₀, ht₀⟩ := Option.ne_none_iff_exists'.mp (hleft.resolve_left (by simp [hqueue]))
      refine ⟨[.tick deadline], { v with clock := v.clock + deadline }, .timeout idleDirs 0 0,
        by simp [waits], rfl, by simp, ?_, by simp [Watch.work, ht₀]⟩
      simp [Watch.step, hpc, hqueue]
  cases hkernel : w.kernel with
  | cons item rest =>
    exact ⟨[], w, .deliver, by simp, rfl, by simp, by simp [Watch.step, hkernel], rfl⟩
  | nil =>
    have hleft := hwork.resolve_left (by simp [hkernel])
    cases hpc : w.pc with
    | starting =>
      exact ⟨[], w, .startup idleDirs, by simp, rfl, by simp, by simp [Watch.step, hpc], rfl⟩
    | top =>
      have hloop : Watch.step setup w .loopTop = some { w with
          pc := .waiting (w.clock + Watch.timeoutFrom setup.debounce w.clock w.pending) } := by
        simp [Watch.step, hpc, hstop]
      obtain ⟨ws, u, a, hws, hrun, hrest⟩ := hwaiting (v := { w with
        pc := .waiting (w.clock + Watch.timeoutFrom setup.debounce w.clock w.pending) }) rfl hleft
      refine ⟨.loopTop :: ws, u, a, ?_, run_cons_eq_some.mpr ⟨_, hloop, hrun⟩, hrest⟩
      simpa [waits] using hws
    | waiting deadline => exact hwaiting hpc hleft
    | firing => exact absurd hpc hfiring
    | stopped => exact absurd hpc hstopped

theorem step_watch {a : Watch.Action} (ha : a ≠ .fired) :
    step setup s (.watch a) =
      (Watch.step setup.watch s.watch a).map fun w => { s with watch := w } := by
  cases a <;> first | rfl | exact absurd rfl ha

theorem run_watch {ws : List Watch.Action} {w : Watch.State} (hws : ∀ b ∈ ws, waits (.watch b))
    (hrun : (Watch.watcher setup.watch).run s.watch ws = some w) :
    (reloader setup init).run s (ws.map .watch) = some { s with watch := w } := by
  induction ws generalizing s with
  | nil =>
    obtain rfl := Option.some.inj hrun
    rfl
  | cons b ws ih =>
    obtain ⟨v, hv, hrest⟩ := run_cons_eq_some.mp hrun
    have hb : b ≠ .fired := by
      rintro rfl
      exact hws .fired (by simp)
    have hstep : step setup s (.watch b) = some { s with watch := v } := by
      rw [step_watch hb]
      exact Option.map_eq_some_iff.mpr ⟨v, hv, rfl⟩
    exact run_cons_eq_some.mpr ⟨_, hstep, ih (s := { s with watch := v })
      (fun b hb => hws b (List.mem_cons_of_mem _ hb)) hrest⟩

theorem exists_load_work (hrunning : s.callback = .running) (hawake : s.files.pc () ≠ .idle) :
    ∃ a, (step setup s a).isSome ∧ work s a = 1 := by
  have he : names setup ⟨.modify, [setup.source.path]⟩ := by
    simp [names, Watch.EventKind.changes]
  have hcall (c : Seeding.Call) (hc : c ≠ .start ∧ c ≠ .crash) (hwork : callWork c = 1)
      (hload : (Seeding.loadStep setup.source setup.codec s.files () c).isSome) :
      ∃ a, (step setup s a).isSome ∧ work s a = 1 := by
    refine ⟨.load c ⟨.modify, [setup.source.path]⟩, ?_, hwork⟩
    simp only [step, hrunning]
    cases c with
    | start => exact absurd rfl hc.1
    | crash => exact absurd rfl hc.2
    | read fault => simpa [loadStep] using hload
    | createDirAll | openFile | write =>
      simp only [loadStep, he, if_true]
      split <;> simpa using hload
  cases hpc : s.files.pc () with
  | idle => exact absurd hpc hawake
  | reading => exact hcall (.read none) (by simp) rfl (by simp [Seeding.loadStep, hpc])
  | creatingDir => exact hcall (.createDirAll none) (by simp) rfl (by simp [Seeding.loadStep, hpc])
  | opening text => exact hcall (.openFile none) (by simp) rfl (by simp [Seeding.loadStep, hpc])
  | writing ino offset rest =>
    exact hcall (.write (.ok rest.length)) (by simp) rfl (by simp [Seeding.loadStep, hpc])
  | returned r => exact ⟨.replace, by simp [step, hrunning, hpc], rfl⟩

/-- Hot reload comes to rest: work is bounded by what is on its way and what others add, and
as long as any is left the next step is only a wait away. -/
theorem reload_comes_to_rest (setup : Setup T) (init : T)
    (hspec : ∃ spec ∈ setup.watch.specs, Watch.isRelevantPath setup.source.path spec.filter)
    (s : State T) (hs : (reloader setup init).Reachable s) :
    (∀ as t, (reloader setup init).run s as = some t →
      (reloader setup init).spent work s as + t.budget setup ≤
        s.budget setup + (as.map (Action.adds setup)).sum) ∧
    (s.watch.stop = false → ¬ s.Drained →
      ∃ ws u a, (∀ b ∈ ws, waits b) ∧ (reloader setup init).run s ws = some u ∧
        (step setup u a).isSome ∧ work u a = 1) := by
  constructor
  · intro as t hrun
    exact spent_le_of_potential (I := (reloader setup init).Reachable) work (Action.adds setup)
      (State.budget setup)
      (fun s a t _ hI hstep => ⟨.step hI trivial hstep, budget_step (tracked_reachable hspec hI)
        (Watch.paced_reachable (watch_reachable hI)) hstep⟩) hs hrun
  · intro hstop hleft
    have hstopped := Watch.entered_of_reachable (watch_reachable hs) hstop
    have hawake := awake_reachable hs
    by_cases hfiring : s.watch.pc = .firing
    · suffices hnext : ∃ a, (step setup s a).isSome ∧ work s a = 1 by
        obtain ⟨a, hstep, hwork⟩ := hnext
        exact ⟨[], s, a, by simp, rfl, hstep, hwork⟩
      cases hc : s.callback with
      | idle =>
        refine ⟨.begin, ?_, rfl⟩
        rcases hawake.ready (by simp [hc]) with hpc | ⟨r, hpc⟩ <;>
          simp [step, hfiring, hc, Seeding.loadStep, hpc]
      | running => exact exists_load_work hc (hawake.running hc)
      | done => exact ⟨.watch .fired, by simp [step, watchStep, hc, Watch.step, hfiring], rfl⟩
    · have hwork : s.watch.kernel ≠ [] ∨ s.watch.queue ≠ [] ∨ s.watch.pending ≠ none := by
        by_contra hnone
        simp only [not_or, not_not] at hnone
        exact hleft ⟨hnone.1, hnone.2.1, hnone.2.2, hfiring⟩
      obtain ⟨ws, w, a, hws, hrun, ha, hstep, hwork⟩ :=
        exists_watch_work hstop hstopped hfiring hwork setup.watch
      refine ⟨ws.map .watch, { s with watch := w }, .watch a, ?_, run_watch hws hrun, ?_, hwork⟩
      · simpa using hws
      · rw [step_watch ha]
        simpa using hstep

theorem reload_comes_to_rest_created :
    ∃ s, (reloader seedSetup true).run missing [.change (.create []) touched] = some s ∧
      (∀ as t, (reloader seedSetup true).run s as = some t →
        (reloader seedSetup true).spent work s as + t.budget seedSetup ≤
          s.budget seedSetup + (as.map (Action.adds seedSetup)).sum) ∧
      ∃ ws u a, (∀ b ∈ ws, waits b) ∧ (reloader seedSetup true).run s ws = some u ∧
        (step seedSetup u a).isSome ∧ work u a = 1 := by
  have hcreated : ∃ s, (reloader seedSetup true).run missing [.change (.create []) touched] = some s ∧
      s.watch.stop = false ∧ ¬ s.Drained :=
    ⟨_, rfl, rfl, fun h => absurd h.kernel (by simp [missing, State.changed, Watch.initial])⟩
  obtain ⟨s, hrun, hstop, hleft⟩ := hcreated
  have hrest := reload_comes_to_rest seedSetup true seedSetup_spec s
    (.run (.init missing_init) (fun _ _ _ => trivial) hrun)
  exact ⟨s, hrun, hrest.1, hrest.2 hstop hleft⟩

end SeededReload
end SharedDaemon
