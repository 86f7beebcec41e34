import SharedDaemon.ClientCap

/-!
# The accept loop under resource exhaustion

`serve_listener` leaves its loop by `break` when the socket path is gone, and by
unwinding when a hook panics or the OS refuses a worker thread.
-/

namespace SharedDaemon
namespace AcceptLoop

open TransitionSystem

def Acceptor.running : Acceptor → Bool
  | .ended | .spawnPanicked _ | .hookPanicked => false
  | _ => true

/-- The loop goes on, and a refused thread left the counter and the loop as they were. -/
structure Survives (maxClients : Option Usize) (as : List Action) (s : State) : Prop where
  running : s.acceptor.running
  unaffected : ∀ pre post u v, as = pre ++ .spawn false :: post →
    (server maxClients).run initial pre = some u → step maxClients u (.spawn false) = some v →
    v.acceptor = .accepting ∧ (maxClients.isSome → v.clients.val = v.holding)

theorem running_step {maxClients : Option Usize} {s t : State} {a : Action}
    (hs : s.acceptor.running) (hthread : a ≠ .spawn false) (hhook : a ≠ .reject true)
    (hpath : a ≠ .checkPath false) (hstep : step maxClients s a = some t) :
    t.acceptor.running := by
  cases Step.of_step hstep with
  | accept | acceptError | atCap | belowCap | noCap | fetchAdd | spawn => rfl
  | checkPath pathExists hacc =>
    cases pathExists with
    | true => rfl
    | false => exact absurd rfl hpath
  | reject c panics hacc =>
    cases panics with
    | true => exact absurd rfl hhook
    | false => rfl
  | refused c hacc => exact absurd rfl hthread
  | start i _ ht | finish i _ ht | panic i _ ht =>
    rw [(advance_counts ht).1]
    exact hs
  | fetchSub i u hu =>
    change u.acceptor.running
    rw [(advance_counts hu).1]
    exact hs

theorem stopped_step {maxClients : Option Usize} {s t : State} {a : Action}
    (hs : s.acceptor.running = false) (hstep : step maxClients s a = some t) :
    t.acceptor.running = false := by
  cases Step.of_step hstep with
  | accept hacc | acceptError hacc | checkPath _ hacc | atCap _ _ hacc | belowCap _ _ hacc
  | noCap _ hacc | reject _ _ hacc | fetchAdd _ hacc | spawn _ hacc =>
    rw [hacc] at hs
    cases hs
  | refused c hacc => rfl
  | start i _ ht | finish i _ ht | panic i _ ht =>
    rw [(advance_counts ht).1]
    exact hs
  | fetchSub i u hu =>
    change u.acceptor.running = false
    rw [(advance_counts hu).1]
    exact hs

/-- A run through a refused thread ends with the accepting thread gone. -/
theorem stopped_of_refused {maxClients : Option Usize} {as : List Action} {s t : State}
    (hmem : .spawn false ∈ as) (hrun : (server maxClients).run s as = some t) :
    t.acceptor.running = false := by
  obtain ⟨pre, post, rfl⟩ := List.append_of_mem hmem
  rw [run_append] at hrun
  obtain ⟨u, -, hrest⟩ := Option.bind_eq_some_iff.mp hrun
  obtain ⟨v, hv, hpost⟩ : ∃ v, step maxClients u (.spawn false) = some v ∧
      (server maxClients).run v post = some t := run_cons_eq_some.mp hrest
  have hstop : v.acceptor.running = false := by
    cases Step.of_step hv
    rfl
  exact run_invariant (I := fun s => s.acceptor.running = false)
    (fun _ _ _ _ hI hstep => stopped_step hI hstep) hstop hpost

/-- While the path exists at each accept error and no hook panics, the accept loop
survives a run exactly when the OS refuses none of its threads. -/
theorem survives_iff_threads_created (maxClients : Option Usize) (as : List Action) (s : State)
    (hrun : (server maxClients).run initial as = some s)
    (hhooks : .reject true ∉ as) (hpath : .checkPath false ∉ as) :
    Survives maxClients as s ↔ .spawn false ∉ as := by
  constructor
  · intro h hmem
    have hstop := stopped_of_refused hmem hrun
    rw [h.running] at hstop
    cases hstop
  · intro hthreads
    constructor
    · refine run_invariant (I := fun s => s.acceptor.running)
        (fun s a t ha hI hstep => running_step hI ?_ ?_ ?_ hstep) rfl hrun
      all_goals
        rintro rfl
        contradiction
    · rintro pre post u v rfl
      simp at hthreads

/-- Two clients, an accept error with the path in place, and a worker that panics. -/
theorem survives_busy_hour :
    ∃ s, Survives (some 1) [.accept, .checkCap, .fetchAdd, .spawn true, .acceptError,
      .checkPath true, .accept, .start 0, .checkCap, .reject false, .panic 0] s := by
  refine ⟨⟨.accepting, 1, 2, [⟨0, .panicked⟩], [1]⟩, ?_⟩
  exact (survives_iff_threads_created _ _ _ (by decide +kernel) (by decide) (by decide)).mpr
    (by decide)

/-- One refused thread ends the accept loop, with the counter still raised. -/
theorem refused_thread_ends_loop :
    ∃ s, (server (some 2)).run initial [.accept, .checkCap, .fetchAdd, .spawn false] = some s ∧
      s.acceptor.running = false ∧ s.clients = 1 ∧ s.alive = 0 ∧
      step (some 2) s .accept = none := by
  refine ⟨⟨.spawnPanicked 0, 1, 1, [], []⟩, ?_⟩
  decide +kernel

end AcceptLoop
end SharedDaemon
