import SharedDaemon.TransitionSystem
import Mathlib.Algebra.GroupWithZero.Nat
import Mathlib.Data.Fin.Basic

/-!
# The accept loop and its client counter

`serve_listener` as a transition system: the accepting thread's atomic steps
(`incoming`, the counter's `load` and `fetch_add`, `thread::spawn`, the `Busy` hook,
the check that the socket path exists) interleaved with the steps of every worker
thread (start, return or panic of `handle_conn`, `fetch_sub`).
-/

namespace SharedDaemon
namespace AcceptLoop

/-- The counter is an `AtomicUsize` of a 64-bit target; its arithmetic wraps. -/
abbrev Usize := Fin (2 ^ 64)

instance usizeNeZero : NeZero (2 ^ 64) := ⟨by decide⟩

/-- Where the accepting thread stands in `serve_listener`; connections are numbered in
the order `incoming` yields them. -/
inductive Acceptor
  | accepting
  | accepted (conn : ℕ)
  | rejecting (conn : ℕ)
  | admitting (conn : ℕ)
  | spawning (conn : ℕ)
  | acceptFailed
  | ended
  | spawnPanicked (conn : ℕ)
  | hookPanicked
  deriving DecidableEq

/-- A worker thread: not yet scheduled, inside `handle_conn`, past it with the
`fetch_sub` still to do, finished, or unwound by a panic in `handle_conn`. -/
inductive Phase
  | spawned | serving | served | exited | panicked
  deriving DecidableEq

structure Worker where
  conn : ℕ
  phase : Phase
  deriving DecidableEq

structure State where
  acceptor : Acceptor
  clients : Usize
  accepted : ℕ
  workers : List Worker
  rejected : List ℕ
  deriving DecidableEq

inductive Action
  | accept
  | acceptError
  | checkPath (pathExists : Bool)
  | checkCap
  | reject (panics : Bool)
  | fetchAdd
  | spawn (created : Bool)
  | start (worker : ℕ)
  | finish (worker : ℕ)
  | panic (worker : ℕ)
  | fetchSub (worker : ℕ)
  deriving DecidableEq

def initial : State := ⟨.accepting, 0, 0, [], []⟩

def State.advance (s : State) (i : ℕ) (before after : Phase) : Option State :=
  match s.workers[i]? with
  | some w =>
    if w.phase = before then some { s with workers := s.workers.set i { w with phase := after } }
    else none
  | none => none

/-- One atomic step of `serve_listener` or of a worker. `maxClients = none` skips the
counter altogether, on both sides. -/
def step (maxClients : Option Usize) (s : State) : Action → Option State
  | .accept =>
    match s.acceptor with
    | .accepting => some { s with acceptor := .accepted s.accepted, accepted := s.accepted + 1 }
    | _ => none
  | .acceptError =>
    match s.acceptor with
    | .accepting => some { s with acceptor := .acceptFailed }
    | _ => none
  | .checkPath pathExists =>
    match s.acceptor with
    | .acceptFailed => some { s with acceptor := if pathExists then .accepting else .ended }
    | _ => none
  | .checkCap =>
    match s.acceptor, maxClients with
    | .accepted c, some max =>
      some { s with acceptor := if s.clients ≥ max then .rejecting c else .admitting c }
    | .accepted c, none => some { s with acceptor := .spawning c }
    | _, _ => none
  | .reject panics =>
    match s.acceptor with
    | .rejecting c =>
      some { s with
        acceptor := if panics then .hookPanicked else .accepting
        rejected := c :: s.rejected }
    | _ => none
  | .fetchAdd =>
    match s.acceptor with
    | .admitting c => some { s with acceptor := .spawning c, clients := s.clients + 1 }
    | _ => none
  | .spawn created =>
    match s.acceptor with
    | .spawning c =>
      -- `thread::spawn` panics when the OS refuses the thread; the counter stays raised
      if created then
        some { s with acceptor := .accepting, workers := s.workers ++ [⟨c, .spawned⟩] }
      else some { s with acceptor := .spawnPanicked c }
    | _ => none
  | .start i => s.advance i .spawned .serving
  | .finish i => s.advance i .serving (if maxClients.isSome then .served else .exited)
  | .panic i => s.advance i .serving .panicked
  | .fetchSub i =>
    (s.advance i .served .exited).map fun t => { t with clients := t.clients - 1 }

/-- The system `serve_listener` and its workers make, for one setting of the cap. -/
def server (maxClients : Option Usize) : TransitionSystem State Action where
  init s := s = initial
  step := step maxClients

def State.inPhase (s : State) (p : Phase) : ℕ := s.workers.countP fun w => w.phase = p

/-- Threads that still run: started or not, and not past their last statement. -/
def State.alive (s : State) : ℕ :=
  s.workers.countP fun w => w.phase ≠ .exited ∧ w.phase ≠ .panicked

def State.holding (s : State) : ℕ := s.workers.countP fun w => w.phase ≠ .exited

/-- The connection the accepting thread has in hand and has not decided on. -/
def Acceptor.inHand : Acceptor → Option ℕ
  | .accepted c | .rejecting c | .admitting c | .spawning c => some c
  | _ => none

/-- Counted connections that have no worker (yet, or ever after a refused thread). -/
def Acceptor.unspawned : Acceptor → ℕ
  | .spawning _ | .spawnPanicked _ => 1
  | _ => 0

def State.workersOf (s : State) (c : ℕ) : ℕ := s.workers.countP fun w => w.conn = c

theorem advance_eq_some {s t : State} {i : ℕ} {p q : Phase} :
    s.advance i p q = some t ↔ ∃ h : i < s.workers.length, s.workers[i].phase = p ∧
      t = { s with workers := s.workers.set i { s.workers[i] with phase := q } } := by
  unfold State.advance
  by_cases h : i < s.workers.length
  · simp [h, eq_comm]
  · simp [h]

theorem countP_advance {s t : State} {i : ℕ} {p q : Phase} (f : Worker → Bool)
    (h : s.advance i p q = some t) :
    ∃ c, t.workers.countP f + (if f ⟨c, p⟩ then 1 else 0) =
      s.workers.countP f + (if f ⟨c, q⟩ then 1 else 0) := by
  obtain ⟨hi, hp, rfl⟩ := advance_eq_some.mp h
  have hw : s.workers[i] = ⟨s.workers[i].conn, p⟩ := by rw [← hp]
  have hpos : (if f s.workers[i] then 1 else 0) ≤ s.workers.countP f :=
    List.boole_getElem_le_countP (p := f) hi
  refine ⟨s.workers[i].conn, ?_⟩
  have hset := List.countP_set (p := f) (a := { s.workers[i] with phase := q }) hi
  rw [← hw]
  simp only at hset ⊢
  omega

theorem advance_counts {s t : State} {i : ℕ} {p q : Phase} (h : s.advance i p q = some t) :
    t.acceptor = s.acceptor ∧ t.clients = s.clients ∧ t.accepted = s.accepted ∧
      t.rejected = s.rejected ∧ (∀ c, t.workersOf c = s.workersOf c) ∧
      t.holding + (if p ≠ .exited then 1 else 0) = s.holding + (if q ≠ .exited then 1 else 0) := by
  obtain ⟨_, hhold⟩ := countP_advance (fun w => w.phase ≠ .exited) h
  have hconn (c : ℕ) : t.workersOf c = s.workersOf c := by
    obtain ⟨_, hc⟩ := countP_advance (fun w => w.conn = c) h
    simpa [State.workersOf] using hc
  obtain ⟨hi, hp, rfl⟩ := advance_eq_some.mp h
  exact ⟨rfl, rfl, rfl, rfl, hconn, by simpa [State.holding] using hhold⟩

/-- All that one step can do, guards included. -/
inductive Step (maxClients : Option Usize) (s : State) : Action → State → Prop
  | accept (h : s.acceptor = .accepting) :
      Step maxClients s .accept
        { s with acceptor := .accepted s.accepted, accepted := s.accepted + 1 }
  | acceptError (h : s.acceptor = .accepting) :
      Step maxClients s .acceptError { s with acceptor := .acceptFailed }
  | checkPath (pathExists : Bool) (h : s.acceptor = .acceptFailed) :
      Step maxClients s (.checkPath pathExists)
        { s with acceptor := if pathExists then .accepting else .ended }
  | atCap (c : ℕ) (max : Usize) (h : s.acceptor = .accepted c)
      (hmax : maxClients = some max) (hcap : max ≤ s.clients) :
      Step maxClients s .checkCap { s with acceptor := .rejecting c }
  | belowCap (c : ℕ) (max : Usize) (h : s.acceptor = .accepted c)
      (hmax : maxClients = some max) (hcap : s.clients < max) :
      Step maxClients s .checkCap { s with acceptor := .admitting c }
  | noCap (c : ℕ) (h : s.acceptor = .accepted c) (hmax : maxClients = none) :
      Step maxClients s .checkCap { s with acceptor := .spawning c }
  | reject (c : ℕ) (panics : Bool) (h : s.acceptor = .rejecting c) :
      Step maxClients s (.reject panics)
        { s with
          acceptor := if panics then .hookPanicked else .accepting
          rejected := c :: s.rejected }
  | fetchAdd (c : ℕ) (h : s.acceptor = .admitting c) :
      Step maxClients s .fetchAdd { s with acceptor := .spawning c, clients := s.clients + 1 }
  | spawn (c : ℕ) (h : s.acceptor = .spawning c) :
      Step maxClients s (.spawn true)
        { s with acceptor := .accepting, workers := s.workers ++ [⟨c, .spawned⟩] }
  | refused (c : ℕ) (h : s.acceptor = .spawning c) :
      Step maxClients s (.spawn false) { s with acceptor := .spawnPanicked c }
  | start (i : ℕ) (t : State) (h : s.advance i .spawned .serving = some t) :
      Step maxClients s (.start i) t
  | finish (i : ℕ) (t : State)
      (h : s.advance i .serving (if maxClients.isSome then .served else .exited) = some t) :
      Step maxClients s (.finish i) t
  | panic (i : ℕ) (t : State) (h : s.advance i .serving .panicked = some t) :
      Step maxClients s (.panic i) t
  | fetchSub (i : ℕ) (t : State) (h : s.advance i .served .exited = some t) :
      Step maxClients s (.fetchSub i) { t with clients := t.clients - 1 }

theorem Step.of_step {maxClients : Option Usize} {s t : State} {a : Action}
    (h : step maxClients s a = some t) : Step maxClients s a t := by
  cases a with
  | accept | acceptError | checkPath | reject | fetchAdd =>
    simp only [step] at h
    split at h
    · rename_i hacc
      obtain rfl := Option.some.inj h
      constructor
      exact hacc
    · cases h
  | checkCap =>
    simp only [step] at h
    split at h
    · rename_i c max hacc
      obtain rfl := Option.some.inj h
      by_cases hcap : s.clients ≥ max
      · rw [if_pos hcap]
        exact .atCap c max hacc rfl hcap
      · rw [if_neg hcap]
        exact .belowCap c max hacc rfl (Fin.not_le.mp hcap)
    · rename_i c hacc
      obtain rfl := Option.some.inj h
      exact .noCap c hacc rfl
    · cases h
  | spawn created =>
    simp only [step] at h
    split at h
    · rename_i c hacc
      cases created with
      | true =>
        obtain rfl := Option.some.inj h
        exact .spawn c hacc
      | false =>
        obtain rfl := Option.some.inj h
        exact .refused c hacc
    · cases h
  | start i => exact .start i t h
  | finish i => exact .finish i t h
  | panic i => exact .panic i t h
  | fetchSub i =>
    obtain ⟨u, hu, rfl⟩ := Option.map_eq_some_iff.mp h
    exact .fetchSub i u hu

end AcceptLoop
end SharedDaemon
