import SharedDaemon.ClientCap
import SharedDaemon.SessionSteps
import Mathlib.Logic.Function.Basic

/-!
# The server

The accept loop, its workers and their sessions together, interleaved in any order. A
session's step meets the daemon's state as the others have left it: any state at all.
A panic of a command or hook ends its thread on the way, in whatever state.
-/

namespace SharedDaemon
namespace AcceptLoop

/-- A connection has a worker or was rejected, not both and not twice; one in hand or still
to come has neither. -/
structure Exclusive (s : State) : Prop where
  once : ∀ c, s.workersOf c + s.rejected.count c ≤ 1
  undecided : ∀ c, s.accepted ≤ c ∨ s.acceptor.inHand = some c →
    s.workersOf c + s.rejected.count c = 0
  inHand_lt : ∀ c, s.acceptor.inHand = some c → c < s.accepted

theorem Exclusive.keep {s t : State} (h : Exclusive s)
    (hw : ∀ c, t.workersOf c = s.workersOf c) (hr : t.rejected = s.rejected)
    (hacc : t.accepted = s.accepted)
    (ha : ∀ c, t.acceptor.inHand = some c → s.acceptor.inHand = some c) : Exclusive t := by
  refine ⟨fun c => ?_, fun c hc => ?_, fun c hc => ?_⟩
  · rw [hw, hr]
    exact h.once c
  · rw [hw, hr]
    exact h.undecided c (hc.imp (hacc ▸ ·) (ha c))
  · rw [hacc]
    exact h.inHand_lt c (ha c hc)

theorem Exclusive.decide {s t : State} (h : Exclusive s) {c : ℕ}
    (hs : s.acceptor.inHand = some c) (ht : t.acceptor.inHand = none)
    (hacc : t.accepted = s.accepted)
    (hcount : ∀ d, t.workersOf d + t.rejected.count d =
      s.workersOf d + s.rejected.count d + if c = d then 1 else 0) : Exclusive t := by
  have hc : s.workersOf c + s.rejected.count c = 0 := h.undecided c (.inr hs)
  have hlt : c < s.accepted := h.inHand_lt c hs
  refine ⟨fun d => ?_, fun d hd => ?_, by simp [ht]⟩
  · rw [hcount]
    split
    · rename_i heq
      rw [← heq, hc]
    · exact h.once d
  · have hle : s.accepted ≤ d := by simpa [ht, hacc] using hd
    rw [hcount, h.undecided d (.inl hle), if_neg (by omega)]

theorem exclusive_step {maxClients : Option Usize} {s t : State}
    {a : Action} (h : Exclusive s) (hstep : step maxClients s a = some t) :
    Exclusive t := by
  cases Step.of_step hstep with
  | accept hacc =>
    refine ⟨h.once, fun c hc => h.undecided c (.inl ?_), fun c hc => ?_⟩
    · rcases hc with hle | hc
      · exact Nat.le_of_succ_le hle
      · exact (Option.some.inj hc).le
    · exact Nat.lt_succ_of_le (Option.some.inj hc).ge
  | acceptError hacc | atCap c max hacc hmax hcap | belowCap c max hacc hmax hcap
  | noCap c hacc hmax | fetchAdd c hacc | refused c hacc =>
    exact h.keep (fun _ => rfl) rfl rfl (by simp [hacc, Acceptor.inHand])
  | checkPath pathExists hacc =>
    cases pathExists <;> exact h.keep (fun _ => rfl) rfl rfl (by simp [Acceptor.inHand])
  | reject c panics hacc =>
    refine h.decide (c := c) (by simp [hacc, Acceptor.inHand]) ?_ rfl fun d => ?_
    · cases panics <;> rfl
    · simp [State.workersOf, List.count_cons, Nat.add_assoc]
  | spawn c hacc =>
    refine h.decide (c := c) (by simp [hacc, Acceptor.inHand]) rfl rfl fun d => ?_
    simp [State.workersOf, List.countP_cons, Nat.add_right_comm]
  | start i _ ht | finish i _ ht | panic i _ ht =>
    obtain ⟨ha, -, hacc, hr, hw, -⟩ := advance_counts ht
    exact h.keep hw hr hacc (by simp [ha])
  | fetchSub i u hu =>
    obtain ⟨ha, -, hacc, hr, hw, -⟩ := advance_counts hu
    exact h.keep hw hr hacc (by simp [ha])

theorem Exclusive.not_rejected {s : State} (h : Exclusive s) {w : Worker} (hw : w ∈ s.workers) :
    w.conn ∉ s.rejected := by
  intro hn
  have hrejected := List.count_pos_iff.mpr hn
  have hworker : 0 < s.workersOf w.conn := List.countP_pos_iff.mpr ⟨w, hw, by simp⟩
  have honce := h.once w.conn
  omega

theorem exclusive_initial : Exclusive initial :=
  ⟨by simp [initial, State.workersOf], by simp [initial, State.workersOf],
    by simp [initial, Acceptor.inHand]⟩

/-- The steps of the accept loop that touch no connection. -/
def separate : Action → Bool
  | .reject _ | .finish _ | .panic _ => false
  | _ => true

theorem Exclusive.unique {s : State} (h : Exclusive s) {v w : Worker} (hv : v ∈ s.workers)
    (hw : w ∈ s.workers) (hconn : v.conn = w.conn) : v = w := by
  have hone : (s.workers.filter fun u => u.conn = w.conn).length ≤ 1 := by
    rw [← List.countP_eq_length_filter]
    exact Nat.le_of_add_right_le (h.once w.conn)
  have hv' : v ∈ s.workers.filter fun u => u.conn = w.conn := by simp [hv, hconn]
  have hw' : w ∈ s.workers.filter fun u => u.conn = w.conn := by simp [hw]
  generalize s.workers.filter (fun u => u.conn = w.conn) = l at hone hv' hw'
  cases l with
  | nil => cases hv'
  | cons u l =>
    obtain rfl : l = [] := by simpa using hone
    exact (List.mem_singleton.mp hv').trans (List.mem_singleton.mp hw').symm

theorem mem_of_advance {s t : State} {i : ℕ} {p q : Phase} (h : s.advance i p q = some t)
    {w : Worker} (hw : w ∈ t.workers) :
    w ∈ s.workers ∨ ∃ v ∈ s.workers, s.workers[i]? = some v ∧ v.phase = p ∧
      w = { v with phase := q } := by
  obtain ⟨hi, hp, rfl⟩ := advance_eq_some.mp h
  rcases List.mem_or_eq_of_mem_set hw with hmem | rfl
  · exact .inl hmem
  · exact .inr ⟨_, List.getElem_mem hi, by simp, hp, rfl⟩

theorem mem_after_advance {s t : State} {i : ℕ} {p q : Phase} (h : s.advance i p q = some t)
    {w : Worker} (hw : s.workers[i]? = some w) : { w with phase := q } ∈ t.workers := by
  obtain ⟨hi, hp, rfl⟩ := advance_eq_some.mp h
  obtain ⟨-, rfl⟩ := List.getElem?_eq_some_iff.mp hw
  exact List.mem_set hi _

/-- Where the workers after a separate step come from. -/
theorem separate_step {maxClients : Option Usize} {s t : State} {a : Action} (ha : separate a)
    (hstep : step maxClients s a = some t) :
    t.rejected = s.rejected ∧ (∀ c, s.workersOf c ≤ t.workersOf c) ∧
      ∀ w ∈ t.workers, w ∈ s.workers ∨ w.phase = .spawned ∧ s.acceptor.inHand = some w.conn ∨
        ∃ v ∈ s.workers, v.conn = w.conn ∧
          (v.phase = .spawned ∧ w.phase = .serving ∨ v.phase = .served ∧ w.phase = .exited) := by
  cases Step.of_step hstep with
  | accept | acceptError | checkPath | atCap | belowCap | noCap | fetchAdd | refused =>
    exact ⟨rfl, fun _ => Nat.le_refl _, fun w hw => .inl hw⟩
  | reject c panics hacc => cases ha
  | finish i _ ht => cases ha
  | panic i _ ht => cases ha
  | spawn c hacc =>
    refine ⟨rfl, fun d => by simp [State.workersOf], fun w hw => ?_⟩
    rcases List.mem_append.mp hw with hmem | hnew
    · exact .inl hmem
    · rw [List.mem_singleton.mp hnew]
      exact .inr (.inl ⟨rfl, by simp [hacc, Acceptor.inHand]⟩)
  | start i _ ht =>
    obtain ⟨-, -, -, hr, hw, -⟩ := advance_counts ht
    refine ⟨hr, fun d => (hw d).ge, fun w hmem => ?_⟩
    rcases mem_of_advance ht hmem with hold | ⟨v, hv, -, hp, rfl⟩
    · exact .inl hold
    · exact .inr (.inr ⟨v, hv, rfl, .inl ⟨hp, rfl⟩⟩)
  | fetchSub i u hu =>
    obtain ⟨-, -, -, hr, hw, -⟩ := advance_counts hu
    refine ⟨hr, fun d => (hw d).ge, fun w hmem => ?_⟩
    rcases mem_of_advance hu hmem with hold | ⟨v, hv, -, hp, rfl⟩
    · exact .inl hold
    · exact .inr (.inr ⟨v, hv, rfl, .inr ⟨hp, rfl⟩⟩)

end AcceptLoop

namespace Session

structure Stream where
  peerUid : Option ℕ
  input : StdIo.Reader
  output : StdIo.Writer

def Connection.new (stream : Stream) (maxFrame : ℕ) : Connection :=
  ⟨stream.peerUid, stream.input, stream.output, maxFrame⟩

end Session

open Session StdIo SharedDaemon.Frame

/-- What `Server` and `serve_listener` hold, but for the listener and its path. -/
structure Server (S : Type) where
  daemon : Daemon S
  maxClients : Option AcceptLoop.Usize
  maxFrame : ℕ

namespace Server

variable {S : Type}

/-- The accept loop, and the session of every connection, by its number. -/
structure State (S : Type) where
  control : AcceptLoop.State
  peers : ℕ → Peer S

/-- A step of the accept loop by itself, the `Busy` hook, a step of the session a worker
has, to its end or to a panic behind the first `k` events, or the end of its `handle_conn`. -/
inductive Action (S : Type)
  | control (a : AcceptLoop.Action)
  | reject (s : S) (panics : Option ℕ)
  | serve (worker conn : ℕ) (s : S)
  | panic (worker conn : ℕ) (s : S) (k : ℕ)
  | finish (worker : ℕ)

def step (srv : Server S) (st : State S) : Action S → Option (State S)
  | .control a =>
    if AcceptLoop.separate a then
      (AcceptLoop.step srv.maxClients st.control a).map fun control =>
        { st with control := control }
    else none
  | .reject s panics =>
    match st.control.acceptor with
    | .rejecting n =>
      let p := st.peers n
      let x := p.take .closed (srv.daemon.hooks.callReject s .busy p.conn)
      (AcceptLoop.step srv.maxClients st.control (.reject panics.isSome)).map fun control =>
        ⟨control, Function.update st.peers n (p.reached x.1 panics)⟩
    | _ => none
  | .serve i n s =>
    if st.control.workers[i]? = some ⟨n, .serving⟩ then
      (srv.daemon.advance (st.peers n) s).map fun x =>
        { st with peers := Function.update st.peers n x.1 }
    else none
  | .panic i n s k =>
    if st.control.workers[i]? = some ⟨n, .serving⟩ then
      (srv.daemon.advance (st.peers n) s).bind fun x =>
        (AcceptLoop.step srv.maxClients st.control (.panic i)).map fun control =>
          ⟨control, Function.update st.peers n ((st.peers n).cut x.1 k)⟩
    else none
  | .finish i =>
    match st.control.workers[i]? with
    | some w =>
      if (st.peers w.conn).stage = .closed then
        (AcceptLoop.step srv.maxClients st.control (.finish i)).map fun control =>
          { st with control := control }
      else none
    | none => none

def conn (srv : Server S) (streams : ℕ → Stream) (n : ℕ) : Connection :=
  .new (streams n) srv.maxFrame

def start (srv : Server S) (streams : ℕ → Stream) : State S :=
  ⟨AcceptLoop.initial, fun n => .new (srv.conn streams n)⟩

def system (srv : Server S) (streams : ℕ → Stream) : TransitionSystem (State S) (Action S) where
  init st := st = srv.start streams
  step := srv.step

inductive Step (srv : Server S) (st : State S) : Action S → State S → Prop
  | control (a : AcceptLoop.Action) (control : AcceptLoop.State) (ha : AcceptLoop.separate a)
      (h : AcceptLoop.step srv.maxClients st.control a = some control) :
      Step srv st (.control a) { st with control := control }
  | reject (n : ℕ) (s : S) (panics : Option ℕ) (h : st.control.acceptor = .rejecting n) :
      Step srv st (.reject s panics)
        ⟨{ st.control with
            acceptor := if panics.isSome then .hookPanicked else .accepting
            rejected := n :: st.control.rejected },
          Function.update st.peers n
            ((st.peers n).reached ((st.peers n).take .closed
              (srv.daemon.hooks.callReject s .busy (st.peers n).conn)).1 panics)⟩
  | serve (i n : ℕ) (s : S) (x : Peer S × S) (hw : st.control.workers[i]? = some ⟨n, .serving⟩)
      (h : srv.daemon.advance (st.peers n) s = some x) :
      Step srv st (.serve i n s) { st with peers := Function.update st.peers n x.1 }
  | panic (i n : ℕ) (s : S) (x : Peer S × S) (k : ℕ) (control : AcceptLoop.State)
      (hw : st.control.workers[i]? = some ⟨n, .serving⟩)
      (hx : srv.daemon.advance (st.peers n) s = some x)
      (h : AcceptLoop.step srv.maxClients st.control (.panic i) = some control) :
      Step srv st (.panic i n s k)
        ⟨control, Function.update st.peers n ((st.peers n).cut x.1 k)⟩
  | finish (i : ℕ) (w : AcceptLoop.Worker) (control : AcceptLoop.State)
      (hw : st.control.workers[i]? = some w) (hclosed : (st.peers w.conn).stage = .closed)
      (h : AcceptLoop.step srv.maxClients st.control (.finish i) = some control) :
      Step srv st (.finish i) { st with control := control }

theorem Step.of_step {srv : Server S} {st st' : State S} {a : Action S}
    (h : srv.step st a = some st') : Step srv st a st' := by
  cases a with
  | control a =>
    simp only [step] at h
    split at h
    · rename_i ha
      obtain ⟨control, hcontrol, rfl⟩ := Option.map_eq_some_iff.mp h
      exact .control a control ha hcontrol
    · cases h
  | reject s panics =>
    simp only [step] at h
    split at h
    · rename_i n hacc
      obtain ⟨control, hcontrol, rfl⟩ := Option.map_eq_some_iff.mp h
      simp only [AcceptLoop.step, hacc] at hcontrol
      obtain rfl := Option.some.inj hcontrol
      exact .reject n s panics hacc
    · cases h
  | serve i n s =>
    simp only [step] at h
    split at h
    · rename_i hw
      obtain ⟨x, hx, rfl⟩ := Option.map_eq_some_iff.mp h
      exact .serve i n s x hw hx
    · cases h
  | panic i n s k =>
    simp only [step] at h
    split at h
    · rename_i hw
      obtain ⟨x, hx, hpanic⟩ := Option.bind_eq_some_iff.mp h
      obtain ⟨control, hcontrol, rfl⟩ := Option.map_eq_some_iff.mp hpanic
      exact .panic i n s x k control hw hx hcontrol
    · cases h
  | finish i =>
    simp only [step] at h
    split at h
    · rename_i w hw
      split at h
      · rename_i hclosed
        obtain ⟨control, hcontrol, rfl⟩ := Option.map_eq_some_iff.mp h
        exact .finish i w control hw hclosed hcontrol
      · cases h
    · cases h

/-- The accept loop does not see what the sessions are about. -/
theorem reachable_control {srv : Server S} {streams : ℕ → Stream} {st : State S}
    (h : (srv.system streams).Reachable st) :
    (AcceptLoop.server srv.maxClients).Reachable st.control := by
  refine h.project State.control ?_ fun st a st' _ hstep => ?_
  · rintro st rfl
    rfl
  · cases Step.of_step hstep with
    | control a control ha h => exact .inr ⟨a, trivial, h⟩
    | reject n s panics hacc =>
      exact .inr ⟨.reject panics.isSome, trivial, by
        simp [AcceptLoop.server, AcceptLoop.step, hacc]⟩
    | serve i n s x hw h => exact .inl rfl
    | panic i n s x k control hw hx h => exact .inr ⟨.panic i, trivial, h⟩
    | finish i w control hw hclosed h => exact .inr ⟨.finish i, trivial, h⟩

variable {srv : Server S} {streams : ℕ → Stream} {st st' : State S}

/-- What a worker's phase says of the session of its connection. -/
def Suits (c : Connection) (p : Peer S) : AcceptLoop.Phase → Prop
  | .spawned => p = .new c
  | .serving => p.stage ≠ .panicked
  | .served | .exited => p.stage = .closed
  | .panicked => p.stage = .panicked

/-- The sessions are where the accept loop and the workers have brought them. -/
structure Paired (srv : Server S) (streams : ℕ → Stream) (st : State S) : Prop where
  exclusive : AcceptLoop.Exclusive st.control
  untouched : ∀ n, st.control.workersOf n + st.control.rejected.count n = 0 →
    st.peers n = .new (srv.conn streams n)
  told : ∀ n ∈ st.control.rejected, (st.peers n).stage.over
  workers : ∀ w ∈ st.control.workers, Suits (srv.conn streams w.conn) (st.peers w.conn) w.phase

/-- What becomes of the session of one worker leaves the others as they are. -/
theorem Paired.of_other (h : Paired srv streams st) {w : AcceptLoop.Worker}
    (hw : w ∈ st.control.workers) (x : Peer S) {n : ℕ} :
    (st.control.workersOf n + st.control.rejected.count n = 0 →
        Function.update st.peers w.conn x n = .new (srv.conn streams n)) ∧
      (n ∈ st.control.rejected → (Function.update st.peers w.conn x n).stage.over) := by
  refine ⟨fun hn => ?_, fun hn => ?_⟩
  · have hconn : 0 < st.control.workersOf w.conn := List.countP_pos_iff.mpr ⟨w, hw, by simp⟩
    have hne : n ≠ w.conn := by
      rintro rfl
      omega
    simpa [hne] using h.untouched n hn
  · have hne : n ≠ w.conn := by
      rintro rfl
      exact h.exclusive.not_rejected hw hn
    simpa [hne] using h.told n hn

theorem paired_step (h : Paired srv streams st) {a : Action S} (hstep : srv.step st a = some st') :
    Paired srv streams st' := by
  cases Step.of_step hstep with
  | control a control ha hcontrol =>
    obtain ⟨hr, hcount, hworkers⟩ := AcceptLoop.separate_step ha hcontrol
    refine ⟨AcceptLoop.exclusive_step h.exclusive hcontrol, fun n hn => ?_,
      fun n hn => h.told n (hr ▸ hn), fun w hw => ?_⟩
    · apply h.untouched
      have hle := hcount n
      simp only [hr] at hn
      omega
    · rcases hworkers w hw with hold | ⟨hphase, hhand⟩ | ⟨v, hv, hconn, hphases⟩
      · exact h.workers w hold
      · rw [hphase]
        exact h.untouched _ (h.exclusive.undecided _ (.inr hhand))
      have hsuits := h.workers v hv
      rcases hphases with ⟨hspawned, hphase⟩ | ⟨hserved, hphase⟩
      · rw [hspawned, hconn] at hsuits
        rw [hphase, hsuits]
        simp [Suits, Peer.new]
      · rw [hserved, hconn] at hsuits
        rw [hphase]
        exact hsuits
  | reject n s panics hacc =>
    have hcontrol : AcceptLoop.step srv.maxClients st.control (.reject panics.isSome) =
        some { st.control with
          acceptor := if panics.isSome then .hookPanicked else .accepting
          rejected := n :: st.control.rejected } := by
      simp [AcceptLoop.step, hacc]
    have hnone := h.exclusive.undecided n (.inr (by simp [hacc, AcceptLoop.Acceptor.inHand]))
    refine ⟨AcceptLoop.exclusive_step h.exclusive hcontrol, fun m hm => ?_, fun m hm => ?_,
      fun w hw => ?_⟩
    · have hne : m ≠ n := by
        rintro rfl
        simp at hm
      have hold : st.control.workersOf m + st.control.rejected.count m = 0 := by
        simpa [List.count_cons, hne.symm, AcceptLoop.State.workersOf] using hm
      simpa [hne] using h.untouched m hold
    · by_cases hmn : m = n
      · subst hmn
        cases panics <;> simp [Peer.reached, Peer.take, Peer.cut, Stage.over]
      · simpa [hmn] using h.told m (by simpa [hmn] using hm)
    · have hne : w.conn ≠ n := by
        rintro rfl
        have hpos : 0 < st.control.workersOf w.conn := List.countP_pos_iff.mpr ⟨w, hw, by simp⟩
        omega
      simpa [hne] using h.workers w hw
  | serve i n s x hget hx =>
    have hw := List.mem_of_getElem? hget
    refine ⟨h.exclusive, fun m hm => (h.of_other hw x.1).1 hm,
      fun m hm => (h.of_other hw x.1).2 hm, fun v hv => ?_⟩
    by_cases hvn : v.conn = n
    · rw [h.exclusive.unique hv hw hvn]
      simpa [Suits] using stage_of_advance hx
    · simpa [hvn] using h.workers v hv
  | panic i n s x k control hget hx hcontrol =>
    obtain ⟨-, -, -, hr, hcount, -⟩ := AcceptLoop.advance_counts hcontrol
    have hw := List.mem_of_getElem? hget
    have hexclusive : AcceptLoop.Exclusive control :=
      AcceptLoop.exclusive_step h.exclusive hcontrol
    have hother (m : ℕ) := h.of_other hw ((st.peers n).cut x.1 k) (n := m)
    refine ⟨hexclusive, fun m hm => (hother m).1 ?_, fun m hm => (hother m).2 (hr ▸ hm),
      fun v hv => ?_⟩
    · simpa only [hr, hcount] using hm
    · by_cases hvn : v.conn = n
      · rw [hexclusive.unique hv (AcceptLoop.mem_after_advance hcontrol hget) hvn]
        simp [Suits, Peer.cut]
      · rcases AcceptLoop.mem_of_advance hcontrol hv with hold | ⟨u, hu, hi, hphase, rfl⟩
        · simpa [hvn] using h.workers v hold
        · obtain rfl := Option.some.inj (hget.symm.trans hi)
          exact absurd rfl hvn
  | finish i w control hw hclosed hcontrol =>
    obtain ⟨-, -, -, hr, hcount, -⟩ := AcceptLoop.advance_counts hcontrol
    refine ⟨AcceptLoop.exclusive_step h.exclusive hcontrol, fun n hn => ?_,
      fun n hn => h.told n (hr ▸ hn), fun v hv => ?_⟩
    · simp only [hr, hcount] at hn
      exact h.untouched n hn
    · rcases AcceptLoop.mem_of_advance hcontrol hv with hold | ⟨u, hu, hi, hphase, rfl⟩
      · exact h.workers v hold
      · obtain rfl := Option.some.inj (hw.symm.trans hi)
        simp only
        split <;> exact hclosed

theorem paired_reachable (h : (srv.system streams).Reachable st) : Paired srv streams st := by
  refine h.invariant (I := Paired srv streams) ?_ fun _ _ _ hI _ hstep => paired_step hI hstep
  rintro st rfl
  exact ⟨AcceptLoop.exclusive_initial, fun _ _ => rfl, by simp [start, AcceptLoop.initial],
    by simp [start, AcceptLoop.initial]⟩

/-- A session under way has a serving worker. -/
theorem Paired.serving (h : Paired srv streams st) {n : ℕ} (hn : (st.peers n).stage.underWay) :
    ∃ w ∈ st.control.workers, w.conn = n ∧ w.phase = .serving := by
  have hover : (st.peers n).stage.over = false := by
    cases hstage : (st.peers n).stage <;> simp [hstage, Stage.underWay] at hn ⊢ <;> rfl
  have hnew : st.peers n ≠ .new (srv.conn streams n) := by
    intro hpeer
    simp [hpeer, Peer.new, Stage.underWay] at hn
  have hrejected : st.control.rejected.count n = 0 :=
    List.count_eq_zero.mpr fun hmem => by simp [h.told n hmem] at hover
  have hpos : 0 < st.control.workersOf n := by
    by_contra hzero
    exact hnew (h.untouched n (by omega))
  obtain ⟨w, hw, hconn⟩ := List.countP_pos_iff.mp hpos
  obtain rfl : w.conn = n := by simpa using hconn
  refine ⟨w, hw, rfl, ?_⟩
  have hsuits := h.workers w hw
  cases hphase : w.phase with
  | serving => rfl
  | spawned =>
    rw [hphase] at hsuits
    exact absurd hsuits hnew
  | served | exited | panicked =>
    rw [hphase] at hsuits
    have hstage : (st.peers w.conn).stage = _ := hsuits
    rw [hstage] at hover
    cases hover

theorem sessions_under_way_le_cap (srv : Server S) (streams : ℕ → Stream) (st : State S)
    (h : (srv.system streams).Reachable st) (m : AcceptLoop.Usize) (hm : srv.maxClients = some m)
    (ns : List ℕ) (hns : ns.Nodup) (hunder : ∀ n ∈ ns, (st.peers n).stage.underWay) :
    ns.length ≤ m.val := by
  have hcontrol := reachable_control h
  rw [hm] at hcontrol
  have hcounted := AcceptLoop.counted_reachable hcontrol
  have hsub : ns ⊆ (st.control.workers.filter fun w => w.phase = .serving).map (·.conn) := by
    intro n hn
    obtain ⟨w, hw, hconn, hphase⟩ := (paired_reachable h).serving (hunder n hn)
    exact List.mem_map.mpr ⟨w, List.mem_filter.mpr ⟨hw, by simpa using hphase⟩, hconn⟩
  have hle := (List.subperm_of_subset hns hsub).length_le
  rw [List.length_map, ← List.countP_eq_length_filter] at hle
  calc ns.length ≤ st.control.inPhase .serving := hle
    _ ≤ st.control.holding := AcceptLoop.inPhase_le_holding _ (by decide)
    _ ≤ st.control.clients.val := by rw [hcounted.exact]; omega
    _ ≤ m.val := hcounted.capped

end Server
end SharedDaemon
