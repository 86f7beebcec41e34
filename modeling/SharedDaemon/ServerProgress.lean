import SharedDaemon.Isolation
import SharedDaemon.Overload
import Mathlib.Algebra.BigOperators.Group.Finset.Basic
import Mathlib.Algebra.Group.Fin.Basic
import Mathlib.Algebra.Order.BigOperators.Group.Finset

/-!
# The server gets its work done

Without new connections every schedule comes to an end, in a bounded number of steps and
with all sessions over; and a client for whom there is room can be served at once. A stream
ends at some point: reads and writes that block for ever are not in the model.
-/

namespace SharedDaemon

namespace Session

open StdIo

variable {S : Type}

/-- A bound on the steps a session still takes. -/
def Peer.remaining (p : Peer S) : ℕ :=
  match p.stage with
  | .accepted => (bytes p.conn.input).length + 3
  | .opened => (bytes p.conn.input).length + 2
  | .failed _ => 1
  | .closed | .panicked => 0

theorem remaining_advance {d : Daemon S} {p : Peer S} {s : S} {x : Peer S × S}
    (h : d.advance p s = some x) : x.1.remaining < p.remaining := by
  obtain ⟨stage, c, log⟩ := p
  cases stage with
  | accepted =>
    simp only [Daemon.advance] at h
    split at h
    · obtain rfl := Option.some.inj h
      simp [Peer.remaining]
    · obtain rfl := Option.some.inj h
      simp [Peer.remaining, Peer.take]
  | opened =>
    obtain rfl := Option.some.inj h
    rcases hresult : (d.dispatchOne s c).result with e | _
    · have hstage : d.stageAfter (.error e) = .closed ∨ d.stageAfter (.error e) = .failed e := by
        cases hmode : d.session <;> cases hquiet : endsQuietly e <;>
          simp [Daemon.stageAfter, hmode, hquiet]
      rcases hstage with hstage | hstage <;> simp [Peer.remaining, Peer.take, hstage]
    · have hlt := bytes_of_dispatchOne hresult
      cases hmode : d.session with
      | oneShot => simp [Peer.remaining, Peer.take, Daemon.stageAfter, hmode]
      | persistent =>
        simpa [Peer.remaining, Peer.take, Daemon.stageAfter, hresult, hmode] using hlt
  | failed e =>
    obtain rfl := Option.some.inj h
    simp [Peer.remaining, Peer.take]
  | closed | panicked => cases h

theorem exists_advance (d : Daemon S) (s : S) {p : Peer S} (hp : p.stage.over = false) :
    ∃ x, d.advance p s = some x := by
  obtain ⟨stage, c, log⟩ := p
  cases stage with
  | accepted =>
    simp only [Daemon.advance]
    split <;> exact ⟨_, rfl⟩
  | opened | failed e => exact ⟨_, rfl⟩
  | closed | panicked => cases hp

end Session

namespace AcceptLoop

/-- A bound on the steps the accepting thread takes, and its next worker starts, before it
waits for a connection. -/
def Acceptor.remaining : Acceptor → ℕ
  | .accepted _ => 7
  | .admitting _ => 6
  | .spawning _ => 5
  | .rejecting _ | .acceptFailed => 1
  | .accepting | .ended | .spawnPanicked _ | .hookPanicked => 0

/-- A bound on the steps of the workers outside their sessions. -/
def State.pending (s : State) : ℕ :=
  3 * s.inPhase .spawned + 2 * s.inPhase .serving + s.inPhase .served

theorem pending_advance {s t : State} {i : ℕ} {p q : Phase} (h : s.advance i p q = some t) :
    (p = .spawned ∧ q = .serving ∨ p = .serving ∧ (q = .served ∨ q = .exited ∨ q = .panicked) ∨
      p = .served ∧ q = .exited) → t.pending < s.pending := by
  obtain ⟨_, h₁⟩ := countP_advance (fun w => w.phase = .spawned) h
  obtain ⟨_, h₂⟩ := countP_advance (fun w => w.phase = .serving) h
  obtain ⟨_, h₃⟩ := countP_advance (fun w => w.phase = .served) h
  unfold State.pending State.inPhase
  rintro (⟨rfl, rfl⟩ | ⟨rfl, rfl | rfl | rfl⟩ | ⟨rfl, rfl⟩)
  all_goals
    simp at h₁ h₂ h₃
    omega

/-- Actions of the listener: they bring the accepting thread back to work. -/
def fromListener : Action → Bool
  | .accept | .acceptError => true
  | _ => false

theorem remaining_step {maxClients : Option Usize} {s t : State} {a : Action} (ha : separate a)
    (hquiet : fromListener a = false) (h : step maxClients s a = some t) :
    t.acceptor.remaining + t.pending < s.acceptor.remaining + s.pending ∧
      t.accepted = s.accepted := by
  cases Step.of_step h with
  | accept | acceptError => cases hquiet
  | reject | finish | panic => cases ha
  | checkPath pathExists hacc =>
    cases pathExists <;> simp [Acceptor.remaining, hacc, State.pending, State.inPhase]
  | atCap c max hacc | belowCap c max hacc | noCap c hacc | fetchAdd c hacc | refused c hacc =>
    simp [Acceptor.remaining, hacc, State.pending, State.inPhase]
  | spawn c hacc =>
    simp [Acceptor.remaining, hacc, State.pending, State.inPhase]
    omega
  | start i _ ht =>
    have hlt := pending_advance ht (.inl ⟨rfl, rfl⟩)
    obtain ⟨ha, -, hacc, -⟩ := advance_counts ht
    exact ⟨by rw [ha]; omega, hacc⟩
  | fetchSub i u hu =>
    have hlt : u.pending < s.pending := pending_advance hu (.inr (.inr ⟨rfl, rfl⟩))
    obtain ⟨ha, -, hacc, -⟩ := advance_counts hu
    refine ⟨?_, hacc⟩
    change u.acceptor.remaining + u.pending < _
    rw [ha]
    omega

theorem admit_run (maxClients : Option Usize) (s : State) (hacc : s.acceptor = .accepting)
    (hroom : ∀ m, maxClients = some m → s.clients < m) :
    ∃ as, (∀ a ∈ as, separate a) ∧ (server maxClients).run s as = some { s with
      accepted := s.accepted + 1
      clients := if maxClients.isSome then s.clients + 1 else s.clients
      workers := s.workers ++ [⟨s.accepted, .serving⟩] } := by
  cases maxClients with
  | none =>
    refine ⟨[.accept, .checkCap, .spawn true, .start s.workers.length], by simp [separate], ?_⟩
    simp [TransitionSystem.run, server, step, State.advance, hacc]
  | some m =>
    have hbelow := hroom m rfl
    refine ⟨[.accept, .checkCap, .fetchAdd, .spawn true, .start s.workers.length],
      by simp [separate], ?_⟩
    simp [TransitionSystem.run, server, step, State.advance, hacc, Fin.not_le.mpr hbelow]

end AcceptLoop

namespace Server

open Session TransitionSystem

variable {S : Type} {srv : Server S} {streams : ℕ → Stream} {st st' : State S}

def Action.fromListener : Action S → Bool
  | .control a => AcceptLoop.fromListener a
  | _ => false

/-- A bound on the steps to come until the listener has something new. -/
def State.remaining (st : State S) : ℕ :=
  st.control.acceptor.remaining + st.control.pending +
    (Finset.range st.control.accepted).sum fun n => (st.peers n).remaining

theorem sum_remaining_update (peers : ℕ → Peer S) {n accepted : ℕ} (hn : n < accepted)
    (p : Peer S) (k : ℕ) (hp : p.remaining + k ≤ (peers n).remaining) :
    ((Finset.range accepted).sum fun m => (Function.update peers n p m).remaining) + k ≤
      (Finset.range accepted).sum fun m => (peers m).remaining := by
  have hmem : n ∈ Finset.range accepted := Finset.mem_range.mpr hn
  rw [← Finset.sum_erase_add _ _ hmem, ← Finset.sum_erase_add _ (fun m => (peers m).remaining) hmem]
  have hrest :
      ((Finset.range accepted).erase n).sum (fun m => (Function.update peers n p m).remaining) =
        ((Finset.range accepted).erase n).sum fun m => (peers m).remaining := by
    refine Finset.sum_congr rfl fun m hm => ?_
    rw [Function.update_of_ne (Finset.ne_of_mem_erase hm)]
  rw [hrest, Function.update_self]
  omega

theorem Paired.accepted_of_worker (h : Paired srv streams st) {w : AcceptLoop.Worker}
    (hw : w ∈ st.control.workers) : w.conn < st.control.accepted := by
  by_contra hle
  have hnone := h.exclusive.undecided w.conn (.inl (Nat.not_lt.mp hle))
  have hpos : 0 < st.control.workersOf w.conn := List.countP_pos_iff.mpr ⟨w, hw, by simp⟩
  omega

theorem step_remaining (h : Paired srv streams st) {a : Action S} (ha : a.fromListener = false)
    (hstep : srv.step st a = some st') : st'.remaining < st.remaining := by
  cases Step.of_step hstep with
  | control b control hb hcontrol =>
    obtain ⟨hlt, hacc⟩ := AcceptLoop.remaining_step hb ha hcontrol
    simp only [State.remaining, hacc]
    omega
  | reject n s panics hacc =>
    have hlt : n < st.control.accepted :=
      h.exclusive.inHand_lt n (by simp [hacc, AcceptLoop.Acceptor.inHand])
    have hsum := sum_remaining_update st.peers hlt ((st.peers n).reached ((st.peers n).take .closed
      (srv.daemon.hooks.callReject s .busy (st.peers n).conn)).1 panics) 0
      (by cases panics <;> simp [Peer.remaining, Peer.reached, Peer.cut, Peer.take])
    have hover : (if panics.isSome then AcceptLoop.Acceptor.hookPanicked else .accepting).remaining
        = 0 := by
      cases panics <;> rfl
    have hrejecting : st.control.acceptor.remaining = 1 := by rw [hacc, AcceptLoop.Acceptor.remaining]
    simp only [State.remaining, hover, hrejecting, AcceptLoop.State.pending,
      AcceptLoop.State.inPhase]
    omega
  | serve i n s x hw hx =>
    have hlt : n < st.control.accepted := h.accepted_of_worker (List.mem_of_getElem? hw)
    have hsum := sum_remaining_update st.peers hlt x.1 1 (remaining_advance hx)
    simp only [State.remaining]
    omega
  | panic i n s x k control hw hx hcontrol =>
    have hlt : n < st.control.accepted := h.accepted_of_worker (List.mem_of_getElem? hw)
    have hsum := sum_remaining_update st.peers hlt ((st.peers n).cut x.1 k) 0 (Nat.zero_le _)
    have hpending : control.pending < st.control.pending :=
      AcceptLoop.pending_advance hcontrol (.inr (.inl ⟨rfl, .inr (.inr rfl)⟩))
    obtain ⟨hacceptor, -, hacc, -⟩ := AcceptLoop.advance_counts hcontrol
    simp only [State.remaining, hacceptor, hacc]
    omega
  | finish i w control hw hclosed hcontrol =>
    have hlt : control.pending < st.control.pending :=
      AcceptLoop.pending_advance hcontrol (.inr (.inl ⟨rfl, by
        cases srv.maxClients <;> simp⟩))
    obtain ⟨hacceptor, -, hacc, -⟩ := AcceptLoop.advance_counts hcontrol
    simp only [State.remaining, hacceptor, hacc]
    omega

def Busy (srv : Server S) (st : State S) : Prop :=
  ∃ a, Action.fromListener a = false ∧ (srv.step st a).isSome

theorem busy_of_control {a : AcceptLoop.Action} (ha : AcceptLoop.separate a)
    (hlistener : AcceptLoop.fromListener a = false)
    (hstep : (AcceptLoop.step srv.maxClients st.control a).isSome) : Busy srv st :=
  ⟨.control a, hlistener, by simp [step, ha, hstep]⟩

theorem busy_of_worker (h : Paired srv streams st) {w : AcceptLoop.Worker}
    (hw : w ∈ st.control.workers) (hphase : w.phase ≠ .exited) (hsound : w.phase ≠ .panicked)
    (s : S) : Busy srv st := by
  obtain ⟨i, hi, hiw⟩ := List.getElem_of_mem hw
  have hget : st.control.workers[i]? = some w := hiw ▸ List.getElem?_eq_getElem hi
  have hsuits := h.workers w hw
  cases hp : w.phase with
  | spawned =>
    exact busy_of_control (a := .start i) rfl rfl
      (by simp [AcceptLoop.step, AcceptLoop.State.advance, hget, hp])
  | serving =>
    by_cases hclosed : (st.peers w.conn).stage = .closed
    · exact ⟨.finish i, rfl, by
        simp [step, AcceptLoop.step, AcceptLoop.State.advance, hget, hp, hclosed]⟩
    · have hover : (st.peers w.conn).stage.over = false := by
        rw [hp] at hsuits
        cases hstage : (st.peers w.conn).stage with
        | closed => exact absurd hstage hclosed
        | panicked => exact absurd hstage hsuits
        | accepted | opened | failed => rfl
      obtain ⟨x, hx⟩ := exists_advance srv.daemon s hover
      have hserving : st.control.workers[i]? = some ⟨w.conn, .serving⟩ := by rw [hget, ← hp]
      exact ⟨.serve i w.conn s, rfl, by simp [step, hserving, hx]⟩
  | served =>
    exact busy_of_control (a := .fetchSub i) rfl rfl
      (by simp [AcceptLoop.step, AcceptLoop.State.advance, hget, hp])
  | exited => exact absurd hp hphase
  | panicked => exact absurd hp hsound

theorem busy_of_acceptor (hrunning : st.control.acceptor.running)
    (hbusy : st.control.acceptor ≠ .accepting) (s : S) : Busy srv st := by
  cases hacc : st.control.acceptor with
  | accepting => exact absurd hacc hbusy
  | accepted c =>
    refine busy_of_control (a := .checkCap) rfl rfl ?_
    cases hmax : srv.maxClients <;> simp [AcceptLoop.step, hacc]
  | rejecting c => exact ⟨.reject s none, rfl, by simp [step, AcceptLoop.step, hacc]⟩
  | admitting c => exact busy_of_control (a := .fetchAdd) rfl rfl (by simp [AcceptLoop.step, hacc])
  | spawning c =>
    exact busy_of_control (a := .spawn true) rfl rfl (by simp [AcceptLoop.step, hacc])
  | acceptFailed =>
    exact busy_of_control (a := .checkPath true) rfl rfl (by simp [AcceptLoop.step, hacc])
  | ended | spawnPanicked | hookPanicked => simp [hacc, AcceptLoop.Acceptor.running] at hrunning

/-- While the listener is silent the server makes a bounded number of steps, whatever their
order. When none is left every worker is gone, by its return or by a panic, and no session is
under way; the accept loop waits, unless it had been left, and the slots that are not free
are those of the panics. -/
theorem server_drains (srv : Server S) (streams : ℕ → Stream) (st : State S)
    (h : (srv.system streams).Reachable st) [Nonempty S] :
    (∀ acts st', (∀ a ∈ acts, a.fromListener = false) →
        (srv.system streams).run st acts = some st' → acts.length ≤ st.remaining) ∧
      ((∀ a, a.fromListener = false → srv.step st a = none) →
        (∀ w ∈ st.control.workers, w.phase = .exited ∨ w.phase = .panicked) ∧
        (∀ n, (st.peers n).stage.underWay = false) ∧
        (st.control.acceptor.running → st.control.acceptor = .accepting ∧
          ∀ m, srv.maxClients = some m →
            st.control.clients.val = st.control.inPhase .panicked)) := by
  have hpaired := paired_reachable h
  obtain ⟨s⟩ := ‹Nonempty S›
  constructor
  · intro acts st' hacts hrun
    have hle := length_le_of_measure (I := Paired srv streams) State.remaining
      (fun st a st' ha hI hstep => ⟨paired_step hI hstep, step_remaining hI (hacts a ha) hstep⟩)
      hpaired hrun
    omega
  · intro hquiet
    have hidle : ¬ Busy srv st := by
      rintro ⟨a, ha, hstep⟩
      simp [hquiet a ha] at hstep
    have hworkers (w : AcceptLoop.Worker) (hw : w ∈ st.control.workers) :
        w.phase = .exited ∨ w.phase = .panicked := by
      by_contra hphase
      rw [not_or] at hphase
      exact hidle (busy_of_worker hpaired hw hphase.1 hphase.2 s)
    refine ⟨hworkers, fun n => ?_, fun hrunning => ?_⟩
    · by_contra hunder
      obtain ⟨w, hw, -, hserving⟩ := hpaired.serving (by simpa using hunder)
      have hphase := hworkers w hw
      simp [hserving] at hphase
    · have hacc : st.control.acceptor = .accepting := by
        by_contra hbusy
        exact hidle (busy_of_acceptor hrunning hbusy s)
      refine ⟨hacc, fun m hm => ?_⟩
      have hcontrol := reachable_control h
      rw [hm] at hcontrol
      have hexact := (AcceptLoop.counted_reachable hcontrol).exact
      have hholding : st.control.holding = st.control.inPhase .panicked := by
        refine List.countP_congr fun w hw => ?_
        rcases hworkers w hw with hphase | hphase <;> simp [hphase]
      rw [hholding, hacc] at hexact
      exact hexact

def twoVisits : List (Action ℕ) :=
  [.control .accept, .control .checkCap, .control .fetchAdd, .control (.spawn true),
    .control .accept, .control .checkCap, .control .fetchAdd, .control (.spawn true)]

theorem server_drains_visitors :
    ∃ st, (guestbook.system visitors).Reachable st ∧ st.remaining = 52 ∧
      ∀ acts st', (∀ a ∈ acts, a.fromListener = false) →
        (guestbook.system visitors).run st acts = some st' → acts.length ≤ 52 := by
  have hrun : ((guestbook.system visitors).run
      (guestbook.start visitors) twoVisits).map State.remaining = some 52 := by
    decide +kernel
  obtain ⟨st, hst, hremaining⟩ := Option.map_eq_some_iff.mp hrun
  have hreach : (guestbook.system visitors).Reachable st :=
    .run (.init rfl) (fun _ _ _ => trivial) hst
  have h := (server_drains guestbook visitors st hreach).1
  exact ⟨st, hreach, hremaining, hremaining ▸ h⟩

/-- Steps of the accept loop by itself are steps of the server. -/
theorem control_run {as : List AcceptLoop.Action} {control : AcceptLoop.State}
    (has : ∀ a ∈ as, AcceptLoop.separate a)
    (hrun : (AcceptLoop.server srv.maxClients).run st.control as = some control) :
    (srv.system streams).run st (as.map .control) = some { st with control := control } := by
  induction as generalizing st with
  | nil =>
    obtain rfl := Option.some.inj hrun
    rfl
  | cons a as ih =>
    obtain ⟨t, ht, hrest⟩ := run_cons_eq_some.mp hrun
    have hstep : srv.step st (.control a) = some { st with control := t } := by
      change AcceptLoop.step srv.maxClients st.control a = some t at ht
      simp [step, has a (by simp), ht]
    exact run_cons_eq_some.mpr ⟨_, hstep, ih (fun b hb => has b (by simp [hb])) hrest⟩

theorem serve_run {control : AcceptLoop.State} {peers : ℕ → Peer S} {i n : ℕ}
    (hw : control.workers[i]? = some ⟨n, .serving⟩) {k : ℕ} {s s' : S} {p : Peer S}
    (hrun : (alone srv.daemon).run (peers n, s) (List.replicate k ()) = some (p, s')) :
    ∃ acts, (srv.system streams).run ⟨control, peers⟩ acts =
      some ⟨control, Function.update peers n p⟩ := by
  induction k generalizing peers s with
  | zero =>
    obtain ⟨rfl, rfl⟩ := Prod.mk.inj (Option.some.inj hrun)
    exact ⟨[], by simp⟩
  | succ k ih =>
    obtain ⟨⟨p₁, s₁⟩, hadvance, hrest⟩ := run_cons_eq_some.mp hrun
    have hstep : srv.step ⟨control, peers⟩ (.serve i n s) =
        some ⟨control, Function.update peers n p₁⟩ := by
      change srv.daemon.advance (peers n) s = some (p₁, s₁) at hadvance
      simp [step, hw, hadvance]
    have hserved : (alone srv.daemon).run (Function.update peers n p₁ n, s₁)
        (List.replicate k ()) = some (p, s') := by rwa [Function.update_self]
    obtain ⟨acts, hacts⟩ := ih hserved
    exact ⟨.serve i n s :: acts, run_cons_eq_some.mpr ⟨_, hstep, by simpa using hacts⟩⟩

theorem leave_run {workers : List AcceptLoop.Worker} {n : ℕ}
    (hworkers : st.control.workers = workers ++ [⟨n, .serving⟩])
    (hclosed : (st.peers n).stage = .closed) :
    ∃ acts, (srv.system streams).run st acts = some { st with
      control := { st.control with
        clients := if srv.maxClients.isSome then st.control.clients - 1 else st.control.clients
        workers := workers ++ [⟨n, .exited⟩] } } := by
  cases hmax : srv.maxClients with
  | none =>
    refine ⟨[.finish workers.length], ?_⟩
    simp [TransitionSystem.run, system, step, AcceptLoop.step, AcceptLoop.State.advance, hworkers,
      hclosed, hmax]
  | some m =>
    refine ⟨[.finish workers.length, .control (.fetchSub workers.length)], ?_⟩
    simp [TransitionSystem.run, system, step, AcceptLoop.step, AcceptLoop.State.advance, hworkers,
      hclosed, hmax, AcceptLoop.separate]

/-- When the accept loop waits and has room, its next client can be served at once: the
session is the one `handle_conn` has on its own, and nothing else changes, wherever the
other sessions stand. -/
theorem next_client_served (srv : Server S) (streams : ℕ → Stream) (st : State S)
    (h : (srv.system streams).Reachable st) (hacc : st.control.acceptor = .accepting)
    (hroom : ∀ m, srv.maxClients = some m → st.control.clients < m) (s : S) :
    let n := st.control.accepted
    let y := srv.daemon.handleConn s (srv.conn streams n)
    ∃ acts, (srv.system streams).run st acts = some
      ⟨{ st.control with accepted := n + 1, workers := st.control.workers ++ [⟨n, .exited⟩] },
        Function.update st.peers n ⟨.closed, y.conn, y.log⟩⟩ := by
  intro n y
  have hpaired := paired_reachable h
  have hnew : st.peers n = .new (srv.conn streams n) :=
    hpaired.untouched n (hpaired.exclusive.undecided n (.inl (Nat.le_refl n)))
  obtain ⟨k, hk⟩ := ends_handleConn srv.daemon s (srv.conn streams n) []
  obtain ⟨as, has, hadmit⟩ := AcceptLoop.admit_run srv.maxClients st.control hacc hroom
  let during : AcceptLoop.State := { st.control with
    accepted := n + 1
    clients := if srv.maxClients.isSome then st.control.clients + 1 else st.control.clients
    workers := st.control.workers ++ [⟨n, .serving⟩] }
  have hadmitted : (srv.system streams).run st (as.map .control) = some ⟨during, st.peers⟩ :=
    control_run has hadmit
  have hlast : during.workers[st.control.workers.length]? = some ⟨n, .serving⟩ := by simp [during]
  let after : ℕ → Peer S := Function.update st.peers n ⟨.closed, y.conn, y.log⟩
  have halone : (alone srv.daemon).run (st.peers n, s) (List.replicate k ()) =
      some (⟨.closed, y.conn, y.log⟩, y.state) := by
    rw [hnew]
    exact hk
  have hserved : ∃ bs, (srv.system streams).run ⟨during, st.peers⟩ bs = some ⟨during, after⟩ :=
    serve_run hlast halone
  have hclosed : (after n).stage = .closed := by simp [after]
  obtain ⟨bs, hserved⟩ := hserved
  obtain ⟨cs, hleft⟩ : ∃ cs, (srv.system streams).run ⟨during, after⟩ cs = some _ :=
    leave_run rfl hclosed
  refine ⟨as.map .control ++ (bs ++ cs), run_trans hadmitted (run_trans hserved ?_)⟩
  rw [hleft]
  cases hmax : srv.maxClients <;> simp [during, after, hmax]

/-- While the first visitor is being served there is room for one more, who is turned away. -/
theorem next_client_served_visitors :
    ∃ st acts, st.control = ⟨.accepting, 1, 1, [⟨0, .serving⟩], []⟩ ∧
      (guestbook.system visitors).run st acts = some
        ⟨⟨.accepting, 1, 2, [⟨0, .serving⟩, ⟨1, .exited⟩], []⟩, Function.update st.peers 1
          ⟨.closed, (greeter.handleConn 5 (guestbook.conn visitors 1)).conn,
            (greeter.handleConn 5 (guestbook.conn visitors 1)).log⟩⟩ := by
  have hrun : ((guestbook.system visitors).run
      (guestbook.start visitors) [.control .accept, .control .checkCap, .control .fetchAdd,
        .control (.spawn true), .control (.start 0)]).map State.control =
      some ⟨.accepting, 1, 1, [⟨0, .serving⟩], []⟩ := by
    decide +kernel
  obtain ⟨st, hst, hcontrol⟩ := Option.map_eq_some_iff.mp hrun
  have hreach : (guestbook.system visitors).Reachable st :=
    .run (.init rfl) (fun _ _ _ => trivial) hst
  have hroom (m : AcceptLoop.Usize) (hm : guestbook.maxClients = some m) :
      st.control.clients < m := by
    obtain rfl : (2 : AcceptLoop.Usize) = m := Option.some.inj hm
    rw [hcontrol]
    decide
  obtain ⟨acts, hacts⟩ := next_client_served guestbook visitors st hreach (by rw [hcontrol]) hroom 5
  simp only [hcontrol] at hacts
  exact ⟨st, acts, hcontrol, hacts⟩

end Server
end SharedDaemon
