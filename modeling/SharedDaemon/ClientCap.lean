import SharedDaemon.AcceptLoop

/-!
# What the client counter guarantees

The counter equals the number of workers that still owe a `fetch_sub`, plus the
connection between `fetch_add` and `thread::spawn`. Everything about the cap follows
from that equation.
-/

namespace SharedDaemon
namespace AcceptLoop

open TransitionSystem

/-- The counter is exact, and below the cap whenever a `fetch_add` is due. -/
structure Counted (m : Usize) (s : State) : Prop where
  exact : s.clients.val = s.holding + s.acceptor.unspawned
  capped : s.clients ≤ m
  room : ∀ c, s.acceptor = .admitting c → s.clients < m

theorem counted_initial (m : Usize) : Counted m initial :=
  ⟨rfl, Fin.zero_le m, by simp [initial]⟩

theorem Counted.of_acceptor {m : Usize} {s t : State} (h : Counted m s)
    (hc : t.clients = s.clients) (hw : t.workers = s.workers)
    (hu : t.acceptor.unspawned = s.acceptor.unspawned)
    (hr : ∀ c, t.acceptor = .admitting c → s.clients < m) : Counted m t := by
  refine ⟨?_, hc ▸ h.capped, fun c ht => hc ▸ hr c ht⟩
  rw [hc, hu, h.exact, State.holding, State.holding, hw]

theorem Counted.of_advance {m : Usize} {s t : State} {i : ℕ} {p q : Phase} (h : Counted m s)
    (ht : s.advance i p q = some t) (hp : p ≠ .exited) (hq : q ≠ .exited) : Counted m t := by
  obtain ⟨hacc, hcl, -, -, -, hhold⟩ := advance_counts ht
  have he : t.holding = s.holding := by simpa [hp, hq] using hhold
  refine ⟨?_, hcl ▸ h.capped, fun c hc => hcl ▸ h.room c (hacc ▸ hc)⟩
  rw [hcl, hacc, he]
  exact h.exact

theorem Counted.fetchAdd {m : Usize} {s : State} (h : Counted m s) {c : ℕ}
    (hacc : s.acceptor = .admitting c) :
    Counted m { s with acceptor := .spawning c, clients := s.clients + 1 } := by
  have hroom : s.clients.val < m.val := h.room c hacc
  have hval : (s.clients + 1).val = s.clients.val + 1 :=
    Fin.val_add_one_of_lt (Fin.lt_def.mpr (by have := m.isLt; simp [Fin.last]; omega))
  have hexact := h.exact
  rw [hacc] at hexact
  refine ⟨?_, Fin.le_def.mpr (by rw [hval]; omega), by simp⟩
  rw [hval, hexact]
  rfl

theorem Counted.pos_of_served {m : Usize} {s t : State} {i : ℕ} (h : Counted m s)
    (ht : s.advance i .served .exited = some t) : 0 < s.clients.val := by
  obtain ⟨-, -, -, -, -, hhold⟩ := advance_counts ht
  have hexact := h.exact
  simp at hhold
  omega

theorem Counted.fetchSub {m : Usize} {s t : State} {i : ℕ} (h : Counted m s)
    (ht : s.advance i .served .exited = some t) :
    Counted m { t with clients := t.clients - 1 } := by
  have hpos := h.pos_of_served ht
  obtain ⟨hacc, hcl, -, -, -, hhold⟩ := advance_counts ht
  have hval : (t.clients - 1).val = s.clients.val - 1 := by
    rw [hcl, Fin.sub_val_of_le (show (1 : Usize) ≤ s.clients from hpos)]
    rfl
  have hexact := h.exact
  have hcap : s.clients.val ≤ m.val := h.capped
  refine ⟨?_, Fin.le_def.mpr (by rw [hval]; omega), fun c hc => ?_⟩
  · rw [hval]
    change _ = t.holding + t.acceptor.unspawned
    rw [hacc]
    simp at hhold
    omega
  · have hroom : s.clients.val < m.val := h.room c (hacc ▸ hc)
    exact Fin.lt_def.mpr (by rw [hval]; omega)

theorem counted_step {m : Usize} {s t : State} {a : Action} (h : Counted m s)
    (hstep : step (some m) s a = some t) : Counted m t := by
  cases Step.of_step hstep with
  | accept hacc => exact h.of_acceptor rfl rfl (by simp [hacc, Acceptor.unspawned]) (by simp)
  | acceptError hacc => exact h.of_acceptor rfl rfl (by simp [hacc, Acceptor.unspawned]) (by simp)
  | checkPath pathExists hacc =>
    cases pathExists <;>
      exact h.of_acceptor rfl rfl (by simp [hacc, Acceptor.unspawned]) (by simp)
  | atCap c max hacc hmax hcap =>
    exact h.of_acceptor rfl rfl (by simp [hacc, Acceptor.unspawned]) (by simp)
  | belowCap c max hacc hmax hcap =>
    obtain rfl := Option.some.inj hmax
    exact h.of_acceptor rfl rfl (by simp [hacc, Acceptor.unspawned]) (fun _ _ => hcap)
  | noCap c hacc hmax => cases hmax
  | reject c panics hacc =>
    cases panics <;>
      exact h.of_acceptor rfl rfl (by simp [hacc, Acceptor.unspawned]) (by simp)
  | fetchAdd c hacc => exact h.fetchAdd hacc
  | spawn c hacc =>
    have hexact := h.exact
    refine ⟨?_, h.capped, by simp⟩
    simpa [State.holding, hacc, Acceptor.unspawned] using hexact
  | refused c hacc => exact h.of_acceptor rfl rfl (by simp [hacc, Acceptor.unspawned]) (by simp)
  | start i _ ht => exact h.of_advance ht (by decide) (by decide)
  | finish i _ ht => exact h.of_advance ht (by decide) (by simp)
  | panic i _ ht => exact h.of_advance ht (by decide) (by decide)
  | fetchSub i u hu => exact h.fetchSub hu

theorem counted_reachable {m : Usize} {s : State} (h : (server (some m)).Reachable s) :
    Counted m s := by
  refine h.invariant (I := Counted m) ?_ fun _ _ _ hI _ hstep => counted_step hI hstep
  rintro s rfl
  exact counted_initial m

/-- Each accepted connection but the one in hand has one worker or one rejection. -/
structure Accounted (s : State) : Prop where
  fate : ∀ c < s.accepted,
    s.workersOf c + s.rejected.count c = if s.acceptor.inHand = some c then 0 else 1
  fresh : ∀ c, s.accepted ≤ c → s.workersOf c = 0 ∧ s.rejected.count c = 0
  inHand_lt : ∀ c, s.acceptor.inHand = some c → c < s.accepted

/-- Every thread the accept loop asks for is created. -/
def ThreadsCreated (_ : State) (a : Action) : Prop := a ≠ .spawn false

theorem accounted_initial : Accounted initial :=
  ⟨by simp [initial], by simp [initial, State.workersOf], by simp [initial, Acceptor.inHand]⟩

theorem Accounted.of_acceptor {s t : State} (h : Accounted s) (hacc : t.accepted = s.accepted)
    (hw : t.workers = s.workers) (hr : t.rejected = s.rejected)
    (hi : t.acceptor.inHand = s.acceptor.inHand) : Accounted t := by
  have hof (c : ℕ) : t.workersOf c = s.workersOf c := by
    rw [State.workersOf, State.workersOf, hw]
  refine ⟨fun c hc => ?_, fun c hc => ?_, fun c hc => ?_⟩
  · rw [hof, hr, hi]
    exact h.fate c (hacc ▸ hc)
  · rw [hof, hr]
    exact h.fresh c (hacc ▸ hc)
  · rw [hacc]
    exact h.inHand_lt c (hi ▸ hc)

theorem Accounted.of_advance {s t : State} {i : ℕ} {p q : Phase} (h : Accounted s)
    (ht : s.advance i p q = some t) : Accounted t := by
  obtain ⟨ha, -, hacc, hr, hof, -⟩ := advance_counts ht
  refine ⟨fun c hc => ?_, fun c hc => ?_, fun c hc => ?_⟩
  · rw [hof, hr, ha]
    exact h.fate c (hacc ▸ hc)
  · rw [hof, hr]
    exact h.fresh c (hacc ▸ hc)
  · rw [hacc]
    exact h.inHand_lt c (ha ▸ hc)

theorem Accounted.accept {s : State} (h : Accounted s) (hacc : s.acceptor = .accepting) :
    Accounted { s with acceptor := .accepted s.accepted, accepted := s.accepted + 1 } := by
  refine ⟨fun c hc => ?_, fun c hc => h.fresh c (by simp at hc; omega), fun c hc => ?_⟩
  · change s.workersOf c + s.rejected.count c = if some s.accepted = some c then 0 else 1
    by_cases hlast : s.accepted = c
    · obtain ⟨hw, hr⟩ := h.fresh c hlast.le
      simp [hlast, hw, hr]
    · have hlt : c < s.accepted := by simp at hc; omega
      have hfate := h.fate c hlt
      simp only [hacc, Acceptor.inHand] at hfate
      simpa [hlast] using hfate
  · have he : s.accepted = c := Option.some.inj hc
    simp
    omega

/-- Deciding on the connection in hand gives it its one fate. -/
theorem Accounted.decide {s t : State} (h : Accounted s) {c : ℕ}
    (hs : s.acceptor.inHand = some c) (ht : t.acceptor.inHand = none)
    (hacc : t.accepted = s.accepted)
    (hcount : ∀ d, t.workersOf d + t.rejected.count d =
      s.workersOf d + s.rejected.count d + if c = d then 1 else 0) : Accounted t := by
  have hc := h.inHand_lt c hs
  refine ⟨fun d hd => ?_, fun d hd => ?_, fun d hd => by simp [ht] at hd⟩
  · have hfate := h.fate d (hacc ▸ hd)
    rw [hcount, hfate, hs, ht]
    by_cases hcd : c = d <;> simp [hcd]
  · have hfresh := h.fresh d (hacc ▸ hd)
    have hsum := hcount d
    rw [if_neg (by omega)] at hsum
    omega

theorem accounted_step {maxClients : Option Usize} {s t : State} {a : Action}
    (h : Accounted s) (hthread : ThreadsCreated s a) (hstep : step maxClients s a = some t) :
    Accounted t := by
  cases Step.of_step hstep with
  | accept hacc => exact h.accept hacc
  | acceptError hacc => exact h.of_acceptor rfl rfl rfl (by simp [hacc, Acceptor.inHand])
  | checkPath pathExists hacc =>
    cases pathExists <;> exact h.of_acceptor rfl rfl rfl (by simp [hacc, Acceptor.inHand])
  | atCap c max hacc _ _ | belowCap c max hacc _ _ | noCap c hacc _ | fetchAdd c hacc =>
    exact h.of_acceptor rfl rfl rfl (by simp [hacc, Acceptor.inHand])
  | reject c panics hacc =>
    refine h.decide (c := c) (by simp [hacc, Acceptor.inHand]) ?_ rfl fun d => ?_
    · cases panics <;> rfl
    · simp [State.workersOf, List.count_cons, Nat.add_assoc]
  | spawn c hacc =>
    refine h.decide (c := c) (by simp [hacc, Acceptor.inHand]) rfl rfl fun d => ?_
    simp [State.workersOf, List.countP_cons, Nat.add_right_comm]
  | refused c hacc => exact absurd rfl hthread
  | start i _ ht | finish i _ ht | panic i _ ht => exact h.of_advance ht
  | fetchSub i u hu =>
    exact (h.of_advance hu).of_acceptor rfl rfl rfl rfl

theorem accounted_reachable {maxClients : Option Usize} {s : State}
    (h : (server maxClients).ReachableUnder ThreadsCreated s) : Accounted s := by
  refine h.invariant (I := Accounted) ?_ fun _ _ _ hI hC hstep => accounted_step hI hC hstep
  rintro s rfl
  exact accounted_initial

theorem inPhase_le_holding (s : State) {p : Phase} (hp : p ≠ .exited) :
    s.inPhase p ≤ s.holding :=
  List.countP_mono_left fun w _ hw => by
    simp only [decide_eq_true_eq] at hw ⊢
    exact hw ▸ hp

/-- With a cap `m`, sessions, counter and cap stay in order, the counter never wraps,
and a connection gets a worker or a `Busy` rejection, once. -/
theorem client_cap_safety (m : Usize) (s : State)
    (h : (server (some m)).ReachableUnder ThreadsCreated s) :
    s.inPhase .serving ≤ s.clients.val ∧ s.clients ≤ m ∧
      (∀ i t, step (some m) s (.fetchSub i) = some t → 0 < s.clients.val) ∧
      ∀ c < s.accepted,
        s.workersOf c + s.rejected.count c = if s.acceptor.inHand = some c then 0 else 1 := by
  have hc := counted_reachable h.reachable
  refine ⟨?_, hc.capped, fun i t hstep => ?_, (accounted_reachable h).fate⟩
  · have hle := inPhase_le_holding s (p := .serving) (by decide)
    have hexact := hc.exact
    omega
  · obtain ⟨u, hu, -⟩ := Option.map_eq_some_iff.mp hstep
    exact hc.pos_of_served hu

/-- A cap of one: the first client is being served, the second was told `Busy`. -/
def oneServedOneBusy : State := ⟨.accepting, 1, 2, [⟨0, .serving⟩], [1]⟩

theorem oneServedOneBusy_reachable :
    (server (some 1)).ReachableUnder ThreadsCreated oneServedOneBusy :=
  ReachableUnder.run (.init rfl) (by simp [ThreadsCreated])
    (show (server (some 1)).run initial [.accept, .checkCap, .fetchAdd, .spawn true, .start 0,
      .accept, .checkCap, .reject false] = some oneServedOneBusy by decide +kernel)

theorem client_cap_safety_oneServedOneBusy :
    oneServedOneBusy.inPhase .serving ≤ oneServedOneBusy.clients.val ∧
      oneServedOneBusy.clients ≤ 1 ∧
      ∀ c < 2, oneServedOneBusy.workersOf c + oneServedOneBusy.rejected.count c = 1 := by
  have h := client_cap_safety 1 oneServedOneBusy oneServedOneBusy_reachable
  exact ⟨h.1, h.2.1, fun c hc => h.2.2.2 c hc⟩

def NoPanic (_ : State) (a : Action) : Prop := ∀ i, a ≠ .panic i

/-- An idle server counts nobody, and `Busy` means `m` workers were alive. -/
structure SlotsReturned (m : Usize) (s : State) : Prop where
  idle : s.acceptor = .accepting → s.alive = 0 → s.clients = 0
  busy : ∀ t c, step (some m) s .checkCap = some t → t.acceptor = .rejecting c →
    m.val ≤ s.alive

theorem holding_eq_alive_add_panicked (s : State) :
    s.holding = s.alive + s.inPhase .panicked := by
  unfold State.holding State.alive State.inPhase
  induction s.workers with
  | nil => rfl
  | cons w ws ih =>
    rw [List.countP_cons, List.countP_cons, List.countP_cons, ih]
    cases hp : w.phase <;> simp <;> omega

theorem panicked_step {m : Usize} {s t : State} {a : Action} (h : s.inPhase .panicked = 0)
    (hp : NoPanic s a) (hstep : step (some m) s a = some t) : t.inPhase .panicked = 0 := by
  have hkeep {i : ℕ} {u : State} {p q : Phase} (hu : s.advance i p q = some u)
      (hq : q ≠ .panicked) : u.inPhase .panicked = 0 := by
    obtain ⟨_, hcount⟩ := countP_advance (fun w => w.phase = .panicked) hu
    simp only [State.inPhase] at h ⊢
    simp [hq] at hcount
    omega
  cases Step.of_step hstep with
  | accept | acceptError | checkPath | atCap | belowCap | noCap | reject | fetchAdd | refused =>
    exact h
  | spawn c hacc => simpa [State.inPhase] using h
  | start i _ ht => exact hkeep ht (by decide)
  | finish i _ ht => exact hkeep ht (by simp)
  | panic i _ ht => exact absurd rfl (hp i)
  | fetchSub i u hu =>
    change u.inPhase .panicked = 0
    exact hkeep hu (by decide)

theorem panicked_reachable {m : Usize} {s : State}
    (h : (server (some m)).ReachableUnder NoPanic s) : s.inPhase .panicked = 0 := by
  refine h.invariant (I := fun s => s.inPhase .panicked = 0) ?_
    fun _ _ _ hI ha hstep => panicked_step hI ha hstep
  rintro s rfl
  rfl

/-- At rest the counter is the number of sessions that ever panicked. -/
theorem clients_eq_panicked {m : Usize} {s : State} (h : (server (some m)).Reachable s)
    (hacc : s.acceptor = .accepting) (halive : s.alive = 0) :
    s.clients.val = s.inPhase .panicked := by
  have hexact := (counted_reachable h).exact
  rw [holding_eq_alive_add_panicked, halive, hacc] at hexact
  simpa [Acceptor.unspawned] using hexact

theorem slotsReturned_of_no_panicked {m : Usize} {s : State}
    (h : (server (some m)).Reachable s) (hp : s.inPhase .panicked = 0) : SlotsReturned m s := by
  constructor
  · intro hacc halive
    apply Fin.ext
    rw [clients_eq_panicked h hacc halive, hp]
    rfl
  · intro t c hstep ht
    have hexact := (counted_reachable h).exact
    rw [holding_eq_alive_add_panicked, hp] at hexact
    cases Step.of_step hstep with
    | atCap d max hacc hmax hcap =>
      obtain rfl := Option.some.inj hmax
      have hle : m.val ≤ s.clients.val := hcap
      rw [hacc] at hexact
      simp only [Acceptor.unspawned] at hexact
      omega
    | belowCap => cases ht
    | noCap => cases ht

/-- Runs without a panic give every slot back; and at rest after any other run the
counter is zero exactly when no session ever panicked. -/
theorem slots_returned (m : Usize) :
    (∀ s, (server (some m)).ReachableUnder NoPanic s → SlotsReturned m s) ∧
    ∀ s, (server (some m)).Reachable s → s.acceptor = .accepting → s.alive = 0 →
      (s.clients = 0 ↔ s.inPhase .panicked = 0) := by
  constructor
  · intro s h
    exact slotsReturned_of_no_panicked h.reachable (panicked_reachable h)
  · intro s h hacc halive
    rw [← clients_eq_panicked h hacc halive]
    exact Fin.ext_iff

def cameAndWent : State := ⟨.accepting, 0, 1, [⟨0, .exited⟩], []⟩

theorem slots_returned_cameAndWent : SlotsReturned 1 cameAndWent := by
  have hrun : (server (some 1)).run initial [.accept, .checkCap, .fetchAdd, .spawn true,
      .start 0, .finish 0, .fetchSub 0] = some cameAndWent := by decide +kernel
  exact (slots_returned 1).1 cameAndWent
    (.run (.init rfl) (by simp [NoPanic]) hrun)

def leakedSlot : State := ⟨.accepting, 1, 1, [⟨0, .panicked⟩], []⟩

/-- A panicking session keeps its slot: with no worker alive the counter is at the cap,
and the next connection is rejected as `Busy`. -/
theorem panic_leaks_slot :
    (server (some 1)).ReachableUnder ThreadsCreated leakedSlot ∧ leakedSlot.alive = 0 ∧
      leakedSlot.clients ≠ 0 ∧
      (server (some 1)).run leakedSlot [.accept, .checkCap] =
        some { leakedSlot with acceptor := .rejecting 1, accepted := 2 } := by
  have hrun : (server (some 1)).run initial [.accept, .checkCap, .fetchAdd, .spawn true,
      .start 0, .panic 0] = some leakedSlot := by decide +kernel
  exact ⟨.run (.init rfl) (by simp [ThreadsCreated]) hrun, by decide, by decide,
    by decide +kernel⟩

end AcceptLoop
end SharedDaemon
