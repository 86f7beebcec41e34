import SharedDaemon.SingletonBind
import Mathlib.Data.Nat.Bitwise

/-!
# Binding recovers from every cut attempt

Attempts come one after the other, each possibly cut by a fault or a crash, while
listeners are dropped and processes die at any time.
-/

namespace SharedDaemon
namespace SocketBind

open StdIo TransitionSystem

def Pc.remaining : Pc → ℕ
  | .connect _ => 7
  | .unlink _ => 6
  | .socketBind _ => 5
  | .listen _ _ => 4
  | .stat _ _ => 3
  | .chmod _ _ => 2
  | .chown _ _ _ _ => 1
  | .idle | .serving _ _ | .claimed | .failed _ | .dead => 0

def Pc.calling (pc : Pc) : Prop := 0 < pc.remaining

/-- The system call a process makes next, which the operating system lets through. -/
def Pc.syscall {P : Type*} (p : P) (peerPid : ℕ) : Pc → Option (Action P)
  | .connect _ => some (.connect p peerPid none)
  | .unlink _ => some (.unlink p none)
  | .socketBind _ => some (.socketBind p none)
  | .listen _ _ => some (.listen p none)
  | .stat _ _ => some (.stat p none)
  | .chmod _ _ => some (.chmod p none)
  | .chown _ _ _ _ => some (.chown p none)
  | .idle | .serving _ _ | .claimed | .failed _ | .dead => none

variable {P : Type*}

def Action.actor : Action P → P
  | .start p _ | .connect p _ _ | .unlink p _ | .socketBind p _ | .listen p _ | .stat p _
  | .chmod p _ | .chown p _ | .drop p | .crash p => p

def Action.fault : Action P → Option Fault
  | .start _ _ | .drop _ | .crash _ => none
  | .connect _ _ fault | .unlink _ fault | .socketBind _ fault | .listen _ fault | .stat _ fault
  | .chmod _ fault | .chown _ fault => fault

theorem remaining_orFail_le (opts : BindOptions) (next : Pc) (r : Except IoError Unit) :
    (opts.orFail next r).remaining ≤ next.remaining := by
  cases r with
  | error e => exact Nat.zero_le _
  | ok u => exact Nat.le_refl _

theorem remaining_proceed_le (c : Call) : c.proceed.remaining ≤ 5 := by
  cases c <;> simp [Call.proceed, Pc.remaining]

theorem remaining_afterConnect_le (c : Call) (r : Except IoError ℕ) :
    (c.afterConnect r).remaining ≤ 6 := by
  cases r with
  | ok pid => simp [Call.afterConnect, Pc.remaining]
  | error e =>
    simp only [Call.afterConnect]
    split <;> simp [Pc.remaining]

theorem remaining_afterUnlink_le (c : Call) (r : Except IoError Unit) :
    (c.afterUnlink r).remaining ≤ 5 := by
  cases r with
  | ok u => exact remaining_proceed_le c
  | error e =>
    simp only [Call.afterUnlink]
    split
    · exact remaining_proceed_le c
    · simp [Pc.remaining]

theorem remaining_afterChmod_le (opts : BindOptions) (i : ℕ) :
    (opts.afterChmod i).remaining ≤ 1 := by
  cases h : opts.chown <;> simp [BindOptions.afterChmod, h, Pc.remaining]

theorem remaining_afterChown (opts : BindOptions) (i : ℕ) (r : Except IoError Unit) :
    (opts.afterChown i r).remaining = 0 := by
  cases r <;> rfl

@[simp] theorem unlinked_pc (s : State P) (r : Except IoError Unit) :
    (s.unlinked r).pc = s.pc := by cases r <;> rfl

@[simp] theorem bound_pc (s : State P) (cred : P → Credentials) (p : P) (r : Except IoError Unit) :
    (s.bound cred p r).pc = s.pc := by cases r <;> rfl

variable [DecidableEq P] {cred : P → Credentials}

/-- The step moves its process only, and unless it starts a call leaves fewer system calls. -/
def Moves (s : State P) (a : Action P) (t : State P) : Prop :=
  (∀ q, q ≠ a.actor → t.pc q = s.pc q) ∧
    ((∃ p call, a = .start p call) ∨ (t.pc a.actor).remaining ≤ (s.pc a.actor).remaining - 1)

theorem moves_goto {s u : State P} {a : Action P} {pc : Pc} (hu : u.pc = s.pc)
    (hle : pc.remaining ≤ (s.pc a.actor).remaining - 1) : Moves s a (u.goto a.actor pc) := by
  refine ⟨fun q hq => by rw [goto_pc_of_ne _ _ hq, hu], .inr ?_⟩
  rw [goto_pc_self]
  exact hle

theorem moves_of_step {s t : State P} {a : Action P} (h : step cred s a = some t) :
    Moves s a t := by
  cases Step.of_step h with
  | start p call => exact ⟨fun q hq => goto_pc_of_ne _ _ hq, .inl ⟨p, call, rfl⟩⟩
  | crash | drop => exact moves_goto rfl (Nat.zero_le _)
  | connect p peerPid fault c hpc =>
    have hle := remaining_afterConnect_le c (answer fault (s.connectAnswer peerPid))
    exact moves_goto rfl (by rw [Action.actor, hpc]; exact hle)
  | unlink p fault c hpc =>
    have hle := remaining_afterUnlink_le c (answer fault (s.presentAnswer enoent))
    exact moves_goto (unlinked_pc s _) (by rw [Action.actor, hpc]; exact hle)
  | socketBind p fault opts hpc =>
    have hle := remaining_orFail_le opts (.listen opts s.nextIno) (answer fault s.bindAnswer)
    exact moves_goto (bound_pc s cred p _) (by rw [Action.actor, hpc]; exact hle)
  | listen p fault opts i hpc =>
    have hle := remaining_orFail_le opts (.stat opts i) (answer fault (.ok ()))
    exact moves_goto rfl (by rw [Action.actor, hpc]; exact hle)
  | stat p fault opts i hpc =>
    have hle := remaining_orFail_le opts (.chmod opts i) (answer fault (s.presentAnswer enoent))
    exact moves_goto rfl (by rw [Action.actor, hpc]; exact hle)
  | chmod p fault opts i hpc =>
    have hle := Nat.le_trans (remaining_orFail_le opts (opts.afterChmod i)
      (answer fault (s.presentAnswer enoent))) (remaining_afterChmod_le opts i)
    exact moves_goto (changed_pc s _ _) (by rw [Action.actor, hpc]; exact hle)
  | chown p fault opts i uid gid hpc =>
    have hle := Nat.le_of_eq (remaining_afterChown opts i (answer fault (s.presentAnswer nixEnoent)))
    exact moves_goto (changed_pc s _ _) (by rw [Action.actor, hpc]; exact hle)

/-- What goes on during a last attempt of `p`: its system calls, which are let through,
and others that drop their listener or die. -/
def Final (p : P) (a : Action P) : Prop :=
  (∃ peerPid pc, Pc.syscall p peerPid pc = some a) ∨ ∃ q, q ≠ p ∧ (a = .drop q ∨ a = .crash q)

theorem syscall_of_step {s t : State P} {a : Action P} {p : P} {peerPid : ℕ} {pc : Pc}
    (ha : pc.syscall p peerPid = some a) (hstep : step cred s a = some t) :
    (s.pc p).syscall p peerPid = some a := by
  cases pc with
  | idle | serving | claimed | failed | dead => cases ha
  | connect | unlink | socketBind | listen | stat | chmod | chown =>
    obtain rfl := Option.some.inj ha
    cases Step.of_step hstep
    rename_i hpc
    rw [hpc, Pc.syscall]

/-- A process in a call can make its next system call. -/
theorem exists_syscall (cred : P → Credentials) {s : State P} {p : P} (peerPid : ℕ)
    (h : (s.pc p).calling) :
    ∃ a t, (s.pc p).syscall p peerPid = some a ∧ step cred s a = some t ∧
      (t.pc p).remaining < (s.pc p).remaining := by
  have hstep : ∃ a t, (s.pc p).syscall p peerPid = some a ∧ step cred s a = some t ∧
      a.actor = p ∧ ∀ q call, a ≠ .start q call := by
    cases hpc : s.pc p with
    | idle | serving | claimed | failed | dead => simp [hpc, Pc.calling, Pc.remaining] at h
    | connect | unlink | socketBind | listen | stat | chmod | chown =>
      exact ⟨_, _, rfl, by simp only [step, hpc]; rfl, rfl, fun _ _ hstart => by cases hstart⟩
  obtain ⟨a, t, hsys, hstep, hactor, hnot⟩ := hstep
  rcases (moves_of_step hstep).2 with ⟨q, call, hstart⟩ | hle
  · exact absurd hstart (hnot q call)
  · rw [hactor] at hle
    unfold Pc.calling at h
    exact ⟨a, t, hsys, hstep, by omega⟩

theorem afterConnect_fault (c : Call) (f : Fault) :
    c.afterConnect (.error f.error) = .failed (.ioAt c.path f.error) := by
  simp [Call.afterConnect, isStaleSocketConnectError, f.foreign]

theorem afterUnlink_fault (c : Call) (f : Fault) :
    c.afterUnlink (.error f.error) = .failed (.ioAt c.path f.error) := by
  simp [Call.afterUnlink, f.foreign]

theorem failed_of_fault {s t : State P} {a : Action P} {f : Fault} (ha : a.fault = some f)
    (hstep : step cred s a = some t) : ∃ e, t.pc a.actor = .failed e := by
  cases Step.of_step hstep with
  | start | drop | crash => cases ha
  | connect p peerPid fault c hpc =>
    obtain rfl : fault = some f := ha
    simp only [answer, afterConnect_fault]
    exact ⟨_, goto_pc_self _ _ _⟩
  | unlink p fault c hpc =>
    obtain rfl : fault = some f := ha
    simp only [answer, afterUnlink_fault]
    exact ⟨_, goto_pc_self _ _ _⟩
  | socketBind p fault | listen p fault | stat p fault | chmod p fault | chown p fault =>
    obtain rfl : fault = some f := ha
    exact ⟨_, goto_pc_self _ _ _⟩

theorem syscall_of_fault_eq_none {s t : State P} {a : Action P} (ha : a.fault = none)
    (hstep : step cred s a = some t) :
    (∃ p call, a = .start p call) ∨ (∃ p, a = .drop p ∨ a = .crash p) ∨
      ∃ peerPid, (s.pc a.actor).syscall a.actor peerPid = some a := by
  cases Step.of_step hstep with
  | start p call => exact .inl ⟨p, call, rfl⟩
  | drop p => exact .inr (.inl ⟨p, .inl rfl⟩)
  | crash p => exact .inr (.inl ⟨p, .inr rfl⟩)
  | connect p peerPid fault c hpc =>
    obtain rfl : fault = none := ha
    exact .inr (.inr ⟨peerPid, by rw [Action.actor, hpc]; rfl⟩)
  | unlink p fault _ hpc | socketBind p fault _ hpc | listen p fault _ _ hpc
  | stat p fault _ _ hpc | chmod p fault _ _ hpc | chown p fault _ _ _ _ hpc =>
    obtain rfl : fault = none := ha
    exact .inr (.inr ⟨0, by rw [Action.actor, hpc]; rfl⟩)

theorem returns (cred : P → Credentials) {s : State P} (p : P) (peerPid : ℕ) :
    ∃ as t, (host cred).run s as = some t ∧ (∀ a ∈ as, Final p a) ∧
      as.length ≤ (s.pc p).remaining ∧ ¬ (t.pc p).calling := by
  induction hn : (s.pc p).remaining using Nat.strongRecOn generalizing s with
  | ind n ih =>
    by_cases hcalling : (s.pc p).calling
    · obtain ⟨a, u, hsys, hstep, hlt⟩ := exists_syscall cred peerPid hcalling
      obtain ⟨as, t, hrun, hfinal, hlen, ht⟩ := ih _ (hn ▸ hlt) rfl
      refine ⟨a :: as, t, run_cons_eq_some.mpr ⟨u, hstep, hrun⟩, ?_, ?_, ht⟩
      · intro b hb
        rcases List.mem_cons.mp hb with rfl | hb
        · exact .inl ⟨peerPid, s.pc p, hsys⟩
        · exact hfinal b hb
      · rw [List.length_cons]
        omega
    · exact ⟨[], s, rfl, by simp, Nat.zero_le _, hcalling⟩

/-- The inode is the attempt's own, fresh from its `bind`. -/
structure Inode.Made (cred : P → Credentials) (p : P) (n : Inode P) : Prop where
  binder : n.binder = some p
  mode : n.mode = 0o777 ^^^ (0o777 &&& (cred p).umask)
  owner : (n.uid, n.gid) = ((cred p).uid, (cred p).gid)

/-- What `bind` makes of the options' mode. -/
def BindOptions.modeLeft (opts : BindOptions) : ℕ :=
  match opts.chown with
  | some _ => clearSetId (opts.mode &&& 0o7777)
  | none => opts.mode &&& 0o7777

def BindOptions.ownerLeft (opts : BindOptions) (cred : Credentials) : ℕ × ℕ :=
  match opts.chown with
  | some (uid, gid) => (chownId uid cred.uid, chownId gid cred.gid)
  | none => (cred.uid, cred.gid)

/-- The inode is as a complete `bind` leaves it. -/
structure Inode.Left (cred : P → Credentials) (p : P) (opts : BindOptions) (n : Inode P) :
    Prop where
  binder : n.binder = some p
  mode : n.mode = opts.modeLeft
  owner : (n.uid, n.gid) = opts.ownerLeft (cred p)

/-- A `chown`, if there is one, that sets both ids and finds no bit to clear. -/
def BindOptions.Keeps (opts : BindOptions) : Prop :=
  match opts.chown with
  | some (uid, gid) =>
    uid ≠ noId ∧ gid ≠ noId ∧ opts.mode.testBit 11 = false ∧
      (opts.mode.testBit 10 && opts.mode.testBit 3) = false
  | none => True

theorem testBit_clearSetId (mode : ℕ) {i : ℕ} (hi : i < 10) :
    (clearSetId mode).testBit i = mode.testBit i := by
  have h₁ : (2 ^ 10 - 1).testBit i = true := by
    rw [Nat.testBit_two_pow_sub_one]
    exact decide_eq_true hi
  have h₃ : (2 ^ 11 - 1).testBit i = true := by
    rw [Nat.testBit_two_pow_sub_one]
    exact decide_eq_true (Nat.lt_succ_of_lt hi)
  unfold clearSetId
  split
  · exact (Nat.testBit_land _ _ _).trans ((congrArg _ h₁).trans (Bool.and_true _))
  · exact (Nat.testBit_land _ _ _).trans ((congrArg _ h₃).trans (Bool.and_true _))

/-- How far an attempt that found no live peer has come. -/
inductive Progress (cred : P → Credentials) (p : P) (opts : BindOptions) (s : State P) : Prop
  | unlink (h : s.pc p = .unlink (.bind opts))
  | socketBind (h : s.pc p = .socketBind opts) (hpath : s.path = none)
  | listen (n : Inode P) (h : s.pc p = .listen opts n.ino) (hpath : s.path = some n)
      (hn : n.Made cred p)
  | stat (n : Inode P) (h : s.pc p = .stat opts n.ino) (hpath : s.path = some n)
      (hn : n.Made cred p)
  | chmod (n : Inode P) (h : s.pc p = .chmod opts n.ino) (hpath : s.path = some n)
      (hn : n.Made cred p)
  | chown (n : Inode P) (uid gid : ℕ) (h : s.pc p = .chown opts n.ino uid gid)
      (hpath : s.path = some n) (hn : n.binder = some p) (hmode : n.mode = opts.mode &&& 0o7777)
      (hmade : (n.uid, n.gid) = ((cred p).uid, (cred p).gid)) (howner : opts.chown = some (uid, gid))
  | serving (n : Inode P) (h : s.pc p = .serving opts n.ino) (hpath : s.path = some n)
      (hn : n.Left cred p opts)

omit [DecidableEq P] in
theorem Progress.congr {s t : State P} {p : P} {opts : BindOptions} (h : Progress cred p opts s)
    (hpc : t.pc p = s.pc p) (hpath : t.path = s.path) : Progress cred p opts t := by
  cases h with
  | unlink h => exact .unlink (hpc.trans h)
  | socketBind h hs => exact .socketBind (hpc.trans h) (hpath.trans hs)
  | listen n h hs hn => exact .listen n (hpc.trans h) (hpath.trans hs) hn
  | stat n h hs hn => exact .stat n (hpc.trans h) (hpath.trans hs) hn
  | chmod n h hs hn => exact .chmod n (hpc.trans h) (hpath.trans hs) hn
  | chown n uid gid h hs hn hmode hmade howner =>
    exact .chown n uid gid (hpc.trans h) (hpath.trans hs) hn hmode hmade howner
  | serving n h hs hn => exact .serving n (hpc.trans h) (hpath.trans hs) hn

theorem Progress.of_chmod {s : State P} {p : P} {opts : BindOptions} {n : Inode P}
    (hpath : s.path = some n) (hn : n.Made cred p) :
    Progress cred p opts
      ((s.changed (Inode.chmod opts.mode) (.ok ())).goto p (opts.afterChmod n.ino)) := by
  have hpath' : ((s.changed (Inode.chmod opts.mode) (.ok ())).goto p (opts.afterChmod n.ino)).path =
      some (n.chmod opts.mode) := by simp [State.changed, hpath]
  cases howner : opts.chown with
  | none =>
    have hmode : opts.modeLeft = opts.mode &&& 0o7777 := by simp [BindOptions.modeLeft, howner]
    have hleft : opts.ownerLeft (cred p) = ((cred p).uid, (cred p).gid) := by
      simp [BindOptions.ownerLeft, howner]
    refine .serving (n.chmod opts.mode) ?_ hpath' ⟨hn.binder, hmode.symm, hleft ▸ hn.owner⟩
    simp [BindOptions.afterChmod, howner, Inode.chmod]
  | some owner =>
    refine .chown (n.chmod opts.mode) owner.1 owner.2 ?_ hpath' hn.binder rfl hn.owner howner
    simp [BindOptions.afterChmod, howner, Inode.chmod]

theorem other_step {s t : State P} {a : Action P} {p q : P} (hqp : q ≠ p)
    (ha : a = .drop q ∨ a = .crash q) (hstep : step cred s a = some t) :
    t.pc p = s.pc p ∧ t.path = s.path := by
  rcases ha with rfl | rfl <;> cases Step.of_step hstep <;>
    exact ⟨goto_pc_of_ne s _ (Ne.symm hqp), rfl⟩

/-- Every system call of the attempt takes it further. -/
theorem progress_step {s t : State P} {a : Action P} {p : P} {opts : BindOptions}
    (h : Progress cred p opts s) (ha : Final p a) (hstep : step cred s a = some t) :
    Progress cred p opts t := by
  rcases ha with ⟨peerPid, pc, ha⟩ | ⟨q, hqp, ha⟩
  · have hsys := syscall_of_step ha hstep
    cases h with
    | unlink h =>
      rw [h] at hsys
      obtain rfl := Option.some.inj hsys
      simp only [step, h, answer] at hstep
      obtain rfl := Option.some.inj hstep
      cases hpath : s.path with
      | none =>
        have hnone : s.presentAnswer enoent = .error enoent := by simp [State.presentAnswer, hpath]
        rw [hnone]
        exact .socketBind (goto_pc_self _ _ _) hpath
      | some n =>
        have hsome : s.presentAnswer enoent = .ok () := by simp [State.presentAnswer, hpath]
        rw [hsome]
        exact .socketBind (goto_pc_self _ _ _) rfl
    | socketBind h hpath =>
      rw [h] at hsys
      obtain rfl := Option.some.inj hsys
      simp only [step, h, answer, State.bindAnswer, hpath] at hstep
      obtain rfl := Option.some.inj hstep
      exact .listen _ (goto_pc_self _ _ _) rfl ⟨rfl, rfl, rfl⟩
    | listen n h hpath hn =>
      rw [h] at hsys
      obtain rfl := Option.some.inj hsys
      simp only [step, h, answer] at hstep
      obtain rfl := Option.some.inj hstep
      exact .stat n (goto_pc_self _ _ _) hpath hn
    | stat n h hpath hn =>
      rw [h] at hsys
      obtain rfl := Option.some.inj hsys
      simp only [step, h, answer, State.presentAnswer, hpath] at hstep
      obtain rfl := Option.some.inj hstep
      exact .chmod n (goto_pc_self _ _ _) hpath hn
    | chmod n h hpath hn =>
      rw [h] at hsys
      obtain rfl := Option.some.inj hsys
      simp only [step, h, answer, State.presentAnswer, hpath] at hstep
      obtain rfl := Option.some.inj hstep
      exact .of_chmod hpath hn
    | chown n uid gid h hpath hn hmode hmade howner =>
      rw [h] at hsys
      obtain rfl := Option.some.inj hsys
      simp only [step, h, answer, State.presentAnswer, hpath] at hstep
      obtain rfl := Option.some.inj hstep
      obtain ⟨huid, hgid⟩ := Prod.mk.inj hmade
      exact .serving (n.chown uid gid) (goto_pc_self _ _ _) (by simp [State.changed, hpath])
        ⟨hn, by simp [Inode.chown, BindOptions.modeLeft, howner, hmode],
          by simp [Inode.chown, BindOptions.ownerLeft, howner, huid, hgid]⟩
    | serving n h hpath hn =>
      rw [h] at hsys
      cases hsys
  · obtain ⟨hpc, hpath⟩ := other_step hqp ha hstep
    exact h.congr hpc hpath

theorem returned_step {s t : State P} {a : Action P} {p : P} (h : ¬ (s.pc p).calling)
    (ha : Final p a) (hstep : step cred s a = some t) : t.pc p = s.pc p ∧ t.path = s.path := by
  rcases ha with ⟨peerPid, pc, ha⟩ | ⟨q, hqp, ha⟩
  · have hsys := syscall_of_step ha hstep
    exfalso
    cases hpc : s.pc p <;> simp [hpc, Pc.calling, Pc.remaining, Pc.syscall] at h hsys
  · exact other_step hqp ha hstep

omit [DecidableEq P] in
theorem connectAnswer_stale {s : State P} (h : ∀ n, s.path = some n → s.live n = false)
    (peerPid : ℕ) :
    ∃ e, s.connectAnswer peerPid = .error e ∧ isStaleSocketConnectError e := by
  cases hpath : s.path with
  | none => exact ⟨enoent, by simp [State.connectAnswer, hpath], rfl⟩
  | some n => exact ⟨econnrefused, by simp [State.connectAnswer, hpath, h n hpath], rfl⟩

end SocketBind
end SharedDaemon
