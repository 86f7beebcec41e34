import SharedDaemon.SequentialBind
import Mathlib.Data.Nat.Bitwise

/-!
# Who can reach the control socket

One `bind` on its path, with clients that connect between its system calls. The socket
listens before its mode and its owner are set, and a queued connection stays queued.
-/

namespace SharedDaemon
namespace SocketPerms

open StdIo SocketBind TransitionSystem

/-- A peer that permissions apply to, with its primary and supplementary groups. -/
structure Client where
  uid : ℕ
  gids : List ℕ
  nonRoot : uid ≠ 0
  deriving DecidableEq

structure Perms where
  mode : ℕ
  uid : ℕ
  gid : ℕ
  deriving DecidableEq

/-- Write permission, which `connect` needs: the first class the client is in decides. -/
def Perms.grants (perms : Perms) (c : Client) : Bool :=
  if c.uid = perms.uid then perms.mode.testBit 7
  else if perms.gid ∈ c.gids then perms.mode.testBit 4
  else perms.mode.testBit 1

/-- Who may connect under the first may connect under the second. -/
def Perms.Within (perms bound : Perms) : Prop := ∀ c, perms.grants c → bound.grants c

def Perms.candidates (perms bound : Perms) : List Client :=
  [perms.uid, bound.uid, perms.uid + bound.uid + 1].flatMap fun uid =>
    if h : uid ≠ 0 then
      [[], [perms.gid], [bound.gid], [perms.gid, bound.gid]].map fun gids => ⟨uid, gids, h⟩
    else []

theorem Perms.grants_congr (perms : Perms) {c d : Client}
    (huid : c.uid = perms.uid ↔ d.uid = perms.uid)
    (hgid : perms.gid ∈ c.gids ↔ perms.gid ∈ d.gids) : perms.grants c = perms.grants d := by
  simp only [Perms.grants, huid, hgid]

/-- A client is as good as the candidate with its classes. -/
theorem Perms.exists_candidate (perms bound : Perms) (c : Client) :
    ∃ d ∈ perms.candidates bound,
      perms.grants c = perms.grants d ∧ bound.grants c = bound.grants d := by
  have huid : ∃ uid ∈ [perms.uid, bound.uid, perms.uid + bound.uid + 1], uid ≠ 0 ∧
      (c.uid = perms.uid ↔ uid = perms.uid) ∧ (c.uid = bound.uid ↔ uid = bound.uid) := by
    by_cases h : c.uid = perms.uid ∨ c.uid = bound.uid
    · exact ⟨c.uid, by rcases h with h | h <;> simp [h], c.nonRoot, Iff.rfl, Iff.rfl⟩
    · exact ⟨perms.uid + bound.uid + 1, by simp, by omega, by omega, by omega⟩
  have hgid : ∃ gids ∈ [[], [perms.gid], [bound.gid], [perms.gid, bound.gid]],
      (perms.gid ∈ c.gids ↔ perms.gid ∈ gids) ∧ (bound.gid ∈ c.gids ↔ bound.gid ∈ gids) := by
    by_cases h₁ : perms.gid ∈ c.gids <;> by_cases h₂ : bound.gid ∈ c.gids
    · exact ⟨[perms.gid, bound.gid], by simp, by simp [h₁], by simp [h₂]⟩
    · have hne : bound.gid ≠ perms.gid := fun he => h₂ (he ▸ h₁)
      exact ⟨[perms.gid], by simp, by simp [h₁], by simp [h₂, hne]⟩
    · have hne : perms.gid ≠ bound.gid := fun he => h₁ (he ▸ h₂)
      exact ⟨[bound.gid], by simp, by simp [h₁, hne], by simp [h₂]⟩
    · exact ⟨[], by simp, by simp [h₁], by simp [h₂]⟩
  obtain ⟨uid, hmem, hroot, hperms, hbound⟩ := huid
  obtain ⟨gids, hgids, hperms', hbound'⟩ := hgid
  refine ⟨⟨uid, gids, hroot⟩, ?_, perms.grants_congr hperms hperms', bound.grants_congr hbound hbound'⟩
  refine List.mem_flatMap.mpr ⟨uid, hmem, ?_⟩
  rw [dif_pos hroot]
  exact List.mem_map_of_mem hgids

theorem Perms.within_iff (perms bound : Perms) :
    perms.Within bound ↔ ∀ c ∈ perms.candidates bound, perms.grants c → bound.grants c := by
  constructor
  · exact fun h c _ => h c
  · intro h c
    obtain ⟨d, hd, hperms, hbound⟩ := perms.exists_candidate bound c
    rw [hperms, hbound]
    exact h d hd

instance (perms bound : Perms) : Decidable (perms.Within bound) :=
  decidable_of_iff _ (perms.within_iff bound).symm

/-- The bind and the connections of its listener: queued, and accepted once it is returned. -/
structure State where
  host : SocketBind.State Unit
  queue : List Client
  accepted : List Client

inductive Action
  | call (a : SocketBind.Action Unit)
  | connect (c : Client)
  | accept

def permsOf (n : Inode Unit) : Perms := ⟨n.mode, n.uid, n.gid⟩

def step (cred : Credentials) (s : State) : Action → Option State
  | .call (.start _ _) => none
  | .call a => (SocketBind.step (fun _ => cred) s.host a).map fun host => { s with host }
  | .connect c =>
    match s.host.path with
    | some n =>
      if s.host.live n && (permsOf n).grants c then some { s with queue := s.queue ++ [c] }
      else none
    | none => none
  | .accept =>
    match s.host.pc (), s.queue with
    | .serving _ _, c :: rest => some { s with queue := rest, accepted := s.accepted ++ [c] }
    | _, _ => none

def Initial (opts : BindOptions) (s : State) : Prop :=
  ∃ leftover : Option (Inode Unit), (∀ n, leftover = some n → n.binder = none) ∧
    s = ⟨⟨leftover, 1, fun _ => .connect (.bind opts)⟩, [], []⟩

def socket (cred : Credentials) (opts : BindOptions) : TransitionSystem State Action where
  init := Initial opts
  step := step cred

def opened (cred : Credentials) : Perms := ⟨0o777 ^^^ (0o777 &&& cred.umask), cred.uid, cred.gid⟩

def moded (cred : Credentials) (opts : BindOptions) : Perms :=
  ⟨opts.mode &&& 0o7777, cred.uid, cred.gid⟩

def final (cred : Credentials) (opts : BindOptions) : Perms :=
  match opts.chown with
  | some (uid, gid) => ⟨opts.mode &&& 0o7777, chownId uid cred.uid, chownId gid cred.gid⟩
  | none => ⟨opts.mode &&& 0o7777, cred.uid, cred.gid⟩

def left (cred : Credentials) (opts : BindOptions) : Perms :=
  ⟨opts.modeLeft, (opts.ownerLeft cred).1, (opts.ownerLeft cred).2⟩

variable {cred : Credentials} {opts : BindOptions}

/-- The bits that a `chown` clears grant nothing. -/
theorem grants_left (cred : Credentials) (opts : BindOptions) (c : Client) :
    (left cred opts).grants c = (final cred opts).grants c := by
  cases hchown : opts.chown with
  | none =>
    simp only [left, final, BindOptions.modeLeft, BindOptions.ownerLeft, hchown]
  | some owner =>
    simp only [left, final, BindOptions.modeLeft, BindOptions.ownerLeft, hchown, Perms.grants,
      testBit_clearSetId _ (show 7 < 10 by decide), testBit_clearSetId _ (show 4 < 10 by decide),
      testBit_clearSetId _ (show 1 < 10 by decide)]

inductive Stage (cred : Credentials) (opts : BindOptions) (s : SocketBind.State Unit) : Prop
  | probing (h : s.pc () = .connect (.bind opts))
      (hpath : ∀ n, s.path = some n → n.binder = none)
  | progress (h : Progress (fun _ => cred) () opts s)
  | done (h : ¬ (s.pc ()).calling) (hino : (s.pc ()).ino = none)

theorem stage_step {s t : SocketBind.State Unit} {a : SocketBind.Action Unit}
    (h : Stage cred opts s) (hstart : ∀ p call, a ≠ .start p call)
    (hstep : SocketBind.step (fun _ => cred) s a = some t) : Stage cred opts t := by
  cases hfault : a.fault with
  | some f =>
    obtain ⟨e, he⟩ := failed_of_fault hfault hstep
    exact .done (by simp [he, Pc.calling, Pc.remaining]) (by simp [he, Pc.ino])
  | none =>
    rcases syscall_of_fault_eq_none hfault hstep with ⟨p, call, ha⟩ | ⟨p, rfl | rfl⟩ | ⟨peerPid, hsys⟩
    · exact absurd ha (hstart p call)
    · cases SocketBind.Step.of_step hstep
      exact .done (by simp [Pc.calling, Pc.remaining]) (by simp [Pc.ino])
    · cases SocketBind.Step.of_step hstep
      exact .done (by simp [Pc.calling, Pc.remaining]) (by simp [Pc.ino])
    · change (s.pc ()).syscall () peerPid = some a at hsys
      cases h with
      | probing h hpath =>
        rw [h] at hsys
        obtain rfl := Option.some.inj hsys
        have hdead (n : Inode Unit) (hn : s.path = some n) : s.live n = false := by
          simp [State.live, State.heldBy, hpath n hn]
        obtain ⟨e, he, hstale⟩ := connectAnswer_stale hdead peerPid
        simp only [SocketBind.step, h, answer, he, Call.afterConnect, hstale, if_true] at hstep
        obtain rfl := Option.some.inj hstep
        exact .progress (.unlink (goto_pc_self _ _ _))
      | progress h => exact .progress (progress_step h (.inl ⟨peerPid, _, hsys⟩) hstep)
      | done h =>
        exfalso
        cases hpc : s.pc () <;>
          simp [hpc, Pc.calling, Pc.remaining, Pc.syscall] at h hsys

theorem Stage.perms {s : SocketBind.State Unit} (h : Stage cred opts s) {n : Inode Unit}
    (hn : s.path = some n) (hlive : s.live n) :
    permsOf n ∈ [opened cred, moded cred opts, left cred opts] := by
  have haccepts : (s.pc ()).accepts := by
    unfold State.live State.heldBy at hlive
    split at hlive
    · simp only [Bool.and_eq_true, beq_iff_eq] at hlive
      exact hlive.2
    · cases hlive
  cases h with
  | probing h => simp [h, Pc.accepts] at haccepts
  | done h hino => cases hpc : s.pc () <;> simp [hpc, Pc.accepts, Pc.ino] at haccepts hino
  | progress h =>
    cases h with
    | unlink h | socketBind h | listen _ h => simp [h, Pc.accepts] at haccepts
    | stat m h hpath hm | chmod m h hpath hm =>
      obtain rfl := Option.some.inj (hn.symm.trans hpath)
      obtain ⟨huid, hgid⟩ := Prod.mk.inj hm.owner
      simp [permsOf, opened, hm.mode, huid, hgid]
    | chown m uid gid h hpath hbinder hmode hmade howner =>
      obtain rfl := Option.some.inj (hn.symm.trans hpath)
      obtain ⟨huid, hgid⟩ := Prod.mk.inj hmade
      simp [permsOf, moded, hmode, huid, hgid]
    | serving m h hpath hm =>
      obtain rfl := Option.some.inj (hn.symm.trans hpath)
      obtain ⟨huid, hgid⟩ := Prod.ext_iff.mp hm.owner
      simp only at huid hgid
      simp [permsOf, left, hm.mode, huid, hgid]

/-- Every connection was made under permissions the socket has had. -/
structure Connected (cred : Credentials) (opts : BindOptions) (s : State) : Prop where
  stage : Stage cred opts s.host
  clients : ∀ c ∈ s.queue ++ s.accepted,
    ∃ perms ∈ [opened cred, moded cred opts, left cred opts], perms.grants c

theorem connected_step {s t : State} {a : Action} (h : Connected cred opts s)
    (hstep : step cred s a = some t) : Connected cred opts t := by
  cases a with
  | call a =>
    by_cases hstart : ∃ p call, a = .start p call
    · obtain ⟨p, call, rfl⟩ := hstart
      cases hstep
    · have hmap : (SocketBind.step (fun _ => cred) s.host a).map (fun host => { s with host }) =
          some t := by
        cases a <;> first | exact hstep | exact absurd ⟨_, _, rfl⟩ hstart
      obtain ⟨host, hhost, rfl⟩ := Option.map_eq_some_iff.mp hmap
      exact ⟨stage_step h.stage (fun p call ha => hstart ⟨p, call, ha⟩) hhost, h.clients⟩
  | connect c =>
    simp only [step] at hstep
    split at hstep
    · rename_i n hn
      simp only [Option.ite_none_right_eq_some, Bool.and_eq_true] at hstep
      obtain ⟨⟨hlive, hgrants⟩, ht⟩ := hstep
      obtain rfl := Option.some.inj ht
      refine ⟨h.stage, fun d hd => ?_⟩
      simp only [List.append_assoc, List.mem_append, List.mem_singleton] at hd
      rcases hd with hd | rfl | hd
      · exact h.clients d (List.mem_append.mpr (.inl hd))
      · exact ⟨_, h.stage.perms hn hlive, hgrants⟩
      · exact h.clients d (List.mem_append.mpr (.inr hd))
    · cases hstep
  | accept =>
    simp only [step] at hstep
    split at hstep
    · rename_i c rest hpc hqueue
      obtain rfl := Option.some.inj hstep
      refine ⟨h.stage, fun d hd => h.clients d ?_⟩
      simp only [hqueue, List.mem_append, List.mem_cons, List.not_mem_nil] at hd ⊢
      tauto
    · cases hstep

theorem connected_of_reachable {s : State} (hs : (socket cred opts).Reachable s) :
    Connected cred opts s := by
  refine hs.invariant (I := Connected cred opts) ?_ fun _ _ _ hI _ hstep => connected_step hI hstep
  rintro s ⟨leftover, hleft, rfl⟩
  exact ⟨.probing rfl hleft, by simp⟩

def made (perms : Perms) : Inode Unit := ⟨1, some (), perms.mode, perms.uid, perms.gid⟩

def hostAt (perms : Perms) (pc : Pc) : SocketBind.State Unit := ⟨some (made perms), 2, fun _ => pc⟩

theorem goto_unit (s : SocketBind.State Unit) (pc : Pc) :
    s.goto () pc = ⟨s.path, s.nextIno, fun _ => pc⟩ := by
  simp only [State.goto]
  congr 1

theorem reachable_call {s : State} {host : SocketBind.State Unit} {a : SocketBind.Action Unit}
    (hs : (socket cred opts).Reachable s) (hstart : ∀ p call, a ≠ .start p call)
    (hstep : SocketBind.step (fun _ => cred) s.host a = some host) :
    (socket cred opts).Reachable { s with host } := by
  refine hs.step (a := Action.call a) trivial ?_
  have hmap : (SocketBind.step (fun _ => cred) s.host a).map (fun host => { s with host }) =
      some { s with host } := by rw [hstep]; rfl
  cases a with
  | start p call => exact absurd rfl (hstart p call)
  | _ => exact hmap

theorem reachable_opened (cred : Credentials) (opts : BindOptions) :
    (socket cred opts).Reachable ⟨hostAt (opened cred) (.stat opts 1), [], []⟩ := by
  have h₀ : (socket cred opts).Reachable ⟨⟨none, 1, fun _ => .connect (.bind opts)⟩, [], []⟩ :=
    .init ⟨none, by simp, rfl⟩
  have h₁ := reachable_call (a := SocketBind.Action.connect () 0 none) h₀ (by simp)
    (congrArg some (goto_unit _ _))
  have h₂ := reachable_call (a := SocketBind.Action.unlink () none) h₁ (by simp)
    (congrArg some (goto_unit _ _))
  have h₃ := reachable_call (a := SocketBind.Action.socketBind () none) h₂ (by simp)
    (congrArg some (goto_unit _ _))
  exact reachable_call (a := SocketBind.Action.listen () none) h₃ (by simp)
    (congrArg some (goto_unit _ _))

theorem reachable_moded {q : List Client}
    (h : (socket cred opts).Reachable ⟨hostAt (opened cred) (.stat opts 1), q, []⟩) :
    (socket cred opts).Reachable ⟨hostAt (moded cred opts) (opts.afterChmod 1), q, []⟩ := by
  have h₁ := reachable_call (a := SocketBind.Action.stat () none) h (by simp)
    (congrArg some (goto_unit _ _))
  exact reachable_call (a := SocketBind.Action.chmod () none) h₁ (by simp)
    (congrArg some (goto_unit _ _))

theorem reachable_left {q : List Client}
    (h : (socket cred opts).Reachable ⟨hostAt (moded cred opts) (opts.afterChmod 1), q, []⟩) :
    (socket cred opts).Reachable ⟨hostAt (left cred opts) (.serving opts 1), q, []⟩ := by
  cases hchown : opts.chown with
  | none =>
    simpa [BindOptions.afterChmod, left, BindOptions.modeLeft, BindOptions.ownerLeft, moded,
      hchown] using h
  | some owner =>
    simp only [BindOptions.afterChmod, hchown] at h
    have h₁ := reachable_call (a := SocketBind.Action.chown () none) h (by simp)
      (congrArg some (goto_unit _ _))
    have hleft : left cred opts = ⟨clearSetId (opts.mode &&& 0o7777), chownId owner.1 cred.uid,
        chownId owner.2 cred.gid⟩ := by
      simp [left, BindOptions.modeLeft, BindOptions.ownerLeft, hchown]
    rw [hleft]
    exact h₁

theorem reachable_connect {perms : Perms} {pc : Pc} {c : Client}
    (h : (socket cred opts).Reachable ⟨hostAt perms pc, [], []⟩) (hino : pc.ino = some 1)
    (haccepts : pc.accepts = true) (hgrants : perms.grants c) :
    (socket cred opts).Reachable ⟨hostAt perms pc, [c], []⟩ := by
  refine h.step (a := Action.connect c) trivial ?_
  have hlive : (hostAt perms pc).live (made perms) := by
    simp [State.live, State.heldBy, hostAt, made, hino, haccepts]
  have hperms : permsOf (made perms) = perms := rfl
  change (if (hostAt perms pc).live (made perms) && (permsOf (made perms)).grants c then _
    else _) = _
  rw [hlive, hperms, hgrants]
  rfl

theorem reachable_accept {c : Client}
    (h : (socket cred opts).Reachable ⟨hostAt (left cred opts) (.serving opts 1), [c], []⟩) :
    ∃ s, (socket cred opts).Reachable s ∧ c ∈ s.accepted :=
  ⟨_, h.step (a := Action.accept) trivial rfl, by simp⟩

/-- A client that the umask lets in while the socket is opened is accepted in the end. -/
theorem accepted_of_opened (opts : BindOptions) {c : Client} (hc : (opened cred).grants c) :
    ∃ s, (socket cred opts).Reachable s ∧ c ∈ s.accepted :=
  reachable_accept (reachable_left (reachable_moded
    (reachable_connect (reachable_opened cred opts) rfl rfl hc)))

theorem accepted_of_moded {c : Client} (hc : (moded cred opts).grants c) :
    ∃ s, (socket cred opts).Reachable s ∧ c ∈ s.accepted := by
  have haccepts : (opts.afterChmod 1).accepts = true := by
    cases hchown : opts.chown <;> simp [BindOptions.afterChmod, hchown, Pc.accepts]
  exact reachable_accept (reachable_left (reachable_connect
    (reachable_moded (reachable_opened cred opts)) (ino_afterChmod opts 1) haccepts hc))

/-- The returned listener accepts only clients its options admit exactly when the umask and
the first owner admit no others in the meantime. -/
theorem accepted_granted_iff (cred : Credentials) (opts : BindOptions) :
    (∀ s, (socket cred opts).Reachable s → ∀ c ∈ s.accepted, (final cred opts).grants c) ↔
      (opened cred).Within (final cred opts) ∧ (moded cred opts).Within (final cred opts) := by
  constructor
  · intro h
    constructor
    · intro c hc
      obtain ⟨s, hs, hmem⟩ := accepted_of_opened opts hc
      exact h s hs c hmem
    · intro c hc
      obtain ⟨s, hs, hmem⟩ := accepted_of_moded hc
      exact h s hs c hmem
  · rintro ⟨hopened, hmoded⟩ s hs c hc
    obtain ⟨perms, hperms, hgrants⟩ :=
      (connected_of_reachable hs).clients c (List.mem_append.mpr (.inr hc))
    simp only [List.mem_cons, List.not_mem_nil, or_false] at hperms
    rcases hperms with rfl | rfl | rfl
    · exact hopened c hgrants
    · exact hmoded c hgrants
    · exact grants_left cred opts c ▸ hgrants

theorem accepted_granted_iff_usual :
    ∀ s, (socket ⟨0, 0, 0o022, by decide⟩ ⟨"/run/d.sock", 0o660, none, "d"⟩).Reachable s →
      ∀ c ∈ s.accepted, (final ⟨0, 0, 0o022, by decide⟩ ⟨"/run/d.sock", 0o660, none, "d"⟩).grants c :=
  (accepted_granted_iff _ _).mpr (by decide)

/-- Under an empty umask anyone gets in before the `chmod` to `0600`. -/
theorem umask_window :
    ¬ ∀ s, (socket ⟨0, 0, 0, by decide⟩ ⟨"/run/d.sock", 0o600, none, "d"⟩).Reachable s →
      ∀ c ∈ s.accepted, (final ⟨0, 0, 0, by decide⟩ ⟨"/run/d.sock", 0o600, none, "d"⟩).grants c := by
  intro h
  have hopen : (opened ⟨0, 0, 0, by decide⟩).grants ⟨1000, [1000], by decide⟩ := by decide
  obtain ⟨s, hs, hmem⟩ := accepted_of_opened ⟨"/run/d.sock", 0o600, none, "d"⟩ hopen
  exact absurd (h s hs _ hmem) (by decide)

end SocketPerms
end SharedDaemon
