import SharedDaemon.SocketBind

/-!
# When binding is a singleton

The probe, the `unlink`, the `bind` and the `listen` of one starter are separate steps,
and the path is safe as long as two pairs of them are not interleaved.
-/

namespace SharedDaemon
namespace SocketBind

open StdIo TransitionSystem

variable {P : Type*}

def State.place (s : State P) : Option (ℕ × Option P) := s.path.map fun n => (n.ino, n.binder)

theorem ino_orFail (opts : BindOptions) (next : Pc) (r : Except IoError Unit) :
    (opts.orFail next r).ino = none ∨ (opts.orFail next r).ino = next.ino := by
  cases r with
  | error e => exact .inl rfl
  | ok u => exact .inr rfl

theorem orFail_ne_unlink {opts : BindOptions} {next : Pc} (r : Except IoError Unit)
    (h : ∀ c, next ≠ .unlink c) (c : Call) : opts.orFail next r ≠ .unlink c := by
  cases r with
  | error e => simp [BindOptions.orFail]
  | ok u => exact h c

@[simp] theorem ino_proceed (c : Call) : c.proceed.ino = none := by cases c <;> rfl

theorem proceed_ne_unlink (c d : Call) : c.proceed ≠ .unlink d := by cases c <;> simp [Call.proceed]

@[simp] theorem ino_afterChmod (opts : BindOptions) (i : ℕ) : (opts.afterChmod i).ino = some i := by
  cases h : opts.chown <;> simp [BindOptions.afterChmod, h, Pc.ino]

theorem afterChmod_ne_unlink (opts : BindOptions) (i : ℕ) (c : Call) :
    opts.afterChmod i ≠ .unlink c := by
  cases h : opts.chown <;> simp [BindOptions.afterChmod, h]

theorem place_changed (s : State P) (f : Inode P → Inode P) (r : Except IoError Unit)
    (hf : ∀ n, ((f n).ino, (f n).binder) = (n.ino, n.binder)) :
    (s.changed f r).place = s.place := by
  cases r with
  | error e => rfl
  | ok u =>
    simp only [State.changed, State.place, Option.map_map]
    congr 1
    funext n
    exact hf n

@[simp] theorem changed_pc (s : State P) (f : Inode P → Inode P) (r : Except IoError Unit) :
    (s.changed f r).pc = s.pc := by cases r <;> rfl

/-- Whoever has a socket has it at the path, and nobody has one while an `unlink` is due. -/
structure Exclusive (s : State P) : Prop where
  bound : ∀ p i, (s.pc p).ino = some i → s.place = some (i, some p)
  due : ∀ p c q, s.pc p = .unlink c → (s.pc q).ino = none

theorem heldBy_of_ino {s : State P} {n : Inode P} {p : P} (hn : n.binder = some p)
    (hp : (s.pc p).ino = some n.ino) : s.live n ∨ s.halfOpen n := by
  cases h : (s.pc p).accepts <;> simp [State.live, State.halfOpen, State.heldBy, hn, hp, h]

theorem listen_of_halfOpen {s : State P} {n : Inode P} (h : s.halfOpen n) :
    ∃ p opts, n.binder = some p ∧ s.pc p = .listen opts n.ino := by
  unfold State.halfOpen State.heldBy at h
  split at h
  · rename_i p hp
    cases hpc : s.pc p <;> simp [hpc, Pc.ino, Pc.accepts] at h
    exact ⟨p, _, hp, by rw [hpc, h]⟩
  · cases h

/-- Behind a stale path nobody has a socket. -/
theorem Exclusive.free_of_stale {s : State P} (h : Exclusive s)
    (hlive : ∀ n, s.path = some n → s.live n = false)
    (hhalf : ∀ n, s.path = some n → s.halfOpen n = false) (q : P) : (s.pc q).ino = none := by
  cases hq : (s.pc q).ino with
  | none => rfl
  | some i =>
    obtain ⟨n, hn, hplace⟩ := Option.map_eq_some_iff.mp (h.bound q i hq)
    obtain ⟨hino, hbinder⟩ := Prod.mk.inj hplace
    have hheld := heldBy_of_ino hbinder (hq.trans (by rw [hino]))
    simp [hlive n hn, hhalf n hn] at hheld

variable [DecidableEq P]

/-- The step unlinks the path while its inode belongs to a live listener. The process
that unlinks has no socket yet, so the listener is another's. -/
def Takeover (cred : P → Credentials) (s : State P) (a : Action P) : Prop :=
  ∃ n t, s.path = some n ∧ s.live n ∧ step cred s a = some t ∧ t.path = none

structure Singleton (cred : P → Credentials) (s : State P) : Prop where
  kept : ∀ a, ¬ Takeover cred s a
  one_listener : ∀ p q, (s.pc p).serves → (s.pc q).serves → p = q

/-- No `bind` takes the path while another starter is about to unlink it, and no `connect`
probes a socket between its `bind` and its `listen`. -/
def Undisturbed (s : State P) : Action P → Prop
  | .socketBind _ none => s.path = none → ∀ p c, s.pc p ≠ .unlink c
  | .connect _ _ none => ∀ n, s.path = some n → s.halfOpen n = false
  | _ => True

/-- What one step can do to the path and to the sockets of its process. -/
inductive Effect (cred : P → Credentials) (s : State P) : Action P → State P → Prop
  | quiet (a : Action P) (t : State P) (p : P) (hothers : ∀ q, q ≠ p → t.pc q = s.pc q)
      (hino : (t.pc p).ino = none ∨ (t.pc p).ino = (s.pc p).ino)
      (hpc : ∀ c, t.pc p ≠ .unlink c) (hplace : t.place = s.place) : Effect cred s a t
  | foundStale (p : P) (peerPid : ℕ) (c : Call) (h : s.pc p = .connect c)
      (hdead : ∀ n, s.path = some n → s.live n = false) :
      Effect cred s (.connect p peerPid none) (s.goto p (.unlink c))
  | unlinked (p : P) (c : Call) (n : Inode P) (h : s.pc p = .unlink c) (hn : s.path = some n) :
      Effect cred s (.unlink p none) ((s.unlinked (.ok ())).goto p c.proceed)
  | bound (p : P) (opts : BindOptions) (h : s.pc p = .socketBind opts) (hn : s.path = none) :
      Effect cred s (.socketBind p none)
        ((s.bound cred p (.ok ())).goto p (.listen opts s.nextIno))

theorem Effect.move {cred : P → Credentials} {s : State P} (a : Action P) (p : P) (pc : Pc)
    (hino : pc.ino = none ∨ pc.ino = (s.pc p).ino) (hpc : ∀ c, pc ≠ .unlink c) :
    Effect cred s a (s.goto p pc) :=
  .quiet a _ p (fun _ hq => goto_pc_of_ne s pc hq) (by simpa using hino) (by simpa using hpc) rfl

theorem Effect.change {cred : P → Credentials} {s : State P} (a : Action P) (p : P) (pc : Pc)
    (f : Inode P → Inode P) (r : Except IoError Unit)
    (hf : ∀ n, ((f n).ino, (f n).binder) = (n.ino, n.binder))
    (hino : pc.ino = none ∨ pc.ino = (s.pc p).ino) (hpc : ∀ c, pc ≠ .unlink c) :
    Effect cred s a ((s.changed f r).goto p pc) :=
  .quiet a _ p (fun q hq => by simp [goto_pc_of_ne _ _ hq]) (by simpa using hino)
    (by simpa using hpc) (place_changed s f r hf)

theorem Effect.of_connect {cred : P → Credentials} {s : State P} {p : P} {c : Call}
    (h : s.pc p = .connect c) (peerPid : ℕ) (fault : Option Fault) :
    Effect cred s (.connect p peerPid fault)
      (s.goto p (c.afterConnect (answer fault (s.connectAnswer peerPid)))) := by
  cases fault with
  | some f =>
    have hstale : isStaleSocketConnectError f.error = false := by
      simp [isStaleSocketConnectError, f.foreign]
    apply Effect.move <;> simp [answer, Call.afterConnect, hstale, Pc.ino]
  | none =>
    cases hpath : s.path with
    | none =>
      have heffect : Effect cred s _ _ := .foundStale p peerPid c h (by simp [hpath])
      simpa [answer, State.connectAnswer, hpath, Call.afterConnect, isStaleSocketConnectError,
        enoent] using heffect
    | some n =>
      cases hlive : s.live n with
      | false =>
        have heffect : Effect cred s _ _ := .foundStale p peerPid c h (by simp [hpath, hlive])
        simpa [answer, State.connectAnswer, hpath, hlive, Call.afterConnect,
          isStaleSocketConnectError, econnrefused] using heffect
      | true =>
        apply Effect.move <;>
          simp [answer, State.connectAnswer, hpath, hlive, Call.afterConnect, Pc.ino]

theorem Effect.of_unlink {cred : P → Credentials} {s : State P} {p : P} {c : Call}
    (h : s.pc p = .unlink c) (fault : Option Fault) :
    Effect cred s (.unlink p fault)
      ((s.unlinked (answer fault (s.presentAnswer enoent))).goto p
        (c.afterUnlink (answer fault (s.presentAnswer enoent)))) := by
  cases fault with
  | some f =>
    have hpc : c.afterUnlink (.error f.error) = .failed (.ioAt c.path f.error) := by
      simp [Call.afterUnlink, f.foreign.1]
    simp only [answer, hpc]
    apply Effect.move <;> simp [Pc.ino]
  | none =>
    cases hpath : s.path with
    | none =>
      simp only [answer, State.presentAnswer, hpath]
      apply Effect.move
      · simp [Call.afterUnlink, enoent]
      · simpa [Call.afterUnlink, enoent] using proceed_ne_unlink c
    | some n =>
      have heffect : Effect cred s _ _ := .unlinked p c n h hpath
      simpa [answer, State.presentAnswer, hpath, Call.afterUnlink] using heffect

theorem Effect.of_socketBind {cred : P → Credentials} {s : State P} {p : P} {opts : BindOptions}
    (h : s.pc p = .socketBind opts) (fault : Option Fault) :
    Effect cred s (.socketBind p fault)
      ((s.bound cred p (answer fault s.bindAnswer)).goto p
        (opts.orFail (.listen opts s.nextIno) (answer fault s.bindAnswer))) := by
  cases fault with
  | some f =>
    simp only [answer, State.bound, BindOptions.orFail]
    apply Effect.move <;> simp [Pc.ino]
  | none =>
    cases hpath : s.path with
    | none =>
      have heffect : Effect cred s _ _ := .bound p opts h hpath
      simpa [answer, State.bindAnswer, hpath, BindOptions.orFail] using heffect
    | some n =>
      simp only [answer, State.bindAnswer, hpath, State.bound, BindOptions.orFail]
      apply Effect.move <;> simp [Pc.ino]

theorem Effect.of_step {cred : P → Credentials} {s t : State P} {a : Action P}
    (h : step cred s a = some t) : Effect cred s a t := by
  cases Step.of_step h with
  | start | crash | drop => apply Effect.move <;> simp [Pc.ino]
  | connect p peerPid fault c hpc => exact .of_connect hpc peerPid fault
  | unlink p fault c hpc => exact .of_unlink hpc fault
  | socketBind p fault opts hpc => exact .of_socketBind hpc fault
  | listen p fault opts i hpc | stat p fault opts i hpc =>
    apply Effect.move
    · simpa [hpc, Pc.ino] using ino_orFail opts _ _
    · exact orFail_ne_unlink _ (by simp)
  | chmod p fault opts i hpc =>
    refine Effect.change _ p _ (Inode.chmod opts.mode) _ (fun _ => rfl) ?_ ?_
    · have hino := ino_orFail opts (opts.afterChmod i) (answer fault (s.presentAnswer enoent))
      rw [ino_afterChmod] at hino
      rw [hpc]
      exact hino
    · exact orFail_ne_unlink _ (afterChmod_ne_unlink opts i)
  | chown p fault opts i uid gid hpc =>
    refine Effect.change _ p _ (Inode.chown uid gid) _ (fun _ => rfl) ?_ ?_
    · cases answer fault (s.presentAnswer nixEnoent) <;>
        simp [BindOptions.afterChown, hpc, Pc.ino]
    · cases answer fault (s.presentAnswer nixEnoent) <;> simp [BindOptions.afterChown]

theorem exclusive_initial {s : State P} (h : Initial s) : Exclusive s := by
  cases h with
  | absent => exact ⟨by simp [Pc.ino], by simp⟩
  | stale mode uid gid => exact ⟨by simp [Pc.ino], by simp⟩
  | live p opts mode uid gid =>
    refine ⟨fun q i hq => ?_, fun q c _ hq => ?_⟩
    · by_cases hqp : q = p
      · subst hqp
        simpa [State.place, Pc.ino] using hq
      · simp [hqp, Pc.ino] at hq
    · by_cases hqp : q = p <;> simp [hqp] at hq

theorem exclusive_step {cred : P → Credentials} {s t : State P} {a : Action P}
    (h : Exclusive s) (hC : Undisturbed s a) (hstep : step cred s a = some t) : Exclusive t := by
  cases Effect.of_step hstep with
  | quiet _ _ p hothers hino hpc hplace =>
    have hsub (q : P) : (t.pc q).ino = none ∨ (t.pc q).ino = (s.pc q).ino := by
      by_cases hq : q = p
      · exact hq ▸ hino
      · exact .inr (by rw [hothers q hq])
    refine ⟨fun q i hq => ?_, fun q c r hq => ?_⟩
    · rcases hsub q with hnone | hsame
      · simp [hnone] at hq
      · rw [hplace]
        exact h.bound q i (hsame ▸ hq)
    · have hqp : q ≠ p := fun he => hpc c (he ▸ hq)
      have hfree := h.due q c r (hothers q hqp ▸ hq)
      rcases hsub r with hnone | hsame
      · exact hnone
      · exact hsame.trans hfree
  | foundStale p peerPid c hp hdead =>
    have hfree := h.free_of_stale hdead hC
    have hnone (q : P) : ((s.goto p (.unlink c)).pc q).ino = none := by
      by_cases hq : q = p
      · simp [hq, Pc.ino]
      · rw [goto_pc_of_ne _ _ hq]
        exact hfree q
    exact ⟨fun q i hq => by simp [hnone] at hq, fun _ _ q _ => hnone q⟩
  | unlinked p c n hp hn =>
    have hnone (q : P) : (((s.unlinked (.ok ())).goto p c.proceed).pc q).ino = none := by
      by_cases hq : q = p
      · simp [hq]
      · rw [goto_pc_of_ne _ _ hq]
        exact h.due p c q hp
    exact ⟨fun q i hq => by simp [hnone] at hq, fun _ _ q _ => hnone q⟩
  | bound p opts hp hn =>
    refine ⟨fun q i hq => ?_, fun q c _ hq => ?_⟩
    · by_cases hqp : q = p
      · subst hqp
        simp only [goto_pc_self, Pc.ino, Option.some.injEq] at hq
        simp [State.place, State.bound, hq]
      · rw [goto_pc_of_ne _ _ hqp] at hq
        have hplace := h.bound q i hq
        simp [State.place, hn] at hplace
    · by_cases hqp : q = p
      · simp [hqp] at hq
      · rw [goto_pc_of_ne _ _ hqp] at hq
        exact absurd hq (hC hn q c)

theorem Exclusive.singleton {cred : P → Credentials} {s : State P} (h : Exclusive s) :
    Singleton cred s := by
  constructor
  · rintro a ⟨n, t, hn, hlive, hstep, hnone⟩
    cases Effect.of_step hstep with
    | quiet _ _ p hothers hino hpc hplace => simp [State.place, hn, hnone] at hplace
    | foundStale p peerPid c hp hdead => simp [hn] at hnone
    | unlinked p c m hp hm =>
      cases hb : n.binder with
      | none => simp [State.live, State.heldBy, hb] at hlive
      | some q => simp [State.live, State.heldBy, hb, h.due p c q hp] at hlive
    | bound p opts hp hpath => simp [hn] at hpath
  · intro p q hp hq
    have hino {r : P} (hr : (s.pc r).serves) : ∃ i, (s.pc r).ino = some i := by
      cases hpc : s.pc r <;> simp [hpc, Pc.serves] at hr
      exact ⟨_, rfl⟩
    obtain ⟨i, hi⟩ := hino hp
    obtain ⟨j, hj⟩ := hino hq
    have hplace := (h.bound p i hi).symm.trans (h.bound q j hj)
    simp only [Option.some.injEq, Prod.mk.injEq] at hplace
    exact hplace.2

def rootUser (_ : Fin 2) : Credentials := ⟨0, 0, 0o022, by decide⟩

def leftover : State (Fin 2) := ⟨some ⟨0, none, 0o755, 0, 0⟩, 1, fun _ => .idle⟩

def starter : Call := .bind ⟨"/run/d.sock", 0o600, none, "d"⟩

/-- A process that has just bound can listen before the due `unlink` of another runs. -/
theorem takeover_of_listen {cred : P → Credentials} {s : State P} {n : Inode P} {p q : P}
    {opts : BindOptions} {c : Call} (hn : s.path = some n) (hbinder : n.binder = some p)
    (hp : s.pc p = .listen opts n.ino) (hq : s.pc q = .unlink c) :
    ∃ as u, (host cred).run s as = some u ∧ ¬ Singleton cred u := by
  have hqp : q ≠ p := fun he => by simp [he, hp] at hq
  have hlisten : step cred s (.listen p none) = some (s.goto p (.stat opts n.ino)) := by
    simp [step, hp, answer, BindOptions.orFail]
  have hlive : (s.goto p (.stat opts n.ino)).live n := by
    simp [State.live, State.heldBy, hbinder, Pc.ino, Pc.accepts]
  have hdue : (s.goto p (.stat opts n.ino)).pc q = .unlink c := by rw [goto_pc_of_ne _ _ hqp, hq]
  refine ⟨[.listen p none], _, run_single hlisten, fun h => ?_⟩
  apply h.kept (.unlink q none)
  exact ⟨n, _, hn, hlive, by simp only [step, hdue]; rfl,
    by simp [answer, State.presentAnswer, hn, State.unlinked]⟩

theorem takeover_of_disturbed_bind {cred : P → Credentials} {s t : State P} {p q : P} {c : Call}
    (hpath : s.path = none) (hq : s.pc q = .unlink c)
    (hstep : step cred s (.socketBind p none) = some t) :
    ∃ as u, (host cred).run t as = some u ∧ ¬ Singleton cred u := by
  simp only [step, State.bindAnswer, hpath, answer] at hstep
  split at hstep
  · rename_i opts hp
    obtain rfl := Option.some.inj hstep
    have hqp : q ≠ p := fun he => by simp [he, hp] at hq
    apply takeover_of_listen (p := p) (q := q)
    · rfl
    · rfl
    · exact goto_pc_self _ _ _
    · rw [goto_pc_of_ne _ _ hqp]
      exact hq
  · cases hstep

theorem takeover_of_disturbed_connect {cred : P → Credentials} {s t : State P} {p : P}
    {peerPid : ℕ} {n : Inode P} (hn : s.path = some n) (hhalf : s.halfOpen n)
    (hstep : step cred s (.connect p peerPid none) = some t) :
    ∃ as u, (host cred).run t as = some u ∧ ¬ Singleton cred u := by
  obtain ⟨q, opts, hbinder, hq⟩ := listen_of_halfOpen hhalf
  have hdead : s.live n = false := by
    simp [State.live, State.heldBy, hbinder, hq, Pc.accepts]
  simp only [step, State.connectAnswer, hn, hdead, answer] at hstep
  split at hstep
  · rename_i c hp
    obtain rfl := Option.some.inj hstep
    have hqp : q ≠ p := fun he => by simp [← he, hq] at hp
    change ∃ as u, (host cred).run (s.goto p (.unlink c)) as = some u ∧ _
    apply takeover_of_listen (p := q) (q := p) (c := c) (n := n)
    · exact hn
    · exact hbinder
    · rw [goto_pc_of_ne _ _ hqp]
      exact hq
    · exact goto_pc_self _ _ _
  · cases hstep

/-- Bind is a singleton in every run whose starters do not disturb each other, and each
disturbing step lets a live listener be unlinked. -/
theorem singleton_of_undisturbed (cred : P → Credentials) :
    (∀ s, (host cred).ReachableUnder Undisturbed s → Singleton cred s) ∧
      ∀ s a t, ¬ Undisturbed s a → step cred s a = some t →
        ∃ as u, (host cred).run t as = some u ∧ ¬ Singleton cred u := by
  constructor
  · intro s h
    have hex : Exclusive s :=
      h.invariant (I := Exclusive) (fun _ hs => exclusive_initial hs)
        fun _ _ _ hI hC hstep => exclusive_step hI hC hstep
    exact hex.singleton
  · intro s a t h hstep
    unfold Undisturbed at h
    split at h
    · push Not at h
      obtain ⟨hpath, q, c, hq⟩ := h
      exact takeover_of_disturbed_bind hpath hq hstep
    · push Not at h
      obtain ⟨n, hn, hhalf⟩ := h
      exact takeover_of_disturbed_connect hn (by simpa using hhalf) hstep
    · exact absurd trivial h

/-- A starter replaces a leftover and serves; the next one finds it running. -/
theorem singleton_of_undisturbed_leftoverReplaced :
    ∃ s, Singleton rootUser s ∧ (s.pc 0).serves ∧ s.pc 1 = .failed
      (.alreadyRunning "d" "/run/d.sock (pid 7)" "/run/d.sock" 7) := by
  have h₀ : (host rootUser).ReachableUnder Undisturbed leftover := .init (.stale 0o755 0 0)
  have h₁ := h₀.step (a := Action.start 0 starter) trivial rfl
  have h₂ := h₁.step (a := Action.connect 0 0 none) (fun n hn => by cases hn; rfl) rfl
  have h₃ := h₂.step (a := Action.unlink 0 none) trivial rfl
  have h₄ := h₃.step (a := Action.socketBind 0 none)
    (fun _ p c h => match p with | 0 => Pc.noConfusion h | 1 => Pc.noConfusion h) rfl
  have h₅ := h₄.step (a := Action.listen 0 none) trivial rfl
  have h₆ := h₅.step (a := Action.stat 0 none) trivial rfl
  have h₇ := h₆.step (a := Action.chmod 0 none) trivial rfl
  have h₈ := h₇.step (a := Action.start 1 starter) trivial rfl
  have h₉ := h₈.step (a := Action.connect 1 7 none) (fun n hn => by cases hn; rfl) rfl
  exact ⟨_, (singleton_of_undisturbed rootUser).1 _ h₉, rfl, rfl⟩

/-- Two starters see the same leftover; the second unlinks the first one's listener, and
both end up serving. -/
theorem two_starters_take_over :
    Initial leftover ∧ ∃ s t, (host rootUser).run leftover
        [.start 0 starter, .start 1 starter, .connect 0 0 none, .connect 1 0 none,
          .unlink 0 none, .socketBind 0 none, .listen 0 none, .stat 0 none, .chmod 0 none] = some s ∧
      Takeover rootUser s (.unlink 1 none) ∧
      (host rootUser).run s [.unlink 1 none, .socketBind 1 none, .listen 1 none, .stat 1 none,
        .chmod 1 none] = some t ∧ (t.pc 0).serves ∧ (t.pc 1).serves := by
  exact ⟨.stale _ _ _, _, _, rfl, ⟨_, _, rfl, rfl, rfl, rfl⟩, rfl, rfl, rfl⟩

end SocketBind
end SharedDaemon
