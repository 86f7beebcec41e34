import SharedDaemon.Config
import SharedDaemon.TransitionSystem
import Mathlib.Data.Nat.Init
import Mathlib.Logic.Function.Basic

/-!
# Reloads of one snapshot from several threads

Each `try_reload` loads the file as it is and then replaces the live value. The two are
atomic one by one but not together.
-/

namespace SharedDaemon
namespace LiveOrder

open Config TransitionSystem

/-- A `try_reload`: not begun, or with what its load gave of the version it read. -/
inductive Pc (T : Type)
  | idle
  | loaded (version : ℕ) (result : Except ConfigError T)

/-- `held` is the version the live value comes from, `loads` are the versions that calls
have loaded; both only record. -/
structure State (P : Type*) (T : Type) where
  version : ℕ
  live : T
  held : ℕ
  pc : P → Pc T
  loads : List ℕ

inductive Action (P : Type*)
  | change
  | load (p : P)
  | replace (p : P)

variable {P : Type*} [DecidableEq P] {T : Type}

def Pc.pending : Pc T → Option ℕ
  | .loaded version (.ok _) => some version
  | .idle | .loaded _ (.error _) => none

/-- `content v` is what a load makes of version `v`; the end of a call whose load failed is
a `replace` that replaces nothing. -/
def step (content : ℕ → Except ConfigError T) (s : State P T) : Action P → Option (State P T)
  | .change => some { s with version := s.version + 1 }
  | .load p =>
    match s.pc p with
    | .idle =>
      let pc := Pc.loaded s.version (content s.version)
      some { s with pc := Function.update s.pc p pc, loads := pc.pending.toList ++ s.loads }
    | .loaded _ _ => none
  | .replace p =>
    match s.pc p with
    | .loaded _ result =>
      some { s with
        live := (tryReload s.live result).1
        held := (s.pc p).pending.getD s.held
        pc := Function.update s.pc p .idle }
    | .idle => none

/-- The initial value stands for version 0, loaded from it or not. -/
def reloaders (content : ℕ → Except ConfigError T) (init : T) :
    TransitionSystem (State P T) (Action P) where
  init s := s = ⟨0, init, 0, fun _ => .idle, []⟩
  step := step content

/-- No thread replaces while another has an older load in hand. -/
def InOrder (s : State P T) : Action P → Prop
  | .replace p => ∀ v, (s.pc p).pending = some v → ∀ q w, (s.pc q).pending = some w → v ≤ w
  | _ => True

def State.Returned (s : State P T) : Prop := ∀ p, s.pc p = .idle

/-- The live value is what its version loads to, or still the first. -/
def State.Genuine (content : ℕ → Except ConfigError T) (init : T) (s : State P T) : Prop :=
  content s.held = .ok s.live ∨ (s.held = 0 ∧ s.live = init)

structure Loaded (content : ℕ → Except ConfigError T) (init : T) (s : State P T) : Prop where
  genuine : s.Genuine content init
  results : ∀ p v r, s.pc p = .loaded v r → content v = r

/-- The live value is older than all that is in hand, and every load is held or in hand. -/
structure Ordered (s : State P T) : Prop where
  held_le : s.held ≤ s.version
  pending : ∀ p v, (s.pc p).pending = some v → s.held ≤ v ∧ v ≤ s.version
  covered : ∀ v ∈ s.loads, v ≤ s.held ∨ ∃ p w, (s.pc p).pending = some w ∧ v ≤ w

variable {content : ℕ → Except ConfigError T} {init : T} {s t : State P T} {a : Action P}

theorem loaded_step (h : Loaded content init s) (hstep : step content s a = some t) :
    Loaded content init t := by
  cases a with
  | change =>
    obtain rfl := Option.some.inj hstep
    exact ⟨h.genuine, h.results⟩
  | load p =>
    simp only [step] at hstep
    split at hstep
    · obtain rfl := Option.some.inj hstep
      refine ⟨h.genuine, fun q v r hq => ?_⟩
      by_cases hqp : q = p
      · subst hqp
        simp only [Function.update_self, Pc.loaded.injEq] at hq
        rw [← hq.1]
        exact hq.2
      · simp only [Function.update_of_ne hqp] at hq
        exact h.results q v r hq
    · cases hstep
  | replace p =>
    simp only [step] at hstep
    split at hstep
    · rename_i version result hp
      obtain rfl := Option.some.inj hstep
      refine ⟨?_, fun q v r hq => ?_⟩
      · cases result with
        | ok next =>
          left
          simpa [hp, Pc.pending] using h.results p version _ hp
        | error e => simpa [State.Genuine, hp, Pc.pending] using h.genuine
      · by_cases hqp : q = p
        · simp [hqp] at hq
        · simp only [Function.update_of_ne hqp] at hq
          exact h.results q v r hq
    · cases hstep

/-- What one step can do: leave the live value, load, or replace it by what is in hand. -/
inductive Effect (s : State P T) : Action P → State P T → Prop
  | change : Effect s .change { s with version := s.version + 1 }
  | load (p : P) (pc : Pc T) (h : s.pc p = .idle) (hpc : ∀ v, pc.pending = some v → v = s.version) :
      Effect s (.load p)
        { s with pc := Function.update s.pc p pc, loads := pc.pending.toList ++ s.loads }
  | kept (p : P) (h : (s.pc p).pending = none) :
      Effect s (.replace p) { s with pc := Function.update s.pc p .idle }
  | replaced (p : P) (v : ℕ) (next : T) (h : (s.pc p).pending = some v) :
      Effect s (.replace p) { s with live := next, held := v, pc := Function.update s.pc p .idle }

theorem Effect.of_step (h : step content s a = some t) : Effect s a t := by
  cases a with
  | change =>
    obtain rfl := Option.some.inj h
    exact .change
  | load p =>
    simp only [step] at h
    split at h
    · rename_i hp
      obtain rfl := Option.some.inj h
      refine .load p _ hp fun v hv => ?_
      cases hc : content s.version <;> simp [hc, Pc.pending] at hv
      exact hv.symm
    · cases h
  | replace p =>
    simp only [step] at h
    split at h
    · rename_i version result hp
      obtain rfl := Option.some.inj h
      cases result with
      | ok next =>
        have hpending : (s.pc p).pending = some version := by rw [hp]; rfl
        rw [hpending]
        exact .replaced p version next hpending
      | error e =>
        have hpending : (s.pc p).pending = none := by rw [hp]; rfl
        rw [hpending]
        exact .kept p hpending
    · cases h

theorem pending_update {p q : P} {pc : Pc T} {v : ℕ}
    (h : (Function.update s.pc p pc q).pending = some v) :
    (q = p ∧ pc.pending = some v) ∨ (q ≠ p ∧ (s.pc q).pending = some v) := by
  by_cases hqp : q = p
  · subst hqp
    rw [Function.update_self] at h
    exact .inl ⟨rfl, h⟩
  · rw [Function.update_of_ne hqp] at h
    exact .inr ⟨hqp, h⟩

theorem pending_update_of_ne {p q : P} {v : ℕ} (hqp : q ≠ p) (pc : Pc T)
    (h : (s.pc q).pending = some v) : (Function.update s.pc p pc q).pending = some v := by
  rwa [Function.update_of_ne hqp]

theorem ordered_step (h : Ordered s) (hC : InOrder s a) (hstep : step content s a = some t) :
    Ordered t := by
  cases Effect.of_step hstep with
  | change =>
    refine ⟨Nat.le_succ_of_le h.held_le, fun p v hp => ?_, h.covered⟩
    obtain ⟨hheld, hversion⟩ := h.pending p v hp
    exact ⟨hheld, Nat.le_succ_of_le hversion⟩
  | load p pc hp hpc =>
    refine ⟨h.held_le, fun q v hq => ?_, fun v hv => ?_⟩
    · rcases pending_update hq with ⟨-, hq⟩ | ⟨-, hq⟩
      · obtain rfl := hpc v hq
        exact ⟨h.held_le, Nat.le_refl _⟩
      · exact h.pending q v hq
    · rcases List.mem_append.mp hv with hv | hv
      · exact .inr ⟨p, v, by simpa using hv, Nat.le_refl _⟩
      · rcases h.covered v hv with hle | ⟨q, w, hq, hle⟩
        · exact .inl hle
        · have hqp : q ≠ p := fun he => by simp [he, hp, Pc.pending] at hq
          exact .inr ⟨q, w, pending_update_of_ne hqp _ hq, hle⟩
  | kept p hp =>
    refine ⟨h.held_le, fun q v hq => ?_, fun v hv => ?_⟩
    · rcases pending_update hq with ⟨-, hq⟩ | ⟨-, hq⟩
      · cases hq
      · exact h.pending q v hq
    · rcases h.covered v hv with hle | ⟨q, w, hq, hle⟩
      · exact .inl hle
      · have hqp : q ≠ p := fun he => by simp [he, hp] at hq
        exact .inr ⟨q, w, pending_update_of_ne hqp _ hq, hle⟩
  | replaced p v next hp =>
    obtain ⟨hheld, hversion⟩ := h.pending p v hp
    refine ⟨hversion, fun q w hq => ?_, fun u hu => ?_⟩
    · rcases pending_update hq with ⟨-, hq⟩ | ⟨-, hq⟩
      · cases hq
      · exact ⟨hC v hp q w hq, (h.pending q w hq).2⟩
    · rcases h.covered u hu with hle | ⟨q, w, hq, hle⟩
      · exact .inl (Nat.le_trans hle hheld)
      · by_cases hqp : q = p
        · subst hqp
          rw [hp] at hq
          obtain rfl := Option.some.inj hq
          exact .inl hle
        · exact .inr ⟨q, w, pending_update_of_ne hqp _ hq, hle⟩

theorem Ordered.held_le_step (h : Ordered s) (hstep : step content s a = some t) :
    s.held ≤ t.held := by
  cases Effect.of_step hstep with
  | change | load | kept => exact Nat.le_refl _
  | replaced p v next hp => exact (h.pending p v hp).1

omit [DecidableEq P] in
theorem Ordered.le_held_of_returned (h : Ordered s) (hs : s.Returned) :
    ∀ v ∈ s.loads, v ≤ s.held := by
  intro v hv
  rcases h.covered v hv with hle | ⟨p, w, hp, -⟩
  · exact hle
  · rw [hs p] at hp
    cases hp

theorem ordered_of_reachable (hs : (reloaders content init).ReachableUnder InOrder s) :
    Ordered s := by
  refine hs.invariant (I := Ordered) ?_ fun _ _ _ hI hC hstep => ordered_step hI hC hstep
  rintro s rfl
  exact ⟨Nat.le_refl _, fun p v hp => (by cases hp), by simp⟩

theorem loaded_of_reachable (hs : (reloaders content init).Reachable s) :
    Loaded content init s := by
  refine hs.invariant (I := Loaded content init) ?_ fun _ _ _ hI _ hstep => loaded_step hI hstep
  rintro s rfl
  exact ⟨.inr ⟨rfl, rfl⟩, fun p v r hp => by cases hp⟩

/-- A thread that has been overtaken takes the live value back. -/
theorem goes_back (h : ¬ InOrder s a) (hstep : step content s a = some t) :
    ∃ q u, step content t (.replace q) = some u ∧ u.held < t.held := by
  unfold InOrder at h
  split at h
  · rename_i p
    push Not at h
    obtain ⟨v, hv, q, w, hw, hlt⟩ := h
    have hqp : q ≠ p := fun he => by
      rw [he, hv] at hw
      obtain rfl := Option.some.inj hw
      omega
    cases Effect.of_step hstep with
    | kept _ hp => simp [hp] at hv
    | replaced _ v' next hp =>
      obtain rfl := Option.some.inj (hp.symm.trans hv)
      cases hpc : s.pc q with
      | idle => simp [hpc, Pc.pending] at hw
      | loaded version result =>
        refine ⟨q, _, by simp only [step, Function.update_of_ne hqp, hpc]; rfl, ?_⟩
        rw [hpc] at hw
        rw [hw]
        show w < v'
        omega
  · exact absurd trivial h

/-- The snapshot never goes back in runs whose reloads replace in the order they loaded, and
holds at least every loaded version once they have returned; each replace out of order lets
the next one take it back. -/
theorem live_monotone_of_inOrder (content : ℕ → Except ConfigError T) (init : T) :
    (∀ s : State P T, (reloaders content init).ReachableUnder InOrder s →
      s.Genuine content init ∧
        (∀ a t, step content s a = some t → s.held ≤ t.held) ∧
        (s.Returned → ∀ v ∈ s.loads, v ≤ s.held)) ∧
      ∀ (s t : State P T) a, ¬ InOrder s a → step content s a = some t →
        ∃ q u, step content t (.replace q) = some u ∧ u.held < t.held := by
  constructor
  · intro s hs
    have hordered := ordered_of_reachable hs
    exact ⟨(loaded_of_reachable hs.reachable).genuine,
      fun a t hstep => hordered.held_le_step hstep, hordered.le_held_of_returned⟩
  · exact fun s t a h hstep => goes_back h hstep

def numbered (version : ℕ) : Except ConfigError ℕ := .ok version

def unstarted : State Bool ℕ := ⟨0, 0, 0, fun _ => .idle, []⟩

theorem live_monotone_of_inOrder_twice :
    ∃ s, (reloaders numbered 0).run unstarted
        [.load true, .change, .load false, .replace true, .replace false] = some s ∧
      s.held = 1 ∧ ∀ v ∈ s.loads, v ≤ s.held := by
  have h₀ : (reloaders numbered 0).ReachableUnder InOrder unstarted := .init rfl
  have h₁ := h₀.step (a := Action.load true) trivial rfl
  have h₂ := h₁.step (a := Action.change) trivial rfl
  have h₃ := h₂.step (a := Action.load false) trivial rfl
  have h₄ := h₃.step (a := Action.replace true)
    (fun v hv q w hq => by cases hv; exact Nat.zero_le w) rfl
  have h₅ := h₄.step (a := Action.replace false)
    (fun v hv q w hq => by cases q <;> cases hv <;> cases hq; exact Nat.le_refl _) rfl
  have hlast := ((live_monotone_of_inOrder numbered 0).1 _ h₅).2.2
  exact ⟨_, rfl, rfl, hlast fun p => by cases p <;> rfl⟩

/-- The thread that loaded first replaces last, and the older version stays. -/
theorem older_load_replaces_last :
    ¬ ∀ s : State Bool ℕ, (reloaders numbered 0).Reachable s →
      (∀ a t, step numbered s a = some t → s.held ≤ t.held) ∧
        (s.Returned → ∀ v ∈ s.loads, v ≤ s.held) := by
  intro h
  have hrun : ∃ s, (reloaders numbered 0).run unstarted
      [.load true, .change, .load false, .replace false, .replace true] = some s ∧
      s.Returned ∧ 1 ∈ s.loads ∧ s.held = 0 :=
    ⟨_, rfl, fun p => (by cases p <;> rfl), List.mem_cons_self, rfl⟩
  obtain ⟨s, hs, hreturned, hmem, hheld⟩ := hrun
  have hle := (h s (.run (.init rfl) (fun _ _ _ => trivial) hs)).2 hreturned 1 hmem
  omega

end LiveOrder
end SharedDaemon
