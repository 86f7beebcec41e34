import Mathlib.Algebra.GroupWithZero.Nat
import Mathlib.Data.List.Basic

/-!
# Labelled transition systems with an executable step

A system gives its initial states and a partial step function. `run` executes a
list of actions, so a concrete schedule is evaluated; `ReachableUnder` collects the
states of all runs whose steps meet a condition in the state they start from.
-/

/-- Initial states and a step function; `none` says that the action is not enabled. -/
structure TransitionSystem (State Action : Type*) where
  init : State → Prop
  step : State → Action → Option State

namespace TransitionSystem

variable {State Action : Type*} (T : TransitionSystem State Action)

def run (s : State) : List Action → Option State
  | [] => some s
  | a :: as => (T.step s a).bind fun t => run t as

/-- What the steps of a run cost, where that depends on the state too. -/
def spent (cost : State → Action → ℕ) (s : State) : List Action → ℕ
  | [] => 0
  | a :: as => cost s a + (T.step s a).elim 0 fun t => spent cost t as

/-- The states of all runs each of whose steps meets `C` in the state before it. -/
inductive ReachableUnder (C : State → Action → Prop) : State → Prop
  | init {s} : T.init s → ReachableUnder C s
  | step {s t a} : ReachableUnder C s → C s a → T.step s a = some t → ReachableUnder C t

abbrev Reachable : State → Prop := T.ReachableUnder fun _ _ => True

def startAt (s : State) : TransitionSystem State Action := ⟨(· = s), T.step⟩

variable {T}

theorem ReachableUnder.mono {C D : State → Action → Prop} (hCD : ∀ s a, C s a → D s a)
    {s : State} (h : T.ReachableUnder C s) : T.ReachableUnder D s := by
  induction h with
  | init hs => exact .init hs
  | step _ hC hstep ih => exact .step ih (hCD _ _ hC) hstep

theorem ReachableUnder.reachable {C : State → Action → Prop} {s : State}
    (h : T.ReachableUnder C s) : T.Reachable s :=
  h.mono fun _ _ _ => trivial

/-- An invariant holds initially and is kept by every step that meets the condition. -/
theorem ReachableUnder.invariant {C : State → Action → Prop} {I : State → Prop}
    (hinit : ∀ s, T.init s → I s)
    (hstep : ∀ s a t, I s → C s a → T.step s a = some t → I t)
    {s : State} (h : T.ReachableUnder C s) : I s := by
  induction h with
  | init hs => exact hinit _ hs
  | step _ hC hs ih => exact hstep _ _ _ ih hC hs

/-- Each step of a run is, seen through `f`, a step of `U` or none at all. -/
theorem ReachableUnder.project {State' Action' : Type*} {U : TransitionSystem State' Action'}
    {C : State → Action → Prop} {D : State' → Action' → Prop} (f : State → State')
    (hinit : ∀ s, T.init s → U.init (f s))
    (hstep : ∀ s a t, C s a → T.step s a = some t →
      f t = f s ∨ ∃ b, D (f s) b ∧ U.step (f s) b = some (f t))
    {s : State} (h : T.ReachableUnder C s) : U.ReachableUnder D (f s) := by
  induction h with
  | init hs => exact .init (hinit _ hs)
  | step _ hC hs ih =>
    rcases hstep _ _ _ hC hs with heq | ⟨b, hD, hb⟩
    · rwa [heq]
    · exact .step ih hD hb

@[simp] theorem run_nil (s : State) : T.run s [] = some s := rfl

theorem run_cons_eq_some {s t : State} {a : Action} {as : List Action} :
    T.run s (a :: as) = some t ↔ ∃ u, T.step s a = some u ∧ T.run u as = some t := by
  simp [run, Option.bind_eq_some_iff]

theorem run_single {s t : State} {a : Action} (h : T.step s a = some t) : T.run s [a] = some t :=
  run_cons_eq_some.mpr ⟨t, h, rfl⟩

theorem run_append (s : State) (as bs : List Action) :
    T.run s (as ++ bs) = (T.run s as).bind fun t => T.run t bs := by
  induction as generalizing s with
  | nil => rfl
  | cons a as ih =>
    cases h : T.step s a with
    | none => simp [run, h]
    | some t => simp [run, h, ih]

theorem run_trans {s t u : State} {as bs : List Action} (hrun : T.run s as = some t)
    (hrest : T.run t bs = some u) : T.run s (as ++ bs) = some u := by
  rw [run_append, hrun]
  exact hrest

/-- Where some run brings a measure down as long as `I` holds and `G` does not, a run leads
to `G`. -/
theorem exists_run_of_measure {I G : State → Prop} (m : State → ℕ)
    (h : ∀ s, I s → G s ∨ ∃ as t, T.run s as = some t ∧ I t ∧ m t < m s) {s : State} (hs : I s) :
    ∃ as t, T.run s as = some t ∧ G t := by
  induction hn : m s using Nat.strongRecOn generalizing s with
  | ind n ih =>
    rcases h s hs with hgoal | ⟨as, t, hrun, ht, hlt⟩
    · exact ⟨[], s, rfl, hgoal⟩
    · obtain ⟨bs, u, hrest, hu⟩ := ih (m t) (hn ▸ hlt) ht rfl
      exact ⟨as ++ bs, u, run_trans hrun hrest, hu⟩

/-- A run costs no more than the potential it starts with and what its steps add to it. -/
theorem spent_le_of_potential {I : State → Prop} (cost : State → Action → ℕ) (gain : Action → ℕ)
    (m : State → ℕ) {as : List Action} {s t : State}
    (hstep : ∀ s a t, a ∈ as → I s → T.step s a = some t → I t ∧ cost s a + m t ≤ m s + gain a)
    (hs : I s) (hrun : T.run s as = some t) :
    T.spent cost s as + m t ≤ m s + (as.map gain).sum := by
  induction as generalizing s with
  | nil =>
    obtain rfl := Option.some.inj hrun
    simp [spent]
  | cons a as ih =>
    obtain ⟨u, hu, hrest⟩ := run_cons_eq_some.mp hrun
    obtain ⟨hI, hpaid⟩ := hstep s a u (by simp) hs hu
    have hle := ih (fun s b t hb => hstep s b t (List.mem_cons_of_mem a hb)) hI hrest
    simp only [spent, hu, Option.elim_some, List.map_cons, List.sum_cons]
    omega

theorem spent_eq_sum (cost : Action → ℕ) {as : List Action} {s t : State}
    (hrun : T.run s as = some t) : T.spent (fun _ => cost) s as = (as.map cost).sum := by
  induction as generalizing s with
  | nil => rfl
  | cons a as ih =>
    obtain ⟨u, hu, hrest⟩ := run_cons_eq_some.mp hrun
    simp [spent, hu, ih hrest]

theorem length_le_of_measure {I : State → Prop} (m : State → ℕ) {as : List Action} {s t : State}
    (hstep : ∀ s a t, a ∈ as → I s → T.step s a = some t → I t ∧ m t < m s)
    (hs : I s) (hrun : T.run s as = some t) : as.length + m t ≤ m s := by
  have hcost := spent_le_of_potential (fun _ _ => 1) (fun _ => 0) m
    (fun s a t ha hI hst => (hstep s a t ha hI hst).imp_right fun hlt => by omega) hs hrun
  simpa [spent_eq_sum _ hrun] using hcost

theorem run_invariant {I : State → Prop} {as : List Action} {s t : State}
    (hstep : ∀ s a t, a ∈ as → I s → T.step s a = some t → I t)
    (hs : I s) (hrun : T.run s as = some t) : I t := by
  induction as generalizing s with
  | nil => simpa using (Option.some.inj hrun) ▸ hs
  | cons a as ih =>
    obtain ⟨u, hu, hrest⟩ := run_cons_eq_some.mp hrun
    have hI : I u := hstep s a u (by simp) hs hu
    exact ih (fun s b t hb => hstep s b t (List.mem_cons_of_mem a hb)) hI hrest

/-- What each step keeps between the actions taken so far and the state they lead to. -/
theorem run_history {I : List Action → State → Prop} {as : List Action} {s t : State}
    (hstep : ∀ past s a t, I past s → T.step s a = some t → I (past ++ [a]) t)
    (hs : I [] s) (hrun : T.run s as = some t) : I as t := by
  suffices h : ∀ as past s, I past s → T.run s as = some t → I (past ++ as) t from
    h as [] s hs hrun
  intro as
  induction as with
  | nil =>
    intro past s hI hrun
    obtain rfl := Option.some.inj hrun
    simpa using hI
  | cons a as ih =>
    intro past s hI hrun
    obtain ⟨u, hu, hrest⟩ := run_cons_eq_some.mp hrun
    simpa using ih (past ++ [a]) u (hstep past s a u hI hu) hrest

theorem ReachableUnder.run {C : State → Action → Prop} {s t : State} {as : List Action}
    (hs : T.ReachableUnder C s) (hC : ∀ s, ∀ a ∈ as, C s a) (hrun : T.run s as = some t) :
    T.ReachableUnder C t :=
  run_invariant (fun s a _ ha h hstep => .step h (hC s a ha) hstep) hs hrun

end TransitionSystem
