import SharedDaemon.Watch

/-!
# What a reload is paid from

Relevant events on the way, a change the watcher has noticed, and specs that it has yet to
attach can still make it fire. Other traffic cannot.
-/

namespace SharedDaemon
namespace Watch

variable {setup : Setup} {s t : State}

def unattached (attached : List Bool) : ℕ := attached.countP fun b => !b

def relevantItem (specs : List WatchSpec) : Item → Bool
  | .ok e => relevant specs e
  | .error _ => false

def Pc.fires : Pc → ℕ
  | .firing => 1
  | _ => 0

/-- How many reloads may still be fired when no relevant event is raised. -/
def State.fuel (setup : Setup) (s : State) : ℕ :=
  (s.kernel ++ s.queue).countP (relevantItem setup.specs) + unattached s.attached +
    s.pending.elim 0 fun _ => 1

def Action.reloads : Action → ℕ
  | .fired => 1
  | _ => 0

def Action.raisesRelevant (specs : List WatchSpec) : Action → ℕ
  | .raise item => if relevantItem specs item then 1 else 0
  | _ => 0

theorem unattached_attachPending (os : ℕ → DirAnswers) (specs : List WatchSpec)
    (attached : List Bool) :
    unattached (attachPending os specs attached).2 +
      (if (attachPending os specs attached).1 then 1 else 0) ≤ unattached attached := by
  have hpass (k : ℕ) :
      let now := ((specs.zip attached).zipIdx k).map fun p => p.1.2 || attachSpec (os p.2) p.1.1
      unattached now + (if (now.zip attached).any (fun p => p.1 && !p.2) then 1 else 0) ≤
        unattached attached := by
    induction specs generalizing attached k with
    | nil => simp [unattached]
    | cons spec specs ih =>
      cases attached with
      | nil => simp [unattached]
      | cons done attached =>
        have hrest := ih attached (k + 1)
        simp only [unattached] at hrest ⊢
        cases done <;> cases hspec : attachSpec (os k) spec <;>
          simp [hspec] at hrest ⊢ <;> omega
  exact hpass 0

theorem attach_fuel (s : State) (setup : Setup) (os : ℕ → DirAnswers) (d : ℕ) :
    (s.attach setup os d).fuel setup ≤ s.fuel setup := by
  have hle := unattached_attachPending os setup.specs s.attached
  simp only [State.attach, State.fuel]
  split <;> rename_i hnewly <;> simp [hnewly] at hle ⊢ <;> omega

theorem onEvent_fuel (s : State) (setup : Setup) (e : Event) (os : ℕ → DirAnswers) (d₁ d₂ : ℕ) :
    (s.onEvent setup e os d₁ d₂).fuel setup ≤
      (s.attach setup os d₁).fuel setup + if relevantItem setup.specs (.ok e) then 1 else 0 := by
  by_cases hrel : relevant setup.specs e <;>
    simp [State.onEvent, State.fuel, relevantItem, hrel]

theorem onTimeout_fuel (s : State) (setup : Setup) (os : ℕ → DirAnswers) (d₁ d₂ : ℕ) :
    (s.onTimeout setup os d₁ d₂).pc.fires + (s.onTimeout setup os d₁ d₂).fuel setup ≤
      (s.attach setup os d₁).fuel setup := by
  simp only [State.onTimeout]
  split
  · rename_i hdue
    obtain ⟨t, ht, -⟩ := (Option.any_eq_true ..).mp hdue
    change (s.attach setup os d₁).pending = some t at ht
    simp [State.fuel, ht, Pc.fires]
    omega
  · simp [State.fuel, Pc.fires]

/-- Every reload is paid for when it is fired. -/
theorem fuel_step {a : Action} (hstep : step setup s a = some t) :
    a.reloads + t.pc.fires + t.fuel setup ≤
      s.pc.fires + s.fuel setup + a.raisesRelevant setup.specs := by
  cases Step.of_step hstep with
  | setStop | tick => simp [State.fuel, Action.reloads]
  | raise item =>
    simp only [State.fuel, Action.reloads, Action.raisesRelevant, List.countP_append,
      List.countP_singleton]
    omega
  | deliver item rest hk =>
    simp only [State.fuel, Action.reloads, hk, List.countP_append, List.countP_cons,
      List.countP_nil]
    omega
  | startup os hpc =>
    have hle := unattached_attachPending os setup.specs s.attached
    simp only [State.fuel, Action.reloads, Pc.fires]
    omega
  | stopped hpc | wait hpc | fired hpc =>
    simp only [State.fuel, Action.reloads, hpc, Pc.fires]
    omega
  | event os d₁ d₂ deadline e rest hpc hq =>
    have hle := attach_fuel { s with queue := rest } setup os d₁
    have hevent := onEvent_fuel { s with queue := rest } setup e os d₁ d₂
    have htaken : State.fuel setup { s with queue := rest } +
        (if relevantItem setup.specs (.ok e) then 1 else 0) = s.fuel setup := by
      simp only [State.fuel, hq, List.countP_append, List.countP_cons]
      omega
    have htop : (({ s with queue := rest } : State).onEvent setup e os d₁ d₂).pc = .top := rfl
    simp only [Action.reloads, htop, Pc.fires]
    omega
  | error os d₁ d₂ deadline text rest hpc hq =>
    simp [State.fuel, Action.reloads, Pc.fires, hq, hpc, relevantItem]
  | timeout os d₁ d₂ deadline hpc hq hdeadline =>
    have hle := attach_fuel s setup os d₁
    have htimeout := onTimeout_fuel s setup os d₁ d₂
    simp only [Action.reloads]
    omega

/-- Whether a step gets the loop on. A round with nothing to take and nothing pending does
not, nor does the clock. -/
def work (s : State) : Action → ℕ
  | .deliver | .startup _ | .recv _ _ _ | .fired => 1
  | .timeout _ _ _ => s.pending.elim 0 fun _ => 1
  | .setStop | .tick _ | .raise _ | .loopTop => 0

def Pc.starts : Pc → ℕ
  | .starting => 1
  | _ => 0

/-- What the loop has left to do, apart from a reload in progress; `reload` is the work of one. -/
def State.rest (setup : Setup) (reload : ℕ) (s : State) : ℕ :=
  (reload + 1) * s.fuel setup + s.onTheWay + s.pc.starts

def Action.gain (setup : Setup) (reload : ℕ) : Action → ℕ
  | .raise item => (if relevantItem setup.specs item then reload + 1 else 0) + 2
  | _ => 0

/-- The clock has passed the pending change, and a wait lasts until it has rested. -/
structure Paced (setup : Setup) (s : State) : Prop where
  past : ∀ t₀, s.pending = some t₀ → t₀ ≤ s.clock
  rests : ∀ deadline t₀, s.pc = .waiting deadline → s.pending = some t₀ →
    t₀ + setup.debounce ≤ deadline

theorem past_attach (h : Paced setup s) (os : ℕ → DirAnswers) (d t₀ : ℕ)
    (ht : (s.attach setup os d).pending = some t₀) : t₀ ≤ s.clock + d := by
  simp only [State.attach] at ht
  split at ht
  · obtain rfl := Option.some.inj ht
    exact Nat.le_refl _
  · exact Nat.le_add_right_of_le (h.past t₀ ht)

theorem paced_step {a : Action} (h : Paced setup s) (hstep : step setup s a = some t) :
    Paced setup t := by
  cases Step.of_step hstep with
  | setStop | raise | deliver => exact ⟨h.past, h.rests⟩
  | tick d => exact ⟨fun t₀ ht => Nat.le_add_right_of_le (h.past t₀ ht), h.rests⟩
  | startup | stopped | error | fired => exact ⟨h.past, by simp⟩
  | wait =>
    refine ⟨h.past, fun deadline t₀ hpc ht => ?_⟩
    obtain rfl := Pc.waiting.inj hpc
    have hpast := h.past t₀ ht
    have hpending : s.pending = some t₀ := ht
    simp only [hpending, timeoutFrom]
    omega
  | event os d₁ d₂ deadline e rest hpc hq =>
    have hattach := past_attach (s := { s with queue := rest }) ⟨h.past, h.rests⟩ os d₁
    refine ⟨fun t₀ ht => ?_, by simp [State.onEvent]⟩
    simp only [State.onEvent] at ht
    split at ht
    · obtain rfl := Option.some.inj ht
      exact Nat.le_refl _
    · exact Nat.le_add_right_of_le (hattach t₀ ht)
  | timeout os d₁ d₂ deadline hpc hq hdeadline =>
    have hattach := past_attach h os d₁
    simp only [State.onTimeout]
    split
    · exact ⟨by simp, by simp⟩
    · exact ⟨fun t₀ ht => Nat.le_add_right_of_le (hattach t₀ ht), by simp⟩

theorem paced_reachable (hs : (watcher setup).Reachable s) : Paced setup s := by
  refine hs.invariant (I := Paced setup) ?_ fun _ _ _ h _ hstep => paced_step h hstep
  rintro s rfl
  exact ⟨by simp [initial], by simp [initial]⟩

theorem entered_of_reachable (hs : (watcher setup).Reachable s) (hstop : s.stop = false) :
    s.pc ≠ .stopped := by
  intro hpc
  have hkept : s.pc = .stopped → s.stop = true := by
    refine hs.invariant (I := fun s => s.pc = .stopped → s.stop = true) ?_
      fun _ _ _ hI _ hstep => stopped_step hI hstep
    rintro s rfl hpc
    cases hpc
  rw [hkept hpc] at hstop
  cases hstop

/-- A timeout with a change pending fires, unless it attaches a spec. -/
theorem onTimeout_work (h : Paced setup s) {deadline t₀ : ℕ} (hpc : s.pc = .waiting deadline)
    (hdeadline : deadline ≤ s.clock) (ht : s.pending = some t₀) (os : ℕ → DirAnswers)
    (d₁ d₂ : ℕ) :
    (s.onTimeout setup os d₁ d₂).pc.fires = 1 ∨
      (s.onTimeout setup os d₁ d₂).fuel setup < s.fuel setup := by
  have hrests := h.rests deadline t₀ hpc ht
  have hle := unattached_attachPending os setup.specs s.attached
  simp only [State.onTimeout]
  split
  · exact .inl rfl
  · rename_i hdue
    right
    cases hnewly : (attachPending os setup.specs s.attached).1 with
    | false =>
      refine absurd ?_ hdue
      simp only [State.due, State.attach, hnewly, ht, Bool.false_eq_true, if_false,
        Option.any_some, decide_eq_true_eq]
      omega
    | true =>
      simp [State.fuel, State.attach, hnewly, ht] at hle ⊢
      omega

theorem rest_of_fuel_lt (reload : ℕ) {u : State} (h : t.fuel setup < u.fuel setup) :
    (reload + 1) * t.fuel setup + (reload + 1) ≤ (reload + 1) * u.fuel setup := by
  rw [← Nat.mul_succ]
  exact Nat.mul_le_mul_left _ h

theorem work_step {a : Action} (h : Paced setup s) (ha : a ≠ .fired) (reload : ℕ)
    (hstep : step setup s a = some t) :
    work s a + reload * t.pc.fires + t.rest setup reload ≤
      reload * s.pc.fires + s.rest setup reload + a.gain setup reload := by
  cases Step.of_step hstep with
  | setStop | tick => simp [work, State.rest, State.fuel, State.onTheWay, Action.gain]
  | raise item =>
    simp only [work, State.rest, State.fuel, State.onTheWay, Action.gain, List.countP_append,
      List.countP_singleton, List.length_append, List.length_singleton, Nat.mul_add]
    split <;> omega
  | deliver item rest hk =>
    simp only [work, State.rest, State.fuel, State.onTheWay, Action.gain, hk, List.countP_append,
      List.countP_cons, List.countP_nil, List.length_append, List.length_cons, List.length_nil,
      Nat.mul_add]
    omega
  | startup os hpc =>
    have hfuel : State.fuel setup { s with
        pc := .top, attached := (attachPending os setup.specs s.attached).2 } ≤ s.fuel setup := by
      have hle := unattached_attachPending os setup.specs s.attached
      simp only [State.fuel]
      omega
    have hmul := Nat.mul_le_mul_left (reload + 1) hfuel
    simp only [work, State.rest, State.onTheWay, Action.gain, hpc, Pc.fires, Pc.starts]
    omega
  | stopped hpc | wait hpc =>
    simp [work, State.rest, State.fuel, State.onTheWay, Action.gain, hpc, Pc.fires, Pc.starts]
  | event os d₁ d₂ deadline e rest hpc hq =>
    have hfuel : (({ s with queue := rest } : State).onEvent setup e os d₁ d₂).fuel setup ≤
        s.fuel setup := by
      have hpaid := fuel_step hstep
      have hfires : s.pc.fires = 0 := by simp [hpc, Pc.fires]
      simp only [Action.reloads, Action.raisesRelevant, hfires] at hpaid
      omega
    have hmul := Nat.mul_le_mul_left (reload + 1) hfuel
    have hway : (({ s with queue := rest } : State).onEvent setup e os d₁ d₂).onTheWay + 1 =
        s.onTheWay := by
      simp only [State.onTheWay, State.onEvent, State.attach, hq, List.length_cons]
      omega
    have htop : (({ s with queue := rest } : State).onEvent setup e os d₁ d₂).pc = .top := rfl
    simp only [work, State.rest, Action.gain, htop, Pc.fires, Pc.starts]
    omega
  | error os d₁ d₂ deadline text rest hpc hq =>
    simp [work, State.rest, State.fuel, State.onTheWay, Action.gain, Pc.fires, Pc.starts, hq, hpc,
      relevantItem]
    omega
  | timeout os d₁ d₂ deadline hpc hq hdeadline =>
    have hfuel := Nat.le_trans (onTimeout_fuel s setup os d₁ d₂) (attach_fuel s setup os d₁)
    obtain ⟨hkernel, hqueue, -⟩ := onTimeout_spec s setup os d₁ d₂
    have hstarts : (s.onTimeout setup os d₁ d₂).pc.starts = 0 := by
      simp only [State.onTimeout]
      split <;> rfl
    have hwork : work s (.timeout os d₁ d₂) ≤ 1 ∧ (work s (.timeout os d₁ d₂) = 1 →
        (s.onTimeout setup os d₁ d₂).pc.fires = 1 ∨
          (s.onTimeout setup os d₁ d₂).fuel setup < s.fuel setup) := by
      cases hpending : s.pending with
      | none => simp [work, hpending]
      | some t₀ => exact ⟨by simp [work, hpending],
          fun _ => onTimeout_work h hpc hdeadline hpending os d₁ d₂⟩
    have hfires : (s.onTimeout setup os d₁ d₂).pc.fires = 0 ∨
        (s.onTimeout setup os d₁ d₂).pc.fires = 1 := by
      cases (s.onTimeout setup os d₁ d₂).pc <;> simp [Pc.fires]
    simp only [State.rest, State.onTheWay, hkernel, hqueue, hstarts, Action.gain]
    have hcost : work s (.timeout os d₁ d₂) + reload * (s.onTimeout setup os d₁ d₂).pc.fires +
        (reload + 1) * (s.onTimeout setup os d₁ d₂).fuel setup ≤ (reload + 1) * s.fuel setup := by
      rcases hfires with hzero | hone
      · by_cases hidle : work s (.timeout os d₁ d₂) = 0
        · have hmul := Nat.mul_le_mul_left (reload + 1) hfuel
          simp only [hzero, hidle, Nat.zero_add] at hmul ⊢
          omega
        · have hlt := rest_of_fuel_lt reload
            ((hwork.2 (by omega)).resolve_left (by simp [hzero]))
          rw [hzero]
          omega
      · have hlt : (s.onTimeout setup os d₁ d₂).fuel setup < s.fuel setup := by omega
        have hlt := rest_of_fuel_lt reload hlt
        rw [hone]
        omega
    omega
  | fired => exact absurd rfl ha

end Watch
end SharedDaemon
