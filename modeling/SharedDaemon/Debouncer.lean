import Mathlib.Data.List.Basic

/-!
# Debouncing, by its log

A debouncer keeps the time of the last trigger and fires once that has rested. It is
judged by its log of triggers and fires, the latest first.
-/

namespace Debouncer

inductive Mark
  | trigger (time : ℕ)
  | fire (time : ℕ)
  deriving DecidableEq, Repr

def Mark.time : Mark → ℕ
  | .trigger t | .fire t => t

def Mark.isTrigger : Mark → Bool
  | .trigger _ => true
  | .fire _ => false

def Mark.isFire : Mark → Bool
  | .trigger _ => false
  | .fire _ => true

def unfired : List Mark → List ℕ
  | .trigger t :: log => t :: unfired log
  | .fire _ :: _ | [] => []

@[simp] theorem unfired_nil : unfired [] = [] := rfl

@[simp] theorem unfired_trigger (t : ℕ) (log : List Mark) :
    unfired (.trigger t :: log) = t :: unfired log := rfl

@[simp] theorem unfired_fire (t : ℕ) (log : List Mark) : unfired (.fire t :: log) = [] := rfl

structure Sound (debounce : ℕ) (pending : Option ℕ) (clock : ℕ) (log : List Mark) : Prop where
  pending : pending = (unfired log).head?
  past : ∀ m ∈ log, m.time ≤ clock
  ordered : log.Pairwise fun newer older => older.time ≤ newer.time
  rested : ∀ newer u older, log = newer ++ .fire u :: older →
    ∃ t, (unfired older).head? = some t ∧ t + debounce ≤ u

variable {debounce clock : ℕ} {pending : Option ℕ} {log : List Mark}

theorem sound_nil (debounce clock : ℕ) : Sound debounce none clock [] :=
  ⟨rfl, by simp, .nil, fun newer u older h => by simp at h⟩

theorem Sound.tick (h : Sound debounce pending clock log) {now : ℕ} (hnow : clock ≤ now) :
    Sound debounce pending now log :=
  ⟨h.pending, fun m hm => Nat.le_trans (h.past m hm) hnow, h.ordered, h.rested⟩

theorem Sound.trigger (h : Sound debounce pending clock log) {now : ℕ} (hnow : clock ≤ now) :
    Sound debounce (some now) now (.trigger now :: log) := by
  have hpast := (h.tick hnow).past
  refine ⟨rfl, ?_, List.pairwise_cons.mpr ⟨hpast, h.ordered⟩, ?_⟩
  · intro m hm
    rcases List.mem_cons.mp hm with rfl | hm
    · exact Nat.le_refl _
    · exact hpast m hm
  · intro newer u older heq
    cases newer with
    | nil => simp at heq
    | cons m newer => exact h.rested newer u older (List.cons.inj heq).2

theorem Sound.triggers (h : Sound debounce pending clock log) {now : ℕ} (hnow : clock ≤ now)
    (n : ℕ) :
    Sound debounce (if 0 < n then some now else pending) now
      (List.replicate n (.trigger now) ++ log) := by
  induction n with
  | zero => simpa using h.tick hnow
  | succ n ih => simpa [List.replicate_succ] using ih.trigger (Nat.le_refl now)

theorem Sound.fire (h : Sound debounce pending clock log) {t : ℕ} (hpending : pending = some t)
    (hrest : t + debounce ≤ clock) : Sound debounce none clock (.fire clock :: log) := by
  refine ⟨rfl, ?_, List.pairwise_cons.mpr ⟨h.past, h.ordered⟩, ?_⟩
  · intro m hm
    rcases List.mem_cons.mp hm with rfl | hm
    · exact Nat.le_refl _
    · exact h.past m hm
  · intro newer u older heq
    cases newer with
    | nil =>
      obtain ⟨hfire, rfl⟩ := List.cons.inj heq
      obtain rfl := Mark.fire.inj hfire
      exact ⟨t, h.pending.symm.trans hpending, hrest⟩
    | cons m newer => exact h.rested newer u older (List.cons.inj heq).2

theorem mem_of_mem_unfired {t : ℕ} {log : List Mark} (h : t ∈ unfired log) :
    .trigger t ∈ log := by
  induction log with
  | nil => simp at h
  | cons m log ih =>
    cases m with
    | trigger u =>
      rcases List.mem_cons.mp h with rfl | h
      · simp
      · simp [ih h]
    | fire u => simp at h

theorem mem_unfired_append {newer older : List Mark} (hnone : ∀ u, .fire u ∉ newer) (t : ℕ) :
    t ∈ unfired (newer ++ .trigger t :: older) := by
  induction newer with
  | nil => simp
  | cons m newer ih =>
    cases m with
    | trigger u => simp [ih fun u hu => hnone u (by simp [hu])]
    | fire u => exact absurd List.mem_cons_self (hnone u)

theorem le_of_head?_unfired {t : ℕ} {log : List Mark}
    (hordered : log.Pairwise fun newer older => older.time ≤ newer.time)
    (h : (unfired log).head? = some t) : ∀ m ∈ log, m.time ≤ t := by
  cases log with
  | nil => simp at h
  | cons m log =>
    cases m with
    | trigger u =>
      obtain rfl : u = t := by simpa using h
      intro m hm
      rcases List.mem_cons.mp hm with rfl | hm
      · exact Nat.le_refl _
      · exact (List.pairwise_cons.mp hordered).1 m hm
    | fire u => simp at h

theorem Sound.latest (h : Sound debounce pending clock log) {t : ℕ} (ht : pending = some t) :
    t ∈ unfired log ∧ ∀ m ∈ log, m.time ≤ t := by
  have hhead := h.pending.symm.trans ht
  exact ⟨List.mem_of_mem_head? (by rw [hhead]; rfl), le_of_head?_unfired h.ordered hhead⟩

theorem Sound.pending_le (h : Sound debounce pending clock log) {t : ℕ} (ht : pending = some t) :
    t ≤ clock :=
  h.past (.trigger t) (mem_of_mem_unfired (h.latest ht).1)

/-- A fire comes after a trigger that no other fire answered, and after its rest. -/
theorem Sound.fire_rested (h : Sound debounce pending clock log) {newer older : List Mark} {u : ℕ}
    (heq : log = newer ++ .fire u :: older) :
    ∃ t ∈ unfired older, t + debounce ≤ u ∧ ∀ m ∈ older, m.time ≤ t := by
  obtain ⟨t, hhead, hrest⟩ := h.rested newer u older heq
  have hordered := h.ordered
  rw [heq, List.pairwise_append, List.pairwise_cons] at hordered
  exact ⟨t, List.mem_of_mem_head? (by rw [hhead]; rfl), hrest,
    le_of_head?_unfired hordered.2.1.2 hhead⟩

/-- No trigger is forgotten: a fire at or after it answers it, or it is still pending. -/
theorem Sound.answered (h : Sound debounce pending clock log) {newer older : List Mark} {t : ℕ}
    (heq : log = newer ++ .trigger t :: older) :
    (∃ u, .fire u ∈ newer ∧ t ≤ u) ∨ ∃ p, pending = some p ∧ t ≤ p := by
  by_cases hfire : ∃ u, .fire u ∈ newer
  · obtain ⟨u, hu⟩ := hfire
    have hordered := h.ordered
    rw [heq, List.pairwise_append] at hordered
    exact .inl ⟨u, hu, hordered.2.2 _ hu (.trigger t) List.mem_cons_self⟩
  · right
    have hmem : t ∈ unfired log := by
      rw [heq]
      exact mem_unfired_append (fun u hu => hfire ⟨u, hu⟩) t
    obtain ⟨p, hp⟩ := Option.isSome_iff_exists.mp
      (List.isSome_head?.mpr (List.ne_nil_of_mem hmem))
    have hle := le_of_head?_unfired h.ordered hp (.trigger t) (mem_of_mem_unfired hmem)
    exact ⟨p, h.pending.trans hp, hle⟩

/-- Fires that all follow an unanswered trigger are no more than the triggers. -/
theorem countP_isFire_le {log : List Mark}
    (h : ∀ newer u older, log = newer ++ .fire u :: older → unfired older ≠ []) :
    log.countP Mark.isFire + (if unfired log = [] then 0 else 1) ≤ log.countP Mark.isTrigger := by
  induction log with
  | nil => simp
  | cons m log ih =>
    have hlog := ih fun newer u older heq => h (m :: newer) u older (by rw [heq]; rfl)
    cases m with
    | trigger t =>
      simp only [List.countP_cons, Mark.isFire, Mark.isTrigger, unfired_trigger]
      simp
      omega
    | fire u =>
      have hne : unfired log ≠ [] := h [] u log rfl
      simp only [List.countP_cons, Mark.isFire, Mark.isTrigger, unfired_fire]
      simp [hne] at hlog ⊢
      omega

theorem Sound.countP_isFire_le (h : Sound debounce pending clock log) :
    log.countP Mark.isFire ≤ log.countP Mark.isTrigger := by
  have hanswers : ∀ newer u older, log = newer ++ .fire u :: older → unfired older ≠ [] := by
    intro newer u older heq hnil
    obtain ⟨t, hhead, -⟩ := h.rested newer u older heq
    simp [hnil] at hhead
  have hcount := Debouncer.countP_isFire_le hanswers
  omega

end Debouncer
