import SharedDaemon.Seeding

/-!
# Seeding among other writers

A load looks for the file and later opens it for writing; what somebody puts there in the
meantime is lost.
-/

namespace SharedDaemon
namespace Seeding

open StdIo StdPath Config TransitionSystem

variable {P : Type*} [DecidableEq P] {T : Type}

/-- A load opens its file for writing only while there is still none. -/
def StillMissing (s : State P T) : Action P → Prop
  | .load _ (.openFile none) => s.disk.path = none
  | _ => True

def State.Complete (s : State P T) (i : ℕ) : Prop :=
  ∀ p offset rest, s.pc p ≠ .writing i offset rest

def State.Keeps (s t : State P T) (i : ℕ) : Prop :=
  t.disk.path = some i ∧ t.disk.content i = s.disk.content i

/-- Handles are of files their loads have made, and the numbers of all files are used up. -/
structure Owned (s : State P T) : Prop where
  handle : ∀ p i offset rest, s.pc p = .writing i offset rest →
    s.disk.author i = some p ∧ i < s.disk.nextIno
  path : ∀ i, s.disk.path = some i → i < s.disk.nextIno

theorem writing_afterRead (f : JsonFile) (codec : Codec T) (got : Except IoError String)
    (i offset : ℕ) (rest : List UInt8) : afterRead f codec got ≠ .writing i offset rest := by
  cases got with
  | ok text => simp [afterRead]
  | error e =>
    simp only [afterRead]
    split
    · cases f.seed <;> simp
    · simp

theorem writing_afterCreateDir (f : JsonFile) (codec : Codec T) (fault : Option IoError)
    (i offset : ℕ) (rest : List UInt8) : afterCreateDir f codec fault ≠ .writing i offset rest := by
  unfold afterCreateDir
  split
  · simp
  · split <;> simp

theorem writing_afterWrite {f : JsonFile} {codec : Codec T} {ino offset : ℕ} {rest : List UInt8}
    {n i offset' : ℕ} {rest' : List UInt8}
    (h : afterWrite f codec ino offset rest n = .writing i offset' rest') : i = ino := by
  unfold afterWrite at h
  split at h
  · cases h
  · split at h
    · cases h
    · exact (Pc.writing.inj h).1.symm

/-- What a step of a load does to the disk and to its own handle. -/
inductive Touch (s : State P T) (p : P) (c : Call) (t : State P T) : Prop
  | untouched (hdisk : t.disk = s.disk)
      (hpc : ∀ i offset rest, t.pc p = .writing i offset rest → s.pc p = .writing i offset rest)
  | opened (text : List UInt8) (hc : c = .openFile none) (h : s.pc p = .opening text)
      (hdisk : t.disk = (s.disk.openTruncate p).1)
      (hpc : t.pc p = .writing (s.disk.openTruncate p).2 0 text)
  | written (i offset : ℕ) (rest chunk : List UInt8) (h : s.pc p = .writing i offset rest)
      (hdisk : t.disk = s.disk.write i offset chunk)
      (hpc : ∀ j offset' rest', t.pc p = .writing j offset' rest' → j = i)

theorem Touch.of_step {f : JsonFile} {codec : Codec T} {s t : State P T} {p : P} {c : Call}
    (hstep : loadStep f codec s p c = some t) : Touch s p c t := by
  cases Effect.of_step hstep with
  | start | crash => exact .untouched rfl fun i offset rest h => by simp at h
  | read fault =>
    refine .untouched rfl fun i offset rest h => ?_
    rw [goto_pc_self] at h
    exact absurd h (writing_afterRead f codec _ i offset rest)
  | createDirAll fault =>
    refine .untouched rfl fun i offset rest h => ?_
    rw [goto_pc_self] at h
    exact absurd h (writing_afterCreateDir f codec fault i offset rest)
  | notOpened | notWritten => exact .untouched rfl fun i offset rest h => by simp at h
  | opened text hpc => exact .opened text rfl hpc rfl (goto_pc_self _ _ _)
  | interrupted => exact .untouched rfl fun _ _ _ h => h
  | written ino offset rest n hpc =>
    refine .written ino offset rest _ hpc rfl fun j offset' rest' h => ?_
    rw [goto_pc_self] at h
    exact writing_afterWrite h

variable {f : P → JsonFile} {codec : P → Codec T} {s t : State P T}

omit [DecidableEq P] in
/-- A new file at the path, whoever makes it, is no file that has a handle. -/
theorem Owned.link (h : Owned s) (author : Option P) (content : List UInt8) :
    Owned { s with disk := s.disk.link author content } := by
  refine ⟨fun p i offset rest hp => ?_, fun i hi => ?_⟩
  · obtain ⟨hauthor, hlt⟩ := h.handle p i offset rest hp
    refine ⟨?_, Nat.lt_succ_of_lt hlt⟩
    rw [← hauthor]
    exact Function.update_of_ne (Nat.ne_of_lt hlt) _ _
  · obtain rfl := Option.some.inj hi
    exact Nat.lt_succ_self _

theorem owned_load {p : P} {c : Call} (h : Owned s) (hC : StillMissing s (.load p c))
    (hstep : loadStep (f p) (codec p) s p c = some t) : Owned t := by
  have hothers (q : P) (hq : q ≠ p) : t.pc q = s.pc q := loadStep_pc_of_ne hstep hq
  cases Touch.of_step hstep with
  | untouched hdisk hpc =>
    refine ⟨fun q i offset rest hq => ?_, fun i hi => ?_⟩
    · rw [hdisk]
      by_cases hqp : q = p
      · subst hqp
        exact h.handle q i offset rest (hpc i offset rest hq)
      · exact h.handle q i offset rest (hothers q hqp ▸ hq)
    · rw [hdisk] at hi ⊢
      exact h.path i hi
  | opened text hc hp hdisk hpc =>
    subst hc
    have hnone : s.disk.path = none := hC
    simp only [Disk.openTruncate, hnone] at hdisk hpc
    have hlinked := h.link (some p) []
    refine ⟨fun q i offset rest hq => ?_, fun i hi => ?_⟩
    · rw [hdisk]
      by_cases hqp : q = p
      · subst hqp
        obtain ⟨rfl, -, -⟩ := Pc.writing.inj (hpc.symm.trans hq)
        exact ⟨Function.update_self _ _ _, Nat.lt_succ_self _⟩
      · exact hlinked.handle q i offset rest (hothers q hqp ▸ hq)
    · rw [hdisk] at hi ⊢
      exact hlinked.path i hi
  | written j offset' rest' chunk hp hdisk hpc =>
    refine ⟨fun q i offset rest hq => ?_, fun i hi => ?_⟩
    · rw [hdisk]
      by_cases hqp : q = p
      · subst hqp
        obtain rfl := hpc i offset rest hq
        exact h.handle q i offset' rest' hp
      · exact h.handle q i offset rest (hothers q hqp ▸ hq)
    · rw [hdisk] at hi ⊢
      exact h.path i hi

theorem owned_step {a : Action P} (h : Owned s) (hC : StillMissing s a)
    (hstep : step f codec s a = some t) : Owned t := by
  cases a with
  | load p c => exact owned_load h hC hstep
  | create content =>
    simp only [step] at hstep
    split at hstep
    · obtain rfl := Option.some.inj hstep
      exact h.link none content
    · cases hstep
  | replace content =>
    obtain rfl := Option.some.inj hstep
    exact h.link none content
  | remove =>
    simp only [step] at hstep
    split at hstep
    · obtain rfl := Option.some.inj hstep
      exact ⟨h.handle, fun i hi => (by cases hi)⟩
    · cases hstep

theorem owned_of_reachable (hs : (loads f codec).ReachableUnder StillMissing s) : Owned s := by
  refine hs.invariant (I := Owned) ?_ fun _ _ _ hI hC hstep => owned_step hI hC hstep
  intro s hs
  exact ⟨fun p i offset rest hp => by simp [hs.idle p] at hp, hs.fresh⟩

theorem keeps_of_not_writing {p : P} {c : Call} {i : ℕ} (hC : StillMissing s (.load p c))
    (hpath : s.disk.path = some i) (hp : ∀ offset rest, s.pc p ≠ .writing i offset rest)
    (hstep : loadStep (f p) (codec p) s p c = some t) : s.Keeps t i := by
  cases Touch.of_step hstep with
  | untouched hdisk => exact ⟨by rw [hdisk, hpath], by rw [hdisk]⟩
  | opened text hc =>
    subst hc
    have hnone : s.disk.path = none := hC
    rw [hpath] at hnone
    cases hnone
  | written j offset rest chunk hj hdisk =>
    have hne : i ≠ j := fun he => hp offset rest (he ▸ hj)
    rw [State.Keeps, hdisk]
    exact ⟨hpath, Function.update_of_ne hne _ _⟩

theorem complete_load {p : P} {c : Call} {i : ℕ} (h : s.Complete i) (hC : StillMissing s (.load p c))
    (hpath : s.disk.path = some i) (hstep : loadStep (f p) (codec p) s p c = some t) :
    t.Complete i := by
  intro q offset rest hq
  by_cases hqp : q = p
  · subst hqp
    cases Touch.of_step hstep with
    | untouched hdisk hpc => exact h q offset rest (hpc i offset rest hq)
    | opened text hc =>
      subst hc
      have hnone : s.disk.path = none := hC
      rw [hpath] at hnone
      cases hnone
    | written j offset' rest' chunk hj hdisk hpc =>
      obtain rfl := hpc i offset rest hq
      exact h q offset' rest' hj
  · rw [loadStep_pc_of_ne hstep hqp] at hq
    exact h q offset rest hq

theorem keeps_of_loads {i : ℕ} (hpath : s.disk.path = some i) (hcomplete : s.Complete i)
    (ht : ((loads f codec).startAt s).ReachableUnder
      (fun u a => StillMissing u a ∧ ∃ p c, a = .load p c) t) : s.Keeps t i := by
  have hh : s.Keeps t i ∧ t.Complete i := by
    refine ht.invariant (I := fun u => s.Keeps u i ∧ u.Complete i) ?_ ?_
    · rintro u rfl
      exact ⟨⟨hpath, rfl⟩, hcomplete⟩
    · rintro u a v ⟨⟨hu, hcontent⟩, hcomplete⟩ ⟨hC, p, c, rfl⟩ hstep
      obtain ⟨hv, hsame⟩ := keeps_of_not_writing hC hu (hcomplete p) hstep
      exact ⟨⟨hv, hsame.trans hcontent⟩, complete_load hcomplete hC hu hstep⟩
  exact hh.1

/-- A file that the opening finds is emptied, and filled with the default. -/
theorem overwrites (hs : (loads f codec).Reachable s) {a : Action P} (h : ¬ StillMissing s a)
    (hstep : step f codec s a = some t) :
    ∃ p i body n u, s.disk.path = some i ∧ t.disk.path = some i ∧ t.disk.content i = [] ∧
      step f codec t (.load p (.write (.ok n))) = some u ∧
      u.pc p = .returned (.ok (codec p).default) ∧ u.disk.path = some i ∧
      u.disk.content i = seedText body := by
  unfold StillMissing at h
  split at h
  · rename_i p
    obtain ⟨i, hi⟩ := Option.ne_none_iff_exists'.mp h
    have hload : loadStep (f p) (codec p) s p (.openFile none) = some t := hstep
    cases Effect.of_step hload with
    | opened text hpc =>
      have hfollows := follows_of_reachable hs p
      rw [hpc] at hfollows
      obtain ⟨-, body, -, rfl⟩ := hfollows
      have hopen : s.disk.openTruncate p =
          ({ s.disk with content := Function.update s.disk.content i [] }, i) := by
        simp [Disk.openTruncate, hi]
      simp only [hopen]
      have hempty : Function.update s.disk.content i [] i = [] := Function.update_self _ _ _
      obtain ⟨u, hu, hdone, hpath, hcontent⟩ := exists_write_all
        (s := { s with disk := { s.disk with content := Function.update s.disk.content i [] } }.goto p
          (.writing i 0 (seedText body)))
        f codec (goto_pc_self _ _ _) hempty (seedText_length_pos body)
      exact ⟨p, i, body, _, u, hi, hi, hempty, hu, hdone, hpath.trans hi, hcontent⟩
  · exact absurd trivial h

/-- No load changes what another has put at the path, and a complete file outlives every
load, in all runs whose loads open the path while it is missing; each other opening replaces
what it finds by the default. -/
theorem seeding_keeps (f : P → JsonFile) (codec : P → Codec T) :
    (∀ s, (loads f codec).ReachableUnder StillMissing s →
      (∀ p c t i, StillMissing s (.load p c) → step f codec s (.load p c) = some t →
        s.disk.path = some i → s.disk.author i ≠ some p → s.Keeps t i) ∧
      ∀ i t, s.disk.path = some i → s.Complete i →
        ((loads f codec).startAt s).ReachableUnder
          (fun u a => StillMissing u a ∧ ∃ p c, a = .load p c) t → s.Keeps t i) ∧
      ∀ s a t, (loads f codec).Reachable s → ¬ StillMissing s a → step f codec s a = some t →
        ∃ p i body n u, s.disk.path = some i ∧ t.disk.path = some i ∧ t.disk.content i = [] ∧
          step f codec t (.load p (.write (.ok n))) = some u ∧
          u.pc p = .returned (.ok (codec p).default) ∧ u.disk.path = some i ∧
          u.disk.content i = seedText body := by
  constructor
  · intro s hs
    refine ⟨fun p c t i hC hstep hpath hauthor => ?_, fun i t hpath hcomplete ht => ?_⟩
    · refine keeps_of_not_writing hC hpath (fun offset rest hp => ?_) hstep
      exact hauthor ((owned_of_reachable hs).handle p i offset rest hp).1
    · exact keeps_of_loads hpath hcomplete ht
  · exact fun s a t hs h hstep => overwrites hs h hstep

def seeded : JsonFile := (JsonFile.new (ofString "/etc/c.json")).createDefault

def missing : State Bool Bool := ⟨⟨none, 0, fun _ => [], fun _ => none⟩, fun _ => .idle⟩

theorem initial_missing : Initial missing := ⟨fun _ => rfl, fun _ => rfl, fun _ hi => by cases hi⟩

abbrev seeders : TransitionSystem (State Bool Bool) (Action Bool) :=
  loads (fun _ => seeded) fun _ => boolCodec

theorem seeding_keeps_seeded :
    ∃ s t, seeders.run missing [.load true .start, .load true (.read none),
        .load true (.createDirAll none), .load true (.openFile none),
        .load true (.write (.ok 6))] = some s ∧
      seeders.run s [.load false .start, .load false (.read none)] = some t ∧ s.Keeps t 0 := by
  have h₀ : seeders.ReachableUnder StillMissing missing := .init initial_missing
  have h₁ := h₀.step (a := Action.load true .start) trivial rfl
  have h₂ := h₁.step (a := Action.load true (.read none)) trivial rfl
  have h₃ := h₂.step (a := Action.load true (.createDirAll none)) trivial rfl
  have h₄ := h₃.step (a := Action.load true (.openFile none)) rfl rfl
  have h₅ := h₄.step (a := Action.load true (.write (.ok 6))) trivial rfl
  have hkeeps := ((seeding_keeps (fun _ : Bool => seeded) fun _ => boolCodec).1 _ h₅).2 0
  have hkept := hkeeps _ rfl (by intro p offset rest hp; cases p <;> cases hp)
    (.step (a := Action.load false (.read none))
      (.step (a := Action.load false .start) (.init rfl) ⟨trivial, _, _, rfl⟩ rfl)
      ⟨trivial, _, _, rfl⟩ rfl)
  exact ⟨_, _, rfl, rfl, hkept⟩

/-- What another program puts there after the look is replaced by the default. -/
theorem created_meanwhile_is_lost :
    ¬ ∀ s, seeders.Reachable s → ∀ i t, s.disk.path = some i → s.Complete i →
      (seeders.startAt s).ReachableUnder (fun _ a => ∃ p c, a = .load p c) t → s.Keeps t i := by
  intro h
  have h₀ : seeders.Reachable missing := .init initial_missing
  have h₁ := h₀.step (a := Action.load true .start) trivial rfl
  have h₂ := h₁.step (a := Action.load true (.read none)) trivial rfl
  have h₃ := h₂.step (a := Action.load true (.createDirAll none)) trivial rfl
  have h₄ := h₃.step (a := Action.create (ofString "true\n")) trivial rfl
  have hkeeps := h _ h₄ 0
  have hkept := hkeeps _ rfl (by intro p offset rest hp; cases p <;> cases hp)
    (.step (a := Action.load true (.write (.ok 6)))
      (.step (a := Action.load true (.openFile none)) (.init rfl) ⟨_, _, rfl⟩ rfl)
      ⟨_, _, rfl⟩ rfl)
  exact absurd hkept.2 (by decide +kernel)

end Seeding
end SharedDaemon
