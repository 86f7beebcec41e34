import SharedDaemon.Seeding

/-!
# Seeding that is cut short

One load after another of one missing file, with no other writer. A load can fail or die at
any of its steps, and between any two bytes of its write.
-/

namespace SharedDaemon
namespace Seeding

open StdIo StdPath Config TransitionSystem

variable {T : Type}

def solo (f : JsonFile) (codec : Codec T) : TransitionSystem (State Unit T) Call where
  init s := Initial s ∧ s.disk.path = none
  step s c := step (fun _ => f) (fun _ => codec) s (.load () c)

/-- No load dies or gives up between its open and the end of its write. -/
def Uncut (s : State Unit T) (c : Call) : Prop :=
  match s.pc (), c with
  | .writing _ _ _, .crash => False
  | .writing _ _ _, .write (.ok n) => n ≠ 0
  | .writing _ _ _, .write (.error e) => e.kind = .interrupted
  | _, _ => True

def State.AtRest (s : State Unit T) : Prop := s.pc () = .idle ∨ ∃ r, s.pc () = .returned r

/-- The path is absent, or holds the complete default. -/
def State.Whole (codec : Codec T) (s : State Unit T) : Prop :=
  s.disk.path = none ∨ ∃ i body, s.disk.path = some i ∧
    codec.toStringPretty codec.default = .ok body ∧ s.disk.content i = seedText body

/-- What the path holds at each point of a load that is not cut. -/
def Holds (codec : Codec T) (s : State Unit T) : Pc T → Prop
  | .idle | .reading | .returned _ => s.Whole codec
  | .creatingDir | .opening _ => s.disk.path = none
  | .writing i offset _ =>
    s.disk.path = some i ∧ ∃ body, codec.toStringPretty codec.default = .ok body ∧
      s.disk.content i = (seedText body).take offset

def Succeeds : Call → Prop
  | .read none | .createDirAll none | .openFile none => True
  | .write (.ok n) => n ≠ 0
  | _ => False

variable {f : JsonFile} {codec : Codec T} {s t : State Unit T}

theorem reachable_of_solo {C : State Unit T → Call → Prop} (hs : (solo f codec).ReachableUnder C s) :
    (loads (fun _ : Unit => f) fun _ => codec).Reachable s := by
  induction hs with
  | init hs => exact .init hs.1
  | step _ _ hstep ih => exact ih.step (a := Action.load () _) trivial hstep

theorem follows_of_solo {C : State Unit T → Call → Prop} (hs : (solo f codec).ReachableUnder C s) :
    Follows f codec (s.pc ()) := follows_of_reachable (reachable_of_solo hs) ()

theorem writeAt_take (text : List UInt8) {offset : ℕ} (h : offset ≤ text.length) (n : ℕ) :
    writeAt (text.take offset) offset ((text.drop offset).take n) = text.take (offset + n) := by
  have hlen : (text.take offset).length = offset := List.length_take_of_le h
  have hrest : (text.take offset).drop (offset + ((text.drop offset).take n).length) = [] :=
    List.drop_eq_nil_of_le (by rw [hlen]; exact Nat.le_add_right _ _)
  rw [writeAt, hrest, hlen, Nat.sub_self, List.replicate_zero, List.append_nil, List.append_nil,
    List.take_take, Nat.min_self, List.take_add]

theorem path_of_creatingDir {d : Disk Unit} {fault : Option { e : IoError // e.kind ≠ .notFound }}
    (h : afterRead f codec (d.readAnswer fault) = .creatingDir) : d.path = none := by
  cases fault with
  | some e => simp [Disk.readAnswer, afterRead, e.property] at h
  | none =>
    cases hpath : d.path with
    | none => rfl
    | some i =>
      exfalso
      cases htext : toStr (d.content i) <;>
        simp [Disk.readAnswer, Disk.readToString, hpath, htext, afterRead, notUtf8] at h

theorem afterRead_cases (f : JsonFile) (codec : Codec T) (got : Except IoError String) :
    (∃ r, afterRead f codec got = .returned r) ∨ afterRead f codec got = .creatingDir := by
  cases got with
  | ok text => exact .inl ⟨_, rfl⟩
  | error e =>
    simp only [afterRead]
    split
    · cases f.seed
      · exact .inl ⟨_, rfl⟩
      · exact .inl ⟨_, rfl⟩
      · exact .inr rfl
    · exact .inl ⟨_, rfl⟩

theorem afterCreateDir_cases (f : JsonFile) (codec : Codec T) (fault : Option IoError) :
    (∃ r, afterCreateDir f codec fault = .returned r) ∨
      ∃ text, afterCreateDir f codec fault = .opening text := by
  unfold afterCreateDir
  split
  · exact .inl ⟨_, rfl⟩
  · split
    · exact .inl ⟨_, rfl⟩
    · exact .inr ⟨_, rfl⟩

theorem holds_afterWrite {i offset : ℕ} {rest : List UInt8} {n : ℕ} (hn : n ≠ 0)
    (hf : Follows f codec (.writing i offset rest)) (h : Holds codec s (.writing i offset rest)) :
    Holds codec { s with disk := s.disk.write i offset (rest.take n) }
      (afterWrite f codec i offset rest n) := by
  obtain ⟨-, body, hbody, rfl, hlt⟩ := hf
  obtain ⟨hpath, body', hbody', hcontent⟩ := h
  obtain rfl := Except.ok.inj (hbody.symm.trans hbody')
  have hwritten : (s.disk.write i offset (((seedText body).drop offset).take n)).content i =
      (seedText body).take (offset + n) := by
    rw [← writeAt_take (seedText body) (Nat.le_of_lt hlt) n, ← hcontent]
    exact Function.update_self _ _ _
  unfold afterWrite
  rw [if_neg hn, List.drop_drop]
  by_cases hend : ((seedText body).drop (offset + n)).isEmpty
  · rw [if_pos hend]
    have hall : (seedText body).length ≤ offset + n := by simpa using hend
    rw [List.take_of_length_le hall] at hwritten
    exact .inr ⟨i, body, hpath, hbody, hwritten⟩
  · rw [if_neg hend]
    exact ⟨hpath, body, hbody, hwritten⟩

theorem holds_step {c : Call} (hf : Follows f codec (s.pc ())) (h : Holds codec s (s.pc ()))
    (hC : Uncut s c) (hstep : (solo f codec).step s c = some t) : Holds codec t (t.pc ()) := by
  cases Effect.of_step hstep with
  | start hpc =>
    rcases hpc with hpc | ⟨r, hpc⟩
    · rw [hpc] at h
      exact h
    · rw [hpc] at h
      exact h
  | read fault hpc =>
    rw [hpc] at h
    rw [goto_pc_self]
    rcases afterRead_cases f codec (s.disk.readAnswer fault) with ⟨r, hr⟩ | hdir
    · rw [hr]
      exact h
    · rw [hdir]
      exact path_of_creatingDir hdir
  | createDirAll fault hpc =>
    rw [hpc] at h
    rw [goto_pc_self]
    rcases afterCreateDir_cases f codec fault with ⟨r, hr⟩ | ⟨text, htext⟩
    · rw [hr]
      exact .inl h
    · rw [htext]
      exact h
  | notOpened text e hpc =>
    rw [hpc] at h
    rw [goto_pc_self]
    exact .inl h
  | opened text hpc =>
    rw [hpc] at h hf
    obtain ⟨-, body, hbody, -⟩ := hf
    have hnone : s.disk.path = none := h
    simp only [Disk.openTruncate, hnone, goto_pc_self]
    exact ⟨rfl, body, hbody, Function.update_self _ _ _⟩
  | interrupted => exact h
  | notWritten i offset rest e hpc he =>
    simp only [Uncut, hpc] at hC
    exact absurd hC he
  | written i offset rest n hpc =>
    simp only [Uncut, hpc] at hC
    rw [hpc] at h hf
    rw [goto_pc_self]
    exact holds_afterWrite hC hf h
  | crash =>
    rw [goto_pc_self]
    cases hpc : s.pc () with
    | idle | reading | returned r =>
      rw [hpc] at h
      exact h
    | creatingDir | opening text =>
      rw [hpc] at h
      exact .inl h
    | writing i offset rest => simp [Uncut, hpc] at hC

theorem holds_of_reachable (hs : (solo f codec).ReachableUnder Uncut s) :
    Holds codec s (s.pc ()) := by
  induction hs with
  | init hs =>
    rw [hs.1.idle]
    exact .inl hs.2
  | step hs hC hstep ih => exact holds_step (follows_of_solo hs) ih hC hstep

theorem not_whole_of_take {i offset : ℕ} {body : String} (hpath : s.disk.path = some i)
    (hbody : codec.toStringPretty codec.default = .ok body)
    (hcontent : s.disk.content i = (seedText body).take offset)
    (hlt : offset < (seedText body).length) : ¬ s.Whole codec := by
  rintro (hnone | ⟨j, body', hj, hbody', hwhole⟩)
  · rw [hpath] at hnone
    cases hnone
  · obtain rfl := Option.some.inj (hpath.symm.trans hj)
    obtain rfl := Except.ok.inj (hbody.symm.trans hbody')
    have hlen := congrArg List.length (hcontent.symm.trans hwhole)
    rw [List.length_take_of_le (Nat.le_of_lt hlt)] at hlen
    omega

/-- A load that is cut leaves part of the default behind. -/
theorem cut_step {c : Call} (hf : Follows f codec (s.pc ())) (h : Holds codec s (s.pc ()))
    (hC : ¬ Uncut s c) (hstep : (solo f codec).step s c = some t) :
    t.AtRest ∧ ¬ t.Whole codec := by
  cases hpc : s.pc () with
  | idle | reading | creatingDir | opening text | returned r => simp [Uncut, hpc] at hC
  | writing i offset rest =>
    rw [hpc] at hf h
    obtain ⟨-, body, hbody, rfl, hlt⟩ := hf
    obtain ⟨hpath, body', hbody', hcontent⟩ := h
    obtain rfl := Except.ok.inj (hbody.symm.trans hbody')
    cases Effect.of_step hstep with
    | start hidle => rcases hidle with hidle | ⟨r, hidle⟩ <;> simp [hpc] at hidle
    | read fault hread => simp [hpc] at hread
    | createDirAll fault hdir => simp [hpc] at hdir
    | notOpened text e hopen => simp [hpc] at hopen
    | opened text hopen => simp [hpc] at hopen
    | interrupted _ _ _ e _ he => simp [Uncut, hpc, he] at hC
    | notWritten _ _ _ e =>
      exact ⟨.inr ⟨_, goto_pc_self _ _ _⟩, not_whole_of_take hpath hbody hcontent hlt⟩
    | crash => exact ⟨.inl (goto_pc_self _ _ _), not_whole_of_take hpath hbody hcontent hlt⟩
    | written j offset' rest' n hj =>
      obtain ⟨rfl, rfl, rfl⟩ := Pc.writing.inj (hpc.symm.trans hj)
      obtain rfl : n = 0 := by simpa [Uncut, hpc] using hC
      refine ⟨.inr ⟨_, goto_pc_self _ _ _⟩, not_whole_of_take hpath hbody ?_ hlt⟩
      have hsame := writeAt_take (seedText body) (Nat.le_of_lt hlt) 0
      rw [← hcontent] at hsame
      exact (Function.update_self _ _ _).trans hsame

/-- What `serde_json` promises of the default: the text that is written, its newline
included, is read back. -/
structure RoundTrip (codec : Codec T) (body : String) : Prop where
  toStringPretty : codec.toStringPretty codec.default = .ok body
  fromStr : codec.fromStr (body ++ "\n") = .ok codec.default

theorem afterRead_whole {body : String} (hcodec : RoundTrip codec body) {i : ℕ}
    (hpath : s.disk.path = some i) (hcontent : s.disk.content i = seedText body) :
    afterRead f codec (s.disk.readAnswer none) = .returned (.ok codec.default) := by
  simp [Disk.readAnswer, Disk.readToString, hpath, hcontent, seedText, toStr_ofString, afterRead,
    hcodec.fromStr, Except.mapError]

theorem afterRead_missing (hseed : f.seed = .createFile) (hpath : s.disk.path = none) :
    afterRead f codec (s.disk.readAnswer none) = .creatingDir := by
  simp [Disk.readAnswer, Disk.readToString, hpath, afterRead, enoent, hseed]

theorem afterCreateDir_ok {body : String}
    (hbody : codec.toStringPretty codec.default = .ok body) :
    afterCreateDir f codec none = .opening (seedText body) := by
  cases hparent : parent f.path <;> simp [afterCreateDir, hparent, hbody]

theorem returned_step {body : String} (hcodec : RoundTrip codec body)
    (hseed : f.seed = .createFile) {c : Call} (hc : Succeeds c) (h : Holds codec s (s.pc ()))
    (hstep : (solo f codec).step s c = some t) :
    ∀ r, t.pc () = .returned r → r = .ok codec.default := by
  intro r hr
  cases Effect.of_step hstep with
  | start => cases hc
  | crash => cases hc
  | notOpened => cases hc
  | interrupted => cases hc
  | notWritten => cases hc
  | opened => simp at hr
  | read fault hpc =>
    cases fault with
    | some e => cases hc
    | none =>
      rw [hpc] at h
      rw [goto_pc_self] at hr
      rcases h with hnone | ⟨i, body', hpath, hbody', hcontent⟩
      · rw [afterRead_missing hseed hnone] at hr
        cases hr
      · obtain rfl := Except.ok.inj (hcodec.toStringPretty.symm.trans hbody')
        rw [afterRead_whole hcodec hpath hcontent] at hr
        exact (Pc.returned.inj hr).symm
  | createDirAll fault hpc =>
    cases fault with
    | some e => cases hc
    | none =>
      rw [goto_pc_self, afterCreateDir_ok hcodec.toStringPretty] at hr
      cases hr
  | written i offset rest n hpc =>
    have hn : n ≠ 0 := hc
    rw [goto_pc_self, afterWrite, if_neg hn] at hr
    split at hr
    · exact (Pc.returned.inj hr).symm
    · cases hr

theorem uncut_of_succeeds {c : Call} (hc : Succeeds c) (s : State Unit T) : Uncut s c := by
  unfold Uncut
  split
  · exact hc
  · exact hc
  · cases hc
  · trivial

/-- A load whose steps all go through returns nothing but the default. -/
theorem returned_run {body : String} (hcodec : RoundTrip codec body) (hseed : f.seed = .createFile)
    (hs : (solo f codec).ReachableUnder Uncut s) {cs : List Call} (hcs : ∀ c ∈ cs, Succeeds c)
    (hrun : (solo f codec).run s (.start :: cs) = some t) :
    ∀ r, t.pc () = .returned r → r = .ok codec.default := by
  obtain ⟨u, hu, hrest⟩ := run_cons_eq_some.mp hrun
  have huncut : Uncut s .start := by
    unfold Uncut
    split <;> trivial
  have hureach : (solo f codec).ReachableUnder Uncut u := hs.step huncut hu
  have hfirst : ∀ r, u.pc () = .returned r → r = .ok codec.default := by
    have hload : loadStep f codec s () .start = some u := hu
    intro r hr
    cases Effect.of_step hload with
    | start => simp at hr
  have hh : (solo f codec).ReachableUnder Uncut t ∧
      ∀ r, t.pc () = .returned r → r = .ok codec.default := by
    refine run_invariant (I := fun v => (solo f codec).ReachableUnder Uncut v ∧
      ∀ r, v.pc () = .returned r → r = .ok codec.default) ?_ ⟨hureach, hfirst⟩ hrest
    rintro v c w hc ⟨hv, -⟩ hstep
    exact ⟨hv.step (uncut_of_succeeds (hcs c hc) v) hstep,
      returned_step hcodec hseed (hcs c hc) (holds_of_reachable hv) hstep⟩
  exact hh.2

def Completes (f : JsonFile) (codec : Codec T) (s : State Unit T) : Prop :=
  ∃ cs t, (∀ c ∈ cs, Succeeds c) ∧ (solo f codec).run s cs = some t ∧
    t.pc () = .returned (.ok codec.default)

theorem completes_of_step (c : Call) (hc : Succeeds c) (hstep : (solo f codec).step s c = some t)
    (h : Completes f codec t) : Completes f codec s := by
  obtain ⟨cs, u, hcs, hrun, hu⟩ := h
  exact ⟨c :: cs, u, List.forall_mem_cons.mpr ⟨hc, hcs⟩, run_cons_eq_some.mpr ⟨t, hstep, hrun⟩, hu⟩

theorem completes_returned (h : s.pc () = .returned (.ok codec.default)) : Completes f codec s :=
  ⟨[], s, by simp, rfl, h⟩

theorem completes_opening {body : String} (hpc : s.pc () = .opening (seedText body))
    (hpath : s.disk.path = none) : Completes f codec s := by
  have hopen : s.disk.openTruncate () = (s.disk.link (some ()) [], s.disk.nextIno) := by
    simp [Disk.openTruncate, hpath]
  have hstep : (solo f codec).step s (.openFile none) =
      some ({ s with disk := s.disk.link (some ()) [] }.goto ()
        (.writing s.disk.nextIno 0 (seedText body))) := by
    simp only [solo, step, loadStep, hpc, hopen]
  obtain ⟨t, ht, hdone, -, -⟩ := exists_write_all
    (s := { s with disk := s.disk.link (some ()) [] }.goto ()
      (.writing s.disk.nextIno 0 (seedText body)))
    (fun _ => f) (fun _ => codec) (goto_pc_self _ _ _) (Function.update_self _ _ _)
    (seedText_length_pos body)
  exact completes_of_step (.openFile none) trivial hstep
    (completes_of_step (.write (.ok (seedText body).length))
      (Nat.ne_of_gt (seedText_length_pos body)) ht (completes_returned hdone))

theorem completes_reading {body : String} (hcodec : RoundTrip codec body)
    (hseed : f.seed = .createFile) (hpc : s.pc () = .reading) (hwhole : s.Whole codec) :
    Completes f codec s := by
  have hread : (solo f codec).step s (.read none) =
      some (s.goto () (afterRead f codec (s.disk.readAnswer none))) := by
    simp only [solo, step, loadStep, hpc]
  refine completes_of_step (.read none) trivial hread ?_
  rcases hwhole with hnone | ⟨i, body', hpath, hbody', hcontent⟩
  · rw [afterRead_missing hseed hnone]
    have hdir : (solo f codec).step (s.goto () .creatingDir) (.createDirAll none) =
        some ((s.goto () .creatingDir).goto () (.opening (seedText body))) := by
      simp only [solo, step, loadStep, goto_pc_self, afterCreateDir_ok hcodec.toStringPretty]
    exact completes_of_step (.createDirAll none) trivial hdir
      (completes_opening (goto_pc_self _ _ _) hnone)
  · obtain rfl := Except.ok.inj (hcodec.toStringPretty.symm.trans hbody')
    rw [afterRead_whole hcodec hpath hcontent]
    exact completes_returned (goto_pc_self _ _ _)

theorem step_start (hrest : s.AtRest) :
    (solo f codec).step s .start = some (s.goto () .reading) := by
  rcases hrest with hpc | ⟨r, hpc⟩ <;> simp only [solo, step, loadStep, hpc]

/-- In all runs without a cut load the path at rest is absent or complete, and the next load
that goes through returns the default; a cut leaves a file that is neither. -/
theorem seeding_all_or_nothing (f : JsonFile) (codec : Codec T) :
    (∀ s, (solo f codec).ReachableUnder Uncut s → s.AtRest →
      s.Whole codec ∧
        ∀ body, f.seed = .createFile → RoundTrip codec body →
          (∃ t, (solo f codec).step s .start = some t ∧ Completes f codec t) ∧
          ∀ cs t r, (∀ c ∈ cs, Succeeds c) → (solo f codec).run s (.start :: cs) = some t →
            t.pc () = .returned r → r = .ok codec.default) ∧
      ∀ s c t, (solo f codec).ReachableUnder Uncut s → ¬ Uncut s c →
        (solo f codec).step s c = some t → t.AtRest ∧ ¬ t.Whole codec := by
  constructor
  · intro s hs hrest
    have hwhole : s.Whole codec := by
      have hholds := holds_of_reachable hs
      rcases hrest with hpc | ⟨r, hpc⟩
      · rwa [hpc] at hholds
      · rwa [hpc] at hholds
    refine ⟨hwhole, fun body hseed hcodec => ⟨⟨_, step_start hrest, ?_⟩, ?_⟩⟩
    · exact completes_reading hcodec hseed (goto_pc_self _ _ _) hwhole
    · exact fun cs t r hcs hrun hr => returned_run hcodec hseed hs hcs hrun r hr
  · exact fun s c t hs hC hstep => cut_step (follows_of_solo hs) (holds_of_reachable hs) hC hstep

theorem boolCodec_roundTrip : RoundTrip boolCodec "false" := ⟨rfl, by decide +kernel⟩

def boolFile : JsonFile := (JsonFile.new (ofString "/etc/c.json")).createDefault

def noFile : State Unit Bool := ⟨⟨none, 0, fun _ => [], fun _ => none⟩, fun _ => .idle⟩

theorem solo_init_noFile : (solo boolFile boolCodec).init noFile :=
  ⟨⟨fun _ => rfl, fun _ => rfl, fun _ hi => by cases hi⟩, rfl⟩

theorem seeding_all_or_nothing_retry :
    ∃ s, (solo boolFile boolCodec).run noFile
        [.start, .read none, .createDirAll none, .crash] = some s ∧
      s.Whole boolCodec ∧ ∃ t, (solo boolFile boolCodec).step s .start = some t ∧
        Completes boolFile boolCodec t := by
  have h₀ : (solo boolFile boolCodec).ReachableUnder Uncut noFile := .init solo_init_noFile
  have h₁ := h₀.step (a := Call.start) trivial rfl
  have h₂ := h₁.step (a := Call.read none) trivial rfl
  have h₃ := h₂.step (a := Call.createDirAll none) trivial rfl
  have h₄ := h₃.step (a := Call.crash) trivial rfl
  obtain ⟨hwhole, hnext⟩ := (seeding_all_or_nothing boolFile boolCodec).1 _ h₄ (.inl rfl)
  exact ⟨_, rfl, hwhole, (hnext "false" rfl boolCodec_roundTrip).1⟩

/-- A crash between the open and the write leaves an empty file. -/
theorem crash_leaves_half :
    ¬ ∀ s, (solo boolFile boolCodec).Reachable s → s.AtRest → s.Whole boolCodec := by
  intro h
  have h₀ : (solo boolFile boolCodec).Reachable noFile := .init solo_init_noFile
  have h₁ := h₀.step (a := Call.start) trivial rfl
  have h₂ := h₁.step (a := Call.read none) trivial rfl
  have h₃ := h₂.step (a := Call.createDirAll none) trivial rfl
  have h₄ := h₃.step (a := Call.openFile none) trivial rfl
  have h₅ := h₄.step (a := Call.crash) trivial rfl
  rcases h _ h₅ (.inl rfl) with hnone | ⟨i, body, hi, hbody, hcontent⟩
  · cases hnone
  · cases hi
    cases hbody
    exact absurd hcontent (by decide +kernel)

end Seeding
end SharedDaemon
