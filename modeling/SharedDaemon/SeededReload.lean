import SharedDaemon.QuietWatch
import SharedDaemon.SeedCut

/-!
# Hot reload of a file that the daemon seeds

The callback reloads a `JsonFile` of any kind, one system call at a time, while others change
the file. A load with `create_default` changes the file it watches, and so raises events of
its own.
-/

namespace SharedDaemon
namespace SeededReload

open StdIo StdPath Config TransitionSystem

/-- Whether the callback of the reload in progress has begun its load, or replaced. -/
inductive Callback
  | idle
  | running
  | done
  deriving DecidableEq

/-- The last three fields only record: how often the content at the path changed, how often
it had when the load in progress, or else the last one, read it, and what each load came
to, the latest first. -/
structure State (T : Type) where
  watch : Watch.State
  files : Seeding.State Unit T
  live : T
  callback : Callback
  version : ℕ
  readAt : Option ℕ
  results : List (ℕ × Except ConfigError T)

inductive Action
  | watch (a : Watch.Action)
  | change (a : Seeding.Action Unit) (e : Watch.Event)
  | begin
  | load (c : Seeding.Call) (e : Watch.Event)
  | replace

structure Setup (T : Type) where
  watch : Watch.Setup
  source : JsonFile
  codec : Codec T

variable {T : Type}

def names (setup : Setup T) (e : Watch.Event) : Bool :=
  e.kind.changes && e.paths.contains setup.source.path

/-- Whether the call changes what the path holds: it may write to a file that is not at the
path any more. -/
def touches (files : Seeding.State Unit T) : Seeding.Call → Bool
  | .openFile none => true
  | .write (.ok n) =>
    match files.pc () with
    | .writing ino _ _ => n ≠ 0 ∧ files.disk.path = some ino
    | _ => false
  | _ => false

def State.changed (s : State T) (files : Seeding.State Unit T) (e : Watch.Event) : State T :=
  { s with
    watch := { s.watch with kernel := s.watch.kernel ++ [.ok e] }
    files := files
    version := s.version + 1 }

/-- A call of the load in progress, with the event that its change raises. -/
def loadStep (setup : Setup T) (s : State T) (e : Watch.Event) : Seeding.Call → Option (State T)
  | .start | .crash => none
  | .read fault =>
    (Seeding.loadStep setup.source setup.codec s.files () (.read fault)).map fun files =>
      { s with files := files, readAt := some s.version }
  | c =>
    if touches s.files c then
      if names setup e then
        (Seeding.loadStep setup.source setup.codec s.files () c).map fun files => s.changed files e
      else none
    else
      (Seeding.loadStep setup.source setup.codec s.files () c).map fun files =>
        { s with files := files }

def watchStep (setup : Setup T) (s : State T) : Watch.Action → Option (State T)
  | .fired =>
    match s.callback with
    | .done =>
      (Watch.step setup.watch s.watch .fired).map fun w => { s with watch := w, callback := .idle }
    | _ => none
  | a => (Watch.step setup.watch s.watch a).map fun w => { s with watch := w }

def changeStep (setup : Setup T) (s : State T) (e : Watch.Event) :
    Seeding.Action Unit → Option (State T)
  | .load _ _ => none
  | a =>
    if names setup e then
      (Seeding.step (fun _ => setup.source) (fun _ => setup.codec) s.files a).map fun files =>
        s.changed files e
    else none

def step (setup : Setup T) (s : State T) : Action → Option (State T)
  | .watch a => watchStep setup s a
  | .change a e => changeStep setup s e a
  | .begin =>
    match s.watch.pc, s.callback with
    | .firing, .idle =>
      (Seeding.loadStep setup.source setup.codec s.files () .start).map fun files =>
        { s with files := files, callback := .running, readAt := none }
    | _, _ => none
  | .load c e =>
    match s.callback with
    | .running => loadStep setup s e c
    | _ => none
  | .replace =>
    match s.callback, s.files.pc () with
    | .running, .returned r =>
      some { s with
        live := (tryReload s.live r).1
        callback := .done
        results := (s.readAt.getD 0, r) :: s.results }
    | _, _ => none

def reloader (setup : Setup T) (live : T) : TransitionSystem (State T) Action where
  init s := ∃ files, Seeding.Initial files ∧
    s = ⟨Watch.initial setup.watch, files, live, .idle, 0, none, []⟩
  step := step setup

inductive Step (setup : Setup T) (s : State T) : Action → State T → Prop
  | watch (a : Watch.Action) (w : Watch.State) (ha : a ≠ .fired)
      (h : Watch.step setup.watch s.watch a = some w) :
      Step setup s (.watch a) { s with watch := w }
  | fired (w : Watch.State) (hdone : s.callback = .done)
      (h : Watch.step setup.watch s.watch .fired = some w) :
      Step setup s (.watch .fired) { s with watch := w, callback := .idle }
  | change (a : Seeding.Action Unit) (e : Watch.Event) (files : Seeding.State Unit T)
      (he : names setup e) (hpc : files.pc = s.files.pc) :
      Step setup s (.change a e) (s.changed files e)
  | begin (hfiring : s.watch.pc = .firing) (hidle : s.callback = .idle) :
      Step setup s .begin
        { s with files := s.files.goto () .reading, callback := .running, readAt := none }
  | read (fault : Option { e : IoError // e.kind ≠ .notFound }) (e : Watch.Event)
      (hrunning : s.callback = .running) (hpc : s.files.pc () = .reading) :
      Step setup s (.load (.read fault) e) { s with
        files := s.files.goto ()
          (Seeding.afterRead setup.source setup.codec (s.files.disk.readAnswer fault))
        readAt := some s.version }
  | touched (c : Seeding.Call) (e : Watch.Event) (files : Seeding.State Unit T)
      (hrunning : s.callback = .running) (he : names setup e) (htouches : touches s.files c)
      (hc : c ≠ .start ∧ c ≠ .crash ∧ ∀ fault, c ≠ .read fault)
      (h : Seeding.loadStep setup.source setup.codec s.files () c = some files) :
      Step setup s (.load c e) (s.changed files e)
  | untouched (c : Seeding.Call) (e : Watch.Event) (files : Seeding.State Unit T)
      (hrunning : s.callback = .running) (htouches : touches s.files c = false)
      (hc : c ≠ .start ∧ c ≠ .crash ∧ ∀ fault, c ≠ .read fault)
      (h : Seeding.loadStep setup.source setup.codec s.files () c = some files) :
      Step setup s (.load c e) { s with files := files }
  | replace (r : Except ConfigError T) (hrunning : s.callback = .running)
      (hpc : s.files.pc () = .returned r) :
      Step setup s .replace { s with
        live := (tryReload s.live r).1
        callback := .done
        results := (s.readAt.getD 0, r) :: s.results }

theorem Step.of_loadStep {setup : Setup T} {s t : State T} {c : Seeding.Call} {e : Watch.Event}
    (hrunning : s.callback = .running) (h : loadStep setup s e c = some t) :
    Step setup s (.load c e) t := by
  cases c with
  | start | crash => cases h
  | read fault =>
    obtain ⟨files, hfiles, rfl⟩ := Option.map_eq_some_iff.mp h
    cases Seeding.Effect.of_step hfiles with
    | read _ hpc => exact .read fault e hrunning hpc
  | createDirAll | openFile | write =>
    simp only [loadStep] at h
    split at h
    · rename_i htouches
      simp only [Option.ite_none_right_eq_some] at h
      obtain ⟨he, hmap⟩ := h
      obtain ⟨files, hfiles, rfl⟩ := Option.map_eq_some_iff.mp hmap
      exact .touched _ e files hrunning he htouches (by simp) hfiles
    · rename_i htouches
      obtain ⟨files, hfiles, rfl⟩ := Option.map_eq_some_iff.mp h
      exact .untouched _ e files hrunning (by simpa using htouches) (by simp) hfiles

theorem Step.of_step {setup : Setup T} {s t : State T} {a : Action} (h : step setup s a = some t) :
    Step setup s a t := by
  cases a with
  | watch a =>
    by_cases ha : a = .fired
    · subst ha
      simp only [step, watchStep] at h
      split at h
      · rename_i hdone
        obtain ⟨w, hw, rfl⟩ := Option.map_eq_some_iff.mp h
        exact .fired w hdone hw
      · cases h
    · have hmap :
          (Watch.step setup.watch s.watch a).map (fun w => { s with watch := w }) = some t := by
        cases a <;> first | exact h | exact absurd rfl ha
      obtain ⟨w, hw, rfl⟩ := Option.map_eq_some_iff.mp hmap
      exact .watch a w ha hw
  | change a e =>
    simp only [step, changeStep] at h
    split at h
    · cases h
    · rename_i hload
      split at h
      · rename_i he
        obtain ⟨files, hfiles, rfl⟩ := Option.map_eq_some_iff.mp h
        exact .change a e files he (Seeding.step_pc (fun p c => hload p c) hfiles)
      · cases h
  | begin =>
    simp only [step] at h
    split at h
    · rename_i hfiring hidle
      obtain ⟨files, hfiles, rfl⟩ := Option.map_eq_some_iff.mp h
      cases Seeding.Effect.of_step hfiles with
      | start _ => exact .begin hfiring hidle
    · cases h
  | load c e =>
    simp only [step] at h
    split at h
    · rename_i hrunning
      exact .of_loadStep hrunning h
    · cases h
  | replace =>
    simp only [step] at h
    split at h
    · rename_i r hrunning hpc
      obtain rfl := Option.some.inj h
      exact .replace r hrunning hpc
    · cases h

/-- What a load of the path as it is now may come to. A file that is still missing could not
be seeded. -/
def Loads (setup : Setup T) (disk : Seeding.Disk Unit) (r : Except ConfigError T) : Prop :=
  if disk.path = none ∧ setup.source.seed = .createFile then ∃ e, r = .error e
  else ∃ fault, r = setup.source.load setup.codec { readToString := disk.readAnswer fault }

def Fits (setup : Setup T) (disk : Seeding.Disk Unit) : Seeding.Pc T → Prop
  | .idle | .reading => True
  | .creatingDir | .opening _ => disk.path = none
  | .writing _ _ _ => False
  | .returned r => Loads setup disk r

/-- Nothing is left of a change but the reload it caused. -/
structure State.Drained (s : State T) : Prop where
  kernel : s.watch.kernel = []
  queue : s.watch.queue = []
  pending : s.watch.pending = none
  returned : s.watch.pc ≠ .firing

def State.Due (setup : Setup T) (s : State T) : Prop :=
  s.watch.Triggered setup.watch ∨ (s.watch.pc = .firing ∧ s.callback = .idle) ∨
    (s.callback = .running ∧ s.readAt = none)

structure Tracked (setup : Setup T) (init : T) (s : State T) : Prop where
  firing : s.callback ≠ .idle → s.watch.pc = .firing
  follows : Seeding.Follows setup.source setup.codec (s.files.pc ())
  reading : s.callback = .running → (s.readAt = none ↔ s.files.pc () = .reading)
  readAt_le : ∀ v, s.readAt = some v → v ≤ s.version
  recorded : s.callback ≠ .running → s.results.head?.map Prod.fst = s.readAt
  live : s.live = lastGood init (s.results.map Prod.snd)
  seen : s.version = 0 ∨ s.readAt = some s.version ∨ s.Due setup
  fits : s.callback = .running → s.readAt = some s.version → Fits setup s.files.disk (s.files.pc ())
  loads : s.callback ≠ .running → ∀ r, s.results.head? = some (s.version, r) →
    Loads setup s.files.disk r

variable {setup : Setup T} {init : T} {s t : State T}

theorem relevant_of_names {e : Watch.Event}
    (hspec : ∃ spec ∈ setup.watch.specs, Watch.isRelevantPath setup.source.path spec.filter)
    (h : names setup e) : Watch.relevant setup.watch.specs e := by
  obtain ⟨spec, hmem, hrel⟩ := hspec
  simp only [names, Bool.and_eq_true, List.contains_iff_mem] at h
  simp only [Watch.relevant, Bool.and_eq_true, List.any_eq_true]
  exact ⟨h.1, _, h.2, spec, hmem, hrel⟩

theorem load_of_afterRead {f : JsonFile} {codec : Codec T} {got : Except IoError String}
    {r : Except ConfigError T} (h : Seeding.afterRead f codec got = .returned r) :
    r = f.load codec { readToString := got } := by
  cases got with
  | ok text => exact (Seeding.Pc.returned.inj h).symm
  | error e =>
    by_cases he : e.kind = .notFound
    · cases hseed : f.seed with
      | createFile => simp [Seeding.afterRead, he, hseed] at h
      | errorIfMissing | defaultInMemory =>
        simp only [Seeding.afterRead, he, hseed, if_true] at h
        simpa [JsonFile.load, he, hseed] using (Seeding.Pc.returned.inj h).symm
    · simp only [Seeding.afterRead, he, if_false] at h
      simpa [JsonFile.load, he] using (Seeding.Pc.returned.inj h).symm

theorem fits_afterRead (disk : Seeding.Disk Unit)
    (fault : Option { e : IoError // e.kind ≠ .notFound }) :
    Fits setup disk (Seeding.afterRead setup.source setup.codec (disk.readAnswer fault)) := by
  rcases Seeding.afterRead_cases setup.source setup.codec (disk.readAnswer fault) with
    ⟨r, hr⟩ | hdir
  · rw [hr]
    simp only [Fits, Loads]
    split
    · rename_i hmissing
      cases fault with
      | none =>
        simp [Seeding.Disk.readAnswer, Seeding.Disk.readToString, hmissing.1, Seeding.afterRead,
          Seeding.enoent, hmissing.2] at hr
      | some e =>
        simp only [Seeding.Disk.readAnswer, Seeding.afterRead, e.property, if_false] at hr
        exact ⟨_, (Seeding.Pc.returned.inj hr).symm⟩
    · exact ⟨fault, load_of_afterRead hr⟩
  · rw [hdir]
    exact Seeding.path_of_creatingDir hdir

/-- Any change at the path, whoever makes it, calls for another load. -/
theorem Tracked.changed (h : Tracked setup init s) {e : Watch.Event} {files : Seeding.State Unit T}
    (hrel : Watch.relevant setup.watch.specs e)
    (hfollows : Seeding.Follows setup.source setup.codec (files.pc ()))
    (hreading : s.callback = .running → (s.readAt = none ↔ files.pc () = .reading)) :
    Tracked setup init (s.changed files e) := by
  have hlt : s.readAt ≠ some (s.version + 1) := by
    intro hread
    have hle := h.readAt_le _ hread
    omega
  refine ⟨h.firing, hfollows, hreading, fun v hv => ?_, h.recorded, h.live, ?_, ?_, ?_⟩
  · exact Nat.le_succ_of_le (h.readAt_le v hv)
  · exact .inr (.inr (.inl (.inl ⟨e, by simp [State.changed], hrel⟩)))
  · exact fun _ hread => absurd hread hlt
  · intro hidle r hr
    have hrecorded := h.recorded hidle
    have hhead : s.results.head? = some (s.version + 1, r) := hr
    rw [hhead] at hrecorded
    exact absurd hrecorded.symm hlt

theorem not_reading_loadStep {f : JsonFile} {codec : Codec T} {files files' : Seeding.State Unit T}
    {c : Seeding.Call} (hc : c ≠ .start ∧ c ≠ .crash ∧ ∀ fault, c ≠ .read fault)
    (h : Seeding.loadStep f codec files () c = some files') :
    files.pc () ≠ .reading ∧ files'.pc () ≠ .reading := by
  cases Seeding.Effect.of_step h with
  | start => exact absurd rfl hc.1
  | crash => exact absurd rfl hc.2.1
  | read fault => exact absurd rfl (hc.2.2 fault)
  | createDirAll fault hpc =>
    rcases Seeding.afterCreateDir_cases f codec fault with ⟨r, hr⟩ | ⟨text, htext⟩
    · simp [hpc, hr]
    · simp [hpc, htext]
  | notOpened text e hpc | opened text hpc | notWritten ino offset rest e hpc => simp [hpc]
  | interrupted ino offset rest e hpc => simp [hpc]
  | written ino offset rest n hpc =>
    simp only [hpc, Seeding.goto_pc_self, Seeding.afterWrite]
    split
    · simp
    · split <;> simp

theorem Tracked.reading_load (h : Tracked setup init s) (hrunning : s.callback = .running)
    {c : Seeding.Call} {files : Seeding.State Unit T}
    (hc : c ≠ .start ∧ c ≠ .crash ∧ ∀ fault, c ≠ .read fault)
    (hload : Seeding.loadStep setup.source setup.codec s.files () c = some files) :
    s.readAt = none ↔ files.pc () = .reading := by
  obtain ⟨hbefore, hafter⟩ := not_reading_loadStep hc hload
  rw [h.reading hrunning]
  exact ⟨fun hr => absurd hr hbefore, fun hr => absurd hr hafter⟩

theorem fits_afterCreateDir {disk : Seeding.Disk Unit} (hmissing : disk.path = none)
    (hseed : setup.source.seed = .createFile) (fault : Option IoError) :
    Fits setup disk (Seeding.afterCreateDir setup.source setup.codec fault) := by
  have herror (e : ConfigError) : Fits setup disk (.returned (.error e)) := by
    simp [Fits, Loads, hmissing, hseed]
  unfold Seeding.afterCreateDir
  split
  · exact herror _
  · split
    · exact herror _
    · exact hmissing

theorem Tracked.untouched (h : Tracked setup init s) (hrunning : s.callback = .running)
    {c : Seeding.Call} {files : Seeding.State Unit T} (htouches : touches s.files c = false)
    (hc : c ≠ .start ∧ c ≠ .crash ∧ ∀ fault, c ≠ .read fault)
    (hload : Seeding.loadStep setup.source setup.codec s.files () c = some files) :
    Tracked setup init { s with files := files } := by
  refine ⟨h.firing, Seeding.follows_loadStep h.follows hload,
    fun _ => h.reading_load hrunning hc hload, h.readAt_le, h.recorded, h.live, h.seen,
    fun _ hread => ?_, fun hnot => absurd hrunning hnot⟩
  have hfits := h.fits hrunning hread
  have hfollows := h.follows
  cases Seeding.Effect.of_step hload with
  | start => exact absurd rfl hc.1
  | crash => exact absurd rfl hc.2.1
  | read fault => exact absurd rfl (hc.2.2 fault)
  | createDirAll fault hpc =>
    rw [hpc] at hfits hfollows
    rw [Seeding.goto_pc_self]
    exact fits_afterCreateDir hfits hfollows fault
  | notOpened text e hpc =>
    rw [hpc] at hfits hfollows
    have hmissing : s.files.disk.path = none := hfits
    simp [Fits, Loads, Seeding.State.goto, hmissing, hfollows.1]
  | opened text hpc => cases htouches
  | interrupted ino offset rest e hpc | notWritten ino offset rest e hpc
  | written ino offset rest n hpc =>
    rw [hpc] at hfits
    exact hfits.elim

theorem tracked_step {a : Action}
    (hspec : ∃ spec ∈ setup.watch.specs, Watch.isRelevantPath setup.source.path spec.filter)
    (h : Tracked setup init s) (hstep : step setup s a = some t) : Tracked setup init t := by
  cases Step.of_step hstep with
  | watch a w ha hw =>
    have hkeep (hfiring : s.watch.pc = .firing) : w.pc = .firing := Watch.firing_step hfiring ha hw
    refine ⟨fun hc => hkeep (h.firing hc), h.follows, h.reading, h.readAt_le, h.recorded, h.live,
      ?_, h.fits, h.loads⟩
    rcases h.seen with hzero | hread | htrig | ⟨hfiring, hidle⟩ | hrunning
    · exact .inl hzero
    · exact .inr (.inl hread)
    · rcases Watch.triggered_step htrig hw with ht | ⟨hnot, hfire⟩
      · exact .inr (.inr (.inl ht))
      · refine .inr (.inr (.inr (.inl ⟨hfire, ?_⟩)))
        by_contra hc
        exact hnot (h.firing hc)
    · exact .inr (.inr (.inr (.inl ⟨hkeep hfiring, hidle⟩)))
    · exact .inr (.inr (.inr (.inr hrunning)))
  | fired w hdone hw =>
    have hnot : s.callback ≠ .running := by simp [hdone]
    refine ⟨fun hc => absurd rfl hc, h.follows, by simp, h.readAt_le, fun _ => h.recorded hnot,
      h.live, ?_, by simp, fun _ => h.loads hnot⟩
    rcases h.seen with hzero | hread | htrig | ⟨-, hidle⟩ | ⟨hrunning, -⟩
    · exact .inl hzero
    · exact .inr (.inl hread)
    · rcases Watch.triggered_step htrig hw with ht | ⟨hfiring, -⟩
      · exact .inr (.inr (.inl ht))
      · exact absurd (h.firing (by simp [hdone])) hfiring
    · rw [hdone] at hidle
      cases hidle
    · exact absurd hrunning hnot
  | change a e files he hpc =>
    exact h.changed (relevant_of_names hspec he) (hpc ▸ h.follows) (hpc ▸ h.reading)
  | begin hfiring hidle =>
    refine ⟨fun _ => hfiring, ?_, ?_, by simp, by simp, h.live, ?_, by simp, by simp⟩
    · simp [Seeding.Follows]
    · simp
    · exact .inr (.inr (.inr (.inr ⟨rfl, rfl⟩)))
  | read fault e hrunning hpc =>
    refine ⟨h.firing, ?_, ?_, ?_, ?_, h.live, .inr (.inl rfl), ?_, ?_⟩
    · simpa using Seeding.follows_afterRead setup.source setup.codec (s.files.disk.readAnswer fault)
    · rcases Seeding.afterRead_cases setup.source setup.codec (s.files.disk.readAnswer fault) with
        ⟨r, hr⟩ | hdir
      · simp [hr]
      · simp [hdir]
    · simp
    · simp [hrunning]
    · intro _ _
      simpa [Seeding.State.goto] using fits_afterRead s.files.disk fault
    · simp [hrunning]
  | touched c e files hrunning he htouches hc hload =>
    exact h.changed (relevant_of_names hspec he) (Seeding.follows_loadStep h.follows hload)
      fun _ => h.reading_load hrunning hc hload
  | untouched c e files hrunning htouches hc hload =>
    exact h.untouched hrunning htouches hc hload
  | replace r hrunning hpc =>
    have hread : s.readAt ≠ none := by
      rw [Ne, h.reading hrunning, hpc]
      simp
    obtain ⟨v, hv⟩ := Option.ne_none_iff_exists'.mp hread
    refine ⟨fun _ => h.firing (by simp [hrunning]), h.follows, by simp, h.readAt_le, ?_, ?_, ?_,
      by simp, ?_⟩
    · simp [hv]
    · simp [lastGood_cons, h.live]
    · rcases h.seen with hzero | hread | htrig | ⟨-, hidle⟩ | ⟨-, hnone⟩
      · exact .inl hzero
      · exact .inr (.inl hread)
      · exact .inr (.inr (.inl htrig))
      · rw [hrunning] at hidle
        cases hidle
      · exact absurd hnone hread
    · intro _ r' hr'
      obtain ⟨hversion, rfl⟩ : v = s.version ∧ r = r' := by simpa [hv] using hr'
      have hfits := h.fits hrunning (hversion ▸ hv)
      rw [hpc] at hfits
      exact hfits

theorem tracked_reachable
    (hspec : ∃ spec ∈ setup.watch.specs, Watch.isRelevantPath setup.source.path spec.filter)
    (hs : (reloader setup init).Reachable s) : Tracked setup init s := by
  refine hs.invariant (I := Tracked setup init) ?_ fun _ _ _ hI _ hstep =>
    tracked_step hspec hI hstep
  rintro s ⟨files, hfiles, rfl⟩
  refine ⟨fun h => absurd rfl h, ?_, by simp, by simp, by simp, rfl, .inl rfl, by simp, by simp⟩
  rw [hfiles.idle ()]
  trivial

/-- Once the events of all changes are drained, the daemon's own seeding among them, the last
load is one of the path as it is: the live value is what that load gave, or the one before
if it failed. -/
theorem seeded_reload_converges (setup : Setup T) (init : T)
    (hspec : ∃ spec ∈ setup.watch.specs, Watch.isRelevantPath setup.source.path spec.filter)
    (s : State T) (hs : (reloader setup init).Reachable s) (hchanged : 0 < s.version)
    (hdrained : s.Drained) :
    ∃ r earlier, s.results = (s.version, r) :: earlier ∧
      (∀ v, r = .ok v → s.live = v) ∧
      (∀ e, r = .error e → s.live = lastGood init (earlier.map Prod.snd)) ∧
      Loads setup s.files.disk r := by
  have h := tracked_reachable hspec hs
  have hidle : s.callback = .idle := by
    by_contra hc
    exact hdrained.returned (h.firing hc)
  have hnot : s.callback ≠ .running := by simp [hidle]
  have hread : s.readAt = some s.version := by
    rcases h.seen with hzero | hread | (⟨e, he, -⟩ | hpending) | ⟨hfiring, -⟩ | ⟨hrunning, -⟩
    · omega
    · exact hread
    · simp [hdrained.kernel, hdrained.queue] at he
    · simp [hdrained.pending] at hpending
    · exact absurd hfiring hdrained.returned
    · exact absurd hrunning hnot
  have hrecorded := h.recorded hnot
  rw [hread] at hrecorded
  obtain ⟨⟨v, r⟩, hhead, hv⟩ := Option.map_eq_some_iff.mp hrecorded
  obtain rfl : v = s.version := hv
  obtain ⟨earlier, hearlier⟩ := List.head?_eq_some_iff.mp hhead
  have hlive := h.live
  rw [hearlier] at hlive
  obtain ⟨hok, herror⟩ := lastGood_cons_cases hlive
  exact ⟨r, earlier, hearlier, hok, herror, h.loads hnot r hhead⟩

def seedSetup : Setup Bool where
  watch := ⟨[.file (ofString "/etc/c.json")], 300⟩
  source := Seeding.boolFile
  codec := boolCodec

def dirsThere (_ : ℕ) : Watch.DirAnswers := ⟨fun _ => true, fun _ => true, fun _ _ => true⟩

def touched : Watch.Event := ⟨.modify, [ofString "/etc/c.json"]⟩

def missing : State Bool :=
  ⟨Watch.initial seedSetup.watch, Seeding.noFile, true, .idle, 0, none, []⟩

def takeEvent : List Action := [.watch .loopTop, .watch .deliver, .watch (.recv dirsThere 0 0)]

def awaitReload : List Action :=
  [.watch .loopTop, .watch (.tick 300), .watch (.timeout dirsThere 0 0), .begin]

/-- A file is created and removed again; the reload seeds it anew, and reloads what it wrote. -/
def removedOnce : List Action :=
  [.watch (.startup dirsThere), .change (.create []) touched, .change .remove touched] ++
    takeEvent ++ takeEvent ++ awaitReload ++
    [.load (.read none) touched, .load (.createDirAll none) touched, .load (.openFile none) touched,
      .load (.write (.ok 6)) touched, .replace, .watch .fired] ++
    takeEvent ++ takeEvent ++ awaitReload ++ [.load (.read none) touched, .replace, .watch .fired]

theorem missing_init : (reloader seedSetup true).init missing :=
  ⟨Seeding.noFile, Seeding.solo_init_noFile.1, rfl⟩

theorem seedSetup_spec : ∃ spec ∈ seedSetup.watch.specs,
    Watch.isRelevantPath seedSetup.source.path spec.filter :=
  ⟨_, List.mem_singleton_self _, by decide +kernel⟩

theorem seeded_reload_converges_removedOnce :
    ∃ s, (reloader seedSetup true).run missing removedOnce = some s ∧ s.version = 4 ∧
      s.live = false ∧ ∃ r earlier, s.results = (s.version, r) :: earlier ∧
        (∀ v, r = .ok v → s.live = v) ∧
        (∀ e, r = .error e → s.live = lastGood true (earlier.map Prod.snd)) ∧
        Loads seedSetup s.files.disk r := by
  have hrun : ∃ s, (reloader seedSetup true).run missing removedOnce = some s ∧ s.version = 4 ∧
      s.live = false ∧ s.Drained :=
    ⟨_, rfl, by decide +kernel, by decide +kernel, by decide +kernel, by decide +kernel,
      by decide +kernel, by decide +kernel⟩
  obtain ⟨s, hrun, hversion, hlive, hdrained⟩ := hrun
  exact ⟨s, hrun, hversion, hlive, seeded_reload_converges seedSetup true seedSetup_spec s
    (.run (.init missing_init) (fun _ _ _ => trivial) hrun) (by omega) hdrained⟩

/-- How many events one seeding raises at most: its open, and a write for each byte. -/
def seedEvents (codec : Codec T) : ℕ :=
  match codec.toStringPretty codec.default with
  | .ok body => (Seeding.seedText body).length + 1
  | .error _ => 0

/-- How many events the load in progress still raises at most, from here. -/
def pcFuel (codec : Codec T) (missing : Bool) : Seeding.Pc T → ℕ
  | .creatingDir | .opening _ => if missing then 0 else seedEvents codec
  | .writing _ _ rest => rest.length
  | _ => 0

def loadFuel (codec : Codec T) (files : Seeding.State Unit T) : ℕ :=
  (if files.disk.path.isNone then seedEvents codec else 0) +
    pcFuel codec files.disk.path.isNone (files.pc ())

/-- How many reloads may still end when nobody else changes the file. -/
def State.fuel (setup : Setup T) (s : State T) : ℕ :=
  s.watch.pc.fires + s.watch.fuel setup.watch + loadFuel setup.codec s.files

def Action.reloads : Action → ℕ
  | .watch a => a.reloads
  | _ => 0

/-- What another program's change adds: its event, and a seeding if it removed the file. -/
def Action.gain (setup : Setup T) : Action → ℕ
  | .watch a => a.raisesRelevant setup.watch.specs
  | .change _ _ => 1 + seedEvents setup.codec
  | _ => 0

theorem pcFuel_afterWrite (f : JsonFile) (codec : Codec T) (missing : Bool) (ino offset n : ℕ)
    (rest : List UInt8) :
    pcFuel codec missing (Seeding.afterWrite f codec ino offset rest n) + (if n = 0 then 0 else 1) ≤
      max rest.length 1 := by
  unfold Seeding.afterWrite
  split
  · exact Nat.zero_le _
  · split
    · exact Nat.le_max_right _ _
    · rename_i hn hmore
      rw [List.isEmpty_iff, List.drop_eq_nil_iff] at hmore
      simp only [pcFuel, List.length_drop]
      omega

theorem loadFuel_goto (codec : Codec T) (files : Seeding.State Unit T) (pc : Seeding.Pc T) :
    loadFuel codec (files.goto () pc) =
      (if files.disk.path.isNone then seedEvents codec else 0) +
        pcFuel codec files.disk.path.isNone pc := by
  simp [loadFuel, Seeding.State.goto]

theorem loadFuel_goto_le {codec : Codec T} {files : Seeding.State Unit T} {pc : Seeding.Pc T}
    (h : pcFuel codec files.disk.path.isNone pc ≤
      pcFuel codec files.disk.path.isNone (files.pc ())) :
    loadFuel codec (files.goto () pc) ≤ loadFuel codec files := by
  rw [loadFuel_goto]
  exact Nat.add_le_add_left h _

theorem loadFuel_loadStep {f : JsonFile} {codec : Codec T} {files files' : Seeding.State Unit T}
    {c : Seeding.Call} (hfollows : Seeding.Follows f codec (files.pc ()))
    (h : Seeding.loadStep f codec files () c = some files') :
    loadFuel codec files' + (if touches files c then 1 else 0) ≤ loadFuel codec files := by
  cases Seeding.Effect.of_step h with
  | start | crash => exact loadFuel_goto_le (Nat.zero_le _)
  | read fault hpc =>
    rcases Seeding.afterRead_cases f codec (files.disk.readAnswer fault) with ⟨r, hr⟩ | hdir
    · exact loadFuel_goto_le (by simp [hr, pcFuel])
    · exact loadFuel_goto_le (by simp [hdir, pcFuel, Seeding.path_of_creatingDir hdir])
  | createDirAll fault hpc =>
    rcases Seeding.afterCreateDir_cases f codec fault with ⟨r, hr⟩ | ⟨text, htext⟩
    · exact loadFuel_goto_le (by simp [hr, pcFuel])
    · exact loadFuel_goto_le (by simp [htext, hpc, pcFuel])
  | notOpened text e hpc => exact loadFuel_goto_le (Nat.zero_le _)
  | notWritten ino offset rest e hpc => exact loadFuel_goto_le (Nat.zero_le _)
  | opened text hpc =>
    rw [hpc] at hfollows
    obtain ⟨-, body, hbody, rfl⟩ := hfollows
    have hevents : seedEvents codec = (Seeding.seedText body).length + 1 := by
      simp [seedEvents, hbody]
    cases hpath : files.disk.path <;>
      simp [loadFuel, touches, hpc, hpath, hevents, pcFuel, Seeding.State.goto,
        Seeding.Disk.openTruncate, Seeding.Disk.link]
  | interrupted ino offset rest e hpc => simp [touches]
  | written ino offset rest n hpc =>
    rw [hpc] at hfollows
    obtain ⟨-, body, -, rfl, hlt⟩ := hfollows
    have hrest : 0 < ((Seeding.seedText body).drop offset).length := by
      rw [List.length_drop]
      omega
    have hleft := pcFuel_afterWrite f codec files.disk.path.isNone ino offset n
      ((Seeding.seedText body).drop offset)
    have hpaid : (if touches files (.write (.ok n)) then 1 else 0) ≤ if n = 0 then 0 else 1 := by
      simp only [touches, hpc]
      split <;> split <;> simp_all
    have hnow : pcFuel codec files.disk.path.isNone (files.pc ()) =
        ((Seeding.seedText body).drop offset).length := by
      rw [hpc]
      rfl
    rw [loadFuel_goto]
    change (if files.disk.path.isNone then seedEvents codec else 0) +
      pcFuel codec files.disk.path.isNone _ + _ ≤ _
    rw [loadFuel, hnow]
    omega

/-- A file that comes or goes allows one more seeding at most. -/
theorem loadFuel_le (codec : Codec T) {files files' : Seeding.State Unit T}
    (hpc : files'.pc = files.pc) :
    loadFuel codec files' ≤ loadFuel codec files + seedEvents codec := by
  simp only [loadFuel, hpc]
  cases files.pc () <;> cases files'.disk.path.isNone <;> cases files.disk.path.isNone <;>
    simp [pcFuel] <;> omega

theorem fuel_raise (setup : Setup T) (w : Watch.State) (e : Watch.Event) :
    Watch.State.fuel setup.watch { w with kernel := w.kernel ++ [.ok e] } ≤
      w.fuel setup.watch + 1 := by
  simp only [Watch.State.fuel, List.countP_append, List.countP_singleton]
  split <;> omega

theorem fuel_step {a : Action} (h : Tracked setup init s) (hstep : step setup s a = some t) :
    a.reloads + t.fuel setup ≤ s.fuel setup + a.gain setup := by
  cases Step.of_step hstep with
  | watch b w hb hw =>
    have hpaid := Watch.fuel_step hw
    simp only [State.fuel, Action.reloads, Action.gain]
    omega
  | fired w hdone hw =>
    have hpaid := Watch.fuel_step hw
    simp only [State.fuel, Action.reloads, Action.gain]
    omega
  | change a e files he hpc =>
    have hraise := fuel_raise setup s.watch e
    have hload := loadFuel_le setup.codec hpc
    simp only [State.fuel, State.changed, Action.reloads, Action.gain]
    omega
  | begin hfiring hidle =>
    have hload : loadFuel setup.codec (s.files.goto () .reading) ≤ loadFuel setup.codec s.files :=
      loadFuel_goto_le (Nat.zero_le _)
    simp only [State.fuel, Action.reloads, Action.gain]
    omega
  | read fault e hrunning hpc =>
    have hread : Seeding.loadStep setup.source setup.codec s.files () (.read fault) =
        some (s.files.goto ()
          (Seeding.afterRead setup.source setup.codec (s.files.disk.readAnswer fault))) := by
      simp [Seeding.loadStep, hpc]
    have hpaid := loadFuel_loadStep h.follows hread
    simp only [State.fuel, Action.reloads, Action.gain]
    omega
  | touched c e files hrunning he htouches hc hload =>
    have hraise := fuel_raise setup s.watch e
    have hpaid := loadFuel_loadStep h.follows hload
    simp only [htouches, if_true] at hpaid
    simp only [State.fuel, State.changed, Action.reloads, Action.gain]
    omega
  | untouched c e files hrunning htouches hc hload =>
    have hpaid := loadFuel_loadStep h.follows hload
    simp only [State.fuel, Action.reloads, Action.gain]
    omega
  | replace r hrunning hpc => simp [State.fuel, Action.reloads, Action.gain]

/-- The daemon does not keep itself busy: in any run, each reload is paid for by an event on
the way, a spec still to attach, a file still to seed, or what another program does. -/
theorem reloads_bounded (setup : Setup T) (init : T)
    (hspec : ∃ spec ∈ setup.watch.specs, Watch.isRelevantPath setup.source.path spec.filter)
    (s : State T) (hs : (reloader setup init).Reachable s) (as : List Action) (t : State T)
    (hrun : (reloader setup init).run s as = some t) :
    (as.map Action.reloads).sum + t.fuel setup ≤
      s.fuel setup + (as.map (Action.gain setup)).sum := by
  rw [← spent_eq_sum Action.reloads hrun]
  exact spent_le_of_potential (I := Tracked setup init) (fun _ => Action.reloads)
    (Action.gain setup) (State.fuel setup)
    (fun _ _ _ _ hI hstep => ⟨tracked_step hspec hI hstep, fuel_step hI hstep⟩)
    (tracked_reachable hspec hs) hrun

theorem reloads_bounded_removedOnce :
    ∃ s, (reloader seedSetup true).run missing removedOnce = some s ∧
      (removedOnce.map Action.reloads).sum = 2 ∧
      (removedOnce.map Action.reloads).sum + s.fuel seedSetup ≤
        missing.fuel seedSetup + (removedOnce.map (Action.gain seedSetup)).sum := by
  have hrun : ∃ s, (reloader seedSetup true).run missing removedOnce = some s := ⟨_, rfl⟩
  obtain ⟨s, hrun⟩ := hrun
  exact ⟨s, hrun, by decide +kernel, reloads_bounded seedSetup true seedSetup_spec missing
    (.init missing_init) removedOnce s hrun⟩

end SeededReload
end SharedDaemon
