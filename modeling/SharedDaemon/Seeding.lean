import SharedDaemon.Config
import SharedDaemon.TransitionSystem
import Mathlib.Logic.Function.Basic

/-!
# Loading with `create_default`, one system call at a time

Any number of loads of one path, each by its own codec, among other programs that create,
replace and remove the file. Files are known by their inode, so that a handle outlives the
name.
-/

namespace SharedDaemon
namespace Seeding

open StdIo StdPath Config TransitionSystem

/-- Where a load is. From `opening` on it has the default text, and from `writing` on a
handle with an offset and what it has yet to write. -/
inductive Pc (T : Type)
  | idle
  | reading
  | creatingDir
  | opening (text : List UInt8)
  | writing (ino offset : ℕ) (rest : List UInt8)
  | returned (result : Except ConfigError T)

/-- The file system: what the path names, the inodes, and who made them; `none` stands for
programs other than the loads. -/
structure Disk (P : Type*) where
  path : Option ℕ
  nextIno : ℕ
  content : ℕ → List UInt8
  author : ℕ → Option P

structure State (P : Type*) (T : Type) where
  disk : Disk P
  pc : P → Pc T

/-- One step of a load and what the system answers: a fault, or how much of a write it took. -/
inductive Call
  | start
  | read (fault : Option { e : IoError // e.kind ≠ .notFound })
  | createDirAll (fault : Option IoError)
  | openFile (fault : Option IoError)
  | write (answer : Except IoError ℕ)
  | crash

inductive Action (P : Type*)
  | load (p : P) (c : Call)
  | create (content : List UInt8)
  | replace (content : List UInt8)
  | remove

variable {P : Type*} [DecidableEq P] {T : Type}

def enoent : IoError := ⟨.notFound, "No such file or directory (os error 2)"⟩

def notUtf8 : IoError := ⟨.invalidData, "stream did not contain valid UTF-8"⟩

def writeZero : IoError := ⟨.writeZero, "failed to write whole buffer"⟩

/-- `fs::read_to_string`. -/
def Disk.readToString (d : Disk P) : Except IoError String :=
  match d.path with
  | none => .error enoent
  | some i =>
    match toStr (d.content i) with
    | some text => .ok text
    | none => .error notUtf8

def Disk.readAnswer (d : Disk P) :
    Option { e : IoError // e.kind ≠ .notFound } → Except IoError String
  | some e => .error e.val
  | none => d.readToString

def Disk.link (d : Disk P) (author : Option P) (content : List UInt8) : Disk P where
  path := some d.nextIno
  nextIno := d.nextIno + 1
  content := Function.update d.content d.nextIno content
  author := Function.update d.author d.nextIno author

/-- `open` with `O_CREAT | O_TRUNC`: the inode, which is new or emptied. -/
def Disk.openTruncate (d : Disk P) (p : P) : Disk P × ℕ :=
  match d.path with
  | none => (d.link (some p) [], d.nextIno)
  | some i => ({ d with content := Function.update d.content i [] }, i)

def writeAt (content : List UInt8) (offset : ℕ) (chunk : List UInt8) : List UInt8 :=
  (content ++ List.replicate (offset - content.length) 0).take offset ++ chunk ++
    content.drop (offset + chunk.length)

def Disk.write (d : Disk P) (ino offset : ℕ) (chunk : List UInt8) : Disk P :=
  { d with content := Function.update d.content ino (writeAt (d.content ino) offset chunk) }

def afterRead (f : JsonFile) (codec : Codec T) : Except IoError String → Pc T
  | .ok text => .returned ((codec.fromStr text).mapError ConfigError.json)
  | .error e =>
    if e.kind = .notFound then
      match f.seed with
      | .errorIfMissing => .returned (.error (.ioAt f.path e))
      | .defaultInMemory => .returned (.ok codec.default)
      | .createFile => .creatingDir
    else .returned (.error (.ioAt f.path e))

def seedText (body : String) : List UInt8 := ofString (body ++ "\n")

/-- `create_dir_all`, when the path has a parent, and then `to_string_pretty`. -/
def afterCreateDir (f : JsonFile) (codec : Codec T) (fault : Option IoError) : Pc T :=
  match parent f.path, fault with
  | some dir, some e => .returned (.error (.ioAt dir e))
  | _, _ =>
    match codec.toStringPretty codec.default with
    | .error text => .returned (.error (.json text))
    | .ok body => .opening (seedText body)

/-- The next turn of `write_all` after `n` bytes of `rest` were taken. -/
def afterWrite (f : JsonFile) (codec : Codec T) (ino offset : ℕ) (rest : List UInt8) (n : ℕ) :
    Pc T :=
  if n = 0 then .returned (.error (.ioAt f.path writeZero))
  else if (rest.drop n).isEmpty then .returned (.ok codec.default)
  else .writing ino (offset + n) (rest.drop n)

def State.goto (s : State P T) (p : P) (pc : Pc T) : State P T :=
  { s with pc := Function.update s.pc p pc }

def loadStep (f : JsonFile) (codec : Codec T) (s : State P T) (p : P) : Call → Option (State P T)
  | .start =>
    match s.pc p with
    | .idle | .returned _ => some (s.goto p .reading)
    | _ => none
  | .read fault =>
    match s.pc p with
    | .reading => some (s.goto p (afterRead f codec (s.disk.readAnswer fault)))
    | _ => none
  | .createDirAll fault =>
    match s.pc p with
    | .creatingDir => some (s.goto p (afterCreateDir f codec fault))
    | _ => none
  | .openFile fault =>
    match s.pc p, fault with
    | .opening _, some e => some (s.goto p (.returned (.error (.ioAt f.path e))))
    | .opening text, none =>
      let (disk, ino) := s.disk.openTruncate p
      some ({ s with disk }.goto p (.writing ino 0 text))
    | _, _ => none
  | .write answer =>
    match s.pc p, answer with
    | .writing _ _ _, .error e =>
      if e.kind = .interrupted then some s
      else some (s.goto p (.returned (.error (.ioAt f.path e))))
    | .writing ino offset rest, .ok n =>
      some ({ s with disk := s.disk.write ino offset (rest.take n) }.goto p
        (afterWrite f codec ino offset rest n))
    | _, _ => none
  | .crash => some (s.goto p .idle)

/-- The loads, each of its own `JsonFile` at the one path, and the other programs, which
put whole files there. -/
def step (f : P → JsonFile) (codec : P → Codec T) (s : State P T) : Action P → Option (State P T)
  | .load p c => loadStep (f p) (codec p) s p c
  | .create content =>
    match s.disk.path with
    | none => some { s with disk := s.disk.link none content }
    | some _ => none
  | .replace content => some { s with disk := s.disk.link none content }
  | .remove =>
    match s.disk.path with
    | some _ => some { s with disk := { s.disk with path := none } }
    | none => none

/-- No load has begun, and the path holds a file of another program or none. -/
structure Initial (s : State P T) : Prop where
  idle : ∀ p, s.pc p = .idle
  author : ∀ i, s.disk.author i = none
  fresh : ∀ i, s.disk.path = some i → i < s.disk.nextIno

def loads (f : P → JsonFile) (codec : P → Codec T) : TransitionSystem (State P T) (Action P) where
  init := Initial
  step := step f codec

/-- All that one step of a load can do, guards included. -/
inductive Effect (f : JsonFile) (codec : Codec T) (s : State P T) (p : P) :
    Call → State P T → Prop
  | start (h : s.pc p = .idle ∨ ∃ r, s.pc p = .returned r) :
      Effect f codec s p .start (s.goto p .reading)
  | read (fault : Option { e : IoError // e.kind ≠ .notFound }) (h : s.pc p = .reading) :
      Effect f codec s p (.read fault) (s.goto p (afterRead f codec (s.disk.readAnswer fault)))
  | createDirAll (fault : Option IoError) (h : s.pc p = .creatingDir) :
      Effect f codec s p (.createDirAll fault) (s.goto p (afterCreateDir f codec fault))
  | notOpened (text : List UInt8) (e : IoError) (h : s.pc p = .opening text) :
      Effect f codec s p (.openFile (some e)) (s.goto p (.returned (.error (.ioAt f.path e))))
  | opened (text : List UInt8) (h : s.pc p = .opening text) :
      Effect f codec s p (.openFile none)
        ({ s with disk := (s.disk.openTruncate p).1 }.goto p
          (.writing (s.disk.openTruncate p).2 0 text))
  | interrupted (ino offset : ℕ) (rest : List UInt8) (e : IoError)
      (h : s.pc p = .writing ino offset rest) (he : e.kind = .interrupted) :
      Effect f codec s p (.write (.error e)) s
  | notWritten (ino offset : ℕ) (rest : List UInt8) (e : IoError)
      (h : s.pc p = .writing ino offset rest) (he : e.kind ≠ .interrupted) :
      Effect f codec s p (.write (.error e)) (s.goto p (.returned (.error (.ioAt f.path e))))
  | written (ino offset : ℕ) (rest : List UInt8) (n : ℕ) (h : s.pc p = .writing ino offset rest) :
      Effect f codec s p (.write (.ok n))
        ({ s with disk := s.disk.write ino offset (rest.take n) }.goto p
          (afterWrite f codec ino offset rest n))
  | crash : Effect f codec s p .crash (s.goto p .idle)

theorem Effect.of_step {f : JsonFile} {codec : Codec T} {s t : State P T} {p : P} {c : Call}
    (h : loadStep f codec s p c = some t) : Effect f codec s p c t := by
  cases c with
  | start =>
    simp only [loadStep] at h
    split at h
    · rename_i hpc
      obtain rfl := Option.some.inj h
      exact .start (.inl hpc)
    · rename_i r hpc
      obtain rfl := Option.some.inj h
      exact .start (.inr ⟨r, hpc⟩)
    · cases h
  | read fault | createDirAll fault =>
    simp only [loadStep] at h
    split at h
    · rename_i hpc
      obtain rfl := Option.some.inj h
      constructor
      exact hpc
    · cases h
  | openFile fault =>
    simp only [loadStep] at h
    split at h
    · rename_i text e hpc
      obtain rfl := Option.some.inj h
      exact .notOpened text e hpc
    · rename_i text hpc
      obtain rfl := Option.some.inj h
      exact .opened text hpc
    · cases h
  | write answer =>
    simp only [loadStep] at h
    split at h
    · rename_i ino offset rest e hpc
      split at h
      · rename_i he
        obtain rfl := Option.some.inj h
        exact .interrupted ino offset rest e hpc he
      · rename_i he
        obtain rfl := Option.some.inj h
        exact .notWritten ino offset rest e hpc he
    · rename_i ino offset rest n hpc
      obtain rfl := Option.some.inj h
      exact .written ino offset rest n hpc
    · cases h
  | crash =>
    obtain rfl := Option.some.inj h
    exact .crash

/-- What a load has come to is what `JsonFile::load` makes of some answers. -/
def Follows (f : JsonFile) (codec : Codec T) : Pc T → Prop
  | .idle | .reading => True
  | .creatingDir => f.seed = .createFile
  | .opening text =>
    f.seed = .createFile ∧
      ∃ body, codec.toStringPretty codec.default = .ok body ∧ text = seedText body
  | .writing _ offset rest =>
    f.seed = .createFile ∧ ∃ body, codec.toStringPretty codec.default = .ok body ∧
      rest = (seedText body).drop offset ∧ offset < (seedText body).length
  | .returned r => ∃ os, r = f.load codec os

theorem follows_afterRead (f : JsonFile) (codec : Codec T) (got : Except IoError String) :
    Follows f codec (afterRead f codec got) := by
  cases got with
  | ok text => exact ⟨{ readToString := .ok text }, rfl⟩
  | error e =>
    by_cases he : e.kind = .notFound
    · cases hseed : f.seed with
      | errorIfMissing | defaultInMemory =>
        simp only [afterRead, he, hseed, if_true]
        exact ⟨{ readToString := .error e }, by simp [JsonFile.load, he, hseed]⟩
      | createFile =>
        simp only [afterRead, he, hseed, if_true]
        exact hseed
    · simp only [afterRead, he, if_false]
      exact ⟨{ readToString := .error e }, by simp [JsonFile.load, he]⟩

theorem load_seeds {f : JsonFile} {codec : Codec T} {body : String} (hseed : f.seed = .createFile)
    (hbody : codec.toStringPretty codec.default = .ok body) (w : Except IoError Unit) :
    f.load codec { readToString := .error enoent, write := fun _ => w } =
      (w.mapError (ConfigError.ioAt f.path)).map fun _ => codec.default := by
  cases hparent : parent f.path <;> cases w <;>
    simp [JsonFile.load, JsonFile.seedDefault, enoent, hseed, hbody, hparent, Except.mapError,
      Except.map, bind, Except.bind, pure, Except.pure]

theorem follows_afterCreateDir {f : JsonFile} (codec : Codec T) (hseed : f.seed = .createFile)
    (fault : Option IoError) : Follows f codec (afterCreateDir f codec fault) := by
  unfold afterCreateDir
  split
  · rename_i dir e hparent
    refine ⟨{ readToString := .error enoent, createDirAll := .error e }, ?_⟩
    simp [JsonFile.load, JsonFile.seedDefault, enoent, hseed, hparent, Except.mapError, bind,
      Except.bind]
  · split
    · rename_i text hbody
      refine ⟨{ readToString := .error enoent }, ?_⟩
      cases hparent : parent f.path <;>
        simp [JsonFile.load, JsonFile.seedDefault, enoent, hseed, hbody, hparent, Except.mapError,
          bind, Except.bind]
    · rename_i body hbody
      exact ⟨hseed, body, hbody, rfl⟩

theorem follows_failed {f : JsonFile} {codec : Codec T} {body : String}
    (hseed : f.seed = .createFile) (hbody : codec.toStringPretty codec.default = .ok body)
    (e : IoError) : Follows f codec (.returned (.error (.ioAt f.path e))) :=
  ⟨_, (load_seeds hseed hbody (.error e)).symm⟩

theorem follows_afterWrite {f : JsonFile} {codec : Codec T} {ino offset : ℕ} {rest : List UInt8}
    (h : Follows f codec (.writing ino offset rest)) (n : ℕ) :
    Follows f codec (afterWrite f codec ino offset rest n) := by
  obtain ⟨hseed, body, hbody, rfl, hlt⟩ := h
  unfold afterWrite
  by_cases hn : n = 0
  · rw [if_pos hn]
    exact follows_failed hseed hbody writeZero
  rw [if_neg hn, List.drop_drop]
  by_cases hend : ((seedText body).drop (offset + n)).isEmpty
  · rw [if_pos hend]
    exact ⟨_, (load_seeds hseed hbody (.ok ())).symm⟩
  · rw [if_neg hend]
    have hlen : offset + n < (seedText body).length := by
      by_contra hle
      exact hend (by simpa using Nat.le_of_not_lt hle)
    exact ⟨hseed, body, hbody, rfl, hlen⟩

@[simp] theorem goto_pc_self (s : State P T) (p : P) (pc : Pc T) : (s.goto p pc).pc p = pc :=
  Function.update_self _ _ _

theorem goto_pc_of_ne (s : State P T) {p q : P} (pc : Pc T) (h : q ≠ p) :
    (s.goto p pc).pc q = s.pc q :=
  Function.update_of_ne h _ _

theorem seedText_length_pos (body : String) : 0 < (seedText body).length := by
  have hnewline : "\n".utf8ByteSize = 1 := by decide
  simp [seedText, ofString, hnewline]

/-- A step keeps each load to what `JsonFile::load` does. -/
theorem follows_loadStep {f : JsonFile} {codec : Codec T} {s t : State P T} {p : P} {c : Call}
    (h : Follows f codec (s.pc p)) (hstep : loadStep f codec s p c = some t) :
    Follows f codec (t.pc p) := by
  cases Effect.of_step hstep with
  | start | crash => simp [Follows]
  | read fault hpc =>
    rw [goto_pc_self]
    exact follows_afterRead f codec _
  | createDirAll fault hpc =>
    rw [goto_pc_self]
    rw [hpc] at h
    exact follows_afterCreateDir codec h fault
  | notOpened text e hpc =>
    rw [goto_pc_self]
    rw [hpc] at h
    obtain ⟨hseed, body, hbody, -⟩ := h
    exact follows_failed hseed hbody e
  | opened text hpc =>
    rw [goto_pc_self]
    rw [hpc] at h
    obtain ⟨hseed, body, hbody, rfl⟩ := h
    exact ⟨hseed, body, hbody, rfl, seedText_length_pos body⟩
  | interrupted => exact h
  | notWritten ino offset rest e hpc =>
    rw [goto_pc_self]
    rw [hpc] at h
    obtain ⟨hseed, body, hbody, -⟩ := h
    exact follows_failed hseed hbody e
  | written ino offset rest n hpc =>
    rw [goto_pc_self]
    rw [hpc] at h
    exact follows_afterWrite h n

theorem loadStep_pc_of_ne {f : JsonFile} {codec : Codec T} {s t : State P T} {p q : P} {c : Call}
    (hstep : loadStep f codec s p c = some t) (hq : q ≠ p) : t.pc q = s.pc q := by
  cases Effect.of_step hstep with
  | interrupted => rfl
  | start | read | createDirAll | notOpened | opened | notWritten | written | crash =>
    exact goto_pc_of_ne _ _ hq

theorem step_pc {f : P → JsonFile} {codec : P → Codec T} {s t : State P T} {a : Action P}
    (ha : ∀ p c, a ≠ .load p c) (hstep : step f codec s a = some t) : t.pc = s.pc := by
  cases a with
  | load p c => exact absurd rfl (ha p c)
  | create content | remove =>
    simp only [step] at hstep
    split at hstep
    · obtain rfl := Option.some.inj hstep
      rfl
    · cases hstep
  | replace content =>
    obtain rfl := Option.some.inj hstep
    rfl

theorem exists_write_all {s : State P T} {p : P} {i : ℕ} {text : List UInt8} (f : P → JsonFile)
    (codec : P → Codec T) (hp : s.pc p = .writing i 0 text) (hcontent : s.disk.content i = [])
    (hpos : 0 < text.length) :
    ∃ t, step f codec s (.load p (.write (.ok text.length))) = some t ∧
      t.pc p = .returned (.ok (codec p).default) ∧ t.disk.path = s.disk.path ∧
      t.disk.content i = text := by
  have hdone : afterWrite (f p) (codec p) i 0 text text.length = .returned (.ok (codec p).default) := by
    simp [afterWrite, Nat.ne_of_gt hpos]
  have hstep : step f codec s (.load p (.write (.ok text.length))) =
      some ({ s with disk := s.disk.write i 0 (text.take text.length) }.goto p
        (.returned (.ok (codec p).default))) := by
    simp only [step, loadStep, hp, hdone]
  refine ⟨_, hstep, goto_pc_self _ _ _, rfl, ?_⟩
  simp [State.goto, Disk.write, writeAt, hcontent]

theorem follows_of_reachable {f : P → JsonFile} {codec : P → Codec T} {s : State P T}
    (hs : (loads f codec).Reachable s) (p : P) : Follows (f p) (codec p) (s.pc p) := by
  revert p
  refine hs.invariant (I := fun s => ∀ p, Follows (f p) (codec p) (s.pc p)) ?_ ?_
  · intro s hs p
    rw [hs.idle p]
    trivial
  · intro s a t hI _ hstep q
    by_cases ha : ∃ p c, a = .load p c
    · obtain ⟨p, c, rfl⟩ := ha
      by_cases hq : q = p
      · subst hq
        exact follows_loadStep (hI q) hstep
      · rw [loadStep_pc_of_ne hstep hq]
        exact hI q
    · rw [step_pc (fun p c hpc => ha ⟨p, c, hpc⟩) hstep]
      exact hI q

/-- Whatever else goes on at the path, a load returns what `JsonFile::load` makes of some
answers of the system. -/
theorem returned_eq_load {f : P → JsonFile} {codec : P → Codec T} {s : State P T}
    (hs : (loads f codec).Reachable s) (p : P) (r : Except ConfigError T)
    (hr : s.pc p = .returned r) : ∃ os, r = (f p).load (codec p) os := by
  have hfollows := follows_of_reachable hs p
  rw [hr] at hfollows
  exact hfollows

end Seeding
end SharedDaemon
