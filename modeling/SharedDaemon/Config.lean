import SharedDaemon.StdIo
import SharedDaemon.StdPath

/-!
# Loading a configuration

`JsonFile::load` as a function of what the file system answers, and `try_reload`, which
replaces the live snapshot only after a successful load.
-/

namespace SharedDaemon
namespace Config

open StdIo StdPath

/-- The path of an `Io` error is kept in bytes, before it is displayed. -/
inductive ConfigError
  | io (path : OsStr) (source : IoError)
  | json (text : String)
  | other (text : String)
  deriving DecidableEq

def ConfigError.ioAt (path : OsStr) (source : IoError) : ConfigError := .io path source

inductive Seed
  | errorIfMissing | defaultInMemory | createFile
  deriving DecidableEq

structure JsonFile where
  path : OsStr
  seed : Seed
  deriving DecidableEq

def JsonFile.new (path : OsStr) : JsonFile := ⟨path, .errorIfMissing⟩

def JsonFile.missingDefaults (f : JsonFile) : JsonFile := { f with seed := .defaultInMemory }

def JsonFile.createDefault (f : JsonFile) : JsonFile := { f with seed := .createFile }

/-- What `serde` derives for the configuration type. -/
structure Codec (T : Type) where
  fromStr : String → Except String T
  toStringPretty : T → Except String String
  default : T

/-- What the system answers to `read_to_string`, `create_dir_all` and `write`. -/
structure FileAnswers where
  readToString : Except IoError String
  createDirAll : Except IoError Unit := .ok ()
  write : String → Except IoError Unit := fun _ => .ok ()

variable {T : Type}

/-- The `CreateFile` branch: the default, once its text is in the file. -/
def JsonFile.seedDefault (f : JsonFile) (codec : Codec T) (os : FileAnswers) :
    Except ConfigError T := do
  if let some dir := parent f.path then
    os.createDirAll.mapError (ConfigError.ioAt dir)
  let body ← (codec.toStringPretty codec.default).mapError ConfigError.json
  (os.write (body ++ "\n")).mapError (ConfigError.ioAt f.path)
  return codec.default

def JsonFile.load (f : JsonFile) (codec : Codec T) (os : FileAnswers) : Except ConfigError T :=
  match os.readToString with
  | .ok text => (codec.fromStr text).mapError ConfigError.json
  | .error e =>
    if e.kind = .notFound then
      match f.seed with
      | .errorIfMissing => .error (.ioAt f.path e)
      | .defaultInMemory => .ok codec.default
      | .createFile => f.seedDefault codec os
    else .error (.ioAt f.path e)

/-- `try_reload` on what a load gave: the live value afterwards. -/
def tryReload (live : T) : Except ConfigError T → T × Except ConfigError Unit
  | .ok next => (next, .ok ())
  | .error e => (live, .error e)

@[simp] theorem tryReload_ok (live next : T) : tryReload live (.ok next) = (next, .ok ()) := rfl

@[simp] theorem tryReload_error (live : T) (e : ConfigError) :
    tryReload live (.error e) = (live, .error e) := rfl

structure ReadOnlyFile where
  source : JsonFile
  readOnly : source.seed ≠ .createFile

def ReadOnlyFile.load (f : ReadOnlyFile) (codec : Codec T) (got : Except IoError String) :
    Except ConfigError T :=
  f.source.load codec { readToString := got }

/-- Whatever else the system would answer, the load of a read-only file depends on the read
alone. -/
theorem readOnly_load (f : ReadOnlyFile) (codec : Codec T) (os : FileAnswers) :
    f.source.load codec os = f.load codec os.readToString := by
  unfold ReadOnlyFile.load JsonFile.load
  cases os.readToString with
  | ok text => rfl
  | error e =>
    cases hseed : f.source.seed with
    | errorIfMissing | defaultInMemory => rfl
    | createFile => exact absurd hseed f.readOnly

/-- The value of the latest load that gave one, of those in `results` (latest first). -/
def lastGood (init : T) : List (Except ConfigError T) → T
  | [] => init
  | .ok v :: _ => v
  | .error _ :: results => lastGood init results

theorem lastGood_cons (init : T) (r : Except ConfigError T)
    (results : List (Except ConfigError T)) :
    lastGood init (r :: results) = (tryReload (lastGood init results) r).1 := by
  cases r <;> rfl

theorem lastGood_origin (init : T) (results : List (Except ConfigError T)) :
    lastGood init results = init ∨ .ok (lastGood init results) ∈ results := by
  induction results with
  | nil => exact .inl rfl
  | cons r results ih =>
    cases r with
    | ok v => exact .inr (by simp [lastGood])
    | error e =>
      rcases ih with hinit | hmem
      · exact .inl hinit
      · exact .inr (List.mem_cons_of_mem _ hmem)

theorem lastGood_cons_cases {init live : T} {r : Except ConfigError T}
    {results : List (Except ConfigError T)} (h : live = lastGood init (r :: results)) :
    (∀ v, r = .ok v → live = v) ∧ ∀ e, r = .error e → live = lastGood init results := by
  constructor <;> rintro x rfl <;> exact h

def ReadOnlyFile.lastGood (f : ReadOnlyFile) (codec : Codec T) (init : T)
    (reads : List (Except IoError String)) : T :=
  Config.lastGood init (reads.map (f.load codec))

theorem readOnly_lastGood_cons (f : ReadOnlyFile) (codec : Codec T) (init : T)
    (got : Except IoError String) (reads : List (Except IoError String)) :
    f.lastGood codec init (got :: reads) =
      (tryReload (f.lastGood codec init reads) (f.load codec got)).1 :=
  lastGood_cons init (f.load codec got) (reads.map (f.load codec))

theorem readOnly_lastGood_origin (f : ReadOnlyFile) (codec : Codec T) (init : T)
    (reads : List (Except IoError String)) :
    f.lastGood codec init reads = init ∨
      ∃ got ∈ reads, f.load codec got = .ok (f.lastGood codec init reads) :=
  (lastGood_origin init (reads.map (f.load codec))).imp_right List.mem_map.mp

/-- JSON text without the white space around it. -/
def trimJson (text : List Char) : List Char :=
  let blank (c : Char) : Bool := c = ' ' ∨ c = '\n' ∨ c = '\r' ∨ c = '\t'
  ((text.dropWhile blank).reverse.dropWhile blank).reverse

/-- A configuration that is one boolean; of the error texts only that of an empty file is as
`serde_json` has it. -/
def boolCodec : Codec Bool where
  fromStr text :=
    match trimJson text.toList with
    | [] => .error "EOF while parsing a value at line 1 column 0"
    | ['t', 'r', 'u', 'e'] => .ok true
    | ['f', 'a', 'l', 's', 'e'] => .ok false
    | _ => .error "expected value at line 1 column 1"
  toStringPretty v := .ok (if v then "true" else "false")
  default := false

end Config
end SharedDaemon
