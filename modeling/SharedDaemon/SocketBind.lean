import SharedDaemon.StdIo
import SharedDaemon.TransitionSystem
import Mathlib.Logic.Function.Basic

/-!
# Claiming and binding the control socket

`claim` and `bind` as sequences of system calls on one shared path, interleaved over any
set of processes. The operating system answers each call from the shared state, or with
a fault of its own (permissions, memory). `bind` creates missing parent directories
before all this; that leaves the path itself alone, and `ClaimPath` models it.
-/

namespace SharedDaemon
namespace SocketBind

open StdIo

structure BindOptions where
  path : String
  mode : ℕ
  chown : Option (ℕ × ℕ)
  processName : String
  deriving DecidableEq

inductive BindError
  | alreadyRunning (processName location path : String) (pid : ℕ)
  | io (path : String) (source : IoError)
  deriving DecidableEq

def BindError.ioAt (path : String) (source : IoError) : BindError := .io path source

/-- A call in progress: `claim` alone, or `bind`, whose first part is `claim`. -/
inductive Call
  | claim (path processName : String)
  | bind (opts : BindOptions)
  deriving DecidableEq

def Call.path : Call → String
  | .claim path _ => path
  | .bind opts => opts.path

def Call.processName : Call → String
  | .claim _ processName => processName
  | .bind opts => opts.processName

/-- The system call a process makes next. From `socketBind` to the end of `serving` it
owns a socket bound to inode `ino`. -/
inductive Pc
  | idle
  | connect (call : Call)
  | unlink (call : Call)
  | socketBind (opts : BindOptions)
  | listen (opts : BindOptions) (ino : ℕ)
  | stat (opts : BindOptions) (ino : ℕ)
  | chmod (opts : BindOptions) (ino : ℕ)
  | chown (opts : BindOptions) (ino uid gid : ℕ)
  | serving (opts : BindOptions) (ino : ℕ)
  | claimed
  | failed (e : BindError)
  | dead
  deriving DecidableEq

def Pc.ino : Pc → Option ℕ
  | .listen _ i | .stat _ i | .chmod _ i | .chown _ i _ _ | .serving _ i => some i
  | _ => none

def Pc.accepts : Pc → Bool
  | .stat _ _ | .chmod _ _ | .chown _ _ _ _ | .serving _ _ => true
  | _ => false

def Pc.serves : Pc → Bool
  | .serving _ _ => true
  | _ => false

def Pc.resting : Pc → Bool
  | .idle | .claimed | .failed _ => true
  | _ => false

structure Inode (P : Type*) where
  ino : ℕ
  binder : Option P
  mode : ℕ
  uid : ℕ
  gid : ℕ
  deriving DecidableEq

/-- `(uid_t)-1`, nobody's id: `chown` takes it for no change. -/
def noId : ℕ := 0xFFFFFFFF

structure Credentials where
  uid : ℕ
  gid : ℕ
  umask : ℕ
  real : uid ≠ noId ∧ gid ≠ noId

/-- The shared path (all calls name the same file) and every process. -/
structure State (P : Type*) where
  path : Option (Inode P)
  nextIno : ℕ
  pc : P → Pc

def enoent : IoError := ⟨.notFound, "No such file or directory (os error 2)"⟩

def nixEnoent : IoError := ⟨.notFound, "ENOENT: No such file or directory"⟩

def econnrefused : IoError := ⟨.connectionRefused, "Connection refused (os error 111)"⟩

def eaddrinuse : IoError := ⟨.addrInUse, "Address already in use (os error 98)"⟩

/-- A failure that is not decided by what the path holds. -/
structure Fault where
  error : IoError
  foreign : error.kind ≠ .notFound ∧ error.kind ≠ .connectionRefused

variable {P : Type*} [DecidableEq P]

/-- The inode's socket is open in a living process, listening or not as told. -/
def State.heldBy (s : State P) (accepts : Bool) (n : Inode P) : Bool :=
  match n.binder with
  | some p => (s.pc p).ino == some n.ino && (s.pc p).accepts == accepts
  | none => false

/-- The inode belongs to a live listener. -/
def State.live (s : State P) (n : Inode P) : Bool := s.heldBy true n

/-- The inode is bound and its listener does not listen yet. -/
def State.halfOpen (s : State P) (n : Inode P) : Bool := s.heldBy false n

def State.connectAnswer (s : State P) (peerPid : ℕ) : Except IoError ℕ :=
  match s.path with
  | none => .error enoent
  | some n => if s.live n then .ok peerPid else .error econnrefused

/-- `unlink`, `stat`, `chmod` and `chown` need the path to be there. -/
def State.presentAnswer (s : State P) (absent : IoError) : Except IoError Unit :=
  match s.path with
  | none => .error absent
  | some _ => .ok ()

def State.bindAnswer (s : State P) : Except IoError Unit :=
  match s.path with
  | none => .ok ()
  | some _ => .error eaddrinuse

def answer {α : Type*} : Option Fault → Except IoError α → Except IoError α
  | some f, _ => .error f.error
  | none, r => r

def isStaleSocketConnectError (e : IoError) : Bool :=
  e.kind = .notFound ∨ e.kind = .connectionRefused

def location (path : String) (pid : ℕ) : String :=
  if pid ≠ 0 then path ++ " (pid " ++ toString pid ++ ")" else path

def Call.proceed : Call → Pc
  | .claim _ _ => .claimed
  | .bind opts => .socketBind opts

def Call.afterConnect (c : Call) : Except IoError ℕ → Pc
  | .ok pid => .failed (.alreadyRunning c.processName (location c.path pid) c.path pid)
  | .error e => if isStaleSocketConnectError e then .unlink c else .failed (.ioAt c.path e)

def Call.afterUnlink (c : Call) : Except IoError Unit → Pc
  | .ok () => c.proceed
  | .error e => if e.kind = .notFound then c.proceed else .failed (.ioAt c.path e)

/-- A step of `bind` whose error is passed on, which drops the listener. -/
def BindOptions.orFail (opts : BindOptions) (next : Pc) : Except IoError Unit → Pc
  | .ok () => next
  | .error e => .failed (.ioAt opts.path e)

def BindOptions.afterChmod (opts : BindOptions) (ino : ℕ) : Pc :=
  match opts.chown with
  | some (uid, gid) => .chown opts ino uid gid
  | none => .serving opts ino

def BindOptions.afterChown (opts : BindOptions) (ino : ℕ) : Except IoError Unit → Pc
  | .ok () => .serving opts ino
  | .error e => .failed (.ioAt opts.path ⟨.other, "chown socket: " ++ e.text⟩)

inductive Action (P : Type*)
  | start (p : P) (call : Call)
  | connect (p : P) (peerPid : ℕ) (fault : Option Fault)
  | unlink (p : P) (fault : Option Fault)
  | socketBind (p : P) (fault : Option Fault)
  | listen (p : P) (fault : Option Fault)
  | stat (p : P) (fault : Option Fault)
  | chmod (p : P) (fault : Option Fault)
  | chown (p : P) (fault : Option Fault)
  | drop (p : P)
  | crash (p : P)

def State.goto (s : State P) (p : P) (pc : Pc) : State P :=
  { s with pc := Function.update s.pc p pc }

def State.unlinked (s : State P) : Except IoError Unit → State P
  | .ok () => { s with path := none }
  | .error _ => s

/-- A new socket inode has mode `0777` less the umask, and the caller's owner. -/
def State.bound (s : State P) (cred : P → Credentials) (p : P) : Except IoError Unit → State P
  | .ok () =>
    { s with
      path := some ⟨s.nextIno, some p, 0o777 ^^^ (0o777 &&& (cred p).umask), (cred p).uid,
        (cred p).gid⟩
      nextIno := s.nextIno + 1 }
  | .error _ => s

/-- A successful `chmod` or `chown` changes the inode the path names, whosever it is. -/
def State.changed (s : State P) (f : Inode P → Inode P) : Except IoError Unit → State P
  | .ok () => { s with path := s.path.map f }
  | .error _ => s

def Inode.chmod (mode : ℕ) (n : Inode P) : Inode P := { n with mode := mode &&& 0o7777 }

def chownId (id current : ℕ) : ℕ := if id = noId then current else id

/-- The mode after a `chown`, the superuser's too: without the set-user-ID bit, and without
the set-group-ID bit if the group may execute. -/
def clearSetId (mode : ℕ) : ℕ := if mode.testBit 3 then mode &&& 0o1777 else mode &&& 0o3777

def Inode.chown (uid gid : ℕ) (n : Inode P) : Inode P :=
  { n with mode := clearSetId n.mode, uid := chownId uid n.uid, gid := chownId gid n.gid }

def step (cred : P → Credentials) (s : State P) : Action P → Option (State P)
  | .start p call => if (s.pc p).resting then some (s.goto p (.connect call)) else none
  | .connect p peerPid fault =>
    match s.pc p with
    | .connect c => some (s.goto p (c.afterConnect (answer fault (s.connectAnswer peerPid))))
    | _ => none
  | .unlink p fault =>
    match s.pc p with
    | .unlink c =>
      let r := answer fault (s.presentAnswer enoent)
      some ((s.unlinked r).goto p (c.afterUnlink r))
    | _ => none
  | .socketBind p fault =>
    match s.pc p with
    | .socketBind opts =>
      let r := answer fault s.bindAnswer
      some ((s.bound cred p r).goto p (opts.orFail (.listen opts s.nextIno) r))
    | _ => none
  | .listen p fault =>
    match s.pc p with
    | .listen opts i => some (s.goto p (opts.orFail (.stat opts i) (answer fault (.ok ()))))
    | _ => none
  | .stat p fault =>
    match s.pc p with
    | .stat opts i =>
      some (s.goto p (opts.orFail (.chmod opts i) (answer fault (s.presentAnswer enoent))))
    | _ => none
  | .chmod p fault =>
    match s.pc p with
    | .chmod opts i =>
      let r := answer fault (s.presentAnswer enoent)
      some ((s.changed (Inode.chmod opts.mode) r).goto p (opts.orFail (opts.afterChmod i) r))
    | _ => none
  | .chown p fault =>
    match s.pc p with
    | .chown opts i uid gid =>
      let r := answer fault (s.presentAnswer nixEnoent)
      some ((s.changed (Inode.chown uid gid) r).goto p (opts.afterChown i r))
    | _ => none
  | .drop p =>
    match s.pc p with
    | .serving _ _ => some (s.goto p .idle)
    | _ => none
  | .crash p => some (s.goto p .dead)

inductive Step (cred : P → Credentials) (s : State P) : Action P → State P → Prop
  | start (p : P) (call : Call) (h : (s.pc p).resting) :
      Step cred s (.start p call) (s.goto p (.connect call))
  | connect (p : P) (peerPid : ℕ) (fault : Option Fault) (c : Call) (h : s.pc p = .connect c) :
      Step cred s (.connect p peerPid fault)
        (s.goto p (c.afterConnect (answer fault (s.connectAnswer peerPid))))
  | unlink (p : P) (fault : Option Fault) (c : Call) (h : s.pc p = .unlink c) :
      Step cred s (.unlink p fault)
        ((s.unlinked (answer fault (s.presentAnswer enoent))).goto p
          (c.afterUnlink (answer fault (s.presentAnswer enoent))))
  | socketBind (p : P) (fault : Option Fault) (opts : BindOptions) (h : s.pc p = .socketBind opts) :
      Step cred s (.socketBind p fault)
        ((s.bound cred p (answer fault s.bindAnswer)).goto p
          (opts.orFail (.listen opts s.nextIno) (answer fault s.bindAnswer)))
  | listen (p : P) (fault : Option Fault) (opts : BindOptions) (i : ℕ)
      (h : s.pc p = .listen opts i) :
      Step cred s (.listen p fault) (s.goto p (opts.orFail (.stat opts i) (answer fault (.ok ()))))
  | stat (p : P) (fault : Option Fault) (opts : BindOptions) (i : ℕ) (h : s.pc p = .stat opts i) :
      Step cred s (.stat p fault)
        (s.goto p (opts.orFail (.chmod opts i) (answer fault (s.presentAnswer enoent))))
  | chmod (p : P) (fault : Option Fault) (opts : BindOptions) (i : ℕ) (h : s.pc p = .chmod opts i) :
      Step cred s (.chmod p fault)
        ((s.changed (Inode.chmod opts.mode) (answer fault (s.presentAnswer enoent))).goto p
          (opts.orFail (opts.afterChmod i) (answer fault (s.presentAnswer enoent))))
  | chown (p : P) (fault : Option Fault) (opts : BindOptions) (i uid gid : ℕ)
      (h : s.pc p = .chown opts i uid gid) :
      Step cred s (.chown p fault)
        ((s.changed (Inode.chown uid gid) (answer fault (s.presentAnswer nixEnoent))).goto p
          (opts.afterChown i (answer fault (s.presentAnswer nixEnoent))))
  | drop (p : P) (opts : BindOptions) (i : ℕ) (h : s.pc p = .serving opts i) :
      Step cred s (.drop p) (s.goto p .idle)
  | crash (p : P) : Step cred s (.crash p) (s.goto p .dead)

theorem Step.of_step {cred : P → Credentials} {s t : State P} {a : Action P}
    (h : step cred s a = some t) : Step cred s a t := by
  cases a with
  | start p call =>
    simp only [step, Option.ite_none_right_eq_some, Option.some.injEq] at h
    obtain ⟨hrest, rfl⟩ := h
    exact .start p call hrest
  | crash p =>
    obtain rfl := Option.some.inj h
    exact .crash p
  | connect | unlink | socketBind | listen | stat | chmod | chown | drop =>
    simp only [step] at h
    split at h
    · rename_i hpc
      obtain rfl := Option.some.inj h
      constructor
      exact hpc
    · cases h

/-- The path as the first call finds it: absent, a leftover, or a running daemon's. -/
inductive Initial : State P → Prop
  | absent : Initial ⟨none, 0, fun _ => .idle⟩
  | stale (mode uid gid : ℕ) : Initial ⟨some ⟨0, none, mode, uid, gid⟩, 1, fun _ => .idle⟩
  | live (p : P) (opts : BindOptions) (mode uid gid : ℕ) :
      Initial ⟨some ⟨0, some p, mode, uid, gid⟩, 1,
        Function.update (fun _ => .idle) p (.serving opts 0)⟩

def host (cred : P → Credentials) : TransitionSystem (State P) (Action P) where
  init := Initial
  step := step cred

@[simp] theorem goto_path (s : State P) (p : P) (pc : Pc) : (s.goto p pc).path = s.path := rfl

@[simp] theorem goto_pc_self (s : State P) (p : P) (pc : Pc) : (s.goto p pc).pc p = pc := by
  simp [State.goto]

theorem goto_pc_of_ne (s : State P) {p q : P} (pc : Pc) (h : q ≠ p) :
    (s.goto p pc).pc q = s.pc q := by
  simp [State.goto, h]

end SocketBind
end SharedDaemon
