import SharedDaemon.Frame
import SharedDaemon.StdPath

/-!
# Commands, the router and a framed connection

Commands and hooks are code of the daemon's own. Each is a script: what it writes to and
reads from its connection, depending on what came of it. `Connection::stream` gives a
command the raw socket; here it can only change how the reads and writes to come turn out.
-/

namespace SharedDaemon
namespace Session

open StdIo StdPath SharedDaemon.Frame

inductive Value
  | null
  | bool (b : Bool)
  | number (text : String)
  | string (s : String)
  | array (items : List Value)
  | object (fields : List (String × Value))

def Value.get (key : String) : Value → Option Value
  | .object fields => fields.lookup key
  | _ => none

def Value.asStr : Value → Option String
  | .string s => some s
  | _ => none

/-- Read the `"type"` field from a request object. -/
def jsonTypeField (body : Value) : Option String := (body.get "type").bind Value.asStr

inductive IpcError
  | frame (e : FrameError)
  | other (text : String)
  | hangup
  deriving DecidableEq, Repr

inductive RejectReason
  | auth
  | busy
  deriving DecidableEq, Repr

/-- A message given to `Connection::reply`, as `serde_json::to_vec` serialises it. -/
abbrev Message := Except String (List UInt8)

/-- The code of a command or a hook. It changes the daemon's state `S`, which stands for
all it depends on besides the request, by the time it is done; a typed read hands on the
payload if `decode` takes it. -/
inductive Script (S R : Type)
  | done (state : S) (result : R)
  | reply (msg : Message) (next : Except FrameError Unit → Script S R)
  | readJson (decode : List UInt8 → Except String Unit)
      (next : Except FrameError (List UInt8) → Script S R)

structure Command (S : Type) where
  name : String
  execute : S → Value → Script S (Except IpcError Unit)

structure Router (S : Type) where
  commands : List (String × Command S)
  nodup : (commands.map Prod.fst).Nodup

structure DuplicateCommand where
  name : String
  deriving DecidableEq

variable {S R : Type}

def Router.new : Router S := ⟨[], List.nodup_nil⟩

def Router.add (r : Router S) (cmd : Command S) : Except DuplicateCommand (Router S) :=
  if h : cmd.name ∈ r.commands.map Prod.fst then .error ⟨cmd.name⟩
  else .ok ⟨(cmd.name, cmd) :: r.commands, List.nodup_cons.mpr ⟨h, r.nodup⟩⟩

def Router.get (r : Router S) (name : String) : Option (Command S) := r.commands.lookup name

def Router.addEach (r : Router S) : List (Command S) → Router S
  | [] => r
  | cmd :: cmds =>
    match r.add cmd with
    | .ok r => r.addEach cmds
    | .error _ => r.addEach cmds

/-- A name leads to the first command registered under it. -/
theorem get_addEach (r : Router S) (cmds : List (Command S)) (name : String) :
    (r.addEach cmds).get name = (r.get name).or (cmds.find? fun cmd => cmd.name = name) := by
  induction cmds generalizing r with
  | nil => simp [Router.addEach]
  | cons cmd cmds ih =>
    unfold Router.addEach Router.add
    by_cases h : cmd.name ∈ r.commands.map Prod.fst
    · rw [dif_pos h]
      simp only [ih]
      by_cases hname : cmd.name = name
      · subst hname
        have hfound : (r.commands.lookup cmd.name).isSome := by simpa using h
        obtain ⟨found, hfound⟩ := Option.isSome_iff_exists.mp hfound
        simp [Router.get, hfound]
      · simp [hname]
    · rw [dif_neg h]
      simp only [ih]
      by_cases hname : cmd.name = name
      · subst hname
        have hnone : r.commands.lookup cmd.name = none := by
          rw [← Option.not_isSome_iff_eq_none]
          simpa using h
        simp [Router.get, hnone]
      · have hne : (name == cmd.name) = false := by simpa using Ne.symm hname
        simp [Router.get, List.lookup_cons, hne, hname]

theorem get_new (cmds : List (Command S)) (name : String) :
    ((Router.new (S := S)).addEach cmds).get name = cmds.find? fun cmd => cmd.name = name := by
  rw [get_addEach]
  simp [Router.new, Router.get]

/-- Framed Unix connection for one client: the peer's uid, if known, both directions of
the socket and the frame cap. -/
structure Connection where
  peerUid : Option ℕ
  input : Reader
  output : Writer
  maxFrame : ℕ
  deriving DecidableEq

def Connection.reply (c : Connection) (msg : Message) : Except FrameError Unit × Connection :=
  let x := writeFrameWithLimit id msg c.maxFrame c.output
  (x.1, { c with output := x.2 })

def Connection.readJson {T : Type} (fromSlice : List UInt8 → Except String T) (c : Connection) :
    Except FrameError T × Connection :=
  let x := readFrameWithLimit fromSlice c.maxFrame c.input
  (x.1, { c with input := x.2 })

@[simp] theorem reply_input (c : Connection) (msg : Message) :
    (c.reply msg).2.input = c.input := rfl

@[simp] theorem reply_maxFrame (c : Connection) (msg : Message) :
    (c.reply msg).2.maxFrame = c.maxFrame := rfl

section
variable {T : Type} (c : Connection) (fromSlice : List UInt8 → Except String T)

@[simp] theorem readJson_output : (c.readJson fromSlice).2.output = c.output := rfl

@[simp] theorem readJson_maxFrame : (c.readJson fromSlice).2.maxFrame = c.maxFrame := rfl

@[simp] theorem readJson_input :
    (c.readJson fromSlice).2.input = (readFrameBytes c.maxFrame c.input).2 := by
  unfold Connection.readJson readFrameWithLimit
  rcases readFrameBytes c.maxFrame c.input with ⟨e | payload, r⟩
  · rfl
  · cases h : fromSlice payload <;> simp [h]

@[simp] theorem readJson_result :
    (c.readJson fromSlice).1 = (readFrameBytes c.maxFrame c.input).1.bind fun payload =>
      (fromSlice payload).mapError FrameError.json := by
  unfold Connection.readJson readFrameWithLimit
  rcases readFrameBytes c.maxFrame c.input with ⟨e | payload, r⟩
  · rfl
  · cases h : fromSlice payload <;> simp [h, Except.bind, Except.mapError]

end

theorem readJson_eq_ok {T : Type} {fromSlice : List UInt8 → Except String T} {c c₁ : Connection}
    {v : T} (h : c.readJson fromSlice = (.ok v, c₁)) :
    ∃ payload, readFrameBytes c.maxFrame c.input = (.ok payload, c₁.input) ∧
      fromSlice payload = .ok v := by
  have hresult := readJson_result c fromSlice
  have hinput := readJson_input c fromSlice
  rw [h] at hresult hinput
  rcases hread : readFrameBytes c.maxFrame c.input with ⟨e | payload, r⟩
  · rw [hread] at hresult
    cases hresult
  · rw [hread] at hresult hinput
    cases hfrom : fromSlice payload with
    | error text => simp [Except.bind, hfrom, Except.mapError] at hresult
    | ok v' =>
      have hv : v = v' := by simpa [Except.bind, hfrom, Except.mapError] using hresult
      exact ⟨payload, by rw [hinput], by rw [hfrom, hv]⟩

theorem readJson_eq_error {T : Type} {fromSlice : List UInt8 → Except String T} {c c₁ : Connection}
    {e : FrameError} (h : c.readJson fromSlice = (.error e, c₁)) :
    readFrameBytes c.maxFrame c.input = (.error e, c₁.input) ∨
      ∃ payload text, readFrameBytes c.maxFrame c.input = (.ok payload, c₁.input) ∧
        fromSlice payload = .error text ∧ e = .json text := by
  have hresult := readJson_result c fromSlice
  have hinput := readJson_input c fromSlice
  rw [h] at hresult hinput
  rcases hread : readFrameBytes c.maxFrame c.input with ⟨e' | payload, r⟩
  · rw [hread] at hresult hinput
    obtain rfl := Except.error.inj hresult
    exact .inl (by rw [hinput])
  · rw [hread] at hresult hinput
    cases hfrom : fromSlice payload with
    | ok v => simp [Except.bind, hfrom, Except.mapError] at hresult
    | error text =>
      have he : e = .json text := by simpa [Except.bind, hfrom, Except.mapError] using hresult
      exact .inr ⟨payload, text, by rw [hinput], hfrom, he⟩

theorem of_readJson {T : Type} {fromSlice : List UInt8 → Except String T} {c c₁ : Connection}
    {result : Except FrameError T} (h : c.readJson fromSlice = (result, c₁)) :
    c₁.maxFrame = c.maxFrame ∧ c₁.output = c.output := by
  obtain ⟨-, rfl⟩ := Prod.mk.inj h
  exact ⟨rfl, rfl⟩

/-- One call of `Connection::reply`: the socket before and after, and the answer. -/
structure Reply where
  msg : Message
  before : Writer
  after : Writer
  result : Except FrameError Unit
  deriving DecidableEq

/-- What happens in a session. `request` is the read of `dispatch_one` and `read` one of a
command or hook, both with the stream they start on; the others are the calls of commands
and hooks, a command's with what it returned. -/
inductive Event (S : Type)
  | request (before : Reader)
  | read (before : Reader)
  | reply (r : Reply)
  | execute (cmd : Command S) (body : Value)
  | returned (result : Except IpcError Unit)
  | unknown (name : String) (body : Value)
  | error (e : IpcError)
  | reject (reason : RejectReason)

/-- A part of a session: what came of it, and what happened. -/
structure Ran (S R : Type) where
  result : R
  state : S
  conn : Connection
  log : List (Event S)

def Ran.andThen {Q : Type} (x : Ran S R) (f : R → S → Connection → Ran S Q) : Ran S Q :=
  let y := f x.result x.state x.conn
  { y with log := x.log ++ y.log }

def Ran.after (ev : Event S) (x : Ran S R) : Ran S R := { x with log := ev :: x.log }

def Script.run : Script S R → Connection → Ran S R
  | .done state result, c => ⟨result, state, c, []⟩
  | .reply msg next, c =>
    let x := c.reply msg
    ((next x.1).run x.2).after (.reply ⟨msg, c.output, x.2.output, x.1⟩)
  | .readJson decode next, c =>
    let x := c.readJson fun payload => (decode payload).map fun _ => payload
    ((next x.1).run x.2).after (.read c.input)

def Event.isIo : Event S → Bool
  | .request _ | .read _ | .reply _ => true
  | _ => false

theorem isIo_of_mem_run {sc : Script S R} {c : Connection} {ev : Event S}
    (h : ev ∈ (sc.run c).log) : ev.isIo := by
  induction sc generalizing c with
  | done state result => cases h
  | reply msg next ih | readJson decode next ih =>
    rcases List.mem_cons.mp h with rfl | hrest
    · rfl
    · exact ih _ hrest

@[simp] theorem run_maxFrame (sc : Script S R) (c : Connection) :
    (sc.run c).conn.maxFrame = c.maxFrame := by
  induction sc generalizing c with
  | done state result => rfl
  | reply msg next ih => exact ih _ _
  | readJson decode next ih => exact (ih _ _).trans (readJson_maxFrame c _)

def Script.WriteOnly : Script S R → Prop
  | .done _ _ => True
  | .reply _ next => ∀ r, (next r).WriteOnly
  | .readJson _ _ => False

theorem Script.WriteOnly.run_input {sc : Script S R} (h : sc.WriteOnly) (c : Connection) :
    (sc.run c).conn.input = c.input := by
  induction sc generalizing c with
  | done state result => rfl
  | reply msg next ih => exact ih _ (h _) _
  | readJson decode next ih => exact h.elim

/-- A JSON request with no fields but its type. -/
def requestBytes (name : String) : List UInt8 :=
  ofString "\x7b\"type\":\"" ++ ofString name ++ ofString "\"\x7d"

/-- `serde_json::from_slice` on such requests, and on bytes that are no JSON at all. -/
def parseRequest (names : List String) (payload : List UInt8) : Except String Value :=
  match names.find? fun name => requestBytes name = payload with
  | some name => .ok (.object [("type", .string name)])
  | none => .error "expected value at line 1 column 1"

def parseNumber (payload : List UInt8) : Except String ℕ :=
  if payload ≠ [] ∧ payload.all (fun b => 0x30 ≤ b ∧ b ≤ 0x39) ∧ payload.take 2 ≠ [0x30] then
    .ok (payload.foldl (fun n b => 10 * n + (b - 0x30).toNat) 0)
  else .error "expected value at line 1 column 1"

theorem requestBytes_injective {name other : String} (h : requestBytes name = requestBytes other) :
    name = other := by
  have hname : ofString name = ofString other :=
    List.append_cancel_left (List.append_cancel_right h)
  exact Option.some.inj ((toStr_ofString name).symm.trans (hname ▸ toStr_ofString other))

theorem parseRequest_requestBytes {names : List String} {name : String} (h : name ∈ names) :
    parseRequest names (requestBytes name) = .ok (.object [("type", .string name)]) := by
  have hfind : names.find? (fun other => requestBytes other = requestBytes name) = some name := by
    induction names with
    | nil => cases h
    | cons other names ih =>
      rw [List.find?_cons]
      by_cases hother : other = name
      · simp [hother]
      · have hne : requestBytes other ≠ requestBytes name :=
          fun he => hother (requestBytes_injective he)
        simp only [hne, decide_false]
        exact ih ((List.mem_cons.mp h).resolve_left (Ne.symm hother))
  rw [parseRequest, hfind]

end Session
end SharedDaemon
