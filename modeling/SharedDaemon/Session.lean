import SharedDaemon.Auth
import SharedDaemon.Command

/-!
# One session

`handle_conn` and `dispatch_one`: authentication, then one request or a loop of requests.
The loop is total, since a dispatched request consumes a frame header at least.
-/

namespace SharedDaemon
namespace Session

open StdIo SharedDaemon.Frame

/-- One request then close, or request loop until EOF. -/
inductive SessionMode
  | oneShot
  | persistent
  deriving DecidableEq, Repr

/-- Per-daemon encoding of unknown-type / handler / reject onto the wire. -/
structure ErrorHandler (S : Type) where
  unknown : S → String → Value → Script S Unit
  error : S → IpcError → Script S Unit
  reject : S → RejectReason → Script S Unit

/-- What `handle_conn` is given for all its connections, with `serde_json::from_slice` and
the passwd database. -/
structure Daemon (S : Type) where
  router : Router S
  hooks : ErrorHandler S
  auth : Auth
  session : SessionMode
  fromSlice : List UInt8 → Except String Value
  usernameForUid : ℕ → Option String

variable {S R : Type}

structure ErrorHandler.WriteOnly (hooks : ErrorHandler S) : Prop where
  unknown : ∀ s name body, (hooks.unknown s name body).WriteOnly
  error : ∀ s e, (hooks.error s e).WriteOnly
  reject : ∀ s reason, (hooks.reject s reason).WriteOnly

def ErrorHandler.callUnknown (hooks : ErrorHandler S) (s : S) (name : String) (body : Value)
    (c : Connection) : Ran S Unit :=
  ((hooks.unknown s name body).run c).after (.unknown name body)

def ErrorHandler.callError (hooks : ErrorHandler S) (s : S) (e : IpcError) (c : Connection) :
    Ran S Unit :=
  ((hooks.error s e).run c).after (.error e)

def ErrorHandler.callReject (hooks : ErrorHandler S) (s : S) (reason : RejectReason)
    (c : Connection) : Ran S Unit :=
  ((hooks.reject s reason).run c).after (.reject reason)

/-- The end of `dispatch_one`: what a command returned. -/
def Daemon.afterExecute (d : Daemon S) (result : Except IpcError Unit) (s : S) (c : Connection) :
    Ran S (Except FrameError Unit) :=
  Ran.after (.returned result) <|
    match result with
    | .ok () => ⟨.ok (), s, c, []⟩
    | .error .hangup => ⟨.error (.unexpectedEof 0 0), s, c, []⟩
    | .error other => (d.hooks.callError s other c).andThen fun _ s c => ⟨.ok (), s, c, []⟩

/-- The command a body asks for, or the name under which there is none. -/
def target (lookup : String → Option (Command S)) (body : Value) : String ⊕ Command S :=
  match jsonTypeField body with
  | none => .inl ""
  | some name =>
    match lookup name with
    | none => .inl name
    | some cmd => .inr cmd

def Daemon.dispatchBody (d : Daemon S) (body : Value) (s : S) (c : Connection) :
    Ran S (Except FrameError Unit) :=
  match target d.router.get body with
  | .inl name => (d.hooks.callUnknown s name body c).andThen fun _ s c => ⟨.ok (), s, c, []⟩
  | .inr cmd => (((cmd.execute s body).run c).after (.execute cmd body)).andThen d.afterExecute

def Daemon.dispatchOne (d : Daemon S) (s : S) (c : Connection) : Ran S (Except FrameError Unit) :=
  Ran.after (.request c.input) <|
    match c.readJson d.fromSlice with
    | (.error e, c) => ⟨.error e, s, c, []⟩
    | (.ok body, c) => d.dispatchBody body s c

theorem command_of_target {lookup : String → Option (Command S)} {body : Value} {cmd : Command S}
    (h : target lookup body = .inr cmd) : ∃ name, lookup name = some cmd := by
  unfold target at h
  split at h
  · cases h
  split at h
  · cases h
  · rename_i name _ _ cmd' hcmd
    obtain rfl := Sum.inr.inj h
    exact ⟨name, hcmd⟩

/-- The errors of a read at which a persistent session ends without calling the hook. -/
def endsQuietly : FrameError → Bool
  | .unexpectedEof _ _ => true
  | .io e => e.kind = .unexpectedEof ∨ e.kind = .connectionReset
  | _ => false

theorem bytes_of_readJson {T : Type} (fromSlice : List UInt8 → Except String T) (c : Connection) :
    (bytes (c.readJson fromSlice).2.input).length ≤ (bytes c.input).length ∧
      ∀ v, (c.readJson fromSlice).1 = .ok v →
        (bytes (c.readJson fromSlice).2.input).length < (bytes c.input).length := by
  simp only [readJson_input, readJson_result]
  rcases hr : readFrameBytes c.maxFrame c.input with ⟨e | payload, r⟩
  · obtain ⟨got, hgot, -⟩ := bytes_of_readFrameBytes_error hr
    refine ⟨?_, by simp [Except.bind]⟩
    rw [hgot, List.length_append]
    exact Nat.le_add_left _ _
  · obtain ⟨hbytes, -⟩ := bytes_of_readFrameBytes hr
    have hlt : (bytes r).length < (bytes c.input).length := by
      rw [hbytes, List.length_append, LengthPrefix.frame_length, headerLen]
      omega
    exact ⟨hlt.le, fun _ _ => hlt⟩

theorem bytes_of_run (sc : Script S R) (c : Connection) :
    (bytes (sc.run c).conn.input).length ≤ (bytes c.input).length := by
  induction sc generalizing c with
  | done state result => exact Nat.le_refl _
  | reply msg next ih => exact ih _ _
  | readJson decode next ih => exact (ih _ _).trans (bytes_of_readJson _ c).1

theorem bytes_of_dispatchBody (d : Daemon S) (body : Value) (s : S) (c : Connection) :
    (bytes (d.dispatchBody body s c).conn.input).length ≤ (bytes c.input).length := by
  unfold Daemon.dispatchBody
  split
  · exact bytes_of_run _ c
  rename_i cmd _
  refine Nat.le_trans ?_ (bytes_of_run (cmd.execute s body) c)
  simp only [Ran.andThen, Ran.after, Daemon.afterExecute]
  split
  · exact Nat.le_refl _
  · exact Nat.le_refl _
  · exact bytes_of_run _ _

theorem bytes_of_dispatchOne {d : Daemon S} {s : S} {c : Connection}
    (h : (d.dispatchOne s c).result = .ok ()) :
    (bytes (d.dispatchOne s c).conn.input).length < (bytes c.input).length := by
  have hread := (bytes_of_readJson d.fromSlice c).2
  unfold Daemon.dispatchOne at h ⊢
  rcases hc : c.readJson d.fromSlice with ⟨e | body, c₁⟩
  · rw [hc] at h
    cases h
  · rw [hc] at hread
    exact (bytes_of_dispatchBody d body s c₁).trans_lt (hread body rfl)

def Daemon.persistentLoop (d : Daemon S) (s : S) (c : Connection) : Ran S Unit :=
  let x := d.dispatchOne s c
  match _h : x.result with
  | .ok () =>
    let y := d.persistentLoop x.state x.conn
    { y with log := x.log ++ y.log }
  | .error e =>
    if endsQuietly e then ⟨(), x.state, x.conn, x.log⟩
    else x.andThen fun _ s c => d.hooks.callError s (.frame e) c
termination_by (bytes c.input).length
decreasing_by exact bytes_of_dispatchOne _h

def Daemon.handleConn (d : Daemon S) (s : S) (c : Connection) : Ran S Unit :=
  if d.auth.allows c.peerUid d.usernameForUid then
    match d.session with
    | .oneShot =>
      (d.dispatchOne s c).andThen fun
        | .ok (), s, c => ⟨(), s, c, []⟩
        | .error e, s, c => d.hooks.callError s (.frame e) c
    | .persistent => d.persistentLoop s c
  else d.hooks.callReject s .auth c

inductive Dispatched (d : Daemon S) (s : S) (c : Connection) :
    Ran S (Except FrameError Unit) → Prop
  | failed (c₁ : Connection) (e : FrameError) (h : c.readJson d.fromSlice = (.error e, c₁)) :
      Dispatched d s c ⟨.error e, s, c₁, [.request c.input]⟩
  | unknown (c₁ : Connection) (body : Value) (h : c.readJson d.fromSlice = (.ok body, c₁))
      (name : String) (htarget : target d.router.get body = .inl name) (y : Ran S Unit)
      (hy : (d.hooks.unknown s name body).run c₁ = y) :
      Dispatched d s c
        ⟨.ok (), y.state, y.conn, .request c.input :: .unknown name body :: y.log⟩
  | done (c₁ : Connection) (body : Value) (h : c.readJson d.fromSlice = (.ok body, c₁))
      (cmd : Command S) (htarget : target d.router.get body = .inr cmd)
      (y : Ran S (Except IpcError Unit)) (hy : (cmd.execute s body).run c₁ = y)
      (hresult : y.result = .ok ()) :
      Dispatched d s c
        ⟨.ok (), y.state, y.conn,
          .request c.input :: .execute cmd body :: (y.log ++ [.returned (.ok ())])⟩
  | hungUp (c₁ : Connection) (body : Value) (h : c.readJson d.fromSlice = (.ok body, c₁))
      (cmd : Command S) (htarget : target d.router.get body = .inr cmd)
      (y : Ran S (Except IpcError Unit)) (hy : (cmd.execute s body).run c₁ = y)
      (hresult : y.result = .error .hangup) :
      Dispatched d s c
        ⟨.error (.unexpectedEof 0 0), y.state, y.conn,
          .request c.input :: .execute cmd body :: (y.log ++ [.returned (.error .hangup)])⟩
  | erred (c₁ : Connection) (body : Value) (h : c.readJson d.fromSlice = (.ok body, c₁))
      (cmd : Command S) (htarget : target d.router.get body = .inr cmd)
      (y : Ran S (Except IpcError Unit)) (hy : (cmd.execute s body).run c₁ = y)
      (e : IpcError) (hresult : y.result = .error e) (he : e ≠ .hangup) (z : Ran S Unit)
      (hz : (d.hooks.error y.state e).run y.conn = z) :
      Dispatched d s c
        ⟨.ok (), z.state, z.conn,
          .request c.input :: .execute cmd body ::
            (y.log ++ .returned (.error e) :: .error e :: z.log)⟩

theorem Dispatched.of_dispatchOne (d : Daemon S) (s : S) (c : Connection) :
    Dispatched d s c (d.dispatchOne s c) := by
  unfold Daemon.dispatchOne
  rcases hread : c.readJson d.fromSlice with ⟨e | body, c₁⟩
  · exact .failed c₁ e hread
  simp only [Daemon.dispatchBody]
  split
  · rename_i name htarget
    have h := Dispatched.unknown (s := s) c₁ body hread name htarget _ rfl
    simpa only [ErrorHandler.callUnknown, Ran.andThen, Ran.after, List.append_nil] using h
  · rename_i cmd htarget
    simp only [Ran.andThen, Ran.after, Daemon.afterExecute]
    split
    · rename_i hresult
      rw [hresult]
      exact .done c₁ body hread cmd htarget _ rfl hresult
    · rename_i hresult
      rw [hresult]
      exact .hungUp c₁ body hread cmd htarget _ rfl hresult
    · rename_i e he hresult
      rw [hresult]
      have h := Dispatched.erred c₁ body hread cmd htarget _ rfl e hresult he _ rfl
      simpa only [ErrorHandler.callError, Ran.andThen, Ran.after, List.append_nil,
        List.cons_append] using h

theorem Dispatched.conn_maxFrame {d : Daemon S} {s : S} {c : Connection}
    {x : Ran S (Except FrameError Unit)} (hx : Dispatched d s c x) :
    x.conn.maxFrame = c.maxFrame := by
  cases hx with
  | failed c₁ e h => exact (of_readJson h).1
  | unknown c₁ body h name htarget y hy | done c₁ body h cmd htarget y hy
  | hungUp c₁ body h cmd htarget y hy =>
    subst hy
    exact (run_maxFrame _ c₁).trans (of_readJson h).1
  | erred c₁ body h cmd htarget y hy e hresult he z hz =>
    subst hy hz
    exact (run_maxFrame _ _).trans ((run_maxFrame _ c₁).trans (of_readJson h).1)

theorem Dispatched.request_mem {d : Daemon S} {s : S} {c : Connection}
    {x : Ran S (Except FrameError Unit)} (hx : Dispatched d s c x) : .request c.input ∈ x.log := by
  cases hx <;> exact List.mem_cons_self

/-- A fact about sessions from what each dispatch adds to it. -/
theorem persistentLoop_rule {d : Daemon S} {I : S → Connection → Ran S Unit → Prop}
    (hmore : ∀ s c x y, Dispatched d s c x → x.result = .ok () → I x.state x.conn y →
      I s c { y with log := x.log ++ y.log })
    (hquiet : ∀ s c x e, Dispatched d s c x → x.result = .error e → endsQuietly e →
      I s c ⟨(), x.state, x.conn, x.log⟩)
    (hloud : ∀ s c x e, Dispatched d s c x → x.result = .error e → endsQuietly e = false →
      I s c (x.andThen fun _ s c => d.hooks.callError s (.frame e) c))
    (s : S) (c : Connection) : I s c (d.persistentLoop s c) := by
  fun_induction Daemon.persistentLoop d s c with
  | case1 s c x hx y ih => exact hmore s c x y (.of_dispatchOne d s c) hx ih
  | case2 s c x e hx hquietly => exact hquiet s c x e (.of_dispatchOne d s c) hx hquietly
  | case3 s c x e hx hquietly =>
    exact hloud s c x e (.of_dispatchOne d s c) hx (by simpa using hquietly)

end Session
end SharedDaemon
