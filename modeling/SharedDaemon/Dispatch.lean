import SharedDaemon.Session

/-!
# A session executes what the peer framed

The calls of a session are those of a reference that takes the bytes of the stream frame by
frame and runs the command each one asks for. Chunking, the loop and its errors are gone
from it.
-/

namespace SharedDaemon
namespace Session

open StdIo StdPath SharedDaemon.Frame LengthPrefix

variable {S R : Type}

@[simp] def Event.isCall : Event S → Bool
  | .execute _ _ | .unknown _ _ | .error _ | .reject _ => true
  | _ => false

def calls (log : List (Event S)) : List (Event S) := log.filter Event.isCall

@[simp] theorem calls_nil : calls ([] : List (Event S)) = [] := rfl

@[simp] theorem calls_cons (ev : Event S) (log : List (Event S)) :
    calls (ev :: log) = (if ev.isCall then [ev] else []) ++ calls log := by
  cases ev <;> rfl

@[simp] theorem calls_append (l₁ l₂ : List (Event S)) :
    calls (l₁ ++ l₂) = calls l₁ ++ calls l₂ := by
  simp [calls]

@[simp] theorem calls_run (sc : Script S R) (c : Connection) : calls (sc.run c).log = [] := by
  rw [calls, List.filter_eq_nil_iff]
  intro ev hev
  have hio := isIo_of_mem_run hev
  cases ev <;> simp [Event.isIo] at hio ⊢

/-- What the reference is given besides the bytes: how commands are found, the hooks, the
decoder, the frame cap, and how the stretch of bytes ends. -/
structure Reference (S : Type) where
  lookup : String → Option (Command S)
  hooks : ErrorHandler S
  fromSlice : List UInt8 → Except String Value
  maxFrame : ℕ
  fin : Ending

/-- A connection with this behind it on the sending side, and nothing to read. -/
def socket (maxFrame : ℕ) (output : Writer) : Connection := ⟨none, [], output, maxFrame⟩

/-- The calls for a stretch of bytes, with the daemon in state `s` and `output` sent so far.
Where other sessions change the state in between, `others` are the states in which the coming
requests find the daemon; past its end each finds what the one before has left. -/
def Reference.expectedCalls (ref : Reference S) (bs : List UInt8) (s : S) (output : Writer)
    (others : List S) : List (Event S) :=
  match _h : parse headerLen ref.maxFrame bs with
  | .frame payload rest =>
    match ref.fromSlice payload with
    | .error text => [.error (.frame (.json text))]
    | .ok body =>
      match target ref.lookup body with
      | .inl name =>
        let x := (ref.hooks.unknown (others.headD s) name body).run (socket ref.maxFrame output)
        .unknown name body :: ref.expectedCalls rest x.state x.conn.output others.tail
      | .inr cmd =>
        let x := (cmd.execute (others.headD s) body).run (socket ref.maxFrame output)
        .execute cmd body ::
          match x.result with
          | .ok () => ref.expectedCalls rest x.state x.conn.output others.tail
          | .error .hangup => []
          | .error e =>
            let y := (ref.hooks.error x.state e).run (socket ref.maxFrame x.conn.output)
            .error e :: ref.expectedCalls rest y.state y.conn.output others.tail
  | broken =>
    match parseResult ref.maxFrame ref.fin broken with
    | .error e => if endsQuietly e then [] else [.error (.frame e)]
    | .ok _ => []
termination_by bs.length
decreasing_by
  all_goals
    rw [(of_parse_eq_frame _h).1, List.length_append, frame_length, headerLen]
    omega

/-- The calls of a one-shot session: its errors are all reported, a hangup among them. -/
def Reference.expectedCall (ref : Reference S) (bs : List UInt8) (s : S) (output : Writer) :
    List (Event S) :=
  match parse headerLen ref.maxFrame bs with
  | .frame payload _ =>
    match ref.fromSlice payload with
    | .error text => [.error (.frame (.json text))]
    | .ok body =>
      match target ref.lookup body with
      | .inl name => [.unknown name body]
      | .inr cmd =>
        .execute cmd body ::
          match ((cmd.execute s body).run (socket ref.maxFrame output)).result with
          | .ok () => []
          | .error .hangup => [.error (.frame (.unexpectedEof 0 0))]
          | .error e => [.error e]
  | broken =>
    match parseResult ref.maxFrame ref.fin broken with
    | .error e => [.error (.frame e)]
    | .ok _ => []

theorem readJson_ok {T : Type} {fromSlice : List UInt8 → Except String T} {c c₁ : Connection}
    {body : T} (h : c.readJson fromSlice = (.ok body, c₁)) {q : Reader} (hq : Healthy q)
    {fin : Ending} (hc : c.input = q ++ fin.reader) :
    ∃ payload q₁, parse headerLen c.maxFrame (bytes q) = .frame payload (bytes q₁) ∧
      fromSlice payload = .ok body ∧ Healthy q₁ ∧ c₁.input = q₁ ++ fin.reader := by
  obtain ⟨payload, hread, hfrom⟩ := readJson_eq_ok h
  obtain ⟨r, hr, hleaves⟩ := readFrameBytes_eq_parse c.maxFrame q hq fin
  rw [← hc, hread] at hr
  obtain ⟨hresult, rfl⟩ := Prod.mk.inj hr
  cases hp : parse headerLen c.maxFrame (bytes q) with
  | frame payload' rest =>
    rw [hp] at hresult hleaves
    obtain rfl := Except.ok.inj hresult
    obtain ⟨q₁, hq₁, rfl, hinput⟩ := hleaves
    exact ⟨payload, q₁, rfl, hfrom, hq₁, hinput⟩
  | tooLarge | shortHeader | shortPayload =>
    rw [hp] at hresult
    cases hresult

theorem readJson_error {T : Type} {fromSlice : List UInt8 → Except String T} {c c₁ : Connection}
    {e : FrameError} (h : c.readJson fromSlice = (.error e, c₁)) {q : Reader} (hq : Healthy q)
    {fin : Ending} (hc : c.input = q ++ fin.reader) :
    (∃ payload rest text, parse headerLen c.maxFrame (bytes q) = .frame payload rest ∧
        fromSlice payload = .error text ∧ e = .json text) ∨
      (∀ payload rest, parse headerLen c.maxFrame (bytes q) ≠ .frame payload rest) ∧
        parseResult c.maxFrame fin (parse headerLen c.maxFrame (bytes q)) = .error e := by
  obtain ⟨r, hr, -⟩ := readFrameBytes_eq_parse c.maxFrame q hq fin
  rw [← hc] at hr
  rcases readJson_eq_error h with hread | ⟨payload, text, hread, hfrom, rfl⟩
  · rw [hread] at hr
    have hresult := (Prod.mk.inj hr).1.symm
    refine .inr ⟨fun payload rest hp => ?_, hresult⟩
    rw [hp] at hresult
    cases hresult
  · rw [hread] at hr
    have hresult := (Prod.mk.inj hr).1
    cases hp : parse headerLen c.maxFrame (bytes q) with
    | frame payload' rest =>
      rw [hp] at hresult
      obtain rfl := Except.ok.inj hresult
      exact .inl ⟨payload, rest, text, rfl, hfrom, rfl⟩
    | tooLarge | shortHeader | shortPayload =>
      rw [hp] at hresult
      cases hresult

section
variable {r : Reference S} {bs payload rest : List UInt8} {s : S} {output : Writer}
  {others : List S}

theorem expectedCalls_undecoded {text : String}
    (hp : parse headerLen r.maxFrame bs = .frame payload rest)
    (hfrom : r.fromSlice payload = .error text) :
    r.expectedCalls bs s output others = [.error (.frame (.json text))] := by
  rw [Reference.expectedCalls]
  split
  · rename_i payload' rest' hp'
    obtain ⟨rfl, rfl⟩ := Parse.frame.inj (hp.symm.trans hp')
    simp only [hfrom]
  · rename_i hne
    exact absurd hp (hne _ _)

theorem expectedCalls_body {body : Value}
    (hp : parse headerLen r.maxFrame bs = .frame payload rest)
    (hfrom : r.fromSlice payload = .ok body) :
    r.expectedCalls bs s output others =
      match target r.lookup body with
      | .inl name =>
        let x := (r.hooks.unknown (others.headD s) name body).run (socket r.maxFrame output)
        .unknown name body :: r.expectedCalls rest x.state x.conn.output others.tail
      | .inr cmd =>
        let x := (cmd.execute (others.headD s) body).run (socket r.maxFrame output)
        .execute cmd body ::
          match x.result with
          | .ok () => r.expectedCalls rest x.state x.conn.output others.tail
          | .error .hangup => []
          | .error e =>
            let y := (r.hooks.error x.state e).run (socket r.maxFrame x.conn.output)
            .error e :: r.expectedCalls rest y.state y.conn.output others.tail := by
  rw [Reference.expectedCalls]
  split
  · rename_i payload' rest' hp'
    obtain ⟨rfl, rfl⟩ := Parse.frame.inj (hp.symm.trans hp')
    simp only [hfrom]
  · rename_i hne
    exact absurd hp (hne _ _)

theorem expectedCalls_broken {e : FrameError}
    (hp : ∀ payload rest, parse headerLen r.maxFrame bs ≠ .frame payload rest)
    (he : parseResult r.maxFrame r.fin (parse headerLen r.maxFrame bs) = .error e) :
    r.expectedCalls bs s output others = if endsQuietly e then [] else [.error (.frame e)] := by
  rw [Reference.expectedCalls]
  split
  · rename_i hp'
    exact absurd hp' (hp _ _)
  · simp only [he]

end

structure Daemon.WriteOnly (d : Daemon S) : Prop where
  commands : ∀ name cmd, d.router.get name = some cmd → ∀ s body, (cmd.execute s body).WriteOnly
  hooks : d.hooks.WriteOnly

/-- A script that does not read comes to the same on any connection with this output. -/
theorem Script.WriteOnly.run_socket {sc : Script S R} (h : sc.WriteOnly) (c : Connection) :
    (sc.run (socket c.maxFrame c.output)).result = (sc.run c).result ∧
      (sc.run (socket c.maxFrame c.output)).state = (sc.run c).state ∧
      (sc.run (socket c.maxFrame c.output)).conn.output = (sc.run c).conn.output := by
  induction sc generalizing c with
  | done state result => exact ⟨rfl, rfl, rfl⟩
  | reply msg next ih => exact ih _ (h _) (c.reply msg).2
  | readJson decode next ih => exact h.elim

theorem Script.WriteOnly.run_readJson {T : Type} {sc : Script S R} (h : sc.WriteOnly)
    {fromSlice : List UInt8 → Except String T} {c c₁ : Connection} {result : Except FrameError T}
    (hread : c.readJson fromSlice = (result, c₁)) :
    (sc.run (socket c.maxFrame c.output)).result = (sc.run c₁).result ∧
      (sc.run (socket c.maxFrame c.output)).state = (sc.run c₁).state ∧
      (sc.run (socket c.maxFrame c.output)).conn.output = (sc.run c₁).conn.output := by
  obtain ⟨hmax, hout⟩ := of_readJson hread
  rw [← hmax, ← hout]
  exact h.run_socket c₁

def Daemon.reference (d : Daemon S) (maxFrame : ℕ) (fin : Ending) : Reference S :=
  ⟨d.router.get, d.hooks, d.fromSlice, maxFrame, fin⟩

/-- A dispatch that goes on makes the calls of the frame it consumes. -/
theorem Dispatched.expected_ok {d : Daemon S} (hd : d.WriteOnly) {s : S} {c : Connection}
    {x : Ran S (Except FrameError Unit)} (hx : Dispatched d s c x) (hok : x.result = .ok ())
    {q : Reader} (hq : Healthy q) {fin : Ending} (hc : c.input = q ++ fin.reader) :
    ∃ q₁, Healthy q₁ ∧ x.conn.input = q₁ ++ fin.reader ∧ ∀ s₀ others, others.headD s₀ = s →
      (d.reference c.maxFrame fin).expectedCalls (bytes q) s₀ c.output others =
        calls x.log ++ (d.reference c.maxFrame fin).expectedCalls (bytes q₁) x.state
          x.conn.output others.tail := by
  cases hx with
  | failed => cases hok
  | hungUp => cases hok
  | unknown c₁ body hread name htarget y hy =>
    subst hy
    obtain ⟨payload, q₁, hp, hfrom, hq₁, hinput⟩ := readJson_ok hread hq hc
    have hwrites := hd.hooks.unknown s name body
    obtain ⟨-, hstate, hout⟩ := hwrites.run_readJson hread
    refine ⟨q₁, hq₁, (hwrites.run_input c₁).trans hinput, fun s₀ others hs => ?_⟩
    rw [expectedCalls_body (r := d.reference c.maxFrame fin) hp hfrom, hs]
    simp [Daemon.reference, htarget, hstate, hout]
  | done c₁ body hread cmd htarget y hy hresult =>
    subst hy
    obtain ⟨payload, q₁, hp, hfrom, hq₁, hinput⟩ := readJson_ok hread hq hc
    obtain ⟨name, hcmd⟩ := command_of_target htarget
    have hwrites := hd.commands name cmd hcmd s body
    obtain ⟨hsame, hstate, hout⟩ := hwrites.run_readJson hread
    refine ⟨q₁, hq₁, (hwrites.run_input c₁).trans hinput, fun s₀ others hs => ?_⟩
    rw [expectedCalls_body (r := d.reference c.maxFrame fin) hp hfrom, hs]
    simp [Daemon.reference, htarget, hsame, hresult, hstate, hout]
  | erred c₁ body hread cmd htarget y hy e hresult he z hz =>
    subst hy hz
    obtain ⟨payload, q₁, hp, hfrom, hq₁, hinput⟩ := readJson_ok hread hq hc
    obtain ⟨name, hcmd⟩ := command_of_target htarget
    have hwrites := hd.commands name cmd hcmd s body
    obtain ⟨hsame, hstate, hout⟩ := hwrites.run_readJson hread
    have hhook := hd.hooks.error ((cmd.execute s body).run c₁).state e
    obtain ⟨-, hstate', hout'⟩ := hhook.run_socket ((cmd.execute s body).run c₁).conn
    rw [run_maxFrame, (of_readJson hread).1] at hstate' hout'
    refine ⟨q₁, hq₁, (hhook.run_input _).trans ((hwrites.run_input c₁).trans hinput),
      fun s₀ others hs => ?_⟩
    rw [expectedCalls_body (r := d.reference c.maxFrame fin) hp hfrom, hs]
    cases e with
    | hangup => exact absurd rfl he
    | frame | other =>
      simp [Daemon.reference, htarget, hsame, hresult, hstate, hout, hstate', hout']

theorem Dispatched.expected_error {d : Daemon S} (hd : d.WriteOnly) {s : S} {c : Connection}
    {x : Ran S (Except FrameError Unit)} (hx : Dispatched d s c x) {e : FrameError}
    (herr : x.result = .error e) {q : Reader} (hq : Healthy q) {fin : Ending}
    (hc : c.input = q ++ fin.reader) {s₀ : S} {others : List S} (hs : others.headD s₀ = s) :
    (d.reference c.maxFrame fin).expectedCalls (bytes q) s₀ c.output others =
      calls x.log ++ if endsQuietly e then [] else [.error (.frame e)] := by
  cases hx with
  | unknown | done | erred => cases herr
  | failed c₁ e' hread =>
    obtain rfl := Except.error.inj herr
    rcases readJson_error hread hq hc with ⟨payload, rest, text, hp, hfrom, rfl⟩ | ⟨hp, he⟩
    · rw [expectedCalls_undecoded (r := d.reference c.maxFrame fin) hp hfrom]
      rfl
    · rw [expectedCalls_broken (r := d.reference c.maxFrame fin) hp he]
      rfl
  | hungUp c₁ body hread cmd htarget y hy hresult =>
    subst hy
    obtain rfl := Except.error.inj herr
    obtain ⟨payload, q₁, hp, hfrom, -⟩ := readJson_ok hread hq hc
    obtain ⟨name, hcmd⟩ := command_of_target htarget
    obtain ⟨hsame, -⟩ := (hd.commands name cmd hcmd s body).run_readJson hread
    rw [expectedCalls_body (r := d.reference c.maxFrame fin) hp hfrom, hs]
    simp [Daemon.reference, htarget, hsame, hresult, endsQuietly]

/-- The calls of a persistent session are those of the reference. -/
theorem calls_persistentLoop {d : Daemon S} (hd : d.WriteOnly) (fin : Ending) (s : S)
    (c : Connection) {q : Reader} (hq : Healthy q) (hc : c.input = q ++ fin.reader) :
    calls (d.persistentLoop s c).log =
      (d.reference c.maxFrame fin).expectedCalls (bytes q) s c.output [] := by
  refine persistentLoop_rule (I := fun s c y => ∀ q, Healthy q → c.input = q ++ fin.reader →
    calls y.log = (d.reference c.maxFrame fin).expectedCalls (bytes q) s c.output [])
    ?_ ?_ ?_ s c q hq hc
  · intro s c x y hx hok ih q hq hc
    obtain ⟨q₁, hq₁, hinput, hstep⟩ := hx.expected_ok hd hok hq hc
    rw [calls_append, hstep s [] rfl, ih q₁ hq₁ hinput, hx.conn_maxFrame]
    rfl
  · intro s c x e hx herr hquiet q hq hc
    have hlast := hx.expected_error hd herr hq hc (show ([] : List S).headD s = s from rfl)
    simpa [hquiet] using hlast.symm
  · intro s c x e hx herr hloud q hq hc
    have hlast := hx.expected_error hd herr hq hc (show ([] : List S).headD s = s from rfl)
    simpa [hloud, Ran.andThen, ErrorHandler.callError, Ran.after] using hlast.symm

theorem calls_oneShot {d : Daemon S} (hd : d.WriteOnly) (fin : Ending) (s : S) (c : Connection)
    {q : Reader} (hq : Healthy q) (hc : c.input = q ++ fin.reader) (hmode : d.session = .oneShot)
    (hallows : d.auth.allows c.peerUid d.usernameForUid) :
    calls (d.handleConn s c).log =
      (d.reference c.maxFrame fin).expectedCall (bytes q) s c.output := by
  simp only [Daemon.handleConn, hallows, if_true, hmode, Ran.andThen]
  generalize hx' : d.dispatchOne s c = x
  have hx : Dispatched d s c x := hx' ▸ .of_dispatchOne d s c
  unfold Reference.expectedCall Daemon.reference
  cases hx with
  | failed c₁ e hread =>
    rcases readJson_error hread hq hc with ⟨payload, rest, text, hp, hfrom, rfl⟩ | ⟨hp, he⟩
    · simp [hp, hfrom, ErrorHandler.callError, Ran.after]
    · cases hp' : parse headerLen c.maxFrame (bytes q) with
      | frame payload rest => exact absurd hp' (hp _ _)
      | tooLarge | shortHeader | shortPayload =>
        rw [hp'] at he
        simp [he, ErrorHandler.callError, Ran.after]
  | unknown c₁ body hread name htarget y hy =>
    subst hy
    obtain ⟨payload, q₁, hp, hfrom, -⟩ := readJson_ok hread hq hc
    simp [hp, hfrom, htarget]
  | done c₁ body hread cmd htarget y hy hresult =>
    subst hy
    obtain ⟨payload, q₁, hp, hfrom, -⟩ := readJson_ok hread hq hc
    obtain ⟨name, hcmd⟩ := command_of_target htarget
    obtain ⟨hsame, -⟩ := (hd.commands name cmd hcmd s body).run_readJson hread
    simp [hp, hfrom, htarget, hsame, hresult]
  | hungUp c₁ body hread cmd htarget y hy hresult =>
    subst hy
    obtain ⟨payload, q₁, hp, hfrom, -⟩ := readJson_ok hread hq hc
    obtain ⟨name, hcmd⟩ := command_of_target htarget
    obtain ⟨hsame, -⟩ := (hd.commands name cmd hcmd s body).run_readJson hread
    simp [hp, hfrom, htarget, hsame, hresult, ErrorHandler.callError, Ran.after]
  | erred c₁ body hread cmd htarget y hy e hresult he z hz =>
    subst hy hz
    obtain ⟨payload, q₁, hp, hfrom, -⟩ := readJson_ok hread hq hc
    obtain ⟨name, hcmd⟩ := command_of_target htarget
    obtain ⟨hsame, -⟩ := (hd.commands name cmd hcmd s body).run_readJson hread
    cases e with
    | hangup => exact absurd rfl he
    | frame | other => simp [hp, hfrom, htarget, hsame, hresult]

/-- A session of commands and hooks that do not read makes the calls its bytes ask for, each
frame going to the first command registered under its type, however they are chopped. -/
theorem session_executes_frames (d : Daemon S) (cmds : List (Command S))
    (hrouter : d.router = Router.new.addEach cmds)
    (hcmds : ∀ cmd ∈ cmds, ∀ s body, (cmd.execute s body).WriteOnly) (hhooks : d.hooks.WriteOnly)
    (q : Reader) (hq : Healthy q) (fin : Ending) (s : S) (c : Connection)
    (hc : c.input = q ++ fin.reader) :
    let ref : Reference S := ⟨fun name => cmds.find? fun cmd => cmd.name = name, d.hooks,
      d.fromSlice, c.maxFrame, fin⟩
    (d.auth.allows c.peerUid d.usernameForUid = false →
      calls (d.handleConn s c).log = [.reject .auth] ∧ (d.handleConn s c).conn.input = c.input) ∧
    (d.auth.allows c.peerUid d.usernameForUid = true → d.session = .persistent →
      calls (d.handleConn s c).log = ref.expectedCalls (bytes q) s c.output []) ∧
    (d.auth.allows c.peerUid d.usernameForUid = true → d.session = .oneShot →
      calls (d.handleConn s c).log = ref.expectedCall (bytes q) s c.output) := by
  intro ref
  have hlookup : (fun name => cmds.find? fun cmd => cmd.name = name) = d.router.get := by
    funext name
    rw [hrouter, get_new]
  have href : ref = d.reference c.maxFrame fin := by
    simp only [ref, hlookup, Daemon.reference]
  have hd : d.WriteOnly := by
    refine ⟨fun name cmd hcmd => hcmds cmd ?_, hhooks⟩
    rw [← hlookup] at hcmd
    exact List.mem_of_find?_eq_some hcmd
  rw [href]
  refine ⟨fun hdenied => ?_, fun hallows hmode => ?_, fun hallows hmode => ?_⟩
  · simp [Daemon.handleConn, hdenied, ErrorHandler.callReject, Ran.after,
      (hhooks.reject s .auth).run_input]
  · simp only [Daemon.handleConn, hallows, if_true, hmode]
    exact calls_persistentLoop hd fin s c hq hc
  · exact calls_oneShot hd fin s c hq hc hmode hallows

def toyAdd : Command ℕ :=
  ⟨"a", fun n _ => .reply (.ok (ofString "1")) fun _ => .done (n + 1) (.ok ())⟩

def toyOnce : Command ℕ :=
  ⟨"b", fun n _ => .done n (if n = 0 then .ok () else .error (.other "spent"))⟩

/-- Two commands under one name, of which the first counts, and one that may fail. -/
def toyCommands : List (Command ℕ) :=
  [toyAdd, ⟨"a", fun n _ => .done n (.error .hangup)⟩, toyOnce]

def toyDaemon : Daemon ℕ where
  router := Router.new.addEach toyCommands
  hooks := ⟨fun n _ _ => .done n (), fun n _ => .reply (.ok (ofString "null")) fun _ => .done n (),
    fun n _ => .done n ()⟩
  auth := .none
  session := .persistent
  fromSlice := parseRequest ["a", "b", "c"]
  usernameForUid := fun _ => none

/-- Requests for each command and for none, chopped inside header and payload, and then bytes
that are no JSON. -/
def toyStream : Reader :=
  let all := stream headerLen [requestBytes "b", requestBytes "a", requestBytes "c",
    requestBytes "b", ofString "]", requestBytes "a"]
  unread (all.take 3) (unread ((all.drop 3).take 20) (unread (all.drop 23) []))

def toyBody (name : String) : Value := .object [("type", .string name)]

def toyReference : Reference ℕ :=
  ⟨fun name => toyCommands.find? fun cmd => cmd.name = name, toyDaemon.hooks,
    toyDaemon.fromSlice, 16,
    .eof⟩

theorem expectedCalls_toy :
    toyReference.expectedCalls (stream headerLen [requestBytes "b", requestBytes "a",
        requestBytes "c", requestBytes "b", ofString "]", requestBytes "a"]) 0 ⟨[], []⟩ [] =
      [.execute toyOnce (toyBody "b"), .execute toyAdd (toyBody "a"), .unknown "c" (toyBody "c"),
        .execute toyOnce (toyBody "b"), .error (.other "spent"),
        .error (.frame (.json "expected value at line 1 column 1"))] := by
  have hparse (p rest : List UInt8) (h : p.length ≤ 16) :
      parse headerLen toyReference.maxFrame (frame headerLen p ++ rest) = .frame p rest :=
    parse_frame_append rest h (Nat.lt_of_le_of_lt h (by decide))
  have ha : (requestBytes "a").length ≤ 16 := by decide +kernel
  have hb : (requestBytes "b").length ≤ 16 := by decide +kernel
  have hc : (requestBytes "c").length ≤ 16 := by decide +kernel
  have hfrom {name : String} (h : name ∈ ["a", "b", "c"]) :
      toyReference.fromSlice (requestBytes name) = .ok (toyBody name) :=
    parseRequest_requestBytes h
  have hnone : toyReference.fromSlice (ofString "]") =
      .error "expected value at line 1 column 1" := by
    have hfind : ["a", "b", "c"].find? (fun name => requestBytes name = ofString "]") = none := by
      decide +kernel
    have hparser : toyReference.fromSlice = parseRequest ["a", "b", "c"] := rfl
    rw [hparser, parseRequest, hfind]
  have hta : target toyReference.lookup (toyBody "a") = .inr toyAdd := rfl
  have htb : target toyReference.lookup (toyBody "b") = .inr toyOnce := rfl
  have htc : target toyReference.lookup (toyBody "c") = .inl "c" := rfl
  simp only [stream_cons]
  rw [expectedCalls_body (hparse _ _ hb) (hfrom (by decide)), htb]
  change _ :: toyReference.expectedCalls _ 0 _ [] = _
  rw [expectedCalls_body (hparse _ _ ha) (hfrom (by decide)), hta]
  change _ :: _ :: toyReference.expectedCalls _ 1 _ [] = _
  rw [expectedCalls_body (hparse _ _ hc) (hfrom (by decide)), htc]
  change _ :: _ :: _ :: toyReference.expectedCalls _ 1 _ [] = _
  rw [expectedCalls_body (hparse _ _ hb) (hfrom (by decide)), htb]
  change _ :: _ :: _ :: _ :: _ :: toyReference.expectedCalls _ 1 _ [] = _
  rw [expectedCalls_undecoded (hparse _ _ (by decide)) hnone]

theorem session_executes_frames_toy :
    calls (toyDaemon.handleConn 0 ⟨none, toyStream, ⟨[], []⟩, 16⟩).log =
      [.execute toyOnce (toyBody "b"), .execute toyAdd (toyBody "a"), .unknown "c" (toyBody "c"),
        .execute toyOnce (toyBody "b"), .error (.other "spent"),
        .error (.frame (.json "expected value at line 1 column 1"))] := by
  have hbytes : bytes toyStream = stream headerLen [requestBytes "b", requestBytes "a",
      requestBytes "c", requestBytes "b", ofString "]", requestBytes "a"] := by
    simp only [toyStream, bytes_unread, bytes_nil, List.append_nil]
    decide +kernel
  obtain ⟨-, hcalls, -⟩ := session_executes_frames toyDaemon toyCommands rfl
    (by simp [toyCommands, toyAdd, toyOnce, Script.WriteOnly])
    ⟨fun _ _ _ => trivial, fun _ _ _ => trivial, fun _ _ => trivial⟩ toyStream
    (by simp [toyStream, healthy_unread]) .eof 0 ⟨none, toyStream, ⟨[], []⟩, 16⟩
    (List.append_nil _).symm
  rw [hcalls rfl rfl, hbytes]
  exact expectedCalls_toy

end Session
end SharedDaemon
