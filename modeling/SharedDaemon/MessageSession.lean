import SharedDaemon.FrameRoundTrip
import SharedDaemon.Session

/-!
# Sessions on whole messages

What a session is for, without bytes: requests come in as payloads, replies go out as
payloads. A session on a framed connection does just this, however both directions are
chopped.
-/

namespace SharedDaemon
namespace Session

open StdIo StdPath SharedDaemon.Frame LengthPrefix

variable {S R Q : Type}

/-- A part of a session: what came of it, the requests it left, and its replies. -/
structure Served (S R : Type) where
  result : R
  state : S
  inbox : List (List UInt8)
  sent : List (List UInt8)
  deriving DecidableEq

def Served.andThen (x : Served S R) (f : R → S → List (List UInt8) → Served S Q) : Served S Q :=
  let y := f x.result x.state x.inbox
  { y with sent := x.sent ++ y.sent }

def receive {T : Type} (fromSlice : List UInt8 → Except String T) :
    List (List UInt8) → Except FrameError T × List (List UInt8)
  | [] => (.error (.unexpectedEof 0 headerLen), [])
  | p :: inbox => ((fromSlice p).mapError .json, inbox)

def post (maxFrame : ℕ) : Message → Except FrameError Unit × List (List UInt8)
  | .error text => (.error (.json text), [])
  | .ok p =>
    if p.length ≤ maxFrame then (.ok (), [p]) else (.error (.tooLarge p.length maxFrame), [])

def Script.serve (maxFrame : ℕ) : Script S R → List (List UInt8) → Served S R
  | .done state result, inbox => ⟨result, state, inbox, []⟩
  | .reply msg next, inbox =>
    let x := post maxFrame msg
    let y := (next x.1).serve maxFrame inbox
    { y with sent := x.2 ++ y.sent }
  | .readJson decode next, inbox =>
    let x := receive (fun payload => (decode payload).map fun _ => payload) inbox
    (next x.1).serve maxFrame x.2

def Daemon.serveResult (d : Daemon S) (maxFrame : ℕ) (result : Except IpcError Unit) (s : S)
    (inbox : List (List UInt8)) : Served S (Except FrameError Unit) :=
  match result with
  | .ok () => ⟨.ok (), s, inbox, []⟩
  | .error .hangup => ⟨.error (.unexpectedEof 0 0), s, inbox, []⟩
  | .error other =>
    ((d.hooks.error s other).serve maxFrame inbox).andThen fun _ s inbox => ⟨.ok (), s, inbox, []⟩

def Daemon.serveBody (d : Daemon S) (maxFrame : ℕ) (body : Value) (s : S)
    (inbox : List (List UInt8)) : Served S (Except FrameError Unit) :=
  match target d.router.get body with
  | .inl name =>
    ((d.hooks.unknown s name body).serve maxFrame inbox).andThen fun _ s inbox =>
      ⟨.ok (), s, inbox, []⟩
  | .inr cmd => ((cmd.execute s body).serve maxFrame inbox).andThen (d.serveResult maxFrame)

def Daemon.serveOne (d : Daemon S) (maxFrame : ℕ) (s : S) (inbox : List (List UInt8)) :
    Served S (Except FrameError Unit) :=
  match receive d.fromSlice inbox with
  | (.error e, inbox) => ⟨.error e, s, inbox, []⟩
  | (.ok body, inbox) => d.serveBody maxFrame body s inbox

theorem receive_inbox {T : Type} (fromSlice : List UInt8 → Except String T)
    (inbox : List (List UInt8)) : (receive fromSlice inbox).2 = inbox.drop 1 := by
  cases inbox <;> rfl

theorem inbox_of_serve (maxFrame : ℕ) (sc : Script S R) (inbox : List (List UInt8)) :
    (sc.serve maxFrame inbox).inbox <:+ inbox := by
  induction sc generalizing inbox with
  | done state result => exact List.suffix_rfl
  | reply msg next ih => exact ih _ inbox
  | readJson decode next ih =>
    have hrest := ih (receive (fun payload => (decode payload).map fun _ => payload) inbox).1
      (receive (fun payload => (decode payload).map fun _ => payload) inbox).2
    simp only [receive_inbox] at hrest
    simp only [Script.serve, receive_inbox]
    exact hrest.trans (List.drop_suffix 1 inbox)

theorem inbox_of_serveBody (d : Daemon S) (maxFrame : ℕ) (body : Value) (s : S)
    (inbox : List (List UInt8)) : (d.serveBody maxFrame body s inbox).inbox <:+ inbox := by
  unfold Daemon.serveBody
  split
  · simp only [Served.andThen]
    exact inbox_of_serve maxFrame _ inbox
  · rename_i cmd _
    refine List.IsSuffix.trans ?_ (inbox_of_serve maxFrame (cmd.execute s body) inbox)
    simp only [Served.andThen, Daemon.serveResult]
    split
    · exact List.suffix_rfl
    · exact List.suffix_rfl
    · exact inbox_of_serve maxFrame _ _

theorem inbox_of_serveOne {d : Daemon S} {maxFrame : ℕ} {s : S} {inbox : List (List UInt8)}
    (h : (d.serveOne maxFrame s inbox).result = .ok ()) :
    (d.serveOne maxFrame s inbox).inbox.length < inbox.length := by
  unfold Daemon.serveOne at h ⊢
  cases inbox with
  | nil => cases h
  | cons p inbox =>
    simp only [receive] at h ⊢
    cases hfrom : d.fromSlice p with
    | error text => simp [hfrom, Except.mapError] at h
    | ok body =>
      simp only [Except.mapError]
      have hle := (inbox_of_serveBody d maxFrame body s inbox).length_le
      simpa using Nat.lt_succ_of_le hle

def Daemon.serveLoop (d : Daemon S) (maxFrame : ℕ) (s : S) (inbox : List (List UInt8)) :
    Served S Unit :=
  let x := d.serveOne maxFrame s inbox
  match _h : x.result with
  | .ok () =>
    let y := d.serveLoop maxFrame x.state x.inbox
    { y with sent := x.sent ++ y.sent }
  | .error e =>
    if endsQuietly e then ⟨(), x.state, x.inbox, x.sent⟩
    else x.andThen fun _ s inbox => (d.hooks.error s (.frame e)).serve maxFrame inbox
termination_by inbox.length
decreasing_by exact inbox_of_serveOne _h

/-- A session with a peer that sends these requests and then closes its side. -/
def Daemon.serveConn (d : Daemon S) (maxFrame : ℕ) (peerUid : Option ℕ) (s : S)
    (inbox : List (List UInt8)) : Served S Unit :=
  if d.auth.allows peerUid d.usernameForUid then
    match d.session with
    | .oneShot =>
      (d.serveOne maxFrame s inbox).andThen fun
        | .ok (), s, inbox => ⟨(), s, inbox, []⟩
        | .error e, s, inbox => (d.hooks.error s (.frame e)).serve maxFrame inbox
    | .persistent => d.serveLoop maxFrame s inbox
  else (d.hooks.reject s .auth).serve maxFrame inbox

/-- The requests are what the connection will read, the replies what it has written. -/
structure Carries (maxFrame : ℕ) (c : Connection) (inbox sent : List (List UInt8)) : Prop where
  cap : c.maxFrame = maxFrame
  cap_lt : maxFrame < 2 ^ 32
  healthy : Healthy c.input
  input : bytes c.input = stream headerLen inbox
  fits : ∀ p ∈ inbox, p.length ≤ maxFrame
  accepting : Accepting c.output
  output : c.output.sent = stream headerLen sent
  small : ∀ p ∈ sent, p.length ≤ maxFrame

/-- A part of a session on a connection does what it does on messages. -/
structure Simulates (maxFrame : ℕ) (sent : List (List UInt8)) (x : Ran S R) (y : Served S R) :
    Prop where
  result : x.result = y.result
  state : x.state = y.state
  carries : Carries maxFrame x.conn y.inbox (sent ++ y.sent)

variable {maxFrame : ℕ} {c : Connection} {inbox sent : List (List UInt8)}

theorem Carries.readJson {T : Type} (h : Carries maxFrame c inbox sent)
    (fromSlice : List UInt8 → Except String T) :
    (c.readJson fromSlice).1 = (receive fromSlice inbox).1 ∧
      Carries maxFrame (c.readJson fromSlice).2 (receive fromSlice inbox).2 sent := by
  obtain ⟨r, hread, hleaves⟩ := readFrameBytes_eq_parse c.maxFrame c.input h.healthy .eof
  rw [Ending.reader, List.append_nil, h.input] at hread
  rw [h.input] at hleaves
  have hinput := readJson_input c fromSlice
  rw [hread] at hinput
  rw [readJson_result, hread]
  cases inbox with
  | nil =>
    obtain rfl := hleaves
    refine ⟨rfl, ⟨h.cap, h.cap_lt, ?_, ?_, by simp [receive], h.accepting, h.output, h.small⟩⟩
    · rw [hinput]
      exact healthy_nil
    · rw [hinput]
      rfl
  | cons p inbox =>
    have hp : p.length ≤ maxFrame := h.fits p (by simp)
    have hparse : parse headerLen c.maxFrame (stream headerLen (p :: inbox)) =
        .frame p (stream headerLen inbox) :=
      parse_frame_append _ (h.cap ▸ hp) (Nat.lt_of_le_of_lt hp h.cap_lt)
    rw [hparse] at hleaves ⊢
    obtain ⟨q, hq, hrest, rfl⟩ := hleaves
    rw [Ending.reader, List.append_nil] at hinput
    refine ⟨rfl, ⟨h.cap, h.cap_lt, ?_, ?_, fun p' hp' => ?_, h.accepting, h.output, h.small⟩⟩
    · rw [hinput]
      exact hq
    · rw [hinput, hrest]
      rfl
    · exact h.fits p' (by simp [show p' ∈ inbox from hp'])

theorem Carries.reply (h : Carries maxFrame c inbox sent) (msg : Message) :
    (c.reply msg).1 = (post maxFrame msg).1 ∧
      Carries maxFrame (c.reply msg).2 inbox (sent ++ (post maxFrame msg).2) := by
  have hsame : Carries maxFrame c inbox (sent ++ []) := by rwa [List.append_nil]
  cases msg with
  | error text => exact ⟨rfl, hsame⟩
  | ok p =>
    obtain ⟨rfl, hlt, hhealthy, hinput, hfits, hacc, hout, hsmall⟩ := h
    unfold Connection.reply writeFrameWithLimit post
    simp only [id_eq]
    by_cases hp : p.length ≤ c.maxFrame
    · obtain ⟨hok, hsent, hacc'⟩ := writeFrameBytes_accepting hp hacc
      rw [wire_eq_frame (Nat.lt_of_le_of_lt hp hlt), hout] at hsent
      rw [if_pos hp]
      refine ⟨hok, ⟨rfl, hlt, hhealthy, hinput, hfits, hacc', by simpa using hsent, fun q hq => ?_⟩⟩
      rcases List.mem_append.mp hq with hq | hq
      · exact hsmall q hq
      · rwa [List.mem_singleton.mp hq]
    · rw [if_neg hp, writeFrameBytes_tooLarge c.output (Nat.not_le.mp hp)]
      exact ⟨rfl, hsame⟩

/-- A script is simulated step by step. -/
theorem Carries.run (h : Carries maxFrame c inbox sent) (sc : Script S R) :
    Simulates maxFrame sent (sc.run c) (sc.serve maxFrame inbox) := by
  induction sc generalizing c inbox sent with
  | done state result => exact ⟨rfl, rfl, by rwa [Script.serve, List.append_nil]⟩
  | reply msg next ih =>
    obtain ⟨hresult, hcarries⟩ := h.reply msg
    have hnext := ih (c.reply msg).1 hcarries
    simp only [Script.run, Script.serve, Ran.after]
    rw [hresult] at hnext ⊢
    refine ⟨hnext.result, hnext.state, ?_⟩
    have hrest := hnext.carries
    rwa [List.append_assoc] at hrest
  | readJson decode next ih =>
    obtain ⟨hresult, hcarries⟩ := h.readJson fun payload => (decode payload).map fun _ => payload
    have hnext := ih (c.readJson fun payload => (decode payload).map fun _ => payload).1 hcarries
    simp only [Script.run, Script.serve, Ran.after]
    rw [hresult] at hnext ⊢
    exact ⟨hnext.result, hnext.state, hnext.carries⟩

theorem Simulates.after {x : Ran S R} {y : Served S R} (h : Simulates maxFrame sent x y)
    (ev : Event S) : Simulates maxFrame sent (x.after ev) y := ⟨h.result, h.state, h.carries⟩

theorem Simulates.andThen {x : Ran S R} {y : Served S R} {f : R → S → Connection → Ran S Q}
    {g : R → S → List (List UInt8) → Served S Q} (h : Simulates maxFrame sent x y)
    (hrest : Simulates maxFrame (sent ++ y.sent) (f y.result y.state x.conn)
      (g y.result y.state y.inbox)) :
    Simulates maxFrame sent (x.andThen f) (y.andThen g) := by
  simp only [Ran.andThen, Served.andThen, h.result, h.state]
  refine ⟨hrest.result, hrest.state, ?_⟩
  have hcarries := hrest.carries
  rwa [List.append_assoc] at hcarries

theorem Carries.stop (h : Carries maxFrame c inbox sent) (s : S) (result : R) :
    Simulates maxFrame sent ⟨result, s, c, []⟩ ⟨result, s, inbox, []⟩ :=
  ⟨rfl, rfl, by rwa [List.append_nil]⟩

theorem Simulates.finish {x : Ran S R} {y : Served S R} (h : Simulates maxFrame sent x y)
    (result : Q) :
    Simulates maxFrame sent (x.andThen fun _ s c => ⟨result, s, c, []⟩)
      (y.andThen fun _ s inbox => ⟨result, s, inbox, []⟩) :=
  h.andThen (h.carries.stop y.state result)

theorem Carries.afterExecute (h : Carries maxFrame c inbox sent) (d : Daemon S)
    (result : Except IpcError Unit) (s : S) :
    Simulates maxFrame sent (d.afterExecute result s c)
      (d.serveResult maxFrame result s inbox) := by
  unfold Daemon.afterExecute
  apply Simulates.after
  cases result with
  | ok u => exact h.stop s (Except.ok ())
  | error e =>
    cases e with
    | hangup => exact h.stop s (Except.error (FrameError.unexpectedEof 0 0))
    | frame e => exact ((h.run (d.hooks.error s (.frame e))).after _).finish (Except.ok ())
    | other text => exact ((h.run (d.hooks.error s (.other text))).after _).finish (Except.ok ())

theorem Carries.dispatchBody (h : Carries maxFrame c inbox sent) (d : Daemon S) (body : Value)
    (s : S) :
    Simulates maxFrame sent (d.dispatchBody body s c) (d.serveBody maxFrame body s inbox) := by
  unfold Daemon.dispatchBody Daemon.serveBody
  cases target d.router.get body with
  | inl name => exact ((h.run (d.hooks.unknown s name body)).after _).finish (Except.ok ())
  | inr cmd =>
    have hexec := (h.run (cmd.execute s body)).after (.execute cmd body)
    exact hexec.andThen (hexec.carries.afterExecute d _ _)

theorem Carries.dispatchOne (h : Carries maxFrame c inbox sent) (d : Daemon S) (s : S) :
    Simulates maxFrame sent (d.dispatchOne s c) (d.serveOne maxFrame s inbox) := by
  obtain ⟨hresult, hcarries⟩ := h.readJson d.fromSlice
  unfold Daemon.dispatchOne Daemon.serveOne
  refine Simulates.after ?_ _
  rcases hread : c.readJson d.fromSlice with ⟨e | body, c₁⟩
  · rw [hread] at hresult hcarries
    rcases hrecv : receive d.fromSlice inbox with ⟨e' | body', rest⟩
    · rw [hrecv] at hresult hcarries
      obtain rfl := Except.error.inj hresult
      exact hcarries.stop s _
    · rw [hrecv] at hresult
      cases hresult
  · rw [hread] at hresult hcarries
    rcases hrecv : receive d.fromSlice inbox with ⟨e' | body', rest⟩
    · rw [hrecv] at hresult
      cases hresult
    · rw [hrecv] at hresult hcarries
      obtain rfl := Except.ok.inj hresult
      exact hcarries.dispatchBody d body s

theorem persistentLoop_eq (d : Daemon S) (s : S) (c : Connection) :
    d.persistentLoop s c =
      (d.dispatchOne s c).andThen fun
        | .ok (), s, c => d.persistentLoop s c
        | .error e, s, c =>
          if endsQuietly e then ⟨(), s, c, []⟩ else d.hooks.callError s (.frame e) c := by
  rw [Daemon.persistentLoop]
  simp only [Ran.andThen]
  split
  · rename_i hresult
    rw [hresult]
  · rename_i e hresult
    rw [hresult]
    split <;> simp [*]

theorem serveLoop_eq (d : Daemon S) (maxFrame : ℕ) (s : S) (inbox : List (List UInt8)) :
    d.serveLoop maxFrame s inbox =
      (d.serveOne maxFrame s inbox).andThen fun
        | .ok (), s, inbox => d.serveLoop maxFrame s inbox
        | .error e, s, inbox =>
          if endsQuietly e then ⟨(), s, inbox, []⟩
          else (d.hooks.error s (.frame e)).serve maxFrame inbox := by
  rw [Daemon.serveLoop]
  simp only [Served.andThen]
  split
  · rename_i hresult
    rw [hresult]
  · rename_i e hresult
    rw [hresult]
    split <;> simp [*]

theorem Carries.persistentLoop (h : Carries maxFrame c inbox sent) (d : Daemon S) (s : S) :
    Simulates maxFrame sent (d.persistentLoop s c) (d.serveLoop maxFrame s inbox) := by
  induction hn : inbox.length using Nat.strongRecOn generalizing s c inbox sent with
  | ind n ih =>
    have hone := h.dispatchOne d s
    rw [persistentLoop_eq, serveLoop_eq]
    apply hone.andThen
    rcases hresult : (d.serveOne maxFrame s inbox).result with e | _
    · cases hquiet : endsQuietly e with
      | true => simpa [hquiet] using hone.carries.stop (d.serveOne maxFrame s inbox).state ()
      | false => simpa [hquiet, ErrorHandler.callError] using (hone.carries.run _).after _
    · exact ih _ (hn ▸ inbox_of_serveOne hresult) hone.carries _ rfl

/-- A whole session on a connection is the session on messages. -/
theorem Carries.handleConn (h : Carries maxFrame c inbox sent) (d : Daemon S) (s : S) :
    Simulates maxFrame sent (d.handleConn s c) (d.serveConn maxFrame c.peerUid s inbox) := by
  unfold Daemon.handleConn Daemon.serveConn
  cases d.auth.allows c.peerUid d.usernameForUid with
  | false => exact (h.run _).after _
  | true =>
    simp only [if_true]
    cases d.session with
    | persistent => exact h.persistentLoop d s
    | oneShot =>
      have hone := h.dispatchOne d s
      apply hone.andThen
      rcases (d.serveOne maxFrame s inbox).result with e | _
      · exact (hone.carries.run _).after _
      · exact hone.carries.stop _ ()

/-- A session is the exchange of whole messages, whatever the chunks of either direction:
the daemon's state and the payloads a client gets back are those of the message session,
and the requests it left are what is still to be read. -/
theorem handleConn_refines_messages (d : Daemon S) (s : S) (c : Connection)
    (inbox : List (List UInt8)) (readLimit : ℕ) (replies : Reader) (hcap : c.maxFrame < 2 ^ 32)
    (hhealthy : Healthy c.input) (hinput : bytes c.input = stream headerLen inbox)
    (hfits : ∀ p ∈ inbox, p.length ≤ c.maxFrame) (haccepting : Accepting c.output)
    (hnew : c.output.sent = []) (hlimit : c.maxFrame ≤ readLimit) (hreplies : Healthy replies)
    (hreceived : bytes replies = (d.handleConn s c).conn.output.sent) :
    let served := d.serveConn c.maxFrame c.peerUid s inbox
    (d.handleConn s c).state = served.state ∧
      bytes (d.handleConn s c).conn.input = stream headerLen served.inbox ∧
      (readTimes (readFrameBytes readLimit) (served.sent.length + 1) replies).1 =
        served.sent.map .ok ++ [.error (.unexpectedEof 0 4)] := by
  intro served
  have hcarries : Carries c.maxFrame c inbox [] :=
    ⟨rfl, hcap, hhealthy, hinput, hfits, haccepting, hnew, by simp⟩
  obtain ⟨-, hstate, hend⟩ := hcarries.handleConn d s
  have hsmall (p : List UInt8) (hp : p ∈ served.sent) : p.length ≤ c.maxFrame :=
    hend.small p hp
  refine ⟨hstate, hend.input, ?_⟩
  have hbytes : bytes replies = stream headerLen (served.sent.map id) := by
    rw [hreceived, hend.output, List.map_id, List.nil_append]
  exact (readTimes_stream served.sent (fun _ _ _ _ h => h) (fun _ _ _ h => h)
    (fun p hp => (hsmall p hp).trans hlimit)
    (fun p hp => Nat.lt_of_le_of_lt (hsmall p hp) hcap) hreplies hbytes).2

/-- A running total; the amount to add comes in a frame of its own. -/
def tally : Daemon ℕ where
  router := Router.new.addEach
    [⟨"add", fun total _ =>
      .readJson (fun p => (parseNumber p).map fun _ => ()) fun
        | .ok p =>
          let total := total + (parseNumber p).toOption.getD 0
          .reply (.ok (ofString (toString total))) fun _ => .done total (.ok ())
        | .error e => .done total (.error (.frame e))⟩]
  hooks :=
    { unknown := fun total _ _ => .done total ()
      error := fun total _ => .reply (.ok (ofString "null")) fun _ => .done total ()
      reject := fun total _ => .done total () }
  auth := .none
  session := .persistent
  fromSlice := parseRequest ["add"]
  usernameForUid := fun _ => none

def additions : List (List UInt8) :=
  [requestBytes "add", ofString "7", requestBytes "add", ofString "8", requestBytes "add",
    requestBytes "add"]

theorem handleConn_refines_messages_tally :
    let all := stream headerLen additions
    let c : Connection := ⟨none, unread (all.take 21) (unread (all.drop 21) []),
      ⟨[], [.accept 3, .accept 9]⟩, 16⟩
    let sent := stream headerLen [ofString "257", ofString "265", ofString "null"]
    (tally.handleConn 250 c).state = 265 ∧ bytes (tally.handleConn 250 c).conn.input = [] ∧
      (readTimes (readFrameBytes 64) 4 (unread (sent.take 5) (unread (sent.drop 5) []))).1 =
        [.ok (ofString "257"), .ok (ofString "265"), .ok (ofString "null"),
          .error (.unexpectedEof 0 4)] := by
  intro all c sent
  have h := handleConn_refines_messages tally 250 c additions 64
    (unread (sent.take 5) (unread (sent.drop 5) [])) (by decide) (by simp [c, healthy_unread])
    (by simp [c, all]) (by decide +kernel) (by simp [c, Accepting]) rfl (by decide)
    (by simp [healthy_unread]) (by decide +kernel)
  have hserved : tally.serveConn 16 none 250 additions =
      ⟨(), 265, [], [ofString "257", ofString "265", ofString "null"]⟩ := by decide +kernel
  rw [hserved] at h
  exact h

end Session
end SharedDaemon
