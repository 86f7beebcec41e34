import SharedDaemon.Dispatch
import SharedDaemon.MessageSession

/-!
# Requests sent ahead

Code that does not read the connection itself answers each request by that request alone:
what is queued behind it makes no difference.
-/

namespace SharedDaemon
namespace Session

open StdIo StdPath SharedDaemon.Frame LengthPrefix

variable {S R Q : Type}

def Daemon.staysOpen (d : Daemon S) (maxFrame : ℕ) (s : S) : List (List UInt8) → Bool
  | [] => true
  | p :: ps =>
    let x := d.serveOne maxFrame s [p]
    match x.result with
    | .ok () => d.staysOpen maxFrame x.state ps
    | .error _ => false

def Served.queue (x : Served S R) (qs : List (List UInt8)) : Served S R :=
  { x with inbox := x.inbox ++ qs }

theorem Served.queue_andThen (x : Served S R) (f : R → S → List (List UInt8) → Served S Q)
    {qs : List (List UInt8)} (h : f x.result x.state (x.inbox ++ qs) =
      (f x.result x.state x.inbox).queue qs) :
    (x.queue qs).andThen f = (x.andThen f).queue qs := by
  simp only [Served.andThen, Served.queue] at h ⊢
  rw [h]

theorem Script.WriteOnly.serve_append {sc : Script S R} (h : sc.WriteOnly) (maxFrame : ℕ)
    (ps qs : List (List UInt8)) :
    sc.serve maxFrame (ps ++ qs) = (sc.serve maxFrame ps).queue qs := by
  induction sc with
  | done state result => rfl
  | reply msg next ih =>
    have hnext := ih (post maxFrame msg).1 (h _)
    simp only [Script.serve, hnext]
    rfl
  | readJson decode next ih => exact h.elim

theorem serveBody_append {d : Daemon S} (hd : d.WriteOnly) (maxFrame : ℕ) (body : Value) (s : S)
    (ps qs : List (List UInt8)) :
    d.serveBody maxFrame body s (ps ++ qs) = (d.serveBody maxFrame body s ps).queue qs := by
  unfold Daemon.serveBody
  cases htarget : target d.router.get body with
  | inl name =>
    simp only [(hd.hooks.unknown s name body).serve_append]
    exact Served.queue_andThen _ _ rfl
  | inr cmd =>
    obtain ⟨name, hcmd⟩ := command_of_target htarget
    simp only [(hd.commands name cmd hcmd s body).serve_append]
    apply Served.queue_andThen
    generalize ((cmd.execute s body).serve maxFrame ps) = x
    rcases hresult : x.result with e | _
    · have herror (e : IpcError) : ((d.hooks.error x.state e).serve maxFrame (x.inbox ++ qs)) =
          ((d.hooks.error x.state e).serve maxFrame x.inbox).queue qs :=
        (hd.hooks.error x.state e).serve_append maxFrame x.inbox qs
      cases e with
      | hangup => rfl
      | frame e | other text =>
        simp only [Daemon.serveResult, herror]
        exact Served.queue_andThen _ _ rfl
    · rfl

theorem serveOne_append {d : Daemon S} (hd : d.WriteOnly) (maxFrame : ℕ) (s : S) (p : List UInt8)
    (qs : List (List UInt8)) :
    d.serveOne maxFrame s (p :: qs) = (d.serveOne maxFrame s [p]).queue qs := by
  simp only [Daemon.serveOne, receive]
  cases d.fromSlice p with
  | error text => rfl
  | ok body => exact serveBody_append hd maxFrame body s [] qs

theorem serveOne_inbox {d : Daemon S} {maxFrame : ℕ} {s : S} (p : List UInt8) :
    (d.serveOne maxFrame s [p]).inbox = [] := by
  simp only [Daemon.serveOne, receive]
  cases d.fromSlice p with
  | error text => rfl
  | ok body => exact List.suffix_nil.mp (inbox_of_serveBody d maxFrame body s [])

theorem serveLoop_nil (d : Daemon S) (maxFrame : ℕ) (s : S) :
    d.serveLoop maxFrame s [] = ⟨(), s, [], []⟩ := by
  rw [serveLoop_eq]
  rfl

/-- A session on more requests goes on after the first ones, unless it ended among them. -/
theorem serveLoop_append {d : Daemon S} (hd : d.WriteOnly) (maxFrame : ℕ) (s : S)
    (ps qs : List (List UInt8)) :
    d.serveLoop maxFrame s (ps ++ qs) =
      if d.staysOpen maxFrame s ps then
        (d.serveLoop maxFrame s ps).andThen fun _ s _ => d.serveLoop maxFrame s qs
      else (d.serveLoop maxFrame s ps).queue qs := by
  induction ps generalizing s with
  | nil => simp [Daemon.staysOpen, serveLoop_nil, Served.andThen]
  | cons p ps ih =>
    rw [List.cons_append, serveLoop_eq, serveLoop_eq d maxFrame s (p :: ps), serveOne_append hd,
      serveOne_append hd maxFrame s p ps, Daemon.staysOpen]
    have hinbox : (d.serveOne maxFrame s [p]).inbox = [] := serveOne_inbox p
    generalize d.serveOne maxFrame s [p] = x at hinbox ⊢
    rcases hresult : x.result with e | _
    · simp only [Served.queue, Served.andThen, hresult, hinbox, List.nil_append]
      cases endsQuietly e with
      | true => rfl
      | false => simp [(hd.hooks.error x.state (.frame e)).serve_append, Served.queue]
    · simp only [Served.queue, Served.andThen, hresult, hinbox, List.nil_append, ih x.state]
      cases d.staysOpen maxFrame x.state ps <;> simp

/-- A connection on which `ps` comes in and nothing was answered yet. -/
def Fresh (maxFrame : ℕ) (uid : Option ℕ) (ps : List (List UInt8)) (c : Connection) : Prop :=
  Carries maxFrame c ps [] ∧ c.peerUid = uid

/-- Requests may be sent ahead: a persistent session answers `ps` and `qs` on one connection
as it answers them on two, one after the other, as long as it is open after `ps`; else
`qs` changes nothing. The chunks of the three connections may differ. -/
theorem pipelined_requests (d : Daemon S) (hd : d.WriteOnly) (hmode : d.session = .persistent)
    (maxFrame : ℕ) (uid : Option ℕ) (s : S) (ps qs : List (List UInt8)) (c c₁ c₂ : Connection)
    (hc : Fresh maxFrame uid (ps ++ qs) c) (hc₁ : Fresh maxFrame uid ps c₁)
    (hc₂ : Fresh maxFrame uid qs c₂) :
    let first := d.handleConn s c₁
    if d.auth.allows uid d.usernameForUid ∧ d.staysOpen maxFrame s ps then
      let second := d.handleConn first.state c₂
      (d.handleConn s c).state = second.state ∧
        (d.handleConn s c).conn.output.sent =
          first.conn.output.sent ++ second.conn.output.sent
    else
      (d.handleConn s c).state = first.state ∧
        (d.handleConn s c).conn.output.sent = first.conn.output.sent := by
  intro first
  obtain ⟨hc, rfl⟩ := hc
  obtain ⟨hc₁, huid₁⟩ := hc₁
  obtain ⟨hc₂, huid₂⟩ := hc₂
  have hall := hc.handleConn d s
  have hfirst := hc₁.handleConn d s
  have hsecond := hc₂.handleConn d first.state
  simp only [hall.state, hall.carries.output, hsecond.state, hsecond.carries.output,
    List.nil_append, huid₂]
  simp only [first, hfirst.state, hfirst.carries.output, List.nil_append, huid₁]
  by_cases hauth : d.auth.allows c.peerUid d.usernameForUid
  · simp only [Daemon.serveConn, hauth, if_true, hmode, true_and, serveLoop_append hd]
    cases d.staysOpen maxFrame s ps with
    | true => simp [Served.andThen]
    | false => simp [Served.queue]
  · simp [Daemon.serveConn, hauth, (hd.hooks.reject s .auth).serve_append, Served.queue]

def dispenser : Daemon ℕ where
  router := Router.new.addEach
    [⟨"next", fun n _ => .reply (.ok (ofString (toString n))) fun _ => .done (n + 1) (.ok ())⟩,
      ⟨"stop", fun n _ => .done n (.error .hangup)⟩]
  hooks := ⟨fun n _ _ => .done n (), fun n _ => .done n (), fun n _ => .done n ()⟩
  auth := .none
  session := .persistent
  fromSlice := parseRequest ["next", "stop"]
  usernameForUid := fun _ => none

theorem dispenser_writeOnly : dispenser.WriteOnly := by
  refine ⟨fun name cmd h s body => ?_, fun _ _ _ => trivial, fun _ _ => trivial, fun _ _ => trivial⟩
  rw [dispenser, get_new] at h
  have hmem := List.mem_of_find?_eq_some h
  simp only [List.mem_cons, List.not_mem_nil, or_false] at hmem
  rcases hmem with rfl | rfl
  · exact fun _ => trivial
  · trivial

/-- A connection that brings these requests, the first `k` bytes on their own. -/
def requesting (k : ℕ) (ps : List (List UInt8)) : Connection :=
  let bs := stream headerLen ps
  ⟨none, unread (bs.take k) (unread (bs.drop k) []), ⟨[], []⟩, 16⟩

theorem fresh_requesting (k : ℕ) {ps : List (List UInt8)} (hfits : ∀ p ∈ ps, p.length ≤ 16) :
    Fresh 16 none ps (requesting k ps) :=
  ⟨⟨rfl, by decide, by simp [requesting, healthy_unread], by simp [requesting], hfits,
    by simp [requesting, Accepting], rfl, by simp⟩, rfl⟩

theorem pipelined_requests_dispenser :
    let next := requestBytes "next"
    let stop := requestBytes "stop"
    let all := requesting 30 [next, next, stop, next]
    let first := dispenser.handleConn 5 (requesting 2 [next, next])
    let second := dispenser.handleConn first.state (requesting 25 [stop, next])
    (dispenser.handleConn 5 all).state = second.state ∧
      (dispenser.handleConn 5 all).conn.output.sent =
        first.conn.output.sent ++ second.conn.output.sent := by
  intro next stop all first second
  have hnext : next.length ≤ 16 := by decide +kernel
  have hstop : stop.length ≤ 16 := by decide +kernel
  have hopen : dispenser.staysOpen 16 5 [next, next] = true := by decide +kernel
  have h := pipelined_requests dispenser dispenser_writeOnly rfl 16 none 5 [next, next] [stop, next]
    _ _ _ (fresh_requesting 30 (by simp [hnext, hstop])) (fresh_requesting 2 (by simp [hnext]))
    (fresh_requesting 25 (by simp [hnext, hstop]))
  rwa [if_pos ⟨rfl, hopen⟩] at h

/-- What one-shot sessions come to, one after the other: the state and all that was sent. -/
def Daemon.inTurn (d : Daemon S) (s : S) : List Connection → S × List UInt8
  | [] => (s, [])
  | c :: cs =>
    let x := d.handleConn s c
    let y := d.inTurn x.state cs
    (y.1, x.conn.output.sent ++ y.2)

theorem serveConn_oneShot (d : Daemon S) (maxFrame : ℕ) (uid : Option ℕ) (s : S) (p : List UInt8)
    (hauth : d.auth.allows uid d.usernameForUid) (hmode : d.session = .oneShot)
    (hopen : (d.serveOne maxFrame s [p]).result = .ok ()) :
    d.serveConn maxFrame uid s [p] = d.serveLoop maxFrame s [p] := by
  have hinbox : (d.serveOne maxFrame s [p]).inbox = [] := serveOne_inbox p
  simp [Daemon.serveConn, hauth, hmode, serveLoop_eq d maxFrame s [p], Served.andThen, hopen,
    hinbox, serveLoop_nil]

/-- Only the start of a session looks at its mode. -/
theorem serveLoop_session (d : Daemon S) (mode : SessionMode) (maxFrame : ℕ) (s : S)
    (ps : List (List UInt8)) :
    ({ d with session := mode } : Daemon S).serveLoop maxFrame s ps =
      d.serveLoop maxFrame s ps := by
  induction hn : ps.length using Nat.strongRecOn generalizing s ps with
  | ind n ih =>
    rw [serveLoop_eq, serveLoop_eq d]
    have hone : ({ d with session := mode } : Daemon S).serveOne maxFrame s ps =
        d.serveOne maxFrame s ps := rfl
    rw [hone]
    rcases hresult : (d.serveOne maxFrame s ps).result with e | _
    · simp [Served.andThen, hresult]
    · simp only [Served.andThen, hresult]
      rw [ih _ (hn ▸ inbox_of_serveOne hresult) _ _ rfl]

theorem staysOpen_session (d : Daemon S) (mode : SessionMode) (maxFrame : ℕ) (s : S)
    (ps : List (List UInt8)) :
    ({ d with session := mode } : Daemon S).staysOpen maxFrame s ps =
      d.staysOpen maxFrame s ps := by
  induction ps generalizing s with
  | nil => rfl
  | cons p ps ih =>
    have hone : ({ d with session := mode } : Daemon S).serveOne maxFrame s [p] =
        d.serveOne maxFrame s [p] := rfl
    simp only [Daemon.staysOpen, hone, ih]

theorem staysOpen_cons {d : Daemon S} {maxFrame : ℕ} {s : S} {p : List UInt8}
    {ps : List (List UInt8)} (h : d.staysOpen maxFrame s (p :: ps)) :
    (d.serveOne maxFrame s [p]).result = .ok () ∧
      d.staysOpen maxFrame (d.serveOne maxFrame s [p]).state ps := by
  rw [Daemon.staysOpen] at h
  cases hresult : (d.serveOne maxFrame s [p]).result with
  | error e => simp [hresult] at h
  | ok u => exact ⟨rfl, by simpa [hresult] using h⟩

theorem serveLoop_cons {d : Daemon S} (hd : d.WriteOnly) {maxFrame : ℕ} {s : S} {p : List UInt8}
    (ps : List (List UInt8)) (hopen : (d.serveOne maxFrame s [p]).result = .ok ()) :
    d.serveLoop maxFrame s (p :: ps) =
      (d.serveOne maxFrame s [p]).andThen fun _ s _ => d.serveLoop maxFrame s ps := by
  have hinbox : (d.serveOne maxFrame s [p]).inbox = [] := serveOne_inbox p
  rw [serveLoop_eq, serveOne_append hd]
  simp [Served.andThen, Served.queue, hopen, hinbox]

theorem inTurn_eq_serveLoop {d : Daemon S} (hd : d.WriteOnly) (hmode : d.session = .oneShot)
    {maxFrame : ℕ} {uid : Option ℕ} {ps : List (List UInt8)} {cs : List Connection}
    (hauth : d.auth.allows uid d.usernameForUid)
    (hcs : List.Forall₂ (fun p c => Fresh maxFrame uid [p] c) ps cs) (s : S)
    (hopen : d.staysOpen maxFrame s ps) :
    d.inTurn s cs =
      ((d.serveLoop maxFrame s ps).state, stream headerLen (d.serveLoop maxFrame s ps).sent) := by
  induction hcs generalizing s with
  | nil => simp [Daemon.inTurn, serveLoop_nil, stream]
  | @cons p c ps cs hc _ ih =>
    obtain ⟨hone, hrest⟩ := staysOpen_cons hopen
    obtain ⟨hc, rfl⟩ := hc
    have hsession := hc.handleConn d s
    have hloop := serveConn_oneShot d maxFrame c.peerUid s p hauth hmode hone
    rw [serveLoop_cons hd [] hone, Served.andThen, serveLoop_nil] at hloop
    have hstate : (d.handleConn s c).state = (d.serveOne maxFrame s [p]).state := by
      rw [hsession.state, hloop]
    have hsent : (d.handleConn s c).conn.output.sent =
        stream headerLen (d.serveOne maxFrame s [p]).sent := by
      simpa [hloop] using hsession.carries.output
    rw [Daemon.inTurn, hstate, hsent, ih _ hrest, serveLoop_cons hd ps hone]
    simp [Served.andThen]

/-- The two session modes agree: as long as no request ends the session, a persistent one
answers the requests as one-shot sessions answer them in turn. -/
theorem modes_agree (d : Daemon S) (hd : d.WriteOnly) (maxFrame : ℕ) (uid : Option ℕ) (s : S)
    (ps : List (List UInt8)) (c : Connection) (cs : List Connection)
    (hauth : d.auth.allows uid d.usernameForUid) (hopen : d.staysOpen maxFrame s ps)
    (hc : Fresh maxFrame uid ps c)
    (hcs : List.Forall₂ (fun p c => Fresh maxFrame uid [p] c) ps cs) :
    (({ d with session := .persistent } : Daemon S).handleConn s c).state =
        (({ d with session := .oneShot } : Daemon S).inTurn s cs).1 ∧
      (({ d with session := .persistent } : Daemon S).handleConn s c).conn.output.sent =
        (({ d with session := .oneShot } : Daemon S).inTurn s cs).2 := by
  obtain ⟨hc, rfl⟩ := hc
  have hd' : ({ d with session := .oneShot } : Daemon S).WriteOnly := ⟨hd.commands, hd.hooks⟩
  have hopen' : ({ d with session := .oneShot } : Daemon S).staysOpen maxFrame s ps := by
    rwa [staysOpen_session]
  have hturn := inTurn_eq_serveLoop hd' rfl hauth hcs s hopen'
  have hsession := hc.handleConn { d with session := .persistent } s
  rw [hturn, hsession.state, hsession.carries.output, List.nil_append, serveLoop_session]
  have hconn : ({ d with session := .persistent } : Daemon S).serveConn maxFrame c.peerUid s ps =
      d.serveLoop maxFrame s ps := by
    rw [← serveLoop_session d .persistent]
    simp [Daemon.serveConn, hauth]
  rw [hconn]
  exact ⟨rfl, rfl⟩

theorem modes_agree_dispenser :
    let next := requestBytes "next"
    let all := requesting 20 [next, next]
    let turns := [requesting 3 [next], requesting 8 [next]]
    (dispenser.handleConn 5 all).state =
        (({ dispenser with session := .oneShot } : Daemon ℕ).inTurn 5 turns).1 ∧
      (dispenser.handleConn 5 all).conn.output.sent =
        (({ dispenser with session := .oneShot } : Daemon ℕ).inTurn 5 turns).2 := by
  intro next all turns
  have hnext : next.length ≤ 16 := by decide +kernel
  exact modes_agree dispenser dispenser_writeOnly 16 none 5 [next, next] _ _ rfl
    (by decide +kernel) (fresh_requesting 20 (by simp [hnext]))
    (.cons (fresh_requesting 3 (by simp [hnext])) (.cons (fresh_requesting 8 (by simp [hnext])) .nil))

end Session
end SharedDaemon
