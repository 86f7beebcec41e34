import SharedDaemon.Dispatch
import SharedDaemon.MessageSession
import SharedDaemon.TransitionSystem

/-!
# A session step by step

`handle_conn` as a machine that stops between its calls, where other sessions get their
turn. Each step is given the daemon's state as it finds it. A command or hook may panic in
the middle of a step, which ends the session there.
-/

namespace SharedDaemon
namespace Session

open StdIo SharedDaemon.Frame

/-- Where `handle_conn` stands: before the authentication, before the next request, or
with an error to report. -/
inductive Stage
  | accepted
  | opened
  | failed (e : FrameError)
  | closed
  | panicked
  deriving DecidableEq

def Stage.underWay : Stage → Bool
  | .opened | .failed _ => true
  | _ => false

def Stage.over : Stage → Bool
  | .closed | .panicked => true
  | _ => false

structure Peer (S : Type) where
  stage : Stage
  conn : Connection
  log : List (Event S)

variable {S R : Type}

def Peer.new (c : Connection) : Peer S := ⟨.accepted, c, []⟩

/-- What was run goes into the session; the daemon's state is handed on. -/
def Peer.take (p : Peer S) (stage : Stage) (x : Ran S R) : Peer S × S :=
  (⟨stage, x.conn, p.log ++ x.log⟩, x.state)

def Daemon.stageAfter (d : Daemon S) : Except FrameError Unit → Stage
  | .ok () =>
    match d.session with
    | .oneShot => .closed
    | .persistent => .opened
  | .error e =>
    match d.session with
    | .oneShot => .failed e
    | .persistent => if endsQuietly e then .closed else .failed e

def Daemon.advance (d : Daemon S) (p : Peer S) (s : S) : Option (Peer S × S) :=
  match p.stage with
  | .accepted =>
    if d.auth.allows p.conn.peerUid d.usernameForUid then some ({ p with stage := .opened }, s)
    else some (p.take .closed (d.hooks.callReject s .auth p.conn))
  | .opened =>
    let x := d.dispatchOne s p.conn
    some (p.take (d.stageAfter x.result) x)
  | .failed e => some (p.take .closed (d.hooks.callError s (.frame e) p.conn))
  | .closed | .panicked => none

def Connection.behind (c : Connection) : Event S → Connection
  | .request before | .read before => { c with input := (readFrameBytes c.maxFrame before).2 }
  | .reply r => { c with output := r.after }
  | _ => c

/-- A step to `next` that panics behind the first `k` of its events. -/
def Peer.cut (p next : Peer S) (k : ℕ) : Peer S :=
  let events := (next.log.drop p.log.length).take k
  ⟨.panicked, events.foldl Connection.behind p.conn, p.log ++ events⟩

/-- Where a step to `next` leads that panics behind so many events, if at all. -/
def Peer.reached (p next : Peer S) : Option ℕ → Peer S
  | none => next
  | some k => p.cut next k

def Event.readsInput : Event S → Bool
  | .request _ | .read _ => true
  | _ => false

theorem foldl_behind_input (c : Connection) {events : List (Event S)}
    (h : ∀ ev ∈ events, ev.readsInput = false) :
    (events.foldl Connection.behind c).input = c.input := by
  induction events generalizing c with
  | nil => rfl
  | cons ev events ih =>
    rw [List.foldl_cons, ih _ fun e he => h e (List.mem_cons_of_mem _ he)]
    have hev := h ev List.mem_cons_self
    cases ev with
    | request before | read before => cases hev
    | reply r | execute cmd body | returned result | unknown name body | error e
    | reject reason => rfl

theorem Script.WriteOnly.reads_nothing {sc : Script S R} (h : sc.WriteOnly) {c : Connection}
    {ev : Event S} (hev : ev ∈ (sc.run c).log) : ev.readsInput = false := by
  induction sc generalizing c with
  | done state result => cases hev
  | reply msg next ih =>
    rcases List.mem_cons.mp hev with rfl | hrest
    · rfl
    · exact ih _ (h _) hrest
  | readJson decode next ih => exact h.elim

theorem ErrorHandler.WriteOnly.reject_reads_nothing {hooks : ErrorHandler S} (h : hooks.WriteOnly)
    {s : S} {reason : RejectReason} {c : Connection} {ev : Event S}
    (hev : ev ∈ (hooks.callReject s reason c).log) : ev.readsInput = false := by
  rcases List.mem_cons.mp hev with rfl | hrest
  · rfl
  · exact (h.reject s reason).reads_nothing hrest

theorem log_of_cut {p next : Peer S} (h : p.log <+: next.log) (k : ℕ) :
    (p.cut next k).log <+: next.log := by
  obtain ⟨log, hlog⟩ := h
  simp only [Peer.cut, ← hlog, List.drop_left]
  exact (List.prefix_append_right_inj _).mpr (List.take_prefix k log)

theorem cut_input {p next : Peer S} (k : ℕ)
    (h : ∀ ev ∈ next.log.drop p.log.length, ev.readsInput = false) :
    (p.cut next k).conn.input = p.conn.input :=
  foldl_behind_input p.conn fun ev hev => h ev (List.mem_of_mem_take hev)

theorem log_of_advance {d : Daemon S} {p : Peer S} {s : S} {x : Peer S × S}
    (h : d.advance p s = some x) : p.log <+: x.1.log := by
  obtain ⟨stage, c, log⟩ := p
  cases stage with
  | accepted =>
    simp only [Daemon.advance] at h
    split at h
    all_goals obtain rfl := Option.some.inj h
    · exact List.prefix_rfl
    · exact List.prefix_append _ _
  | opened | failed e =>
    obtain rfl := Option.some.inj h
    exact List.prefix_append _ _
  | closed | panicked => cases h

theorem stage_of_advance {d : Daemon S} {p : Peer S} {s : S} {x : Peer S × S}
    (h : d.advance p s = some x) : x.1.stage ≠ .panicked := by
  obtain ⟨stage, c, log⟩ := p
  cases stage with
  | accepted =>
    simp only [Daemon.advance] at h
    split at h
    all_goals
      obtain rfl := Option.some.inj h
      simp [Peer.take]
  | opened =>
    obtain rfl := Option.some.inj h
    simp only [Peer.take]
    unfold Daemon.stageAfter
    split <;> split <;> try split
    all_goals simp
  | failed e =>
    obtain rfl := Option.some.inj h
    simp [Peer.take]
  | closed | panicked => cases h

def alone (d : Daemon S) : TransitionSystem (Peer S × S) Unit where
  init x := ∃ c s, x = (.new c, s)
  step x _ := d.advance x.1 x.2

def Ends (d : Daemon S) (p : Peer S) (s : S) (y : Ran S Unit) : Prop :=
  ∃ n, (alone d).run (p, s) (List.replicate n ()) =
    some (⟨.closed, y.conn, p.log ++ y.log⟩, y.state)

theorem Ends.of_advance {d : Daemon S} {p : Peer S} {s : S} {stage : Stage} {x : Ran S R}
    {f : R → S → Connection → Ran S Unit}
    (hstep : d.advance p s = some (p.take stage x))
    (hrest : Ends d (p.take stage x).1 x.state (f x.result x.state x.conn)) :
    Ends d p s (x.andThen f) := by
  obtain ⟨n, hn⟩ := hrest
  refine ⟨n + 1, TransitionSystem.run_cons_eq_some.mpr ⟨_, hstep, ?_⟩⟩
  simpa [Peer.take, Ran.andThen] using hn

theorem ends_closed (d : Daemon S) (c : Connection) (log : List (Event S)) (s : S) :
    Ends d ⟨.closed, c, log⟩ s ⟨(), s, c, []⟩ := ⟨0, by simp⟩

theorem ends_failed (d : Daemon S) (e : FrameError) (c : Connection) (log : List (Event S))
    (s : S) : Ends d ⟨.failed e, c, log⟩ s (d.hooks.callError s (.frame e) c) := by
  have hstep : d.advance ⟨.failed e, c, log⟩ s = some ((⟨.failed e, c, log⟩ : Peer S).take .closed
      (d.hooks.callError s (.frame e) c)) := rfl
  have h := Ends.of_advance (f := fun _ s c => ⟨(), s, c, []⟩) hstep (ends_closed d _ _ _)
  simpa [Ran.andThen] using h

theorem ends_persistent {d : Daemon S} (hmode : d.session = .persistent) (s : S) (c : Connection)
    (log : List (Event S)) : Ends d ⟨.opened, c, log⟩ s (d.persistentLoop s c) := by
  induction hn : (bytes c.input).length using Nat.strongRecOn generalizing s c log with
  | ind n ih =>
    rw [persistentLoop_eq]
    apply Ends.of_advance rfl
    rcases hresult : (d.dispatchOne s c).result with e | _
    · simp only [Peer.take, Daemon.stageAfter, hmode]
      cases endsQuietly e with
      | true => exact ends_closed d _ _ _
      | false => exact ends_failed d e _ _ _
    · simp only [Peer.take, Daemon.stageAfter, hmode]
      exact ih _ (hn ▸ bytes_of_dispatchOne hresult) _ _ _ rfl

theorem ends_oneShot {d : Daemon S} (hmode : d.session = .oneShot) (s : S) (c : Connection)
    (log : List (Event S)) :
    Ends d ⟨.opened, c, log⟩ s ((d.dispatchOne s c).andThen fun
      | .ok (), s, c => ⟨(), s, c, []⟩
      | .error e, s, c => d.hooks.callError s (.frame e) c) := by
  apply Ends.of_advance rfl
  rcases hresult : (d.dispatchOne s c).result with e | _
  · simp only [Peer.take, Daemon.stageAfter, hmode]
    exact ends_failed d e _ _ _
  · simp only [Peer.take, Daemon.stageAfter, hmode]
    exact ends_closed d _ _ _

theorem ends_opened (d : Daemon S) (s : S) (c : Connection) (log : List (Event S)) :
    ∃ y, Ends d ⟨.opened, c, log⟩ s y ∧
      (d.auth.allows c.peerUid d.usernameForUid → d.handleConn s c = y) := by
  cases hmode : d.session with
  | oneShot =>
    refine ⟨_, ends_oneShot hmode s c log, fun hauth => ?_⟩
    rw [Daemon.handleConn, if_pos hauth]
    exact hmode ▸ rfl
  | persistent =>
    refine ⟨_, ends_persistent hmode s c log, fun hauth => ?_⟩
    simp only [Daemon.handleConn, hauth, if_true, hmode]

/-- The machine is `handle_conn` when nothing comes between its steps. -/
theorem ends_handleConn (d : Daemon S) (s : S) (c : Connection) (log : List (Event S)) :
    Ends d ⟨.accepted, c, log⟩ s (d.handleConn s c) := by
  by_cases hauth : d.auth.allows c.peerUid d.usernameForUid
  · obtain ⟨y, ⟨n, hn⟩, hy⟩ := ends_opened d s c log
    rw [hy hauth]
    refine ⟨n + 1, TransitionSystem.run_cons_eq_some.mpr ⟨(⟨.opened, c, log⟩, s), ?_, hn⟩⟩
    simp [alone, Daemon.advance, hauth]
  · rw [Daemon.handleConn, if_neg hauth]
    have hstep : d.advance ⟨.accepted, c, log⟩ s =
        some ((⟨.accepted, c, log⟩ : Peer S).take .closed (d.hooks.callReject s .auth c)) := by
      simp [Daemon.advance, hauth]
    have h := Ends.of_advance (f := fun _ s c => ⟨(), s, c, []⟩) hstep (ends_closed d _ _ _)
    simpa [Ran.andThen] using h

/-- The calls that the bytes of a stretch ask of a session, by policy and mode. -/
def Daemon.asked (d : Daemon S) (peerUid : Option ℕ) (maxFrame : ℕ) (fin : Ending)
    (bs : List UInt8) (s : S) (output : Writer) (others : List S) : List (Event S) :=
  if d.auth.allows peerUid d.usernameForUid then
    match d.session with
    | .oneShot => (d.reference maxFrame fin).expectedCall bs (others.headD s) output
    | .persistent => (d.reference maxFrame fin).expectedCalls bs s output others
  else [.reject .auth]

/-- What holds of a session whose steps have met these states of the daemon, the first at its
authentication. With the states that the requests met, the calls made are the front of those
asked for, and the rest of the bytes ask for the rest. -/
inductive Follows (d : Daemon S) (c : Connection) (q : Reader) (fin : Ending) (s₀ : S) :
    List S → Peer S → Prop
  | accepted : Follows d c q fin s₀ [] (.new c)
  | opened (c₁ : Connection) (log : List (Event S)) (q₁ : Reader) (first : S) (past : List S)
      (s₁ : S) (hauth : d.auth.allows c.peerUid d.usernameForUid) (hmax : c₁.maxFrame = c.maxFrame)
      (hmode : d.session = .persistent ∨ c₁ = c ∧ log = [] ∧ past = [])
      (hq₁ : Healthy q₁) (hinput : c₁.input = q₁ ++ fin.reader)
      (hcalls : ∀ future,
        d.asked c.peerUid c.maxFrame fin (bytes q) s₀ c.output (past ++ future) =
          calls log ++ d.asked c.peerUid c.maxFrame fin (bytes q₁) s₁ c₁.output future) :
      Follows d c q fin s₀ (first :: past) ⟨.opened, c₁, log⟩
  | failed (c₁ : Connection) (log : List (Event S)) (e : FrameError) (first : S) (past : List S)
      (hauth : d.auth.allows c.peerUid d.usernameForUid)
      (hcalls : ∀ future,
        d.asked c.peerUid c.maxFrame fin (bytes q) s₀ c.output (past ++ future) =
          calls log ++ [.error (.frame e)]) :
      Follows d c q fin s₀ (first :: past) ⟨.failed e, c₁, log⟩
  | closed (c₁ : Connection) (log : List (Event S)) (met : List S)
      (hdenied : d.auth.allows c.peerUid d.usernameForUid = false → c₁.input = c.input)
      (hcalls : d.asked c.peerUid c.maxFrame fin (bytes q) s₀ c.output met.tail = calls log) :
      Follows d c q fin s₀ met ⟨.closed, c₁, log⟩
  | panicked (c₁ : Connection) (log : List (Event S)) (met : List S)
      (hdenied : d.auth.allows c.peerUid d.usernameForUid = false → c₁.input = c.input)
      (hcalls : calls log <+: d.asked c.peerUid c.maxFrame fin (bytes q) s₀ c.output met.tail) :
      Follows d c q fin s₀ met ⟨.panicked, c₁, log⟩

variable {d : Daemon S} {c : Connection} {q : Reader} {fin : Ending} {s₀ : S} {met : List S}
  {p : Peer S}

/-- No call is made that the bytes do not ask for; at the end all of them were. -/
theorem Follows.calls (h : Follows d c q fin s₀ met p) :
    calls p.log <+: d.asked c.peerUid c.maxFrame fin (bytes q) s₀ c.output met.tail ∧
      (p.stage = .closed →
        calls p.log = d.asked c.peerUid c.maxFrame fin (bytes q) s₀ c.output met.tail) := by
  cases h with
  | accepted => exact ⟨List.nil_prefix, by simp [Peer.new]⟩
  | opened c₁ log q₁ first past s₁ hauth hmax hmode hq₁ hinput hcalls =>
    have hall := hcalls []
    rw [List.append_nil] at hall
    exact ⟨⟨_, hall.symm⟩, by simp⟩
  | failed c₁ log e first past hauth hcalls =>
    have hall := hcalls []
    rw [List.append_nil] at hall
    exact ⟨⟨_, hall.symm⟩, by simp⟩
  | closed c₁ log met hdenied hcalls => exact ⟨by rw [hcalls], fun _ => hcalls.symm⟩
  | panicked c₁ log met hdenied hcalls => exact ⟨hcalls, by simp⟩

theorem Follows.denied (h : Follows d c q fin s₀ met p)
    (hauth : d.auth.allows c.peerUid d.usernameForUid = false) : p.conn.input = c.input := by
  cases h with
  | accepted => rfl
  | opened c₁ log q₁ first past s₁ hallows => simp [hauth] at hallows
  | failed c₁ log e first past hallows => simp [hauth] at hallows
  | closed c₁ log met hdenied hcalls => exact hdenied hauth
  | panicked c₁ log met hdenied hcalls => exact hdenied hauth

theorem asked_oneShot (hd : d.WriteOnly) (hmode : d.session = .oneShot)
    (hauth : d.auth.allows c.peerUid d.usernameForUid) (hq : Healthy q)
    (hc : c.input = q ++ fin.reader) (s₀ s : S) (future : List S) :
    d.asked c.peerUid c.maxFrame fin (bytes q) s₀ c.output (s :: future) =
      Session.calls (d.dispatchOne s c).log ++
        match (d.dispatchOne s c).result with
        | .ok () => []
        | .error e => [.error (.frame e)] := by
  have h := calls_oneShot hd fin s c hq hc hmode hauth
  simp only [Daemon.handleConn, hauth, if_true, hmode, Ran.andThen] at h
  simp only [Daemon.asked, hauth, if_true, hmode, List.headD_cons]
  rcases hresult : (d.dispatchOne s c).result with e | _
  · simpa [hresult, ErrorHandler.callError, Ran.after] using h.symm
  · simpa [hresult] using h.symm

theorem Follows.advance (hd : d.WriteOnly) (hq : Healthy q) (hc : c.input = q ++ fin.reader)
    (h : Follows d c q fin s₀ met p) {s : S} {x : Peer S × S} (hstep : d.advance p s = some x) :
    Follows d c q fin s₀ (met ++ [s]) x.1 := by
  cases h with
  | accepted =>
    by_cases hauth : d.auth.allows c.peerUid d.usernameForUid
    · simp only [Daemon.advance, Peer.new, hauth, if_true, Option.some.injEq] at hstep
      subst hstep
      exact .opened c [] q s [] s₀ hauth rfl (.inr ⟨rfl, rfl, rfl⟩) hq hc fun _ => rfl
    · simp only [Daemon.advance, Peer.new, hauth, Bool.false_eq_true, if_false,
        Option.some.injEq] at hstep
      subst hstep
      refine .closed _ _ [s] (fun _ => (hd.hooks.reject s .auth).run_input c) ?_
      simp [Daemon.asked, hauth, ErrorHandler.callReject, Ran.after]
  | opened c₁ log q₁ first past s₁ hauth hmax hmode hq₁ hinput hcalls =>
    simp only [Daemon.advance, Option.some.injEq] at hstep
    subst hstep
    simp only [Peer.take, Daemon.stageAfter]
    cases hsession : d.session with
    | oneShot =>
      obtain ⟨rfl, rfl, rfl⟩ : c₁ = c ∧ log = [] ∧ past = [] := by simpa [hsession] using hmode
      have hall := asked_oneShot hd hsession hauth hq hc s₀ s
      rcases hresult : (d.dispatchOne s c₁).result with e | _
      · simp only [hresult] at hall
        exact .failed _ _ e first [s] hauth hall
      · simp only [hresult, List.append_nil] at hall
        exact .closed _ _ [first, s] (by simp [hauth]) (hall [])
    | persistent =>
      have hx : Dispatched d s c₁ (d.dispatchOne s c₁) := .of_dispatchOne d s c₁
      have hasked : d.asked c.peerUid c.maxFrame fin =
          (d.reference c₁.maxFrame fin).expectedCalls := by
        funext bs s output others
        simp [Daemon.asked, hauth, hsession, hmax]
      rw [hasked] at hcalls
      rcases hresult : (d.dispatchOne s c₁).result with e | _
      · have hlast (future : List S) :
            (d.reference c₁.maxFrame fin).expectedCalls (bytes q) s₀ c.output
                (past ++ s :: future) =
              Session.calls (log ++ (d.dispatchOne s c₁).log) ++
                if endsQuietly e then [] else [.error (.frame e)] := by
          have hfirst : (s :: future).headD s₁ = s := rfl
          rw [hcalls, hx.expected_error hd hresult hq₁ hinput hfirst, calls_append,
            List.append_assoc]
        cases hquiet : endsQuietly e with
        | true =>
          simp only [hquiet, if_true]
          refine .closed _ _ (first :: (past ++ [s])) (by simp [hauth]) ?_
          rw [hasked, List.tail_cons, hlast, hquiet, if_pos rfl, List.append_nil]
        | false =>
          simp only [hquiet, Bool.false_eq_true, if_false]
          refine .failed _ _ e first (past ++ [s]) hauth fun future => ?_
          rw [hasked, List.append_assoc, List.singleton_append, hlast, hquiet,
            if_neg Bool.false_ne_true]
      · obtain ⟨q₂, hq₂, hinput₂, hmore⟩ := hx.expected_ok hd hresult hq₁ hinput
        refine .opened _ _ q₂ first (past ++ [s]) (d.dispatchOne s c₁).state hauth
          (hx.conn_maxFrame.trans hmax) (.inl hsession) hq₂ hinput₂ fun future => ?_
        rw [hasked, List.append_assoc, List.singleton_append, hcalls,
          hmore s₁ (s :: future) rfl, calls_append, List.append_assoc, List.tail_cons]
  | failed c₁ log e first past hauth hcalls =>
    simp only [Daemon.advance, Option.some.injEq] at hstep
    subst hstep
    refine .closed _ _ (first :: (past ++ [s])) (by simp [hauth]) ?_
    simpa [ErrorHandler.callError, Ran.after] using hcalls [s]
  | closed | panicked => simp [Daemon.advance] at hstep

/-- A step that panics on the way. -/
theorem Follows.cut (hd : d.WriteOnly) (hq : Healthy q) (hc : c.input = q ++ fin.reader)
    (h : Follows d c q fin s₀ met p) {s : S} {x : Peer S × S} (hstep : d.advance p s = some x)
    (k : ℕ) : Follows d c q fin s₀ (met ++ [s]) (p.cut x.1 k) := by
  obtain ⟨hcalls, -⟩ := (h.advance hd hq hc hstep).calls
  have hlog := log_of_cut (log_of_advance hstep) k
  refine .panicked _ _ _ (fun hdenied => ?_) ((hlog.filter _).trans hcalls)
  cases h with
  | accepted =>
    simp only [Daemon.advance, Peer.new, hdenied, Bool.false_eq_true, if_false,
      Option.some.injEq] at hstep
    subst hstep
    exact cut_input (p := .new c) k fun ev hev => hd.hooks.reject_reads_nothing hev
  | opened c₁ log q₁ first past s₁ hauth => simp [hdenied] at hauth
  | failed c₁ log e first past hauth => simp [hdenied] at hauth
  | closed | panicked => cases hstep

end Session
end SharedDaemon
