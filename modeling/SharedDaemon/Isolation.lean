import SharedDaemon.Server

/-!
# Connections kept apart

What the server does for one connection is decided by its own bytes and the states its session
meets, however the sessions are interleaved.
-/

namespace SharedDaemon
namespace Server

open Session StdIo StdPath SharedDaemon.Frame

variable {S : Type} {srv : Server S} {streams : ℕ → Stream} {st st' : State S}

/-- The states in which the steps of a connection's session have found the daemon. -/
def met (acts : List (Action S)) (n : ℕ) : List S :=
  acts.filterMap fun
    | .serve _ m s | .panic _ m s _ => if m = n then some s else none
    | _ => none

/-- How a connection has fared, from the stretch of bytes it came with and the states that its
session met. -/
inductive Fate (srv : Server S) (control : AcceptLoop.State) (n : ℕ) (c : Connection) (q : Reader)
    (fin : Ending) (s₀ : S) : List S → Peer S → Prop
  | untouched : Fate srv control n c q fin s₀ [] (.new c)
  | rejected (states : List S) (p : Peer S) (hn : n ∈ control.rejected)
      (hcalls : calls p.log <+: [.reject .busy])
      (hclosed : p.stage = .closed → calls p.log = [.reject .busy])
      (hinput : p.conn.input = c.input) : Fate srv control n c q fin s₀ states p
  | served (states : List S) (p : Peer S) (hn : n ∉ control.rejected)
      (h : Follows srv.daemon c q fin s₀ states p) : Fate srv control n c q fin s₀ states p

section
variable {control : AcceptLoop.State} {n : ℕ} {c : Connection} {q : Reader} {fin : Ending}
  {s₀ : S} {states : List S} {p : Peer S}

theorem Fate.of_rejected {control' : AcceptLoop.State}
    (h : Fate srv control n c q fin s₀ states p)
    (hr : n ∈ control'.rejected ↔ n ∈ control.rejected) :
    Fate srv control' n c q fin s₀ states p := by
  cases h with
  | untouched => exact .untouched
  | rejected states p hn hcalls hclosed hinput =>
    exact .rejected states p (hr.mpr hn) hcalls hclosed hinput
  | served states p hn h => exact .served states p (fun hn' => hn (hr.mp hn')) h

theorem Fate.follows (h : Fate srv control n c q fin s₀ states p) (hn : n ∉ control.rejected) :
    Follows srv.daemon c q fin s₀ states p := by
  cases h with
  | untouched => exact .accepted
  | rejected states p hn' => exact absurd hn' hn
  | served states p _ h => exact h

/-- A peer that is turned away, also where its hook panics. -/
theorem Fate.of_busy (hd : srv.daemon.WriteOnly) (hn : n ∈ control.rejected) (s : S)
    (panics : Option ℕ) :
    Fate srv control n c q fin s₀ states ((Peer.new c).reached
      ((Peer.new c).take .closed (srv.daemon.hooks.callReject s .busy c)).1 panics) := by
  have hcalls : calls (srv.daemon.hooks.callReject s .busy c).log = [.reject .busy] := by
    simp [ErrorHandler.callReject, Ran.after]
  have hinput : (srv.daemon.hooks.callReject s .busy c).conn.input = c.input :=
    (hd.hooks.reject s .busy).run_input c
  cases panics with
  | none => exact .rejected _ _ hn (by rw [← hcalls]; rfl) (fun _ => hcalls) hinput
  | some k =>
    refine .rejected _ _ hn ?_ (by simp [Peer.reached, Peer.cut])
      (cut_input (p := .new c) k fun ev hev => hd.hooks.reject_reads_nothing hev)
    rw [← hcalls]
    exact (log_of_cut (p := .new c) List.nil_prefix k).filter _

end

def Apart (srv : Server S) (streams : ℕ → Stream) (acts : List (Action S)) (st : State S) : Prop :=
  ∀ n q fin s₀, Healthy q → (streams n).input = q ++ Ending.reader fin →
    Fate srv st.control n (srv.conn streams n) q fin s₀ (met acts n) (st.peers n)

theorem apart_step {acts : List (Action S)} {a : Action S} (hd : srv.daemon.WriteOnly)
    (hpaired : Paired srv streams st) (h : Apart srv streams acts st)
    (hstep : srv.step st a = some st') : Apart srv streams (acts ++ [a]) st' := by
  intro n q fin s₀ hq hin
  have hfate := h n q fin s₀ hq hin
  cases Step.of_step hstep with
  | control a control ha hcontrol =>
    obtain ⟨hr, -⟩ := AcceptLoop.separate_step ha hcontrol
    simpa [met] using hfate.of_rejected (by rw [hr])
  | reject m s panics hacc =>
    by_cases hn : n = m
    · subst hn
      have hnone := hpaired.exclusive.undecided n
        (.inr (by simp [hacc, AcceptLoop.Acceptor.inHand]))
      simp only [Function.update_self, hpaired.untouched n hnone]
      exact .of_busy hd (by simp) s panics
    · simp only [Function.update_of_ne hn]
      simpa [met] using hfate.of_rejected (by simp [hn])
  | serve i m s x hw hx =>
    by_cases hn : n = m
    · subst hn
      have hserved := hpaired.exclusive.not_rejected (List.mem_of_getElem? hw)
      have hnow := (hfate.follows hserved).advance hd hq hin hx
      simpa [met] using Fate.served _ _ hserved hnow
    · simpa [met, hn, Ne.symm hn] using hfate
  | panic i m s x k control hw hx hcontrol =>
    have hr := (AcceptLoop.advance_counts hcontrol).2.2.2.1
    by_cases hn : n = m
    · subst hn
      have hserved := hpaired.exclusive.not_rejected (List.mem_of_getElem? hw)
      have hnow := (hfate.follows hserved).cut hd hq hin hx k
      rw [← hr] at hserved
      simpa [met] using Fate.served _ _ hserved hnow
    · simpa [met, hn, Ne.symm hn] using hfate.of_rejected (by rw [hr])
  | finish i w control hw hclosed hcontrol =>
    have hr := (AcceptLoop.advance_counts hcontrol).2.2.2.1
    simpa [met] using hfate.of_rejected (by rw [hr])

theorem apart_run (hd : srv.daemon.WriteOnly) {acts : List (Action S)}
    (hrun : (srv.system streams).run (srv.start streams) acts = some st) :
    Apart srv streams acts st := by
  have hboth : Paired srv streams st ∧ Apart srv streams acts st := by
    refine TransitionSystem.run_history
      (I := fun acts st => Paired srv streams st ∧ Apart srv streams acts st) ?_ ?_ hrun
    · intro past st a st' hI hstep
      exact ⟨paired_step hI.1 hstep, apart_step hd hI.1 hI.2 hstep⟩
    · exact ⟨paired_reachable (.init rfl), fun _ _ _ _ _ _ => .untouched⟩
  exact hboth.2

/-- What the server is asked to do for a connection with this stretch of bytes, whose requests
find these states. -/
def asked (srv : Server S) (rejected : List ℕ) (streams : ℕ → Stream) (n : ℕ) (fin : Ending)
    (bs : List UInt8) (s₀ : S) (others : List S) : List (Event S) :=
  if n ∈ rejected then [.reject .busy]
  else srv.daemon.asked (streams n).peerUid srv.maxFrame fin bs s₀ (streams n).output others

/-- Whatever the interleaving of its connections, the server makes for each one the calls that
its own bytes ask for in the states it meets, in order, and in the end all of them; one that
is turned away is told so and not read from; and no more sessions are under way than the cap
allows. Panics included. -/
theorem connections_kept_apart (srv : Server S) (hd : srv.daemon.WriteOnly) (streams : ℕ → Stream)
    (acts : List (Action S)) (st : State S)
    (hrun : (srv.system streams).run (srv.start streams) acts = some st) :
    (∀ n q fin s₀, Healthy q → (streams n).input = q ++ Ending.reader fin →
      let p := st.peers n
      let expected := srv.asked st.control.rejected streams n fin (bytes q) s₀ (met acts n).tail
      calls p.log <+: expected ∧ (p.stage = .closed → calls p.log = expected) ∧
        (n ∈ st.control.rejected ∨
            srv.daemon.auth.allows (streams n).peerUid srv.daemon.usernameForUid = false →
          p.conn.input = (streams n).input)) ∧
      ∀ m, srv.maxClients = some m → ∀ ns : List ℕ, ns.Nodup →
        (∀ n ∈ ns, (st.peers n).stage.underWay) → ns.length ≤ m.val := by
  have hreach : (srv.system streams).Reachable st := .run (.init rfl) (fun _ _ _ => trivial) hrun
  refine ⟨fun n q fin s₀ hq hin => ?_, sessions_under_way_le_cap srv streams st hreach⟩
  have hfate := apart_run hd hrun n q fin s₀ hq hin
  simp only [asked]
  generalize met acts n = states at hfate ⊢
  generalize st.peers n = p at hfate ⊢
  cases hfate with
  | untouched => exact ⟨List.nil_prefix, by simp [Peer.new], fun _ => rfl⟩
  | rejected states p hn hcalls hclosed hinput =>
    rw [if_pos hn]
    exact ⟨hcalls, hclosed, fun _ => hinput⟩
  | served states p hn hfollows =>
    rw [if_neg hn]
    exact ⟨hfollows.calls.1, hfollows.calls.2, fun hor => hfollows.denied (hor.resolve_left hn)⟩

def greet : Command ℕ :=
  ⟨"greet", fun n _ => .reply (.ok (ofString (toString n))) fun _ => .done (n + 1) (.ok ())⟩

/-- Greets root and nobody else, one request a connection. -/
def greeter : Daemon ℕ where
  router := Router.new.addEach [greet]
  hooks := ⟨fun n _ _ => .done n (), fun n _ => .done n (),
    fun n _ => .reply (.ok (ofString "null")) fun _ => .done n ()⟩
  auth := .peerUid 0 []
  session := .oneShot
  fromSlice := parseRequest ["greet"]
  usernameForUid := fun _ => none

theorem greeter_writeOnly : greeter.WriteOnly := by
  refine ⟨fun name cmd h s body => ?_,
    ⟨fun _ _ _ => trivial, fun _ _ => trivial, fun _ _ => fun _ => trivial⟩⟩
  rw [greeter, get_new] at h
  have hmem := List.mem_of_find?_eq_some h
  obtain rfl : cmd = greet := by simpa using hmem
  exact fun _ => trivial

def visit : Reader := unread (LengthPrefix.frame headerLen (requestBytes "greet")) []

/-- Root, a guest, and then root again and again, all with the same request. -/
def visitors (n : ℕ) : Stream := ⟨some (if n = 1 then 7 else 0), visit, ⟨[], []⟩⟩

def guestbook : Server ℕ := ⟨greeter, some 2, 16⟩

/-- One is greeted, the guest is denied, a third finds the server busy, and in a fourth visit
the greeting panics. -/
def fourVisits : List (Action ℕ) :=
  [.control .accept, .control .checkCap, .control .fetchAdd, .control (.spawn true),
    .control .accept, .control .checkCap, .control .fetchAdd, .control (.spawn true),
    .control .accept, .control .checkCap, .control (.start 1), .control (.start 0), .serve 0 0 5,
    .serve 1 1 5, .reject 5 none, .serve 0 0 9, .finish 1, .control (.fetchSub 1),
    .control .accept, .control .checkCap, .control .fetchAdd, .control (.spawn true),
    .control (.start 2), .serve 2 3 10, .panic 2 3 10 2]

def greeting : Event ℕ := .execute greet (.object [("type", .string "greet")])

theorem asked_greeter (fin : Ending) (s₀ : ℕ) (others : List ℕ) :
    greeter.asked (some 0) 16 fin (bytes visit) s₀ ⟨[], []⟩ others = [greeting] := by
  have hlen : (requestBytes "greet").length = 16 := by decide +kernel
  have hbytes : bytes visit = LengthPrefix.frame headerLen (requestBytes "greet") ++ [] := by
    simp [visit]
  have hparse : LengthPrefix.parse headerLen 16 (bytes visit) =
      .frame (requestBytes "greet") [] := by
    rw [hbytes]
    exact LengthPrefix.parse_frame_append [] hlen.le (by rw [hlen]; decide)
  have hfrom : parseRequest ["greet"] (requestBytes "greet") =
      .ok (.object [("type", .string "greet")]) := parseRequest_requestBytes (by simp)
  change (greeter.reference 16 fin).expectedCall (bytes visit) (others.headD s₀) ⟨[], []⟩ = _
  simp only [Reference.expectedCall, Daemon.reference, greeter, hparse, hfrom]
  rfl

theorem connections_kept_apart_visitors :
    ∃ st, (guestbook.system visitors).run (guestbook.start visitors) fourVisits = some st ∧
      calls (st.peers 0).log = [greeting] ∧
      calls (st.peers 1).log = [.reject .auth] ∧ (st.peers 1).conn.input = visit ∧
      calls (st.peers 2).log = [.reject .busy] ∧ (st.peers 2).conn.input = visit ∧
      (st.peers 3).stage = .panicked ∧ calls (st.peers 3).log <+: [greeting] := by
  have hrun : ((guestbook.system visitors).run (guestbook.start visitors) fourVisits).map
      (fun st => (st.control.rejected, [0, 1, 2, 3].map fun n => (st.peers n).stage)) =
      some ([2], [.closed, .closed, .closed, .panicked]) := by
    decide +kernel
  obtain ⟨st, hst, hfacts⟩ := Option.map_eq_some_iff.mp hrun
  obtain ⟨hrejected, hstages⟩ := Prod.mk.inj hfacts
  obtain ⟨h₀, h₁, h₂, h₃⟩ : (st.peers 0).stage = .closed ∧ (st.peers 1).stage = .closed ∧
      (st.peers 2).stage = .closed ∧ (st.peers 3).stage = .panicked := by simpa using hstages
  obtain ⟨h, -⟩ := connections_kept_apart guestbook greeter_writeOnly visitors fourVisits st hst
  have hpeer (n : ℕ) := h n visit .eof 0 (by simp [visit, healthy_unread])
    (List.append_nil _).symm
  simp only [hrejected, asked] at hpeer
  obtain ⟨-, hcalls₀, -⟩ := hpeer 0
  obtain ⟨-, hcalls₁, hinput₁⟩ := hpeer 1
  obtain ⟨-, hcalls₂, hinput₂⟩ := hpeer 2
  obtain ⟨hcalls₃, -⟩ := hpeer 3
  have hgreeted : calls (st.peers 0).log = [greeting] :=
    (hcalls₀ h₀).trans (asked_greeter .eof 0 (met fourVisits 0).tail)
  have hbroken : calls (st.peers 3).log <+: [greeting] := by
    rw [← asked_greeter .eof 0 (met fourVisits 3).tail]
    exact hcalls₃
  exact ⟨st, hst, hgreeted, hcalls₁ h₁, hinput₁ (.inr rfl), hcalls₂ h₂, hinput₂ (.inl (by simp)),
    h₃, hbroken⟩

end Server
end SharedDaemon
