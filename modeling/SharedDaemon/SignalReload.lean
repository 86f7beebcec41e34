import SharedDaemon.QuietWatch
import SharedDaemon.Reload

/-!
# Reloads by signal

`spawn_signal` only sends a `Reload` on a channel, and a hangup only sets a flag. The thread
that holds the receiver runs `try_reload` when it finds either; by then more may have come in,
and the file may have changed again.
-/

namespace SharedDaemon
namespace SignalReload

open StdIo StdPath Config TransitionSystem
open Reload (Setup)

/-- The thread with the receiver: it has nothing to do, has been told to reload, has the result
of its load in hand, or has dropped the receiver. -/
inductive Receiver (T : Type)
  | idle
  | due
  | loaded (result : Except ConfigError T)
  | gone
  deriving DecidableEq

/-- `past`, `reads` and `announced` only record: the states the file had before, every state
that a load read with its number, the latest first, and the number of the state in which
the daemon was last told of a change. -/
structure State (T : Type) where
  watch : Watch.State
  file : Except IoError String
  live : T
  channel : ℕ
  flag : Bool
  receiver : Receiver T
  past : List (Except IoError String)
  reads : List (ℕ × Except IoError String)
  announced : Option ℕ
  deriving DecidableEq

inductive Action
  | watch (a : Watch.Action)
  | change (next : Except IoError String) (e : Option Watch.Event)
  | hangup
  | recv
  | poll
  | load
  | replace
  | drop

variable {T : Type}

def State.history (s : State T) : List (Except IoError String) := s.past ++ [s.file]

def Receiver.ready : Receiver T → Bool
  | .idle | .due => true
  | .loaded _ | .gone => false

/-- The end of `fire_reload`; that `send` fails when the receiver is gone is ignored. -/
def State.fireReload (s : State T) : State T :=
  match s.receiver with
  | .gone => s
  | .idle | .due | .loaded _ => { s with channel := s.channel + 1 }

/-- A change of the file, with the event it raises, if it raises one. -/
def State.change (setup : Setup T) (s : State T) (next : Except IoError String) :
    Option Watch.Event → State T
  | none => { s with file := next, past := s.history }
  | some e =>
    { s with
      watch := { s.watch with kernel := s.watch.kernel ++ [.ok e] }
      file := next
      past := s.history
      announced :=
        if Watch.relevant setup.watch.specs e then some s.history.length else s.announced }

def step (setup : Setup T) (s : State T) : Action → Option (State T)
  | .watch .fired =>
    (Watch.step setup.watch s.watch .fired).map fun w => { s with watch := w }.fireReload
  | .watch a => (Watch.step setup.watch s.watch a).map fun w => { s with watch := w }
  | .change next e => some (s.change setup next e)
  | .hangup => some { s with flag := true, announced := some s.past.length }
  | .recv =>
    match s.channel with
    | 0 => none
    | n + 1 => if s.receiver.ready then some { s with channel := n, receiver := .due } else none
  | .poll =>
    if s.flag && s.receiver.ready then some { s with flag := false, receiver := .due } else none
  | .load =>
    match s.receiver with
    | .due =>
      some { s with
        receiver := .loaded (setup.source.load setup.codec s.file)
        reads := (s.past.length, s.file) :: s.reads }
    | _ => none
  | .replace =>
    match s.receiver with
    | .loaded result => some { s with live := (tryReload s.live result).1, receiver := .idle }
    | _ => none
  | .drop =>
    match s.receiver with
    | .idle => some { s with receiver := .gone }
    | _ => none

def start (setup : Setup T) (live : T) (file : Except IoError String) : State T :=
  ⟨Watch.initial setup.watch, file, live, 0, false, .idle, [], [], none⟩

def reloader (setup : Setup T) (live : T) (file : Except IoError String) :
    TransitionSystem (State T) Action where
  init s := s = start setup live file
  step := step setup

inductive Step (setup : Setup T) (s : State T) : Action → State T → Prop
  | watch (a : Watch.Action) (w : Watch.State) (ha : a ≠ .fired)
      (h : Watch.step setup.watch s.watch a = some w) :
      Step setup s (.watch a) { s with watch := w }
  | fired (w : Watch.State) (h : Watch.step setup.watch s.watch .fired = some w) :
      Step setup s (.watch .fired) { s with watch := w }.fireReload
  | change (next : Except IoError String) (e : Option Watch.Event) :
      Step setup s (.change next e) (s.change setup next e)
  | hangup : Step setup s .hangup { s with flag := true, announced := some s.past.length }
  | recv (n : ℕ) (hchannel : s.channel = n + 1) (hready : s.receiver.ready) :
      Step setup s .recv { s with channel := n, receiver := .due }
  | poll (hflag : s.flag) (hready : s.receiver.ready) :
      Step setup s .poll { s with flag := false, receiver := .due }
  | load (hdue : s.receiver = .due) :
      Step setup s .load { s with
        receiver := .loaded (setup.source.load setup.codec s.file)
        reads := (s.past.length, s.file) :: s.reads }
  | replace (result : Except ConfigError T) (hloaded : s.receiver = .loaded result) :
      Step setup s .replace { s with live := (tryReload s.live result).1, receiver := .idle }
  | drop (hidle : s.receiver = .idle) : Step setup s .drop { s with receiver := .gone }

variable {setup : Setup T} {init : T} {s t : State T} {a : Action}

theorem Step.of_step (h : step setup s a = some t) : Step setup s a t := by
  cases a with
  | watch a =>
    by_cases ha : a = .fired
    · subst ha
      obtain ⟨w, hw, rfl⟩ := Option.map_eq_some_iff.mp h
      exact .fired w hw
    · have hmap :
          (Watch.step setup.watch s.watch a).map (fun w => { s with watch := w }) = some t := by
        cases a <;> first | exact h | exact absurd rfl ha
      obtain ⟨w, hw, rfl⟩ := Option.map_eq_some_iff.mp hmap
      exact .watch a w ha hw
  | change next e =>
    obtain rfl := Option.some.inj h
    exact .change next e
  | hangup =>
    obtain rfl := Option.some.inj h
    exact .hangup
  | recv =>
    simp only [step] at h
    split at h
    · cases h
    · rename_i n hchannel
      simp only [Option.ite_none_right_eq_some] at h
      obtain ⟨hready, ht⟩ := h
      obtain rfl := Option.some.inj ht
      exact .recv n hchannel hready
  | poll =>
    simp only [step, Option.ite_none_right_eq_some, Bool.and_eq_true] at h
    obtain ⟨⟨hflag, hready⟩, ht⟩ := h
    obtain rfl := Option.some.inj ht
    exact .poll hflag hready
  | load | drop =>
    simp only [step] at h
    split at h
    · rename_i hguard
      obtain rfl := Option.some.inj h
      constructor
      exact hguard
    · cases h
  | replace =>
    simp only [step] at h
    split at h
    · rename_i result hloaded
      obtain rfl := Option.some.inj h
      exact .replace result hloaded
    · cases h

def State.settled (s : State T) : T :=
  match s.receiver with
  | .loaded result => (tryReload s.live result).1
  | _ => s.live

/-- The receiver is still there, and nothing is left for it or on the way to it. -/
structure State.Drained (s : State T) : Prop where
  kernel : s.watch.kernel = []
  queue : s.watch.queue = []
  pending : s.watch.pending = none
  returned : s.watch.pc ≠ .firing
  channel : s.channel = 0
  flag : s.flag = false
  receiver : s.receiver = .idle

/-- The receiver has been told to load, or will be. -/
def State.Told (setup : Setup T) (s : State T) : Prop :=
  s.watch.Triggered setup.watch ∨ s.watch.pc = .firing ∨ 0 < s.channel ∨ s.flag = true ∨
    s.receiver = .due

/-- The last load read the file as it was in state `v` or later. -/
def State.ReadSince (s : State T) (v : ℕ) : Prop :=
  ∃ r, s.reads.head? = some r ∧ v ≤ r.1

structure Tracked (setup : Setup T) (init : T) (s : State T) : Prop where
  settled : s.settled = setup.source.lastGood setup.codec init (s.reads.map Prod.snd)
  live : s.live = init ∨ ∃ got ∈ s.history, setup.source.load setup.codec got = .ok s.live
  reads : ∀ r ∈ s.reads, s.history[r.1]? = some r.2
  announced_le : ∀ v, s.announced = some v → v ≤ s.past.length
  heeded : ∀ v, s.announced = some v → s.ReadSince v ∨ s.receiver = .gone ∨ s.Told setup

theorem tracked_start (setup : Setup T) (live : T) (file : Except IoError String) :
    Tracked setup live (start setup live file) :=
  ⟨rfl, .inl rfl, by simp [start], by simp [start], by simp [start]⟩

theorem Tracked.watch (h : Tracked setup init s) {a : Watch.Action} {w : Watch.State}
    (ha : a ≠ .fired) (hstep : Watch.step setup.watch s.watch a = some w) :
    Tracked setup init { s with watch := w } := by
  refine ⟨h.settled, h.live, h.reads, h.announced_le, fun v hv => ?_⟩
  rcases h.heeded v hv with hread | hgone | htold
  · exact .inl hread
  · exact .inr (.inl hgone)
  · right; right
    rcases htold with htrig | hfiring | hrest
    · rcases Watch.triggered_step htrig hstep with ht | ⟨-, hfire⟩
      · exact .inl ht
      · exact .inr (.inl hfire)
    · exact .inr (.inl (Watch.firing_step hfiring ha hstep))
    · exact .inr (.inr hrest)

theorem fireReload_of_gone (h : s.receiver = .gone) : s.fireReload = s := by
  simp [State.fireReload, h]

theorem fireReload_of_ne (h : s.receiver ≠ .gone) :
    s.fireReload = { s with channel := s.channel + 1 } := by
  cases hreceiver : s.receiver with
  | gone => exact absurd hreceiver h
  | idle | due | loaded => simp [State.fireReload, hreceiver]

/-- A reload that is fired is on the channel, unless nobody listens. -/
theorem Tracked.fired (h : Tracked setup init s) (w : Watch.State) :
    Tracked setup init { s with watch := w }.fireReload := by
  by_cases hgone : s.receiver = .gone
  · rw [fireReload_of_gone (s := { s with watch := w }) hgone]
    exact ⟨h.settled, h.live, h.reads, h.announced_le, fun v hv => .inr (.inl hgone)⟩
  · rw [fireReload_of_ne (s := { s with watch := w }) hgone]
    refine ⟨h.settled, h.live, h.reads, h.announced_le, fun v hv => ?_⟩
    exact .inr (.inr (.inr (.inr (.inl (Nat.succ_pos _)))))

theorem history_change (setup : Setup T) (s : State T) (next : Except IoError String)
    (e : Option Watch.Event) : (s.change setup next e).history = s.history ++ [next] := by
  cases e <;> rfl

theorem length_history (s : State T) : s.history.length = s.past.length + 1 := by
  simp [State.history]

theorem Tracked.change (h : Tracked setup init s) (next : Except IoError String)
    (e : Option Watch.Event) : Tracked setup init (s.change setup next e) := by
  have hsettled : (s.change setup next e).settled = s.settled := by cases e <;> rfl
  have hlive : (s.change setup next e).live = s.live := by cases e <;> rfl
  have hreads : (s.change setup next e).reads = s.reads := by cases e <;> rfl
  refine ⟨by rw [hsettled, hreads, h.settled], ?_, ?_, ?_, ?_⟩
  · rw [hlive, history_change]
    rcases h.live with hinit | ⟨got, hgot, hload⟩
    · exact .inl hinit
    · exact .inr ⟨got, by simp [hgot], hload⟩
  · intro r hr
    rw [hreads] at hr
    have hget := h.reads r hr
    obtain ⟨hlt, -⟩ := List.getElem?_eq_some_iff.mp hget
    rw [history_change, List.getElem?_append_left hlt, hget]
  · intro v hv
    cases e with
    | none => exact Nat.le_trans (h.announced_le v hv) (by simp [State.change, State.history])
    | some e =>
      simp only [State.change] at hv ⊢
      split at hv
      · exact Nat.le_of_eq (Option.some.inj hv).symm
      · exact Nat.le_trans (h.announced_le v hv) (by simp [State.history])
  · intro v hv
    cases e with
    | none => exact h.heeded v hv
    | some e =>
      simp only [State.change] at hv
      split at hv
      · rename_i hrel
        exact .inr (.inr (.inl (.inl ⟨e, by simp [State.change], hrel⟩)))
      · rcases h.heeded v hv with hread | hgone | (⟨f, hf, hrel⟩ | hpending) | hrest
        · exact .inl hread
        · exact .inr (.inl hgone)
        · refine .inr (.inr (.inl (.inl ⟨f, ?_, hrel⟩)))
          simp only [State.change, List.mem_append] at hf ⊢
          tauto
        · exact .inr (.inr (.inl (.inr hpending)))
        · exact .inr (.inr (.inr hrest))

theorem Tracked.load (h : Tracked setup init s) (hdue : s.receiver = .due) :
    Tracked setup init { s with
      receiver := .loaded (setup.source.load setup.codec s.file)
      reads := (s.past.length, s.file) :: s.reads } := by
  refine ⟨?_, h.live, ?_, h.announced_le, fun v hv => ?_⟩
  · have hsettled := h.settled
    simp only [State.settled, hdue] at hsettled
    simp [State.settled, readOnly_lastGood_cons, hsettled]
  · intro r hr
    rcases List.mem_cons.mp hr with rfl | hr
    · simp [State.history]
    · exact h.reads r hr
  · exact .inl ⟨_, rfl, h.announced_le v hv⟩

theorem Tracked.replace (h : Tracked setup init s) {result : Except ConfigError T}
    (hloaded : s.receiver = .loaded result) :
    Tracked setup init { s with live := (tryReload s.live result).1, receiver := .idle } := by
  have hsettled := h.settled
  simp only [State.settled, hloaded] at hsettled
  refine ⟨hsettled, ?_, h.reads, h.announced_le, fun v hv => ?_⟩
  · rcases readOnly_lastGood_origin setup.source setup.codec init (s.reads.map Prod.snd) with
      hinit | hgot
    · exact .inl (hsettled.trans hinit)
    · obtain ⟨got, hmem, hload⟩ := hgot
      obtain ⟨r, hr, rfl⟩ := List.mem_map.mp hmem
      exact .inr ⟨r.2, List.mem_of_getElem? (h.reads r hr), by rw [hload, ← hsettled]⟩
  · rcases h.heeded v hv with hread | hgone | htrig | hfiring | hchannel | hflag | hdue
    · exact .inl hread
    · simp [hloaded] at hgone
    · exact .inr (.inr (.inl htrig))
    · exact .inr (.inr (.inr (.inl hfiring)))
    · exact .inr (.inr (.inr (.inr (.inl hchannel))))
    · exact .inr (.inr (.inr (.inr (.inr (.inl hflag)))))
    · simp [hloaded] at hdue

theorem settled_of_ready (h : s.receiver.ready) : s.settled = s.live := by
  cases hreceiver : s.receiver <;> simp [State.settled, Receiver.ready, hreceiver] at h ⊢

theorem tracked_step (h : Tracked setup init s) (hstep : step setup s a = some t) :
    Tracked setup init t := by
  cases Step.of_step hstep with
  | watch a w ha hw => exact h.watch ha hw
  | fired w hw => exact h.fired w
  | change next e => exact h.change next e
  | hangup =>
    refine ⟨h.settled, h.live, h.reads, fun v hv => ?_, fun v hv => ?_⟩
    · exact Nat.le_of_eq (Option.some.inj hv).symm
    · exact .inr (.inr (.inr (.inr (.inr (.inl rfl)))))
  | recv n hchannel hready =>
    have hsettled := h.settled
    rw [settled_of_ready hready] at hsettled
    exact ⟨hsettled, h.live, h.reads, h.announced_le,
      fun v hv => .inr (.inr (.inr (.inr (.inr (.inr rfl)))))⟩
  | poll hflag hready =>
    have hsettled := h.settled
    rw [settled_of_ready hready] at hsettled
    exact ⟨hsettled, h.live, h.reads, h.announced_le,
      fun v hv => .inr (.inr (.inr (.inr (.inr (.inr rfl)))))⟩
  | load hdue => exact h.load hdue
  | replace result hloaded => exact h.replace hloaded
  | drop hidle =>
    have hsettled := h.settled
    simp only [State.settled, hidle] at hsettled
    exact ⟨hsettled, h.live, h.reads, h.announced_le, fun v hv => .inr (.inl rfl)⟩

theorem tracked_reachable {file : Except IoError String}
    (hs : (reloader setup init file).Reachable s) : Tracked setup init s := by
  refine hs.invariant (I := Tracked setup init) ?_ fun _ _ _ h _ hstep => tracked_step h hstep
  rintro s rfl
  exact tracked_start setup init file

/-- The live value always comes from a state the file had. Once all signals are drained, the
last load has read the file no earlier than in the state that was last announced, by an event
or by a hangup, and its result is in place; if that was the last change, it read the file as
it is. -/
theorem signal_reload_converges (setup : Setup T) (init : T) (file : Except IoError String)
    (s : State T) (hs : (reloader setup init file).Reachable s) :
    (s.live = init ∨ ∃ got ∈ s.history, setup.source.load setup.codec got = .ok s.live) ∧
      ∀ v, s.announced = some v → s.Drained →
        ∃ w got earlier, s.reads = (w, got) :: earlier ∧ v ≤ w ∧ s.history[w]? = some got ∧
          (v = s.past.length → got = s.file) ∧
          (∀ value, setup.source.load setup.codec got = .ok value → s.live = value) ∧
          ∀ e, setup.source.load setup.codec got = .error e →
            s.live = setup.source.lastGood setup.codec init (earlier.map Prod.snd) := by
  have h := tracked_reachable hs
  refine ⟨h.live, fun v hv hdrained => ?_⟩
  have htold : ¬ s.Told setup := by
    rintro ((⟨e, he, -⟩ | hpending) | hfiring | hchannel | hflag | hdue)
    · simp [hdrained.kernel, hdrained.queue] at he
    · simp [hdrained.pending] at hpending
    · exact hdrained.returned hfiring
    · simp [hdrained.channel] at hchannel
    · simp [hdrained.flag] at hflag
    · simp [hdrained.receiver] at hdue
  have hgone : s.receiver ≠ .gone := by simp [hdrained.receiver]
  obtain ⟨⟨w, got⟩, hhead, hle⟩ := (h.heeded v hv).resolve_right (by tauto)
  obtain ⟨earlier, hreads⟩ := List.head?_eq_some_iff.mp hhead
  have hget : s.history[w]? = some got := h.reads (w, got) (by simp [hreads])
  refine ⟨w, got, earlier, hreads, hle, hget, ?_, ?_⟩
  · rintro rfl
    obtain ⟨hlt, -⟩ := List.getElem?_eq_some_iff.mp hget
    have hw : w = s.past.length := by
      rw [length_history] at hlt
      exact Nat.le_antisymm (Nat.le_of_lt_succ hlt) hle
    simpa [hw, State.history] using hget.symm
  · have hsettled := h.settled
    rw [hreads] at hsettled
    simp only [State.settled, hdrained.receiver] at hsettled
    exact lastGood_cons_cases hsettled

/-- The change after the signal raises no event, and a hangup tells of it. -/
def hungUp : List Action :=
  [.watch (.startup Reload.dirsThere), .watch .loopTop, .change (.ok "") (some Reload.written),
    .watch .deliver, .watch (.recv Reload.dirsThere 0 0), .watch .loopTop, .watch (.tick 300),
    .watch (.timeout Reload.dirsThere 0 0), .watch .fired, .change (.ok "true\n") none, .hangup, .recv,
    .poll, .load, .replace]

def reloaded : State Bool :=
  ⟨⟨.top, [true], none, false, 300, [], []⟩, .ok "true\n", true, 0, false, .idle,
    [.ok "false\n", .ok ""], [(2, .ok "true\n")], some 2⟩

theorem run_hungUp :
    (reloader Reload.boolSetup false (.ok "false\n")).run
      (start Reload.boolSetup false (.ok "false\n"))
      hungUp = some reloaded := by decide +kernel

theorem signal_reload_converges_hungUp :
    ∃ w got earlier, reloaded.reads = (w, got) :: earlier ∧ 2 ≤ w ∧
      reloaded.history[w]? = some got ∧ (2 = reloaded.past.length → got = reloaded.file) ∧
      (∀ value, Reload.boolSetup.source.load Reload.boolSetup.codec got = .ok value →
        reloaded.live = value) ∧
      ∀ e, Reload.boolSetup.source.load Reload.boolSetup.codec got = .error e →
        reloaded.live =
          Reload.boolSetup.source.lastGood Reload.boolSetup.codec false (earlier.map Prod.snd) :=
  (signal_reload_converges Reload.boolSetup false (.ok "false\n") reloaded
    (.run (.init rfl) (fun _ _ _ => trivial) run_hungUp)).2 2 rfl
      ⟨rfl, rfl, rfl, by decide, rfl, rfl, rfl⟩

def Receiver.loads : Receiver T → ℕ
  | .due => 1
  | _ => 0

/-- How many more loads there may be if nothing else happens. -/
def State.fuel (setup : Setup T) (s : State T) : ℕ :=
  s.watch.pc.fires + s.watch.fuel setup.watch + s.channel + s.flag.toNat + s.receiver.loads

def Action.loads : Action → ℕ
  | .load => 1
  | _ => 0

def Action.gain (setup : Setup T) : Action → ℕ
  | .watch a => a.raisesRelevant setup.watch.specs
  | .change _ (some e) => if Watch.relevant setup.watch.specs e then 1 else 0
  | .hangup => 1
  | _ => 0

theorem fuel_step (hstep : step setup s a = some t) :
    a.loads + t.fuel setup ≤ s.fuel setup + a.gain setup := by
  cases Step.of_step hstep with
  | watch a w ha hw =>
    have hpaid := Watch.fuel_step hw
    simp only [State.fuel, Action.loads, Action.gain]
    omega
  | fired w hw =>
    have hpaid := Watch.fuel_step hw
    simp only [Watch.Action.reloads] at hpaid
    by_cases hgone : s.receiver = .gone
    · rw [fireReload_of_gone (s := { s with watch := w }) hgone]
      simp only [State.fuel, Action.loads, Action.gain]
      omega
    · rw [fireReload_of_ne (s := { s with watch := w }) hgone]
      simp only [State.fuel, Action.loads, Action.gain]
      omega
  | change next e =>
    cases e with
    | none => exact Nat.le_of_eq (by simp [State.change, State.fuel, Action.loads, Action.gain])
    | some e =>
      cases hrel : Watch.relevant setup.watch.specs e with
      | true =>
        simp [State.change, State.fuel, Watch.State.fuel, Action.loads, Action.gain,
          Watch.relevantItem, hrel]
        omega
      | false =>
        simp [State.change, State.fuel, Watch.State.fuel, Action.loads, Action.gain,
          Watch.relevantItem, hrel]
  | hangup =>
    simp only [State.fuel, Action.loads, Action.gain, Bool.toNat_true]
    omega
  | recv n hchannel hready =>
    simp only [State.fuel, Action.loads, Action.gain, Receiver.loads, hchannel]
    omega
  | poll hflag hready =>
    simp only [State.fuel, Action.loads, Action.gain, Receiver.loads, hflag, Bool.toNat_true,
      Bool.toNat_false]
    omega
  | load hdue =>
    simp only [State.fuel, Action.loads, Action.gain, Receiver.loads, hdue]
    omega
  | replace result hloaded =>
    simp [State.fuel, Action.loads, Action.gain, Receiver.loads, hloaded]
  | drop hidle => simp [State.fuel, Action.loads, Action.gain, Receiver.loads, hidle]

/-- Signals coalesce and none is made up: in any run there are at most as many loads as there
were signals, relevant events and specs to attach at its start, and relevant events and
hangups since. -/
theorem loads_bounded (setup : Setup T) (init : T) (file : Except IoError String) (s t : State T)
    (as : List Action) (hrun : (reloader setup init file).run s as = some t) :
    (as.map Action.loads).sum + t.fuel setup ≤
      s.fuel setup + (as.map (Action.gain setup)).sum := by
  rw [← spent_eq_sum Action.loads hrun]
  exact spent_le_of_potential (I := fun _ => True) (fun _ => Action.loads) (Action.gain setup)
    (State.fuel setup) (fun _ _ _ _ _ hstep => ⟨trivial, fuel_step hstep⟩) trivial hrun

theorem loads_bounded_hungUp :
    (hungUp.map Action.loads).sum + reloaded.fuel Reload.boolSetup ≤
      (start Reload.boolSetup false (.ok "false\n")).fuel Reload.boolSetup +
        (hungUp.map (Action.gain Reload.boolSetup)).sum :=
  loads_bounded Reload.boolSetup false (.ok "false\n") _ _ hungUp run_hungUp

end SignalReload
end SharedDaemon
