import SharedDaemon.FrameBoundary
import SharedDaemon.Session

/-!
# Requests and frame boundaries

The commands here may read further frames and pass a failed read on. Such a failure can
leave the stream inside a frame, and the session reads its next request from there.
-/

namespace SharedDaemon
namespace Session

open StdIo StdPath SharedDaemon.Frame LengthPrefix

variable {S R : Type}

def Event.start? : Event S → Option Reader
  | .request r | .read r => some r
  | _ => none

/-- The body handed to a command or to the hook for unknown ones. -/
def Event.body? : Event S → Option Value
  | .execute _ body | .unknown _ body => some body
  | _ => none

def Event.StopsInside (maxFrame : ℕ) (ev : Event S) : Prop :=
  ∃ r, ev.start? = some r ∧ stopsInside maxFrame r

@[simp] theorem stopsInside_request (maxFrame : ℕ) (r : Reader) :
    (Event.request r : Event S).StopsInside maxFrame ↔ stopsInside maxFrame r := by
  simp [Event.StopsInside, Event.start?]

@[simp] theorem stopsInside_read (maxFrame : ℕ) (r : Reader) :
    (Event.read r : Event S).StopsInside maxFrame ↔ stopsInside maxFrame r := by
  simp [Event.StopsInside, Event.start?]

theorem not_stopsInside {ev : Event S} (maxFrame : ℕ) (h : ev.start? = none) :
    ¬ ev.StopsInside maxFrame := by
  simp [Event.StopsInside, h]

/-- A session that keeps to the frames of its peer: headers are read at their boundaries
only, bodies are decoded from their payloads, and none is handed out once a read stopped
inside one. -/
structure FramedRequests (frames : List (List UInt8)) (fromSlice : List UInt8 → Except String Value)
    (maxFrame : ℕ) (log : List (Event S)) : Prop where
  headers : ∀ ev ∈ log, ∀ r, ev.start? = some r → headerLen ≤ (stretch r).length →
    AtBoundary frames r
  bodies : ∀ ev ∈ log, ∀ body, ev.body? = some body → ∃ p ∈ frames, fromSlice p = .ok body
  last : log.Pairwise fun ev later => ev.StopsInside maxFrame → later.body? = none

/-- A command that passes on the error of a read with `?`. -/
def Script.Propagates : Script S (Except IpcError Unit) → Prop
  | .done _ _ => True
  | .reply _ next => ∀ result, (next result).Propagates
  | .readJson _ next => (∀ payload, (next (.ok payload)).Propagates) ∧
      ∀ e, ∃ s, next (.error e) = .done s (.error (.frame e))

section
variable {frames : List (List UInt8)} {fromSlice : List UInt8 → Except String Value} {maxFrame : ℕ}

theorem framedRequests_append {l₁ l₂ : List (Event S)} :
    FramedRequests frames fromSlice maxFrame (l₁ ++ l₂) ↔
      FramedRequests frames fromSlice maxFrame l₁ ∧ FramedRequests frames fromSlice maxFrame l₂ ∧
        ∀ ev ∈ l₁, ∀ later ∈ l₂, ev.StopsInside maxFrame → later.body? = none := by
  constructor
  · rintro ⟨hheaders, hbodies, hlast⟩
    obtain ⟨hlast₁, hlast₂, hcross⟩ := List.pairwise_append.mp hlast
    rw [List.forall_mem_append] at hheaders hbodies
    exact ⟨⟨hheaders.1, hbodies.1, hlast₁⟩, ⟨hheaders.2, hbodies.2, hlast₂⟩, hcross⟩
  · rintro ⟨h₁, h₂, hcross⟩
    exact ⟨List.forall_mem_append.mpr ⟨h₁.headers, h₂.headers⟩,
      List.forall_mem_append.mpr ⟨h₁.bodies, h₂.bodies⟩,
      List.pairwise_append.mpr ⟨h₁.last, h₂.last, hcross⟩⟩

theorem FramedRequests.of_no_bodies {log : List (Event S)} (hbody : ∀ ev ∈ log, ev.body? = none)
    (hheaders : ∀ ev ∈ log, ∀ r, ev.start? = some r → headerLen ≤ (stretch r).length →
      AtBoundary frames r) : FramedRequests frames fromSlice maxFrame log where
  headers := hheaders
  bodies ev hev body h := by simp [hbody ev hev] at h
  last := List.pairwise_of_forall_mem_list fun _ _ later hlater _ => hbody later hlater

theorem body?_of_mem_run {sc : Script S R} {c : Connection} {ev : Event S}
    (h : ev ∈ (sc.run c).log) : ev.body? = none := by
  have hio := isIo_of_mem_run h
  cases ev <;> simp_all [Event.isIo, Event.body?]

theorem Script.WriteOnly.start?_of_mem_run {sc : Script S R} (hsc : sc.WriteOnly) {c : Connection}
    {ev : Event S} (h : ev ∈ (sc.run c).log) : ev.start? = none := by
  induction sc generalizing c with
  | done state result => cases h
  | reply msg next ih =>
    rcases List.mem_cons.mp h with rfl | hrest
    · rfl
    · exact ih _ (hsc _) hrest
  | readJson decode next ih => exact hsc.elim

theorem readJson_boundary {T : Type} {decode : List UInt8 → Except String T}
    (hlen : ∀ p ∈ frames, p.length < 2 ^ 32) {c c₁ : Connection} {result : Except FrameError T}
    (hc : AtBoundary frames c.input) (h : c.readJson decode = (result, c₁)) :
    (stopsInside c.maxFrame c.input = false ∧ AtBoundary frames c₁.input ∧
      ∀ v, result = .ok v → ∃ p ∈ frames, decode p = .ok v) ∨
    (stopsInside c.maxFrame c.input = true ∧ ¬ AtBoundary frames c₁.input ∧
      stretch c₁.input = stranded c.maxFrame c.input ∧ ∃ e, result = .error e) := by
  have hinput := readJson_input c decode
  rw [h] at hinput
  rw [hinput]
  rcases readFrameBytes_boundary hlen c.maxFrame hc with ⟨hno, hat, hp⟩ | ⟨hyes, hoff, hleft, e, he⟩
  · refine .inl ⟨hno, hat, ?_⟩
    rintro v rfl
    obtain ⟨payload, hread, hdecode⟩ := readJson_eq_ok h
    exact ⟨payload, hp payload (by rw [hread]), hdecode⟩
  · refine .inr ⟨hyes, hoff, hleft, ?_⟩
    cases result with
    | error e' => exact ⟨e', rfl⟩
    | ok v =>
      obtain ⟨payload, hread, -⟩ := readJson_eq_ok h
      rw [hread] at he
      cases he

theorem readJson_boundary_ok {T : Type} {decode : List UInt8 → Except String T}
    (hlen : ∀ p ∈ frames, p.length < 2 ^ 32) {c c₁ : Connection} {v : T}
    (hc : AtBoundary frames c.input) (h : c.readJson decode = (.ok v, c₁)) :
    stopsInside c.maxFrame c.input = false ∧ AtBoundary frames c₁.input ∧
      ∃ p ∈ frames, decode p = .ok v := by
  rcases readJson_boundary hlen hc h with ⟨hno, hat, hp⟩ | ⟨-, -, -, e, he⟩
  · exact ⟨hno, hat, hp v rfl⟩
  · cases he

/-- The reads of a command that passes errors on: all start on a boundary, and the first to
stop inside a frame is the last. -/
theorem run_boundary (hlen : ∀ p ∈ frames, p.length < 2 ^ 32)
    {sc : Script S (Except IpcError Unit)} (hsc : sc.Propagates) {c : Connection}
    (hc : AtBoundary frames c.input) :
    (∀ ev ∈ (sc.run c).log, ∀ r, ev.start? = some r → AtBoundary frames r) ∧
    ((∀ ev ∈ (sc.run c).log, ¬ ev.StopsInside c.maxFrame) ∧
        AtBoundary frames (sc.run c).conn.input ∨
      ∃ l r e, (sc.run c).log = l ++ [.read r] ∧ (∀ ev ∈ l, ¬ ev.StopsInside c.maxFrame) ∧
        (sc.run c).result = .error (.frame e) ∧ ¬ AtBoundary frames (sc.run c).conn.input ∧
        stretch (sc.run c).conn.input = stranded c.maxFrame r) := by
  induction sc generalizing c with
  | done state result => exact ⟨by simp [Script.run], .inl ⟨by simp [Script.run], hc⟩⟩
  | reply msg next ih =>
    have hreply (r : Reply) : ¬ (Event.reply r : Event S).StopsInside c.maxFrame :=
      not_stopsInside _ rfl
    obtain ⟨hstarts, hends⟩ := ih (c.reply msg).1 (hsc _) (c := (c.reply msg).2) hc
    simp only [Script.run, Ran.after, List.forall_mem_cons, reply_maxFrame] at hstarts hends ⊢
    refine ⟨⟨by rintro r ⟨⟩, hstarts⟩, ?_⟩
    rcases hends with ⟨hno, hat⟩ | ⟨l, r, e, hlog, hno, hrest⟩
    · exact .inl ⟨⟨hreply _, hno⟩, hat⟩
    · exact .inr
        ⟨_ :: l, r, e, by rw [hlog]; rfl, List.forall_mem_cons.mpr ⟨hreply _, hno⟩, hrest⟩
  | readJson decode next ih =>
    obtain ⟨hok, herror⟩ := hsc
    rcases hread : c.readJson (fun payload => (decode payload).map fun _ => payload) with ⟨x, c₁⟩
    have hmax := (of_readJson hread).1
    simp only [Script.run, Ran.after, hread, List.forall_mem_cons]
    have hstart : ∀ r, (Event.read c.input : Event S).start? = some r → AtBoundary frames r := by
      rintro r ⟨⟩
      exact hc
    rcases readJson_boundary hlen hc hread with ⟨hno, hat, -⟩ | ⟨hyes, hoff, hleft, e, rfl⟩
    · have hnot : ¬ (Event.read c.input : Event S).StopsInside c.maxFrame := by simp [hno]
      cases x with
      | error e =>
        obtain ⟨s, hnext⟩ := herror e
        rw [hnext]
        exact ⟨⟨hstart, by simp [Script.run]⟩, .inl ⟨⟨hnot, by simp [Script.run]⟩, hat⟩⟩
      | ok payload =>
        obtain ⟨hstarts, hends⟩ := ih (.ok payload) (hok payload) hat
        rw [hmax] at hends
        refine ⟨⟨hstart, hstarts⟩, ?_⟩
        rcases hends with ⟨hno', hat'⟩ | ⟨l, r, e, hlog, hno', hrest⟩
        · exact .inl ⟨⟨hnot, hno'⟩, hat'⟩
        · exact .inr
            ⟨_ :: l, r, e, by rw [hlog]; rfl, List.forall_mem_cons.mpr ⟨hnot, hno'⟩, hrest⟩
    · obtain ⟨s, hnext⟩ := herror e
      rw [hnext]
      exact ⟨⟨hstart, by simp [Script.run]⟩,
        .inr ⟨[], c.input, e, rfl, by simp, rfl, hoff, hleft⟩⟩

/-- No command's read stops inside a frame with another header's worth of bytes to come. -/
def KeepsPlace (maxFrame : ℕ) (log : List (Event S)) : Prop :=
  ∀ r, .read r ∈ log → (stranded maxFrame r).length < headerLen

theorem keepsPlace_append {l₁ l₂ : List (Event S)} :
    KeepsPlace maxFrame (l₁ ++ l₂) ↔ KeepsPlace maxFrame l₁ ∧ KeepsPlace maxFrame l₂ := by
  simp only [KeepsPlace, List.mem_append, or_imp, forall_and]

theorem keepsPlace_of_not_stopsInside {log : List (Event S)}
    (h : ∀ ev ∈ log, ¬ ev.StopsInside maxFrame) : KeepsPlace maxFrame log := by
  intro r hr
  have hno : stopsInside maxFrame r = false := by simpa using h _ hr
  rw [stranded_eq_nil hno]
  decide

theorem keepsPlace_of_start? {log : List (Event S)} (h : ∀ ev ∈ log, ev.start? = none) :
    KeepsPlace maxFrame log := by
  intro r hr
  simpa [Event.start?] using h _ hr

/-- How a dispatch leaves the stream: on a boundary; inside a frame, with the session about
to end; or inside one, with the session about to go on. -/
inductive Leaving (frames : List (List UInt8)) (maxFrame : ℕ) (x : Ran S (Except FrameError Unit)) :
    Prop
  | boundary (hat : AtBoundary frames x.conn.input)
      (hno : ∀ ev ∈ x.log, ¬ ev.StopsInside maxFrame)
  | ended (e : FrameError) (herr : x.result = .error e) (hkeeps : KeepsPlace maxFrame x.log)
  | inside (hok : x.result = .ok ()) (r : Reader) (hoff : ¬ AtBoundary frames x.conn.input)
      (hr : .read r ∈ x.log)
      (hleft : stretch x.conn.input = stranded maxFrame r)
      (hothers : ∀ r', .read r' ∈ x.log → r' = r ∨ stranded maxFrame r' = [])

/-- A request whose body is handed out by `ev`, the reads of a script, and what neither
reads nor hands out a body. -/
theorem framed_of_body (hlen : ∀ p ∈ frames, p.length < 2 ^ 32) {c c₁ : Connection} {body : Value}
    (hread : c.readJson fromSlice = (.ok body, c₁)) (hc : AtBoundary frames c.input)
    {ev : Event S} (hev : ev.body? = some body) (hevStart : ev.start? = none)
    {sc : Script S (Except IpcError Unit)} (hsc : sc.Propagates) {tail : List (Event S)}
    (hbody : ∀ ev ∈ tail, ev.body? = none) (hstart : ∀ ev ∈ tail, ev.start? = none)
    {x : Ran S (Except FrameError Unit)}
    (hlog : x.log = .request c.input :: ev :: ((sc.run c₁).log ++ tail))
    (hinput : x.conn.input = (sc.run c₁).conn.input)
    (hpasses : ∀ e, (sc.run c₁).result = .error (.frame e) → x.result = .ok ()) :
    FramedRequests frames fromSlice c.maxFrame x.log ∧ Leaving frames c.maxFrame x := by
  obtain ⟨hno, hat, hp⟩ := readJson_boundary_ok hlen hc hread
  obtain ⟨hstarts, hends⟩ := run_boundary hlen hsc hat
  rw [(of_readJson hread).1] at hends
  have hrequest : ¬ (Event.request c.input : Event S).StopsInside c.maxFrame := by simp [hno]
  have hhanded : ¬ ev.StopsInside c.maxFrame := not_stopsInside _ hevStart
  have htail : ∀ ev ∈ tail, ¬ ev.StopsInside c.maxFrame :=
    fun ev hev => not_stopsInside _ (hstart ev hev)
  have hquiet : ∀ ev ∈ (sc.run c₁).log ++ tail, ev.body? = none :=
    List.forall_mem_append.mpr ⟨fun ev hev => body?_of_mem_run hev, hbody⟩
  constructor
  · rw [hlog]
    refine ⟨?_, ?_, ?_⟩
    · simp only [List.forall_mem_cons, List.forall_mem_append]
      refine ⟨?_, by simp [hevStart], fun ev hev r hr _ => hstarts ev hev r hr, fun ev hev r hr => ?_⟩
      · rintro r ⟨⟩ -
        exact hc
      · simp [hstart ev hev] at hr
    · simp only [List.forall_mem_cons]
      refine ⟨by rintro b ⟨⟩, ?_, fun ev hev b hb => ?_⟩
      · rw [hev]
        rintro b ⟨⟩
        exact hp
      · simp [hquiet ev hev] at hb
    · refine .cons (fun _ _ h => absurd h hrequest) (.cons (fun _ _ h => absurd h hhanded) ?_)
      exact List.pairwise_of_forall_mem_list fun _ _ later hlater _ => hquiet later hlater
  · rcases hends with ⟨hno', hat'⟩ | ⟨l, r, e, hrun, hno', herr, hoff, hleft⟩
    · refine .boundary (hinput ▸ hat') ?_
      rw [hlog]
      simp only [List.forall_mem_cons, List.forall_mem_append]
      exact ⟨hrequest, hhanded, hno', htail⟩
    · refine .inside (hpasses e herr) r (hinput ▸ hoff) (by simp [hlog, hrun]) (hinput ▸ hleft) ?_
      intro r' hr'
      rw [hlog, hrun, List.mem_cons, List.mem_cons, List.mem_append, List.mem_append] at hr'
      rcases hr' with hreq | rfl | (hl | hlast) | htl
      · cases hreq
      · cases hevStart
      · exact .inr (stranded_eq_nil (by simpa using hno' _ hl))
      · exact .inl (Event.read.inj (List.mem_singleton.mp hlast))
      · cases hstart _ htl

theorem Dispatched.of_short {d : Daemon S} {s : S} {c : Connection}
    {x : Ran S (Except FrameError Unit)} (hx : Dispatched d s c x)
    (hshort : (stretch c.input).length < headerLen) :
    x.log = [.request c.input] ∧ ∃ e, x.result = .error e := by
  obtain ⟨e, he⟩ := readFrameBytes_short c.maxFrame hshort
  cases hx with
  | failed c₁ e' hread => exact ⟨rfl, e', rfl⟩
  | unknown c₁ body hread | done c₁ body hread | hungUp c₁ body hread | erred c₁ body hread =>
    obtain ⟨payload, hpayload, -⟩ := readJson_eq_ok hread
    rw [hpayload] at he
    cases he

/-- What a loop that starts on `input` does: on a boundary it stays framed as long as its
commands keep their place, off one it takes other bytes for a header if they come. -/
structure LoopFramed (frames : List (List UInt8)) (fromSlice : List UInt8 → Except String Value)
    (maxFrame : ℕ) (input : Reader) (log : List (Event S)) : Prop where
  boundary : AtBoundary frames input →
    (FramedRequests frames fromSlice maxFrame log ↔ KeepsPlace maxFrame log)
  inside : ¬ AtBoundary frames input → headerLen ≤ (stretch input).length →
    ¬ FramedRequests frames fromSlice maxFrame log
  short : (stretch input).length < headerLen →
    FramedRequests frames fromSlice maxFrame log ∧ KeepsPlace maxFrame log ∧
      ∀ ev ∈ log, ev.body? = none

section
variable {d : Daemon S} (hlen : ∀ p ∈ frames, p.length < 2 ^ 32)
  (hcommands : ∀ name cmd, d.router.get name = some cmd → ∀ s body, (cmd.execute s body).Propagates)
  (hhooks : d.hooks.WriteOnly)
include hlen hcommands hhooks

theorem Dispatched.framed {s : S} {c : Connection} {x : Ran S (Except FrameError Unit)}
    (hx : Dispatched d s c x) (hc : AtBoundary frames c.input) :
    FramedRequests frames d.fromSlice c.maxFrame x.log ∧ Leaving frames c.maxFrame x := by
  cases hx with
  | failed c₁ e hread =>
    refine ⟨⟨?_, ?_, List.pairwise_singleton _ _⟩, .ended e rfl ?_⟩
    · simp only [List.mem_singleton, forall_eq]
      rintro r ⟨⟩ -
      exact hc
    · simp [Event.body?]
    · simp [KeepsPlace]
  | unknown c₁ body hread name htarget y hy =>
    subst hy
    have hdone : (Script.done s (.ok ()) : Script S (Except IpcError Unit)).Propagates := trivial
    exact framed_of_body hlen hread hc rfl rfl hdone (fun _ => body?_of_mem_run)
      (fun _ => (hhooks.unknown s name body).start?_of_mem_run) rfl
      ((hhooks.unknown s name body).run_input c₁) fun _ _ => rfl
  | done c₁ body hread cmd htarget y hy hresult =>
    subst hy
    obtain ⟨name, hcmd⟩ := command_of_target htarget
    exact framed_of_body hlen hread hc rfl rfl (hcommands name cmd hcmd s body)
      (by simp [Event.body?]) (by simp [Event.start?]) rfl rfl fun _ _ => rfl
  | hungUp c₁ body hread cmd htarget y hy hresult =>
    subst hy
    obtain ⟨name, hcmd⟩ := command_of_target htarget
    exact framed_of_body hlen hread hc rfl rfl (hcommands name cmd hcmd s body)
      (by simp [Event.body?]) (by simp [Event.start?]) rfl rfl fun e he => by simp [hresult] at he
  | erred c₁ body hread cmd htarget y hy e hresult he z hz =>
    subst hy hz
    obtain ⟨name, hcmd⟩ := command_of_target htarget
    refine framed_of_body hlen hread hc rfl rfl (hcommands name cmd hcmd s body) ?_ ?_ rfl ?_
      fun _ _ => rfl
    · simpa [Event.body?] using fun ev hev => body?_of_mem_run hev
    · simpa [Event.start?] using fun ev hev => (hhooks.error _ e).start?_of_mem_run hev
    · exact (hhooks.error _ e).run_input _

/-- What follows the last dispatch of a session: nothing, or a call of the error hook. -/
theorem LoopFramed.of_last {s : S} {c : Connection} {x : Ran S (Except FrameError Unit)}
    (hx : Dispatched d s c x) {e : FrameError} (herr : x.result = .error e) {tail : List (Event S)}
    (hbody : ∀ ev ∈ tail, ev.body? = none) (hstart : ∀ ev ∈ tail, ev.start? = none) :
    LoopFramed frames d.fromSlice c.maxFrame c.input (x.log ++ tail) := by
  have htail : FramedRequests frames d.fromSlice c.maxFrame tail :=
    .of_no_bodies hbody fun ev hev r hr => by simp [hstart ev hev] at hr
  refine ⟨fun hc => ?_, fun hoff henough hframed => ?_, fun hshort => ?_⟩
  · obtain ⟨hframed, hleaving⟩ := hx.framed hlen hcommands hhooks hc
    have hkeeps : KeepsPlace c.maxFrame x.log := by
      cases hleaving with
      | boundary hat hno => exact keepsPlace_of_not_stopsInside hno
      | ended e' he' hkeeps => exact hkeeps
      | inside hok => simp [hok] at herr
    exact iff_of_true
      (framedRequests_append.mpr ⟨hframed, htail, fun _ _ later hlater _ => hbody later hlater⟩)
      (keepsPlace_append.mpr ⟨hkeeps, keepsPlace_of_start? hstart⟩)
  · exact hoff (hframed.headers _ (List.mem_append_left _ hx.request_mem) _ rfl henough)
  · obtain ⟨hlog, -⟩ := hx.of_short hshort
    have hnone : ∀ ev ∈ x.log ++ tail, ev.body? = none := by
      rw [hlog, List.forall_mem_append]
      exact ⟨by simp [Event.body?], hbody⟩
    refine ⟨.of_no_bodies hnone ?_, ?_, hnone⟩
    · rw [hlog, List.forall_mem_append]
      refine ⟨?_, fun ev hev r hr => by simp [hstart ev hev] at hr⟩
      simp only [List.mem_singleton, forall_eq]
      rintro r ⟨⟩ henough
      omega
    · rw [hlog]
      exact keepsPlace_append.mpr ⟨by simp [KeepsPlace], keepsPlace_of_start? hstart⟩

theorem loopFramed_persistentLoop (s : S) (c : Connection) :
    LoopFramed frames d.fromSlice c.maxFrame c.input (d.persistentLoop s c).log := by
  refine persistentLoop_rule
    (I := fun _ c y => LoopFramed frames d.fromSlice c.maxFrame c.input y.log) ?_ ?_ ?_ s c
  · intro s c x y hx hok hy
    rw [hx.conn_maxFrame] at hy
    refine ⟨fun hc => ?_, fun hoff henough hframed => ?_, fun hshort => ?_⟩
    · obtain ⟨hframed, hleaving⟩ := hx.framed hlen hcommands hhooks hc
      rw [framedRequests_append, keepsPlace_append]
      cases hleaving with
      | boundary hat hno =>
        have hkeeps := keepsPlace_of_not_stopsInside hno
        have hcross : ∀ ev ∈ x.log, ∀ later ∈ y.log, ev.StopsInside c.maxFrame →
            later.body? = none := fun ev hev _ _ hstop => absurd hstop (hno ev hev)
        rw [← hy.boundary hat]
        exact ⟨fun h => ⟨hkeeps, h.2.1⟩, fun h => ⟨hframed, h.2, hcross⟩⟩
      | ended e herr => simp [hok] at herr
      | inside _ r hoff hr hleft hothers =>
        rcases Nat.lt_or_ge (stretch x.conn.input).length headerLen with hshort | henough
        · -- too little is left for a header: the loop ends before it dispatches again
          obtain ⟨hframed', hkeeps', hnone⟩ := hy.short hshort
          refine iff_of_true ⟨hframed, hframed', fun _ _ later hlater _ => hnone later hlater⟩
            ⟨fun r' hr' => ?_, hkeeps'⟩
          rcases hothers r' hr' with rfl | hnil
          · rwa [← hleft]
          · rw [hnil]
            decide
        · refine iff_of_false (fun h => hy.inside hoff henough h.2.1) fun h => ?_
          have hlost := h.1 r hr
          rw [← hleft] at hlost
          omega
    · exact hoff (hframed.headers _ (List.mem_append_left _ hx.request_mem) _ rfl henough)
    · obtain ⟨-, e, herr⟩ := hx.of_short hshort
      simp [hok] at herr
  · intro s c x e hx herr hquiet
    have hlast := LoopFramed.of_last hlen hcommands hhooks hx herr (List.forall_mem_nil _)
      (List.forall_mem_nil _)
    rwa [List.append_nil] at hlast
  · intro s c x e hx herr hloud
    refine LoopFramed.of_last hlen hcommands hhooks hx herr ?_ ?_
    · simpa [ErrorHandler.callError, Ran.after, Event.body?] using fun ev => body?_of_mem_run
    · simpa [ErrorHandler.callError, Ran.after, Event.start?] using
        fun ev => (hhooks.error _ _).start?_of_mem_run

end

/-- A persistent session of commands that pass on the errors of their reads keeps to the
frames of its peer exactly when no such read stops inside a frame with another header's
worth of bytes to come. -/
theorem requests_framed_iff (d : Daemon S)
    (hcommands : ∀ name cmd, d.router.get name = some cmd →
      ∀ s body, (cmd.execute s body).Propagates)
    (hhooks : d.hooks.WriteOnly) (hmode : d.session = .persistent) (frames : List (List UInt8))
    (hlen : ∀ p ∈ frames, p.length < 2 ^ 32) (s : S) (c : Connection)
    (hinput : bytes c.input = stream headerLen frames) :
    FramedRequests frames d.fromSlice c.maxFrame (d.handleConn s c).log ↔
      ∀ r, .read r ∈ (d.handleConn s c).log → (stranded c.maxFrame r).length < headerLen := by
  unfold Daemon.handleConn
  split
  · simp only [hmode]
    exact (loopFramed_persistentLoop hlen hcommands hhooks s c).boundary ⟨0, hinput⟩
  · have hbody : ∀ ev ∈ (d.hooks.callReject s .auth c).log, ev.body? = none := by
      simpa [ErrorHandler.callReject, Ran.after, Event.body?] using fun ev => body?_of_mem_run
    have hstart : ∀ ev ∈ (d.hooks.callReject s .auth c).log, ev.start? = none := by
      simpa [ErrorHandler.callReject, Ran.after, Event.start?] using
        fun ev => (hhooks.reject s .auth).start?_of_mem_run
    exact iff_of_true (.of_no_bodies hbody fun ev hev r hr => by simp [hstart ev hev] at hr)
      (keepsPlace_of_start? hstart)

end

def storeCommands : List (Command Unit) :=
  [⟨"put", fun _ _ => .readJson (fun p => (parseNumber p).map fun _ => ()) fun
      | .ok _ => .done () (.ok ())
      | .error e => .done () (.error (.frame e))⟩,
    ⟨"wipe", fun _ _ => .done () (.ok ())⟩]

def storeDaemon : Daemon Unit where
  router := Router.new.addEach storeCommands
  hooks := ⟨fun _ _ _ => .done () (),
    fun _ _ => .reply (.ok (ofString "null")) fun _ => .done () (), fun _ _ => .done () ()⟩
  auth := .none
  session := .persistent
  fromSlice := parseRequest ["put", "wipe"]
  usernameForUid := fun _ => none

theorem storeDaemon_propagates (name : String) (cmd : Command Unit)
    (h : storeDaemon.router.get name = some cmd) (s : Unit) (body : Value) :
    (cmd.execute s body).Propagates := by
  rw [storeDaemon, get_new] at h
  have hmem : cmd ∈ storeCommands := List.mem_of_find?_eq_some h
  simp only [storeCommands, List.mem_cons, List.not_mem_nil, or_false] at hmem
  rcases hmem with rfl | rfl
  · exact ⟨fun _ => trivial, fun _ => ⟨(), rfl⟩⟩
  · trivial

theorem storeDaemon_hooks : storeDaemon.hooks.WriteOnly :=
  ⟨fun _ _ _ => trivial, fun _ _ _ => trivial, fun _ _ => trivial⟩

/-- A peer of three frames, the second of them for `put`, chopped inside a header and a
payload. -/
def putAndWipe : Connection :=
  let all := stream headerLen [requestBytes "put", ofString "17", requestBytes "wipe"]
  ⟨none, unread (all.take 10) (unread ((all.drop 10).take 10) (unread (all.drop 20) [])),
    ⟨[], []⟩, 16⟩

theorem requests_framed_iff_store :
    FramedRequests [requestBytes "put", ofString "17", requestBytes "wipe"] storeDaemon.fromSlice 16
      (storeDaemon.handleConn () putAndWipe).log := by
  refine (requests_framed_iff storeDaemon storeDaemon_propagates storeDaemon_hooks rfl
    [requestBytes "put", ofString "17", requestBytes "wipe"] (by decide +kernel) () putAndWipe
    (by decide +kernel)).mpr fun r hr => ?_
  have hall : (storeDaemon.handleConn () putAndWipe).log.all (fun ev =>
      match ev with
      | .read r => (stranded putAndWipe.maxFrame r).length < headerLen
      | _ => true) := by decide +kernel
  simpa using List.all_eq_true.mp hall _ hr

/-- Nineteen bytes for `put`, which are the frame of a request. -/
def smuggled : List UInt8 := frame headerLen (requestBytes "wipe")

def smuggler : Connection :=
  ⟨none, unread (stream headerLen [requestBytes "put", smuggled]) [], ⟨[], []⟩, 16⟩

/-- The frame that `put` is to take is too large; the session goes on with a request from
inside it. -/
theorem oversized_frame_wipes :
    bytes smuggler.input = stream headerLen [requestBytes "put", smuggled] ∧
      ¬ FramedRequests [requestBytes "put", smuggled] storeDaemon.fromSlice smuggler.maxFrame
        (storeDaemon.handleConn () smuggler).log := by
  refine ⟨by decide +kernel, fun h => ?_⟩
  have hwipe : (storeDaemon.handleConn () smuggler).log.any
      (fun ev => ev.body?.bind jsonTypeField = some "wipe") := by decide +kernel
  obtain ⟨ev, hev, htype⟩ := List.any_eq_true.mp hwipe
  obtain ⟨body, hbody, htype⟩ := Option.bind_eq_some_iff.mp (of_decide_eq_true htype)
  obtain ⟨p, hp, hfrom⟩ := h.bodies ev hev body hbody
  simp only [List.mem_cons, List.not_mem_nil, or_false] at hp
  rcases hp with rfl | rfl
  · rw [show storeDaemon.fromSlice = parseRequest ["put", "wipe"] from rfl,
      parseRequest_requestBytes (by simp)] at hfrom
    obtain rfl := Except.ok.inj hfrom
    simp [jsonTypeField, Value.get, Value.asStr] at htype
  · have hnone : ["put", "wipe"].find? (fun name => requestBytes name = smuggled) = none := by
      decide +kernel
    simp [storeDaemon, parseRequest, hnone] at hfrom

end Session
end SharedDaemon
