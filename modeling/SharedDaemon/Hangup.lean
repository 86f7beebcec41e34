import SharedDaemon.Session

/-!
# How a hangup ends a session

A command that returns `Hangup` ends a persistent session on the spot. A one-shot session
passes the error that stands for it to the error hook.
-/

namespace SharedDaemon
namespace Session

open StdIo StdPath SharedDaemon.Frame

variable {S R : Type}

theorem returned_not_mem_run (sc : Script S R) (c : Connection) (r : Except IpcError Unit) :
    .returned r ∉ (sc.run c).log := by
  intro h
  simpa [Event.isIo] using isIo_of_mem_run h

theorem Dispatched.hangup_last_or {d : Daemon S} {s : S} {c : Connection}
    {x : Ran S (Except FrameError Unit)} (h : Dispatched d s c x) :
    .returned (.error .hangup) ∉ x.log ∨
      ∃ l, x.log = l ++ [.returned (.error .hangup)] ∧ .returned (.error .hangup) ∉ l ∧
        x.result = .error (.unexpectedEof 0 0) := by
  cases h with
  | failed c₁ e hread => simp
  | unknown c₁ body hread name htarget y hy =>
    left
    subst hy
    simp [returned_not_mem_run]
  | done c₁ body hread cmd htarget y hy hresult =>
    left
    subst hy
    simp [returned_not_mem_run]
  | hungUp c₁ body hread cmd htarget y hy hresult =>
    subst hy
    exact .inr ⟨_ :: _ :: ((cmd.execute s body).run c₁).log, rfl,
      by simp [returned_not_mem_run], rfl⟩
  | erred c₁ body hread cmd htarget y hy e hresult he z hz =>
    left
    subst hy hz
    simp [returned_not_mem_run, Ne.symm he]

def HangupLast (log : List (Event S)) : Prop :=
  ∃ l, .returned (.error .hangup) ∉ l ∧ (log = l ∨ log = l ++ [.returned (.error .hangup)])

theorem HangupLast.eq_nil {log pre post : List (Event S)} (h : HangupLast log)
    (hlog : log = pre ++ .returned (.error .hangup) :: post) : post = [] := by
  obtain ⟨l, hl, rfl | rfl⟩ := h
  · simp [hlog] at hl
  · rcases List.eq_nil_or_concat post with hnil | ⟨post, ev, rfl⟩
    · exact hnil
    · rw [List.concat_eq_append, ← List.cons_append, ← List.append_assoc] at hlog
      simp [(List.append_inj' hlog rfl).1] at hl

theorem hangupLast_persistentLoop (d : Daemon S) (s : S) (c : Connection) :
    HangupLast (d.persistentLoop s c).log := by
  refine persistentLoop_rule (I := fun _ _ y => HangupLast y.log) ?_ ?_ ?_ s c
  · intro s c x y hx hok hy
    obtain ⟨l, hl, hlog⟩ := hy
    rcases hx.hangup_last_or with hnot | ⟨_, -, -, herr⟩
    · refine ⟨x.log ++ l, by simp [hnot, hl], ?_⟩
      rcases hlog with h | h <;> simp [h]
    · rw [hok] at herr
      cases herr
  · intro s c x e hx herr hquiet
    rcases hx.hangup_last_or with hnot | ⟨l, hlog, hl, -⟩
    · exact ⟨x.log, hnot, .inl rfl⟩
    · exact ⟨l, hl, .inr hlog⟩
  · intro s c x e hx herr hloud
    rcases hx.hangup_last_or with hnot | ⟨_, -, -, heof⟩
    · refine ⟨_, ?_, .inl rfl⟩
      simp [Ran.andThen, ErrorHandler.callError, Ran.after, hnot, returned_not_mem_run]
    · obtain rfl := Except.error.inj (herr.symm.trans heof)
      simp [endsQuietly] at hloud

/-- Behind the hangup of a one-shot session the error hook runs. -/
theorem hangup_not_last_oneShot (d : Daemon S) (s : S) (c : Connection) (pre post : List (Event S))
    (h : ((d.dispatchOne s c).andThen fun
      | .ok (), s, c => (⟨(), s, c, []⟩ : Ran S Unit)
      | .error e, s, c => d.hooks.callError s (.frame e) c).log =
        pre ++ .returned (.error .hangup) :: post) : post ≠ [] := by
  rintro rfl
  simp only [Ran.andThen] at h
  rcases (Dispatched.of_dispatchOne d s c).hangup_last_or with hnot | ⟨l, -, -, heof⟩
  · have hmem := h ▸ List.mem_append_right pre (List.mem_singleton_self _)
    split at hmem <;>
      simp [hnot, ErrorHandler.callError, Ran.after, returned_not_mem_run] at hmem
  · simp only [heof, ErrorHandler.callError, Ran.after] at h
    have hlast := congrArg List.getLast? h
    rw [List.getLast?_append_of_ne_nil _ (by simp), List.getLast?_concat] at hlast
    simpa [returned_not_mem_run] using List.mem_of_getLast? hlast

/-- A hangup ends the session with nothing more done on the connection, no hook called and no
byte read or written, exactly when the session is persistent. -/
theorem hangup_ends_session_iff (d : Daemon S) (s : S) (c : Connection) (pre post : List (Event S))
    (h : (d.handleConn s c).log = pre ++ .returned (.error .hangup) :: post) :
    post = [] ↔ d.session = .persistent := by
  unfold Daemon.handleConn at h
  split at h
  · split at h
    · rename_i hmode
      simp only [hmode, reduceCtorEq, iff_false]
      exact hangup_not_last_oneShot d s c pre post h
    · rename_i hmode
      simp only [hmode, iff_true]
      exact (hangupLast_persistentLoop d s c).eq_nil h
  · have hmem : Event.returned (.error .hangup) ∈ (d.hooks.callReject s .auth c).log := by simp [h]
    simp [ErrorHandler.callReject, Ran.after, returned_not_mem_run] at hmem

def Event.isHangup : Event S → Bool
  | .returned (.error .hangup) => true
  | _ => false

theorem exists_of_any_isHangup {log : List (Event S)} (h : log.any Event.isHangup) :
    ∃ pre post, log = pre ++ .returned (.error .hangup) :: post := by
  obtain ⟨ev, hmem, hev⟩ := List.any_eq_true.mp h
  unfold Event.isHangup at hev
  split at hev
  · exact List.append_of_mem hmem
  · cases hev

/-- A daemon of one command, which sends one frame and hangs up; its error hook replies. -/
def streamer (session : SessionMode) : Daemon Unit where
  router := Router.new.addEach
    [⟨"stream", fun _ _ => .reply (.ok (ofString "1")) fun _ => .done () (.error .hangup)⟩]
  hooks := ⟨fun _ _ _ => .done () (),
    fun _ _ => .reply (.ok (ofString "\"error\"")) fun _ => .done () (), fun _ _ => .done () ()⟩
  auth := .none
  session := session
  fromSlice := parseRequest ["stream"]
  usernameForUid := fun _ => none

def twoRequests : Connection :=
  let all := LengthPrefix.stream headerLen [requestBytes "stream", requestBytes "stream"]
  ⟨some 0, unread (all.take 24) (unread (all.drop 24) []), ⟨[], []⟩, 64⟩

theorem hangup_ends_session_iff_streamer :
    ∃ pre post, ((streamer .persistent).handleConn () twoRequests).log =
      pre ++ .returned (.error .hangup) :: post ∧ (post = [] ↔ SessionMode.persistent = .persistent) := by
  have hany : ((streamer .persistent).handleConn () twoRequests).log.any Event.isHangup := by
    decide +kernel
  obtain ⟨pre, post, h⟩ := exists_of_any_isHangup hany
  exact ⟨pre, post, h, hangup_ends_session_iff _ _ _ pre post h⟩

/-- In a one-shot session the peer gets an error frame behind the command's own frame. -/
theorem oneShot_hangup_reports_error :
    ((streamer .oneShot).handleConn () twoRequests).log.any Event.isHangup ∧
      ((streamer .oneShot).handleConn () twoRequests).log.any
        (fun ev => match ev with
          | .error e => e = .frame (.unexpectedEof 0 0)
          | _ => false) ∧
      ((streamer .oneShot).handleConn () twoRequests).conn.output.sent =
        LengthPrefix.stream headerLen [ofString "1", ofString "\"error\""] := by
  decide +kernel

end Session
end SharedDaemon
