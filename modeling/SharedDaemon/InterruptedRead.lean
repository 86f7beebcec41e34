import SharedDaemon.Session

/-!
# Interrupted reads

`read_exact` hands on every error of `read`, also the one that only says that a signal came
in between.
-/

namespace SharedDaemon
namespace Frame

open StdIo LengthPrefix

def isInterrupt : ReadEvent → Bool
  | .fail e => e.kind = .interrupted
  | .data _ _ => false

@[simp] theorem isInterrupt_data (b : UInt8) (bs : List UInt8) :
    isInterrupt (.data b bs) = false := rfl

@[simp] theorem isInterrupt_fail (e : IoError) :
    isInterrupt (.fail e) = decide (e.kind = .interrupted) := rfl

/-- A schedule without its interruptions. -/
def calm (r : Reader) : Reader := r.filter fun ev => !isInterrupt ev

def Interruptible (r : Reader) : Prop := ∀ ev ∈ r, ∀ e, ev = .fail e → e.kind = .interrupted

/-- Interruptions change neither the result of a frame read nor what it consumes, and no
turn of a session fails with one. -/
structure Transparent (maxFrame : ℕ) (r : Reader) : Prop where
  result : (readFrameBytes maxFrame r).1 = (readFrameBytes maxFrame (calm r)).1
  consumed : bytes (readFrameBytes maxFrame r).2 = bytes (readFrameBytes maxFrame (calm r)).2
  session : ∀ (S : Type) (d : Session.Daemon S) (s : S) (c : Session.Connection), c.input = r →
    c.maxFrame = maxFrame → ∀ e, e.kind = .interrupted → (d.dispatchOne s c).result ≠ .error (.io e)

/-- The bytes hold all that a frame read takes: a header, and the payload if it is within
the cap. -/
def Suffices (maxFrame : ℕ) (bs : List UInt8) : Prop :=
  headerLen ≤ bs.length ∧ (fromLeBytes (bs.take headerLen) ≤ maxFrame →
    headerLen + fromLeBytes (bs.take headerLen) ≤ bs.length)

variable {maxFrame : ℕ} {r q : Reader}

theorem bytes_calm (r : Reader) : bytes (calm r) = bytes r := by
  induction r with
  | nil => rfl
  | cons ev r ih =>
    rw [calm] at ih
    cases ev with
    | data b bs => simp [calm, ih]
    | fail e =>
      by_cases he : e.kind = .interrupted
      · simp [calm, he, ih]
      · simp [calm, he, ih]

theorem healthy_calm (h : Interruptible r) : Healthy (calm r) := by
  intro e he
  obtain ⟨hmem, hcalm⟩ := List.mem_filter.mp he
  have hkind := h _ hmem e rfl
  simp [hkind] at hcalm

theorem calm_of_healthy (h : Healthy r) : calm r = r := by
  refine List.filter_eq_self.mpr fun ev hev => ?_
  cases ev with
  | data b bs => rfl
  | fail e => exact absurd hev (h e)

theorem parse_suffices {bs : List UInt8} (h : Suffices maxFrame bs) (tail : List UInt8) :
    (∃ len rest, parse headerLen maxFrame bs = .tooLarge len rest ∧
        parse headerLen maxFrame (bs ++ tail) = .tooLarge len (rest ++ tail)) ∨
      ∃ p rest, parse headerLen maxFrame bs = .frame p rest ∧
        parse headerLen maxFrame (bs ++ tail) = .frame p (rest ++ tail) := by
  obtain ⟨hheader, hbody⟩ := h
  have htake : (bs ++ tail).take headerLen = bs.take headerLen :=
    List.take_append_of_le_length hheader
  have hdrop : (bs ++ tail).drop headerLen = bs.drop headerLen ++ tail :=
    List.drop_append_of_le_length hheader
  have hlong : ¬ bs.length < headerLen := Nat.not_lt.mpr hheader
  have hlong' : ¬ (bs ++ tail).length < headerLen := by rw [List.length_append]; omega
  by_cases hmax : maxFrame < fromLeBytes (bs.take headerLen)
  · left
    refine ⟨fromLeBytes (bs.take headerLen), bs.drop headerLen, ?_, ?_⟩
    · rw [parse, if_neg hlong]
      exact if_pos hmax
    · rw [parse, if_neg hlong', htake, hdrop]
      exact if_pos hmax
  · right
    have hle := hbody (Nat.not_lt.mp hmax)
    have henough : ¬ (bs.drop headerLen).length < fromLeBytes (bs.take headerLen) := by
      rw [List.length_drop]
      omega
    have hwhole : parse headerLen maxFrame bs =
        .frame ((bs.drop headerLen).take (fromLeBytes (bs.take headerLen)))
          ((bs.drop headerLen).drop (fromLeBytes (bs.take headerLen))) := by
      rw [parse, if_neg hlong]
      simp only [hmax, henough, if_false]
    obtain ⟨heq, hfits, hwidth⟩ := of_parse_eq_frame hwhole
    refine ⟨_, _, hwhole, ?_⟩
    rw [congrArg (· ++ tail) heq, List.append_assoc]
    exact parse_frame_append _ hfits hwidth

theorem readFrameBytes_failure (hq : Healthy q) (h : ¬ Suffices maxFrame (bytes q)) (e : IoError)
    (rest : Reader) : (readFrameBytes maxFrame (q ++ .fail e :: rest)).1 = .error (.io e) := by
  obtain ⟨r', hread, -⟩ := readFrameBytes_eq_parse maxFrame q hq (.failure e rest)
  rw [Ending.reader] at hread
  rw [hread, parse]
  by_cases hheader : (bytes q).length < headerLen
  · rw [if_pos hheader]
    rfl
  · have hshort : fromLeBytes ((bytes q).take headerLen) ≤ maxFrame ∧
        (bytes q).length < headerLen + fromLeBytes ((bytes q).take headerLen) := by
      simpa [Suffices, Nat.not_lt.mp hheader] using h
    have hmax : ¬ maxFrame < fromLeBytes ((bytes q).take headerLen) := Nat.not_lt.mpr hshort.1
    have hbody : ((bytes q).drop headerLen).length < fromLeBytes ((bytes q).take headerLen) := by
      rw [List.length_drop]
      omega
    rw [if_neg hheader]
    simp only [if_neg hmax, if_pos hbody]
    rfl

theorem readFrameBytes_healthy (hr : Healthy r) (e : IoError) :
    (readFrameBytes maxFrame r).1 ≠ .error (.io e) := by
  obtain ⟨r', hread, -⟩ := readFrameBytes_eq_parse maxFrame r hr .eof
  have hsame : r ++ Ending.eof.reader = r := List.append_nil r
  rw [hsame] at hread
  rw [hread]
  cases parse headerLen maxFrame (bytes r) <;> simp [parseResult, endError]

theorem readFrameBytes_suffices (hr : Interruptible r) (hq : Healthy q) (fin : Ending)
    (heq : r = q ++ fin.reader) (h : Suffices maxFrame (bytes q)) :
    (readFrameBytes maxFrame r).1 = (readFrameBytes maxFrame (calm r)).1 ∧
      bytes (readFrameBytes maxFrame r).2 = bytes (readFrameBytes maxFrame (calm r)).2 := by
  obtain ⟨r₁, hread₁, hleaves₁⟩ := readFrameBytes_eq_parse maxFrame q hq fin
  obtain ⟨r₂, hread₂, hleaves₂⟩ := readFrameBytes_eq_parse maxFrame (calm r) (healthy_calm hr) .eof
  have hsame : calm r ++ Ending.eof.reader = calm r := List.append_nil _
  rw [hsame] at hread₂
  rw [← heq] at hread₁
  rw [hread₁, hread₂]
  have hbytes : bytes (calm r) = bytes q ++ bytes fin.reader := by
    rw [bytes_calm, heq, bytes_append]
  rw [hbytes] at hleaves₂ ⊢
  rcases parse_suffices h (bytes fin.reader) with ⟨len, rest, hparse, hparse'⟩ |
    ⟨p, rest, hparse, hparse'⟩
  all_goals
    rw [hparse] at hleaves₁ ⊢
    rw [hparse'] at hleaves₂ ⊢
    obtain ⟨q₁, -, hq₁, rfl⟩ := hleaves₁
    obtain ⟨q₂, -, hq₂, rfl⟩ := hleaves₂
    refine ⟨rfl, ?_⟩
    show bytes (q₁ ++ fin.reader) = bytes (q₂ ++ [])
    rw [bytes_append, hq₁, List.append_nil, hq₂]

theorem io_of_dispatchOne {S : Type} {d : Session.Daemon S} {s : S} {c : Session.Connection}
    {e : IoError} (h : (d.dispatchOne s c).result = .error (.io e)) :
    (readFrameBytes c.maxFrame c.input).1 = .error (.io e) := by
  generalize hx : d.dispatchOne s c = x at h
  have hdispatched := Session.Dispatched.of_dispatchOne d s c
  rw [hx] at hdispatched
  cases hdispatched with
  | failed c₁ e' hread =>
    obtain rfl := Except.error.inj h
    rcases Session.readJson_eq_error hread with hframe | ⟨payload, text, -, -, hjson⟩
    · rw [hframe]
    · cases hjson
  | unknown | done | erred | hungUp => cases h

theorem transparent_of_same (hr : Interruptible r)
    (hresult : (readFrameBytes maxFrame r).1 = (readFrameBytes maxFrame (calm r)).1)
    (hconsumed : bytes (readFrameBytes maxFrame r).2 = bytes (readFrameBytes maxFrame (calm r)).2) :
    Transparent maxFrame r := by
  refine ⟨hresult, hconsumed, ?_⟩
  rintro S d s c rfl rfl e - h
  have hframe := io_of_dispatchOne h
  rw [hresult] at hframe
  exact readFrameBytes_healthy (healthy_calm hr) e hframe

/-- Interruptions go unnoticed exactly when there are none, or the first comes after all that
the read takes. -/
theorem interrupted_read_transparent_iff (maxFrame : ℕ) (r : Reader) (hr : Interruptible r) :
    Transparent maxFrame r ↔ Healthy r ∨ Suffices maxFrame (stretch r) := by
  obtain ⟨q, fin, hq, heq⟩ := exists_stretch r
  have hstretch : stretch r = bytes q := by rw [heq, stretch_append hq]
  rw [hstretch]
  constructor
  · intro h
    by_contra hnot
    push Not at hnot
    obtain ⟨hunhealthy, hshort⟩ := hnot
    cases fin with
    | eof =>
      have hnil : r = q := by simpa [Ending.reader] using heq
      exact hunhealthy (hnil ▸ hq)
    | failure e rest =>
      have hfailure := readFrameBytes_failure hq hshort e rest
      rw [← show r = q ++ .fail e :: rest from heq, h.result] at hfailure
      exact readFrameBytes_healthy (healthy_calm hr) e hfailure
  · rintro (hhealthy | hsuffices)
    · have hcalm := calm_of_healthy hhealthy
      exact transparent_of_same hr (by rw [hcalm]) (by rw [hcalm])
    · obtain ⟨hresult, hconsumed⟩ := readFrameBytes_suffices hr hq fin heq hsuffices
      exact transparent_of_same hr hresult hconsumed

def signalled : IoError := ⟨.interrupted, "Interrupted system call"⟩

theorem transparent_after_frame :
    Transparent 8 [.data 1 [0, 0, 0, 9], .fail signalled, .data 0 [0, 0, 0]] := by
  have hr : Interruptible [.data 1 [0, 0, 0, 9], .fail signalled, .data 0 [0, 0, 0]] := by
    simp [Interruptible, signalled]
  exact (interrupted_read_transparent_iff 8 _ hr).mpr (.inr ⟨by decide, by decide⟩)

/-- A signal between the header of a frame and its payload. -/
theorem signal_loses_header :
    ¬ ∀ (maxFrame : ℕ) (r : Reader), Interruptible r →
      (readFrameBytes maxFrame r).1 = (readFrameBytes maxFrame (calm r)).1 := by
  intro h
  have hsame := h 8 [.data 1 [0, 0, 0], .fail signalled, .data 9 []] (by simp [Interruptible, signalled])
  exact absurd hsame (by decide +kernel)

end Frame
end SharedDaemon
