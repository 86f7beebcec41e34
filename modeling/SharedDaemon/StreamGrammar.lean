import SharedDaemon.FrameRoundTrip

/-!
# What a reader makes of any stream

Frame after frame until something is wrong. Each stream of bytes falls apart in one way, and
what is read from it, down to the numbers in the error, says how.
-/

namespace SharedDaemon
namespace Frame

open StdIo LengthPrefix

/-- Bytes that are no whole frame, and the error they are reported as: less than a header, a
header with too little behind it, or one that announces too much. -/
inductive BreaksOff (maxFrame : ℕ) : List UInt8 → FrameError → Prop
  | header (bs : List UInt8) (hshort : bs.length < headerLen) :
      BreaksOff maxFrame bs (.unexpectedEof bs.length headerLen)
  | payload (len : ℕ) (bs : List UInt8) (hlen : len < 2 ^ 32) (hmax : len ≤ maxFrame)
      (hshort : bs.length < len) :
      BreaksOff maxFrame (toLeBytes headerLen len ++ bs) (.unexpectedEof bs.length len)
  | tooLarge (len : ℕ) (bs : List UInt8) (hlen : len < 2 ^ 32) (hmax : maxFrame < len) :
      BreaksOff maxFrame (toLeBytes headerLen len ++ bs) (.tooLarge len maxFrame)

variable {maxFrame : ℕ}

theorem parse_header {len : ℕ} (bs : List UInt8) (hlen : len < 2 ^ 32) :
    parse headerLen maxFrame (toLeBytes headerLen len ++ bs) =
      if maxFrame < len then .tooLarge len bs
      else if bs.length < len then .shortPayload bs.length len
      else .frame (bs.take len) (bs.drop len) := by
  have hheader : ¬ (toLeBytes headerLen len ++ bs).length < headerLen := by simp
  have hannounced : fromLeBytes (toLeBytes headerLen len) = len := by
    rw [fromLeBytes_toLeBytes]
    exact Nat.mod_eq_of_lt hlen
  rw [parse, if_neg hheader]
  simp only [List.take_left' (toLeBytes_length headerLen len),
    List.drop_left' (toLeBytes_length headerLen len), hannounced]

theorem exists_header {bs : List UInt8} (h : headerLen ≤ bs.length) :
    ∃ len rest, len < 2 ^ 32 ∧ bs = toLeBytes headerLen len ++ rest := by
  have htake : (bs.take headerLen).length = headerLen := List.length_take_of_le h
  have hback := toLeBytes_fromLeBytes (bs.take headerLen)
  have hlt := fromLeBytes_lt (bs.take headerLen)
  rw [htake] at hback hlt
  exact ⟨_, bs.drop headerLen, hlt, by rw [hback, List.take_append_drop]⟩

theorem parseResult_eq_error_iff (bs : List UInt8) (e : FrameError) :
    parseResult maxFrame .eof (parse headerLen maxFrame bs) = .error e ↔
      BreaksOff maxFrame bs e := by
  constructor
  · intro h
    by_cases hheader : bs.length < headerLen
    · rw [parse, if_pos hheader] at h
      obtain rfl := Except.error.inj h
      exact .header bs hheader
    · obtain ⟨len, rest, hlen, rfl⟩ := exists_header (Nat.not_lt.mp hheader)
      rw [parse_header rest hlen] at h
      split at h
      · rename_i hmax
        obtain rfl := Except.error.inj h
        exact .tooLarge len rest hlen hmax
      · rename_i hmax
        split at h
        · rename_i hshort
          obtain rfl := Except.error.inj h
          exact .payload len rest hlen (Nat.not_lt.mp hmax) hshort
        · cases h
  · intro h
    cases h with
    | header bs hshort =>
      rw [parse, if_pos hshort]
      rfl
    | payload len bs hlen hmax hshort =>
      rw [parse_header bs hlen, if_neg (Nat.not_lt.mpr hmax), if_pos hshort]
      rfl
    | tooLarge len bs hlen hmax =>
      rw [parse_header bs hlen, if_pos hmax]
      rfl

theorem parse_front_of_ok {bs p : List UInt8}
    (h : parseResult maxFrame .eof (parse headerLen maxFrame bs) = .ok p) :
    p.length ≤ maxFrame ∧ p.length < 2 ^ 32 ∧ ∃ rest, bs = frame headerLen p ++ rest := by
  cases hparse : parse headerLen maxFrame bs with
  | frame payload rest =>
    rw [hparse] at h
    obtain rfl := Except.ok.inj h
    obtain ⟨hbs, hmax, hwidth⟩ := of_parse_eq_frame hparse
    exact ⟨hmax, hwidth, rest, hbs⟩
  | tooLarge len rest | shortHeader n | shortPayload n len =>
    rw [hparse] at h
    cases h

theorem readFrameBytes_front {r : Reader} (hr : Healthy r) {p rest : List UInt8}
    (hbytes : bytes r = frame headerLen p ++ rest) (hmax : p.length ≤ maxFrame)
    (hlen : p.length < 2 ^ 32) :
    (readFrameBytes maxFrame r).1 = .ok p ∧ Healthy (readFrameBytes maxFrame r).2 ∧
      bytes (readFrameBytes maxFrame r).2 = rest := by
  obtain ⟨r', hread, hleaves⟩ := readFrameBytes_eq_parse maxFrame r hr .eof
  rw [Ending.reader, List.append_nil] at hread
  rw [hbytes, parse_frame_append rest hmax hlen] at hread hleaves
  obtain ⟨q, hq, hrest, rfl⟩ := hleaves
  rw [hread, Ending.reader, List.append_nil]
  exact ⟨rfl, hq, hrest⟩

theorem readFrameBytes_result {r : Reader} (hr : Healthy r) :
    (readFrameBytes maxFrame r).1 =
      parseResult maxFrame .eof (parse headerLen maxFrame (bytes r)) := by
  obtain ⟨r', hread, -⟩ := readFrameBytes_eq_parse maxFrame r hr .eof
  rw [Ending.reader, List.append_nil] at hread
  rw [hread]

/-- The payloads that are read from a stream, and the error that ends them. -/
def ReadsAs (maxFrame : ℕ) (r : Reader) (ps : List (List UInt8)) (e : FrameError) : Prop :=
  (readTimes (readFrameBytes maxFrame) (ps.length + 1) r).1 = ps.map .ok ++ [.error e]

/-- A stream that falls into these frames and bytes that break off so. -/
def FallsInto (maxFrame : ℕ) (bs : List UInt8) (ps : List (List UInt8)) (e : FrameError) : Prop :=
  (∀ p ∈ ps, p.length ≤ maxFrame ∧ p.length < 2 ^ 32) ∧
    ∃ tail, bs = stream headerLen ps ++ tail ∧ BreaksOff maxFrame tail e

theorem readsAs_nil (maxFrame : ℕ) (r : Reader) (e : FrameError) :
    ReadsAs maxFrame r [] e ↔ (readFrameBytes maxFrame r).1 = .error e := by
  simp [ReadsAs, readTimes]

theorem readsAs_cons (maxFrame : ℕ) (r : Reader) (p : List UInt8) (ps : List (List UInt8))
    (e : FrameError) :
    ReadsAs maxFrame r (p :: ps) e ↔
      (readFrameBytes maxFrame r).1 = .ok p ∧
        ReadsAs maxFrame (readFrameBytes maxFrame r).2 ps e := by
  simp [ReadsAs, readTimes]

theorem readsAs_iff_fallsInto {r : Reader} (hr : Healthy r) (ps : List (List UInt8))
    (e : FrameError) : ReadsAs maxFrame r ps e ↔ FallsInto maxFrame (bytes r) ps e := by
  induction ps generalizing r with
  | nil =>
    rw [readsAs_nil, readFrameBytes_result hr, parseResult_eq_error_iff]
    simp [FallsInto]
  | cons p ps ih =>
    rw [readsAs_cons]
    constructor
    · rintro ⟨hfirst, hrest⟩
      rw [readFrameBytes_result hr] at hfirst
      obtain ⟨hmax, hlen, rest, hbytes⟩ := parse_front_of_ok hfirst
      obtain ⟨-, hhealthy, hleft⟩ := readFrameBytes_front hr hbytes hmax hlen
      obtain ⟨hfits, tail, htail, hbreaks⟩ := (ih hhealthy).mp hrest
      refine ⟨by simpa using ⟨⟨hmax, hlen⟩, hfits⟩, tail, ?_, hbreaks⟩
      rw [hbytes, ← hleft, htail, stream_cons, List.append_assoc]
    · rintro ⟨hfits, tail, hbytes, hbreaks⟩
      obtain ⟨hmax, hlen⟩ := hfits p (by simp)
      rw [stream_cons, List.append_assoc] at hbytes
      obtain ⟨hok, hhealthy, hleft⟩ := readFrameBytes_front hr hbytes hmax hlen
      exact ⟨hok, (ih hhealthy).mpr ⟨fun q hq => hfits q (by simp [hq]), tail, hleft, hbreaks⟩⟩

/-- Each frame takes bytes, so that some read fails. -/
theorem exists_readsAs (maxFrame : ℕ) (r : Reader) (hr : Healthy r) :
    ∃ ps e, ReadsAs maxFrame r ps e := by
  induction hn : (bytes r).length using Nat.strongRecOn generalizing r with
  | ind n ih =>
    cases hfirst : (readFrameBytes maxFrame r).1 with
    | error e => exact ⟨[], e, (readsAs_nil maxFrame r e).mpr hfirst⟩
    | ok p =>
      have hparsed := hfirst
      rw [readFrameBytes_result hr] at hparsed
      obtain ⟨hmax, hlen, rest, hbytes⟩ := parse_front_of_ok hparsed
      obtain ⟨-, hhealthy, hleft⟩ := readFrameBytes_front hr hbytes hmax hlen
      have hlt : (bytes (readFrameBytes maxFrame r).2).length < n := by
        have hheader : 0 < headerLen := by decide
        rw [hleft, ← hn, hbytes, List.length_append, frame_length]
        omega
      obtain ⟨ps, e, hreads⟩ := ih _ hlt _ hhealthy rfl
      exact ⟨p :: ps, e, (readsAs_cons maxFrame r p ps e).mpr ⟨hfirst, hreads⟩⟩

theorem ReadsAs.unique {r : Reader} {ps ps' : List (List UInt8)} {e e' : FrameError}
    (h : ReadsAs maxFrame r ps e) (h' : ReadsAs maxFrame r ps' e') : ps' = ps ∧ e' = e := by
  induction ps generalizing r ps' with
  | nil =>
    rw [readsAs_nil] at h
    cases ps' with
    | nil =>
      rw [readsAs_nil, h] at h'
      exact ⟨rfl, (Except.error.inj h').symm⟩
    | cons p' ps' =>
      rw [readsAs_cons, h] at h'
      cases h'.1
  | cons p ps ih =>
    rw [readsAs_cons] at h
    cases ps' with
    | nil =>
      rw [readsAs_nil, h.1] at h'
      cases h'
    | cons p' ps' =>
      rw [readsAs_cons, h.1] at h'
      obtain ⟨rfl, rfl⟩ := ih h.2 h'.2
      exact ⟨by rw [Except.ok.inj h'.1], rfl⟩

/-- Any stream falls into frames and bytes that break off in one way only, and that is how it
is read, whatever its chunks: nothing else is accepted, and the numbers in the error are those
of the bytes. -/
theorem stream_grammar (maxFrame : ℕ) (r : Reader) (hr : Healthy r) :
    ∃ ps e, ReadsAs maxFrame r ps e ∧
      ∀ ps' e', FallsInto maxFrame (bytes r) ps' e' ↔ ps' = ps ∧ e' = e := by
  obtain ⟨ps, e, hreads⟩ := exists_readsAs maxFrame r hr
  refine ⟨ps, e, hreads, fun ps' e' => ?_⟩
  rw [← readsAs_iff_fallsInto hr]
  constructor
  · exact hreads.unique
  · rintro ⟨rfl, rfl⟩
    exact hreads

theorem stream_grammar_cut :
    ReadsAs 5 [.data 2 [0, 0], .data 0 [7, 8, 3], .data 0 [0, 0, 9]] [[7, 8]]
      (.unexpectedEof 1 3) := by
  have hr : Healthy [.data 2 [0, 0], .data 0 [7, 8, 3], .data 0 [0, 0, 9]] := by simp [Healthy]
  obtain ⟨ps, e, hreads, hunique⟩ := stream_grammar 5 _ hr
  obtain ⟨rfl, rfl⟩ := (hunique [[7, 8]] (.unexpectedEof 1 3)).mp
    ⟨by simp, toLeBytes headerLen 3 ++ [9], by decide,
      .payload 3 [9] (by decide) (by decide) (by decide)⟩
  exact hreads

end Frame
end SharedDaemon
