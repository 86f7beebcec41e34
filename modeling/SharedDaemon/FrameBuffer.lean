import SharedDaemon.Frame

/-!
# The frame reader over its buffers

The reader as the code runs it: buffers of zeros, slices of them that would panic out of
range, and the counts the fill loop keeps.
-/

namespace SharedDaemon
namespace FrameBuffer

open StdIo SharedDaemon.Frame LengthPrefix

/-- `&mut buf[start..]`; `none` is the panic of a start beyond the end. -/
def sliceFrom (buf : List UInt8) (start : ℕ) : Option (List UInt8) :=
  if start ≤ buf.length then some (buf.drop start) else none

/-- `reader.read(&mut buf[filled..])`: the count, the buffer with the bytes in place, and
the reader left. -/
def readInto (buf : List UInt8) (filled : ℕ) (r : Reader) :
    Option (Except IoError ℕ × List UInt8 × Reader) :=
  match sliceFrom buf filled with
  | none => none
  | some slice =>
    match StdIo.read slice.length r with
    | (.error e, r) => some (.error e, buf, r)
    | (.ok bs, r) => some (.ok bs.length, buf.take filled ++ (bs ++ slice.drop bs.length), r)

@[simp] theorem sliceFrom_eq_none (buf : List UInt8) (start : ℕ) :
    sliceFrom buf start = none ↔ buf.length < start := by
  simp [sliceFrom]

theorem readInto_eq {buf : List UInt8} {filled : ℕ} (h : filled ≤ buf.length) (r : Reader) :
    readInto buf filled r =
      match StdIo.read (buf.length - filled) r with
      | (.error e, r) => some (.error e, buf, r)
      | (.ok bs, r) =>
        some (.ok bs.length, buf.take filled ++ (bs ++ buf.drop (filled + bs.length)), r) := by
  unfold readInto sliceFrom
  simp only [if_pos h, List.length_drop, List.drop_drop]

theorem readInto_ok {buf buf' : List UInt8} {filled n : ℕ} {r r' : Reader}
    (h : readInto buf filled r = some (.ok n, buf', r')) :
    buf'.length = buf.length ∧ filled + n ≤ buf.length := by
  by_cases hfilled : filled ≤ buf.length
  · rw [readInto_eq hfilled] at h
    split at h
    · cases h
    · rename_i bs r₁ hread
      obtain ⟨-, hroom⟩ := bytes_of_read hread
      have hh := Option.some.inj h
      simp only [Prod.mk.injEq, Except.ok.injEq] at hh
      obtain ⟨rfl, rfl, -⟩ := hh
      simp only [List.length_append, List.length_take, List.length_drop]
      omega
  · have hnone := (sliceFrom_eq_none buf filled).mpr (by omega)
    simp [readInto, hnone] at h

def readExactLoop (buf : List UInt8) (filled : ℕ) (r : Reader) :
    Option (Except FrameError Unit × List UInt8 × Reader) :=
  if filled < buf.length then
    match _hread : readInto buf filled r with
    | none => none
    | some (.error e, buf', r') => some (.error (.io e), buf', r')
    | some (.ok n, buf', r') =>
      if n = 0 then some (.error (.unexpectedEof filled buf'.length), buf', r')
      else readExactLoop buf' (filled + n) r'
  else some (.ok (), buf, r)
termination_by buf.length - filled
decreasing_by
  have hok := readInto_ok _hread
  omega

def readExact (buf : List UInt8) (r : Reader) :
    Option (Except FrameError Unit × List UInt8 × Reader) :=
  readExactLoop buf 0 r

/-- What a call of `read_frame_bytes` comes to: its result, the reader left, and the length
of the payload buffer if one was made. -/
structure Outcome where
  result : Except FrameError (List UInt8)
  rest : Reader
  payload : Option ℕ

def readFrameBytes (maxFrame : ℕ) (r : Reader) : Option Outcome :=
  match readExact (List.replicate headerLen 0) r with
  | none => none
  | some (.error e, _, r) => some ⟨.error e, r, none⟩
  | some (.ok (), header, r) =>
    let len := fromLeBytes header
    if len > maxFrame then some ⟨.error (.tooLarge len maxFrame), r, none⟩
    else
      match readExact (List.replicate len 0) r with
      | none => none
      | some (.error e, _, r) => some ⟨.error e, r, some len⟩
      | some (.ok (), payload, r) => some ⟨.ok payload, r, some len⟩

/-- The loop on the buffer is the loop on what it has read: it never slices out of range,
and once it is full the buffer is what was read. -/
theorem readExactLoop_eq {buf : List UInt8} {filled : ℕ} (h : filled ≤ buf.length) (r : Reader) :
    ∃ buf', readExactLoop buf filled r =
        some ((Frame.readExactLoop buf.length (buf.take filled) r).1.map fun _ => (), buf',
          (Frame.readExactLoop buf.length (buf.take filled) r).2) ∧
      ∀ bs, (Frame.readExactLoop buf.length (buf.take filled) r).1 = .ok bs → buf' = bs := by
  have htake : (buf.take filled).length = filled := List.length_take_of_le h
  fun_induction readExactLoop buf filled r with
  | case1 buf filled r hlt hread =>
    rw [readInto_eq h] at hread
    split at hread <;> cases hread
  | case2 buf filled r hlt e buf' r' hread =>
    rw [readInto_eq h] at hread
    rw [Frame.readExactLoop, htake, if_pos hlt]
    rcases hr : read (buf.length - filled) r with ⟨e' | bs, r₁⟩
    · simp only [hr, Option.some.injEq, Prod.mk.injEq, Except.error.injEq] at hread
      obtain ⟨rfl, rfl, rfl⟩ := hread
      exact ⟨buf, rfl, fun bs hbs => by cases hbs⟩
    · simp [hr] at hread
  | case3 buf filled r hlt buf' r' hread =>
    have hlen := (readInto_ok hread).1
    rw [readInto_eq h] at hread
    rw [Frame.readExactLoop, htake, if_pos hlt]
    rcases hr : read (buf.length - filled) r with ⟨e' | bs, r₁⟩
    · simp [hr] at hread
    · simp only [hr, Option.some.injEq, Prod.mk.injEq, Except.ok.injEq] at hread
      obtain ⟨hbs, -, rfl⟩ := hread
      simp only [if_pos hbs]
      exact ⟨buf', by rw [hlen]; rfl, fun bs hbs => by cases hbs⟩
  | case4 buf filled r hlt n buf' r' hread hn ih =>
    obtain ⟨hlen, hroom⟩ := readInto_ok hread
    rw [readInto_eq h] at hread
    rw [Frame.readExactLoop, htake, if_pos hlt]
    rcases hr : read (buf.length - filled) r with ⟨e' | bs, r₁⟩
    · simp [hr] at hread
    · simp only [hr, Option.some.injEq, Prod.mk.injEq, Except.ok.injEq] at hread
      obtain ⟨rfl, rfl, rfl⟩ := hread
      simp only [if_neg hn]
      have hfront : (buf.take filled ++ (bs ++ buf.drop (filled + bs.length))).take
          (filled + bs.length) = buf.take filled ++ bs := by
        rw [← List.append_assoc]
        exact List.take_left' (by rw [List.length_append, htake])
      rw [hlen, hfront] at ih
      exact ih (by omega) (by rw [List.length_append, htake])
  | case5 buf filled r hlt =>
    have hfull : filled = buf.length := by omega
    rw [Frame.readExactLoop, htake, if_neg hlt]
    refine ⟨buf, rfl, fun bs hbs => ?_⟩
    rw [← Except.ok.inj hbs, hfull, List.take_length]

theorem readExact_eq (len : ℕ) (r : Reader) :
    ∃ buf, readExact (List.replicate len 0) r =
        some ((Frame.readExact len r).1.map fun _ => (), buf, (Frame.readExact len r).2) ∧
      ∀ bs, (Frame.readExact len r).1 = .ok bs → buf = bs := by
  have hh := readExactLoop_eq (Nat.zero_le (List.replicate len (0 : UInt8)).length) r
  unfold readExact Frame.readExact
  simpa only [List.length_replicate, List.take_zero] using hh

/-- The length of the payload buffer a read makes, which it learns from the header. -/
def payloadBuffer (maxFrame : ℕ) (r : Reader) : Option ℕ :=
  match (Frame.readExact headerLen r).1 with
  | .error _ => none
  | .ok header => if fromLeBytes header > maxFrame then none else some (fromLeBytes header)

/-- The reader with its buffers is the reader without them, on every stream. -/
theorem readFrameBytes_eq (maxFrame : ℕ) (r : Reader) :
    readFrameBytes maxFrame r =
      some ⟨(Frame.readFrameBytes maxFrame r).1, (Frame.readFrameBytes maxFrame r).2,
        payloadBuffer maxFrame r⟩ := by
  obtain ⟨header, hheader, hfull⟩ := readExact_eq headerLen r
  unfold readFrameBytes Frame.readFrameBytes payloadBuffer
  rw [hheader]
  rcases hr : Frame.readExact headerLen r with ⟨_ | bs, r₁⟩
  · rfl
  have hbs := hfull bs (by rw [hr])
  subst hbs
  by_cases hmax : fromLeBytes header > maxFrame
  · simp [Except.map, hmax]
  obtain ⟨payload, hpayload, hfull₂⟩ := readExact_eq (fromLeBytes header) r₁
  simp only [Except.map, hmax, if_false, hpayload]
  rcases hr₂ : Frame.readExact (fromLeBytes header) r₁ with ⟨_ | bs₂, r₂⟩
  · rfl
  have hbs₂ := hfull₂ bs₂ (by rw [hr₂])
  subst hbs₂
  rfl

def declared (bs : List UInt8) : ℕ := fromLeBytes (bs.take headerLen)

theorem readExact_short (len : ℕ) {r : Reader} (hr : Healthy r) (h : (bytes r).length < len) :
    Frame.readExact len r = (.error (.unexpectedEof (bytes r).length len), []) := by
  have hloop := readExactLoop_short r Ending.eof.reader hr len [] (by simpa using h)
  rw [List.nil_append, readExactLoop_ending .eof h] at hloop
  simpa [Frame.readExact, Ending.reader, Ending.rest, endError] using hloop

theorem readExact_filled (len : ℕ) {r : Reader} (hr : Healthy r) (h : len ≤ (bytes r).length) :
    ∃ r', Frame.readExact len r = (.ok ((bytes r).take len), r') ∧ Healthy r' ∧
      bytes r' = (bytes r).drop len := by
  obtain ⟨r', hr', hrest, hloop⟩ := readExactLoop_filled r Ending.eof.reader hr len []
    (Nat.zero_le _) (by simpa using h)
  refine ⟨r', ?_, hr', by simpa using hrest⟩
  simpa [Frame.readExact, Ending.reader] using hloop

/-- A frame read of a stream that ends without failures: its result, its consumption and
the buffer it makes, from the bytes alone. -/
theorem readFrameBytes_grammar (maxFrame : ℕ) (r : Reader) (hr : Healthy r) :
    ∃ out, readFrameBytes maxFrame r = some out ∧
      ((bytes r).length < headerLen →
        out.result = .error (.unexpectedEof (bytes r).length headerLen) ∧
          bytes out.rest = [] ∧ out.payload = none) ∧
      (headerLen ≤ (bytes r).length → maxFrame < declared (bytes r) →
        out.result = .error (.tooLarge (declared (bytes r)) maxFrame) ∧
          bytes out.rest = (bytes r).drop headerLen ∧ out.payload = none) ∧
      (∀ k, (bytes r).length = headerLen + k → declared (bytes r) ≤ maxFrame →
        k < declared (bytes r) →
        out.result = .error (.unexpectedEof k (declared (bytes r))) ∧
          bytes out.rest = [] ∧ out.payload = some (declared (bytes r))) ∧
      (headerLen + declared (bytes r) ≤ (bytes r).length → declared (bytes r) ≤ maxFrame →
        out.result = .ok (((bytes r).drop headerLen).take (declared (bytes r))) ∧
          bytes out.rest = (bytes r).drop (headerLen + declared (bytes r)) ∧
          out.payload = some (declared (bytes r))) := by
  refine ⟨_, readFrameBytes_eq maxFrame r, ?_, ?_, ?_, ?_⟩
  · intro hshort
    simp [Frame.readFrameBytes, payloadBuffer, readExact_short _ hr hshort]
  · intro hheader hmax
    obtain ⟨r₁, hread, -, hrest⟩ := readExact_filled _ hr hheader
    simp only [Frame.readFrameBytes, payloadBuffer, hread]
    rw [← declared, if_pos hmax, if_pos hmax]
    exact ⟨rfl, hrest, rfl⟩
  · intro k hk hmax hshort
    obtain ⟨r₁, hread, hr₁, hrest⟩ := readExact_filled headerLen hr (by omega)
    have hlen : (bytes r₁).length = k := by rw [hrest, List.length_drop]; omega
    simp only [Frame.readFrameBytes, payloadBuffer, hread]
    rw [← declared, if_neg (by omega), if_neg (by omega), readExact_short _ hr₁ (by omega), hlen]
    exact ⟨rfl, rfl, rfl⟩
  · intro hbody hmax
    obtain ⟨r₁, hread, hr₁, hrest⟩ := readExact_filled headerLen hr (by omega)
    obtain ⟨r₂, hread₂, -, hrest₂⟩ := readExact_filled (declared (bytes r)) hr₁
      (by rw [hrest, List.length_drop]; omega)
    simp only [Frame.readFrameBytes, payloadBuffer, hread]
    rw [← declared, if_neg (by omega), if_neg (by omega), hread₂, hrest]
    exact ⟨rfl, by rw [hrest₂, hrest, List.drop_drop], rfl⟩

/-- A frame of two bytes chopped inside its header and at the border, with a byte behind it. -/
theorem readFrameBytes_grammar_chopped :
    ∃ out, readFrameBytes 10 [.data 2 [0], .data 0 [0], .data 7 [], .data 8 [9]] = some out ∧
      out.result = .ok [7, 8] ∧ bytes out.rest = [9] ∧ out.payload = some 2 := by
  obtain ⟨out, hout, -, -, -, hok⟩ := readFrameBytes_grammar 10
    [.data 2 [0], .data 0 [0], .data 7 [], .data 8 [9]] (by simp)
  exact ⟨out, hout, hok (by decide) (by decide)⟩

end FrameBuffer
end SharedDaemon
