import SharedDaemon.Frame
import SharedDaemon.StdPath

/-!
# Streams of frames, written and read back

A list of messages is written to one writer, rejected ones included, and the stream is
read back from a reader that chops it differently. Payloads and typed messages are two
instances of one argument over a `payload` function.
-/

namespace SharedDaemon
namespace Frame

open StdIo StdPath LengthPrefix

variable {M : Type*}

/-- Write the messages in turn to one writer, going on after a failure. -/
def writeEach (write : M → Writer → Except FrameError Unit × Writer) :
    List M → Writer → List (Except FrameError Unit) × Writer
  | [], w => ([], w)
  | m :: ms, w =>
    let x := write m w
    let y := writeEach write ms x.2
    (x.1 :: y.1, y.2)

def readTimes (read : Reader → Except FrameError M × Reader) :
    ℕ → Reader → List (Except FrameError M) × Reader
  | 0, r => ([], r)
  | n + 1, r =>
    let x := read r
    let y := readTimes read n x.2
    (x.1 :: y.1, y.2)

def accepted (payload : M → List UInt8) (limit : ℕ) (ms : List M) : List M :=
  ms.filter fun m => (payload m).length ≤ limit

/-- What a reader gets back of a list of messages, and where it stands in between. -/
structure RoundTrips (write : M → Writer → Except FrameError Unit × Writer)
    (read : Reader → Except FrameError M × Reader) (payload : M → List UInt8) (limit : ℕ)
    (ms : List M) (out : Writer) (input : Reader) : Prop where
  answers : (writeEach write ms out).1 = ms.map fun m =>
    if (payload m).length ≤ limit then .ok () else .error (.tooLarge (payload m).length limit)
  silent : ∀ m ∈ ms, limit < (payload m).length → ∀ w, (write m w).2 = w
  consumed : ∀ k ≤ (accepted payload limit ms).length, bytes (readTimes read k input).2 =
    stream headerLen (((accepted payload limit ms).drop k).map payload)
  received : (readTimes read ((accepted payload limit ms).length + 1) input).1 =
    (accepted payload limit ms).map Except.ok ++ [.error (.unexpectedEof 0 4)]

theorem writeEach_accepting {write : M → Writer → Except FrameError Unit × Writer}
    {payload : M → List UInt8} {limit : ℕ} {ms : List M}
    (hwrite : ∀ m ∈ ms, ∀ w, write m w = writeFrameBytes (payload m) limit w)
    (hlen : ∀ m ∈ ms, (payload m).length < 2 ^ 32) {w : Writer} (hw : Accepting w) :
    (writeEach write ms w).1 = (ms.map fun m =>
        if (payload m).length ≤ limit then .ok ()
        else .error (.tooLarge (payload m).length limit)) ∧
      (writeEach write ms w).2.sent =
        w.sent ++ stream headerLen ((accepted payload limit ms).map payload) := by
  induction ms generalizing w with
  | nil => simp [writeEach, accepted]
  | cons m ms ih =>
    have hms {w₁ : Writer} (hw₁ : Accepting w₁) :=
      ih (fun n hn => hwrite n (by simp [hn])) (fun n hn => hlen n (by simp [hn])) hw₁
    simp only [writeEach, hwrite m (by simp) w]
    by_cases hm : (payload m).length ≤ limit
    · obtain ⟨hok, hsent, hacc⟩ := writeFrameBytes_accepting hm hw
      obtain ⟨hans, hrest⟩ := hms hacc
      rw [hans, hrest, hok, hsent, wire_eq_frame (hlen m (by simp))]
      simp [accepted, hm]
    · obtain ⟨hans, hrest⟩ := hms hw
      rw [writeFrameBytes_tooLarge w (Nat.not_le.mp hm), hans, hrest]
      simp [accepted, hm]

theorem readTimes_stream {read : Reader → Except FrameError M × Reader}
    {payload : M → List UInt8} {limit : ℕ} (ms : List M)
    (hread : ∀ m ∈ ms, ∀ r r', readFrameBytes limit r = (.ok (payload m), r') →
      read r = (.ok m, r'))
    (hend : ∀ e r r', readFrameBytes limit r = (.error e, r') → read r = (.error e, r'))
    (hmax : ∀ m ∈ ms, (payload m).length ≤ limit) (hlen : ∀ m ∈ ms, (payload m).length < 2 ^ 32)
    {q : Reader} (hq : Healthy q) (hbytes : bytes q = stream headerLen (ms.map payload)) :
    (∀ k ≤ ms.length, bytes (readTimes read k q).2 =
      stream headerLen ((ms.drop k).map payload)) ∧
    (readTimes read (ms.length + 1) q).1 = ms.map Except.ok ++ [.error (.unexpectedEof 0 4)] := by
  induction ms generalizing q with
  | nil =>
    obtain ⟨r', hr, -⟩ := readFrameBytes_eq_parse limit q hq .eof
    rw [Ending.reader, List.append_nil, hbytes] at hr
    refine ⟨fun k hk => ?_, ?_⟩
    · obtain rfl : k = 0 := by simpa using hk
      simpa [readTimes] using hbytes
    · simp only [List.length_nil, readTimes, hend _ _ _ hr]
      rfl
  | cons m ms ih =>
    obtain ⟨r', hr, hleaves⟩ := readFrameBytes_eq_parse limit q hq .eof
    have hparse : parse headerLen limit (bytes q) =
        .frame (payload m) (stream headerLen (ms.map payload)) := by
      rw [hbytes, List.map_cons, stream_cons]
      exact parse_frame_append _ (hmax m (by simp)) (hlen m (by simp))
    rw [hparse, Ending.reader, List.append_nil] at hr
    rw [hparse] at hleaves
    obtain ⟨q', hq', hrest, rfl⟩ := hleaves
    rw [Ending.reader, List.append_nil] at hr
    obtain ⟨hcons, hrecv⟩ := ih (fun n hn => hread n (by simp [hn]))
      (fun n hn => hmax n (by simp [hn])) (fun n hn => hlen n (by simp [hn])) hq' hrest
    have hm := hread m (by simp) q q' hr
    refine ⟨fun k hk => ?_, ?_⟩
    · cases k with
      | zero => simpa [readTimes] using hbytes
      | succ k =>
        simp only [readTimes, hm, List.drop_succ_cons]
        exact hcons k (by simpa using hk)
    · rw [List.length_cons, readTimes]
      simp only [hm, hrecv, List.map_cons, List.cons_append]

/-- The round trip for any kind of message whose reads and writes are those of a payload. -/
theorem roundTrips_of_payload {write : M → Writer → Except FrameError Unit × Writer}
    {read : Reader → Except FrameError M × Reader} {payload : M → List UInt8}
    {limit readLimit : ℕ} {ms : List M} (hlimit : limit ≤ readLimit)
    (hwrite : ∀ m ∈ ms, ∀ w, write m w = writeFrameBytes (payload m) limit w)
    (hread : ∀ m ∈ ms, ∀ r r', readFrameBytes readLimit r = (.ok (payload m), r') →
      read r = (.ok m, r'))
    (hend : ∀ e r r', readFrameBytes readLimit r = (.error e, r') → read r = (.error e, r'))
    (hlen : ∀ m ∈ ms, (payload m).length < 2 ^ 32) {script : List WriteEvent}
    (hscript : Accepting ⟨[], script⟩) {input : Reader} (hinput : Healthy input)
    (hbytes : bytes input = (writeEach write ms ⟨[], script⟩).2.sent) :
    RoundTrips write read payload limit ms ⟨[], script⟩ input := by
  obtain ⟨hans, hsent⟩ := writeEach_accepting hwrite hlen hscript
  have hsub (m : M) (hm : m ∈ accepted payload limit ms) :
      m ∈ ms ∧ (payload m).length ≤ limit := by simpa [accepted] using hm
  obtain ⟨hcons, hrecv⟩ := readTimes_stream (accepted payload limit ms)
    (fun m hm => hread m (hsub m hm).1) hend (fun m hm => (hsub m hm).2.trans hlimit)
    (fun m hm => hlen m (hsub m hm).1) hinput (by rw [hbytes, hsent, List.nil_append])
  refine ⟨hans, fun m hm hbig w => ?_, hcons, hrecv⟩
  rw [hwrite m hm w, writeFrameBytes_tooLarge w hbig]

/-- The serialised form of a message; a message that does not serialise has none. -/
def payloadOf (toVec : M → Except String (List UInt8)) (m : M) : List UInt8 :=
  match toVec m with
  | .ok payload => payload
  | .error _ => []

/-- Payloads and typed messages written with a limit and read with at least that limit
come back as they were, in order, whatever the chunks on either side. -/
theorem framed_stream_round_trip (toVec : M → Except String (List UInt8))
    (fromSlice : List UInt8 → Except String M) (limit readLimit : ℕ) (hlimit : limit ≤ readLimit)
    (script : List WriteEvent) (hscript : Accepting ⟨[], script⟩)
    (input : Reader) (hinput : Healthy input) :
    (∀ payloads : List (List UInt8), (∀ p ∈ payloads, p.length < 2 ^ 32) →
      bytes input = (writeEach (writeFrameBytes · limit) payloads ⟨[], script⟩).2.sent →
      RoundTrips (writeFrameBytes · limit) (readFrameBytes readLimit) id limit payloads
        ⟨[], script⟩ input) ∧
    ∀ msgs : List M, (∀ m ∈ msgs, ∃ payload, toVec m = .ok payload ∧
        fromSlice payload = .ok m ∧ payload.length < 2 ^ 32) →
      bytes input = (writeEach (writeFrameWithLimit toVec · limit) msgs ⟨[], script⟩).2.sent →
      RoundTrips (writeFrameWithLimit toVec · limit) (readFrameWithLimit fromSlice readLimit)
        (payloadOf toVec) limit msgs ⟨[], script⟩ input := by
  constructor
  · intro payloads hlen hbytes
    exact roundTrips_of_payload hlimit (fun _ _ _ => rfl) (fun _ _ _ _ h => h)
      (fun _ _ _ h => h) hlen hscript hinput hbytes
  · intro msgs hmsgs hbytes
    refine roundTrips_of_payload hlimit (fun m hm w => ?_) (fun m hm r r' hr => ?_)
      (fun e r r' hr => ?_) (fun m hm => ?_) hscript hinput hbytes
    · obtain ⟨payload, hto, -, -⟩ := hmsgs m hm
      simp only [writeFrameWithLimit, payloadOf, hto]
    · obtain ⟨payload, hto, hfrom, -⟩ := hmsgs m hm
      simp only [payloadOf, hto] at hr
      simp only [readFrameWithLimit, hr, hfrom]
    · simp only [readFrameWithLimit, hr]
    · obtain ⟨payload, hto, -, hlen⟩ := hmsgs m hm
      simpa only [payloadOf, hto] using hlen

def boolToVec (b : Bool) : Except String (List UInt8) :=
  .ok (ofString (if b then "true" else "false"))

def boolFromSlice (payload : List UInt8) : Except String Bool :=
  if payload = ofString "true" then .ok true
  else if payload = ofString "false" then .ok false
  else .error "expected value at line 1 column 1"

theorem framed_stream_round_trip_booleans :
    RoundTrips (writeFrameBytes · 2) (readFrameBytes 3) id 2 [[7, 8], [1, 2, 3], []]
        ⟨[], [.accept 1, .accept 4]⟩ [.data 2 [0], .data 0 [0, 7], .data 8 [0, 0, 0, 0]] ∧
      RoundTrips (writeFrameWithLimit boolToVec · 4) (readFrameWithLimit boolFromSlice 9)
        (payloadOf boolToVec) 4 [true, false, true] ⟨[], [.accept 1, .accept 4]⟩
        (unread (stream headerLen [ofString "true", ofString "true"]) []) := by
  have hscript : Accepting ⟨[], [.accept 1, .accept 4]⟩ := by simp [Accepting]
  constructor
  · exact (framed_stream_round_trip boolToVec boolFromSlice 2 3 (by decide) _ hscript _
      (by simp [Healthy])).1 _ (by decide) (by decide +kernel)
  · refine (framed_stream_round_trip boolToVec boolFromSlice 4 9 (by decide) _ hscript _
      (by simp [healthy_unread])).2 _ (fun m _ => ?_) (by decide +kernel)
    cases m with
    | true => exact ⟨ofString "true", rfl, rfl, by decide +kernel⟩
    | false => exact ⟨ofString "false", rfl, by decide +kernel, by decide +kernel⟩

end Frame
end SharedDaemon
