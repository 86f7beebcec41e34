import SharedDaemon.Frame

/-!
# The frame cap against the width of the header

A cap may be any `usize`, and the length on the wire has four bytes.
-/

namespace SharedDaemon
namespace Frame

open StdIo LengthPrefix

/-- A payload that is accepted is one frame, which the reader with the same cap takes as it
was; one that does not fit the header is refused before anything is written. -/
structure AcceptedIsFrame (payload : List UInt8) (maxFrame : ℕ) : Prop where
  frame : ∀ w w', writeFrameBytes payload maxFrame w = (.ok (), w') →
    ∃ out, w'.sent = w.sent ++ out ∧ fromLeBytes (out.take headerLen) = payload.length ∧
      ∀ r, Healthy r → bytes r = out →
        ∃ r', readFrameBytes maxFrame r = (.ok payload, r') ∧ bytes r' = []
  refused : 2 ^ 32 ≤ payload.length → ∀ w, ∃ e w',
    writeFrameBytes payload maxFrame w = (.error e, w') ∧ w'.sent = w.sent

variable {payload : List UInt8} {maxFrame : ℕ}

theorem fits_header (h : payload.length < 2 ^ 32) : payload.length < 256 ^ headerLen := h

theorem readFrameBytes_frame (hmax : payload.length ≤ maxFrame) (hfits : payload.length < 2 ^ 32)
    {r : Reader} (hr : Healthy r) (hbytes : bytes r = frame headerLen payload) :
    ∃ r', readFrameBytes maxFrame r = (.ok payload, r') ∧ bytes r' = [] := by
  have hparse : parse headerLen maxFrame (bytes r) = .frame payload [] := by
    have hframe := parse_frame_append [] hmax (fits_header hfits)
    rwa [List.append_nil, ← hbytes] at hframe
  obtain ⟨r', hread, hleaves⟩ := readFrameBytes_eq_parse maxFrame r hr .eof
  rw [hparse] at hread hleaves
  obtain ⟨q, -, hq, rfl⟩ := hleaves
  have hsame : r ++ Ending.eof.reader = r := List.append_nil r
  rw [hsame] at hread
  exact ⟨_, hread, by rw [bytes_append, hq]; rfl⟩

theorem sent_frame (hfits : payload.length < 2 ^ 32) {w w' : Writer}
    (h : writeFrameBytes payload maxFrame w = (.ok (), w')) :
    payload.length ≤ maxFrame ∧ w'.sent = w.sent ++ frame headerLen payload := by
  rcases Nat.lt_or_ge maxFrame payload.length with hbig | hmax
  · rw [writeFrameBytes_tooLarge w hbig] at h
    cases (Prod.mk.inj h).1
  · obtain ⟨hafter, hiff⟩ := writeFrameBytes_transfer w hmax
    rw [h] at hafter hiff
    obtain rfl : w' = _ := hafter
    refine ⟨hmax, ?_⟩
    rw [hiff.mp rfl, ← wire_length, List.take_length, wire_eq_frame hfits]

theorem accepted_of_le (hmax : payload.length ≤ maxFrame) :
    (writeFrameBytes payload maxFrame ⟨[], []⟩).1 = .ok () :=
  (writeFrameBytes_accepting hmax (by simp [Accepting])).1

/-- A write keeps its promise exactly when the payload's length fits the header, or is over
the cap. -/
theorem accepted_is_frame_iff (payload : List UInt8) (maxFrame : ℕ) :
    AcceptedIsFrame payload maxFrame ↔ payload.length < 2 ^ 32 ∨ maxFrame < payload.length := by
  constructor
  · intro h
    by_contra hnot
    push Not at hnot
    obtain ⟨hlong, hmax⟩ := hnot
    obtain ⟨e, w', herror, -⟩ := h.refused hlong ⟨[], []⟩
    have hok := accepted_of_le hmax
    rw [herror] at hok
    cases hok
  · rintro (hfits | hbig)
    · refine ⟨?_, fun hlong => absurd hfits (Nat.not_lt.mpr hlong)⟩
      intro w w' hwrite
      obtain ⟨hmax, hsent⟩ := sent_frame hfits hwrite
      refine ⟨frame headerLen payload, hsent, ?_, fun r hr => readFrameBytes_frame hmax hfits hr⟩
      rw [frame, List.take_left' (toLeBytes_length _ _), fromLeBytes_toLeBytes,
        Nat.mod_eq_of_lt (fits_header hfits)]
    · refine ⟨?_, fun _ w => ⟨_, w, writeFrameBytes_tooLarge w hbig, rfl⟩⟩
      intro w w' hwrite
      rw [writeFrameBytes_tooLarge w hbig] at hwrite
      cases (Prod.mk.inj hwrite).1

/-- A payload of 4 GiB under a cap of that size is accepted, behind another length. -/
theorem four_gib_is_accepted :
    ¬ ∀ (payload : List UInt8) (maxFrame : ℕ), maxFrame < 2 ^ 64 →
      AcceptedIsFrame payload maxFrame := by
  intro h
  have hlength : (List.replicate (2 ^ 32) (0 : UInt8)).length = 2 ^ 32 := List.length_replicate
  generalize List.replicate (2 ^ 32) (0 : UInt8) = payload at hlength
  obtain ⟨e, w', herror, -⟩ := (h payload (2 ^ 32) (by decide)).refused hlength.ge ⟨[], []⟩
  have hok := accepted_of_le hlength.le
  rw [herror] at hok
  cases hok

end Frame
end SharedDaemon
