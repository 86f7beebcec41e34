import SharedDaemon.Frame

/-!
# Frame boundaries

Where a frame read that starts between two frames of a stream leaves it: between two
frames, or inside the one at which it stopped.
-/

namespace SharedDaemon
namespace Frame

open StdIo LengthPrefix

/-- What is still to be read is a tail of the frames. -/
def AtBoundary (frames : List (List UInt8)) (r : Reader) : Prop :=
  ∃ k, bytes r = stream headerLen (frames.drop k)

/-- Whether a frame read has consumed a part of a frame when it fails: a header alone, or
what came before the stream failed or ended. -/
def stopsInside (maxFrame : ℕ) (r : Reader) : Bool :=
  match parse headerLen maxFrame (stretch r) with
  | .frame _ _ => false
  | .shortHeader n => n ≠ 0
  | .tooLarge _ _ | .shortPayload _ _ => true

/-- The bytes from the place inside a frame at which a read stops up to the next failure. -/
def stranded (maxFrame : ℕ) (r : Reader) : List UInt8 :=
  match parse headerLen maxFrame (stretch r) with
  | .frame _ _ => []
  | .tooLarge _ rest => rest
  | .shortHeader n => if n = 0 then [] else stretch (afterFailure r)
  | .shortPayload _ _ => stretch (afterFailure r)

theorem stranded_eq_nil {maxFrame : ℕ} {r : Reader} (h : stopsInside maxFrame r = false) :
    stranded maxFrame r = [] := by
  unfold stopsInside at h
  unfold stranded
  split at h <;> simp_all

theorem not_atBoundary {frames : List (List UInt8)} {k : ℕ} {p : List UInt8}
    {ps : List (List UInt8)} (hk : frames.drop k = p :: ps) {r : Reader}
    (hlower : (stream headerLen ps).length < (bytes r).length)
    (hupper : (bytes r).length < headerLen + p.length + (stream headerLen ps).length) :
    ¬ AtBoundary frames r := by
  rintro ⟨j, hj⟩
  have hps : frames.drop (k + 1) = ps := by rw [← List.tail_drop, hk, List.tail_cons]
  rw [hj] at hlower hupper
  rcases Nat.lt_or_ge k j with hlt | hge
  · have hle := stream_drop_length_le headerLen frames (Nat.succ_le_of_lt hlt)
    rw [Nat.succ_eq_add_one, hps] at hle
    omega
  · have hle := stream_drop_length_le headerLen frames hge
    rw [hk, stream_cons, List.length_append, frame_length] at hle
    omega

theorem atBoundary_of_drop {frames : List (List UInt8)} {k : ℕ} {p : List UInt8}
    {ps : List (List UInt8)} (hdrop : frames.drop k = p :: ps) {q q₁ : Reader} {fin : Ending}
    (hk : bytes q ++ bytes fin.rest = frame headerLen p ++ stream headerLen ps)
    (hbody : headerLen + p.length ≤ (bytes q).length)
    (hrest : bytes q₁ = (bytes q).drop (headerLen + p.length)) :
    AtBoundary frames (q₁ ++ fin.reader) := by
  have hps : frames.drop (k + 1) = ps := by rw [← List.tail_drop, hdrop, List.tail_cons]
  have hbytes := congrArg (List.drop (headerLen + p.length)) hk
  rw [List.drop_append_of_le_length hbody, List.drop_left' (frame_length _ _)] at hbytes
  exact ⟨k + 1, by rw [bytes_append, bytes_ending, hrest, hbytes, hps]⟩

/-- A frame read that starts on a boundary ends on one, unless it stops inside a frame. -/
theorem readFrameBytes_boundary {frames : List (List UInt8)}
    (hlen : ∀ p ∈ frames, p.length < 2 ^ 32) (maxFrame : ℕ) {r : Reader}
    (hr : AtBoundary frames r) :
    (stopsInside maxFrame r = false ∧ AtBoundary frames (readFrameBytes maxFrame r).2 ∧
      ∀ p, (readFrameBytes maxFrame r).1 = .ok p → p ∈ frames) ∨
    (stopsInside maxFrame r = true ∧ ¬ AtBoundary frames (readFrameBytes maxFrame r).2 ∧
      stretch (readFrameBytes maxFrame r).2 = stranded maxFrame r ∧
      ∃ e, (readFrameBytes maxFrame r).1 = .error e) := by
  obtain ⟨k, hk⟩ := hr
  obtain ⟨q, fin, hq, rfl⟩ := exists_stretch r
  obtain ⟨r', hread, hleaves⟩ := readFrameBytes_eq_parse maxFrame q hq fin
  rw [hread]
  unfold stopsInside stranded
  simp only [stretch_append hq, afterFailure_append hq]
  rw [bytes_append, bytes_ending] at hk
  cases hdrop : frames.drop k with
  | nil =>
    rw [hdrop, stream_nil, List.append_eq_nil_iff] at hk
    have hparse : parse headerLen maxFrame (bytes q) = .shortHeader 0 := by
      rw [hk.1]
      rfl
    rw [hparse] at hleaves ⊢
    obtain rfl := hleaves
    exact .inl ⟨rfl, ⟨k, by rw [hdrop, hk.2, stream_nil]⟩, by simp [parseResult]⟩
  | cons p ps =>
    have hp : p ∈ frames := List.mem_of_mem_drop (hdrop ▸ List.mem_cons_self)
    have hpos : 0 < headerLen := by decide
    rw [hdrop, stream_cons] at hk
    have htotal := congrArg List.length hk
    simp only [List.length_append, frame_length] at htotal
    have hparse := parse_of_append_eq maxFrame hk (hlen p hp)
    by_cases hheader : (bytes q).length < headerLen
    · rw [if_pos hheader] at hparse
      rw [hparse] at hleaves ⊢
      obtain rfl := hleaves
      by_cases hzero : (bytes q).length = 0
      · -- nothing has been read yet
        rw [List.eq_nil_of_length_eq_zero hzero, List.nil_append] at hk
        exact .inl ⟨by simp [hzero], ⟨k, by rw [hdrop, hk, stream_cons]⟩, by simp [parseResult]⟩
      · exact .inr ⟨by simp [hzero], not_atBoundary hdrop (by omega) (by omega), by simp [hzero],
          _, rfl⟩
    rw [if_neg hheader] at hparse
    by_cases hmax : maxFrame < p.length
    · rw [if_pos hmax] at hparse
      rw [hparse] at hleaves ⊢
      obtain ⟨q₁, hq₁, hrest, rfl⟩ := hleaves
      have hleft : (bytes (q₁ ++ fin.reader)).length + headerLen =
          headerLen + p.length + (stream headerLen ps).length := by
        rw [bytes_append, bytes_ending, List.length_append, hrest, List.length_drop]
        omega
      exact .inr ⟨rfl, not_atBoundary hdrop (by omega) (by omega),
        by rw [stretch_append hq₁, hrest], _, rfl⟩
    rw [if_neg hmax] at hparse
    by_cases hbody : (bytes q).length < headerLen + p.length
    · rw [if_pos hbody] at hparse
      rw [hparse] at hleaves ⊢
      obtain rfl := hleaves
      exact .inr ⟨rfl, not_atBoundary hdrop (by omega) (by omega), rfl, _, rfl⟩
    rw [if_neg hbody] at hparse
    rw [hparse] at hleaves ⊢
    obtain ⟨q₁, hq₁, hrest, rfl⟩ := hleaves
    exact .inl ⟨rfl, atBoundary_of_drop hdrop hk (by omega) hrest, by rintro _ ⟨⟩; exact hp⟩

theorem readFrameBytes_short (maxFrame : ℕ) {r : Reader} (h : (stretch r).length < headerLen) :
    ∃ e, (readFrameBytes maxFrame r).1 = .error e := by
  obtain ⟨q, fin, hq, rfl⟩ := exists_stretch r
  obtain ⟨r', hread, -⟩ := readFrameBytes_eq_parse maxFrame q hq fin
  rw [stretch_append hq] at h
  rw [hread, parse, if_pos h]
  exact ⟨_, rfl⟩

end Frame
end SharedDaemon
