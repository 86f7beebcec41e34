import SharedDaemon.LengthPrefix
import SharedDaemon.StdIo

/-!
# The framing codec

Four bytes of little-endian length, then the payload, over any reader and writer.
-/

namespace SharedDaemon
namespace Frame

open StdIo LengthPrefix

def defaultMaxFrameBytes : ℕ := 1024 * 1024

def headerLen : ℕ := 4

/-- Errors raised by the framing codec; a serde error is known by its text. -/
inductive FrameError
  | tooLarge (len max : ℕ)
  | unexpectedEof (read needed : ℕ)
  | json (text : String)
  | io (e : IoError)
  deriving DecidableEq, Repr

/-- `u32::try_from(n).unwrap_or(u32::MAX)` -/
def clampU32 (n : ℕ) : ℕ := if n < 2 ^ 32 then n else 2 ^ 32 - 1

/-- Write a pre-serialised payload with a 4-byte LE length prefix. -/
def writeFrameBytes (payload : List UInt8) (maxFrame : ℕ) (w : Writer) :
    Except FrameError Unit × Writer :=
  let len := payload.length
  if len > maxFrame then (.error (.tooLarge len maxFrame), w)
  else
    let header := toLeBytes headerLen (clampU32 len)
    match writeAll header w with
    | (.error e, w) => (.error (.io e), w)
    | (.ok (), w) =>
      match writeAll payload w with
      | (.error e, w) => (.error (.io e), w)
      | (.ok (), w) =>
        match flush w with
        | (.error e, w) => (.error (.io e), w)
        | (.ok (), w) => (.ok (), w)

/-- Serialise `msg` and write it; `toVec` is `serde_json::to_vec` at its type. -/
def writeFrameWithLimit {T : Type*} (toVec : T → Except String (List UInt8)) (msg : T)
    (maxFrame : ℕ) (w : Writer) : Except FrameError Unit × Writer :=
  match toVec msg with
  | .error text => (.error (.json text), w)
  | .ok payload => writeFrameBytes payload maxFrame w

def writeFrame {T : Type*} (toVec : T → Except String (List UInt8)) (msg : T) (w : Writer) :
    Except FrameError Unit × Writer :=
  writeFrameWithLimit toVec msg defaultMaxFrameBytes w

/-- The fill loop of `read_exact`: `filled` is the part of the buffer already read. -/
def readExactLoop (len : ℕ) (filled : List UInt8) (r : Reader) :
    Except FrameError (List UInt8) × Reader :=
  if filled.length < len then
    match StdIo.read (len - filled.length) r with
    | (.error e, r) => (.error (.io e), r)
    | (.ok bs, r) =>
      if bs.length = 0 then (.error (.unexpectedEof filled.length len), r)
      else readExactLoop len (filled ++ bs) r
  else (.ok filled, r)
termination_by len - filled.length
decreasing_by
  rw [List.length_append]
  omega

def readExact (len : ℕ) (r : Reader) : Except FrameError (List UInt8) × Reader :=
  readExactLoop len [] r

def readFrameBytes (maxFrame : ℕ) (r : Reader) : Except FrameError (List UInt8) × Reader :=
  match readExact headerLen r with
  | (.error e, r) => (.error e, r)
  | (.ok header, r) =>
    let len := fromLeBytes header
    if len > maxFrame then (.error (.tooLarge len maxFrame), r)
    else readExact len r

/-- Read one framed message; `fromSlice` is `serde_json::from_slice` at its type. -/
def readFrameWithLimit {T : Type*} (fromSlice : List UInt8 → Except String T) (maxFrame : ℕ)
    (r : Reader) : Except FrameError T × Reader :=
  match readFrameBytes maxFrame r with
  | (.error e, r) => (.error e, r)
  | (.ok payload, r) =>
    match fromSlice payload with
    | .error text => (.error (.json text), r)
    | .ok msg => (.ok msg, r)

def readFrame {T : Type*} (fromSlice : List UInt8 → Except String T) (r : Reader) :
    Except FrameError T × Reader :=
  readFrameWithLimit fromSlice defaultMaxFrameBytes r

theorem bytes_of_readExactLoop {len : ℕ} {filled bs : List UInt8} {r r' : Reader}
    (hlen : filled.length ≤ len) (h : readExactLoop len filled r = (.ok bs, r')) :
    filled ++ bytes r = bs ++ bytes r' ∧ bs.length = len := by
  fun_induction readExactLoop len filled r with
  | case1 filled r hlt e r₁ hread => cases (Prod.mk.inj h).1
  | case2 filled r hlt cs r₁ hread hcs => cases (Prod.mk.inj h).1
  | case3 filled r hlt cs r₁ hread hcs ih =>
    obtain ⟨hbytes, hroom⟩ := bytes_of_read hread
    have hh := ih (by rw [List.length_append]; omega) h
    rw [hbytes, ← List.append_assoc]
    exact hh
  | case4 filled r hlt =>
    obtain ⟨hb, rfl⟩ := Prod.mk.inj h
    obtain rfl := Except.ok.inj hb
    exact ⟨rfl, by omega⟩

theorem bytes_of_readExactLoop_error {len : ℕ} {filled : List UInt8} {r r' : Reader}
    {e : FrameError} (h : readExactLoop len filled r = (.error e, r')) :
    ∃ got, bytes r = got ++ bytes r' ∧ (filled ++ got).length < len ∧
      (e = .unexpectedEof (filled ++ got).length len ∧ bytes r' = [] ∨ ∃ ioe, e = .io ioe) := by
  fun_induction readExactLoop len filled r with
  | case1 filled r hlt ioe r₁ hread =>
    obtain ⟨he, rfl⟩ := Prod.mk.inj h
    refine ⟨[], by simp [bytes_of_read_error hread], by simpa using hlt, Or.inr ⟨ioe, ?_⟩⟩
    exact (Except.error.inj he).symm
  | case2 filled r hlt cs r₁ hread hcs =>
    obtain ⟨he, rfl⟩ := Prod.mk.inj h
    obtain rfl := List.eq_nil_of_length_eq_zero hcs
    obtain ⟨rfl, rfl⟩ := eq_nil_of_read_nil (by omega) hread
    exact ⟨[], rfl, by simpa using hlt, Or.inl ⟨by simpa using (Except.error.inj he).symm, rfl⟩⟩
  | case3 filled r hlt cs r₁ hread hcs ih =>
    obtain ⟨hbytes, -⟩ := bytes_of_read hread
    obtain ⟨got, hgot, hshort, hend⟩ := ih h
    rw [List.append_assoc] at hshort hend
    exact ⟨cs ++ got, by rw [hbytes, hgot, List.append_assoc], hshort, hend⟩
  | case4 filled r hlt => cases (Prod.mk.inj h).1

theorem bytes_of_readFrameBytes {maxFrame : ℕ} {r r' : Reader} {payload : List UInt8}
    (h : readFrameBytes maxFrame r = (.ok payload, r')) :
    bytes r = frame headerLen payload ++ bytes r' ∧ payload.length ≤ maxFrame := by
  unfold readFrameBytes at h
  split at h
  · cases (Prod.mk.inj h).1
  rename_i header r₁ hheader
  obtain ⟨hb, hlen⟩ := bytes_of_readExactLoop (Nat.zero_le _) hheader
  simp only at h
  split at h
  · cases (Prod.mk.inj h).1
  rename_i hmax
  obtain ⟨hp, hplen⟩ := bytes_of_readExactLoop (Nat.zero_le _) h
  have hprefix : toLeBytes headerLen payload.length = header := by
    rw [hplen, ← hlen]
    exact toLeBytes_fromLeBytes header
  rw [List.nil_append] at hb hp
  refine ⟨?_, by omega⟩
  rw [hb, hp, frame, hprefix, List.append_assoc]

theorem bytes_of_readFrameBytes_error {maxFrame : ℕ} {r r' : Reader} {e : FrameError}
    (h : readFrameBytes maxFrame r = (.error e, r')) :
    ∃ got, bytes r = got ++ bytes r' ∧
      ((∃ len, e = .tooLarge len maxFrame ∧ got.length = headerLen ∧ fromLeBytes got = len ∧
          maxFrame < len) ∨
        (∃ n needed, e = .unexpectedEof n needed ∧ bytes r' = []) ∨ ∃ ioe, e = .io ioe) := by
  unfold readFrameBytes at h
  split at h
  · rename_i e' r₁ hheader
    obtain ⟨he, rfl⟩ := Prod.mk.inj h
    obtain rfl := Except.error.inj he
    obtain ⟨got, hgot, -, hend⟩ := bytes_of_readExactLoop_error hheader
    rcases hend with ⟨rfl, hnil⟩ | hio
    · exact ⟨got, hgot, Or.inr (Or.inl ⟨_, _, rfl, hnil⟩)⟩
    · exact ⟨got, hgot, Or.inr (Or.inr hio)⟩
  rename_i header r₁ hheader
  obtain ⟨hb, hlen⟩ := bytes_of_readExactLoop (Nat.zero_le _) hheader
  simp only at h
  split at h
  · rename_i hmax
    obtain ⟨he, rfl⟩ := Prod.mk.inj h
    exact ⟨header, hb, Or.inl ⟨_, (Except.error.inj he).symm, hlen, rfl, hmax⟩⟩
  · obtain ⟨got, hgot, -, hend⟩ := bytes_of_readExactLoop_error h
    have hbytes : bytes r = (header ++ got) ++ bytes r' := by
      rw [List.append_assoc, ← hgot]
      exact hb
    rcases hend with ⟨rfl, hnil⟩ | hio
    · exact ⟨_, hbytes, Or.inr (Or.inl ⟨_, _, rfl, hnil⟩)⟩
    · exact ⟨_, hbytes, Or.inr (Or.inr hio)⟩

theorem readExactLoop_data {len : ℕ} {filled : List UInt8} (b : UInt8) (bs : List UInt8)
    (r : Reader) (hroom : filled.length < len) :
    readExactLoop len filled (.data b bs :: r) =
      readExactLoop len (filled ++ (b :: bs).take (len - filled.length))
        (unread ((b :: bs).drop (len - filled.length)) r) := by
  obtain ⟨n, hn⟩ : ∃ n, len - filled.length = n + 1 := ⟨len - filled.length - 1, by omega⟩
  rw [readExactLoop, if_pos hroom, hn]
  simp [StdIo.read]

theorem readExactLoop_full {len : ℕ} {filled : List UInt8} (r : Reader)
    (hfull : filled.length = len) : readExactLoop len filled r = (.ok filled, r) := by
  rw [readExactLoop, if_neg (by omega)]

/-- Enough bytes before the first failure fill the buffer, however they are chopped. -/
theorem readExactLoop_filled (q tail : Reader) (hq : Healthy q) (len : ℕ) (filled : List UInt8)
    (hlen : filled.length ≤ len) (henough : len ≤ filled.length + (bytes q).length) :
    ∃ q', Healthy q' ∧ bytes q' = (bytes q).drop (len - filled.length) ∧
      readExactLoop len filled (q ++ tail) =
        (.ok (filled ++ (bytes q).take (len - filled.length)), q' ++ tail) := by
  induction q generalizing filled with
  | nil =>
    have hfull : filled.length = len := by simp at henough; omega
    exact ⟨[], hq, by simp, by simp [readExactLoop_full _ hfull]⟩
  | cons ev q ih =>
    cases ev with
    | fail e => simp at hq
    | data b bs =>
      rw [healthy_data] at hq
      rcases Nat.eq_or_lt_of_le hlen with hfull | hroom
      · refine ⟨.data b bs :: q, by simpa using hq, by simp [hfull], ?_⟩
        rw [readExactLoop_full _ hfull]
        simp [hfull]
      rw [List.cons_append, readExactLoop_data b bs (q ++ tail) hroom, bytes_data]
      rw [bytes_data, List.length_append] at henough
      generalize b :: bs = cs at henough ⊢
      rcases Nat.le_total cs.length (len - filled.length) with hall | hpart
      · -- the whole chunk is taken and the loop goes on with the rest
        have hlen' : (filled ++ cs).length ≤ len := by rw [List.length_append]; omega
        obtain ⟨q', hq', hrest, hloop⟩ := ih hq (filled ++ cs) hlen'
          (by rw [List.length_append]; omega)
        have hleft : len - (filled ++ cs).length = len - filled.length - cs.length := by
          rw [List.length_append]
          omega
        rw [hleft] at hrest hloop
        refine ⟨q', hq', ?_, ?_⟩
        · rw [hrest, List.drop_append, List.drop_of_length_le hall, List.nil_append]
        · rw [List.take_of_length_le hall, List.drop_of_length_le hall, unread, hloop,
            List.take_append, List.take_of_length_le hall, List.append_assoc]
      · -- the buffer is full before the chunk is used up
        refine ⟨unread (cs.drop (len - filled.length)) q, (healthy_unread _ _).mpr hq, ?_, ?_⟩
        · rw [bytes_unread, List.drop_append_of_le_length hpart]
        · have hfull : (filled ++ cs.take (len - filled.length)).length = len := by
            rw [List.length_append, List.length_take_of_le hpart]
            omega
          rw [readExactLoop_full _ hfull, List.take_append_of_le_length hpart, unread_append]

/-- Too few bytes: the loop arrives at whatever comes after them. -/
theorem readExactLoop_short (q tail : Reader) (hq : Healthy q) (len : ℕ) (filled : List UInt8)
    (hshort : filled.length + (bytes q).length < len) :
    readExactLoop len filled (q ++ tail) = readExactLoop len (filled ++ bytes q) tail := by
  induction q generalizing filled with
  | nil => simp
  | cons ev q ih =>
    cases ev with
    | fail e => simp at hq
    | data b bs =>
      rw [healthy_data] at hq
      rw [bytes_data] at hshort ⊢
      rw [List.cons_append, readExactLoop_data b bs (q ++ tail) (by omega)]
      have hall : (b :: bs).length ≤ len - filled.length := by
        rw [List.length_append] at hshort
        omega
      rw [List.take_of_length_le hall, List.drop_of_length_le hall, unread,
        ih hq _ (by simp only [List.length_append] at hshort ⊢; omega), List.append_assoc]

/-- What a read that wanted `needed` bytes and got `n` reports at the end of the stretch. -/
def endError (fin : Ending) (n needed : ℕ) : FrameError :=
  match fin with
  | .eof => .unexpectedEof n needed
  | .failure e _ => .io e

theorem readExactLoop_ending (fin : Ending) {len : ℕ} {filled : List UInt8}
    (hshort : filled.length < len) :
    readExactLoop len filled fin.reader = (.error (endError fin filled.length len), fin.rest) := by
  rw [readExactLoop, if_pos hshort]
  cases fin <;> rfl

def parseResult (maxFrame : ℕ) (fin : Ending) : Parse → Except FrameError (List UInt8)
  | .frame payload _ => .ok payload
  | .tooLarge len _ => .error (.tooLarge len maxFrame)
  | .shortHeader n => .error (endError fin n headerLen)
  | .shortPayload n len => .error (endError fin n len)

/-- What it leaves: the rest of the stretch, or what follows the failure it met. -/
def Leaves (fin : Ending) (r : Reader) : Parse → Prop
  | .frame _ rest | .tooLarge _ rest => ∃ q, Healthy q ∧ bytes q = rest ∧ r = q ++ fin.reader
  | .shortHeader _ | .shortPayload _ _ => r = fin.rest

/-- A frame read is the grammar of the bytes: its result and what it consumes do not
depend on how the stream is chopped. -/
theorem readFrameBytes_eq_parse (maxFrame : ℕ) (q : Reader) (hq : Healthy q) (fin : Ending) :
    ∃ r', readFrameBytes maxFrame (q ++ fin.reader) =
        (parseResult maxFrame fin (parse headerLen maxFrame (bytes q)), r') ∧
      Leaves fin r' (parse headerLen maxFrame (bytes q)) := by
  unfold readFrameBytes readExact parse
  by_cases hheader : (bytes q).length < headerLen
  · rw [if_pos hheader, readExactLoop_short q _ hq headerLen [] (by simpa using hheader),
      List.nil_append, readExactLoop_ending fin hheader]
    exact ⟨fin.rest, rfl, rfl⟩
  obtain ⟨q₁, hq₁, hrest, hloop⟩ := readExactLoop_filled q fin.reader hq headerLen []
    (Nat.zero_le _) (by simpa using hheader)
  simp only [List.length_nil, Nat.sub_zero, List.nil_append] at hrest hloop
  rw [if_neg hheader, hloop]
  simp only [← hrest]
  by_cases hmax : maxFrame < fromLeBytes ((bytes q).take headerLen)
  · rw [if_pos hmax, if_pos hmax]
    exact ⟨_, rfl, q₁, hq₁, rfl, rfl⟩
  rw [if_neg hmax, if_neg hmax]
  by_cases hbody : (bytes q₁).length < fromLeBytes ((bytes q).take headerLen)
  · rw [if_pos hbody, readExactLoop_short q₁ _ hq₁ _ [] (by simpa using hbody), List.nil_append,
      readExactLoop_ending fin hbody]
    exact ⟨fin.rest, rfl, rfl⟩
  obtain ⟨q₂, hq₂, hrest₂, hloop₂⟩ := readExactLoop_filled q₁ fin.reader hq₁
    (fromLeBytes ((bytes q).take headerLen)) [] (Nat.zero_le _) (by simpa using hbody)
  simp only [List.length_nil, Nat.sub_zero, List.nil_append] at hrest₂ hloop₂
  rw [if_neg hbody, hloop₂]
  exact ⟨_, rfl, q₂, hq₂, hrest₂, rfl⟩

def wire (payload : List UInt8) : List UInt8 :=
  toLeBytes headerLen (clampU32 payload.length) ++ payload

@[simp] theorem wire_length (payload : List UInt8) :
    (wire payload).length = headerLen + payload.length := by simp [wire]

theorem wire_eq_frame {payload : List UInt8} (h : payload.length < 2 ^ 32) :
    wire payload = frame headerLen payload := by
  rw [wire, clampU32, if_pos h, frame]

theorem writeFrameBytes_tooLarge {payload : List UInt8} {maxFrame : ℕ} (w : Writer)
    (h : maxFrame < payload.length) :
    writeFrameBytes payload maxFrame w = (.error (.tooLarge payload.length maxFrame), w) := by
  simp [writeFrameBytes, h]

theorem writeFrameBytes_eq {payload : List UInt8} {maxFrame : ℕ} (w : Writer)
    (h : payload.length ≤ maxFrame) :
    writeFrameBytes payload maxFrame w =
      match writeAll (toLeBytes headerLen (clampU32 payload.length)) w with
      | (.error e, w) => (.error (.io e), w)
      | (.ok (), w) =>
        ((writeAll payload w).1.mapError FrameError.io, (writeAll payload w).2) := by
  unfold writeFrameBytes
  simp only [gt_iff_lt, Nat.not_lt.mpr h, if_false, flush]
  split
  · rfl
  · rename_i w₁ _
    rcases writeAll payload w₁ with ⟨_ | _, w₂⟩ <;> rfl

/-- How many bytes of a frame with a payload of length `n` get out: first the header, then the
payload. -/
def frameTransfer (script : List WriteEvent) (n : ℕ) : ℕ × List WriteEvent :=
  let header := transfer script headerLen
  if header.1 = headerLen then
    (headerLen + (transfer header.2 n).1, (transfer header.2 n).2)
  else header

theorem frameTransfer_le (script : List WriteEvent) (n : ℕ) :
    (frameTransfer script n).1 ≤ headerLen + n := by
  have hheader := transfer_le script headerLen
  have hpayload := transfer_le (transfer script headerLen).2 n
  simp only [frameTransfer]
  split
  · exact Nat.add_le_add_left hpayload _
  · omega

/-- A payload within the limit puts out a prefix of its wire image, all of it exactly when
the write succeeds. -/
theorem writeFrameBytes_transfer {payload : List UInt8} {maxFrame : ℕ} (w : Writer)
    (h : payload.length ≤ maxFrame) :
    (writeFrameBytes payload maxFrame w).2 =
        ⟨w.sent ++ (wire payload).take (frameTransfer w.script payload.length).1,
          (frameTransfer w.script payload.length).2⟩ ∧
      ((writeFrameBytes payload maxFrame w).1 = .ok () ↔
        (frameTransfer w.script payload.length).1 = headerLen + payload.length) := by
  obtain ⟨hafter₁, hiff₁⟩ :=
    writeAll_transfer (toLeBytes headerLen (clampU32 payload.length)) w
  rw [toLeBytes_length] at hafter₁ hiff₁
  have hle := transfer_le w.script headerLen
  rw [writeFrameBytes_eq w h]
  rcases hw₁ : writeAll (toLeBytes headerLen (clampU32 payload.length)) w with ⟨_ | _, w₁⟩
  · rw [hw₁] at hafter₁ hiff₁
    have hne : (transfer w.script headerLen).1 ≠ headerLen := fun hk => by cases hiff₁.mpr hk
    rw [frameTransfer, if_neg hne]
    refine ⟨?_, ?_⟩
    · rw [wire, List.take_append_of_le_length (by rw [toLeBytes_length]; exact hle)]
      exact hafter₁
    · constructor
      · rintro ⟨⟩
      · simp only
        omega
  · rw [hw₁] at hafter₁ hiff₁
    have hfull := hiff₁.mp rfl
    obtain rfl : w₁ = _ := hafter₁
    obtain ⟨hafter₂, hiff₂⟩ := writeAll_transfer payload
      ⟨w.sent ++ (toLeBytes headerLen (clampU32 payload.length)).take
        (transfer w.script headerLen).1, (transfer w.script headerLen).2⟩
    rw [frameTransfer, if_pos hfull]
    refine ⟨?_, ?_⟩
    · have htake (k : ℕ) : (wire payload).take (headerLen + k) =
          toLeBytes headerLen (clampU32 payload.length) ++ payload.take k := by
        rw [wire, List.take_append, toLeBytes_length, Nat.add_sub_cancel_left,
          List.take_of_length_le (by rw [toLeBytes_length]; omega)]
      rw [hafter₂, htake, hfull, List.take_of_length_le (by rw [toLeBytes_length]),
        List.append_assoc]
    · have hok (r : Except IoError Unit) : r.mapError FrameError.io = .ok () ↔ r = .ok () := by
        rcases r with _ | _ <;> simp [Except.mapError]
      simp only [hok, hiff₂]
      omega

theorem writeFrameBytes_accepting {payload : List UInt8} {maxFrame : ℕ} {w : Writer}
    (h : payload.length ≤ maxFrame) (hacc : Accepting w) :
    (writeFrameBytes payload maxFrame w).1 = .ok () ∧
      (writeFrameBytes payload maxFrame w).2.sent = w.sent ++ wire payload ∧
      Accepting (writeFrameBytes payload maxFrame w).2 := by
  obtain ⟨hok₁, hacc₁⟩ := writeAll_accepting (toLeBytes headerLen (clampU32 payload.length)) w hacc
  have hsent₁ := writeAll_accepting_sent (toLeBytes headerLen (clampU32 payload.length)) w hacc
  rw [writeFrameBytes_eq w h]
  rcases hw₁ : writeAll (toLeBytes headerLen (clampU32 payload.length)) w with ⟨_ | _, w₁⟩
  · rw [hw₁] at hok₁
    cases hok₁
  · rw [hw₁] at hacc₁ hsent₁
    obtain ⟨hok₂, hacc₂⟩ := writeAll_accepting payload w₁ hacc₁
    refine ⟨by simp [hok₂, Except.mapError], ?_, hacc₂⟩
    change w₁.sent = _ at hsent₁
    simp only [writeAll_accepting_sent payload w₁ hacc₁, hsent₁, wire, List.append_assoc]

end Frame
end SharedDaemon
