import Mathlib.Data.List.Basic

/-!
# Byte streams as the `Read` and `Write` contracts of the standard library see them

A reader is the list of what its `read` calls will find, a writer the bytes that went
out and the list of what its `write` calls will meet. Both lists are arbitrary, so every
way of splitting or failing a transfer is covered.
-/

namespace StdIo

inductive ErrorKind
  | notFound | permissionDenied | connectionRefused | connectionReset | brokenPipe | addrInUse
  | wouldBlock | timedOut | invalidData | writeZero | interrupted | unexpectedEof | other
  deriving DecidableEq, Repr

/-- An `io::Error`: its kind and the text it displays. -/
structure IoError where
  kind : ErrorKind
  text : String
  deriving DecidableEq, Repr

/-- Bytes that have arrived, at least one, or a `read` that fails. -/
inductive ReadEvent
  | data (first : UInt8) (rest : List UInt8)
  | fail (e : IoError)
  deriving DecidableEq, Repr

/-- What the coming `read` calls find; after the last event, end of file. -/
abbrev Reader := List ReadEvent

/-- Put bytes that were not asked for back in front. -/
def unread : List UInt8 → Reader → Reader
  | [], r => r
  | b :: bs, r => .data b bs :: r

/-- `Read::read` into a buffer of `room` bytes; `ok []` is end of file. -/
def read (room : ℕ) : Reader → Except IoError (List UInt8) × Reader
  | [] => (.ok [], [])
  | .fail e :: r => (.error e, r)
  | .data b bs :: r => (.ok ((b :: bs).take room), unread ((b :: bs).drop room) r)

def bytes : Reader → List UInt8
  | [] => []
  | .fail _ :: r => bytes r
  | .data b bs :: r => b :: bs ++ bytes r

def Healthy (r : Reader) : Prop := ∀ e, ReadEvent.fail e ∉ r

@[simp] theorem bytes_nil : bytes [] = [] := rfl
@[simp] theorem bytes_fail (e : IoError) (r : Reader) : bytes (.fail e :: r) = bytes r := rfl
@[simp] theorem bytes_data (b : UInt8) (bs : List UInt8) (r : Reader) :
    bytes (.data b bs :: r) = b :: bs ++ bytes r := rfl

@[simp] theorem bytes_unread (bs : List UInt8) (r : Reader) :
    bytes (unread bs r) = bs ++ bytes r := by
  cases bs <;> rfl

theorem unread_append (bs : List UInt8) (r q : Reader) :
    unread bs r ++ q = unread bs (r ++ q) := by
  cases bs <;> rfl

theorem bytes_append (r q : Reader) : bytes (r ++ q) = bytes r ++ bytes q := by
  induction r with
  | nil => rfl
  | cons ev r ih => cases ev <;> simp [ih]

@[simp] theorem healthy_nil : Healthy [] := by simp [Healthy]

@[simp] theorem healthy_data (b : UInt8) (bs : List UInt8) (r : Reader) :
    Healthy (.data b bs :: r) ↔ Healthy r := by simp [Healthy]

@[simp] theorem not_healthy_fail (e : IoError) (r : Reader) : ¬ Healthy (.fail e :: r) :=
  fun h => h e (by simp)

theorem healthy_unread (bs : List UInt8) (r : Reader) : Healthy (unread bs r) ↔ Healthy r := by
  cases bs <;> simp [unread]

theorem bytes_of_read {room : ℕ} {r r' : Reader} {bs : List UInt8}
    (h : read room r = (.ok bs, r')) : bytes r = bs ++ bytes r' ∧ bs.length ≤ room := by
  match r with
  | [] =>
    obtain ⟨hb, rfl⟩ := Prod.mk.inj h
    obtain rfl := Except.ok.inj hb
    simp
  | .fail e :: r =>
    cases (Prod.mk.inj h).1
  | .data b cs :: r =>
    obtain ⟨hb, rfl⟩ := Prod.mk.inj h
    obtain rfl := Except.ok.inj hb
    refine ⟨?_, List.length_take_le _ _⟩
    rw [bytes_unread, ← List.append_assoc, List.take_append_drop]
    rfl

theorem bytes_of_read_error {room : ℕ} {r r' : Reader} {e : IoError}
    (h : read room r = (.error e, r')) : bytes r' = bytes r := by
  match r with
  | [] => cases (Prod.mk.inj h).1
  | .fail e :: r =>
    obtain ⟨-, rfl⟩ := Prod.mk.inj h
    rfl
  | .data b cs :: r => cases (Prod.mk.inj h).1

theorem eq_nil_of_read_nil {room : ℕ} {r r' : Reader} (hroom : 0 < room)
    (h : read room r = (.ok [], r')) : r = [] ∧ r' = [] := by
  match r with
  | [] => exact ⟨rfl, (Prod.mk.inj h).2.symm⟩
  | .fail e :: r => cases (Prod.mk.inj h).1
  | .data b cs :: r =>
    have hnil := Except.ok.inj (Prod.mk.inj h).1
    rw [List.take_eq_nil_iff] at hnil
    simp at hnil
    omega

/-- How a stretch of a stream without failures ends: at end of file, or with an error that
more may follow. -/
inductive Ending
  | eof
  | failure (e : IoError) (rest : Reader)
  deriving DecidableEq, Repr

def Ending.reader : Ending → Reader
  | .eof => []
  | .failure e rest => .fail e :: rest

def Ending.rest : Ending → Reader
  | .eof => []
  | .failure _ rest => rest

def stretch : Reader → List UInt8
  | [] => []
  | .fail _ :: _ => []
  | .data b bs :: r => b :: bs ++ stretch r

def afterFailure : Reader → Reader
  | [] => []
  | .fail _ :: r => r
  | .data _ _ :: r => afterFailure r

@[simp] theorem bytes_ending (fin : Ending) : bytes fin.reader = bytes fin.rest := by
  cases fin <;> rfl

theorem stretch_append {q : Reader} (hq : Healthy q) (fin : Ending) :
    stretch (q ++ fin.reader) = bytes q := by
  induction q with
  | nil => cases fin <;> rfl
  | cons ev q ih =>
    cases ev with
    | fail e => simp at hq
    | data b bs =>
      rw [healthy_data] at hq
      simp [stretch, ih hq]

theorem afterFailure_append {q : Reader} (hq : Healthy q) (fin : Ending) :
    afterFailure (q ++ fin.reader) = fin.rest := by
  induction q with
  | nil => cases fin <;> rfl
  | cons ev q ih =>
    cases ev with
    | fail e => simp at hq
    | data b bs => exact ih ((healthy_data b bs q).mp hq)

/-- Every reader starts with a stretch without failures. -/
theorem exists_stretch (r : Reader) : ∃ q fin, Healthy q ∧ r = q ++ Ending.reader fin := by
  induction r with
  | nil => exact ⟨[], .eof, healthy_nil, rfl⟩
  | cons ev r ih =>
    cases ev with
    | fail e => exact ⟨[], .failure e r, healthy_nil, rfl⟩
    | data b bs =>
      obtain ⟨q, fin, hq, hr⟩ := ih
      exact ⟨.data b bs :: q, fin, (healthy_data b bs q).mpr hq, by rw [hr]; rfl⟩

/-- What one `write` call does: take some of the buffer, or fail. -/
inductive WriteEvent
  | accept (n : ℕ)
  | fail (e : IoError)
  deriving DecidableEq, Repr

/-- The bytes that went out, and what the coming `write` calls meet; past the last
event every call takes its whole buffer. -/
structure Writer where
  sent : List UInt8
  script : List WriteEvent
  deriving DecidableEq, Repr

def write (buf : List UInt8) (w : Writer) : Except IoError ℕ × Writer :=
  match w.script with
  | [] => (.ok buf.length, { w with sent := w.sent ++ buf })
  | .accept n :: script =>
    (.ok (min n buf.length), ⟨w.sent ++ buf.take n, script⟩)
  | .fail e :: script => (.error e, ⟨w.sent, script⟩)

theorem write_ok {buf : List UInt8} {w w' : Writer} {n : ℕ} (h : write buf w = (.ok n, w')) :
    w'.sent = w.sent ++ buf.take n ∧ n ≤ buf.length ∧ w'.script.length ≤ w.script.length := by
  unfold write at h
  split at h
  · obtain ⟨hn, rfl⟩ := Prod.mk.inj h
    obtain rfl := Except.ok.inj hn
    simp
  · rename_i m script hscript
    obtain ⟨hn, rfl⟩ := Prod.mk.inj h
    obtain rfl := Except.ok.inj hn
    refine ⟨?_, Nat.min_le_right _ _, by simp [hscript]⟩
    rcases Nat.le_total m buf.length with hm | hm
    · rw [Nat.min_eq_left hm]
    · rw [Nat.min_eq_right hm, List.take_of_length_le hm, List.take_length]
  · cases (Prod.mk.inj h).1

theorem write_error {buf : List UInt8} {w w' : Writer} {e : IoError}
    (h : write buf w = (.error e, w')) :
    w'.sent = w.sent ∧ w'.script.length < w.script.length := by
  unfold write at h
  split at h
  · cases (Prod.mk.inj h).1
  · cases (Prod.mk.inj h).1
  · rename_i script hscript
    obtain ⟨-, rfl⟩ := Prod.mk.inj h
    simp [hscript]

/-- `Write::write_all`: retries when interrupted, gives up on any other error and on a
call that takes nothing. -/
def writeAll (buf : List UInt8) (w : Writer) : Except IoError Unit × Writer :=
  if buf.length = 0 then (.ok (), w)
  else
    match _hw : write buf w with
    | (.ok n, w') =>
      if n = 0 then (.error ⟨.writeZero, "failed to write whole buffer"⟩, w')
      else writeAll (buf.drop n) w'
    | (.error e, w') => if e.kind = .interrupted then writeAll buf w' else (.error e, w')
termination_by (buf.length + w.script.length)
decreasing_by
  · have hok := write_ok _hw
    rw [List.length_drop]
    omega
  · have herr := write_error _hw
    omega

def flush (w : Writer) : Except IoError Unit × Writer := (.ok (), w)

/-- How many of `n` bytes a transfer gets out, and what the calls behind it will meet. -/
def transfer : List WriteEvent → ℕ → ℕ × List WriteEvent
  | script, 0 => (0, script)
  | [], n => (n, [])
  | .accept m :: script, n =>
    if m = 0 then (0, script)
    else
      let behind := transfer script (n - m)
      (min m n + behind.1, behind.2)
  | .fail e :: script, n => if e.kind = .interrupted then transfer script n else (0, script)

@[simp] theorem transfer_zero (script : List WriteEvent) : transfer script 0 = (0, script) := by
  simp [transfer]

theorem transfer_nil (n : ℕ) : transfer [] n = (n, []) := by
  cases n <;> simp [transfer]

theorem transfer_accept {n : ℕ} (hn : n ≠ 0) (m : ℕ) (script : List WriteEvent) :
    transfer (.accept m :: script) n =
      if m = 0 then (0, script)
      else (min m n + (transfer script (n - m)).1, (transfer script (n - m)).2) := by
  cases n with
  | zero => exact absurd rfl hn
  | succ n => rfl

theorem transfer_fail {n : ℕ} (hn : n ≠ 0) (e : IoError) (script : List WriteEvent) :
    transfer (.fail e :: script) n =
      if e.kind = .interrupted then transfer script n else (0, script) := by
  cases n with
  | zero => exact absurd rfl hn
  | succ n => rfl

theorem transfer_le (script : List WriteEvent) (n : ℕ) : (transfer script n).1 ≤ n := by
  induction script generalizing n with
  | nil => simp [transfer_nil]
  | cons ev script ih =>
    by_cases hn : n = 0
    · simp [hn]
    cases ev with
    | fail e =>
      rw [transfer_fail hn]
      split
      · exact ih n
      · exact Nat.zero_le _
    | accept m =>
      rw [transfer_accept hn]
      split
      · exact Nat.zero_le _
      · have hle := ih (n - m)
        simp only
        omega

theorem transfer_of_write_ok {buf : List UInt8} {w w' : Writer} {n : ℕ} (hbuf : buf.length ≠ 0)
    (h : write buf w = (.ok n, w')) :
    transfer w.script buf.length =
      if n = 0 then (0, w'.script)
      else (n + (transfer w'.script (buf.length - n)).1,
        (transfer w'.script (buf.length - n)).2) := by
  unfold write at h
  split at h
  · rename_i hscript
    obtain ⟨hn, rfl⟩ := Prod.mk.inj h
    obtain rfl := Except.ok.inj hn
    simp [hscript, transfer_nil, hbuf]
  · rename_i m script hscript
    obtain ⟨hn, rfl⟩ := Prod.mk.inj h
    obtain rfl := Except.ok.inj hn
    rw [hscript, transfer_accept hbuf]
    rcases Nat.eq_zero_or_pos m with rfl | hm
    · simp
    · have hleft : buf.length - min m buf.length = buf.length - m := by omega
      rw [if_neg (by omega), if_neg (by omega), hleft]
  · cases (Prod.mk.inj h).1

theorem transfer_of_write_error {buf : List UInt8} {w w' : Writer} {e : IoError}
    (hbuf : buf.length ≠ 0) (h : write buf w = (.error e, w')) :
    transfer w.script buf.length =
      if e.kind = .interrupted then transfer w'.script buf.length else (0, w'.script) := by
  unfold write at h
  split at h
  · cases (Prod.mk.inj h).1
  · cases (Prod.mk.inj h).1
  · rename_i e' script hscript
    obtain ⟨he, rfl⟩ := Prod.mk.inj h
    obtain rfl := Except.error.inj he
    rw [hscript, transfer_fail hbuf]

/-- A transfer puts out a prefix of the buffer, the whole of it exactly when it succeeds. -/
theorem writeAll_transfer (buf : List UInt8) (w : Writer) :
    (writeAll buf w).2 = ⟨w.sent ++ buf.take (transfer w.script buf.length).1,
        (transfer w.script buf.length).2⟩ ∧
      ((writeAll buf w).1 = .ok () ↔ (transfer w.script buf.length).1 = buf.length) := by
  fun_induction writeAll buf w with
  | case1 buf w hbuf => simp [hbuf]
  | case2 buf w hbuf w' hw =>
    obtain ⟨hsent, -⟩ := write_ok hw
    rw [transfer_of_write_ok hbuf hw, if_pos rfl]
    refine ⟨by rw [← hsent], ?_⟩
    constructor
    · rintro ⟨⟩
    · exact fun h => absurd h.symm hbuf
  | case3 buf w hbuf n w' hw hn ih =>
    obtain ⟨hsent, hle, -⟩ := write_ok hw
    rw [List.length_drop] at ih
    rw [transfer_of_write_ok hbuf hw, if_neg hn]
    refine ⟨?_, ih.2.trans (by simp only; omega)⟩
    rw [ih.1, hsent, List.append_assoc, List.take_add]
  | case4 buf w hbuf e w' hw he ih =>
    rw [transfer_of_write_error hbuf hw, if_pos he, ← (write_error hw).1]
    exact ih
  | case5 buf w hbuf e w' hw he =>
    rw [transfer_of_write_error hbuf hw, if_neg he, ← (write_error hw).1]
    refine ⟨by simp, ?_⟩
    constructor
    · rintro ⟨⟩
    · exact fun h => absurd h.symm hbuf

def Accepting (w : Writer) : Prop := ∀ ev ∈ w.script, ∃ n, ev = .accept (n + 1)

theorem write_accepting {buf : List UInt8} {w : Writer} (h : Accepting w)
    (hbuf : buf.length ≠ 0) :
    ∃ n w', write buf w = (.ok n, w') ∧ n ≠ 0 ∧ Accepting w' := by
  unfold write
  split
  · rename_i hscript
    exact ⟨_, _, rfl, hbuf, by simp [Accepting, hscript]⟩
  · rename_i m script hscript
    obtain ⟨n, hn⟩ := h (.accept m) (by simp [hscript])
    obtain rfl := WriteEvent.accept.inj hn
    exact ⟨_, _, rfl, by omega, fun ev hev => h ev (by simp [hscript, hev])⟩
  · rename_i e script hscript
    obtain ⟨n, hn⟩ := h (.fail e) (by simp [hscript])
    cases hn

theorem writeAll_accepting (buf : List UInt8) (w : Writer) (h : Accepting w) :
    (writeAll buf w).1 = .ok () ∧ Accepting (writeAll buf w).2 := by
  fun_induction writeAll buf w with
  | case1 => exact ⟨rfl, h⟩
  | case2 buf w hbuf w' hw =>
    obtain ⟨n, w'', hw', hn, -⟩ := write_accepting h hbuf
    rw [hw] at hw'
    exact absurd (Except.ok.inj (Prod.mk.inj hw').1).symm hn
  | case3 buf w hbuf n w' hw hn ih =>
    obtain ⟨_, _, hw', -, hacc⟩ := write_accepting h hbuf
    rw [hw] at hw'
    obtain ⟨-, rfl⟩ := Prod.mk.inj hw'
    exact ih hacc
  | case4 buf w hbuf e w' hw | case5 buf w hbuf e w' hw =>
    obtain ⟨_, _, hw', -⟩ := write_accepting h hbuf
    rw [hw] at hw'
    cases (Prod.mk.inj hw').1

theorem writeAll_accepting_sent (buf : List UInt8) (w : Writer) (h : Accepting w) :
    (writeAll buf w).2.sent = w.sent ++ buf := by
  obtain ⟨hafter, hiff⟩ := writeAll_transfer buf w
  rw [hafter, hiff.mp (writeAll_accepting buf w h).1, List.take_length]

end StdIo
