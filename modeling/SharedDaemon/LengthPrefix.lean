import Mathlib.Data.Nat.Digits.Lemmas

/-!
# Length-prefixed byte streams

Little-endian headers of any width, frames, and the grammar of a stream that may be cut
or may announce more than a reader is ready to take.
-/

namespace LengthPrefix

/-- The `width` low-order bytes of `n`, least significant first. -/
def toLeBytes : ℕ → ℕ → List UInt8
  | 0, _ => []
  | width + 1, n => UInt8.ofNat n :: toLeBytes width (n / 256)

def fromLeBytes (bs : List UInt8) : ℕ := Nat.ofDigits 256 (bs.map UInt8.toNat)

@[simp] theorem toLeBytes_length (width n : ℕ) : (toLeBytes width n).length = width := by
  induction width generalizing n with
  | zero => rfl
  | succ width ih => simp [toLeBytes, ih]

@[simp] theorem fromLeBytes_nil : fromLeBytes [] = 0 := rfl

@[simp] theorem fromLeBytes_cons (b : UInt8) (bs : List UInt8) :
    fromLeBytes (b :: bs) = b.toNat + 256 * fromLeBytes bs := by
  simp [fromLeBytes, Nat.ofDigits_cons]

theorem fromLeBytes_toLeBytes (width n : ℕ) :
    fromLeBytes (toLeBytes width n) = n % 256 ^ width := by
  induction width generalizing n with
  | zero => simp [toLeBytes, Nat.mod_one]
  | succ width ih =>
    rw [toLeBytes, fromLeBytes_cons, ih, pow_succ', Nat.mod_mul, UInt8.toNat_ofNat']

theorem fromLeBytes_lt (bs : List UInt8) : fromLeBytes bs < 256 ^ bs.length := by
  induction bs with
  | nil => simp
  | cons b bs ih =>
    have hb := b.toNat_lt
    rw [fromLeBytes_cons, List.length_cons, pow_succ']
    omega

theorem toLeBytes_fromLeBytes (bs : List UInt8) : toLeBytes bs.length (fromLeBytes bs) = bs := by
  induction bs with
  | nil => rfl
  | cons b bs ih =>
    have hb := b.toNat_lt
    have hdiv : (b.toNat + 256 * fromLeBytes bs) / 256 = fromLeBytes bs := by omega
    have hmod : UInt8.ofNat (b.toNat + 256 * fromLeBytes bs) = b := by
      apply UInt8.toNat_inj.mp
      rw [UInt8.toNat_ofNat']
      omega
    rw [List.length_cons, fromLeBytes_cons, toLeBytes, hdiv, hmod, ih]

variable (width : ℕ)

def frame (payload : List UInt8) : List UInt8 := toLeBytes width payload.length ++ payload

def stream (payloads : List (List UInt8)) : List UInt8 := payloads.flatMap (frame width)

@[simp] theorem frame_length (payload : List UInt8) :
    (frame width payload).length = width + payload.length := by simp [frame]

@[simp] theorem stream_nil : stream width [] = [] := rfl

@[simp] theorem stream_cons (p : List UInt8) (ps : List (List UInt8)) :
    stream width (p :: ps) = frame width p ++ stream width ps := rfl

@[simp] theorem stream_append (ps qs : List (List UInt8)) :
    stream width (ps ++ qs) = stream width ps ++ stream width qs := by simp [stream]

/-- What the front of a byte string is, to a reader that takes payloads up to `max`. -/
inductive Parse
  | frame (payload rest : List UInt8)
  | tooLarge (len : ℕ) (rest : List UInt8)
  | shortHeader (available : ℕ)
  | shortPayload (available len : ℕ)
  deriving DecidableEq, Repr

def parse (max : ℕ) (bs : List UInt8) : Parse :=
  if bs.length < width then .shortHeader bs.length
  else
    let len := fromLeBytes (bs.take width)
    let body := bs.drop width
    if max < len then .tooLarge len body
    else if body.length < len then .shortPayload body.length len
    else .frame (body.take len) (body.drop len)

variable {width}

/-- What a reader makes of the front of a stream whose first frame is `p`, when it has only
the bytes `bs` of it. -/
theorem parse_of_append_eq (max : ℕ) {bs ys p tail : List UInt8}
    (h : bs ++ ys = frame width p ++ tail) (hwidth : p.length < 256 ^ width) :
    parse width max bs =
      if bs.length < width then .shortHeader bs.length
      else if max < p.length then .tooLarge p.length (bs.drop width)
      else if bs.length < width + p.length then .shortPayload (bs.length - width) p.length
      else .frame p (bs.drop (width + p.length)) := by
  unfold parse
  by_cases hheader : bs.length < width
  · rw [if_pos hheader, if_pos hheader]
  have htake : bs.take width = toLeBytes width p.length := by
    have hfront := congrArg (List.take width) h
    rwa [List.take_append_of_le_length (by omega), frame, List.append_assoc,
      List.take_left' (toLeBytes_length _ _)] at hfront
  have hlen : fromLeBytes (bs.take width) = p.length := by
    rw [htake, fromLeBytes_toLeBytes, Nat.mod_eq_of_lt hwidth]
  rw [if_neg hheader, if_neg hheader]
  simp only [hlen, List.length_drop, List.drop_drop]
  by_cases hmax : max < p.length
  · rw [if_pos hmax, if_pos hmax]
  rw [if_neg hmax, if_neg hmax]
  by_cases hbody : bs.length < width + p.length
  · rw [if_pos hbody, if_pos (by omega)]
  have hpayload : (bs.drop width).take p.length = p := by
    have hdrop := congrArg (List.drop width) h
    rw [List.drop_append_of_le_length (by omega), frame, List.append_assoc,
      List.drop_left' (toLeBytes_length _ _)] at hdrop
    have htake' := congrArg (List.take p.length) hdrop
    rwa [List.take_append_of_le_length (by rw [List.length_drop]; omega), List.take_left] at htake'
  rw [if_neg hbody, if_neg (by omega), hpayload]

theorem parse_frame_append {max : ℕ} {p : List UInt8} (rest : List UInt8)
    (hmax : p.length ≤ max) (hwidth : p.length < 256 ^ width) :
    parse width max (frame width p ++ rest) = .frame p rest := by
  rw [parse_of_append_eq max (List.append_nil _) hwidth, if_neg (by simp; omega), if_neg (by omega),
    if_neg (by simp), List.drop_left' (frame_length width p)]

theorem of_parse_eq_frame {max : ℕ} {bs p rest : List UInt8}
    (h : parse width max bs = .frame p rest) :
    bs = frame width p ++ rest ∧ p.length ≤ max ∧ p.length < 256 ^ width := by
  unfold parse at h
  split at h
  · cases h
  rename_i hheader
  simp only at h
  split at h
  · cases h
  rename_i hmax
  split at h
  · cases h
  rename_i hbody
  obtain ⟨rfl, rfl⟩ := Parse.frame.inj h
  have htake : (bs.take width).length = width := List.length_take_of_le (by omega)
  have hp : ((bs.drop width).take (fromLeBytes (bs.take width))).length =
      fromLeBytes (bs.take width) := List.length_take_of_le (by omega)
  have hheader : toLeBytes width (fromLeBytes (bs.take width)) = bs.take width := by
    have hh := toLeBytes_fromLeBytes (bs.take width)
    rwa [htake] at hh
  refine ⟨?_, by omega, ?_⟩
  · rw [frame, hp, hheader, List.append_assoc, List.take_append_drop, List.take_append_drop]
  · have hlt := fromLeBytes_lt (bs.take width)
    rw [htake] at hlt
    omega

theorem stream_drop_length_le (width : ℕ) (ps : List (List UInt8)) {i j : ℕ} (h : i ≤ j) :
    (stream width (ps.drop j)).length ≤ (stream width (ps.drop i)).length := by
  obtain ⟨k, rfl⟩ := Nat.exists_eq_add_of_le h
  have hsplit : stream width (ps.drop i) =
      stream width ((ps.drop i).take k) ++ stream width (ps.drop (i + k)) := by
    rw [← stream_append, ← List.drop_drop, List.take_append_drop]
  rw [hsplit, List.length_append]
  omega

end LengthPrefix
