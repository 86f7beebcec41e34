import SharedDaemon.Session

/-!
# The stream of replies

What the peer receives is what the replies of a session put out one after the other. A
reply that fails part-way leaves a piece of a frame, which the next reply may follow.
-/

namespace SharedDaemon
namespace Session

open StdIo StdPath SharedDaemon.Frame LengthPrefix

variable {S R : Type}

def Event.reply? : Event S → Option Reply
  | .reply r => some r
  | _ => none

def replies (log : List (Event S)) : List Reply := log.filterMap Event.reply?

@[simp] theorem replies_nil : replies ([] : List (Event S)) = [] := rfl

@[simp] theorem replies_cons (ev : Event S) (log : List (Event S)) :
    replies (ev :: log) = ev.reply?.toList ++ replies log := by
  cases ev <;> rfl

@[simp] theorem replies_append (l₁ l₂ : List (Event S)) :
    replies (l₁ ++ l₂) = replies l₁ ++ replies l₂ := by
  simp [replies]

def Reply.sent (r : Reply) : List UInt8 := r.after.sent.drop r.before.sent.length

/-- A reply that failed after writing some of its bytes. -/
def Reply.Torn (r : Reply) : Prop := r.result ≠ .ok () ∧ r.sent ≠ []

instance (r : Reply) : Decidable r.Torn := inferInstanceAs (Decidable (_ ∧ _))

/-- The answer of a reply, and the socket it leaves, are those of `Connection::reply`. -/
def Reply.Written (maxFrame : ℕ) (r : Reply) : Prop :=
  writeFrameWithLimit id r.msg maxFrame r.before = (r.result, r.after)

/-- The replies take a socket from one state to another, each starting where the one before
it left off. -/
def Sends (maxFrame : ℕ) : Writer → List Reply → Writer → Prop
  | w, [], w' => w = w'
  | w, r :: rs, w' =>
    r.before = w ∧ r.Written maxFrame ∧ Sends maxFrame r.after rs w'

theorem Sends.append {maxFrame : ℕ} {rs rs' : List Reply} {w w' w'' : Writer}
    (h : Sends maxFrame w rs w') (h' : Sends maxFrame w' rs' w'') :
    Sends maxFrame w (rs ++ rs') w'' := by
  induction rs generalizing w with
  | nil =>
    obtain rfl : w = w' := h
    exact h'
  | cons r rs ih => exact ⟨h.1, h.2.1, ih h.2.2⟩

theorem Sends.written {maxFrame : ℕ} {rs : List Reply} {w w' : Writer}
    (h : Sends maxFrame w rs w') :
    ∀ r ∈ rs, r.Written maxFrame := by
  induction rs generalizing w with
  | nil => simp
  | cons r rs ih => exact List.forall_mem_cons.mpr ⟨h.2.1, ih h.2.2⟩

section
variable {maxFrame : ℕ} {r : Reply}

theorem Reply.Written.of_rejected (h : r.Written maxFrame)
    (hlarge : ∀ p, r.msg = .ok p → maxFrame < p.length) :
    r.after = r.before ∧ r.result ≠ .ok () := by
  unfold Reply.Written writeFrameWithLimit at h
  cases hmsg : r.msg with
  | error text =>
    rw [hmsg] at h
    obtain ⟨hresult, hafter⟩ := Prod.mk.inj h
    exact ⟨hafter.symm, by simp [← hresult]⟩
  | ok p =>
    rw [hmsg] at h
    change writeFrameBytes p maxFrame r.before = _ at h
    rw [writeFrameBytes_tooLarge _ (hlarge p hmsg)] at h
    obtain ⟨hresult, hafter⟩ := Prod.mk.inj h
    exact ⟨hafter.symm, by simp [← hresult]⟩

theorem Reply.Written.of_offered (h : r.Written maxFrame) {p : List UInt8} (hp : r.msg = .ok p)
    (hmax : p.length ≤ maxFrame) :
    r.after = ⟨r.before.sent ++ (wire p).take (frameTransfer r.before.script p.length).1,
        (frameTransfer r.before.script p.length).2⟩ ∧
      (r.result = .ok () ↔ (frameTransfer r.before.script p.length).1 = headerLen + p.length) := by
  unfold Reply.Written writeFrameWithLimit at h
  rw [hp] at h
  change writeFrameBytes p maxFrame r.before = _ at h
  have htransfer := writeFrameBytes_transfer r.before hmax
  rwa [h] at htransfer

theorem Reply.Written.sent_of_offered (h : r.Written maxFrame) {p : List UInt8}
    (hp : r.msg = .ok p) (hmax : p.length ≤ maxFrame) :
    r.sent = (wire p).take (frameTransfer r.before.script p.length).1 := by
  rw [Reply.sent, (h.of_offered hp hmax).1, List.drop_left]

theorem Reply.Written.sent_of_rejected (h : r.Written maxFrame)
    (hlarge : ∀ p, r.msg = .ok p → maxFrame < p.length) : r.sent = [] := by
  rw [Reply.sent, (h.of_rejected hlarge).1, List.drop_length]

theorem rejected_or_offered (maxFrame : ℕ) (msg : Message) :
    (∀ p, msg = .ok p → maxFrame < p.length) ∨ ∃ p, msg = .ok p ∧ p.length ≤ maxFrame := by
  cases msg with
  | error text => exact .inl (by simp)
  | ok p =>
    rcases Nat.lt_or_ge maxFrame p.length with hlarge | hmax
    · exact .inl (by rintro _ ⟨⟩; exact hlarge)
    · exact .inr ⟨p, rfl, hmax⟩

theorem Reply.Written.after_sent (h : r.Written maxFrame) :
    r.after.sent = r.before.sent ++ r.sent := by
  rcases rejected_or_offered maxFrame r.msg with hlarge | ⟨p, hp, hmax⟩
  · rw [h.sent_of_rejected hlarge, (h.of_rejected hlarge).1, List.append_nil]
  · rw [h.sent_of_offered hp hmax, (h.of_offered hp hmax).1]

theorem Reply.Written.of_sent_ne_nil (h : r.Written maxFrame) (hsent : r.sent ≠ []) :
    ∃ p, r.msg = .ok p ∧ p.length ≤ maxFrame ∧ r.sent <+: wire p ∧
      (r.result = .ok () ↔ r.sent = wire p) := by
  rcases rejected_or_offered maxFrame r.msg with hlarge | ⟨p, hp, hmax⟩
  · exact absurd (h.sent_of_rejected hlarge) hsent
  · have htake := h.sent_of_offered hp hmax
    have hle := frameTransfer_le r.before.script p.length
    refine ⟨p, hp, hmax, htake ▸ List.take_prefix _ _, (h.of_offered hp hmax).2.trans ?_⟩
    rw [htake, ← wire_length]
    constructor
    · intro hfull
      rw [hfull, List.take_length]
    · intro hfull
      have hlen := congrArg List.length hfull
      rwa [List.length_take_of_le (by rwa [wire_length])] at hlen

theorem Reply.Written.sent_ne_nil (h : r.Written maxFrame) (hok : r.result = .ok ()) :
    r.sent ≠ [] := by
  rcases rejected_or_offered maxFrame r.msg with hlarge | ⟨p, hp, hmax⟩
  · exact absurd hok (h.of_rejected hlarge).2
  · intro hnil
    rw [h.sent_of_offered hp hmax, (h.of_offered hp hmax).2.mp hok, ← wire_length,
      List.take_length] at hnil
    have hlen := congrArg List.length hnil
    simp [headerLen] at hlen

end

theorem Sends.sent {maxFrame : ℕ} {rs : List Reply} {w w' : Writer} (h : Sends maxFrame w rs w') :
    w'.sent = w.sent ++ rs.flatMap Reply.sent := by
  induction rs generalizing w with
  | nil =>
    obtain rfl : w = w' := h
    simp
  | cons r rs ih =>
    rw [ih h.2.2, h.2.1.after_sent, h.1, List.append_assoc, List.flatMap_cons]

def delivered (rs : List Reply) : List (List UInt8) :=
  rs.filterMap fun r => if r.result = .ok () then r.msg.toOption else none

theorem delivered_cons_ok {r : Reply} {p : List UInt8} (rs : List Reply) (hok : r.result = .ok ())
    (hp : r.msg = .ok p) : delivered (r :: rs) = p :: delivered rs :=
  List.filterMap_cons_some (by rw [if_pos hok, hp]; rfl)

theorem delivered_cons_failed {r : Reply} (rs : List Reply) (h : r.result ≠ .ok ()) :
    delivered (r :: rs) = delivered rs :=
  List.filterMap_cons_none (if_neg h)

/-- The peer can tell the replies apart. At every moment it has received the frames of those
that succeeded and at most a piece of one more; those rejected before writing add nothing,
and behind the piece of one that failed nothing comes. -/
structure FramedReplies (maxFrame : ℕ) (rs : List Reply) : Prop where
  received : ∀ sofar, sofar <+: rs → ∃ piece p, p.length < 2 ^ 32 ∧
    piece <+: frame headerLen p ∧ piece ≠ frame headerLen p ∧
    sofar.flatMap Reply.sent = stream headerLen (delivered sofar) ++ piece
  whole : ∀ r ∈ rs, r.result = .ok () →
    ∃ p, r.msg = .ok p ∧ p.length < 2 ^ 32 ∧ r.sent = frame headerLen p
  rejected : ∀ r ∈ rs, (∀ p, r.msg = .ok p → maxFrame < p.length) → r.after = r.before
  piece : ∀ r ∈ rs, r.Torn → ∃ p, r.msg = .ok p ∧ p.length < 2 ^ 32 ∧
    r.sent <+: frame headerLen p ∧ r.sent ≠ frame headerLen p
  last : rs.Pairwise fun r later => r.Torn → later.sent = []

/-- Nothing goes out of a payload too long for a header, and nothing behind a torn reply. -/
structure Unmixed (rs : List Reply) : Prop where
  oversized : ∀ r ∈ rs, ∀ p, r.msg = .ok p → 2 ^ 32 ≤ p.length → r.sent = []
  behind : rs.Pairwise fun r later => r.Torn → later.sent = []

/-- Whole frames, then a piece, then nothing. -/
theorem received_of_last {maxFrame : ℕ} {rs : List Reply} (hrs : ∀ r ∈ rs, r.Written maxFrame)
    (hwhole : ∀ r ∈ rs, r.result = .ok () →
      ∃ p, r.msg = .ok p ∧ p.length < 2 ^ 32 ∧ r.sent = frame headerLen p)
    (hpiece : ∀ r ∈ rs, r.Torn → ∃ p, r.msg = .ok p ∧ p.length < 2 ^ 32 ∧
      r.sent <+: frame headerLen p ∧ r.sent ≠ frame headerLen p)
    (hlast : rs.Pairwise fun r later => r.Torn → later.sent = []) :
    ∃ piece p, p.length < 2 ^ 32 ∧ piece <+: frame headerLen p ∧ piece ≠ frame headerLen p ∧
      rs.flatMap Reply.sent = stream headerLen (delivered rs) ++ piece := by
  induction rs with
  | nil => exact ⟨[], [], by decide, by simp, by decide, rfl⟩
  | cons r rs ih =>
    rw [List.forall_mem_cons] at hrs hwhole hpiece
    obtain ⟨hbehind, hlast⟩ := List.pairwise_cons.mp hlast
    by_cases htorn : r.Torn
    · obtain ⟨p, -, hlt, hprefix, hne⟩ := hpiece.1 htorn
      have hsent : rs.flatMap Reply.sent = [] :=
        List.flatMap_eq_nil_iff.mpr fun later hlater => hbehind later hlater htorn
      have hfailed : delivered rs = [] := by
        refine List.filterMap_eq_nil_iff.mpr fun later hlater => if_neg fun hok => ?_
        exact (hrs.2 later hlater).sent_ne_nil hok (hbehind later hlater htorn)
      refine ⟨r.sent, p, hlt, hprefix, hne, ?_⟩
      rw [List.flatMap_cons, hsent, delivered_cons_failed rs htorn.1, hfailed, List.append_nil,
        stream_nil, List.nil_append]
    obtain ⟨piece, p, hlt, hprefix, hne, hreceived⟩ := ih hrs.2 hwhole.2 hpiece.2 hlast
    refine ⟨piece, p, hlt, hprefix, hne, ?_⟩
    by_cases hok : r.result = .ok ()
    · obtain ⟨payload, hmsg, -, hsent⟩ := hwhole.1 hok
      rw [delivered_cons_ok rs hok hmsg, stream_cons, List.flatMap_cons, hsent, hreceived,
        List.append_assoc]
    · have hsent : r.sent = [] := by
        by_contra hne
        exact htorn ⟨hok, hne⟩
      rw [delivered_cons_failed rs hok, List.flatMap_cons, hsent, hreceived, List.nil_append]

theorem framedReplies_iff {maxFrame : ℕ} {rs : List Reply} (hrs : ∀ r ∈ rs, r.Written maxFrame) :
    FramedReplies maxFrame rs ↔ Unmixed rs := by
  constructor
  · intro h
    refine ⟨fun r hr p hp hbig => ?_, h.last⟩
    by_contra hsent
    have hfits : ∃ p, r.msg = .ok p ∧ p.length < 2 ^ 32 := by
      by_cases hok : r.result = .ok ()
      · obtain ⟨p', hp', hlt, -⟩ := h.whole r hr hok
        exact ⟨p', hp', hlt⟩
      · obtain ⟨p', hp', hlt, -⟩ := h.piece r hr ⟨hok, hsent⟩
        exact ⟨p', hp', hlt⟩
    obtain ⟨p', hp', hlt⟩ := hfits
    obtain rfl := Except.ok.inj (hp.symm.trans hp')
    omega
  · intro h
    have hwire (r : Reply) (hr : r ∈ rs) (hsent : r.sent ≠ []) : ∃ p, r.msg = .ok p ∧
        p.length < 2 ^ 32 ∧ r.sent <+: frame headerLen p ∧
        (r.result = .ok () ↔ r.sent = frame headerLen p) := by
      obtain ⟨p, hp, -, hprefix, hiff⟩ := (hrs r hr).of_sent_ne_nil hsent
      have hlt : p.length < 2 ^ 32 := by
        by_contra hbig
        exact hsent (h.oversized r hr p hp (Nat.not_lt.mp hbig))
      rw [wire_eq_frame hlt] at hprefix hiff
      exact ⟨p, hp, hlt, hprefix, hiff⟩
    have hwhole (r : Reply) (hr : r ∈ rs) (hok : r.result = .ok ()) :
        ∃ p, r.msg = .ok p ∧ p.length < 2 ^ 32 ∧ r.sent = frame headerLen p := by
      obtain ⟨p, hp, hlt, -, hiff⟩ := hwire r hr ((hrs r hr).sent_ne_nil hok)
      exact ⟨p, hp, hlt, hiff.mp hok⟩
    have hpiece (r : Reply) (hr : r ∈ rs) (htorn : r.Torn) : ∃ p, r.msg = .ok p ∧
        p.length < 2 ^ 32 ∧ r.sent <+: frame headerLen p ∧ r.sent ≠ frame headerLen p := by
      obtain ⟨p, hp, hlt, hprefix, hiff⟩ := hwire r hr htorn.2
      exact ⟨p, hp, hlt, hprefix, fun hfull => htorn.1 (hiff.mpr hfull)⟩
    refine ⟨fun sofar hsofar => ?_, hwhole, fun r hr hlarge => ?_, hpiece, h.behind⟩
    · exact received_of_last (fun r hr => hrs r (hsofar.subset hr))
        (fun r hr => hwhole r (hsofar.subset hr)) (fun r hr => hpiece r (hsofar.subset hr))
        (h.behind.sublist hsofar.sublist)
    · exact ((hrs r hr).of_rejected hlarge).1

/-- `Connection::reply`, and the same for one message after the other. -/
def replyTo (maxFrame : ℕ) (msg : Message) (w : Writer) : Reply :=
  let x := writeFrameWithLimit id msg maxFrame w
  ⟨msg, w, x.2, x.1⟩

def replyAll (maxFrame : ℕ) : List Message → Writer → List Reply
  | [], _ => []
  | msg :: msgs, w =>
    replyTo maxFrame msg w :: replyAll maxFrame msgs (replyTo maxFrame msg w).after

def offered (maxFrame : ℕ) (msgs : List Message) : List ℕ :=
  msgs.filterMap fun
    | .ok p => if p.length ≤ maxFrame then some p.length else none
    | .error _ => none

def shut : ℕ → List WriteEvent → Bool
  | 0, _ => true
  | m + 1, script => (transfer script headerLen).1 = 0 && shut m (transfer script headerLen).2

/-- Of frames with payloads of these lengths, offered one after the other, the socket takes
each whole or not at all, and none too long for its header; but it may cut one short if it
takes nothing of those behind it. -/
def steady : List ℕ → List WriteEvent → Bool
  | [], _ => true
  | n :: ns, script =>
    let taken := frameTransfer script n
    if taken.1 = 0 then steady ns taken.2
    else n < 2 ^ 32 &&
      if taken.1 = headerLen + n then steady ns taken.2 else shut ns.length taken.2

theorem offered_cons_ok {maxFrame : ℕ} {p : List UInt8} (hmax : p.length ≤ maxFrame)
    (msgs : List Message) : offered maxFrame (.ok p :: msgs) = p.length :: offered maxFrame msgs :=
  List.filterMap_cons_some (by simp [hmax])

theorem offered_cons_rejected {maxFrame : ℕ} {msg : Message}
    (hlarge : ∀ p, msg = .ok p → maxFrame < p.length) (msgs : List Message) :
    offered maxFrame (msg :: msgs) = offered maxFrame msgs := by
  refine List.filterMap_cons_none ?_
  cases msg with
  | error text => rfl
  | ok p => exact if_neg (Nat.not_le.mpr (hlarge p rfl))

theorem frameTransfer_eq_zero (script : List WriteEvent) (n : ℕ) :
    ((frameTransfer script n).1 = 0 ↔ (transfer script headerLen).1 = 0) ∧
      ((transfer script headerLen).1 = 0 →
        (frameTransfer script n).2 = (transfer script headerLen).2) := by
  simp only [frameTransfer]
  split
  · rename_i hfull
    have hne : (transfer script headerLen).1 ≠ 0 := by
      rw [hfull]
      decide
    exact ⟨iff_of_false (by simp [headerLen]) hne, fun h => absurd h hne⟩
  · exact ⟨Iff.rfl, fun _ => rfl⟩

theorem take_wire_eq_nil_iff (p : List UInt8) (k : ℕ) : (wire p).take k = [] ↔ k = 0 := by
  rw [List.take_eq_nil_iff]
  refine or_iff_left fun hnil => ?_
  have hlen := wire_length p
  rw [hnil, List.length_nil, headerLen] at hlen
  omega

theorem unmixed_cons_iff {r : Reply} {rs : List Reply} :
    Unmixed (r :: rs) ↔ (∀ p, r.msg = .ok p → 2 ^ 32 ≤ p.length → r.sent = []) ∧
      (r.Torn → ∀ later ∈ rs, later.sent = []) ∧ Unmixed rs := by
  constructor
  · rintro ⟨hover, hbehind⟩
    rw [List.forall_mem_cons] at hover
    obtain ⟨hfirst, hrest⟩ := List.pairwise_cons.mp hbehind
    exact ⟨hover.1, fun htorn later hlater => hfirst later hlater htorn, hover.2, hrest⟩
  · rintro ⟨hover, htorn, hrest⟩
    exact ⟨List.forall_mem_cons.mpr ⟨hover, hrest.oversized⟩,
      List.pairwise_cons.mpr ⟨fun later hlater ht => htorn ht later hlater, hrest.behind⟩⟩

theorem unmixed_cons_of_quiet {r : Reply} {rs : List Reply} (h : r.sent = []) :
    Unmixed (r :: rs) ↔ Unmixed rs := by
  rw [unmixed_cons_iff]
  exact ⟨fun hr => hr.2.2, fun hr => ⟨fun _ _ _ => h, fun ht => absurd h ht.2, hr⟩⟩

theorem unmixed_of_quiet {rs : List Reply} (h : ∀ r ∈ rs, r.sent = []) : Unmixed rs :=
  ⟨fun r hr _ _ _ => h r hr, List.pairwise_of_forall_mem_list fun _ _ later hlater _ => h later hlater⟩

theorem quiet_replyAll_iff (maxFrame : ℕ) (msgs : List Message) (w : Writer) :
    (∀ r ∈ replyAll maxFrame msgs w, r.sent = []) ↔
      shut (offered maxFrame msgs).length w.script := by
  induction msgs generalizing w with
  | nil => simp [replyAll, offered, shut]
  | cons msg msgs ih =>
    rw [replyAll, List.forall_mem_cons, ih]
    have hr : (replyTo maxFrame msg w).Written maxFrame := rfl
    obtain ⟨hmsg, hbefore⟩ : (replyTo maxFrame msg w).msg = msg ∧
      (replyTo maxFrame msg w).before = w := ⟨rfl, rfl⟩
    generalize replyTo maxFrame msg w = r at hr hmsg hbefore ⊢
    subst hmsg hbefore
    rcases rejected_or_offered maxFrame r.msg with hlarge | ⟨p, hp, hmax⟩
    · rw [offered_cons_rejected hlarge, and_iff_right (hr.sent_of_rejected hlarge),
        (hr.of_rejected hlarge).1]
    · obtain ⟨hzero, hrest⟩ := frameTransfer_eq_zero r.before.script p.length
      rw [hr.sent_of_offered hp hmax, take_wire_eq_nil_iff, hzero, (hr.of_offered hp hmax).1, hp,
        offered_cons_ok hmax, List.length_cons, shut, Bool.and_eq_true, decide_eq_true_eq]
      refine and_congr_right fun h => ?_
      rw [hrest h]

/-- Whether replies stay apart is for the socket alone to decide. -/
theorem unmixed_replyAll_iff (maxFrame : ℕ) (msgs : List Message) (w : Writer) :
    Unmixed (replyAll maxFrame msgs w) ↔ steady (offered maxFrame msgs) w.script := by
  induction msgs generalizing w with
  | nil =>
    have hnone : Unmixed [] := unmixed_of_quiet (List.forall_mem_nil _)
    simpa [replyAll, offered, steady] using hnone
  | cons msg msgs ih =>
    rw [replyAll]
    have hr : (replyTo maxFrame msg w).Written maxFrame := rfl
    obtain ⟨hmsg, hbefore⟩ : (replyTo maxFrame msg w).msg = msg ∧
      (replyTo maxFrame msg w).before = w := ⟨rfl, rfl⟩
    generalize replyTo maxFrame msg w = r at hr hmsg hbefore ⊢
    subst hmsg hbefore
    rcases rejected_or_offered maxFrame r.msg with hlarge | ⟨p, hp, hmax⟩
    · rw [unmixed_cons_of_quiet (hr.sent_of_rejected hlarge), ih, offered_cons_rejected hlarge,
        (hr.of_rejected hlarge).1]
    have hsent := hr.sent_of_offered hp hmax
    obtain ⟨hafter, hok⟩ := hr.of_offered hp hmax
    have hscript : r.after.script = (frameTransfer r.before.script p.length).2 := by rw [hafter]
    rw [hp, offered_cons_ok hmax, steady]
    by_cases hnone : (frameTransfer r.before.script p.length).1 = 0
    · rw [if_pos hnone, unmixed_cons_of_quiet (hsent.trans (by rw [hnone]; rfl)), ih, hscript]
    have hne : r.sent ≠ [] := fun hnil =>
      hnone ((take_wire_eq_nil_iff p _).mp (hsent.symm.trans hnil))
    have hsize : (∀ q, r.msg = .ok q → 2 ^ 32 ≤ q.length → r.sent = []) ↔ p.length < 2 ^ 32 := by
      constructor
      · exact fun h => Nat.lt_of_not_le fun hbig => hne (h p hp hbig)
      · intro hlt q hq hbig
        obtain rfl := Except.ok.inj (hp.symm.trans hq)
        exact absurd hlt (Nat.not_lt.mpr hbig)
    rw [if_neg hnone, unmixed_cons_iff, hsize, Bool.and_eq_true, decide_eq_true_eq]
    refine and_congr_right fun _ => ?_
    by_cases hwhole : (frameTransfer r.before.script p.length).1 = headerLen + p.length
    · rw [if_pos hwhole, ih, hscript]
      exact and_iff_right fun htorn => absurd (hok.mpr hwhole) htorn.1
    · rw [if_neg hwhole, ← hscript, ← quiet_replyAll_iff]
      have htorn : r.Torn := ⟨fun hr => hwhole (hok.mp hr), hne⟩
      exact ⟨fun h => h.1 htorn, fun h => ⟨fun _ => h, unmixed_of_quiet h⟩⟩

theorem Sends.eq_replyAll {maxFrame : ℕ} {rs : List Reply} {w w' : Writer}
    (h : Sends maxFrame w rs w') : rs = replyAll maxFrame (rs.map Reply.msg) w := by
  induction rs generalizing w with
  | nil => rfl
  | cons r rs ih =>
    obtain ⟨rfl, hwritten, hrest⟩ := h
    have hr : replyTo maxFrame r.msg r.before = r := by
      rw [replyTo, hwritten]
    rw [List.map_cons, replyAll, hr, ← ih hrest]

theorem sends_run (sc : Script S R) (c : Connection) :
    Sends c.maxFrame c.output (replies (sc.run c).log) (sc.run c).conn.output := by
  induction sc generalizing c with
  | done state result => rfl
  | reply msg next ih => exact ⟨rfl, rfl, ih _ (c.reply msg).2⟩
  | readJson decode next ih =>
    have h := ih (c.readJson fun payload => (decode payload).map fun _ => payload).1
      (c.readJson fun payload => (decode payload).map fun _ => payload).2
    rw [readJson_maxFrame, readJson_output] at h
    exact h

theorem sends_run_of_readJson {T : Type} {decode : List UInt8 → Except String T} {c c₁ : Connection}
    {result : Except FrameError T} (h : c.readJson decode = (result, c₁)) (sc : Script S R) :
    Sends c.maxFrame c.output (replies (sc.run c₁).log) (sc.run c₁).conn.output := by
  obtain ⟨hmax, hout⟩ := of_readJson h
  rw [← hmax, ← hout]
  exact sends_run sc c₁

theorem Dispatched.sends {d : Daemon S} {s : S} {c : Connection}
    {x : Ran S (Except FrameError Unit)} (hx : Dispatched d s c x) :
    Sends c.maxFrame c.output (replies x.log) x.conn.output := by
  cases hx with
  | failed c₁ e h => exact (of_readJson h).2.symm
  | unknown c₁ body h name htarget y hy =>
    subst hy
    exact sends_run_of_readJson h _
  | done c₁ body h cmd htarget y hy | hungUp c₁ body h cmd htarget y hy =>
    subst hy
    simpa [Event.reply?] using sends_run_of_readJson h (cmd.execute s body)
  | erred c₁ body h cmd htarget y hy e hresult he z hz =>
    subst hy hz
    have hhook := sends_run (d.hooks.error ((cmd.execute s body).run c₁).state e)
      ((cmd.execute s body).run c₁).conn
    rw [run_maxFrame, (of_readJson h).1] at hhook
    simpa [Event.reply?] using (sends_run_of_readJson h (cmd.execute s body)).append hhook

theorem Dispatched.sends_error {d : Daemon S} {s : S} {c : Connection}
    {x : Ran S (Except FrameError Unit)} (hx : Dispatched d s c x) (e : IpcError) :
    Sends c.maxFrame c.output (replies (x.andThen fun _ s c => d.hooks.callError s e c).log)
      (x.andThen fun _ s c => d.hooks.callError s e c).conn.output := by
  have hhook := sends_run (d.hooks.error x.state e) x.conn
  rw [hx.conn_maxFrame] at hhook
  simpa [Ran.andThen, ErrorHandler.callError, Ran.after, Event.reply?] using hx.sends.append hhook

theorem sends_handleConn (d : Daemon S) (s : S) (c : Connection) :
    Sends c.maxFrame c.output (replies (d.handleConn s c).log)
      (d.handleConn s c).conn.output := by
  unfold Daemon.handleConn
  split
  · split
    · have hx := Dispatched.of_dispatchOne d s c
      cases hresult : (d.dispatchOne s c).result with
      | ok => simpa [Ran.andThen, hresult] using hx.sends
      | error e => simpa [Ran.andThen, hresult] using hx.sends_error (.frame e)
    · refine persistentLoop_rule
        (I := fun _ c y => Sends c.maxFrame c.output (replies y.log) y.conn.output) ?_ ?_ ?_ s c
      · intro s c x y hx hok hy
        rw [hx.conn_maxFrame] at hy
        simpa using hx.sends.append hy
      · intro s c x e hx herr hquiet
        exact hx.sends
      · intro s c x e hx herr hloud
        exact hx.sends_error _
  · exact sends_run (d.hooks.reject s .auth) c

def tell (s : S) : List Message → Script S Unit
  | [] => .done s ()
  | msg :: msgs => .reply msg fun _ => tell s msgs

/-- Authorises nobody, and is as talkative about it as one likes. -/
def teller (msgs : List Message) : Daemon S where
  router := Router.new
  hooks := ⟨fun s _ _ => .done s (), fun s _ => .done s (), fun s _ => tell s msgs⟩
  auth := .peerUser [] false true
  session := .oneShot
  fromSlice := fun _ => .error "expected value at line 1 column 1"
  usernameForUid := fun _ => none

theorem replies_tell (s : S) (msgs : List Message) (c : Connection) :
    replies ((tell s msgs).run c).log = replyAll c.maxFrame msgs c.output := by
  induction msgs generalizing c with
  | nil => rfl
  | cons msg msgs ih =>
    have hrest := ih (c.reply msg).2
    rw [tell, Script.run, replyAll]
    exact congrArg (replyTo c.maxFrame msg c.output :: ·) hrest

theorem replies_teller (msgs : List Message) (s : S) (c : Connection) :
    replies ((teller msgs).handleConn s c).log = replyAll c.maxFrame msgs c.output :=
  replies_tell s msgs c

theorem offered_of_lengths {maxFrame : ℕ} {ns : List ℕ} (h : ∀ n ∈ ns, n ≤ maxFrame) :
    offered maxFrame (ns.map fun n => .ok (List.replicate n 0)) = ns := by
  induction ns with
  | nil => rfl
  | cons n ns ih =>
    rw [List.forall_mem_cons] at h
    rw [List.map_cons, offered_cons_ok (by simpa using h.1), List.length_replicate, ih h.2]

theorem le_of_mem_offered {maxFrame n : ℕ} {msgs : List Message}
    (h : n ∈ offered maxFrame msgs) : n ≤ maxFrame := by
  obtain ⟨msg, -, hmsg⟩ := List.mem_filterMap.mp h
  split at hmsg
  · split at hmsg
    · rename_i hle
      exact Option.some.inj hmsg ▸ hle
    · cases hmsg
  · cases hmsg

/-- In every session the peer receives what `reply` puts out for one message after the other,
and the replies stay framed exactly when the socket keeps their frames apart. They do so in
every session over a socket exactly when it keeps all frames apart that fit the limit. -/
theorem replies_framed_iff (maxFrame : ℕ) (output : Writer) (s : S) :
    (∀ (d : Daemon S) (peerUid : Option ℕ) (input : Reader),
      let x := d.handleConn s ⟨peerUid, input, output, maxFrame⟩
      ∃ msgs, replies x.log = replyAll maxFrame msgs output ∧
        x.conn.output.sent = output.sent ++ (replies x.log).flatMap Reply.sent ∧
        (FramedReplies maxFrame (replies x.log) ↔
          steady (offered maxFrame msgs) output.script)) ∧
    ((∀ (d : Daemon S) (peerUid : Option ℕ) (input : Reader), FramedReplies maxFrame
        (replies (d.handleConn s ⟨peerUid, input, output, maxFrame⟩).log)) ↔
      ∀ ns : List ℕ, (∀ n ∈ ns, n ≤ maxFrame) → steady ns output.script) := by
  have hone (d : Daemon S) (peerUid : Option ℕ) (input : Reader) :
      let x := d.handleConn s ⟨peerUid, input, output, maxFrame⟩
      ∃ msgs, replies x.log = replyAll maxFrame msgs output ∧
        x.conn.output.sent = output.sent ++ (replies x.log).flatMap Reply.sent ∧
        (FramedReplies maxFrame (replies x.log) ↔
          steady (offered maxFrame msgs) output.script) := by
    intro x
    have h := sends_handleConn d s ⟨peerUid, input, output, maxFrame⟩
    refine ⟨(replies x.log).map Reply.msg, h.eq_replyAll, h.sent, ?_⟩
    rw [framedReplies_iff h.written, ← unmixed_replyAll_iff, ← h.eq_replyAll]
  refine ⟨hone, fun h ns hns => ?_, fun h d peerUid input => ?_⟩
  · let msgs : List Message := ns.map fun n => .ok (List.replicate n 0)
    have hframed := h (teller msgs) none []
    have hsends := sends_handleConn (teller msgs) s ⟨none, [], output, maxFrame⟩
    rw [framedReplies_iff hsends.written, replies_teller, unmixed_replyAll_iff] at hframed
    simpa only [msgs, offered_of_lengths hns] using hframed
  · obtain ⟨msgs, -, -, hiff⟩ := hone d peerUid input
    exact hiff.mpr (h _ fun n hn => le_of_mem_offered hn)

/-- A daemon of one command, which sends a number; its error hook replies. -/
def reporter : Daemon Unit where
  router := Router.new.addEach [⟨"report", fun _ _ => .reply (.ok (ofString "123")) fun
    | .ok () => .done () (.ok ())
    | .error e => .done () (.error (.frame e))⟩]
  hooks := ⟨fun _ _ _ => .done () (),
    fun _ _ => .reply (.ok (ofString "\"error\"")) fun _ => .done () (), fun _ _ => .done () ()⟩
  auth := .none
  session := .persistent
  fromSlice := parseRequest ["report"]
  usernameForUid := fun _ => none

/-- A peer of one request, whose socket takes a header and one byte, then nothing for as long
as the send timeout, then bytes again. -/
def slowPeer : Connection :=
  ⟨none, unread (frame headerLen (requestBytes "report")) [],
    ⟨[], [.accept 4, .accept 1, .fail ⟨.wouldBlock, "timed out"⟩]⟩, 64⟩

/-- The error frame lands inside the frame it is to report on. -/
theorem error_reply_inside_frame :
    ¬ FramedReplies slowPeer.maxFrame (replies (reporter.handleConn () slowPeer).log) ∧
      (reporter.handleConn () slowPeer).conn.output.sent =
        (frame headerLen (ofString "123")).take 5 ++ frame headerLen (ofString "\"error\"") := by
  have hlast : ¬ (replies (reporter.handleConn () slowPeer).log).Pairwise
      fun r later => r.Torn → later.sent = [] := by decide +kernel
  exact ⟨fun h => hlast h.last, by decide +kernel⟩

end Session
end SharedDaemon
