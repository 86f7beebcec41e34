import SharedDaemon.FileTree
import SharedDaemon.SocketBind

/-!
# What claiming a path deletes

`claim` and `bind` in a whole file tree, run without interference. The operating system
answers from the tree, or with a fault of its own. Modes and owners do not matter here.
-/

namespace SharedDaemon
namespace ClaimPath

open StdPath StdIo FileTree SocketBind

structure BindOptions where
  path : OsStr
  mode : ℕ
  chown : Option (ℕ × ℕ)
  processName : String
  deriving DecidableEq

/-- Paths are kept in bytes, before they are displayed. -/
inductive BindError
  | alreadyRunning (processName : String) (location path : OsStr) (pid : ℕ)
  | io (path : OsStr) (source : IoError)
  deriving DecidableEq

def BindError.ioAt (path : OsStr) (source : IoError) : BindError := .io path source

/-- The system calls, each of which a fault may hit. -/
inductive Syscall
  | mkdir (path : OsStr) (again : Bool)
  | isDir (path : OsStr)
  | connect
  | unlink
  | socketBind
  | listen
  | stat
  | chmod
  | chown
  deriving DecidableEq

variable (faults : Syscall → Option Fault)

/-- The answer to a call, as the standard library passes it on. -/
def reply {α : Type} (call : Syscall) (r : Except Refusal α) : Except IoError α :=
  answer (faults call) (r.mapError Refusal.toIoError)

def location (path : OsStr) (pid : ℕ) : OsStr :=
  if pid ≠ 0 then path ++ ofString (" (pid " ++ toString pid ++ ")") else path

/-- Probe `path` and, if it is stale, unlink the leftover inode. -/
def claim (t : Tree) (path : OsStr) (processName : String) : Except BindError Unit × Tree :=
  match reply faults .connect (connect t path) with
  | .ok pid => (.error (.alreadyRunning processName (location path pid) path pid), t)
  | .error e =>
    if isStaleSocketConnectError e then
      match reply faults .unlink (unlink t path) with
      | .ok t => (.ok (), t)
      | .error e => if e.kind = .notFound then (.ok (), t) else (.error (.ioAt path e), t)
    else (.error (.ioAt path e), t)

def isDir (t : Tree) (path : OsStr) : Bool :=
  match reply faults (.isDir path) (stat t path) with
  | .ok .dir => true
  | _ => false

/-- `fs::create_dir_all`. -/
def createDirAll (t : Tree) (path : OsStr) : Except IoError Unit × Tree :=
  if path = [] then (.ok (), t)
  else
    match reply faults (.mkdir path false) (mkdir t path) with
    | .ok t => (.ok (), t)
    | .error e =>
      if e.kind = .notFound then
        match _h : parent path with
        | none => (.error ⟨.other, "failed to create whole tree"⟩, t)
        | some p =>
          match createDirAll t p with
          | (.error e, t) => (.error e, t)
          | (.ok (), t) =>
            match reply faults (.mkdir path true) (mkdir t path) with
            | .ok t => (.ok (), t)
            | .error e => (if isDir faults t path then .ok () else .error e, t)
      else (if isDir faults t path then .ok () else .error e, t)
termination_by path.length
decreasing_by exact length_parent_lt _h

def createParents (t : Tree) (path : OsStr) : Except BindError Unit × Tree :=
  match parent path with
  | none => (.ok (), t)
  | some p =>
    if p = [] then (.ok (), t)
    else
      match createDirAll faults t p with
      | (.ok (), t) => (.ok (), t)
      | (.error e, t) => (.error (.ioAt p e), t)

/-- What follows once the socket is bound. The calls after `stat` find what it found. -/
def openSocket (t : Tree) (opts : BindOptions) : Except BindError Unit := do
  (reply faults .listen (.ok ())).mapError (.ioAt opts.path)
  let _ ← (reply faults .stat (stat t opts.path)).mapError (.ioAt opts.path)
  (reply faults .chmod (.ok ())).mapError (.ioAt opts.path)
  match opts.chown with
  | none => .ok ()
  | some _ =>
    (reply faults .chown (.ok ())).mapError fun e =>
      .ioAt opts.path ⟨.other, "chown socket: " ++ e.text⟩

/-- Create parent dirs, claim, bind, chmod, optional chown; on an error after the socket is
bound its listener is dropped. -/
def bind (self : ℕ) (t : Tree) (opts : BindOptions) : Except BindError Unit × Tree :=
  match createParents faults t opts.path with
  | (.error e, t) => (.error e, t)
  | (.ok (), t) =>
    match claim faults t opts.path opts.processName with
    | (.error e, t) => (.error e, t)
    | (.ok (), t) =>
      match reply faults .socketBind (bindSocket t opts.path) with
      | .error e => (.error (.ioAt opts.path e), t)
      | .ok (t, place) =>
        match openSocket faults (t.listen place self) opts with
        | .error e => (.error e, t)
        | .ok () => (.ok (), t.listen place self)

/-- Files, directories and live sockets, and the links that lead to one. -/
def Protected (t : Tree) (place : Place) : Prop :=
  ∃ r kind, (r = place ∨ t.Leads place (.ok r)) ∧ t.entry r = some kind ∧
    kind ≠ .socket none ∧ ∀ target, kind ≠ .symlink target

def Dead (t : Tree) : Except Refusal Place → Prop
  | .ok r => t.entry r = none ∨ t.entry r = some (.socket none)
  | .error e => e = .enoent

/-- What has to stay is unchanged, and what is gone was dead and stood at the path itself, as
it is walked once its parent directories are there. -/
structure Spares (t walked : Tree) (path : OsStr) (t' : Tree) : Prop where
  kept : ∀ place, Protected t place → t'.entry place = t.entry place
  only : ∀ place kind, t.entry place = some kind → t'.entry place ≠ some kind →
    lookup walked false path = .ok place ∧
      (kind = .socket none ∨ ∃ result, t.Leads place result ∧ Dead t result)

/-- The path leads to a file, or through a link at its end to a directory. -/
structure Strikes (t : Tree) (path : OsStr) (place : Place) : Prop where
  address : addressRefusal path = none
  named : FileTree.named path
  notSlashed : slashed path = false
  own : lookup t false path = .ok place
  leads : ∃ r, lookup t true path = .ok r ∧
    ((∃ content, t.entry r = some (.file content)) ∨ (t.entry r = some .dir ∧ r ≠ place))

structure Removes (t : Tree) (path : OsStr) (place : Place) : Prop where
  address : addressRefusal path = none
  named : FileTree.named path
  notSlashed : slashed path = false
  own : lookup t false path = .ok place
  entry : ∃ kind, t.entry place = some kind ∧ kind ≠ .dir
  stale : lookup t true path = .error .enoent ∨
    ∃ r, lookup t true path = .ok r ∧ ∀ pid, t.entry r ≠ some (.socket (some pid))

variable {faults : Syscall → Option Fault} {t t₁ t' : Tree} {path : OsStr} {place : Place}

theorem stale_toIoError (e : Refusal) :
    isStaleSocketConnectError e.toIoError ↔ e = .enoent ∨ e = .econnrefused := by
  cases e <;> simp [isStaleSocketConnectError, Refusal.toIoError]

theorem reply_eq_ok {α : Type} {call : Syscall} {r : Except Refusal α} {a : α}
    (h : reply faults call r = .ok a) : faults call = none ∧ r = .ok a := by
  unfold reply answer at h
  split at h
  · cases h
  · rename_i hfault
    cases r with
    | error e => cases h
    | ok b => exact ⟨hfault, congrArg Except.ok (Except.ok.inj h)⟩

theorem reply_stale {α : Type} {call : Syscall} {r : Except Refusal α} {e : IoError}
    (h : reply faults call r = .error e) (he : isStaleSocketConnectError e) :
    faults call = none ∧ (r = .error .enoent ∨ r = .error .econnrefused) := by
  unfold reply answer at h
  split at h
  · rename_i f hfault
    obtain rfl := Except.error.inj h
    simp [isStaleSocketConnectError, f.foreign] at he
  · rename_i hfault
    cases r with
    | ok a => cases h
    | error e' =>
      obtain rfl := Except.error.inj h
      exact ⟨hfault, by simpa using (stale_toIoError e').mp he⟩

theorem claim_removes {processName : String} (h : Removes t path place)
    (hconnect : faults .connect = none) (hunlink : faults .unlink = none) :
    (claim faults t path processName).2 = t.remove place := by
  obtain ⟨kind, hkind, hdir⟩ := h.entry
  have hgone : unlink t path = .ok (t.remove place) :=
    unlink_eq_ok_iff.mpr ⟨h.named, h.notSlashed, place, kind, h.own, hkind, hdir, rfl⟩
  rcases connect_stale_iff.mpr ⟨h.address, h.stale⟩ with hstale | hstale <;>
    simp [claim, reply, answer, hconnect, hunlink, hstale, hgone, Except.mapError, stale_toIoError]

/-- `claim` leaves the tree alone or removes one entry. -/
theorem claim_cases (faults : Syscall → Option Fault) (t : Tree) (path : OsStr)
    (processName : String) :
    (claim faults t path processName).2 = t ∨
      faults .connect = none ∧ faults .unlink = none ∧ ∃ place, Removes t path place := by
  unfold claim
  split
  · exact .inl rfl
  · rename_i e he
    split
    · rename_i hstale
      split
      · rename_i t' ht'
        obtain ⟨hconnect, hrefused⟩ := reply_stale he hstale
        obtain ⟨hunlink, hgone⟩ := reply_eq_ok ht'
        obtain ⟨haddr, hleads⟩ := connect_stale_iff.mp hrefused
        obtain ⟨hnamed, hslashed, place, kind, hown, hkind, hdir, -⟩ := unlink_eq_ok_iff.mp hgone
        exact .inr ⟨hconnect, hunlink, place, haddr, hnamed, hslashed, hown, ⟨kind, hkind, hdir⟩,
          hleads⟩
      · split <;> exact .inl rfl
    · exact .inl rfl

theorem Protected.isSome (h : Protected t place) : (t.entry place).isSome := by
  obtain ⟨r, kind, rfl | hleads, hkind, -⟩ := h
  · simp [hkind]
  · obtain ⟨target, hlink⟩ := hleads.isLink
    simp [hlink]

theorem Removes.lookup_ne_eloop (h : Removes t path place) :
    lookup t true path ≠ .error .eloop := by
  rcases h.stale with hnone | ⟨r, hr, -⟩
  · simp [hnone]
  · simp [hr]

theorem Removes.leads (h : Removes t path place) {target : OsStr}
    (hlink : t.entry place = some (.symlink target)) : t.Leads place (lookup t true path) := by
  rcases lookup_last h.named h.notSlashed h.own with ⟨hnot, -⟩ | ⟨-, hloop | hleads⟩
  · exact absurd hlink (hnot target)
  · exact absurd hloop h.lookup_ne_eloop
  · exact hleads

theorem Removes.lookup_eq (h : Removes t path place)
    (hnot : ∀ target, t.entry place ≠ some (.symlink target)) :
    lookup t true path = .ok place := by
  rcases lookup_last h.named h.notSlashed h.own with ⟨-, hplace⟩ | ⟨⟨target, hlink⟩, -⟩
  · exact hplace
  · exact absurd hlink (hnot target)

theorem Removes.not_live (h : Removes t path place) {r : Place} (hr : lookup t true path = .ok r)
    (pid : ℕ) : t.entry r ≠ some (.socket (some pid)) := by
  rcases h.stale with hnone | ⟨r', hr', hlive⟩
  · simp [hr] at hnone
  · obtain rfl : r = r' := by simpa [hr] using hr'
    exact hlive pid

theorem Strikes.removes (h : Strikes t path place) : Removes t path place := by
  obtain ⟨r, hr, hkind⟩ := h.leads
  refine ⟨h.address, h.named, h.notSlashed, h.own, ?_, .inr ⟨r, hr, fun pid hlive => ?_⟩⟩
  · rcases lookup_last h.named h.notSlashed h.own with ⟨-, hplace⟩ | ⟨⟨target, hlink⟩, -⟩
    · obtain rfl : r = place := by simpa [hr] using hplace
      rcases hkind with ⟨content, hfile⟩ | ⟨-, hne⟩
      · exact ⟨_, hfile, by simp⟩
      · exact absurd rfl hne
    · exact ⟨_, hlink, by simp⟩
  · rcases hkind with ⟨content, hfile⟩ | ⟨hdir, -⟩
    · simp [hfile] at hlive
    · simp [hdir] at hlive

theorem Removes.strikes_of_lookup (h : Removes t path place) {r : Place} {kind : Kind}
    (hr : lookup t true path = .ok r) (hkind : t.entry r = some kind) (hdead : kind ≠ .socket none)
    (hlink : ∀ target, kind ≠ .symlink target) (hdir : kind = .dir → r ≠ place) :
    Strikes t path place := by
  refine ⟨h.address, h.named, h.notSlashed, h.own, r, hr, ?_⟩
  cases kind with
  | file content => exact .inl ⟨content, hkind⟩
  | dir => exact .inr ⟨hkind, hdir rfl⟩
  | symlink target => exact absurd rfl (hlink target)
  | socket listener =>
    cases listener with
    | none => exact absurd rfl hdead
    | some pid => exact absurd hkind (h.not_live hr pid)

theorem Removes.strikes (h : Removes t₁ path place) (hgrown : t.Grown t₁)
    (hprot : Protected t place) : Strikes t₁ path place := by
  obtain ⟨r, kind, hr, hkind, hdead, hlink⟩ := hprot
  have hkind₁ := hgrown.of_some hkind
  rcases hr with rfl | hleads
  · have hlookup := h.lookup_eq (by simpa [hkind₁] using hlink)
    refine h.strikes_of_lookup hlookup hkind₁ hdead hlink ?_
    rintro rfl
    obtain ⟨kind, hentry, hne⟩ := h.entry
    exact absurd (Option.some.inj (hentry.symm.trans hkind₁)) hne
  · have hleads₁ := hgrown.leads hleads (by simp [hkind])
    obtain ⟨target, hentry⟩ := hleads₁.isLink
    have hlookup := (h.leads hentry).unique hleads₁ h.lookup_ne_eloop (by simp)
    refine h.strikes_of_lookup hlookup hkind₁ hdead hlink ?_
    rintro rfl rfl
    simp [hentry] at hkind₁

theorem Removes.dead (h : Removes t₁ path place) (hgrown : t.Grown t₁) {kind : Kind}
    (hkind : t.entry place = some kind) (hprot : ¬ Protected t place) :
    kind = .socket none ∨ ∃ result, t.Leads place result ∧ Dead t result := by
  by_cases hdead : kind = .socket none
  · exact .inl hdead
  · right
    by_cases hlink : ∀ target, kind ≠ .symlink target
    · exact absurd ⟨place, kind, .inl rfl, hkind, hdead, hlink⟩ hprot
    · push Not at hlink
      obtain ⟨target, rfl⟩ := hlink
      obtain ⟨target', links, hentry, hwalk⟩ := h.leads (hgrown.of_some hkind)
      obtain rfl : target = target' := by simpa [hgrown.of_some hkind] using hentry
      rcases walk_grown hgrown with heq | herr | ⟨r, hr, hnone⟩
      · -- the link leads there in the tree as it was
        have hleads : t.Leads place (lookup t₁ true path) :=
          ⟨target, links, hkind, heq.symm.trans hwalk⟩
        refine ⟨_, hleads, ?_⟩
        rcases h.stale with hnone | ⟨r, hr, hlive⟩
        · rw [hnone]
          rfl
        · rw [hr] at hleads ⊢
          cases hentry : t.entry r with
          | none => exact .inl hentry
          | some kind =>
            right
            by_contra hne
            refine hprot ⟨r, kind, .inr hleads, hentry, fun heq => hne (heq ▸ hentry), ?_⟩
            rintro target rfl
            exact hleads.ne_symlink target hentry
      · exact ⟨_, ⟨target, links, hkind, herr⟩, rfl⟩
      · exact ⟨_, ⟨target, links, hkind, hr⟩, .inl hnone⟩

theorem spares_of_kept (hgrown : t.Grown t₁)
    (h : ∀ q, (t₁.entry q).isSome → t'.entry q = t₁.entry q) : Spares t t₁ path t' := by
  have hsame (q : Place) {kind : Kind} (hkind : t.entry q = some kind) :
      t'.entry q = some kind := by
    have hkind₁ := hgrown.of_some hkind
    rw [h q (by simp [hkind₁]), hkind₁]
  constructor
  · intro q hprot
    obtain ⟨kind, hkind⟩ := Option.isSome_iff_exists.mp hprot.isSome
    rw [hsame q hkind, hkind]
  · intro q kind hkind hgone
    exact absurd (hsame q hkind) hgone

theorem spares_iff_of_removes (hgrown : t.Grown t₁) (hrem : Removes t₁ path place)
    (hplace : ∀ kind, t'.entry place = some kind → ∃ listener, kind = .socket listener)
    (hrest : ∀ q, q ≠ place → (t₁.entry q).isSome → t'.entry q = t₁.entry q) :
    Spares t t₁ path t' ↔ ¬ (Strikes t₁ path place ∧ Protected t place) := by
  constructor
  · rintro hspares ⟨hstrikes, hprot⟩
    obtain ⟨kind, hkind⟩ := Option.isSome_iff_exists.mp hprot.isSome
    obtain ⟨listener, rfl⟩ := hplace kind (by rw [hspares.kept place hprot, hkind])
    have hkind₁ := hgrown.of_some hkind
    have hlookup := hrem.lookup_eq (by simp [hkind₁])
    obtain ⟨r, hr, hstruck⟩ := hstrikes.leads
    obtain rfl : r = place := by simpa [hlookup] using hr.symm
    simp [hkind₁] at hstruck
  · intro h
    have hprot : ¬ Protected t place := fun hprot => h ⟨hrem.strikes hgrown hprot, hprot⟩
    have hsame (q : Place) (hq : q ≠ place) {kind : Kind} (hkind : t.entry q = some kind) :
        t'.entry q = some kind := by
      have hkind₁ := hgrown.of_some hkind
      rw [hrest q hq (by simp [hkind₁]), hkind₁]
    constructor
    · intro q hq
      obtain ⟨kind, hkind⟩ := Option.isSome_iff_exists.mp hq.isSome
      rw [hsame q (fun heq => hprot (heq ▸ hq)) hkind, hkind]
    · intro q kind hkind hgone
      by_cases hq : q = place
      · subst hq
        exact ⟨hrem.own, hrem.dead hgrown hkind hprot⟩
      · exact absurd (hsame q hq hkind) hgone

theorem createDirAll_grown (faults : Syscall → Option Fault) (t : Tree) (path : OsStr) :
    t.Grown (createDirAll faults t path).2 := by
  fun_induction createDirAll faults t path with
  | case1 => exact .refl t
  | case2 path hnil t' hmade => exact mkdir_grown (reply_eq_ok hmade).2
  | case3 => exact .refl t
  | case4 path hnil e hmkdir he p hp e' t' hparents ih => rwa [hparents] at ih
  | case5 path hnil e hmkdir he p hp t' hparents t'' hmade ih =>
    rw [hparents] at ih
    exact ih.trans (mkdir_grown (reply_eq_ok hmade).2)
  | case6 path hnil e hmkdir he p hp t' hparents e' hmade ih => rwa [hparents] at ih
  | case7 => exact .refl t

theorem createParents_grown (faults : Syscall → Option Fault) (t : Tree) (path : OsStr) :
    t.Grown (createParents faults t path).2 := by
  unfold createParents
  split
  · exact .refl t
  · rename_i p hp
    split
    · exact .refl t
    · have hgrown := createDirAll_grown faults t p
      split
      all_goals
        rename_i heq
        rw [heq] at hgrown
        exact hgrown

theorem bindSocket_spec {made : Tree} (h : bindSocket t path = .ok (made, place)) :
    t.entry place = none ∧ made.entry = Function.update t.entry place (some (.socket none)) := by
  unfold bindSocket at h
  split at h
  · cases h
  · split at h
    · cases h
    · obtain ⟨hnone, -, hentry⟩ := create_spec h
      exact ⟨hnone, hentry⟩

/-- After `claim` the rest of `bind` only fills a free place. -/
theorem bind_entry {self : ℕ} {opts : BindOptions}
    (h : createParents faults t opts.path = (.ok (), t₁)) (q : Place) :
    (bind faults self t opts).2.entry q =
        (claim faults t₁ opts.path opts.processName).2.entry q ∨
      (claim faults t₁ opts.path opts.processName).2.entry q = none ∧
        ∀ kind, (bind faults self t opts).2.entry q = some kind →
          ∃ listener, kind = .socket listener := by
  unfold bind
  simp only [h]
  split
  · rename_i heq
    exact .inl (by rw [heq])
  · rename_i t₂ heq
    rw [heq]
    split
    · exact .inl rfl
    · rename_i bound place hbound
      obtain ⟨hnone, hentry⟩ := bindSocket_spec (reply_eq_ok hbound).2
      have hlisten : (bound.listen place self).entry =
          Function.update bound.entry place (some (.socket (some self))) :=
        bound.entry_listen self (by simp [hentry])
      by_cases hq : q = place
      · subst hq
        refine .inr ⟨hnone, ?_⟩
        split
        · simp [hentry]
        · simp [hlisten]
      · left
        split
        · simp [hentry, hq]
        · simp [hlisten, hentry, hq]

theorem Strikes.isProtected (h : Strikes t path place) : Protected t place := by
  obtain ⟨r, hr, hkind⟩ := h.leads
  have hown : r = place ∨ t.Leads place (.ok r) := by
    by_cases hlink : ∃ target, t.entry place = some (.symlink target)
    · obtain ⟨target, hlink⟩ := hlink
      exact .inr (hr ▸ h.removes.leads hlink)
    · have hplace := h.removes.lookup_eq fun target heq => hlink ⟨target, heq⟩
      exact .inl (by simpa [hr] using hplace)
  rcases hkind with ⟨content, hfile⟩ | ⟨hdir, -⟩
  · exact ⟨r, _, hown, hfile, by simp, by simp⟩
  · exact ⟨r, _, hown, hdir, by simp, by simp⟩

theorem spares_iff_of_claim {processName : String} (hgrown : t.Grown t₁)
    (h : ∀ q, t'.entry q = (claim faults t₁ path processName).2.entry q ∨
      (claim faults t₁ path processName).2.entry q = none ∧
        ∀ kind, t'.entry q = some kind → ∃ listener, kind = .socket listener) :
    Spares t t₁ path t' ↔
      ¬ (faults .connect = none ∧ faults .unlink = none ∧
        ∃ place, Strikes t₁ path place ∧ Protected t place) := by
  by_cases hrem : faults .connect = none ∧ faults .unlink = none ∧
      ∃ place, Removes t₁ path place
  · obtain ⟨hconnect, hunlink, place, hrem⟩ := hrem
    obtain ⟨kind, hkind, hdir⟩ := hrem.entry
    have hgone : (t₁.remove place).entry = Function.update t₁.entry place none :=
      t₁.entry_remove (by simp [hkind, hdir])
    rw [claim_removes hrem hconnect hunlink, hgone] at h
    have hiff : Spares t t₁ path t' ↔ ¬ (Strikes t₁ path place ∧ Protected t place) := by
      refine spares_iff_of_removes hgrown hrem ?_ fun q hq hsome => ?_
      · intro kind hkind
        rcases h place with heq | ⟨-, hsocket⟩
        · simp [heq] at hkind
        · exact hsocket kind hkind
      · rcases h q with heq | ⟨hnone, -⟩
        · simpa [hq] using heq
        · simp [hq] at hnone
          simp [hnone] at hsome
    rw [hiff, not_iff_not]
    constructor
    · exact fun hstruck => ⟨hconnect, hunlink, place, hstruck⟩
    · rintro ⟨-, -, place', hstruck⟩
      obtain rfl : place' = place := by simpa [hrem.own] using hstruck.1.own.symm
      exact hstruck
  · rw [(claim_cases faults t₁ path processName).resolve_right hrem] at h
    refine iff_of_true (spares_of_kept hgrown fun q hq => ?_) ?_
    · rcases h q with heq | ⟨hnone, -⟩
      · exact heq
      · simp [hnone] at hq
    · rintro ⟨hconnect, hunlink, place, hstrikes, -⟩
      exact hrem ⟨hconnect, hunlink, place, hstrikes.removes⟩

/-- `claim` and `bind` delete nothing but dead sockets unless the path leads to a file or is a
link to a directory, the calls that find and remove it being let through. -/
theorem spares_iff (faults : Syscall → Option Fault) (self : ℕ) (t : Tree) (opts : BindOptions) :
    (Spares t t opts.path (claim faults t opts.path opts.processName).2 ↔
      ¬ (faults .connect = none ∧ faults .unlink = none ∧ ∃ place, Strikes t opts.path place)) ∧
    (Spares t (createParents faults t opts.path).2 opts.path (bind faults self t opts).2 ↔
      ¬ ((createParents faults t opts.path).1 = .ok () ∧ faults .connect = none ∧
        faults .unlink = none ∧
        ∃ place, Strikes (createParents faults t opts.path).2 opts.path place ∧
          Protected t place)) := by
  constructor
  · rw [spares_iff_of_claim (.refl t) fun q => .inl rfl]
    constructor
    · rintro h ⟨hconnect, hunlink, place, hstrikes⟩
      exact h ⟨hconnect, hunlink, place, hstrikes, hstrikes.isProtected⟩
    · rintro h ⟨hconnect, hunlink, place, hstrikes, -⟩
      exact h ⟨hconnect, hunlink, place, hstrikes⟩
  · have hgrown := createParents_grown faults t opts.path
    cases hparents : createParents faults t opts.path with
    | mk r t₁ =>
      rw [hparents] at hgrown
      cases r with
      | error e =>
        have hbind : (bind faults self t opts).2 = t₁ := by simp [bind, hparents]
        rw [hbind]
        exact iff_of_true (spares_of_kept hgrown fun q _ => rfl) (by simp)
      | ok u =>
        rw [spares_iff_of_claim hgrown (bind_entry hparents)]
        simp

def srv : OsStr := ofString "srv"

def data : OsStr := ofString "data"

def served : Tree := (Tree.empty.add [srv] .dir).add [srv, data] (.file [0x7B, 0x7D])

/-- A socket path that names a data file by mistake. -/
theorem claim_deletes_file :
    served.entry [srv, data] = some (.file [0x7B, 0x7D]) ∧
      (claim (fun _ => none) served (ofString "/srv/data") "micronet").2.entry [srv, data] = none ∧
      ¬ Spares served served (ofString "/srv/data")
        (claim (fun _ => none) served (ofString "/srv/data") "micronet").2 := by
  have hdir : served.entry [srv] = some .dir := by decide +kernel
  have hfile : served.entry [srv, data] = some (.file [0x7B, 0x7D]) := by decide +kernel
  have hsegments : segments (ofString "/srv/data") = [.rootDir, .normal srv, .normal data] := by
    decide +kernel
  have hsteps : steps (ofString "/srv/data") = segments (ofString "/srv/data") := by decide +kernel
  have hlookup (follow : Bool) : lookup served follow (ofString "/srv/data") = .ok [srv, data] := by
    have hvalid : ofString "/srv/data" ≠ [] ∧ 0 ∉ ofString "/srv/data" := by decide +kernel
    simp [lookup, hvalid, hsteps, hsegments, walk, hdir, hfile]
  have hremoves : Removes served (ofString "/srv/data") [srv, data] :=
    ⟨by decide +kernel, by decide +kernel, by decide +kernel, hlookup false,
      ⟨_, hfile, by simp⟩, .inr ⟨_, hlookup true, by simp [hfile]⟩⟩
  have hgone : (claim (fun _ => none) served (ofString "/srv/data") "micronet").2.entry
      [srv, data] = none := by
    rw [claim_removes hremoves rfl rfl, served.entry_remove (by simp [hfile]), Function.update_self]
  refine ⟨hfile, hgone, fun h => ?_⟩
  have hkept := h.kept _ ⟨_, _, .inl rfl, hfile, by simp, by simp⟩
  rw [hfile, hgone] at hkept
  cases hkept

end ClaimPath
end SharedDaemon
