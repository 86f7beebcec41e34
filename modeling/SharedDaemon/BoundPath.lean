import SharedDaemon.ClaimPath
import SharedDaemon.FileWalk

/-!
# A bound path

What `bind` leaves in a whole file tree: the path leads to the listener, no later `bind` on it
changes anything while that listens, and the next one after that takes its place.
-/

namespace SharedDaemon
namespace ClaimPath

open StdPath StdIo FileTree SocketBind

variable {faults : Syscall → Option Fault} {t u t' : Tree} {path : OsStr} {place : Place}

/-- The path is a socket address that ends in a name, and a socket stands there or could. -/
structure Stands (t : Tree) (path : OsStr) (place : Place) : Prop where
  address : addressRefusal path = none
  named : FileTree.named path
  notSlashed : slashed path = false
  own : lookup t false path = .ok place
  leaf : t.Leaf place

theorem Stands.swap (h : Stands t path place) (hswaps : t.Swaps u place) : Stands u path place :=
  ⟨h.address, h.named, h.notSlashed, hswaps.lookup_eq_ok h.own, hswaps.after⟩

theorem Stands.lookup_eq (h : Stands t path place) : lookup t true path = .ok place := by
  rcases lookup_last h.named h.notSlashed h.own with ⟨-, hlookup⟩ | ⟨⟨target, hlink⟩, -⟩
  · exact hlookup
  · exact absurd hlink (h.leaf.2 target)

theorem Stands.stat_eq (h : Stands t path place) {kind : Kind} (hkind : t.entry place = some kind) :
    stat t path = .ok kind := by
  simp [stat, h.lookup_eq, hkind]

theorem createDirAll_of_isDir (faults : Syscall → Option Fault) {q : OsStr}
    (hmkdir : mkdir t q = .error .eexist) (hstat : stat t q = .ok .dir) :
    (createDirAll faults t q).2 = t ∧
      (faults = (fun _ => none) → (createDirAll faults t q).1 = .ok ()) := by
  have hreply : ∃ e, reply faults (.mkdir q false) (mkdir t q) = .error e ∧
      e.kind ≠ .notFound := by
    rw [hmkdir]
    cases hfault : faults (.mkdir q false) with
    | none =>
      exact ⟨Refusal.eexist.toIoError, by simp [reply, answer, hfault, Except.mapError],
        by simp [Refusal.toIoError]⟩
    | some f => exact ⟨f.error, by simp [reply, answer, hfault], f.foreign.1⟩
  obtain ⟨e, he, hkind⟩ := hreply
  unfold createDirAll
  split
  · exact ⟨rfl, fun _ => rfl⟩
  · simp only [he, hkind, if_false, true_and]
    rintro rfl
    simp [isDir, reply, answer, hstat, Except.mapError]

theorem Stands.createParents_eq (h : Stands t path place) (faults : Syscall → Option Fault) :
    (createParents faults t path).2 = t ∧
      (faults = (fun _ => none) → (createParents faults t path).1 = .ok ()) := by
  unfold createParents
  split
  · exact ⟨rfl, fun _ => rfl⟩
  · rename_i q hq
    split
    · exact ⟨rfl, fun _ => rfl⟩
    · rename_i hne
      obtain ⟨hmkdir, hstat⟩ := parent_of_lookup hq hne h.named h.own
      obtain ⟨htree, hok⟩ := createDirAll_of_isDir faults hmkdir hstat
      split
      · rename_i t' heq
        rw [heq] at htree
        exact ⟨htree, fun _ => rfl⟩
      · rename_i e t' heq
        rw [heq] at htree hok
        exact ⟨htree, fun hnone => by cases hok hnone⟩

theorem Stands.connect_eq (h : Stands t path place) {pid : ℕ}
    (hlive : t.entry place = some (.socket (some pid))) : connect t path = .ok pid := by
  simp [connect, h.address, h.stat_eq hlive]

theorem Stands.claim_live (h : Stands t path place) {pid : ℕ}
    (hlive : t.entry place = some (.socket (some pid))) (faults : Syscall → Option Fault)
    (processName : String) :
    ∃ e, claim faults t path processName = (.error e, t) ∧ (faults = (fun _ => none) →
      e = .alreadyRunning processName (location path pid) path pid) := by
  simp only [claim, h.connect_eq hlive]
  cases hfault : faults .connect with
  | none => simp [reply, answer, hfault, Except.mapError]
  | some f =>
    refine ⟨.ioAt path f.error, ?_, ?_⟩
    · simp [reply, answer, hfault, isStaleSocketConnectError, f.foreign]
    · rintro rfl
      cases hfault

/-- No `bind` on the path of a live listener gets anywhere. -/
theorem Stands.bind_live (h : Stands t path place) {pid : ℕ}
    (hlive : t.entry place = some (.socket (some pid))) (faults : Syscall → Option Fault)
    (other : ℕ) (opts : BindOptions) (hpath : opts.path = path) :
    (bind faults other t opts).2 = t ∧ (bind faults other t opts).1 ≠ .ok () ∧
      (faults = (fun _ => none) → (bind faults other t opts).1 = .error
        (.alreadyRunning opts.processName (location path pid) path pid)) := by
  subst hpath
  obtain ⟨htree, hok⟩ := h.createParents_eq faults
  obtain ⟨e, hclaim, hrunning⟩ := h.claim_live hlive faults opts.processName
  cases hparents : (createParents faults t opts.path).1 with
  | error e' =>
    have hbind : bind faults other t opts = (.error e', t) := by
      unfold bind
      rw [show createParents faults t opts.path = (.error e', t) from Prod.ext hparents htree]
    rw [hbind]
    refine ⟨rfl, by simp, fun hnone => ?_⟩
    rw [hok hnone] at hparents
    cases hparents
  | ok made =>
    have hbind : bind faults other t opts = (.error e, t) := by
      unfold bind
      rw [show createParents faults t opts.path = (.ok (), t) from Prod.ext hparents htree]
      simp [hclaim]
    rw [hbind]
    exact ⟨rfl, by simp, fun hnone => by rw [hrunning hnone]⟩

@[simp] theorem cwd_remove (t : Tree) (place : Place) : (t.remove place).cwd = t.cwd := by
  unfold Tree.remove
  split <;> rfl

@[simp] theorem cwd_listen (t : Tree) (place : Place) (pid : ℕ) :
    (t.listen place pid).cwd = t.cwd := by
  unfold Tree.listen
  split <;> rfl

theorem Stands.claim_dead (h : Stands t path place) (hdead : t.entry place = some (.socket none))
    (processName : String) :
    claim (fun _ => none) t path processName = (.ok (), t.remove place) := by
  have hconnect : connect t path = .error .econnrefused := by
    simp [connect, h.address, h.stat_eq hdead]
  have hunlink : unlink t path = .ok (t.remove place) :=
    unlink_eq_ok_iff.mpr ⟨h.named, h.notSlashed, place, _, h.own, hdead, by simp, rfl⟩
  simp [claim, hconnect, hunlink, reply, answer, Except.mapError, stale_toIoError]

theorem Stands.bindSocket_free (h : Stands t path place) (hfree : t.entry place = none) :
    bindSocket t path = .ok (t.add place (.socket none), place) ∧
      (t.add place (.socket none)).entry =
        Function.update t.entry place (some (.socket none)) := by
  have hdir : t.entry place.dropLast = some .dir := by
    rcases lookup_spec h.own with hsome | ⟨-, hdir⟩
    · simp [hfree] at hsome
    · exact hdir
  refine ⟨?_, t.entry_add (.socket none) hfree hdir⟩
  simp [bindSocket, h.address, create, h.own, h.named, hfree, h.notSlashed]

theorem Stands.openSocket_eq (h : Stands t path place) {kind : Kind}
    (hkind : t.entry place = some kind) {opts : BindOptions} (hpath : opts.path = path) :
    openSocket (fun _ => none) t opts = .ok () := by
  subst hpath
  have hstat := h.stat_eq hkind
  cases hchown : opts.chown <;>
    simp [openSocket, reply, answer, hstat, hchown, Except.mapError] <;> rfl

/-- The next `bind` takes a dead socket's place. -/
theorem Stands.bind_dead (h : Stands t path place)
    (hdead : t.entry place = some (.socket none)) (other : ℕ) (opts : BindOptions)
    (hpath : opts.path = path) :
    ∃ u, bind (fun _ => none) other t opts = (.ok (), u) ∧ t.Swaps u place ∧
      u.entry place = some (.socket (some other)) := by
  subst hpath
  have hgone : (t.remove place).entry = Function.update t.entry place none :=
    t.entry_remove (by simp [hdead])
  have hfree : Stands (t.remove place) opts.path place :=
    h.swap (Tree.swaps_of_update (cwd_remove t place) hgone h.leaf (by simp) (by simp))
  obtain ⟨hbound, hsocket⟩ := hfree.bindSocket_free (by simp [hgone])
  have hlisten : (((t.remove place).add place (.socket none)).listen place other).entry =
      Function.update t.entry place (some (.socket (some other))) := by
    rw [Tree.entry_listen _ _ (by simp [hsocket]), hsocket, hgone, Function.update_idem,
      Function.update_idem]
  have hswaps : t.Swaps (((t.remove place).add place (.socket none)).listen place other) place :=
    Tree.swaps_of_update (by simp) hlisten h.leaf (by simp) (by simp)
  have hother : (((t.remove place).add place (.socket none)).listen place other).entry place =
      some (.socket (some other)) := by simp [hlisten]
  refine ⟨_, ?_, hswaps, hother⟩
  obtain ⟨htree, hok⟩ := h.createParents_eq fun _ => none
  have hparents : createParents (fun _ => none) t opts.path = (.ok (), t) :=
    Prod.ext (hok rfl) htree
  have hopen := (h.swap hswaps).openSocket_eq hother rfl
  simp [bind, hparents, h.claim_dead hdead, hbound, reply, answer, Except.mapError, hopen]

theorem stands_of_bindSocket {made : Tree} (h : bindSocket t path = .ok (made, place)) :
    Stands t path place ∧ made = t.add place (.socket none) ∧ t.entry place = none := by
  unfold bindSocket at h
  split at h
  · cases h
  · rename_i haddress
    split at h
    · cases h
    · unfold create at h
      split at h
      · cases h
      · rename_i found hfound
        split at h
        · rename_i hfree
          split at h
          · cases h
          · rename_i hslashed
            obtain ⟨rfl, rfl⟩ := Prod.mk.inj (Except.ok.inj h)
            refine ⟨⟨haddress, hfree.1, by simpa using hslashed, hfound, ?_⟩, rfl, hfree.2⟩
            simp [Tree.Leaf, hfree.2]
        · cases h

theorem stands_of_bind {self : ℕ} {opts : BindOptions}
    (h : bind faults self t opts = (.ok (), t')) :
    ∃ place, Stands t' opts.path place ∧ t'.entry place = some (.socket (some self)) := by
  unfold bind at h
  split at h
  · cases h
  · split at h
    · cases h
    · split at h
      · cases h
      · rename_i t₂ _ _ bound place hbound
        split at h
        · cases h
        · obtain rfl := (Prod.mk.inj h).2
          obtain ⟨hstands, rfl, hfree⟩ := stands_of_bindSocket (reply_eq_ok hbound).2
          obtain ⟨-, hsocket⟩ := hstands.bindSocket_free hfree
          have hfresh : (t₂.add place (.socket none)).entry place = some (.socket none) := by
            simp [hsocket]
          have hlisten := Tree.entry_listen _ self hfresh
          rw [hsocket, Function.update_idem] at hlisten
          refine ⟨place, hstands.swap (Tree.swaps_of_update (by simp) hlisten hstands.leaf (by simp)
            (by simp)), by simp [hlisten]⟩

/-- What has been bound stays bound: the path leads to its listener, and no `bind` on it, by
whatever process and whatever becomes of its calls, gets it or changes anything. When the
listener is gone and its socket is left, the next `bind` takes its place and nothing else. -/
theorem bound_path_is_held (faults : Syscall → Option Fault) (self : ℕ) (t t' : Tree)
    (opts : BindOptions) (h : bind faults self t opts = (.ok (), t')) :
    connect t' opts.path = .ok self ∧
    (∀ (faults' : Syscall → Option Fault) (other : ℕ) (opts' : BindOptions),
      opts'.path = opts.path →
        (bind faults' other t' opts').2 = t' ∧ (bind faults' other t' opts').1 ≠ .ok () ∧
        (faults' = (fun _ => none) → (bind faults' other t' opts').1 = .error
          (.alreadyRunning opts'.processName (location opts.path self) opts.path self))) ∧
    ∃ place, lookup t' false opts.path = .ok place ∧
      ∀ (left : Tree) (other : ℕ) (opts' : BindOptions), opts'.path = opts.path →
        left.cwd = t'.cwd → left.entry = Function.update t'.entry place (some (.socket none)) →
          ∃ u, bind (fun _ => none) other left opts' = (.ok (), u) ∧
            connect u opts.path = .ok other ∧ ∀ q, q ≠ place → u.entry q = t'.entry q := by
  obtain ⟨place, hstands, hlive⟩ := stands_of_bind h
  refine ⟨hstands.connect_eq hlive,
    fun faults' other opts' hpath => hstands.bind_live hlive faults' other opts' hpath, place,
    hstands.own, fun left other opts' hpath hcwd hentry => ?_⟩
  have hleft : Stands left opts.path place :=
    hstands.swap (Tree.swaps_of_update hcwd hentry hstands.leaf (by simp) (by simp))
  obtain ⟨u, hbind, hswaps, hother⟩ := hleft.bind_dead (by simp [hentry]) other opts' hpath
  refine ⟨u, hbind, (hleft.swap hswaps).connect_eq hother, fun q hq => ?_⟩
  rw [hswaps.entry q hq, hentry, Function.update_of_ne hq]

def leftover : Tree := Tree.empty.add [ofString "s"] (.socket none)

def options : BindOptions := ⟨ofString "/s", 0o600, none, "micronet"⟩

theorem bound_path_is_held_leftover :
    ∃ t', bind (fun _ => none) 7 leftover options = (.ok (), t') ∧
      connect t' options.path = .ok 7 ∧
      (bind (fun _ => none) 8 t' options).1 =
        .error (.alreadyRunning "micronet" (ofString "/s (pid 7)") (ofString "/s") 7) := by
  have hsocket : leftover.entry [ofString "s"] = some (.socket none) := by decide +kernel
  have hlookup : lookup leftover false (ofString "/s") = .ok [ofString "s"] := by
    have hvalid : ofString "/s" ≠ [] ∧ 0 ∉ ofString "/s" := by decide +kernel
    have hsegments : segments (ofString "/s") = [.rootDir, .normal (ofString "s")] := by
      decide +kernel
    simp [lookup, hvalid, hsegments, walk, hsocket]
  have hstands : Stands leftover (ofString "/s") [ofString "s"] :=
    ⟨by decide +kernel, by decide +kernel, by decide +kernel, hlookup, by simp [Tree.Leaf, hsocket]⟩
  obtain ⟨t', hbind, -⟩ := hstands.bind_dead hsocket 7 options rfl
  obtain ⟨hconnect, hheld, -⟩ := bound_path_is_held _ 7 leftover t' options hbind
  have hlocation : location options.path 7 = ofString "/s (pid 7)" := by decide +kernel
  refine ⟨t', hbind, hconnect, ?_⟩
  rw [(hheld _ 8 options rfl).2.2 rfl, hlocation]
  rfl

end ClaimPath
end SharedDaemon
