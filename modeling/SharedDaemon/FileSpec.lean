import SharedDaemon.Watch

/-!
# Watching a single file

`WatchSpec::file` keeps the base name of the file, `watch_dir_for` picks the directory and
`is_relevant_path` filters what happens there.
-/

namespace SharedDaemon
namespace FileSpec

open StdPath Watch

/-- The directory that contains the file; the working directory for a bare name. -/
def containing (p : OsStr) : OsStr :=
  match parent p with
  | none | some [] => [dot]
  | some dir => dir

/-- The empty path is no directory, and `create_dir_all` does not make it one. -/
structure EmptyPath (os : DirAnswers) : Prop where
  isDir : os.isDir [] = false
  createDirAll : os.createDirAll [] = false

/-- The containing directory is there and the system accepts a watch on it; the file itself
is no directory. -/
structure Watchable (os : DirAnswers) (p : OsStr) : Prop where
  file : os.isDir p = false
  dir : os.isDir (containing p) = true
  watch : os.watch (containing p) false = true

def changeKinds : List EventKind := [.create, .modify, .remove]

/-- The spec of the file is attached to its directory, and what happens to the file there is
a reload trigger. -/
structure ReallyWatched (os : DirAnswers) (p name : OsStr) : Prop where
  attached : attachSpec os (.file p) = true
  registered : targetOf os (.file p) = containing p
  passes : isRelevantPath (push (containing p) name) (WatchSpec.file p).filter = true
  triggers : ∀ kind ∈ changeKinds, relevant [.file p] ⟨kind, [push (containing p) name]⟩ = true

variable {os : DirAnswers} {p : OsStr} {name : String}

theorem fileName_eq (h : (fileName p).bind toStr = some name) :
    fileName p = some (ofString name) := by
  obtain ⟨n, hn, hname⟩ := Option.bind_eq_some_iff.mp h
  rw [hn, ofString_of_toStr hname]

theorem file_filter (h : (fileName p).bind toStr = some name) :
    (WatchSpec.file p).filter = .basename name := by
  simp [WatchSpec.file, h]

theorem containing_ne_nil (p : OsStr) : containing p ≠ [] := by
  simp only [containing]
  split
  · simp
  · simp
  · rename_i dir hne hparent
    exact hne

theorem targetOf_file (hfile : os.isDir p = false) :
    targetOf os (.file p) = (parent p).getD [dot] := by
  simp [targetOf, WatchSpec.file, watchDirFor, hfile]

/-- With a directory part, or no parent at all, the containing directory is the one that is
registered. -/
theorem targetOf_file_eq_containing (hfile : os.isDir p = false) (hpart : parent p ≠ some []) :
    targetOf os (.file p) = containing p := by
  rw [targetOf_file hfile, containing]
  split
  · rename_i hparent
    rw [hparent, Option.getD_none]
  · rename_i hparent
    exact absurd hparent hpart
  · rename_i hparent
    rw [hparent, Option.getD_some]

theorem attachSpec_bare (hos : EmptyPath os) (hfile : os.isDir p = false)
    (hbare : parent p = some []) : attachSpec os (.file p) = false := by
  have htarget := targetOf_file (p := p) hfile
  rw [hbare, Option.getD_some] at htarget
  simp only [targetOf] at htarget
  simp [attachSpec, htarget, hos.isDir, hos.createDirAll]

theorem attachSpec_file (h : Watchable os p) (htarget : targetOf os (.file p) = containing p) :
    attachSpec os (.file p) = true := by
  simp only [targetOf] at htarget
  have hwatch : os.watch (containing p) (WatchSpec.file p).recursive = true := h.watch
  simp [attachSpec, htarget, h.dir, hwatch]

theorem isRelevantPath_file (h : (fileName p).bind toStr = some name) :
    isRelevantPath (push (containing p) (ofString name)) (WatchSpec.file p).filter =
      !isJunkName name := by
  have hisName := isName_of_fileName (fileName_eq h)
  have hpushed : (fileName (push (containing p) (ofString name))).bind toStr = some name := by
    rw [fileName_push (containing_ne_nil p) hisName, Option.bind_some, toStr_ofString]
  rw [file_filter h, isRelevantPath, hpushed]
  cases hjunk : isJunkName name <;> simp [hjunk]

/-- A file is watched as asked for exactly when its path has a directory part and its name is
none that the filter takes for junk. -/
theorem file_really_watched_iff (os : DirAnswers) (hos : EmptyPath os) (p : OsStr) (name : String)
    (hname : (fileName p).bind toStr = some name) (h : Watchable os p) :
    ReallyWatched os p (ofString name) ↔ parent p ≠ some [] ∧ isJunkName name = false := by
  have hpasses := isRelevantPath_file hname
  constructor
  · intro hwatched
    constructor
    · intro hbare
      have hattached := hwatched.attached
      rw [attachSpec_bare hos h.file hbare] at hattached
      cases hattached
    · rw [hwatched.passes] at hpasses
      simpa using hpasses.symm
  · rintro ⟨hpart, hjunk⟩
    rw [hjunk, Bool.not_false] at hpasses
    have htarget := targetOf_file_eq_containing h.file hpart
    refine ⟨attachSpec_file h htarget, htarget, hpasses, ?_⟩
    intro kind hkind
    have hchanges : kind.changes = true := by
      simp only [changeKinds, List.mem_cons, List.not_mem_nil, or_false] at hkind
      rcases hkind with rfl | rfl | rfl <;> rfl
    simp [relevant, hchanges, hpasses]

def etcDir : DirAnswers :=
  ⟨fun p => p = ofString "/etc" ∨ p = ofString ".", fun p => p ≠ [], fun _ _ => true⟩

theorem file_really_watched_etc :
    ReallyWatched etcDir (ofString "/etc/net.json") (ofString "net.json") := by
  have hos : EmptyPath etcDir := ⟨by decide +kernel, by decide +kernel⟩
  have h : Watchable etcDir (ofString "/etc/net.json") :=
    ⟨by decide +kernel, by decide +kernel, rfl⟩
  exact (file_really_watched_iff etcDir hos _ "net.json" (by decide +kernel) h).mpr
    (by decide +kernel)

/-- A bare name, in a working directory that is there. -/
theorem bare_name_is_not_watched :
    ¬ ∀ (os : DirAnswers) (p : OsStr) (name : String), EmptyPath os →
      (fileName p).bind toStr = some name → Watchable os p → attachSpec os (.file p) = true := by
  intro h
  have hattached := h etcDir (ofString "net.json") "net.json" ⟨by decide +kernel, by decide +kernel⟩
    (by decide +kernel) ⟨by decide +kernel, by decide +kernel, rfl⟩
  exact absurd hattached (by decide +kernel)

end FileSpec
end SharedDaemon
