import SharedDaemon.DataDir

/-!
# Who shares a path in the data directory

The four helpers put the files of all daemons under one root. Two of them get in each other's
way when one path is the other or leads through it.
-/

namespace SharedDaemon
namespace DataDir

open StdPath

inductive Entry
  | etcFile (name ext : String)
  | etcDir (name : String)
  | runSocket (name : String)
  | runNestedSocket (name : String)
  deriving DecidableEq

def pathOf (d : DataDir) : Entry → OsStr
  | .etcFile name ext => d.etcFile name ext
  | .etcDir name => d.etcDir name
  | .runSocket name => d.runSocket name
  | .runNestedSocket name => d.runNestedSocket name

def etc : OsStr := ofString "etc"

def run : OsStr := ofString "run"

def Entry.names : Entry → List OsStr
  | .etcFile name ext => [etc, ofString (name ++ "." ++ ext)]
  | .etcDir name => [etc, ofString name]
  | .runSocket name => [run, ofString (name ++ ".sock")]
  | .runNestedSocket name => [run, ofString name, ofString (name ++ ".sock")]

def Entry.Plain (e : Entry) : Prop := ∀ name ∈ e.names, IsName name

/-- The first entry is the second, or a directory on the way to it. A nested socket needs a
directory of the name that a plain socket may have. -/
def Entry.Blocks : Entry → Entry → Prop
  | .etcFile name ext, .etcFile name' ext' => name ++ "." ++ ext = name' ++ "." ++ ext'
  | .etcFile name ext, .etcDir name' | .etcDir name', .etcFile name ext =>
    name ++ "." ++ ext = name'
  | .etcDir name, .etcDir name' => name = name'
  | .runSocket name, .runSocket name' => name = name'
  | .runSocket name, .runNestedSocket name' => name ++ ".sock" = name'
  | .runNestedSocket name, .runNestedSocket name' => name = name'
  | _, _ => False

theorem components_name {name : OsStr} (h : IsName name) : components name = [.normal name] := by
  have hne : name ≠ [] := by
    rintro rfl
    simpa [skipped] using h.notSkipped
  have hdot : name ≠ [dot] := by
    rintro rfl
    simpa [skipped] using h.notSkipped
  simp [components, h.hasRoot, parts, List.splitOn_eq_singleton h.noSlash, hne, component, hdot,
    h.notParent]

theorem components_names (names : List OsStr) (h : ∀ name ∈ names, IsName name) (root : OsStr) :
    components (names.foldl push root) = components root ++ names.map .normal := by
  have hrelative : ∀ name ∈ names, hasRoot name = false := fun name hmem => (h name hmem).hasRoot
  have hfollowing : names.flatMap following = names.map .normal := by
    rw [List.flatMap_congr fun name hmem => (h name hmem).following]
    exact List.map_eq_flatMap.symm
  by_cases hroot : root = []
  · subst hroot
    cases names with
    | nil => rfl
    | cons name names =>
      have hname := h name (by simp)
      have hfirst : push [] name = name := by simp [push]
      have hne : name ≠ [] := by
        rintro rfl
        simpa [skipped] using hname.notSkipped
      rw [List.flatMap_cons, hname.following] at hfollowing
      have hnil : components [] = [] := by decide
      rw [List.foldl_cons, hfirst, components_foldl hne fun r hr => hrelative r (by simp [hr]),
        components_name hname, hfollowing, hnil, List.nil_append]
  · rw [components_foldl hroot hrelative, hfollowing]

theorem components_pathOf (d : DataDir) {e : Entry} (h : e.Plain) :
    components (d.pathOf e) = components d.root ++ e.names.map .normal := by
  rw [← components_names e.names h]
  cases e <;> rfl

theorem ofString_inj {a b : String} : ofString a = ofString b ↔ a = b := by
  constructor
  · intro h
    have hback := congrArg toStr h
    simpa [toStr_ofString] using hback
  · exact congrArg ofString

theorem names_blocks_iff (e e' : Entry) : e.names <+: e'.names ↔ e.Blocks e' := by
  have hne : etc ≠ run ∧ run ≠ etc := by decide +kernel
  cases e <;> cases e' <;>
    simp [Entry.names, Entry.Blocks, List.cons_prefix_cons, ofString_inj, hne]
  case etcDir.etcFile => exact eq_comm

theorem of_append_cons {α : Type} {a : α} {xs xs' ys ys' : List α} (h : a ∉ xs) (h' : a ∉ xs')
    (heq : xs ++ a :: ys = xs' ++ a :: ys') : xs = xs' ∧ ys = ys' := by
  induction xs generalizing xs' with
  | nil =>
    cases xs' with
    | nil => simpa using heq
    | cons x' xs' =>
      obtain ⟨rfl, -⟩ := List.cons.inj heq
      exact absurd List.mem_cons_self h'
  | cons x xs ih =>
    cases xs' with
    | nil =>
      obtain ⟨rfl, -⟩ := List.cons.inj heq
      exact absurd List.mem_cons_self h
    | cons x' xs' =>
      obtain ⟨rfl, hrest⟩ := List.cons.inj heq
      obtain ⟨rfl, rfl⟩ :=
        ih (List.not_mem_of_not_mem_cons h) (List.not_mem_of_not_mem_cons h') hrest
      exact ⟨rfl, rfl⟩

/-- A name and an extension without a dot can be told apart. -/
theorem append_dot_inj {name name' ext ext' : String} (hext : '.' ∉ ext.toList)
    (hext' : '.' ∉ ext'.toList) :
    name ++ "." ++ ext = name' ++ "." ++ ext' ↔ name = name' ∧ ext = ext' := by
  constructor
  · intro h
    have hlist := congrArg String.toList h
    have hreverse := congrArg List.reverse hlist
    have hdot : ".".toList = ['.'] := by decide
    simp only [String.toList_append, hdot, List.reverse_append, List.reverse_singleton,
      List.singleton_append] at hreverse
    obtain ⟨hext, hname⟩ := of_append_cons (by simpa using hext) (by simpa using hext') hreverse
    exact ⟨String.toList_inj.mp (List.reverse_inj.mp hname),
      String.toList_inj.mp (List.reverse_inj.mp hext)⟩
  · rintro ⟨rfl, rfl⟩
    rfl

/-- Below one root no path is another or leads through it, but where the names say so: plain
files and directories under `etc` of one full name, and a socket whose file name a nested
socket takes for its directory. -/
theorem layout_blocks_iff (d : DataDir) :
    (∀ e e' : Entry, e.Plain → e'.Plain →
      (components (d.pathOf e) <+: components (d.pathOf e') ↔ e.Blocks e')) ∧
    ∀ name ext name' ext' : String, '.' ∉ ext.toList → '.' ∉ ext'.toList →
      (Entry.etcFile name ext).Plain → (Entry.etcFile name' ext').Plain →
        (d.etcFile name ext = d.etcFile name' ext' ↔ name = name' ∧ ext = ext') := by
  have hblocks (e e' : Entry) (he : e.Plain) (he' : e'.Plain) :
      components (d.pathOf e) <+: components (d.pathOf e') ↔ e.Blocks e' := by
    have hinj : Function.Injective Component.normal := fun _ _ h => Component.normal.inj h
    rw [components_pathOf d he, components_pathOf d he',
      List.prefix_append_right_inj, List.prefix_map_iff_of_injective hinj, names_blocks_iff]
  refine ⟨hblocks, fun name ext name' ext' hext hext' he he' => ?_⟩
  rw [← append_dot_inj hext hext']
  constructor
  · intro h
    have hsame : d.pathOf (.etcFile name ext) = d.pathOf (.etcFile name' ext') := h
    exact (hblocks _ _ he he').mp (hsame ▸ List.prefix_rfl)
  · intro h
    rw [etcFile, etcFile, h]

/-- The socket of one daemon stands where the nested socket of another needs a directory. -/
theorem layout_blocks_iff_nested :
    let d : DataDir := ⟨ofString "/data"⟩
    components (d.runSocket "a") <+: components (d.runNestedSocket "a.sock") ∧
      ¬ components (d.runSocket "a") <+: components (d.runNestedSocket "b") := by
  have hplain (e : Entry) (h : ∀ name ∈ e.names, slash ∉ name ∧ skipped name = false ∧
      name ≠ [dot, dot]) : e.Plain :=
    fun name hmem => ⟨(h name hmem).1, (h name hmem).2.1, (h name hmem).2.2⟩
  have ha : (Entry.runSocket "a").Plain := hplain _ (by decide +kernel)
  have hblocks := (layout_blocks_iff ⟨ofString "/data"⟩).1
  constructor
  · exact (hblocks (.runSocket "a") (.runNestedSocket "a.sock") ha
      (hplain _ (by decide +kernel))).mpr rfl
  · intro h
    have hname := (hblocks (.runSocket "a") (.runNestedSocket "b") ha
      (hplain _ (by decide +kernel))).mp h
    exact absurd hname (by simp only [Entry.Blocks]; decide)

end DataDir
end SharedDaemon
