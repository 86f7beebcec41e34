import Mathlib.Data.List.Basic

/-!
# Unix paths

A path is a string of bytes. `file_name`, `extension` and `parent` work on its
components: the separator may be repeated, and a `.` other than a leading one is skipped.
-/

namespace StdPath

abbrev OsStr := List UInt8

def ofString (s : String) : OsStr := s.toByteArray.data.toList

def toStr (p : OsStr) : Option String := String.fromUTF8? ⟨p.toArray⟩

theorem toStr_ofString (text : String) : toStr (ofString text) = some text := by
  have hbytes : (⟨(ofString text).toArray⟩ : ByteArray) = text.toByteArray := by simp [ofString]
  rw [toStr, hbytes, String.fromUTF8?, dif_pos text.isValidUTF8]
  rfl

theorem ofString_of_toStr {p : OsStr} {text : String} (h : toStr p = some text) :
    ofString text = p := by
  rw [toStr, String.fromUTF8?] at h
  split at h
  · obtain rfl := Option.some.inj h
    simp [ofString, String.fromUTF8]
  · cases h

theorem ofString_append (s t : String) : ofString (s ++ t) = ofString s ++ ofString t := by
  simp [ofString, String.toByteArray_append]

def slash : UInt8 := 0x2F

def dot : UInt8 := 0x2E

inductive Component
  | rootDir
  | curDir
  | parentDir
  | normal (name : OsStr)
  deriving DecidableEq, Repr

def hasRoot (p : OsStr) : Bool := p.head? = some slash

def parts (p : OsStr) : List OsStr :=
  (if hasRoot p then p.drop 1 else p).splitOn slash

/-- A part that is not the leading one is no component when it is empty or `.`. -/
def skipped (part : OsStr) : Bool := part = [] ∨ part = [dot]

def component (part : OsStr) : Component :=
  if part = [dot] then .curDir else if part = [dot, dot] then .parentDir else .normal part

def components (p : OsStr) : List Component :=
  match hasRoot p, parts p with
  | true, ps => .rootDir :: (ps.filter fun part => !skipped part).map component
  | false, [] => []
  | false, first :: ps =>
    (if first = [] then [] else [component first]) ++
      (ps.filter fun part => !skipped part).map component

def fileName (p : OsStr) : Option OsStr :=
  match (components p).getLast? with
  | some (.normal name) => some name
  | _ => none

/-- What follows the last dot of a name that has one beyond its first byte. -/
def extensionOf (name : OsStr) : Option OsStr :=
  match name.splitOn dot with
  | [] | [_] => none
  | [[], _] => none
  | pieces => pieces.getLast?

def extension (p : OsStr) : Option OsStr := (fileName p).bind extensionOf

def trimRight (leading : Bool) : List OsStr → List OsStr
  | [] => []
  | part :: ps =>
    match trimRight false ps with
    | [] => if part = [] ∨ (!leading && skipped part) then [] else [part]
    | qs => part :: qs

/-- `Path::parent`: the path without its last component, if that is not the root. -/
def parent (p : OsStr) : Option OsStr :=
  let leading := !hasRoot p
  match trimRight leading (parts p) with
  | [] => none
  | ps =>
    some ((if hasRoot p then [slash] else []) ++
      [slash].intercalate (trimRight leading ps.dropLast))

example : [("/data/etc/x.json", "/data/etc"), ("x.json", ""), ("/x", "/"), ("./x", "."),
    ("a//b/./", "a"), ("a/.", "")].all fun (p, q) => parent (ofString p) = some (ofString q) := by
  decide +kernel

theorem trimRight_prefix (leading : Bool) (ps : List OsStr) : trimRight leading ps <+: ps := by
  induction ps generalizing leading with
  | nil => exact List.prefix_rfl
  | cons part ps ih =>
    simp only [trimRight]
    split
    · split
      · exact List.nil_prefix
      · exact ⟨ps, rfl⟩
    · exact (List.prefix_cons_inj part).mpr (ih false)

theorem length_intercalate_lt {qs ps : List OsStr} (h : qs <+: ps) (hlt : qs.length < ps.length)
    (hne : [slash].intercalate ps ≠ []) :
    ([slash].intercalate qs).length < ([slash].intercalate ps).length := by
  induction qs generalizing ps with
  | nil => simpa [List.length_pos_iff] using hne
  | cons q qs ih =>
    obtain ⟨rest, rfl⟩ := h
    cases qs with
    | nil =>
      cases rest with
      | nil => simp at hlt
      | cons r rest => simp [List.intercalate_cons_cons]
    | cons r qs =>
      have hrest : ([slash].intercalate (r :: qs)).length <
          ([slash].intercalate ((r :: qs) ++ rest)).length := by
        refine ih ⟨rest, rfl⟩ (by simpa using hlt) ?_
        cases qs with
        | nil =>
          cases rest with
          | nil => simp at hlt
          | cons => simp [List.intercalate_cons_cons]
        | cons => simp [List.intercalate_cons_cons]
      simpa [List.intercalate_cons_cons] using hrest

theorem trimRight_eq_nil {leading : Bool} {ps : List OsStr} (h : [slash].intercalate ps = []) :
    trimRight leading ps = [] := by
  match ps, h with
  | [], _ => rfl
  | [part], h =>
    have hpart : part = [] := by simpa using h
    simp [trimRight, hpart]
  | _ :: _ :: _, h => simp [List.intercalate_cons_cons] at h

theorem root_append_parts (p : OsStr) :
    (if hasRoot p then [slash] else []) ++ [slash].intercalate (parts p) = p := by
  simp only [parts, List.intercalate_splitOn]
  split
  · rename_i hroot
    cases p with
    | nil => simp [hasRoot] at hroot
    | cons c p => simpa [hasRoot, eq_comm] using hroot
  · rfl

theorem length_parent_lt {p q : OsStr} (h : parent p = some q) : q.length < p.length := by
  simp only [parent] at h
  split at h
  · cases h
  · rename_i hps
    have hne : [slash].intercalate (parts p) ≠ [] := fun hnil => hps (trimRight_eq_nil hnil)
    have hprefix := trimRight_prefix (!hasRoot p) (parts p)
    have hpos : 0 < (trimRight (!hasRoot p) (parts p)).length := List.length_pos_iff.mpr hps
    have hdrop : (trimRight (!hasRoot p) (parts p)).dropLast <+: parts p :=
      (List.dropLast_prefix _).trans hprefix
    have hparent := trimRight_prefix (!hasRoot p) (trimRight (!hasRoot p) (parts p)).dropLast
    have hlt : (trimRight (!hasRoot p) (trimRight (!hasRoot p) (parts p)).dropLast).length <
        (parts p).length := by
      have hle := hparent.length_le
      have hle' := hprefix.length_le
      rw [List.length_dropLast] at hle
      omega
    have hshort := length_intercalate_lt (hparent.trans hdrop) hlt hne
    obtain rfl := Option.some.inj h
    have hlen := congrArg List.length (root_append_parts p)
    simp only [List.length_append] at hlen ⊢
    omega

theorem parent_ne (p : OsStr) : parent p ≠ some p :=
  fun h => absurd (length_parent_lt h) (Nat.lt_irrefl _)

/-- `PathBuf::push`: an absolute path replaces what is there. -/
def push (p q : OsStr) : OsStr :=
  if hasRoot q then q
  else if p = [] ∨ p.getLast? = some slash then p ++ q
  else p ++ slash :: q

example : [("/data", "etc", "/data/etc"), ("/data/", "etc", "/data/etc"), ("/data", "", "/data/"),
    ("", "etc", "etc"), ("/data", "/etc", "/etc")].all fun (p, q, r) =>
      push (ofString p) (ofString q) = ofString r := by
  decide +kernel

def following (q : OsStr) : List Component :=
  ((q.splitOn slash).filter fun part => !skipped part).map component

@[simp] theorem hasRoot_nil : hasRoot [] = false := rfl

@[simp] theorem hasRoot_cons (c : UInt8) (p : OsStr) : hasRoot (c :: p) = decide (c = slash) := by
  simp [hasRoot]

@[simp] theorem components_nil : components [] = [] := rfl

@[simp] theorem following_nil : following [] = [] := rfl

@[simp] theorem components_slash (q : OsStr) :
    components (slash :: q) = .rootDir :: following q := by
  simp [components, parts, following]

theorem following_append (p q : OsStr) :
    following (p ++ slash :: q) = following p ++ following q := by
  simp [following, List.splitOn_append_cons_self]

theorem exists_splitOn {c : UInt8} (hc : c ≠ slash) (p : OsStr) :
    ∃ part ps, (c :: p).splitOn slash = (c :: part) :: ps := by
  obtain ⟨part, ps, hps⟩ := List.exists_cons_of_ne_nil (List.splitOn_ne_nil slash p)
  refine ⟨part, ps, ?_⟩
  rw [List.splitOn_cons_eq_if_modifyHead, hps]
  simp [hc]

theorem components_append_slash {p : OsStr} (hp : p ≠ []) (q : OsStr) :
    components (p ++ slash :: q) = components p ++ following q := by
  cases p with
  | nil => exact absurd rfl hp
  | cons c p =>
    by_cases hc : c = slash
    · subst hc
      simp [following_append]
    · obtain ⟨part, ps, hps⟩ := exists_splitOn hc p
      have happend : (c :: p ++ slash :: q).splitOn slash =
          (c :: part) :: (ps ++ q.splitOn slash) := by
        rw [List.splitOn_append_cons_self, hps]
        rfl
      have hroot : hasRoot (c :: p) = false := by simpa using hc
      have hroot' : hasRoot (c :: p ++ slash :: q) = false := by simpa using hc
      simp only [components, parts, hroot, hroot', Bool.false_eq_true, if_false, happend, hps,
        following]
      simp

/-- A relative path adds its components. -/
theorem components_push {p q : OsStr} (hp : p ≠ []) (hq : hasRoot q = false) :
    components (push p q) = components p ++ following q := by
  simp only [push, hq, Bool.false_eq_true, if_false, hp, false_or]
  split
  · rename_i hlast
    obtain ⟨r, rfl⟩ := List.getLast?_eq_some_iff.mp hlast
    cases r with
    | nil => simp
    | cons c r =>
      have hne : c :: r ≠ [] := List.cons_ne_nil c r
      rw [List.append_assoc, List.singleton_append, components_append_slash hne,
        components_append_slash hne]
      simp
  · exact components_append_slash hp q

theorem push_ne_nil {p : OsStr} (hp : p ≠ []) (q : OsStr) : push p q ≠ [] := by
  simp only [push]
  split
  · rename_i hroot
    rintro rfl
    simp at hroot
  · split <;> simp [hp]

/-- The names that are one component: not empty, no separator, not `.` or `..`. -/
structure IsName (name : OsStr) : Prop where
  noSlash : slash ∉ name
  notSkipped : skipped name = false
  notParent : name ≠ [dot, dot]

theorem IsName.following {name : OsStr} (h : IsName name) :
    following name = [.normal name] := by
  have hdot : name ≠ [dot] := by
    rintro rfl
    simpa [skipped] using h.notSkipped
  rw [StdPath.following, List.splitOn_eq_singleton h.noSlash,
    List.filter_cons_of_pos (by simp [h.notSkipped]), List.filter_nil, List.map_singleton, component,
    if_neg hdot, if_neg h.notParent]

theorem IsName.hasRoot {name : OsStr} (h : IsName name) : hasRoot name = false := by
  cases name with
  | nil => rfl
  | cons c name =>
    have hne := List.ne_of_not_mem_cons h.noSlash
    simpa using hne.symm

theorem notMem_of_mem_splitOn {p part : OsStr} (h : part ∈ p.splitOn slash) : slash ∉ part := by
  induction p generalizing part with
  | nil => simp_all
  | cons c p ih =>
    rw [List.splitOn_cons_eq_if_modifyHead] at h
    split at h
    · rcases List.mem_cons.mp h with rfl | h
      · simp
      · exact ih h
    · rename_i hc
      obtain ⟨first, ps, hps⟩ := List.exists_cons_of_ne_nil (List.splitOn_ne_nil slash p)
      rw [hps, List.modifyHead_cons] at h
      rcases List.mem_cons.mp h with rfl | h
      · have hfirst : slash ∉ first := ih (by simp [hps])
        have hne : slash ≠ c := fun heq => hc (by simp [heq])
        simp [hne, hfirst]
      · exact ih (by simp [hps, h])

theorem component_eq_normal {part name : OsStr} (h : component part = .normal name) :
    part = name ∧ part ≠ [dot] ∧ part ≠ [dot, dot] := by
  simp only [component] at h
  split at h
  · cases h
  · split at h
    · cases h
    · simp_all

theorem isName_of_mem {p name : OsStr} (h : .normal name ∈ components p) : IsName name := by
  have hpart : ∃ part ∈ parts p, skipped part = false ∧ component part = .normal name := by
    simp only [components] at h
    split at h
    · simpa [and_assoc] using h
    · simp at h
    · rename_i first ps hroot hps
      rw [hps]
      rcases List.mem_append.mp h with h | h
      · split at h
        · simp at h
        · rename_i hne
          have hfirst := List.mem_singleton.mp h
          obtain ⟨-, hdot, -⟩ := component_eq_normal hfirst.symm
          exact ⟨first, by simp, by simp [skipped, hne, hdot], hfirst.symm⟩
      · obtain ⟨part, hpart, hname⟩ := List.mem_map.mp h
        obtain ⟨hmem, hskip⟩ := List.mem_filter.mp hpart
        exact ⟨part, List.mem_cons_of_mem _ hmem, by simpa using hskip, hname⟩
  obtain ⟨part, hmem, hskip, hname⟩ := hpart
  obtain ⟨rfl, hdot, hparent⟩ := component_eq_normal hname
  exact ⟨notMem_of_mem_splitOn hmem, hskip, hparent⟩

theorem getLast?_of_fileName {p name : OsStr} (h : fileName p = some name) :
    (components p).getLast? = some (.normal name) := by
  simp only [fileName] at h
  split at h
  · rename_i last hlast
    rw [hlast, Option.some.inj h]
  · cases h

theorem isName_of_fileName {p name : OsStr} (h : fileName p = some name) : IsName name :=
  isName_of_mem (List.mem_of_getLast? (getLast?_of_fileName h))

theorem fileName_push {p name : OsStr} (hp : p ≠ []) (h : IsName name) :
    fileName (push p name) = some name := by
  simp [fileName, components_push hp h.hasRoot, h.following]

end StdPath
