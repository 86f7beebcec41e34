import Mathlib.Logic.Function.Basic
import SharedDaemon.StdIo
import SharedDaemon.StdPath

/-!
# A Unix file tree

A place is the list of the names that lead to it from the root, none of them a link. A path
is walked component by component; a link on the way is followed, and one at its end if the
call asks for it: `stat` and `connect` do, `unlink`, `mkdir` and `bind` do not.
-/

namespace FileTree

open StdPath StdIo

abbrev Place := List OsStr

/-- What there is at a place; a live socket has the process that listens on it. -/
inductive Kind
  | file (content : List UInt8)
  | dir
  | symlink (target : OsStr)
  | socket (listener : Option ℕ)
  deriving DecidableEq

/-- The entries, each in a directory, as a process with a working directory sees them. -/
structure Tree where
  entry : Place → Option Kind
  cwd : Place
  root : entry [] = some .dir
  cwd_dir : entry cwd = some .dir
  parent : ∀ place name, (entry (place ++ [name])).isSome → entry place = some .dir

/-- Why a call is refused: an error number, or a check of the standard library before it. -/
inductive Refusal
  | enoent | enotdir | eloop | eisdir | eexist | einval | econnrefused | eaddrinuse
  | nulInPath | nulInAddress | longAddress
  deriving DecidableEq

def Refusal.toIoError : Refusal → IoError
  | .enoent => ⟨.notFound, "No such file or directory (os error 2)"⟩
  | .enotdir => ⟨.other, "Not a directory (os error 20)"⟩
  | .eloop => ⟨.other, "Too many levels of symbolic links (os error 40)"⟩
  | .eisdir => ⟨.other, "Is a directory (os error 21)"⟩
  | .eexist => ⟨.other, "File exists (os error 17)"⟩
  | .einval => ⟨.other, "Invalid argument (os error 22)"⟩
  | .econnrefused => ⟨.connectionRefused, "Connection refused (os error 111)"⟩
  | .eaddrinuse => ⟨.addrInUse, "Address already in use (os error 98)"⟩
  | .nulInPath => ⟨.other, "file name contained an unexpected NUL byte"⟩
  | .nulInAddress => ⟨.other, "paths must not contain interior null bytes"⟩
  | .longAddress => ⟨.other, "path must be shorter than SUN_LEN"⟩

namespace Tree

def empty : Tree where
  entry place := if place = [] then some .dir else none
  cwd := []
  root := rfl
  cwd_dir := rfl
  parent place name h := by simp at h

theorem ne_root (t : Tree) {place : Place} (h : t.entry place ≠ some .dir) : place ≠ [] := by
  rintro rfl
  exact h t.root

/-- An entry that is no directory comes, goes or changes; a new one needs a directory. -/
def set (t : Tree) (place : Place) (kind : Option Kind) (h : t.entry place ≠ some .dir)
    (hparent : kind ≠ none → t.entry place.dropLast = some .dir) : Tree where
  entry := Function.update t.entry place kind
  cwd := t.cwd
  root := by rw [Function.update_of_ne (t.ne_root h).symm, t.root]
  cwd_dir := by
    have hne : t.cwd ≠ place := by
      rintro rfl
      exact h t.cwd_dir
    rw [Function.update_of_ne hne, t.cwd_dir]
  parent q name hsome := by
    have hdir : t.entry q = some .dir := by
      by_cases heq : q ++ [name] = place
      · subst heq
        rw [Function.update_self] at hsome
        simpa using hparent (Option.isSome_iff_ne_none.mp hsome)
      · rw [Function.update_of_ne heq] at hsome
        exact t.parent q name hsome
    have hne : q ≠ place := by
      rintro rfl
      exact h hdir
    rw [Function.update_of_ne hne, hdir]

theorem entry_dropLast (t : Tree) {place : Place} (h : (t.entry place).isSome) :
    t.entry place.dropLast = some .dir := by
  rcases List.eq_nil_or_concat place with rfl | ⟨above, name, rfl⟩
  · exact t.root
  · rw [List.concat_eq_append] at h ⊢
    rw [List.dropLast_concat]
    exact t.parent above name h

def add (t : Tree) (place : Place) (kind : Kind) : Tree :=
  if h : t.entry place = none ∧ t.entry place.dropLast = some .dir then
    t.set place (some kind) (by simp [h.1]) fun _ => h.2
  else t

def remove (t : Tree) (place : Place) : Tree :=
  if h : t.entry place ≠ some .dir then t.set place none h (absurd rfl) else t

def listen (t : Tree) (place : Place) (listener : ℕ) : Tree :=
  if h : t.entry place = some (.socket none) then
    t.set place (some (.socket (some listener))) (by simp [h])
      fun _ => t.entry_dropLast (by simp [h])
  else t

theorem entry_add (t : Tree) {place : Place} (kind : Kind) (hnone : t.entry place = none)
    (hdir : t.entry place.dropLast = some .dir) :
    (t.add place kind).entry = Function.update t.entry place (some kind) := by
  rw [add, dif_pos ⟨hnone, hdir⟩]
  rfl

theorem entry_remove (t : Tree) {place : Place} (h : t.entry place ≠ some .dir) :
    (t.remove place).entry = Function.update t.entry place none := by
  rw [remove, dif_pos h]
  rfl

theorem entry_listen (t : Tree) {place : Place} (listener : ℕ)
    (h : t.entry place = some (.socket none)) :
    (t.listen place listener).entry =
      Function.update t.entry place (some (.socket (some listener))) := by
  rw [listen, dif_pos h]
  rfl

@[simp] theorem cwd_add (t : Tree) (place : Place) (kind : Kind) :
    (t.add place kind).cwd = t.cwd := by
  unfold add
  split <;> rfl

end Tree

def segments (p : OsStr) : List Component :=
  (if hasRoot p then [.rootDir] else []) ++ ((parts p).filter (· ≠ [])).map component

def slashed (p : OsStr) : Bool := p.getLast? = some slash

def steps (p : OsStr) : List Component := segments p ++ if slashed p then [.curDir] else []

/-- Walk the components from a directory, with so many links to follow at most. The last
component need not be there. -/
def walk (t : Tree) (follow : Bool) (links : ℕ) (cur : Place) : List Component → Except Refusal Place
  | [] => .ok cur
  | .rootDir :: cs => walk t follow links [] cs
  | .curDir :: cs => walk t follow links cur cs
  | .parentDir :: cs => walk t follow links cur.dropLast cs
  | .normal name :: cs =>
    match t.entry (cur ++ [name]) with
    | none => if cs = [] then .ok (cur ++ [name]) else .error .enoent
    | some .dir => walk t follow links (cur ++ [name]) cs
    | some (.symlink target) =>
      if cs = [] ∧ follow = false then .ok (cur ++ [name])
      else
        match links with
        | 0 => .error .eloop
        | links + 1 => walk t follow links cur (steps target ++ cs)
    | some (.file _) | some (.socket _) =>
      if cs = [] then .ok (cur ++ [name]) else .error .enotdir
termination_by cs => (links, cs.length)

def maxLinks : ℕ := 40

variable {t : Tree} {follow : Bool} {links : ℕ} {cur place : Place} {cs : List Component}

/-- A walk from a directory ends at an entry, or at a free place in a directory; one that
follows links ends at none. -/
theorem walk_spec (hcur : t.entry cur = some .dir) (h : walk t follow links cur cs = .ok place) :
    (∃ kind, t.entry place = some kind ∧ (follow = true → ∀ target, kind ≠ .symlink target)) ∨
      (t.entry place = none ∧ t.entry place.dropLast = some .dir) := by
  fun_induction walk t follow links cur cs with
  | case1 links cur =>
    obtain rfl := Except.ok.inj h
    exact .inl ⟨.dir, hcur, by simp⟩
  | case2 links cur cs ih => exact ih t.root h
  | case3 links cur cs ih => exact ih hcur h
  | case4 links cur cs ih => exact ih (t.entry_dropLast (by simp [hcur])) h
  | case5 links cur name hentry =>
    obtain rfl := Except.ok.inj h
    exact .inr ⟨hentry, by rwa [List.dropLast_concat]⟩
  | case6 => cases h
  | case7 links cur name cs hentry ih => exact ih hentry h
  | case8 links cur name cs target hentry hlast =>
    obtain rfl := Except.ok.inj h
    refine .inl ⟨_, hentry, ?_⟩
    simp [hlast.2]
  | case9 => cases h
  | case10 cur name cs target hentry hlast links ih => exact ih hcur h
  | case11 links cur name content hentry =>
    obtain rfl := Except.ok.inj h
    exact .inl ⟨_, hentry, by simp⟩
  | case13 links cur name listener hentry =>
    obtain rfl := Except.ok.inj h
    exact .inl ⟨_, hentry, by simp⟩
  | case12 | case14 => cases h

theorem walk_succ (h : walk t follow links cur cs ≠ .error .eloop) :
    walk t follow (links + 1) cur cs = walk t follow links cur cs := by
  fun_induction walk t follow links cur cs with
  | case1 => simp [walk]
  | case2 links cur cs ih => simpa [walk] using ih h
  | case3 links cur cs ih => simpa [walk] using ih h
  | case4 links cur cs ih => simpa [walk] using ih h
  | case5 links cur name hentry => simp [walk, hentry]
  | case6 links cur name cs hentry hne => simp [walk, hentry, hne]
  | case7 links cur name cs hentry ih => simpa [walk, hentry] using ih h
  | case8 links cur name cs target hentry hlast => simp [walk, hentry, hlast]
  | case9 => exact absurd rfl h
  | case10 cur name cs target hentry hlast links ih => simpa [walk, hentry, hlast] using ih h
  | case11 links cur name content hentry => simp [walk, hentry]
  | case12 links cur name cs content hentry hne => simp [walk, hentry, hne]
  | case13 links cur name listener hentry => simp [walk, hentry]
  | case14 links cur name cs listener hentry hne => simp [walk, hentry, hne]

theorem walk_add (h : walk t follow links cur cs ≠ .error .eloop) (more : ℕ) :
    walk t follow (links + more) cur cs = walk t follow links cur cs := by
  induction more with
  | zero => rfl
  | succ more ih => rw [← Nat.add_assoc, walk_succ (by rwa [ih]), ih]

/-- Walks with any two numbers of links that are enough come to the same. -/
theorem walk_unique {links' : ℕ} (h : walk t follow links cur cs ≠ .error .eloop)
    (h' : walk t follow links' cur cs ≠ .error .eloop) :
    walk t follow links cur cs = walk t follow links' cur cs := by
  rw [← walk_add h links', ← walk_add h' links, Nat.add_comm]

theorem getLast?_of_cons {c d : Component} (h : (c :: cs).getLast? = some d) (hne : c ≠ d) :
    cs.getLast? = some d := by
  cases cs with
  | nil => exact absurd (Option.some.inj h) hne
  | cons c' cs => rwa [List.getLast?_cons_cons] at h

theorem walk_last {name : OsStr} (hlast : cs.getLast? = some (.normal name))
    (h : walk t false links cur cs = .ok place) :
    ((∀ target, t.entry place ≠ some (.symlink target)) ∧ walk t true links cur cs = .ok place) ∨
      ∃ target, t.entry place = some (.symlink target) ∧
        (walk t true links cur cs = .error .eloop ∨
          ∃ left, walk t true links cur cs = walk t true left place.dropLast (steps target)) := by
  fun_induction walk t false links cur cs with
  | case1 => simp at hlast
  | case2 links cur cs ih => simpa [walk] using ih (getLast?_of_cons hlast (by simp)) h
  | case3 links cur cs ih => simpa [walk] using ih (getLast?_of_cons hlast (by simp)) h
  | case4 links cur cs ih => simpa [walk] using ih (getLast?_of_cons hlast (by simp)) h
  | case5 links cur name hentry =>
    obtain rfl := Except.ok.inj h
    exact .inl ⟨by simp [hentry], by simp [walk, hentry]⟩
  | case6 => cases h
  | case7 links cur name cs hentry ih =>
    cases cs with
    | nil =>
      have hplace : cur ++ [name] = place := by simpa [walk] using h
      subst hplace
      exact .inl ⟨by simp [hentry], by simp [walk, hentry]⟩
    | cons c cs =>
      rw [List.getLast?_cons_cons] at hlast
      simpa [walk, hentry] using ih hlast h
  | case8 links cur name cs target hentry hnil =>
    obtain rfl := Except.ok.inj h
    obtain ⟨rfl, -⟩ := hnil
    refine .inr ⟨target, hentry, ?_⟩
    cases links with
    | zero => exact .inl (by simp [walk, hentry])
    | succ links => exact .inr ⟨links, by simp [walk, hentry]⟩
  | case9 => cases h
  | case10 cur name cs target hentry hnil links ih =>
    -- a link on the way: the rest of the path still ends in the same name
    cases cs with
    | nil => exact absurd ⟨rfl, rfl⟩ hnil
    | cons c cs =>
      rw [List.getLast?_cons_cons] at hlast
      have hrest := ih (by simpa [List.getLast?_append] using hlast) h
      simpa [walk, hentry] using hrest
  | case11 links cur name content hentry =>
    obtain rfl := Except.ok.inj h
    exact .inl ⟨by simp [hentry], by simp [walk, hentry]⟩
  | case13 links cur name listener hentry =>
    obtain rfl := Except.ok.inj h
    exact .inl ⟨by simp [hentry], by simp [walk, hentry]⟩
  | case12 | case14 => cases h

/-- Where a path leads. A call that does not follow a last link looks at its name first. -/
def lookup (t : Tree) (follow : Bool) (p : OsStr) : Except Refusal Place :=
  if p = [] then .error .enoent
  else if 0 ∈ p then .error .nulInPath
  else walk t follow maxLinks t.cwd (if follow then steps p else segments p)

def named (p : OsStr) : Bool :=
  match (segments p).getLast? with
  | some (.normal _) => true
  | _ => false

def stat (t : Tree) (p : OsStr) : Except Refusal Kind :=
  match lookup t true p with
  | .error e => .error e
  | .ok place =>
    match t.entry place with
    | none => .error .enoent
    | some kind => .ok kind

def unlink (t : Tree) (p : OsStr) : Except Refusal Tree :=
  match lookup t false p with
  | .error e => .error e
  | .ok place =>
    if named p then
      match t.entry place with
      | none => .error .enoent
      | some .dir => .error .eisdir
      | some _ => if slashed p then .error .enotdir else .ok (t.remove place)
    else .error .eisdir

def create (t : Tree) (p : OsStr) (kind : Kind) : Except Refusal (Tree × Place) :=
  match lookup t false p with
  | .error e => .error e
  | .ok place =>
    if named p ∧ t.entry place = none then
      if slashed p ∧ kind ≠ .dir then .error .enoent else .ok (t.add place kind, place)
    else .error .eexist

def mkdir (t : Tree) (p : OsStr) : Except Refusal Tree := (create t p .dir).map Prod.fst

def addressRefusal (p : OsStr) : Option Refusal :=
  if 0 ∈ p then some .nulInAddress
  else if 108 ≤ p.length then some .longAddress
  else if p = [] then some .einval
  else none

/-- The process that accepts the connection. What is no socket refuses it as a socket without
a listener does. -/
def connect (t : Tree) (p : OsStr) : Except Refusal ℕ :=
  match addressRefusal p with
  | some e => .error e
  | none =>
    match stat t p with
    | .error e => .error e
    | .ok (.socket (some listener)) => .ok listener
    | .ok _ => .error .econnrefused

def bindSocket (t : Tree) (p : OsStr) : Except Refusal (Tree × Place) :=
  match addressRefusal p with
  | some e => .error e
  | none =>
    match create t p (.socket none) with
    | .error .eexist => .error .eaddrinuse
    | r => r

def Tree.Leads (t : Tree) (place : Place) (result : Except Refusal Place) : Prop :=
  ∃ target links, t.entry place = some (.symlink target) ∧
    walk t true links place.dropLast (steps target) = result

theorem Tree.Leads.unique {result result' : Except Refusal Place} (h : t.Leads place result)
    (h' : t.Leads place result') (hne : result ≠ .error .eloop) (hne' : result' ≠ .error .eloop) :
    result = result' := by
  obtain ⟨target, links, hentry, rfl⟩ := h
  obtain ⟨target', links', hentry', rfl⟩ := h'
  have htarget : target = target' := by simpa [hentry] using hentry'
  subst htarget
  exact walk_unique hne hne'

theorem lookup_spec {p : OsStr} (h : lookup t follow p = .ok place) :
    (t.entry place).isSome ∨ (t.entry place = none ∧ t.entry place.dropLast = some .dir) := by
  unfold lookup at h
  split at h
  · cases h
  · split at h
    · cases h
    · rcases walk_spec t.cwd_dir h with ⟨kind, hkind, -⟩ | hfree
      · exact .inl (by simp [hkind])
      · exact .inr hfree

/-- The last name of a path is no link and the path leads to it, or the path leads where the
link does. -/
theorem lookup_last {p : OsStr} (hnamed : named p) (hslashed : slashed p = false)
    (h : lookup t false p = .ok place) :
    ((∀ target, t.entry place ≠ some (.symlink target)) ∧ lookup t true p = .ok place) ∨
      (∃ target, t.entry place = some (.symlink target)) ∧
        (lookup t true p = .error .eloop ∨ t.Leads place (lookup t true p)) := by
  have hsteps : steps p = segments p := by simp [steps, hslashed]
  have hlast : ∃ name, (segments p).getLast? = some (.normal name) := by
    unfold named at hnamed
    split at hnamed
    · exact ⟨_, by assumption⟩
    · cases hnamed
  obtain ⟨name, hlast⟩ := hlast
  unfold lookup at h ⊢
  split at h
  · cases h
  · rename_i hnil
    split at h
    · cases h
    · rename_i hnul
      simp only [if_neg hnil, if_neg hnul, Bool.false_eq_true, if_false, if_true, hsteps] at h ⊢
      rcases walk_last hlast h with hown | ⟨target, hentry, hloop | ⟨left, hleft⟩⟩
      · exact .inl hown
      · exact .inr ⟨⟨target, hentry⟩, .inl hloop⟩
      · exact .inr ⟨⟨target, hentry⟩, .inr ⟨target, left, hentry, hleft.symm⟩⟩

theorem unlink_eq_ok_iff {p : OsStr} {t' : Tree} :
    unlink t p = .ok t' ↔ named p ∧ slashed p = false ∧
      ∃ place kind, lookup t false p = .ok place ∧ t.entry place = some kind ∧ kind ≠ .dir ∧
        t' = t.remove place := by
  unfold unlink
  constructor
  · intro h
    split at h
    · cases h
    · rename_i place hplace
      split at h
      · rename_i hnamed
        split at h
        · cases h
        · cases h
        · rename_i kind hdir hkind
          split at h
          · cases h
          · rename_i hslashed
            exact ⟨hnamed, by simpa using hslashed, place, kind, hplace, hkind,
              fun heq => hdir heq, (Except.ok.inj h).symm⟩
      · cases h
  · rintro ⟨hnamed, hslashed, place, kind, hplace, hkind, hdir, rfl⟩
    simp only [hplace, hnamed, hkind, hslashed]
    cases kind with
    | dir => exact absurd rfl hdir
    | file | symlink | socket => rfl

theorem walk_ne_econnrefused :
    walk t follow links cur cs ≠ .error .econnrefused := by
  fun_induction walk t follow links cur cs with simp_all

theorem lookup_ne_econnrefused {p : OsStr} : lookup t true p ≠ .error .econnrefused := by
  unfold lookup
  split
  · simp
  · split
    · simp
    · exact walk_ne_econnrefused

theorem ne_of_addressRefusal {p : OsStr} {e : Refusal} (h : addressRefusal p = some e) :
    e ≠ .enoent ∧ e ≠ .econnrefused := by
  unfold addressRefusal at h
  split_ifs at h <;> obtain rfl := Option.some.inj h <;> simp

theorem connect_stale_iff {p : OsStr} :
    (connect t p = .error .enoent ∨ connect t p = .error .econnrefused) ↔
      addressRefusal p = none ∧ (lookup t true p = .error .enoent ∨
        ∃ r, lookup t true p = .ok r ∧ ∀ pid, t.entry r ≠ some (.socket (some pid))) := by
  cases haddr : addressRefusal p with
  | some e => simp [connect, haddr, ne_of_addressRefusal haddr]
  | none =>
    cases hlookup : lookup t true p with
    | error e =>
      have hne : e ≠ .econnrefused := by
        rintro rfl
        exact lookup_ne_econnrefused hlookup
      simp [connect, haddr, stat, hlookup, hne]
    | ok r =>
      cases hentry : t.entry r with
      | none => simp [connect, haddr, stat, hlookup, hentry]
      | some kind =>
        cases kind with
        | socket listener => cases listener <;> simp [connect, haddr, stat, hlookup, hentry]
        | file | dir | symlink => simp [connect, haddr, stat, hlookup, hentry]

structure Tree.Grown (t t' : Tree) : Prop where
  cwd : t'.cwd = t.cwd
  entry : ∀ place, t'.entry place = t.entry place ∨
    (t.entry place = none ∧ t'.entry place = some .dir)

theorem Tree.Grown.refl (t : Tree) : t.Grown t := ⟨rfl, fun _ => .inl rfl⟩

theorem Tree.Grown.trans {t' t'' : Tree} (h : t.Grown t') (h' : t'.Grown t'') : t.Grown t'' := by
  refine ⟨h'.cwd.trans h.cwd, fun place => ?_⟩
  rcases h.entry place with heq | ⟨hnone, hdir⟩
  · simpa [heq] using h'.entry place
  · rcases h'.entry place with heq' | ⟨hnone', -⟩
    · exact .inr ⟨hnone, heq'.trans hdir⟩
    · simp [hdir] at hnone'

theorem Tree.Grown.of_some {t' : Tree} (h : t.Grown t') {kind : Kind}
    (hkind : t.entry place = some kind) : t'.entry place = some kind := by
  rcases h.entry place with heq | ⟨hnone, -⟩
  · rw [heq, hkind]
  · simp [hnone] at hkind

theorem walk_grown {t' : Tree} (h : t.Grown t') :
    walk t' follow links cur cs = walk t follow links cur cs ∨
      walk t follow links cur cs = .error .enoent ∨
        ∃ place, walk t follow links cur cs = .ok place ∧ t.entry place = none := by
  fun_induction walk t follow links cur cs with
  | case1 => exact .inl (by simp [walk])
  | case2 links cur cs ih => simpa [walk] using ih
  | case3 links cur cs ih => simpa [walk] using ih
  | case4 links cur cs ih => simpa [walk] using ih
  | case5 links cur name hentry => exact .inr (.inr ⟨_, rfl, hentry⟩)
  | case6 => exact .inr (.inl rfl)
  | case7 links cur name cs hentry ih => simpa [walk, h.of_some hentry] using ih
  | case8 links cur name cs target hentry hlast =>
    exact .inl (by simp [walk, h.of_some hentry, hlast])
  | case9 cur name cs target hentry hlast =>
    exact .inl (by simp [walk, h.of_some hentry, hlast])
  | case10 cur name cs target hentry hlast links ih =>
    simpa [walk, h.of_some hentry, hlast] using ih
  | case11 links cur name content hentry => exact .inl (by simp [walk, h.of_some hentry])
  | case12 links cur name cs content hentry hne =>
    exact .inl (by simp [walk, h.of_some hentry, hne])
  | case13 links cur name listener hentry => exact .inl (by simp [walk, h.of_some hentry])
  | case14 links cur name cs listener hentry hne =>
    exact .inl (by simp [walk, h.of_some hentry, hne])

theorem Tree.Grown.leads {t' : Tree} (h : t.Grown t') {r : Place} (hleads : t.Leads place (.ok r))
    (hr : (t.entry r).isSome) : t'.Leads place (.ok r) := by
  obtain ⟨target, links, hentry, hwalk⟩ := hleads
  refine ⟨target, links, h.of_some hentry, ?_⟩
  rcases walk_grown h with heq | herr | ⟨q, hq, hnone⟩
  · rw [heq, hwalk]
  · simp [hwalk] at herr
  · obtain rfl : r = q := by simpa [hwalk] using hq
    simp [hnone] at hr

theorem Tree.Leads.isLink {result : Except Refusal Place} (h : t.Leads place result) :
    ∃ target, t.entry place = some (.symlink target) := by
  obtain ⟨target, -, hentry, -⟩ := h
  exact ⟨target, hentry⟩

theorem Tree.Leads.ne_symlink {r : Place} (h : t.Leads place (.ok r)) (target : OsStr) :
    t.entry r ≠ some (.symlink target) := by
  obtain ⟨target', links, hentry, hwalk⟩ := h
  intro hr
  rcases walk_spec (t.entry_dropLast (by simp [hentry])) hwalk with ⟨kind, hkind, hne⟩ | ⟨hnone, -⟩
  · exact hne rfl target (Option.some.inj (hkind.symm.trans hr))
  · simp [hnone] at hr

theorem create_spec {p : OsStr} {kind : Kind} {t' : Tree} (h : create t p kind = .ok (t', place)) :
    t.entry place = none ∧ t'.cwd = t.cwd ∧
      t'.entry = Function.update t.entry place (some kind) := by
  unfold create at h
  split at h
  · cases h
  · rename_i place' hplace
    split at h
    · rename_i hfree
      split at h
      · cases h
      · obtain ⟨rfl, rfl⟩ := Prod.mk.inj (Except.ok.inj h)
        rcases lookup_spec hplace with hsome | ⟨-, hdir⟩
        · simp [hfree.2] at hsome
        · exact ⟨hfree.2, t.cwd_add _ _, t.entry_add kind hfree.2 hdir⟩
    · cases h

theorem mkdir_grown {p : OsStr} {t' : Tree} (h : mkdir t p = .ok t') : t.Grown t' := by
  unfold mkdir at h
  cases hcreate : create t p .dir with
  | error e => simp [hcreate, Except.map] at h
  | ok made =>
    obtain ⟨made, place⟩ := made
    obtain rfl : made = t' := by simpa [hcreate, Except.map] using h
    obtain ⟨hnone, hcwd, hentry⟩ := create_spec hcreate
    refine ⟨hcwd, fun q => ?_⟩
    by_cases hq : q = place
    · subst hq
      exact .inr ⟨hnone, by simp [hentry]⟩
    · exact .inl (by simp [hentry, hq])

end FileTree
