import SharedDaemon.StdPath

/-!
# The persistent data root

Resolving the root from the environment, and the paths that are built under it.
-/

namespace SharedDaemon

open StdPath

inductive EnvPolicy
  | dataDir
  | bigfredThenDataDir
  deriving DecidableEq

inductive PathRule
  | absoluteOnly
  | acceptAny
  deriving DecidableEq

/-- The environment of the process: names with values that need not be text. -/
abbrev Env := String → Option OsStr

namespace DataDir

def envDataDir : String := "DATA_DIR"

def envBigfredDataDir : String := "BIGFRED_DATA_DIR"

def defaultRoot : OsStr := ofString "/data"

/-- `env::var_os` for one rule; `env::var`, which wants text, for the other. -/
def fromEnv (env : Env) (name : String) : PathRule → Option OsStr
  | .absoluteOnly =>
    match env name with
    | none => none
    | some v => if v = [] then none else if hasRoot v then some v else none
  | .acceptAny => ((env name).bind toStr).map ofString

def resolveRoot (env : Env) (policy : EnvPolicy) (rule : PathRule) : OsStr :=
  match policy with
  | .dataDir =>
    match fromEnv env envDataDir rule with
    | some p => p
    | none => defaultRoot
  | .bigfredThenDataDir =>
    match fromEnv env envBigfredDataDir rule with
    | some p => p
    | none =>
      match fromEnv env envDataDir rule with
      | some p => p
      | none => defaultRoot

def setRoot (env : Env) (path : OsStr) : Option Env :=
  if hasRoot path then
    if 0 ∈ path then none else some (Function.update env envDataDir (some path))
  else some env

end DataDir

structure DataDir where
  root : OsStr
  deriving DecidableEq

namespace DataDir

def resolve (env : Env) (policy : EnvPolicy) (rule : PathRule) : DataDir :=
  ⟨resolveRoot env policy rule⟩

def join (d : DataDir) (parts : List OsStr) : OsStr := parts.foldl push d.root

def etcFile (d : DataDir) (name ext : String) : OsStr :=
  d.join [ofString "etc", ofString (name ++ "." ++ ext)]

def etcDir (d : DataDir) (name : String) : OsStr := d.join [ofString "etc", ofString name]

def runSocket (d : DataDir) (name : String) : OsStr :=
  d.join [ofString "run", ofString (name ++ ".sock")]

def runNestedSocket (d : DataDir) (name : String) : OsStr :=
  d.join [ofString "run", ofString name, ofString (name ++ ".sock")]

def processRoot (env : Env) : OsStr := (resolve env .dataDir .absoluteOnly).root

def path (env : Env) (parts : List OsStr) : OsStr := (DataDir.mk (processRoot env)).join parts

example : let d : DataDir := ⟨ofString "/data"⟩
    d.etcFile "micronet" "json" = ofString "/data/etc/micronet.json" ∧
      d.runNestedSocket "microwaf" = ofString "/data/run/microwaf/microwaf.sock" := by
  decide +kernel

def Under (d : DataDir) (p : OsStr) : Prop := components d.root <+: components p

variable {d : DataDir} {parts : List OsStr}

@[simp] theorem join_nil : d.join [] = d.root := rfl

theorem join_append (ps qs : List OsStr) : d.join (ps ++ qs) = qs.foldl push (d.join ps) :=
  List.foldl_append

theorem components_foldl {p : OsStr} (hp : p ≠ []) (h : ∀ q ∈ parts, hasRoot q = false) :
    components (parts.foldl push p) = components p ++ parts.flatMap following := by
  induction parts generalizing p with
  | nil => simp
  | cons q parts ih =>
    have hq : hasRoot q = false := h q (by simp)
    have hparts := ih (push_ne_nil hp q) fun r hr => h r (List.mem_cons_of_mem q hr)
    rw [List.foldl_cons, hparts, components_push hp hq, List.flatMap_cons, List.append_assoc]

theorem under_join_of_relative (h : ∀ q ∈ parts, hasRoot q = false) : d.Under (d.join parts) := by
  by_cases hroot : d.root = []
  · rw [Under, hroot, components_nil]
    exact List.nil_prefix
  · rw [Under, join, components_foldl hroot h]
    exact List.prefix_append _ _

theorem join_absolute {before after : List OsStr} {q : OsStr} (hq : hasRoot q = true) :
    d.join (before ++ q :: after) = after.foldl push q := by
  rw [join_append, List.foldl_cons, push, if_pos hq]

/-- All parts are relative, or there is a last absolute one. -/
theorem relative_or_last_absolute (parts : List OsStr) :
    (∀ q ∈ parts, hasRoot q = false) ∨ ∃ before q after, parts = before ++ q :: after ∧
      hasRoot q = true ∧ ∀ r ∈ after, hasRoot r = false := by
  induction parts with
  | nil => exact .inl (by simp)
  | cons p parts ih =>
    rcases ih with hrelative | ⟨before, q, after, rfl, hq, hafter⟩
    · by_cases hp : hasRoot p = true
      · exact .inr ⟨[], p, parts, rfl, hp, hrelative⟩
      · exact .inl (by simpa [hp] using hrelative)
    · exact .inr ⟨p :: before, q, after, rfl, hq, hafter⟩

/-- The last absolute part leads back under the root, by itself and the parts after it. -/
def Returns (d : DataDir) (parts : List OsStr) : Prop :=
  ∀ before q after, parts = before ++ q :: after → hasRoot q = true →
    (∀ r ∈ after, hasRoot r = false) →
    components d.root <+: components q ++ after.flatMap following

theorem under_join_iff (d : DataDir) (parts : List OsStr) :
    d.Under (d.join parts) ↔ d.Returns parts := by
  have hlast {before after : List OsStr} {q : OsStr} (hq : hasRoot q = true)
      (hafter : ∀ r ∈ after, hasRoot r = false) :
      components (d.join (before ++ q :: after)) = components q ++ after.flatMap following := by
    have hne : q ≠ [] := by
      rintro rfl
      simp at hq
    rw [join_absolute hq, components_foldl hne hafter]
  constructor
  · rintro h before q after rfl hq hafter
    rwa [Under, hlast hq hafter] at h
  · intro h
    rcases relative_or_last_absolute parts with hrelative | ⟨before, q, after, rfl, hq, hafter⟩
    · exact under_join_of_relative hrelative
    · rw [Under, hlast hq hafter]
      exact h before q after rfl hq hafter

theorem under_join_last_iff (parts : List OsStr) {q : OsStr}
    (h : hasRoot q = false → ∀ r ∈ parts, hasRoot r = false) :
    d.Under (d.join (parts ++ [q])) ↔ hasRoot q = true → d.Under q := by
  by_cases hq : hasRoot q = true
  · rw [join_absolute hq]
    simp [hq]
  · have hrelative : ∀ r ∈ parts ++ [q], hasRoot r = false := by
      intro r hr
      rcases List.mem_append.mp hr with hr | hr
      · exact h (by simpa using hq) r hr
      · rw [List.mem_singleton.mp hr]
        simpa using hq
    simp [under_join_of_relative hrelative, hq]

theorem hasRoot_append {ending : String} (h : hasRoot (ofString ending) = false) (name : String) :
    hasRoot (ofString (name ++ ending)) = hasRoot (ofString name) := by
  rw [ofString_append]
  cases hname : ofString name with
  | nil => rw [List.nil_append, h, hasRoot_nil]
  | cons c rest => simp

/-- A joined path stays under the root exactly when no part is absolute, or the last
absolute one leads back under it; the helpers do so unless the name is absolute and the
path it makes lies elsewhere. -/
theorem join_stays_under_root_iff (d : DataDir) :
    (∀ parts, d.Under (d.join parts) ↔ d.Returns parts) ∧
      (∀ name ext, d.Under (d.etcFile name ext) ↔
        (hasRoot (ofString name) = true → d.Under (ofString (name ++ "." ++ ext)))) ∧
      (∀ name, d.Under (d.etcDir name) ↔
        (hasRoot (ofString name) = true → d.Under (ofString name))) ∧
      (∀ name, d.Under (d.runSocket name) ↔
        (hasRoot (ofString name) = true → d.Under (ofString (name ++ ".sock")))) ∧
      (∀ name, d.Under (d.runNestedSocket name) ↔
        (hasRoot (ofString name) = true → d.Under (ofString (name ++ ".sock")))) ∧
      ∀ env parts, (DataDir.mk (processRoot env)).Under (path env parts) ↔
        (DataDir.mk (processRoot env)).Returns parts := by
  have hetc : hasRoot (ofString "etc") = false := by decide +kernel
  have hrun : hasRoot (ofString "run") = false := by decide +kernel
  have hsock (name : String) : hasRoot (ofString (name ++ ".sock")) = hasRoot (ofString name) :=
    hasRoot_append (by decide +kernel) name
  refine ⟨under_join_iff d, ?_, ?_, ?_, ?_, fun env => under_join_iff _⟩
  · intro name ext
    have hdot : hasRoot (ofString ("." ++ ext)) = false := by
      rw [ofString_append]
      have hhead : ofString "." = [dot] := by decide +kernel
      simp [hhead, dot, slash]
    have hname : hasRoot (ofString (name ++ "." ++ ext)) = hasRoot (ofString name) := by
      rw [String.append_assoc, hasRoot_append hdot]
    rw [← hname]
    exact under_join_last_iff [ofString "etc"] (by simp [hetc])
  · intro name
    exact under_join_last_iff [ofString "etc"] (by simp [hetc])
  · intro name
    rw [← hsock name]
    exact under_join_last_iff [ofString "run"] (by simp [hrun])
  · intro name
    rw [← hsock name]
    exact under_join_last_iff [ofString "run", ofString name]
      (by simp [hrun, hsock name])

/-- An absolute part discards the root. -/
theorem absolute_part_leaves_root :
    ¬ ∀ (d : DataDir) (parts : List OsStr), d.Under (d.join parts) := by
  intro h
  have hunder := h ⟨ofString "/data"⟩ [ofString "etc", ofString "/tmp/x"]
  rw [Under] at hunder
  exact absurd hunder (by decide +kernel)

end DataDir
end SharedDaemon
