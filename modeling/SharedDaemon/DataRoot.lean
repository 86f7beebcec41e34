import SharedDaemon.DataDir

/-!
# The two path rules

`AbsoluteOnly` reads the environment as bytes and `AcceptAny` as text. They are compared
on absolute values, after any history of `set_root`.
-/

namespace SharedDaemon
namespace DataDir

open StdPath

/-- A value that a path of the file system may have, and that both rules are meant to take. -/
structure AbsoluteValue (v : OsStr) : Prop where
  hasRoot : hasRoot v = true
  noNul : 0 ∉ v

theorem AbsoluteValue.ne_nil {v : OsStr} (h : AbsoluteValue v) : v ≠ [] := by
  rintro rfl
  simpa using h.hasRoot

/-- The value of the first variable that is set, in the policy's order. -/
def firstSet (policy : EnvPolicy) (bigfred dataDir : Option OsStr) : Option OsStr :=
  match policy with
  | .dataDir => dataDir
  | .bigfredThenDataDir => bigfred.or dataDir

variable {env : Env} {name : String}

theorem fromEnv_unset (h : env name = none) (rule : PathRule) : fromEnv env name rule = none := by
  cases rule <;> simp [fromEnv, h]

theorem fromEnv_absoluteOnly (h : ∀ v, env name = some v → AbsoluteValue v) :
    fromEnv env name .absoluteOnly = env name := by
  cases hname : env name with
  | none => exact fromEnv_unset hname _
  | some v =>
    have hv := h v hname
    simp [fromEnv, hname, hv.ne_nil, hv.hasRoot]

theorem fromEnv_acceptAny {v : OsStr} (h : env name = some v) :
    fromEnv env name .acceptAny = if (toStr v).isSome then some v else none := by
  cases htext : toStr v with
  | none => simp [fromEnv, h, htext]
  | some text => simp [fromEnv, h, htext, ofString_of_toStr htext]

theorem toStr_of_fromEnv_acceptAny {v : OsStr} (h : fromEnv env name .acceptAny = some v) :
    (toStr v).isSome := by
  obtain ⟨text, -, rfl⟩ := Option.map_eq_some_iff.mp h
  simp [toStr_ofString]

theorem resolveRoot_eq (env : Env) (policy : EnvPolicy) (rule : PathRule) :
    resolveRoot env policy rule =
      (firstSet policy (fromEnv env envBigfredDataDir rule)
        (fromEnv env envDataDir rule)).getD defaultRoot := by
  cases policy with
  | dataDir =>
    simp only [resolveRoot, firstSet]
    cases fromEnv env envDataDir rule <;> rfl
  | bigfredThenDataDir =>
    simp only [resolveRoot, firstSet]
    cases fromEnv env envBigfredDataDir rule with
    | none => cases fromEnv env envDataDir rule <;> rfl
    | some p => rfl

def AbsoluteEnv (env : Env) : Prop :=
  ∀ name ∈ [envDataDir, envBigfredDataDir], ∀ v, env name = some v → AbsoluteValue v

theorem resolve_absoluteOnly (h : AbsoluteEnv env) (policy : EnvPolicy) :
    (resolve env policy .absoluteOnly).root =
      (firstSet policy (env envBigfredDataDir) (env envDataDir)).getD defaultRoot := by
  rw [resolve, resolveRoot_eq, fromEnv_absoluteOnly (h _ (by simp)),
    fromEnv_absoluteOnly (h _ (by simp))]

/-- A first set value that is text is what the other rule resolves to. -/
theorem resolve_acceptAny (env : Env) (policy : EnvPolicy)
    (h : ∀ v, firstSet policy (env envBigfredDataDir) (env envDataDir) = some v →
      (toStr v).isSome) :
    (resolve env policy .acceptAny).root =
      (firstSet policy (env envBigfredDataDir) (env envDataDir)).getD defaultRoot := by
  have hdata (hset : ∀ v, env envDataDir = some v → (toStr v).isSome) :
      fromEnv env envDataDir .acceptAny = env envDataDir := by
    cases hname : env envDataDir with
    | none => exact fromEnv_unset hname _
    | some v => rw [fromEnv_acceptAny hname, if_pos (hset v hname)]
  rw [resolve, resolveRoot_eq]
  cases policy with
  | dataDir =>
    simp only [firstSet] at h ⊢
    rw [hdata h]
  | bigfredThenDataDir =>
    simp only [firstSet] at h ⊢
    cases hname : env envBigfredDataDir with
    | none =>
      simp only [hname, Option.none_or] at h
      rw [fromEnv_unset hname, Option.none_or, Option.none_or, hdata h]
    | some v =>
      have htext : (toStr v).isSome := h v (by simp [hname])
      rw [fromEnv_acceptAny hname, if_pos htext, Option.some_or, Option.some_or]

theorem toStr_resolve_acceptAny (env : Env) (policy : EnvPolicy) :
    (toStr (resolve env policy .acceptAny).root).isSome := by
  rw [resolve, resolveRoot_eq]
  cases hfirst : firstSet policy (fromEnv env envBigfredDataDir .acceptAny)
      (fromEnv env envDataDir .acceptAny) with
  | none =>
    rw [Option.getD_none, defaultRoot, toStr_ofString]
    rfl
  | some v =>
    cases policy with
    | dataDir => exact toStr_of_fromEnv_acceptAny hfirst
    | bigfredThenDataDir =>
      rcases Option.or_eq_some_iff.mp hfirst with hv | ⟨-, hv⟩
      · exact toStr_of_fromEnv_acceptAny hv
      · exact toStr_of_fromEnv_acceptAny hv

theorem setRoot_absolute {path : OsStr} (h : AbsoluteValue path) (env : Env) :
    setRoot env path = some (Function.update env envDataDir (some path)) := by
  simp [setRoot, h.hasRoot, h.noNul]

theorem setRoot_history {paths : List OsStr} (h : ∀ path ∈ paths, AbsoluteValue path) (env : Env) :
    paths.foldlM setRoot env =
      some (Function.update env envDataDir (paths.getLast?.or (env envDataDir))) := by
  induction paths generalizing env with
  | nil => simp
  | cons path paths ih =>
    have hpath := h path (by simp)
    have hpaths := ih (fun p hp => h p (List.mem_cons_of_mem path hp))
      (Function.update env envDataDir (some path))
    rw [List.foldlM_cons, setRoot_absolute hpath]
    simp only [Option.bind_eq_bind, Option.bind_some, hpaths, Function.update_self,
      Function.update_idem, List.getLast?_cons]
    cases paths.getLast? <;> rfl

/-- Both rules resolve to `first`, and to the default root only if there is none. -/
structure RulesAgree (env : Env) (policy : EnvPolicy) (first : Option OsStr) : Prop where
  absoluteOnly : (resolve env policy .absoluteOnly).root = first.getD defaultRoot
  acceptAny : (resolve env policy .acceptAny).root = first.getD defaultRoot

/-- With absolute values in the environment, and after any history of absolute overrides,
the two rules agree on the first variable that is set exactly when its value is text. -/
theorem path_rules_agree_iff (env : Env) (henv : AbsoluteEnv env) (paths : List OsStr)
    (hpaths : ∀ path ∈ paths, AbsoluteValue path) (policy : EnvPolicy) :
    ∃ after, paths.foldlM setRoot env = some after ∧
      (RulesAgree after policy
          (firstSet policy (env envBigfredDataDir) (paths.getLast?.or (env envDataDir))) ↔
        ∀ v, firstSet policy (env envBigfredDataDir) (paths.getLast?.or (env envDataDir)) = some v →
          (toStr v).isSome) := by
  refine ⟨_, setRoot_history hpaths env, ?_⟩
  have hne : envBigfredDataDir ≠ envDataDir := by decide
  generalize hlast : paths.getLast?.or (env envDataDir) = last
  have hbigfred : Function.update env envDataDir last envBigfredDataDir = env envBigfredDataDir :=
    Function.update_of_ne hne _ _
  have hdata : Function.update env envDataDir last envDataDir = last := Function.update_self _ _ _
  have hafter : AbsoluteEnv (Function.update env envDataDir last) := by
    intro name hname v hv
    by_cases heq : name = envDataDir
    · subst heq
      rw [hdata] at hv
      subst hv
      rcases Option.or_eq_some_iff.mp hlast with hpath | ⟨-, hset⟩
      · exact hpaths v (List.mem_of_getLast? hpath)
      · exact henv _ hname v hset
    · rw [Function.update_of_ne heq] at hv
      exact henv name hname v hv
  have habsolute := resolve_absoluteOnly hafter policy
  have htext := resolve_acceptAny (Function.update env envDataDir last) policy
  rw [hbigfred, hdata] at habsolute htext
  constructor
  · intro h v hv
    have hroot := h.acceptAny
    rw [hv, Option.getD_some] at hroot
    rw [← hroot]
    exact toStr_resolve_acceptAny _ policy
  · exact fun h => ⟨habsolute, htext h⟩

def bothSet : Env := fun name =>
  if name = envDataDir then some (ofString "/mnt/d") else
    if name = envBigfredDataDir then some (ofString "/mnt/b") else none

theorem bothSet_absolute : AbsoluteEnv bothSet := by
  intro name hname v hv
  have hv' : v = ofString "/mnt/d" ∨ v = ofString "/mnt/b" := by
    simp only [bothSet] at hv
    split at hv
    · exact .inl (Option.some.inj hv).symm
    · split at hv
      · exact .inr (Option.some.inj hv).symm
      · cases hv
  rcases hv' with rfl | rfl
  · exact ⟨by decide +kernel, by decide +kernel⟩
  · exact ⟨by decide +kernel, by decide +kernel⟩

theorem path_rules_agree_overridden :
    ∃ after, [ofString "/srv"].foldlM setRoot bothSet = some after ∧
      RulesAgree after .bigfredThenDataDir (some (ofString "/mnt/b")) := by
  have hpaths : ∀ path ∈ [ofString "/srv"], AbsoluteValue path := by
    intro path hpath
    rw [List.mem_singleton.mp hpath]
    exact ⟨by decide +kernel, by decide +kernel⟩
  obtain ⟨after, hafter, hagree⟩ :=
    path_rules_agree_iff bothSet bothSet_absolute _ hpaths .bigfredThenDataDir
  refine ⟨after, hafter, hagree.mpr ?_⟩
  intro v hv
  obtain rfl := Option.some.inj hv
  rw [toStr_ofString]
  rfl

/-- `DATA_DIR` names a directory in Latin-1: one rule uses it and the other the default. -/
theorem latin1_root_is_ignored :
    ¬ ∀ (env : Env) (policy : EnvPolicy), AbsoluteEnv env →
      (resolve env policy .acceptAny).root = (resolve env policy .absoluteOnly).root := by
  intro h
  have hsame := h (fun name => if name = envDataDir then some (ofString "/srv/" ++ [0xE9]) else none)
    .dataDir ?_
  · exact absurd hsame (by decide +kernel)
  · intro name _ v hv
    simp only [Option.ite_none_right_eq_some] at hv
    obtain rfl := Option.some.inj hv.2
    exact ⟨by decide +kernel, by decide +kernel⟩

end DataDir
end SharedDaemon
