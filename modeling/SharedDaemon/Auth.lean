import Mathlib.Data.List.Basic

/-!
# Peer authentication policy

The policy sees the peer's uid, if `SO_PEERCRED` gives one, and the passwd database.
-/

namespace SharedDaemon

inductive Auth
  | none
  | peerUid (daemonUid : ℕ) (allowUids : List ℕ)
  | peerUser (allowUsers : List String) (rootAlways failClosedIfEmpty : Bool)
  deriving DecidableEq

/-- Whether this peer may use the control socket. -/
def Auth.allows (peerUid : Option ℕ) (usernameForUid : ℕ → Option String) : Auth → Bool
  | .none => true
  | .peerUid daemonUid allowUids =>
    match peerUid with
    | some uid => uid == daemonUid || allowUids.contains uid
    | Option.none => false
  | .peerUser allowUsers rootAlways failClosedIfEmpty =>
    if allowUsers.isEmpty then !failClosedIfEmpty
    else
      match peerUid with
      | Option.none => false
      | some uid =>
        if uid = 0 ∧ rootAlways then true
        else
          match usernameForUid uid with
          | some name => allowUsers.contains name
          | Option.none => false

namespace Auth

variable {allowUsers : List String} {rootAlways failClosedIfEmpty : Bool} {peerUid : Option ℕ}
  {usernameForUid : ℕ → Option String}

/-- The peer's uid is known, and is that of a login name in the list. -/
def Listed (allowUsers : List String) (peerUid : Option ℕ) (usernameForUid : ℕ → Option String) :
    Prop :=
  ∃ name ∈ allowUsers, peerUid.bind usernameForUid = some name

def Admits (allowUsers : List String) (rootAlways failClosedIfEmpty : Bool) (peerUid : Option ℕ)
    (usernameForUid : ℕ → Option String) : Prop :=
  (peerUid = some 0 ∧ rootAlways) ∨ (allowUsers = [] ∧ failClosedIfEmpty = false) ∨
    Listed allowUsers peerUid usernameForUid

theorem Listed.mono {more : List String} (h : Listed allowUsers peerUid usernameForUid)
    (hmore : allowUsers ⊆ more) : Listed more peerUid usernameForUid := by
  obtain ⟨name, hname, huid⟩ := h
  exact ⟨name, hmore hname, huid⟩

theorem not_listed_nil : ¬ Listed [] peerUid usernameForUid := by
  simp [Listed]

@[simp] theorem allows_peerUser_nil :
    allows peerUid usernameForUid (.peerUser [] rootAlways failClosedIfEmpty) =
      !failClosedIfEmpty := rfl

theorem allows_peerUser_of_ne_nil (h : allowUsers ≠ []) :
    allows peerUid usernameForUid (.peerUser allowUsers rootAlways failClosedIfEmpty) = true ↔
      (peerUid = some 0 ∧ rootAlways) ∨ Listed allowUsers peerUid usernameForUid := by
  have hempty : allowUsers.isEmpty = false := by simpa using h
  cases peerUid with
  | none => simp [allows, hempty, Listed]
  | some uid =>
    by_cases hroot : uid = 0 ∧ rootAlways
    · simp [allows, hempty, hroot]
    · have hne : ¬ (some uid = some 0 ∧ rootAlways) := by simpa using hroot
      simp only [allows, hempty, Bool.false_eq_true, if_false, if_neg hroot, hne, false_or, Listed,
        Option.bind_some]
      cases hname : usernameForUid uid with
      | none => simp
      | some name => simp

theorem allows_peerUser_mono {more : List String} (hmore : allowUsers ⊆ more)
    (h : allows peerUid usernameForUid (.peerUser allowUsers rootAlways true) = true) :
    allows peerUid usernameForUid (.peerUser more rootAlways true) = true := by
  have hne : allowUsers ≠ [] := by
    rintro rfl
    simp at h
  have hne' : more ≠ [] := by
    rintro rfl
    exact hne (List.subset_nil.mp hmore)
  rw [allows_peerUser_of_ne_nil hne']
  rcases (allows_peerUser_of_ne_nil hne).mp h with hroot | hlisted
  · exact .inl hroot
  · exact .inr (hlisted.mono hmore)

/-- The policy decides about the peer as its fields say, and with the list failing closed
names that are added take nothing away and names that are removed give nothing. -/
structure MeansItsFields (allowUsers : List String) (rootAlways failClosedIfEmpty : Bool)
    (peerUid : Option ℕ) (usernameForUid : ℕ → Option String) : Prop where
  admits : allows peerUid usernameForUid (.peerUser allowUsers rootAlways failClosedIfEmpty) = true ↔
    Admits allowUsers rootAlways failClosedIfEmpty peerUid usernameForUid
  added : failClosedIfEmpty = true → ∀ more, allowUsers ⊆ more →
    allows peerUid usernameForUid (.peerUser allowUsers rootAlways failClosedIfEmpty) = true →
    allows peerUid usernameForUid (.peerUser more rootAlways failClosedIfEmpty) = true
  removed : failClosedIfEmpty = true → ∀ fewer, fewer ⊆ allowUsers →
    allows peerUid usernameForUid (.peerUser allowUsers rootAlways failClosedIfEmpty) = false →
    allows peerUid usernameForUid (.peerUser fewer rootAlways failClosedIfEmpty) = false

/-- The one peer a policy turns away against its fields is root, when the list is empty and
fails closed. -/
theorem peerUser_means_its_fields_iff (allowUsers : List String)
    (rootAlways failClosedIfEmpty : Bool) (peerUid : Option ℕ)
    (usernameForUid : ℕ → Option String) :
    MeansItsFields allowUsers rootAlways failClosedIfEmpty peerUid usernameForUid ↔
      ¬ (allowUsers = [] ∧ failClosedIfEmpty = true ∧ rootAlways = true ∧ peerUid = some 0) := by
  constructor
  · rintro h ⟨rfl, rfl, rfl, rfl⟩
    have hallowed := h.admits.mpr (.inl ⟨rfl, rfl⟩)
    simp at hallowed
  · intro h
    refine ⟨?_, ?_, ?_⟩
    · by_cases hnil : allowUsers = []
      · subst hnil
        rw [allows_peerUser_nil, Bool.not_eq_true', Admits]
        constructor
        · exact fun hopen => .inr (.inl ⟨rfl, hopen⟩)
        · rintro (⟨hroot, halways⟩ | ⟨-, hopen⟩ | hlisted)
          · simpa using fun hclosed => h ⟨rfl, hclosed, halways, hroot⟩
          · exact hopen
          · exact absurd hlisted not_listed_nil
      · rw [allows_peerUser_of_ne_nil hnil, Admits]
        simp [hnil]
    · rintro rfl more hmore hallowed
      exact allows_peerUser_mono hmore hallowed
    · rintro rfl fewer hfewer hdenied
      rw [Bool.eq_false_iff] at hdenied ⊢
      exact fun hallowed => hdenied (allows_peerUser_mono hfewer hallowed)

/-- Root is locked out by an empty list that fails closed, whatever `rootAlways` says. -/
theorem root_locked_out :
    ¬ ∀ allowUsers rootAlways failClosedIfEmpty peerUid usernameForUid,
      MeansItsFields allowUsers rootAlways failClosedIfEmpty peerUid usernameForUid := by
  intro h
  have hroot := h [] true true (some 0) fun uid => if uid = 0 then some "root" else Option.none
  have hallowed := hroot.admits.mpr (.inl ⟨rfl, rfl⟩)
  simp at hallowed

end Auth

end SharedDaemon
