import Mathlib.Logic.Function.Basic

/-! An interface with cryptokey routing, next to a directory of the peers that should
be configured on it. A peer has one endpoint, and a range is held by one peer at a
time: giving it to a peer takes it away from whoever held it. -/
namespace WgBp.Library.Cryptokey

structure Entry (κ ε ρ : Type) where
  key : κ
  ranges : List ρ
  endpoint : ε

inductive Command (κ ε ρ : Type) where
  | put (entry : Entry κ ε ρ)
  | drop (key : κ)

structure Interface (κ ε ρ : Type) where
  endpoint : κ → Option ε
  holder : ρ → Option κ

variable {ι κ ε ρ : Type}

def Interface.empty : Interface κ ε ρ := ⟨fun _ => none, fun _ => none⟩

section

variable [DecidableEq κ] [DecidableEq ρ]

def Interface.apply (interface : Interface κ ε ρ) : Command κ ε ρ → Interface κ ε ρ
  | .put entry => {
      endpoint := fun key => if key = entry.key then some entry.endpoint else interface.endpoint key
      holder := fun range =>
        if range ∈ entry.ranges then some entry.key
        else if interface.holder range = some entry.key then none
        else interface.holder range }
  | .drop key => {
      endpoint := fun other => if other = key then none else interface.endpoint other
      holder := fun range =>
        if interface.holder range = some key then none else interface.holder range }

def replay (commands : List (Command κ ε ρ)) : Interface κ ε ρ :=
  commands.foldl Interface.apply .empty

@[simp] theorem replay_concat (commands : List (Command κ ε ρ)) (command : Command κ ε ρ) :
    replay (commands ++ [command]) = (replay commands).apply command := by
  simp [replay]

private theorem release_eq_some {held : Option κ} {released key : κ} :
    (if held = some released then none else held) = some key ↔
      held = some key ∧ released ≠ key := by
  by_cases hheld : held = some released
  · rw [if_pos hheld, hheld]
    simp
  · rw [if_neg hheld]
    constructor
    · intro hkey
      exact ⟨hkey, fun hsame => hheld (hsame ▸ hkey)⟩
    · exact And.left

/-- A range goes to the peer it is given to; a peer that is not given it loses it. -/
theorem holder_put (interface : Interface κ ε ρ) (entry : Entry κ ε ρ) (range : ρ) (key : κ) :
    (interface.apply (.put entry)).holder range = some key ↔
      range ∈ entry.ranges ∧ entry.key = key ∨
        range ∉ entry.ranges ∧ interface.holder range = some key ∧ entry.key ≠ key := by
  unfold Interface.apply
  dsimp only
  by_cases hgiven : range ∈ entry.ranges
  · simp [hgiven]
  · rw [if_neg hgiven, release_eq_some]
    simp [hgiven]

theorem holder_drop (interface : Interface κ ε ρ) (dropped : κ) (range : ρ) (key : κ) :
    (interface.apply (.drop dropped)).holder range = some key ↔
      interface.holder range = some key ∧ dropped ≠ key := release_eq_some

end

def Owned (owner : κ → ι) (directory : ι → Option (Entry κ ε ρ)) : Prop :=
  ∀ index entry, directory index = some entry → owner entry.key = index

def Mirrors (interface : Interface κ ε ρ) (directory : ι → Option (Entry κ ε ρ)) : Prop :=
  ∀ key endpoint, interface.endpoint key = some endpoint ↔
    ∃ index entry, directory index = some entry ∧ entry.key = key ∧ entry.endpoint = endpoint

def Held (interface : Interface κ ε ρ) (directory : ι → Option (Entry κ ε ρ)) : Prop :=
  ∀ range key, interface.holder range = some key →
    ∃ index entry, directory index = some entry ∧ entry.key = key ∧ range ∈ entry.ranges

/-- The interface agrees with the directory, up to listed ranges that nobody holds. -/
structure Faithful (owner : κ → ι) (interface : Interface κ ε ρ)
    (directory : ι → Option (Entry κ ε ρ)) : Prop where
  owned : Owned owner directory
  mirrors : Mirrors interface directory
  held : Held interface directory

theorem Owned.key_ne {owner : κ → ι} {directory : ι → Option (Entry κ ε ρ)}
    (owned : Owned owner directory) {index other : ι} {entry entry' : Entry κ ε ρ}
    (found : directory index = some entry) (owns : owner entry'.key = other)
    (different : index ≠ other) : entry.key ≠ entry'.key := by
  intro hkey
  exact different ((owned index entry found).symm.trans ((congrArg owner hkey).trans owns))

section

variable [DecidableEq ι] [DecidableEq κ] [DecidableEq ρ]
variable {owner : κ → ι} {interface : Interface κ ε ρ} {directory : ι → Option (Entry κ ε ρ)}

omit [DecidableEq κ] [DecidableEq ρ] in
private theorem update_eq_some {index other : ι} {value : Option (Entry κ ε ρ)}
    {entry : Entry κ ε ρ} :
    Function.update directory index value other = some entry ↔
      other = index ∧ value = some entry ∨ other ≠ index ∧ directory other = some entry := by
  by_cases hother : other = index
  · subst hother
    simp
  · simp [hother]

theorem Faithful.put (faithful : Faithful owner interface directory) {index : ι}
    {entry : Entry κ ε ρ} (owns : owner entry.key = index)
    (replaces : ∀ old, directory index = some old → old.key = entry.key) :
    Faithful owner (interface.apply (.put entry))
      (Function.update directory index (some entry)) where
  owned := by
    intro other found hfound
    rcases update_eq_some.mp hfound with ⟨rfl, hsame⟩ | ⟨-, hkept⟩
    · cases hsame
      exact owns
    · exact faithful.owned other found hkept
  mirrors := by
    intro key endpoint
    unfold Interface.apply
    dsimp only
    by_cases hkey : key = entry.key
    · subst hkey
      rw [if_pos rfl]
      constructor
      · intro hendpoint
        exact ⟨index, entry, Function.update_self _ _ _, rfl, Option.some.inj hendpoint⟩
      · rintro ⟨other, found, hfound, hsame, rfl⟩
        rcases update_eq_some.mp hfound with ⟨-, hnew⟩ | ⟨hother, hkept⟩
        · exact congrArg (Option.map Entry.endpoint) hnew
        · exact absurd hsame (faithful.owned.key_ne hkept owns hother)
    · rw [if_neg hkey, faithful.mirrors key endpoint]
      constructor
      · rintro ⟨other, found, hfound, rfl, rfl⟩
        have hother : other ≠ index := by
          rintro rfl
          exact hkey (replaces found hfound)
        exact ⟨other, found, update_eq_some.mpr (.inr ⟨hother, hfound⟩), rfl, rfl⟩
      · rintro ⟨other, found, hfound, rfl, rfl⟩
        rcases update_eq_some.mp hfound with ⟨-, hnew⟩ | ⟨-, hkept⟩
        · cases hnew
          exact absurd rfl hkey
        · exact ⟨other, found, hkept, rfl, rfl⟩
  held := by
    intro range key hholder
    unfold Interface.apply at hholder
    dsimp only at hholder
    split at hholder
    · rename_i hgiven
      cases hholder
      exact ⟨index, entry, Function.update_self _ _ _, rfl, hgiven⟩
    · split at hholder
      · cases hholder
      · rename_i hnot
        obtain ⟨other, found, hfound, rfl, hlisted⟩ := faithful.held range key hholder
        have hother : other ≠ index := by
          rintro rfl
          exact hnot (hholder.trans (congrArg some (replaces found hfound)))
        exact ⟨other, found, update_eq_some.mpr (.inr ⟨hother, hfound⟩), rfl, hlisted⟩

theorem Faithful.drop (faithful : Faithful owner interface directory) {index : ι}
    {old : Entry κ ε ρ} (found : directory index = some old) :
    Faithful owner (interface.apply (.drop old.key)) (Function.update directory index none) := by
  have hkept {other : ι} {entry : Entry κ ε ρ} :
      Function.update directory index none other = some entry ↔
        other ≠ index ∧ directory other = some entry := by
    rw [update_eq_some]
    simp
  have hother {other : ι} {entry : Entry κ ε ρ} (hfound : directory other = some entry)
      (hkey : entry.key ≠ old.key) : other ≠ index := by
    rintro rfl
    exact hkey (congrArg Entry.key (Option.some.inj (hfound.symm.trans found)))
  refine ⟨?_, ?_, ?_⟩
  · intro other entry hfound
    exact faithful.owned other entry (hkept.mp hfound).2
  · intro key endpoint
    unfold Interface.apply
    dsimp only
    by_cases hkey : key = old.key
    · subst hkey
      rw [if_pos rfl]
      constructor
      · intro h
        cases h
      · rintro ⟨other, entry, hfound, hsame, -⟩
        obtain ⟨hdifferent, hfound⟩ := hkept.mp hfound
        have howns := faithful.owned index old found
        exact absurd hsame (faithful.owned.key_ne hfound howns hdifferent)
    · rw [if_neg hkey, faithful.mirrors key endpoint]
      constructor
      · rintro ⟨other, entry, hfound, rfl, rfl⟩
        exact ⟨other, entry, hkept.mpr ⟨hother hfound hkey, hfound⟩, rfl, rfl⟩
      · rintro ⟨other, entry, hfound, rfl, rfl⟩
        exact ⟨other, entry, (hkept.mp hfound).2, rfl, rfl⟩
  · intro range key hholder
    unfold Interface.apply at hholder
    dsimp only at hholder
    split at hholder
    · cases hholder
    · rename_i hnot
      obtain ⟨other, entry, hfound, rfl, hlisted⟩ := faithful.held range key hholder
      have hkey : entry.key ≠ old.key := fun h => hnot (hholder.trans (congrArg some h))
      exact ⟨other, entry, hkept.mpr ⟨hother hfound hkey, hfound⟩, rfl, hlisted⟩

end

theorem faithful_empty (owner : κ → ι) :
    Faithful owner (.empty : Interface κ ε ρ) (fun _ => none) where
  owned := fun _ _ h => nomatch h
  mirrors := by
    intro key endpoint
    constructor
    · intro h
      cases h
    · rintro ⟨_, _, hfound, -⟩
      cases hfound
  held := fun _ _ h => nomatch h

end WgBp.Library.Cryptokey
