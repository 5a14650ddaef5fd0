import Mathlib.Data.Set.Insert
import Mathlib.Data.Nat.Basic

/-! Replicated values under a version number. What is held anywhere, by a replica
or by a message under way, is a set of pairs; replication copies pairs, and a
write adds one whose version is the next after a pair already held. Version zero
marks replicas that have not synchronized yet. -/
namespace WgBp.Library.Versioned

variable {α : Type*} {held held' : Set (Nat × α)} {version floor : Nat} {value : α}

/-- A version other than zero determines the value. -/
def Agreeing (held : Set (Nat × α)) : Prop :=
  ∀ version left right, version ≠ 0 → (version, left) ∈ held → (version, right) ∈ held →
    left = right

def Fresh (held : Set (Nat × α)) (version : Nat) : Prop := ∀ pair ∈ held, pair.1 ≠ version

def GoodFrom (floor : Nat) (good : α → Prop) (held : Set (Nat × α)) : Prop :=
  ∀ pair ∈ held, floor ≤ pair.1 → good pair.2

theorem Agreeing.copy (h : Agreeing held) (sub : held' ⊆ held) : Agreeing held' :=
  fun version left right hzero hleft hright =>
    h version left right hzero (sub hleft) (sub hright)

theorem Agreeing.write (h : Agreeing held) (fresh : Fresh held version)
    (sub : held' ⊆ insert (version, value) held) : Agreeing held' := by
  intro other left right hzero hleft hright
  rcases sub hleft with hleft | hleft <;> rcases sub hright with hright | hright
  · cases hleft; cases hright; rfl
  · cases hleft; exact absurd rfl (fresh _ hright)
  · cases hright; exact absurd rfl (fresh _ hleft)
  · exact h other left right hzero hleft hright

theorem Agreeing.start (h : Agreeing held) (sub : held' ⊆ insert (0, value) held) :
    Agreeing held' := by
  intro other left right hzero hleft hright
  rcases sub hleft with hleft | hleft
  · cases hleft; exact absurd rfl hzero
  · rcases sub hright with hright | hright
    · cases hright; exact absurd rfl hzero
    · exact h other left right hzero hleft hright

/-- A copy is at most at the top version, and there it is the last value. -/
structure Capped (top : Nat) (last : α) (pair : Nat × α) : Prop where
  le : pair.1 ≤ top
  same : pair.1 = top → pair.2 = last

theorem Capped.latest (top : Nat) (last : α) : Capped top last (top, last) :=
  ⟨Nat.le_refl top, fun _ => rfl⟩

theorem Capped.of_lt {top : Nat} {last : α} {pair : Nat × α} (h : pair.1 < top) :
    Capped top last pair := ⟨Nat.le_of_lt h, fun hequal => absurd hequal (Nat.ne_of_lt h)⟩

theorem Capped.raise {top : Nat} {last : α} {pair : Nat × α} (h : Capped top last pair)
    (new : α) : Capped (top + 1) new pair := .of_lt (Nat.lt_succ_of_le h.le)

variable {good : α → Prop}

theorem GoodFrom.copy (h : GoodFrom floor good held) (sub : held' ⊆ held) :
    GoodFrom floor good held' := fun pair hpair => h pair (sub hpair)

theorem GoodFrom.write (h : GoodFrom floor good held) (new : floor ≤ version → good value)
    (sub : held' ⊆ insert (version, value) held) : GoodFrom floor good held' := by
  intro pair hpair hfloor
  rcases sub hpair with rfl | hold
  · exact new hfloor
  · exact h pair hold hfloor

end WgBp.Library.Versioned
