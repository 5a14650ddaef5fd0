import Mathlib.Logic.Function.Iterate
import WgBp.Library.Procedure

/-! Walks over a list of keys in which every visit changes only what its own key
is mapped to. The result at a key depends on the visits to that key alone. -/
namespace WgBp.Library.Keywise

open WgBp.Library.Procedure

variable {σ κ β ε α : Type} [DecidableEq κ]
variable {value : σ → κ → β} {update : κ → β → β}

def Visit (value : σ → κ → β) (update : κ → β → β) (key : κ) (before after : σ) : Prop :=
  ∀ other, value after other =
    if other = key then update other (value before other) else value before other

theorem Visit.here {key : κ} {before after : σ} (visit : Visit value update key before after) :
    value after key = update key (value before key) := by rw [visit key, if_pos rfl]

theorem Visit.congr {update' : κ → β → β} {key : κ} {before after : σ}
    (visit : Visit value update key before after) (same : update' key = update key) :
    Visit value update' key before after := by
  intro other
  rw [visit other]
  by_cases hother : other = key
  · rw [if_pos hother, if_pos hother, hother, same]
  · rw [if_neg hother, if_neg hother]

inductive Walk (value : σ → κ → β) (update : κ → β → β) : List κ → σ → σ → Prop where
  | nil (state : σ) : Walk value update [] state state
  | cons {key : κ} {rest : List κ} {before mid after : σ}
      (visit : Visit value update key before mid) (walk : Walk value update rest mid after) :
      Walk value update (key :: rest) before after

theorem Walk.value_eq {keys : List κ} {before after : σ}
    (walk : Walk value update keys before after) (other : κ) :
    value after other = (update other)^[keys.count other] (value before other) := by
  induction walk with
  | nil state => rfl
  | cons visit walk ih =>
      rename_i key rest start mid last
      rw [ih, visit other, List.count_cons]
      by_cases hother : other = key
      · subst hother
        simp [Function.iterate_succ_apply]
      · have hdifferent : ¬(key == other) = true := by simpa using Ne.symm hother
        simp [hother, hdifferent]

theorem Walk.value_of_not_mem {keys : List κ} {before after : σ}
    (walk : Walk value update keys before after) {other : κ} (unvisited : other ∉ keys) :
    value after other = value before other := by
  rw [walk.value_eq, List.count_eq_zero_of_not_mem unvisited]
  rfl

theorem Walk.value_of_nodup {keys : List κ} {before after : σ}
    (walk : Walk value update keys before after) (nodup : keys.Nodup) {other : κ}
    (visited : other ∈ keys) : value after other = update other (value before other) := by
  rw [walk.value_eq, List.count_eq_one_of_mem nodup visited]
  rfl

theorem Walk.value_of_idempotent {keys : List κ} {before after : σ}
    (walk : Walk value update keys before after) {other : κ}
    (idempotent : ∀ old, update other (update other old) = update other old)
    (visited : other ∈ keys) : value after other = update other (value before other) := by
  rw [walk.value_eq]
  obtain ⟨count, hcount⟩ := Nat.exists_eq_succ_of_ne_zero
    (Nat.pos_iff_ne_zero.mp (List.count_pos_iff.mpr visited))
  rw [hcount, Function.iterate_succ_apply]
  exact Function.iterate_fixed (idempotent _) count

theorem walk_foldl (inv : σ → Prop) {key : α → κ} {step : σ → α → σ} (items : List α)
    (visits : ∀ item ∈ items, ∀ state, inv state →
      inv (step state item) ∧ Visit value update (key item) state (step state item))
    {state : σ} (start : inv state) :
    inv (items.foldl step state) ∧
      Walk value update (items.map key) state (items.foldl step state) := by
  induction items generalizing state with
  | nil => exact ⟨start, .nil state⟩
  | cons item rest ih =>
      obtain ⟨hinv, hvisit⟩ := visits item (by simp) state start
      obtain ⟨hlast, hwalk⟩ := ih (fun other hother => visits other (by simp [hother])) hinv
      exact ⟨hlast, .cons hvisit hwalk⟩

end WgBp.Library.Keywise
