import Mathlib.Data.List.Basic
import Mathlib.Tactic.Tauto

/-! A flag that the visits of a fold set or clear. Only the last visit that touches it
matters, and the flag at the start if none does. -/
namespace WgBp.Library.Latch

variable {σ α : Type} {sets clears : α → Prop}

def SetLast (sets clears : α → Prop) (items : List α) : Prop :=
  ∃ front item rest, items = front ++ item :: rest ∧ sets item ∧ ∀ later ∈ rest, ¬clears later

theorem setLast_nil : ¬SetLast sets clears ([] : List α) := by
  rintro ⟨front, item, rest, hitems, -⟩
  simp at hitems

theorem setLast_cons {item : α} {rest : List α} :
    SetLast sets clears (item :: rest) ↔
      (sets item ∧ ∀ later ∈ rest, ¬clears later) ∨ SetLast sets clears rest := by
  constructor
  · rintro ⟨front, last, tail, hitems, hsets, hclears⟩
    cases front with
    | nil =>
        cases hitems
        exact .inl ⟨hsets, hclears⟩
    | cons first front =>
        cases hitems
        exact .inr ⟨front, last, tail, rfl, hsets, hclears⟩
  · rintro (⟨hsets, hclears⟩ | ⟨front, last, tail, rfl, hsets, hclears⟩)
    · exact ⟨[], item, rest, rfl, hsets, hclears⟩
    · exact ⟨item :: front, last, tail, rfl, hsets, hclears⟩

/-- The flag after a fold; the invariant may speak of the items still to come. -/
theorem flag_foldl (flag : σ → Prop) {visit : σ → α → σ} (inv : List α → σ → Prop)
    (visits : ∀ item rest state, inv (item :: rest) state → inv rest (visit state item) ∧
      (flag (visit state item) ↔ sets item ∨ flag state ∧ ¬clears item))
    {items : List α} {state : σ} (start : inv items state) :
    flag (items.foldl visit state) ↔
      SetLast sets clears items ∨ flag state ∧ ∀ item ∈ items, ¬clears item := by
  induction items generalizing state with
  | nil => simp [setLast_nil]
  | cons item rest ih =>
      obtain ⟨hinv, hflag⟩ := visits item rest state start
      rw [List.foldl_cons, ih hinv, hflag, setLast_cons, List.forall_mem_cons]
      tauto

end WgBp.Library.Latch
