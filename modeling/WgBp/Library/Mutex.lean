import Mathlib.Data.List.Basic

/-! Threads in a list, which take steps one at a time, and a lock they may hold: as
many threads hold it as its word says, which is none or one. -/
namespace WgBp.Library.Mutex

variable {τ : Type*}

theorem thread_set_cases {threads : List τ} {index place : Nat} {changed found : τ}
    (h : (threads.set index changed)[place]? = some found) :
    (place = index ∧ found = changed) ∨ (place ≠ index ∧ threads[place]? = some found) := by
  rw [List.getElem?_set] at h
  split at h
  · rename_i hindex
    split at h
    · cases h
      exact .inl ⟨hindex.symm, rfl⟩
    · cases h
  · rename_i hindex
    exact .inr ⟨fun heq => hindex heq.symm, h⟩

theorem thread_set_stays {threads : List τ} {index : Nat} {thread other : τ}
    (member : threads[index]? = some thread) (mem : other ∈ threads) (changed : τ) :
    other = thread ∨ other ∈ threads.set index changed := by
  obtain ⟨place, hplace⟩ := List.mem_iff_getElem?.mp mem
  by_cases hindex : index = place
  · subst hindex
    exact .inl (Option.some.inj (hplace.symm.trans member))
  · refine .inr (List.mem_iff_getElem?.mpr ⟨place, ?_⟩)
    rw [List.getElem?_set_ne hindex]
    exact hplace

theorem thread_set_mem {threads : List τ} {index : Nat} {thread : τ}
    (member : threads[index]? = some thread) (changed : τ) :
    changed ∈ threads.set index changed :=
  List.mem_of_getElem? (List.getElem?_set_self (List.getElem?_eq_some_iff.mp member).1)

def holders (holds : τ → Bool) (threads : List τ) : Nat := threads.countP holds

@[simp] theorem holders_append (holds : τ → Bool) (threads : List τ) (thread : τ) :
    holders holds (threads ++ [thread]) = holders holds threads + (holds thread).toNat := by
  unfold holders
  rw [List.countP_append]
  cases h : holds thread <;> simp [h]

theorem holders_set (holds : τ → Bool) {threads : List τ} {index : Nat} {thread : τ}
    (member : threads[index]? = some thread) (changed : τ) :
    holders holds (threads.set index changed) + (holds thread).toNat =
      holders holds threads + (holds changed).toNat := by
  obtain ⟨hlength, hthread⟩ := List.getElem?_eq_some_iff.mp member
  have hpositive : holds thread = true → 0 < threads.countP holds := fun h =>
    List.countP_pos_iff.mpr ⟨thread, List.mem_of_getElem? member, h⟩
  unfold holders
  rw [List.countP_set hlength, hthread]
  cases hbefore : holds thread <;> cases hafter : holds changed <;> simp_all

theorem holds_false {holds : τ → Bool} {threads : List τ} (none : holders holds threads = 0)
    {thread : τ} (member : thread ∈ threads) : holds thread = false := by
  cases h : holds thread with
  | false => rfl
  | true =>
      have hpositive : 0 < holders holds threads := List.countP_pos_iff.mpr ⟨thread, member, h⟩
      omega

end WgBp.Library.Mutex
