import Mathlib.Algebra.BigOperators.Group.Finset.Basic
import Mathlib.Algebra.Order.BigOperators.Group.Finset
import Mathlib.Tactic.Ring
import WgBp.Library.Transition

/-! Cascades of messages. Each message has a rank, and handling it sends every mailbox at
most one message, of a lower rank. Then only boundedly many messages are ever handled. -/
namespace WgBp.Library.Cascade

open WgBp.Library.Transition

variable {σ ℓ ι : Type}

/-- A system whose every admitted step lowers a measure runs out of steps. -/
theorem length_le_of_replay {next : σ → ℓ → Option σ} {check : σ → ℓ → Bool}
    (inv : σ → Prop) (measure : σ → Nat)
    (lowers : ∀ state label after, inv state → check state label = true →
      next state label = some after → inv after ∧ measure after < measure state)
    {labels : List ℓ} {first last : σ} (start : inv first)
    (replayed : replay next check first labels = some last) :
    labels.length + measure last ≤ measure first := by
  induction labels generalizing first with
  | nil =>
      cases replayed
      simp
  | cons label rest ih =>
      unfold replay at replayed
      split at replayed
      · rename_i hcheck
        obtain ⟨after, hnext, hrest⟩ := Option.bind_eq_some_iff.mp replayed
        obtain ⟨hinv, hlower⟩ := lowers first label after start hcheck hnext
        have hlength := ih hinv hrest
        rw [List.length_cons]
        omega
      · cases replayed

/-- Such a system can be led to a state where no admitted step is left. -/
theorem exists_at_rest {next : σ → ℓ → Option σ} (check : σ → ℓ → Bool)
    (inv : σ → Prop) (measure : σ → Nat)
    (lowers : ∀ state label after, inv state → check state label = true →
      next state label = some after → inv after ∧ measure after < measure state)
    {first : σ} (start : inv first) :
    ∃ labels last, replay next check first labels = some last ∧
      ∀ label, check last label = true → next last label = none := by
  induction hbound : measure first using Nat.strong_induction_on generalizing first with
  | h bound ih =>
      by_cases hrest : ∀ label, check first label = true → next first label = none
      · exact ⟨[], first, rfl, hrest⟩
      · push Not at hrest
        obtain ⟨label, hcheck, hnext⟩ := hrest
        obtain ⟨after, hafter⟩ := Option.ne_none_iff_exists'.mp hnext
        obtain ⟨hinv, hlower⟩ := lowers first label after start hcheck hafter
        obtain ⟨labels, last, hreplayed, hlast⟩ := ih _ (hbound ▸ hlower) hinv rfl
        refine ⟨label :: labels, last, ?_, hlast⟩
        unfold replay
        rw [if_pos hcheck, hafter]
        exact hreplayed

/-- What a message of a rank counts for: more than `fan` messages of the rank below. -/
def weight (fan rank : Nat) : Nat := (fan + 1) ^ rank

def load (fan : Nat) (ranks : List Nat) : Nat := (ranks.map (weight fan)).sum

@[simp] theorem load_nil (fan : Nat) : load fan [] = 0 := rfl

@[simp] theorem load_cons (fan rank : Nat) (ranks : List Nat) :
    load fan (rank :: ranks) = weight fan rank + load fan ranks := by
  simp [load]

@[simp] theorem load_append (fan : Nat) (first second : List Nat) :
    load fan (first ++ second) = load fan first + load fan second := by
  simp [load]

theorem load_perm (fan : Nat) {first second : List Nat} (perm : first.Perm second) :
    load fan first = load fan second := (perm.map (weight fan)).sum_nat

theorem weight_pos (fan rank : Nat) : 0 < weight fan rank := Nat.pow_pos (Nat.succ_pos fan)

theorem weight_mono (fan : Nat) {low high : Nat} (h : low ≤ high) :
    weight fan low ≤ weight fan high := Nat.pow_le_pow_right (Nat.succ_pos fan) h

theorem weight_succ (fan rank : Nat) :
    weight fan (rank + 1) = weight fan rank + fan * weight fan rank := by
  unfold weight
  ring

/-- What one mailbox may receive while a message of the rank is handled. -/
def share (fan rank : Nat) : Nat := if rank = 0 then 0 else weight fan (rank - 1)

theorem share_lt (fan rank : Nat) : fan * share fan rank < weight fan rank := by
  unfold share
  split
  · rename_i hzero
    subst hzero
    exact weight_pos fan 0
  · rename_i hpositive
    obtain ⟨low, rfl⟩ := Nat.exists_eq_succ_of_ne_zero hpositive
    have hlow := weight_pos fan low
    have hsplit := weight_succ fan low
    simp only [Nat.succ_eq_add_one, Nat.add_sub_cancel]
    omega

structure Hears (rank : Nat) (before after heard : List Nat) : Prop where
  appended : after = before ++ heard
  single : heard.length ≤ 1
  lower : ∀ other ∈ heard, other < rank

theorem Hears.load_le {rank : Nat} {before after heard : List Nat}
    (hears : Hears rank before after heard) (fan : Nat) :
    load fan after ≤ load fan before + share fan rank := by
  rw [hears.appended, load_append]
  refine Nat.add_le_add_left ?_ _
  cases heard with
  | nil => simp
  | cons other rest =>
      have hrest : rest = [] := by
        have hsingle := hears.single
        rw [List.length_cons] at hsingle
        exact List.length_eq_zero_iff.mp (by omega)
      have hlower : other < rank := hears.lower other (by simp)
      have hpositive : rank ≠ 0 := by omega
      rw [hrest, load_cons, load_nil, Nat.add_zero, share, if_neg hpositive]
      exact weight_mono fan (by omega)

theorem sum_step_le [DecidableEq ι] {boxes : Finset ι} (before after : ι → Nat) {index : ι}
    (mem : index ∈ boxes) (extra : Nat)
    (others : ∀ other ∈ boxes, other ≠ index → after other ≤ before other + extra) :
    ∑ other ∈ boxes, after other + before index + extra ≤
      ∑ other ∈ boxes, before other + after index + boxes.card * extra := by
  have hothers : ∑ other ∈ boxes.erase index, after other ≤
      ∑ other ∈ boxes.erase index, (before other + extra) :=
    Finset.sum_le_sum fun other hother =>
      others other (Finset.mem_of_mem_erase hother) (Finset.ne_of_mem_erase hother)
  have hcard : (boxes.erase index).card * extra + extra = boxes.card * extra := by
    rw [← Finset.card_erase_add_one mem]
    ring
  rw [Finset.sum_add_distrib, Finset.sum_const, Nat.nsmul_eq_mul] at hothers
  rw [← Finset.add_sum_erase boxes _ mem, ← Finset.add_sum_erase boxes before mem]
  omega

theorem sum_map_set {α : Type} (count : α → Nat) {items : List α} {index : ℕ} {item : α}
    (found : items[index]? = some item) (changed : α) :
    ((items.set index changed).map count).sum + count item =
      (items.map count).sum + count changed := by
  obtain ⟨hindex, rfl⟩ := List.getElem?_eq_some_iff.mp found
  have hperm := (List.getElem_cons_eraseIdx_perm hindex).map count
  have hchanged : index < (items.set index changed).length := by
    rwa [List.length_set]
  have hperm' := (List.getElem_cons_eraseIdx_perm hchanged).map count
  rw [List.getElem_set_self, List.eraseIdx_set_eq] at hperm'
  rw [← hperm.sum_nat, ← hperm'.sum_nat, List.map_cons, List.map_cons, List.sum_cons,
    List.sum_cons]
  omega

theorem sum_map_eraseIdx {α : Type} (count : α → Nat) {items : List α} {index : ℕ} {item : α}
    (found : items[index]? = some item) :
    ((items.eraseIdx index).map count).sum + count item = (items.map count).sum := by
  obtain ⟨hindex, rfl⟩ := List.getElem?_eq_some_iff.mp found
  have hperm := (List.getElem_cons_eraseIdx_perm hindex).map count
  rw [← hperm.sum_nat, List.map_cons, List.sum_cons, Nat.add_comm]

end WgBp.Library.Cascade
