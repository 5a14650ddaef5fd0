import Mathlib.Data.List.Basic

/-! Mailboxes that keep the order of each sender and nothing else: any sender's
next message may be taken, but none that stands behind another of its own. -/
namespace WgBp.Library.Mailbox

variable {ι μ : Type}

/-- The first message of a sender, with the mailbox it leaves behind. -/
def take [DecidableEq ι] (inbox : List (ι × μ)) (sender : ι) : Option (μ × List (ι × μ)) :=
  (inbox.find? fun entry => entry.1 = sender).map fun entry =>
    (entry.2, inbox.eraseP fun entry => entry.1 = sender)

theorem take_split [DecidableEq ι] {inbox rest : List (ι × μ)} {sender : ι} {message : μ}
    (h : take inbox sender = some (message, rest)) :
    ∃ earlier later, inbox = earlier ++ (sender, message) :: later ∧
      rest = earlier ++ later ∧ ∀ entry ∈ earlier, entry.1 ≠ sender := by
  unfold take at h
  obtain ⟨entry, hfound, hpair⟩ := Option.map_eq_some_iff.mp h
  obtain ⟨hsender, earlier, later, hinbox, hearlier⟩ := List.find?_eq_some_iff_append.mp hfound
  have hentry : entry = (sender, message) := by
    have hmessage : entry.2 = message := congrArg Prod.fst hpair
    exact Prod.ext (of_decide_eq_true hsender) hmessage
  have hdiffer : ∀ entry ∈ earlier, entry.1 ≠ sender := by
    intro entry hentry
    simpa using hearlier entry hentry
  refine ⟨earlier, later, by rw [hinbox, hentry], ?_, hdiffer⟩
  have hrest : inbox.eraseP (fun entry => entry.1 = sender) = rest := congrArg Prod.snd hpair
  have hskip : ∀ entry ∈ earlier, ¬(decide (entry.1 = sender) = true) := by
    intro entry hentry
    simpa using hdiffer entry hentry
  rw [← hrest, hinbox, List.eraseP_append_right _ hskip]
  exact congrArg _ (List.eraseP_cons_of_pos hsender)

theorem mem_of_take [DecidableEq ι] {inbox rest : List (ι × μ)} {sender : ι} {message : μ}
    (h : take inbox sender = some (message, rest)) (entry : ι × μ) :
    entry ∈ inbox ↔ entry = (sender, message) ∨ entry ∈ rest := by
  obtain ⟨earlier, later, hinbox, hrest, -⟩ := take_split h
  rw [hinbox, hrest]
  simp only [List.mem_append, List.mem_cons]
  tauto

def InOrder (before : μ → μ → Prop) (inbox : List (ι × μ)) : Prop :=
  inbox.Pairwise fun first second => first.1 = second.1 → before first.2 second.2

theorem InOrder.take [DecidableEq ι] {before : μ → μ → Prop} {inbox rest : List (ι × μ)}
    {sender : ι} {message : μ} (order : InOrder before inbox)
    (h : take inbox sender = some (message, rest)) : InOrder before rest := by
  obtain ⟨earlier, later, hinbox, hrest, -⟩ := take_split h
  have hsub : rest.Sublist inbox := by
    rw [hinbox, hrest]
    exact (List.Sublist.refl earlier).append (List.sublist_cons_self _ later)
  exact List.Pairwise.sublist hsub order

theorem InOrder.push {before : μ → μ → Prop} {inbox : List (ι × μ)} {sender : ι}
    {message : μ} (order : InOrder before inbox)
    (last : ∀ entry ∈ inbox, entry.1 = sender → before entry.2 message) :
    InOrder before (inbox ++ [(sender, message)]) := by
  refine List.pairwise_append.mpr ⟨order, List.pairwise_singleton _ _, ?_⟩
  intro first hfirst second hsecond
  rw [List.mem_singleton] at hsecond
  subst hsecond
  exact last first hfirst

end WgBp.Library.Mailbox
