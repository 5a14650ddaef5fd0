import WgBp.Library.Dict
import Mathlib.Data.Fintype.Card

/-! Decisions by an anonymous counter. The counter of an item goes up with every
request and is cleared when it reaches the threshold; who asked is not recorded.
The count stands for distinct voters as long as nobody asks for an item twice
before the item is decided. -/
namespace WgBp.Library.Ballot

variable {ι κ : Type} [DecidableEq κ] {threshold : Nat}

/-- How often an item has been asked for since it was last decided. -/
def votes (counts : Dict κ Nat) (item : κ) : Nat := (counts.lookup item).getD 0

def ask (threshold : Nat) (counts : Dict κ Nat) (item : κ) : Dict κ Nat × Bool :=
  let counted := counts.set item (votes counts item + 1)
  if votes counts item + 1 < threshold then (counted, false) else (counted.erase item, true)

def askAll (threshold : Nat) (counts : Dict κ Nat) (items : List κ) : Dict κ Nat :=
  items.foldl (fun counts item => (ask threshold counts item).1) counts

@[simp] theorem askAll_append (counts : Dict κ Nat) (items items' : List κ) :
    askAll threshold counts (items ++ items') =
      askAll threshold (askAll threshold counts items) items' := List.foldl_append

/-- The counters with what the voters have asked for and is still counted. -/
structure Box (ι κ : Type) where
  counts : Dict κ Nat
  cast : ι → List κ

variable [DecidableEq ι]

/-- A decision settles the requests of all voters. -/
def Box.vote (threshold : Nat) (box : Box ι κ) (voter : ι) (item : κ) : Box ι κ where
  counts := (ask threshold box.counts item).1
  cast :=
    if (ask threshold box.counts item).2 then fun other => (box.cast other).filter (· ≠ item)
    else Function.update box.cast voter (box.cast voter ++ [item])

def Box.voteAll (threshold : Nat) (box : Box ι κ) (voter : ι) (items : List κ) : Box ι κ :=
  items.foldl (fun box item => box.vote threshold voter item) box

@[simp] theorem counts_voteAll (box : Box ι κ) (voter : ι) (items : List κ) :
    (box.voteAll threshold voter items).counts = askAll threshold box.counts items := by
  induction items generalizing box with
  | nil => rfl
  | cons first rest ih => exact ih (box.vote threshold voter first)

theorem votes_ask_ne (counts : Dict κ Nat) {item other : κ} (different : other ≠ item) :
    votes (ask threshold counts item).1 other = votes counts other := by
  unfold ask votes
  dsimp only
  split
  · rw [Dict.lookup_set_ne _ _ different]
  · dsimp only
    rw [Dict.lookup_erase, if_neg different, Dict.lookup_set_ne _ _ different]

theorem votes_ask (counts : Dict κ Nat) (item : κ) :
    votes (ask threshold counts item).1 item =
      if (ask threshold counts item).2 then 0 else votes counts item + 1 := by
  unfold ask
  dsimp only
  split
  · simp [votes]
  · simp [votes]

theorem mem_cast_vote_ne (box : Box ι κ) (voter other : ι) {item item' : κ}
    (different : item' ≠ item) :
    item' ∈ (box.vote threshold voter item).cast other ↔ item' ∈ box.cast other := by
  unfold Box.vote
  dsimp only
  split
  · simp [different]
  · by_cases h : other = voter
    · subst h
      simp [different]
    · rw [Function.update_of_ne h]

theorem cast_voteAll_of_notMem (box : Box ι κ) (voter other : ι) {items : List κ} {item : κ}
    (absent : item ∉ items) :
    item ∈ (box.voteAll threshold voter items).cast other ↔ item ∈ box.cast other := by
  induction items generalizing box with
  | nil => exact .rfl
  | cons first rest ih =>
      rw [List.mem_cons, not_or] at absent
      exact (ih (box.vote threshold voter first) absent.2).trans
        (mem_cast_vote_ne box voter other absent.1)

theorem mem_cast_voteAll (box : Box ι κ) (voter other : ι) (items : List κ) {item : κ}
    (cast : item ∈ (box.voteAll threshold voter items).cast other) :
    item ∈ box.cast other ∨ other = voter ∧ item ∈ items := by
  induction items generalizing box with
  | nil => exact .inl cast
  | cons first rest ih =>
      rcases ih (box.vote threshold voter first) cast with h | ⟨h, hitem⟩
      · unfold Box.vote at h
        dsimp only at h
        split at h
        · exact .inl (List.mem_filter.mp h).1
        · by_cases hother : other = voter
          · subst hother
            rw [Function.update_self, List.mem_append, List.mem_singleton] at h
            rcases h with h | rfl
            · exact .inl h
            · exact .inr ⟨rfl, by simp⟩
          · rw [Function.update_of_ne hother] at h
            exact .inl h
      · exact .inr ⟨h, by simp [hitem]⟩

variable [Fintype ι]

def askers (box : Box ι κ) (item : κ) : Finset ι :=
  Finset.univ.filter fun voter => item ∈ box.cast voter

/-- Every count is the number of voters it stands for. -/
def Fair (box : Box ι κ) : Prop := ∀ item, votes box.counts item = (askers box item).card

theorem askers_vote_ne (box : Box ι κ) (voter : ι) {item other : κ} (different : other ≠ item) :
    askers (box.vote threshold voter item) other = askers box other := by
  ext candidate
  simp [askers, mem_cast_vote_ne box voter candidate different]

theorem askers_vote (box : Box ι κ) (voter : ι) (item : κ) :
    askers (box.vote threshold voter item) item =
      if (ask threshold box.counts item).2 then ∅ else insert voter (askers box item) := by
  ext candidate
  unfold Box.vote
  split
  · simp [askers, *]
  · by_cases h : candidate = voter
    · subst h
      simp [askers, *]
    · simp [askers, *]

theorem Fair.vote {box : Box ι κ} (fair : Fair box) {voter : ι} {item : κ}
    (new : item ∉ box.cast voter) : Fair (box.vote threshold voter item) := by
  intro other
  have hcounts : (box.vote threshold voter item).counts = (ask threshold box.counts item).1 := rfl
  by_cases h : other = item
  · subst h
    rw [hcounts, votes_ask, askers_vote]
    split
    · rfl
    · have hvoter : voter ∉ askers box other := by simpa [askers] using new
      rw [Finset.card_insert_of_notMem hvoter, fair other]
  · rw [hcounts, votes_ask_ne _ h, askers_vote_ne box voter h]
    exact fair other

/-- With a threshold of all voters, a decision needs every other voter. -/
theorem Fair.unanimous {box : Box ι κ} (fair : Fair box) {voter : ι} {item : κ}
    (new : item ∉ box.cast voter) (all : Fintype.card ι ≤ threshold)
    (decided : (ask threshold box.counts item).2 = true) {other : ι} (different : other ≠ voter) :
    item ∈ box.cast other := by
  have hvoter : voter ∉ askers box item := by simpa [askers] using new
  have hreached : threshold ≤ votes box.counts item + 1 := by
    unfold ask at decided
    dsimp only at decided
    split at decided
    · cases decided
    · omega
  have hcard : Fintype.card ι ≤ (insert voter (askers box item)).card := by
    rw [Finset.card_insert_of_notMem hvoter, ← fair item]
    omega
  have huniv : insert voter (askers box item) = Finset.univ :=
    Finset.eq_univ_of_card _ (le_antisymm (Finset.card_le_univ _) hcard)
  have hmem : other ∈ insert voter (askers box item) := huniv ▸ Finset.mem_univ other
  rcases Finset.mem_insert.mp hmem with h | h
  · exact absurd h different
  · simpa [askers] using h

theorem Fair.voteAll {box : Box ι κ} (fair : Fair box) {voter : ι} {items : List κ}
    (nodup : items.Nodup) (new : ∀ item ∈ items, item ∉ box.cast voter) :
    Fair (box.voteAll threshold voter items) := by
  induction items generalizing box with
  | nil => exact fair
  | cons first rest ih =>
      obtain ⟨hfirst, hrest⟩ := List.nodup_cons.mp nodup
      refine ih (fair.vote (new first (by simp))) hrest ?_
      intro item hitem hcast
      have hne : item ≠ first := fun h => hfirst (h ▸ hitem)
      exact new item (by simp [hitem]) ((mem_cast_vote_ne box voter voter hne).mp hcast)

theorem Fair.decided {box : Box ι κ} (fair : Fair box) {voter : ι} {earlier later : List κ}
    {item : κ} (nodup : (earlier ++ item :: later).Nodup)
    (new : ∀ item' ∈ earlier ++ item :: later, item' ∉ box.cast voter)
    (all : Fintype.card ι ≤ threshold)
    (decided : (ask threshold (box.voteAll threshold voter earlier).counts item).2 = true)
    {other : ι} (different : other ≠ voter) : item ∈ box.cast other := by
  obtain ⟨hearlier, -, hdisjoint⟩ := List.nodup_append.mp nodup
  have habsent : item ∉ earlier := fun h => hdisjoint item h item (by simp) rfl
  have hfair : Fair (box.voteAll threshold voter earlier) :=
    fair.voteAll hearlier fun item' h => new item' (by simp [h])
  have hnew : item ∉ (box.voteAll threshold voter earlier).cast voter := by
    rw [cast_voteAll_of_notMem box voter voter habsent]
    exact new item (by simp)
  have hcast := hfair.unanimous hnew all decided different
  rwa [cast_voteAll_of_notMem box voter other habsent] at hcast

end WgBp.Library.Ballot
