import Mathlib.Data.List.AList

/-! Insertion-ordered dictionaries. Mathlib's association lists already give
lookup, membership and erasure; what is added is assignment, which overwrites
in place when the key is present and appends otherwise. -/
namespace WgBp.Library

abbrev Dict (κ ν : Type*) := AList fun _ : κ => ν

namespace Dict

variable {κ ν : Type*}

private theorem nodup_append_new (dict : Dict κ ν) (key : κ) (value : ν)
    (absent : key ∉ dict) :
    (dict.entries ++ [⟨key, value⟩] : List (Σ _ : κ, ν)).NodupKeys := by
  have hkeys : dict.entries.keys.Nodup := dict.keys_nodup
  have hnew : key ∉ dict.entries.keys := absent
  rw [List.NodupKeys, List.keys, List.map_append, List.nodup_append]
  refine ⟨hkeys, by simp, ?_⟩
  intro left hleft right hright
  simp only [List.map_cons, List.map_nil, List.mem_singleton] at hright
  rintro rfl
  exact hnew (hright ▸ hleft)

variable [DecidableEq κ]

/-- Equality compares the entries, in a form that evaluates. -/
instance [DecidableEq ν] : DecidableEq (Dict κ ν) := fun _ _ =>
  decidable_of_iff _ AList.ext_iff.symm

/-- Item assignment: the position of a key is the one of its first insertion. -/
def set (dict : Dict κ ν) (key : κ) (value : ν) : Dict κ ν :=
  if present : key ∈ dict then dict.replace key value
  else ⟨dict.entries ++ [⟨key, value⟩], nodup_append_new dict key value present⟩

private theorem kreplace_cons_self (key : κ) (value previous : ν)
    (rest : List (Σ _ : κ, ν)) :
    (List.kreplace key value (⟨key, previous⟩ :: rest) : List (Σ _ : κ, ν)) =
      ⟨key, value⟩ :: rest :=
  List.lookmap_cons_some _ _ (by simp)

private theorem kreplace_cons_ne {key head : κ} (different : key ≠ head)
    (value previous : ν) (rest : List (Σ _ : κ, ν)) :
    (List.kreplace key value (⟨head, previous⟩ :: rest) : List (Σ _ : κ, ν)) =
      ⟨head, previous⟩ :: rest.kreplace key value :=
  List.lookmap_cons_none _ _ (by simp [different])

private theorem dlookup_kreplace (key other : κ) (value : ν)
    (entries : List (Σ _ : κ, ν)) (present : key ∈ entries.keys) :
    (entries.kreplace key value).dlookup other =
      if other = key then some value else entries.dlookup other := by
  induction entries with
  | nil => simp at present
  | cons entry rest ih =>
      obtain ⟨head, previous⟩ := entry
      by_cases hhead : key = head
      · subst hhead
        rw [kreplace_cons_self]
        by_cases hother : other = key
        · subst hother; simp
        · rw [List.dlookup_cons_ne _ _ hother, List.dlookup_cons_ne _ _ hother,
            if_neg hother]
      · have hrest : key ∈ rest.keys := by
          simpa [List.keys_cons, hhead] using present
        rw [kreplace_cons_ne hhead]
        by_cases hother : other = head
        · subst hother
          simp [Ne.symm hhead]
        · rw [List.dlookup_cons_ne _ _ hother, List.dlookup_cons_ne _ _ hother, ih hrest]

private theorem dlookup_append_new (key other : κ) (value : ν)
    (entries : List (Σ _ : κ, ν)) (absent : key ∉ entries.keys) :
    (entries ++ [⟨key, value⟩] : List (Σ _ : κ, ν)).dlookup other =
      if other = key then some value else entries.dlookup other := by
  induction entries with
  | nil =>
      by_cases hother : other = key
      · subst hother; simp
      · rw [List.nil_append, List.dlookup_cons_ne _ _ hother, if_neg hother]
  | cons entry rest ih =>
      obtain ⟨head, previous⟩ := entry
      simp only [List.keys_cons, List.mem_cons, not_or] at absent
      rw [List.cons_append]
      by_cases hother : other = head
      · subst hother
        simp [Ne.symm absent.1]
      · rw [List.dlookup_cons_ne _ _ hother, List.dlookup_cons_ne _ _ hother, ih absent.2]

@[simp] theorem lookup_set (dict : Dict κ ν) (key other : κ) (value : ν) :
    (set dict key value).lookup other =
      if other = key then some value else dict.lookup other := by
  unfold set
  split
  · rename_i present
    exact dlookup_kreplace key other value dict.entries present
  · rename_i absent
    exact dlookup_append_new key other value dict.entries absent

@[simp] theorem lookup_set_self (dict : Dict κ ν) (key : κ) (value : ν) :
    (set dict key value).lookup key = some value := by
  simp

@[simp] theorem lookup_set_ne (dict : Dict κ ν) {key other : κ} (value : ν)
    (different : other ≠ key) :
    (set dict key value).lookup other = dict.lookup other := by
  simp [different]

theorem lookup_set_comm (dict : Dict κ ν) {key key' : κ} (value value' : ν)
    (different : key ≠ key') (other : κ) :
    (set (set dict key value) key' value').lookup other =
      (set (set dict key' value') key value).lookup other := by
  simp only [lookup_set]
  by_cases hother : other = key
  · subst hother
    simp [different]
  · simp [hother]

@[simp] theorem lookup_erase (dict : Dict κ ν) (key other : κ) :
    (AList.erase key dict).lookup other =
      if other = key then none else dict.lookup other := by
  by_cases hother : other = key
  · subst hother; simp
  · simp [hother, AList.lookup_erase_ne hother]

theorem mem_iff_lookup {dict : Dict κ ν} {key : κ} :
    key ∈ dict ↔ ∃ value, dict.lookup key = some value := by
  rw [← AList.lookup_isSome, Option.isSome_iff_exists]

theorem mem_of_lookup {dict : Dict κ ν} {key : κ} {value : ν}
    (found : dict.lookup key = some value) : key ∈ dict :=
  mem_iff_lookup.2 ⟨value, found⟩

@[simp] theorem mem_set (dict : Dict κ ν) (key other : κ) (value : ν) :
    other ∈ set dict key value ↔ other = key ∨ other ∈ dict := by
  simp only [mem_iff_lookup, lookup_set]
  by_cases hother : other = key <;> simp [hother]

theorem lookup_of_mem_entries {dict : Dict κ ν} {entry : Σ _ : κ, ν}
    (listed : entry ∈ dict.entries) : dict.lookup entry.1 = some entry.2 :=
  List.mem_dlookup dict.nodupKeys listed

@[simp] theorem foldl_set_entries (dict : Dict κ ν) :
    dict.entries.foldl (fun built entry => built.set entry.1 entry.2) ∅ = dict := by
  have hbuilt (entries : List (Σ _ : κ, ν)) : ∀ built : Dict κ ν,
      (built.entries ++ entries : List (Σ _ : κ, ν)).NodupKeys →
      (entries.foldl (fun built entry => built.set entry.1 entry.2) built).entries =
        built.entries ++ entries := by
    induction entries with
    | nil => simp
    | cons entry rest ih =>
        intro built hkeys
        have hnew : entry.1 ∉ built := by
          intro hmem
          rw [List.NodupKeys, List.keys, List.map_append, List.nodup_append] at hkeys
          exact hkeys.2.2 entry.1 hmem entry.1 (by simp) rfl
        have hset : (built.set entry.1 entry.2).entries = built.entries ++ [entry] := by
          unfold set
          rw [dif_neg hnew]
        rw [List.foldl_cons, ih _ (by rw [hset]; simpa using hkeys), hset, List.append_assoc]
        rfl
  exact AList.ext ((hbuilt dict.entries ∅ dict.nodupKeys).trans (List.nil_append _))

def All (dict : Dict κ ν) (holds : κ → ν → Prop) : Prop :=
  ∀ key value, dict.lookup key = some value → holds key value

instance (dict : Dict κ ν) (holds : κ → ν → Prop) [∀ key value, Decidable (holds key value)] :
    Decidable (dict.All holds) :=
  decidable_of_iff (∀ entry ∈ dict.entries, holds entry.1 entry.2)
    ⟨fun h _ _ hfound => h _ (AList.mem_lookup_iff.mp hfound),
      fun h _ hentry => h _ _ (lookup_of_mem_entries hentry)⟩

theorem All.set {dict : Dict κ ν} {holds : κ → ν → Prop} (all : All dict holds)
    {key : κ} {value : ν} (new : holds key value) : All (dict.set key value) holds := by
  intro other found hfound
  rw [lookup_set] at hfound
  split at hfound
  · rename_i hother
    cases hfound
    exact hother ▸ new
  · exact all other found hfound

theorem All.erase {dict : Dict κ ν} {holds : κ → ν → Prop} (all : All dict holds)
    (key : κ) : All (AList.erase key dict) holds := by
  intro other found hfound
  rw [lookup_erase] at hfound
  split at hfound
  · cases hfound
  · exact all other found hfound

theorem all_empty (holds : κ → ν → Prop) : All (∅ : Dict κ ν) holds := by
  intro key value hfound
  simp at hfound

def eraseAll (dict : Dict κ ν) (keys : List κ) : Dict κ ν :=
  keys.foldl (fun dict key => AList.erase key dict) dict

@[simp] theorem eraseAll_nil (dict : Dict κ ν) : dict.eraseAll [] = dict := rfl

@[simp] theorem eraseAll_concat (dict : Dict κ ν) (keys : List κ) (key : κ) :
    dict.eraseAll (keys ++ [key]) = AList.erase key (dict.eraseAll keys) := by
  unfold eraseAll
  rw [List.foldl_append]
  rfl

theorem eraseAll_perm (dict : Dict κ ν) {keys keys' : List κ} (h : keys.Perm keys') :
    dict.eraseAll keys = dict.eraseAll keys' := by
  exact h.foldl_eq' (fun first _ second _ dict => AList.erase_erase first second dict) dict

theorem mem_eraseAll (dict : Dict κ ν) (keys : List κ) (key : κ) :
    key ∈ dict.eraseAll keys ↔ key ∉ keys ∧ key ∈ dict := by
  induction keys generalizing dict with
  | nil => simp
  | cons first rest ih =>
      have hstep : eraseAll dict (first :: rest) =
          eraseAll (AList.erase first dict) rest := rfl
      rw [hstep, ih, AList.mem_erase]
      simp only [List.mem_cons, not_or]
      tauto

end Dict

end WgBp.Library
