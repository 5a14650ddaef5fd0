import WgBp.Library.Dict

/-! Procedures that read and write a state and may raise. The state reached so
far survives an exception, as it does for mutable objects. -/
namespace WgBp.Library.Procedure

variable {ε σ τ α β κ ν : Type}

/-- The state a procedure leaves behind, whether it returned or raised. -/
def final : EStateM.Result ε σ α → σ
  | .ok _ state => state
  | .error _ state => state

def returned : EStateM.Result ε σ α → Bool
  | .ok _ _ => true
  | .error _ _ => false

@[simp] theorem final_ok (value : α) (state : σ) :
    final (.ok value state : EStateM.Result ε σ α) = state := rfl

@[simp] theorem final_error (error : ε) (state : σ) :
    final (.error error state : EStateM.Result ε σ α) = state := rfl

theorem of_returned {result : EStateM.Result ε σ α} (h : returned result = true) :
    ∃ value, result = .ok value (final result) := by
  cases result with
  | ok value state => exact ⟨value, rfl⟩
  | error error state => cases h

def onPart (get : σ → τ) (put : τ → σ → σ) (body : EStateM ε τ α) : EStateM ε σ α :=
  fun whole => match body.run (get whole) with
    | .ok value part => .ok value (put part whole)
    | .error error part => .error error (put part whole)

@[simp] theorem run_onPart (get : σ → τ) (put : τ → σ → σ) (body : EStateM ε τ α) (whole : σ) :
    (onPart get put body).run whole = match body.run (get whole) with
      | .ok value part => .ok value (put part whole)
      | .error error part => .error error (put part whole) := rfl

theorem run_onPart_ok {get : σ → τ} {put : τ → σ → σ} {body : EStateM ε τ α}
    {whole : σ} {value : α} {part : τ} (h : body.run (get whole) = .ok value part) :
    (onPart get put body).run whole = .ok value (put part whole) := by
  rw [run_onPart, h]

theorem onPart_returned {get : σ → τ} {put : τ → σ → σ} {body : EStateM ε τ α}
    {whole after : σ} {value : α} (h : (onPart get put body).run whole = .ok value after) :
    ∃ part, body.run (get whole) = .ok value part ∧ after = put part whole := by
  rw [run_onPart] at h
  cases hrun : body.run (get whole) with
  | ok result part =>
      rw [hrun] at h
      cases h
      exact ⟨part, rfl, rfl⟩
  | error error part =>
      rw [hrun] at h
      cases h

@[simp ↓] theorem final_onPart (get : σ → τ) (put : τ → σ → σ) (body : EStateM ε τ α) (whole : σ) :
    final ((onPart get put body).run whole) = put (final (body.run (get whole))) whole := by
  rw [run_onPart]
  cases body.run (get whole) <;> rfl

theorem bind_returned {first : EStateM ε σ α} {next : α → EStateM ε σ β} {before after : σ}
    {result : β} (h : (first >>= next).run before = .ok result after) :
    ∃ value mid, first.run before = .ok value mid ∧ (next value).run mid = .ok result after := by
  rw [EStateM.run_bind] at h
  cases hrun : first.run before with
  | ok value mid =>
      rw [hrun] at h
      exact ⟨value, mid, rfl, h⟩
  | error error mid =>
      rw [hrun] at h
      cases h

theorem run_tryCatch (body : EStateM ε σ α) (handler : ε → EStateM ε σ α) (state : σ) :
    (tryCatch body handler : EStateM ε σ α).run state = match body.run state with
      | .ok value after => .ok value after
      | .error error after => (handler error).run after := by
  simp only [tryCatch, tryCatchThe, MonadExceptOf.tryCatch, EStateM.tryCatch, EStateM.run]
  cases body state <;> rfl

def getItem [DecidableEq κ] (missing : ε) (dict : Dict κ ν) (key : κ) : EStateM ε σ ν :=
  match dict.lookup key with
  | some value => pure value
  | none => throw missing

@[simp] theorem run_getItem_some [DecidableEq κ] {missing : ε} {dict : Dict κ ν} {key : κ}
    {value : ν} (found : dict.lookup key = some value) (state : σ) :
    (getItem missing dict key).run state = .ok value state := by
  unfold getItem
  rw [found]
  rfl

@[simp] theorem run_getItem_none [DecidableEq κ] {missing : ε} {dict : Dict κ ν} {key : κ}
    (absent : dict.lookup key = none) (state : σ) :
    (getItem missing dict key : EStateM ε σ ν).run state = .error missing state := by
  unfold getItem
  rw [absent]
  rfl

/-- A computation keeps an invariant, also when it raises half-way. -/
def Keeps (inv : σ → Prop) (body : EStateM ε σ α) : Prop :=
  ∀ state, inv state → inv (final (body.run state))

theorem Keeps.returned {inv : σ → Prop} {body : EStateM ε σ α} (keeps : Keeps inv body)
    {before after : σ} {result : α} (start : inv before)
    (returns : body.run before = .ok result after) : inv after := by
  have hfinal := keeps before start
  rwa [returns] at hfinal

theorem Keeps.pure (inv : σ → Prop) (value : α) :
    Keeps inv (pure value : EStateM ε σ α) := fun _ h => h

theorem Keeps.throw (inv : σ → Prop) (error : ε) :
    Keeps inv (throw error : EStateM ε σ α) := fun _ h => h

theorem Keeps.get (inv : σ → Prop) : Keeps inv (get : EStateM ε σ σ) := fun _ h => h

theorem Keeps.modify {inv : σ → Prop} {update : σ → σ}
    (h : ∀ state, inv state → inv (update state)) :
    Keeps inv (modify update : EStateM ε σ PUnit) := h

theorem Keeps.bind {inv : σ → Prop} {first : EStateM ε σ α} {next : α → EStateM ε σ β}
    (hfirst : Keeps inv first) (hnext : ∀ value, Keeps inv (next value)) :
    Keeps inv (first >>= next) := by
  intro state h
  have hmid := hfirst state h
  rw [EStateM.run_bind]
  cases hrun : first.run state with
  | ok value mid =>
      rw [hrun] at hmid
      exact hnext value mid hmid
  | error error mid =>
      rw [hrun] at hmid
      exact hmid

theorem Keeps.getItem [DecidableEq κ] (inv : σ → Prop) (missing : ε) (dict : Dict κ ν)
    (key : κ) : Keeps inv (getItem missing dict key : EStateM ε σ ν) := by
  unfold Procedure.getItem
  cases dict.lookup key with
  | some value => exact Keeps.pure inv value
  | none => exact Keeps.throw inv missing

theorem Keeps.forM {inv : σ → Prop} {body : α → EStateM ε σ PUnit} (items : List α)
    (hbody : ∀ item ∈ items, Keeps inv (body item)) : Keeps inv (forM items body) := by
  induction items with
  | nil => exact Keeps.pure inv _
  | cons item rest ih =>
      rw [List.forM_cons]
      exact Keeps.bind (hbody item (by simp)) fun _ =>
        ih fun other hother => hbody other (by simp [hother])

/-- Loop rule: when every iteration, from a state satisfying the invariant,
returns with a known update and restores the invariant, the loop is the fold of
the updates. -/
theorem run_forM {body : α → EStateM ε σ PUnit} {update : σ → α → σ} (inv : σ → Prop)
    (items : List α)
    (hbody : ∀ item ∈ items, ∀ state, inv state →
      (body item).run state = .ok () (update state item) ∧ inv (update state item))
    (state : σ) (start : inv state) :
    (forM items body).run state = .ok () (items.foldl update state) := by
  induction items generalizing state with
  | nil => rfl
  | cons item rest ih =>
      obtain ⟨hrun, hnext⟩ := hbody item (by simp) state start
      rw [List.forM_cons, EStateM.run_bind, hrun]
      exact ih (fun other hother => hbody other (by simp [hother])) _ hnext

/-- The same for a loop known to return, as far as one view of the state goes. -/
theorem returned_forM {body : α → EStateM ε σ PUnit} (view : σ → τ) {update : τ → α → τ}
    (items : List α)
    (hbody : ∀ item ∈ items, ∀ before after, (body item).run before = .ok () after →
      view after = update (view before) item)
    {before after : σ} (returns : (forM items body).run before = .ok () after) :
    view after = items.foldl update (view before) := by
  induction items generalizing before with
  | nil =>
      cases returns
      rfl
  | cons item rest ih =>
      rw [List.forM_cons] at returns
      obtain ⟨_, mid, hfirst, hrest⟩ := bind_returned returns
      rw [List.foldl_cons, ← hbody item (by simp) before mid hfirst]
      exact ih (fun other hother => hbody other (by simp [hother])) hrest

theorem run_forM_stays {body : α → EStateM ε σ PUnit} {state : σ} (items : List α)
    (stays : ∀ item ∈ items, (body item).run state = .ok () state) :
    (forM items body).run state = .ok () state := by
  induction items with
  | nil => rfl
  | cons item rest ih =>
      rw [List.forM_cons, EStateM.run_bind, stays item (by simp)]
      exact ih fun other hother => stays other (by simp [hother])

end WgBp.Library.Procedure
