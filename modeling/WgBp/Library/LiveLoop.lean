import WgBp.Library.Procedure

/-! Loops over the keys of a mapping that their own body may edit. The iterator goes by
position and gives up when the mapping has another size than at the start; it is asked
once more after the last key. -/
namespace WgBp.Library.LiveLoop

open WgBp.Library.Procedure

variable {ε σ κ : Type}

def iterate (keys : σ → List κ) (changed : ε) (body : κ → EStateM ε σ Unit) (size : Nat) :
    Nat → EStateM ε σ Unit
  | 0 => do if (keys (← get)).length ≠ size then throw changed
  | left + 1 => do
    if (keys (← get)).length ≠ size then throw changed
    match (keys (← get))[size - (left + 1)]? with
    | none => pure ()
    | some key =>
      body key
      iterate keys changed body size left

def forLive (keys : σ → List κ) (changed : ε) (body : κ → EStateM ε σ Unit) :
    EStateM ε σ Unit := do
  let size := (keys (← get)).length
  iterate keys changed body size size

variable (keys : σ → List κ) (changed : ε) (body : κ → EStateM ε σ Unit)

theorem run_iterate_resized {size : Nat} {state : σ} (resized : (keys state).length ≠ size)
    (left : Nat) : (iterate keys changed body size left).run state = .error changed state := by
  cases left with
  | zero => simp [iterate, resized]
  | succ left => simp [iterate, resized]

@[simp] theorem run_iterate_end (state : σ) :
    (iterate keys changed body (keys state).length 0).run state = .ok () state := by
  simp [iterate]

theorem run_iterate_next {state : σ} {done rest : List κ} {key : κ}
    (ahead : keys state = done ++ key :: rest) :
    (iterate keys changed body (keys state).length (rest.length + 1)).run state =
      (body key >>= fun _ => iterate keys changed body (keys state).length rest.length).run
        state := by
  have hposition : (keys state).length - (rest.length + 1) = done.length := by
    rw [ahead, List.length_append, List.length_cons]
    omega
  have hkey : (keys state)[done.length]? = some key := by
    rw [ahead, List.getElem?_append_right le_rfl, Nat.sub_self]
    rfl
  rw [iterate]
  simp only [EStateM.run_bind, EStateM.run_get, ne_eq, not_true_eq_false, if_false, hposition,
    hkey]

end WgBp.Library.LiveLoop
