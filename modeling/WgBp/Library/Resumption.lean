import WgBp.Library.Procedure
import Mathlib.Logic.Relation

/-! Programs that act on a shared state through single operations, and that
other programs may interrupt between any two of them. Run at once a program is a
procedure; run operation by operation it is what a scheduler advances. -/
namespace WgBp.Library

inductive Resumption (Op : Type) (Answer : Op → Type) (ε α : Type) where
  | done (value : α)
  | raise (error : ε)
  | call (op : Op) (next : Answer op → Resumption Op Answer ε α)

namespace Resumption

variable {Op : Type} {Answer : Op → Type} {ε σ α β γ : Type}

protected def bind : Resumption Op Answer ε α → (α → Resumption Op Answer ε β) →
    Resumption Op Answer ε β
  | .done value, rest => rest value
  | .raise error, _ => .raise error
  | .call op next, rest => .call op fun answer => (next answer).bind rest

instance : Monad (Resumption Op Answer ε) where
  pure := .done
  bind := .bind

def perform (op : Op) : Resumption Op Answer ε (Answer op) := .call op .done

@[simp] theorem pure_eq (value : α) :
    (pure value : Resumption Op Answer ε α) = .done value := rfl

@[simp] theorem done_bind (value : α) (rest : α → Resumption Op Answer ε β) :
    (.done value : Resumption Op Answer ε α) >>= rest = rest value := rfl

@[simp] theorem raise_bind (error : ε) (rest : α → Resumption Op Answer ε β) :
    (.raise error : Resumption Op Answer ε α) >>= rest = .raise error := rfl

@[simp] theorem call_bind (op : Op) (next : Answer op → Resumption Op Answer ε α)
    (rest : α → Resumption Op Answer ε β) :
    .call op next >>= rest = .call op fun answer => next answer >>= rest := rfl

@[simp] theorem perform_bind (op : Op) (rest : Answer op → Resumption Op Answer ε β) :
    (perform op >>= rest : Resumption Op Answer ε β) = .call op rest := rfl

def run (handle : (op : Op) → EStateM ε σ (Answer op)) :
    Resumption Op Answer ε α → EStateM ε σ α
  | .done value => pure value
  | .raise error => throw error
  | .call op next => handle op >>= fun answer => run handle (next answer)

def advance (handle : (op : Op) → EStateM ε σ (Answer op)) :
    Resumption Op Answer ε α → σ → Option (Resumption Op Answer ε α × σ)
  | .call op next, state =>
    match (handle op).run state with
    | .ok answer after => some (next answer, after)
    | .error error after => some (.raise error, after)
  | _, _ => none

def ofResult : EStateM.Result ε σ α → Resumption Op Answer ε α × σ
  | .ok value state => (.done value, state)
  | .error error state => (.raise error, state)

/-- Operation by operation, a program that nothing interrupts ends as when it is
run at once. -/
theorem uninterrupted (handle : (op : Op) → EStateM ε σ (Answer op))
    (program : Resumption Op Answer ε α) (state : σ) :
    Relation.ReflTransGen (fun before after => advance handle before.1 before.2 = some after)
      (program, state) (ofResult ((program.run handle).run state)) := by
  induction program generalizing state with
  | done value => exact .refl
  | raise error => exact .refl
  | call op next ih =>
      cases hop : (handle op).run state with
      | ok answer after =>
          have hrun : ((call op next).run handle).run state =
              ((next answer).run handle).run after := by
            rw [run, EStateM.run_bind, hop]
          rw [hrun]
          refine .head ?_ (ih answer after)
          simp only [advance, hop]
      | error error after =>
          have hrun : ((call op next).run handle).run state = .error error after := by
            rw [run, EStateM.run_bind, hop]
          rw [hrun]
          refine .single ?_
          simp only [advance, hop, ofResult]

@[simp] theorem run_perform (handle : (op : Op) → EStateM ε σ (Answer op)) (op : Op) :
    (perform op).run handle = handle op := bind_pure (handle op)

@[simp] theorem run_bind (handle : (op : Op) → EStateM ε σ (Answer op))
    (program : Resumption Op Answer ε α) (rest : α → Resumption Op Answer ε β) :
    (program >>= rest).run handle =
      program.run handle >>= fun value => (rest value).run handle := by
  induction program with
  | done value => rfl
  | raise error => rfl
  | call op next ih =>
      rw [call_bind, run, run, bind_assoc]
      exact congrArg (handle op >>= ·) (funext ih)

/-- A monitor follows the operations of a program and their answers. -/
structure Monitor (Op : Type) (Answer : Op → Type) (γ : Type) where
  allowed : γ → Op → Prop
  after : γ → (op : Op) → Answer op → γ

def Obeys (monitor : Monitor Op Answer γ) (goal : γ → α → Prop) :
    γ → Resumption Op Answer ε α → Prop
  | ghost, .done value => goal ghost value
  | _, .raise _ => True
  | ghost, .call op next =>
    monitor.allowed ghost op ∧
      ∀ answer, Obeys monitor goal (monitor.after ghost op answer) (next answer)

variable {monitor : Monitor Op Answer γ} {goal : γ → β → Prop} {ghost : γ}

theorem Obeys.bind {program : Resumption Op Answer ε α} {rest : α → Resumption Op Answer ε β}
    (h : Obeys monitor (fun ghost value => Obeys monitor goal ghost (rest value)) ghost program) :
    Obeys monitor goal ghost (program >>= rest) := by
  induction program generalizing ghost with
  | done value => exact h
  | raise error => trivial
  | call op next ih => exact ⟨h.1, fun answer => ih answer (h.2 answer)⟩

theorem Obeys.mono {goal goal' : γ → α → Prop} {program : Resumption Op Answer ε α}
    (h : Obeys monitor goal ghost program)
    (hle : ∀ ghost value, goal ghost value → goal' ghost value) :
    Obeys monitor goal' ghost program := by
  induction program generalizing ghost with
  | done value => exact hle _ _ h
  | raise error => trivial
  | call op next ih => exact ⟨h.1, fun answer => ih answer (h.2 answer)⟩

theorem Obeys.foldlM {inv : γ → β → Prop} {body : β → α → Resumption Op Answer ε β}
    (items : List α) (hbody : ∀ ghost value item, inv ghost value →
      Obeys monitor inv ghost (body value item)) {value : β} (start : inv ghost value) :
    Obeys monitor inv ghost (items.foldlM body value) := by
  induction items generalizing ghost value with
  | nil => exact start
  | cons item rest ih =>
      rw [List.foldlM_cons]
      exact ((hbody ghost value item start).mono fun _ _ h => ih h).bind

theorem Obeys.keeps {goal : γ → α → Prop} {program : Resumption Op Answer ε α}
    (h : Obeys monitor goal ghost program) {handle : (op : Op) → EStateM ε σ (Answer op)}
    {inv : σ → Prop}
    (kept : ∀ ghost op, monitor.allowed ghost op → Procedure.Keeps inv (handle op)) :
    Procedure.Keeps inv (program.run handle) := by
  induction program generalizing ghost with
  | done value => exact Procedure.Keeps.pure inv value
  | raise error => exact Procedure.Keeps.throw inv error
  | call op next ih =>
      exact Procedure.Keeps.bind (kept ghost op h.1) fun answer => ih answer (h.2 answer)

variable {τ : Type} {rel : σ → τ → Prop} {allowed : Op → Prop}
  {promise : (op : Op) → Answer op → Prop}

inductive Agree (rel : σ → τ → Prop) (promised : α → Prop) :
    EStateM.Result ε σ α → EStateM.Result ε τ α → Prop where
  | ok {value : α} {state : σ} {other : τ} (kept : promised value) (related : rel state other) :
    Agree rel promised (.ok value state) (.ok value other)
  | error {error : ε} {state : σ} {other : τ} (related : rel state other) :
    Agree rel promised (.error error state) (.error error other)

/-- The ghost is that all answers so far were as promised; as long as they are, every
operation is an allowed one. -/
def relying (allowed : Op → Prop) (promise : (op : Op) → Answer op → Prop) :
    Monitor Op Answer Prop where
  allowed sofar op := sofar → allowed op
  after sofar op answer := sofar ∧ promise op answer

def Relies (allowed : Op → Prop) (promise : (op : Op) → Answer op → Prop)
    (program : Resumption Op Answer ε α) : Prop :=
  ∃ sofar : Prop, sofar ∧ Obeys (relying allowed promise) (fun _ _ => True) sofar program

/-- Where the operations agree, each step over one state is a step over the other. -/
theorem Relies.advance {handle : (op : Op) → EStateM ε σ (Answer op)}
    {handle' : (op : Op) → EStateM ε τ (Answer op)}
    (agree : ∀ op state other, allowed op → rel state other →
      Agree rel (promise op) ((handle op).run state) ((handle' op).run other))
    {program after : Resumption Op Answer ε α} (relies : Relies allowed promise program)
    {state : σ} {other moved : τ} (related : rel state other)
    (step : Resumption.advance handle' program other = some (after, moved)) :
    ∃ followed, Resumption.advance handle program state = some (after, followed) ∧
      rel followed moved ∧ Relies allowed promise after := by
  obtain ⟨sofar, hsofar, hobeys⟩ := relies
  cases program with
  | done value => cases step
  | raise error => cases step
  | call op next =>
      have hagree := agree op state other (hobeys.1 hsofar) related
      unfold Resumption.advance at step ⊢
      dsimp only at step ⊢
      generalize (handle op).run state = first at hagree ⊢
      generalize (handle' op).run other = second at hagree step
      cases hagree with
      | @ok value followed last kept hrelated =>
          cases step
          exact ⟨followed, rfl, hrelated, sofar ∧ promise op value, ⟨hsofar, kept⟩,
            hobeys.2 value⟩
      | @error error followed last hrelated =>
          cases step
          exact ⟨followed, rfl, hrelated, True, trivial, trivial⟩

end Resumption

end WgBp.Library
