import Mathlib.Logic.Function.Basic
import Mathlib.Data.List.Basic

/-! Texts for values, as a sender and a receiver see them, and the self-delimiting codes
such texts are put together from. -/
namespace WgBp.Library

variable {β μ α γ : Type}

/-- A message is read back from its text, and from no beginning of its text. -/
structure Codec (β μ : Type) where
  encode : μ → List β
  decode : List β → Option μ
  decode_encode : ∀ msg, decode (encode msg) = some msg
  decode_cut : ∀ msg size, size < (encode msg).length → decode ((encode msg).take size) = none

theorem Codec.decode_take (codec : Codec β μ) (msg : μ) (size : Nat) :
    codec.decode ((codec.encode msg).take size) =
      if (codec.encode msg).length ≤ size then some msg else none := by
  split
  · rename_i hfits
    rw [List.take_of_length_le hfits, codec.decode_encode]
  · rename_i hcut
    exact codec.decode_cut msg size (by omega)

/-- The end of the text of a value is known from the text. -/
structure Code (β α : Type) where
  print : α → List β
  delimited : ∀ {left right : α} {afterLeft afterRight : List β},
    print left ++ afterLeft = print right ++ afterRight → left = right ∧ afterLeft = afterRight

namespace Code

/-- No text of the code begins like the given text, or the other way round. -/
def Avoids (code : Code β α) (text : List β) : Prop :=
  ∀ a s t, code.print a ++ s ≠ text ++ t

def Apart (left : Code β α) (right : Code β γ) : Prop :=
  ∀ c, left.Avoids (right.print c)

def ofParse (print : α → List β) (parse : List β → Option (α × List β))
    (parses : ∀ a rest, parse (print a ++ rest) = some (a, rest)) : Code β α where
  print := print
  delimited := by
    intro left right afterLeft afterRight h
    have hparse := parses left afterLeft
    rw [h, parses right afterRight] at hparse
    cases hparse
    exact ⟨rfl, rfl⟩

def unit : Code β Unit where
  print _ := []
  delimited h := ⟨rfl, h⟩

def lead (code : Code β α) (text : List β) : Code β α where
  print a := text ++ code.print a
  delimited := by
    intro left right afterLeft afterRight h
    rw [List.append_assoc, List.append_assoc, List.append_cancel_left_eq] at h
    exact code.delimited h

def trail (code : Code β α) (text : List β) : Code β α where
  print a := code.print a ++ text
  delimited := by
    intro left right afterLeft afterRight h
    rw [List.append_assoc, List.append_assoc] at h
    obtain ⟨hvalue, hrest⟩ := code.delimited h
    exact ⟨hvalue, List.append_cancel_left hrest⟩

def pair (first : Code β α) (second : Code β γ) : Code β (α × γ) where
  print value := first.print value.1 ++ second.print value.2
  delimited := by
    intro left right afterLeft afterRight h
    rw [List.append_assoc, List.append_assoc] at h
    obtain ⟨hfirst, hrest⟩ := first.delimited h
    obtain ⟨hsecond, hafter⟩ := second.delimited hrest
    exact ⟨Prod.ext hfirst hsecond, hafter⟩

def view (code : Code β α) (part : γ → α) (injective : Function.Injective part) : Code β γ where
  print value := code.print (part value)
  delimited := by
    intro left right afterLeft afterRight h
    obtain ⟨hpart, hafter⟩ := code.delimited h
    exact ⟨injective hpart, hafter⟩

def sum (left : Code β α) (right : Code β γ) (apart : left.Apart right) :
    Code β (α ⊕ γ) where
  print value := value.elim left.print right.print
  delimited := by
    intro value other afterValue afterOther h
    cases value with
    | inl a =>
        cases other with
        | inl b =>
            obtain ⟨hvalue, hafter⟩ := left.delimited h
            exact ⟨congrArg Sum.inl hvalue, hafter⟩
        | inr c => exact (apart c a _ _ h).elim
    | inr c =>
        cases other with
        | inl a => exact (apart c a _ _ h.symm).elim
        | inr d =>
            obtain ⟨hvalue, hafter⟩ := right.delimited h
            exact ⟨congrArg Sum.inr hvalue, hafter⟩

/-- Any number of items, up to a fixed text that no item can be taken for. -/
def many (item : Code β α) (stop : List β) (avoids : item.Avoids stop) : Code β (List α) where
  print items := items.flatMap item.print ++ stop
  delimited := by
    intro items others afterItems afterOthers h
    induction items generalizing others with
    | nil =>
        cases others with
        | nil => exact ⟨rfl, List.append_cancel_left h⟩
        | cons other rest =>
            rw [List.flatMap_nil, List.flatMap_cons, List.nil_append, List.append_assoc,
              List.append_assoc] at h
            exact (avoids _ _ _ h.symm).elim
    | cons first rest ih =>
        cases others with
        | nil =>
            rw [List.flatMap_nil, List.flatMap_cons, List.nil_append, List.append_assoc,
              List.append_assoc] at h
            exact (avoids _ _ _ h).elim
        | cons other others =>
            rw [List.flatMap_cons, List.flatMap_cons, List.append_assoc, List.append_assoc,
              List.append_assoc, List.append_assoc] at h
            obtain ⟨hfirst, hrest⟩ := item.delimited h
            rw [← List.append_assoc, ← List.append_assoc] at hrest
            obtain ⟨hitems, hafter⟩ := ih hrest
            exact ⟨congrArg₂ List.cons hfirst hitems, hafter⟩

theorem append_ne_append {text other : List β} (apart : ¬text <+: other ∧ ¬other <+: text)
    (s t : List β) : text ++ s ≠ other ++ t := by
  intro h
  have hother : other <+: text ++ s := h ▸ List.prefix_append other t
  obtain hprefix | hprefix := List.prefix_or_prefix_of_prefix (List.prefix_append text s) hother
  · exact apart.1 hprefix
  · exact apart.2 hprefix

theorem lead_avoids (code : Code β α) {text other : List β}
    (apart : ¬text <+: other ∧ ¬other <+: text) : (code.lead text).Avoids other := by
  intro a s t h
  exact append_ne_append apart _ t ((List.append_assoc ..).symm.trans h)

theorem lead_apart (left : Code β α) (right : Code β γ) {text other : List β}
    (apart : ¬text <+: other ∧ ¬other <+: text) :
    (left.lead text).Apart (right.lead other) := by
  intro c a s t h
  change (text ++ left.print a) ++ s = (other ++ right.print c) ++ t at h
  rw [List.append_assoc, List.append_assoc] at h
  exact append_ne_append apart _ _ h

theorem apart_view {left : Code β α} {right : Code β γ} (apart : left.Apart right) {δ : Type}
    (part : δ → γ) (injective : Function.Injective part) :
    left.Apart (right.view part injective) := fun value => apart (part value)

theorem apart_sum {left : Code β α} {first : Code β γ} {δ : Type} {second : Code β δ}
    (hfirst : left.Apart first) (hsecond : left.Apart second) (apart : first.Apart second) :
    left.Apart (first.sum second apart) := by
  intro value
  cases value with
  | inl a => exact hfirst a
  | inr b => exact hsecond b

def uncons : List α → Unit ⊕ (α × List α)
  | [] => .inl ()
  | first :: rest => .inr (first, rest)

theorem uncons_injective : Function.Injective (uncons : List α → Unit ⊕ (α × List α)) := by
  intro items others h
  cases items with
  | nil =>
      cases others with
      | nil => rfl
      | cons other others => cases h
  | cons first rest =>
      cases others with
      | nil => cases h
      | cons other others =>
          cases h
          rfl

def separated (item : Code β α) (separator stop : List β) (avoids : item.Avoids stop)
    (apart : ¬separator <+: stop ∧ ¬stop <+: separator) : Code β (List α) :=
  let items := item.pair ((item.lead separator).many stop (lead_avoids item apart))
  ((unit.lead stop).sum items fun c _ s t h => avoids c.1 _ s (by
    change (stop ++ []) ++ s = (item.print c.1 ++ _) ++ t at h
    rw [List.append_nil, List.append_assoc] at h
    exact h.symm)).view uncons uncons_injective

end Code

noncomputable def Code.codec (code : Code β α) : Codec β α where
  encode := code.print
  decode text := open Classical in
    if h : ∃ value, code.print value = text then some h.choose else none
  decode_encode value := by
    have hprinted : ∃ other, code.print other = code.print value := ⟨value, rfl⟩
    rw [dif_pos hprinted]
    have hchosen : code.print hprinted.choose ++ [] = code.print value ++ [] :=
      congrArg (· ++ []) hprinted.choose_spec
    rw [(code.delimited hchosen).1]
  decode_cut value size hsize := by
    rw [dif_neg]
    rintro ⟨other, hother⟩
    have htext : code.print other ++ (code.print value).drop size = code.print value ++ [] := by
      rw [hother, List.take_append_drop, List.append_nil]
    have hlength := congrArg List.length (code.delimited htext).2
    rw [List.length_drop, List.length_nil] at hlength
    omega

end WgBp.Library
