import WgBp.Library.Codec
import Mathlib.Tactic.IntervalCases

/-! JSON texts of strings, numbers and lists, as `json.dumps` prints them: in ASCII, with
a space after every separator. -/
namespace WgBp.Library.Json

open WgBp.Library

def ascii (text : String) : List UInt8 := text.toList.map Char.toUInt8

def hexDigit (digit : Nat) : UInt8 :=
  if digit < 10 then .ofNat (48 + digit) else .ofNat (87 + digit)

def unhex (byte : UInt8) : Nat := if byte.toNat < 58 then byte.toNat - 48 else byte.toNat - 87

def escapeUnit (unit : Nat) : List UInt8 :=
  [92, 117, hexDigit (unit / 4096), hexDigit (unit / 256 % 16), hexDigit (unit / 16 % 16),
    hexDigit (unit % 16)]

def shorthand (c : Char) : Option UInt8 :=
  if c.toNat = 34 then some 34
  else if c.toNat = 92 then some 92
  else if c.toNat = 10 then some 110
  else if c.toNat = 13 then some 114
  else if c.toNat = 9 then some 116
  else if c.toNat = 8 then some 98
  else if c.toNat = 12 then some 102
  else none

/-- Printable ASCII characters stand for themselves; characters outside the basic plane are
written as two surrogates. -/
def escape (c : Char) : List UInt8 :=
  match shorthand c with
  | some letter => [92, letter]
  | none =>
    if 32 ≤ c.toNat ∧ c.toNat ≤ 126 then [c.toUInt8]
    else if c.toNat < 0x10000 then escapeUnit c.toNat
    else escapeUnit (0xd800 + (c.toNat - 0x10000) / 0x400) ++
      escapeUnit (0xdc00 + (c.toNat - 0x10000) % 0x400)

def unescapeUnit : List UInt8 → Option (Nat × List UInt8)
  | _ :: _ :: first :: second :: third :: fourth :: rest =>
    some (unhex first * 4096 + unhex second * 256 + unhex third * 16 + unhex fourth, rest)
  | _ => none

def longhand (letter : UInt8) : Char :=
  if letter = 110 then Char.ofNat 10
  else if letter = 114 then Char.ofNat 13
  else if letter = 116 then Char.ofNat 9
  else if letter = 98 then Char.ofNat 8
  else if letter = 102 then Char.ofNat 12
  else Char.ofNat letter.toNat

def unescape (text : List UInt8) : Option (Char × List UInt8) :=
  match text with
  | [] => none
  | byte :: rest =>
    if byte = 92 then
      match rest with
      | [] => none
      | letter :: after =>
        if letter = 117 then
          (unescapeUnit text).bind fun (high, after) =>
            if 0xd800 ≤ high ∧ high < 0xdc00 then
              (unescapeUnit after).map fun (low, after) =>
                (Char.ofNat (0x10000 + (high - 0xd800) * 0x400 + (low - 0xdc00)), after)
            else some (Char.ofNat high, after)
        else some (longhand letter, after)
    else some (Char.ofNat byte.toNat, rest)

theorem unhex_hexDigit {digit : Nat} (bound : digit < 16) : unhex (hexDigit digit) = digit := by
  interval_cases digit <;> rfl

theorem unescapeUnit_escapeUnit {unit : Nat} (bound : unit < 0x10000) (rest : List UInt8) :
    unescapeUnit (escapeUnit unit ++ rest) = some (unit, rest) := by
  simp only [escapeUnit, unescapeUnit, List.cons_append, List.nil_append]
  rw [unhex_hexDigit (by omega), unhex_hexDigit (by omega), unhex_hexDigit (by omega),
    unhex_hexDigit (by omega)]
  have hunit : unit / 4096 * 4096 + unit / 256 % 16 * 256 + unit / 16 % 16 * 16 + unit % 16 =
      unit := by omega
  rw [hunit]

theorem unescape_unit {unit : Nat} (bound : unit < 0x10000)
    (single : ¬(0xd800 ≤ unit ∧ unit < 0xdc00)) (rest : List UInt8) :
    unescape (escapeUnit unit ++ rest) = some (Char.ofNat unit, rest) := by
  have hparse := unescapeUnit_escapeUnit bound rest
  unfold escapeUnit at hparse ⊢
  simp only [unescape, List.cons_append, List.nil_append, if_true] at hparse ⊢
  rw [hparse, Option.bind_some, if_neg single]

theorem unescape_surrogates {high low : Nat} (hhigh : 0xd800 ≤ high ∧ high < 0xdc00)
    (hlow : low < 0x10000) (rest : List UInt8) :
    unescape (escapeUnit high ++ escapeUnit low ++ rest) =
      some (Char.ofNat (0x10000 + (high - 0xd800) * 0x400 + (low - 0xdc00)), rest) := by
  have hfirst := unescapeUnit_escapeUnit (show high < 0x10000 by omega) (escapeUnit low ++ rest)
  have hsecond := unescapeUnit_escapeUnit hlow rest
  rw [List.append_assoc]
  generalize escapeUnit low ++ rest = tail at hfirst hsecond ⊢
  unfold escapeUnit at hfirst ⊢
  simp only [unescape, List.cons_append, List.nil_append, if_true] at hfirst ⊢
  rw [hfirst, Option.bind_some, if_pos hhigh, hsecond, Option.map_some]

theorem toNat_toUInt8 {c : Char} (bound : c.toNat < 256) : c.toUInt8.toNat = c.toNat := by
  have hmod : c.toUInt8.toNat = c.toNat % 256 := UInt32.toNat_toUInt8 c.val
  rw [hmod, Nat.mod_eq_of_lt bound]

theorem toUInt8_inj {c d : Char} (hc : c.toNat < 256) (hd : d.toNat < 256)
    (h : c.toUInt8 = d.toUInt8) : c = d := by
  have hnat : c.toNat = d.toNat := by rw [← toNat_toUInt8 hc, h, toNat_toUInt8 hd]
  rw [← Char.ofNat_toNat c, hnat, Char.ofNat_toNat]

theorem unescape_short {c : Char} {letter : UInt8} (short : shorthand c = some letter)
    (rest : List UInt8) : unescape (92 :: letter :: rest) = some (c, rest) := by
  unfold shorthand at short
  rw [← Char.ofNat_toNat c]
  split_ifs at short
  all_goals
    rename_i hc
    cases short
    rw [hc]
    rfl

theorem unescape_plain {c : Char} (long : shorthand c = none) (bound : c.toNat < 256)
    (rest : List UInt8) : unescape (c.toUInt8 :: rest) = some (c, rest) := by
  have hbyte : c.toUInt8 ≠ 92 := by
    intro h
    have hc : c.toNat = 92 := by rw [← toNat_toUInt8 bound, h]; rfl
    simp [shorthand, hc] at long
  simp only [unescape, if_neg hbyte, toNat_toUInt8 bound, Char.ofNat_toNat]

@[simp] theorem unescape_escape (c : Char) (rest : List UInt8) :
    unescape (escape c ++ rest) = some (c, rest) := by
  unfold escape
  cases hshort : shorthand c with
  | some letter => exact unescape_short hshort rest
  | none =>
      dsimp only
      split
      · rename_i hplain
        exact unescape_plain hshort (by omega) rest
      · have hvalid : c.toNat < 0xd800 ∨ 0xdfff < c.toNat ∧ c.toNat < 0x110000 := c.valid
        split
        · rename_i hbasic
          rw [unescape_unit hbasic (by omega), Char.ofNat_toNat]
        · have hvalue : 0x10000 + (0xd800 + (c.toNat - 0x10000) / 0x400 - 0xd800) * 0x400 +
              (0xdc00 + (c.toNat - 0x10000) % 0x400 - 0xdc00) = c.toNat := by omega
          rw [unescape_surrogates (by omega) (by omega), hvalue, Char.ofNat_toNat]

def char : Code UInt8 Char := .ofParse escape unescape unescape_escape

theorem char_avoids_quote : char.Avoids (ascii "\"") := by
  intro c s t h
  have hquote : unescape (ascii "\"" ++ t) = some (Char.ofNat 34, t) := rfl
  have hparse : unescape (ascii "\"" ++ t) = some (c, s) := h ▸ unescape_escape c s
  rw [hquote] at hparse
  cases hparse
  cases h

def string : Code UInt8 String :=
  ((char.many (ascii "\"") char_avoids_quote).view String.toList
    fun _ _ => String.toList_injective).lead (ascii "\"")

theorem isDigit_bounds {c : Char} (digit : c.isDigit) : 48 ≤ c.toNat ∧ c.toNat ≤ 57 :=
  Char.isDigit_iff_toNat.mp digit

def digit : Code UInt8 {c : Char // c.isDigit} where
  print c := [c.val.toUInt8]
  delimited := by
    intro left right afterLeft afterRight h
    obtain ⟨hbyte, hafter⟩ := List.cons_eq_cons.mp h
    have hleft := isDigit_bounds left.property
    have hright := isDigit_bounds right.property
    exact ⟨Subtype.ext (toUInt8_inj (by omega) (by omega) hbyte), hafter⟩

theorem digit_avoids {stop : UInt8} (outside : stop.toNat < 48 ∨ 57 < stop.toNat) :
    digit.Avoids [stop] := by
  intro c s t h
  obtain ⟨hbyte, _⟩ := List.cons_eq_cons.mp h
  have hbounds := isDigit_bounds c.property
  have hnat := toNat_toUInt8 (c := c.val) (by omega)
  rw [hbyte] at hnat
  omega

def digits (number : Nat) : List {c : Char // c.isDigit} :=
  (Nat.toDigits 10 number).attach.map fun c =>
    ⟨c.val, Nat.isDigit_of_mem_toDigits (by decide) (by decide) c.property⟩

theorem digits_injective : Function.Injective digits := by
  intro left right h
  have hval (number : Nat) : (digits number).map Subtype.val = Nat.toDigits 10 number := by
    rw [digits, List.map_map]
    exact List.attach_map_subtype_val _
  have htext : Nat.toDigits 10 left = Nat.toDigits 10 right := by rw [← hval, h, hval]
  rw [← Nat.ofDigitChars_ten_toDigits (n := left), htext, Nat.ofDigitChars_ten_toDigits]

/-- A number is delimited by the byte behind it. -/
def number (stop : UInt8) (outside : stop.toNat < 48 ∨ 57 < stop.toNat) : Code UInt8 Nat :=
  (digit.many [stop] (digit_avoids outside)).view digits digits_injective

theorem number_avoids {stop byte : UInt8} (outside : stop.toNat < 48 ∨ 57 < stop.toNat)
    (other : byte.toNat < 48 ∨ 57 < byte.toNat) (text : List UInt8) :
    (number stop outside).Avoids (byte :: text) := by
  intro n s t h
  have hdigits : digits n ≠ [] := by
    unfold digits
    simp [Nat.toDigits_ne_nil]
  obtain ⟨first, rest, hfirst⟩ := List.exists_cons_of_ne_nil hdigits
  change ((digits n).flatMap digit.print ++ [stop]) ++ s = [byte] ++ (text ++ t) at h
  rw [hfirst, List.flatMap_cons, List.append_assoc, List.append_assoc] at h
  exact digit_avoids other first _ _ h

def list {α : Type} (item : Code UInt8 α) (avoids : item.Avoids (ascii "]")) :
    Code UInt8 (List α) :=
  (item.separated (ascii ", ") (ascii "]") avoids (by decide)).lead (ascii "[")

end WgBp.Library.Json
