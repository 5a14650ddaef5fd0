import WgBp.Library.Json
import WgBp.Library.Dict

/-! JSON values, the texts `json.dumps` prints for them, and a reader of such texts. -/
namespace WgBp.Library.Json

open WgBp.Library

/-- What the standard library calls `None`, `int`, `str`, `list` and `dict`. -/
inductive Value where
  | null
  | number (value : Int)
  | text (value : String)
  | list (items : List Value)
  | object (entries : List (String × Value))

/-- Item access on a dict; a key that is given twice holds its last value. -/
def Value.get (key : String) : Value → Option Value
  | .object entries => entries.reverse.lookup key
  | _ => none

def Value.asText : Value → Option String
  | .text value => some value
  | _ => none

def Value.asNat : Value → Option Nat
  | .number (.ofNat value) => some value
  | _ => none

def Value.asTexts : Value → Option (List String)
  | .list items => items.mapM Value.asText
  | _ => none

@[simp] theorem asTexts_texts (texts : List String) :
    (Value.list (texts.map .text)).asTexts = some texts := by
  induction texts with
  | nil => rfl
  | cons text rest ih =>
      simp only [Value.asTexts] at ih ⊢
      simp [Value.asText, ih]

def dumpsString (value : String) : List UInt8 := 34 :: (value.toList.flatMap escape ++ [34])

def dumpsNat (value : Nat) : List UInt8 := (Nat.toDigits 10 value).map Char.toUInt8

def dumpsInt : Int → List UInt8
  | .ofNat value => dumpsNat value
  | .negSucc value => 45 :: dumpsNat (value + 1)

mutual

def dumps : Value → List UInt8
  | .null => ascii "null"
  | .number value => dumpsInt value
  | .text value => dumpsString value
  | .list [] => ascii "[]"
  | .list (first :: rest) => 91 :: (dumps first ++ dumpsItems rest)
  | .object [] => ascii "\x7b\x7d"
  | .object ((key, first) :: rest) =>
    123 :: (dumpsString key ++ (ascii ": " ++ (dumps first ++ dumpsEntries rest)))

def dumpsItems : List Value → List UInt8
  | [] => [93]
  | item :: rest => ascii ", " ++ (dumps item ++ dumpsItems rest)

def dumpsEntries : List (String × Value) → List UInt8
  | [] => [125]
  | (key, value) :: rest =>
    ascii ", " ++ (dumpsString key ++ (ascii ": " ++ (dumps value ++ dumpsEntries rest)))

end

def expect : List UInt8 → List UInt8 → Option (List UInt8)
  | [], text => some text
  | byte :: expected, first :: text => if byte = first then expect expected text else none
  | _ :: _, [] => none

def readChars : Nat → List UInt8 → Option (List Char × List UInt8)
  | 0, _ => none
  | _ + 1, [] => none
  | fuel + 1, byte :: rest =>
    if byte = 34 then some ([], rest)
    else (unescape (byte :: rest)).bind fun (c, after) =>
      (readChars fuel after).map fun (cs, last) => (c :: cs, last)

def readString (text : List UInt8) : Option (String × List UInt8) :=
  (expect [34] text).bind fun rest =>
    (readChars rest.length rest).map fun (cs, after) => (String.ofList cs, after)

def isDigit (byte : UInt8) : Bool := 48 ≤ byte.toNat && byte.toNat ≤ 57

def readNat (text : List UInt8) : Option (Nat × List UInt8) :=
  match text.takeWhile isDigit with
  | [] => none
  | digits => some (Nat.ofDigitChars 10 (digits.map fun byte => Char.ofNat byte.toNat) 0,
      text.dropWhile isDigit)

mutual

/-- `fuel` bounds the depth and the length of what is read. -/
def read : Nat → List UInt8 → Option (Value × List UInt8)
  | 0, _ => none
  | _ + 1, [] => none
  | fuel + 1, byte :: rest =>
    if byte = 34 then (readString (byte :: rest)).map fun (value, after) => (.text value, after)
    else if byte = 91 then
      if rest.head? = some 93 then some (.list [], rest.tail)
      else (read fuel rest).bind fun (first, after) =>
        (readItems fuel after).map fun (items, last) => (.list (first :: items), last)
    else if byte = 123 then
      if rest.head? = some 125 then some (.object [], rest.tail)
      else (readString rest).bind fun (key, after) =>
        (expect (ascii ": ") after).bind fun after =>
          (read fuel after).bind fun (first, after) =>
            (readEntries fuel after).map fun (entries, last) =>
              (.object ((key, first) :: entries), last)
    else if byte = 110 then (expect (ascii "ull") rest).map fun after => (.null, after)
    else if byte = 45 then (readNat rest).map fun (value, after) => (.number (-value), after)
    else (readNat (byte :: rest)).map fun (value, after) => (.number value, after)

def readItems : Nat → List UInt8 → Option (List Value × List UInt8)
  | 0, _ => none
  | fuel + 1, text =>
    if text.head? = some 93 then some ([], text.tail)
    else (expect (ascii ", ") text).bind fun after =>
      (read fuel after).bind fun (item, after) =>
        (readItems fuel after).map fun (items, last) => (item :: items, last)

def readEntries : Nat → List UInt8 → Option (List (String × Value) × List UInt8)
  | 0, _ => none
  | fuel + 1, text =>
    if text.head? = some 125 then some ([], text.tail)
    else (expect (ascii ", ") text).bind fun after =>
      (readString after).bind fun (key, after) =>
        (expect (ascii ": ") after).bind fun after =>
          (read fuel after).bind fun (value, after) =>
            (readEntries fuel after).map fun (entries, last) => ((key, value) :: entries, last)

end

/-- `json.loads`, as far as the texts of `json.dumps` go. -/
def loads (text : List UInt8) : Option Value :=
  match read text.length text with
  | some (value, []) => some value
  | _ => none

@[simp] theorem expect_append (expected text : List UInt8) :
    expect expected (expected ++ text) = some text := by
  induction expected with
  | nil => rfl
  | cons byte rest ih => simp [expect, ih]

theorem escape_head (c : Char) : ∃ byte rest, escape c = byte :: rest ∧ byte ≠ 34 := by
  have hparse := unescape_escape c []
  cases hescape : escape c with
  | nil =>
      rw [hescape] at hparse
      cases hparse
  | cons byte rest =>
      refine ⟨byte, rest, rfl, ?_⟩
      rintro rfl
      exact char_avoids_quote c [] rest (by
        change escape c ++ [] = ascii "\"" ++ rest
        rw [hescape, List.append_nil]
        rfl)

theorem readChars_escape (cs : List Char) (rest : List UInt8) (fuel : Nat)
    (enough : cs.length < fuel) :
    readChars fuel (cs.flatMap escape ++ 34 :: rest) = some (cs, rest) := by
  induction cs generalizing fuel with
  | nil =>
      obtain ⟨fuel, rfl⟩ := Nat.exists_eq_succ_of_ne_zero (Nat.ne_of_gt enough)
      rfl
  | cons c cs ih =>
      obtain ⟨fuel, rfl⟩ := Nat.exists_eq_succ_of_ne_zero (Nat.ne_of_gt (Nat.zero_lt_of_lt enough))
      have hparse := unescape_escape c (cs.flatMap escape ++ 34 :: rest)
      obtain ⟨byte, tail, hescape, hquote⟩ := escape_head c
      rw [List.flatMap_cons, List.append_assoc]
      rw [hescape, List.cons_append] at hparse ⊢
      have hcs := ih fuel (by simpa using enough)
      simp only [readChars, if_neg hquote, hparse, Option.bind_some, hcs, Option.map_some]

theorem length_le_escape (cs : List Char) : cs.length ≤ (cs.flatMap escape).length := by
  induction cs with
  | nil => simp
  | cons c cs ih =>
      obtain ⟨byte, tail, hescape, -⟩ := escape_head c
      simp only [List.length_cons, List.flatMap_cons, List.length_append, hescape]
      omega

@[simp] theorem readString_dumps (value : String) (rest : List UInt8) :
    readString (dumpsString value ++ rest) = some (value, rest) := by
  have hlength := length_le_escape value.toList
  have hchars := readChars_escape value.toList rest
    (value.toList.flatMap escape ++ 34 :: rest).length (by
      rw [List.length_append, List.length_cons]
      omega)
  have htext : dumpsString value ++ rest = [34] ++ (value.toList.flatMap escape ++ 34 :: rest) := by
    simp [dumpsString]
  rw [htext, readString, expect_append, Option.bind_some, hchars, Option.map_some]
  simp

def Stops (rest : List UInt8) : Prop := ∀ byte after, rest = byte :: after → isDigit byte = false

theorem stops_nil : Stops [] := by
  intro byte after h
  cases h

theorem stops_cons {byte : UInt8} (outside : isDigit byte = false) (rest : List UInt8) :
    Stops (byte :: rest) := by
  intro first after h
  cases h
  exact outside

theorem Stops.takeWhile {rest : List UInt8} (stops : Stops rest) :
    rest.takeWhile isDigit = [] ∧ rest.dropWhile isDigit = rest := by
  cases rest with
  | nil => exact ⟨rfl, rfl⟩
  | cons byte after => simp [stops byte after rfl]

theorem digit_toUInt8 {c : Char} (digit : c.isDigit) :
    isDigit c.toUInt8 = true ∧ Char.ofNat c.toUInt8.toNat = c := by
  have hbounds := isDigit_bounds digit
  have hnat : c.toUInt8.toNat = c.toNat := toNat_toUInt8 (by omega)
  exact ⟨by simp [isDigit, hnat, hbounds], by rw [hnat, Char.ofNat_toNat]⟩

theorem dumpsNat_digits (value : Nat) : ∀ byte ∈ dumpsNat value, isDigit byte = true := by
  intro byte hbyte
  obtain ⟨c, hc, rfl⟩ := List.mem_map.mp hbyte
  exact (digit_toUInt8 (Nat.isDigit_of_mem_toDigits (by decide) (by decide) hc)).1

theorem dumpsNat_head (value : Nat) :
    ∃ byte rest, dumpsNat value = byte :: rest ∧ isDigit byte = true := by
  cases htext : dumpsNat value with
  | nil => simp [dumpsNat, Nat.toDigits_ne_nil] at htext
  | cons byte rest => exact ⟨byte, rest, rfl, dumpsNat_digits value byte (by simp [htext])⟩

@[simp] theorem readNat_dumps (value : Nat) {rest : List UInt8} (stops : Stops rest) :
    readNat (dumpsNat value ++ rest) = some (value, rest) := by
  have hdigits := dumpsNat_digits value
  have htake : (dumpsNat value ++ rest).takeWhile isDigit = dumpsNat value := by
    rw [List.takeWhile_append_of_pos hdigits, stops.takeWhile.1, List.append_nil]
  have hdrop : (dumpsNat value ++ rest).dropWhile isDigit = rest := by
    rw [List.dropWhile_append_of_pos hdigits, stops.takeWhile.2]
  have hchars : (dumpsNat value).map (fun byte => Char.ofNat byte.toNat) =
      Nat.toDigits 10 value := by
    rw [dumpsNat, List.map_map]
    refine (List.map_congr_left fun c hc => ?_).trans (List.map_id _)
    exact (digit_toUInt8 (Nat.isDigit_of_mem_toDigits (by decide) (by decide) hc)).2
  obtain ⟨byte, tail, htext, -⟩ := dumpsNat_head value
  unfold readNat
  rw [htake, hdrop]
  have hvalue := congrArg (fun text => some (Nat.ofDigitChars 10 text 0, rest)) hchars
  rw [Nat.ofDigitChars_ten_toDigits] at hvalue
  rw [htext] at hvalue ⊢
  exact hvalue

theorem dumps_head (value : Value) : ∃ byte rest, dumps value = byte :: rest ∧ byte ≠ 93 := by
  have hdigit (n : Nat) : ∃ byte rest, dumpsNat n = byte :: rest ∧ byte ≠ 93 := by
    obtain ⟨byte, rest, htext, hbyte⟩ := dumpsNat_head n
    refine ⟨byte, rest, htext, ?_⟩
    rintro rfl
    cases hbyte
  match value with
  | .null => exact ⟨110, ascii "ull", rfl, by decide⟩
  | .number (.ofNat n) => exact hdigit n
  | .number (.negSucc n) => exact ⟨45, dumpsNat (n + 1), rfl, by decide⟩
  | .text value => exact ⟨34, _, rfl, by decide⟩
  | .list [] => exact ⟨91, [93], rfl, by decide⟩
  | .list (first :: rest) => exact ⟨91, _, rfl, by decide⟩
  | .object [] => exact ⟨123, [125], rfl, by decide⟩
  | .object ((key, first) :: rest) => exact ⟨123, _, rfl, by decide⟩

theorem read_nat (fuel value : Nat) {rest : List UInt8} (stops : Stops rest) :
    read (fuel + 1) (dumpsNat value ++ rest) = some (.number value, rest) := by
  have hread := readNat_dumps value stops
  obtain ⟨byte, tail, htext, hdigit⟩ := dumpsNat_head value
  rw [htext, List.cons_append] at hread ⊢
  have hother (other : UInt8) (hother : isDigit other = false) : byte ≠ other := by
    rintro rfl
    rw [hdigit] at hother
    cases hother
  simp only [read, if_neg (hother 34 rfl), if_neg (hother 91 rfl), if_neg (hother 123 rfl),
    if_neg (hother 110 rfl), if_neg (hother 45 rfl), hread, Option.map_some]

theorem read_negative (fuel value : Nat) {rest : List UInt8} (stops : Stops rest) :
    read (fuel + 1) (45 :: dumpsNat value ++ rest) = some (.number (-value), rest) := by
  simp [read, readNat_dumps value stops]

@[simp] theorem read_string (fuel : Nat) (value : String) (rest : List UInt8) :
    read (fuel + 1) (dumpsString value ++ rest) = some (.text value, rest) := by
  have hread := readString_dumps value rest
  rw [dumpsString, List.cons_append] at hread ⊢
  simp only [read, if_true, hread, Option.map_some]

theorem stops_dumpsItems (items : List Value) (rest : List UInt8) :
    Stops (dumpsItems items ++ rest) := by
  cases items with
  | nil => exact stops_cons rfl _
  | cons item items => exact stops_cons rfl _

theorem stops_dumpsEntries (entries : List (String × Value)) (rest : List UInt8) :
    Stops (dumpsEntries entries ++ rest) := by
  cases entries with
  | nil => exact stops_cons rfl _
  | cons entry entries => exact stops_cons rfl _

mutual

theorem read_dumps : ∀ (value : Value) (fuel : Nat) (rest : List UInt8),
    (dumps value).length ≤ fuel → Stops rest →
      read fuel (dumps value ++ rest) = some (value, rest)
  | value, 0, rest, enough, _ => by
      obtain ⟨byte, tail, htext, -⟩ := dumps_head value
      simp [htext] at enough
  | .null, fuel + 1, rest, _, _ => by
      change (expect (ascii "ull") (ascii "ull" ++ rest)).map _ = _
      rw [expect_append]
      rfl
  | .number (.ofNat n), fuel + 1, rest, _, stops => read_nat fuel n stops
  | .number (.negSucc n), fuel + 1, rest, _, stops => read_negative fuel (n + 1) stops
  | .text value, fuel + 1, rest, _, _ => read_string fuel value rest
  | .list [], fuel + 1, rest, _, _ => rfl
  | .list (first :: items), fuel + 1, rest, enough, _ => by
      simp only [dumps, List.length_cons, List.length_append] at enough
      have hfirst := read_dumps first fuel (dumpsItems items ++ rest) (by omega)
        (stops_dumpsItems items rest)
      have hitems := readItems_dumps items fuel rest (by omega)
      obtain ⟨byte, tail, htext, hbyte⟩ := dumps_head first
      have hopen : (dumps first ++ (dumpsItems items ++ rest)).head? ≠ some 93 := by
        simp [htext, hbyte]
      rw [dumps, List.cons_append, List.append_assoc]
      simp only [read, show (91 : UInt8) ≠ 34 by decide, if_false, if_true, if_neg hopen, hfirst,
        hitems, Option.bind_some, Option.map_some]
  | .object [], fuel + 1, rest, _, _ => rfl
  | .object ((key, first) :: entries), fuel + 1, rest, enough, _ => by
      simp only [dumps, List.length_cons, List.length_append] at enough
      have hfirst := read_dumps first fuel (dumpsEntries entries ++ rest) (by omega)
        (stops_dumpsEntries entries rest)
      have hentries := readEntries_dumps entries fuel rest (by omega)
      have hkey := readString_dumps key
        (ascii ": " ++ (dumps first ++ (dumpsEntries entries ++ rest)))
      have hopen : (dumpsString key ++ (ascii ": " ++ (dumps first ++
          (dumpsEntries entries ++ rest)))).head? ≠ some 125 := by
        simp [dumpsString]
      rw [dumps, List.cons_append, List.append_assoc, List.append_assoc, List.append_assoc]
      simp only [read, show (123 : UInt8) ≠ 34 by decide, show (123 : UInt8) ≠ 91 by decide,
        if_false, if_true, if_neg hopen, hkey, expect_append, hfirst, hentries, Option.bind_some,
        Option.map_some]

theorem readItems_dumps : ∀ (items : List Value) (fuel : Nat) (rest : List UInt8),
    (dumpsItems items).length ≤ fuel →
      readItems fuel (dumpsItems items ++ rest) = some (items, rest)
  | [], 0, rest, enough => by simp [dumpsItems] at enough
  | [], fuel + 1, rest, enough => rfl
  | item :: items, 0, rest, enough => by simp [dumpsItems, ascii] at enough
  | item :: items, fuel + 1, rest, enough => by
      simp only [dumpsItems, List.length_append, show (ascii ", ").length = 2 from rfl] at enough
      have hitem := read_dumps item fuel (dumpsItems items ++ rest) (by omega)
        (stops_dumpsItems items rest)
      have hitems := readItems_dumps items fuel rest (by omega)
      have hopen : (ascii ", " ++ (dumps item ++ (dumpsItems items ++ rest))).head? ≠ some 93 := by
        change some (44 : UInt8) ≠ some 93
        decide
      rw [dumpsItems, List.append_assoc, List.append_assoc]
      simp only [readItems, if_neg hopen, expect_append, hitem, hitems, Option.bind_some,
        Option.map_some]

theorem readEntries_dumps : ∀ (entries : List (String × Value)) (fuel : Nat)
    (rest : List UInt8), (dumpsEntries entries).length ≤ fuel →
      readEntries fuel (dumpsEntries entries ++ rest) = some (entries, rest)
  | [], 0, rest, enough => by simp [dumpsEntries] at enough
  | [], fuel + 1, rest, enough => rfl
  | (key, value) :: entries, 0, rest, enough => by simp [dumpsEntries, ascii] at enough
  | (key, value) :: entries, fuel + 1, rest, enough => by
      simp only [dumpsEntries, List.length_append, show (ascii ", ").length = 2 from rfl] at enough
      have hvalue := read_dumps value fuel (dumpsEntries entries ++ rest) (by omega)
        (stops_dumpsEntries entries rest)
      have hentries := readEntries_dumps entries fuel rest (by omega)
      have hkey := readString_dumps key
        (ascii ": " ++ (dumps value ++ (dumpsEntries entries ++ rest)))
      have hopen : (ascii ", " ++ (dumpsString key ++ (ascii ": " ++ (dumps value ++
          (dumpsEntries entries ++ rest))))).head? ≠ some 125 := by
        change some (44 : UInt8) ≠ some 125
        decide
      rw [dumpsEntries, List.append_assoc, List.append_assoc, List.append_assoc,
        List.append_assoc]
      simp only [readEntries, if_neg hopen, hkey, expect_append, hvalue, hentries,
        Option.bind_some, Option.map_some]

end

@[simp] theorem loads_dumps (value : Value) : loads (dumps value) = some value := by
  have hread := read_dumps value (dumps value).length [] (Nat.le_refl _) stops_nil
  rw [List.append_nil] at hread
  simp only [loads, hread]

theorem unescapeUnit_more {text rest : List UInt8} {unit : Nat}
    (h : unescapeUnit text = some (unit, rest)) (more : List UInt8) :
    unescapeUnit (text ++ more) = some (unit, rest ++ more) := by
  unfold unescapeUnit at h
  split at h
  · cases h
    rfl
  · cases h

theorem unescape_more {text rest : List UInt8} {c : Char} (h : unescape text = some (c, rest))
    (more : List UInt8) : unescape (text ++ more) = some (c, rest ++ more) := by
  unfold unescape at h
  split at h
  · cases h
  · rename_i byte after
    split at h
    · rename_i hbyte
      split at h
      · cases h
      · rename_i letter last
        split at h
        · rename_i hletter
          obtain ⟨⟨high, behind⟩, hhigh, hlow⟩ := Option.bind_eq_some_iff.mp h
          have hmore := unescapeUnit_more hhigh more
          rw [List.cons_append, List.cons_append] at hmore
          simp only [unescape, List.cons_append, if_pos hbyte, if_pos hletter, hmore,
            Option.bind_some]
          dsimp only at hlow
          split at hlow
          · rename_i hsurrogate
            obtain ⟨⟨low, final⟩, hunit, hvalue⟩ := Option.map_eq_some_iff.mp hlow
            obtain ⟨rfl, rfl⟩ := Prod.mk.inj hvalue
            rw [if_pos hsurrogate, unescapeUnit_more hunit more, Option.map_some]
          · rename_i hsurrogate
            cases hlow
            rw [if_neg hsurrogate]
        · rename_i hletter
          cases h
          simp only [unescape, List.cons_append, if_pos hbyte, if_neg hletter]
    · rename_i hbyte
      cases h
      simp only [unescape, List.cons_append, if_neg hbyte]

theorem expect_more {expected text rest : List UInt8} (h : expect expected text = some rest)
    (more : List UInt8) : expect expected (text ++ more) = some (rest ++ more) := by
  induction expected generalizing text with
  | nil =>
      cases h
      rfl
  | cons byte expected ih =>
      cases text with
      | nil => cases h
      | cons first text =>
          simp only [expect, List.cons_append] at h ⊢
          split at h
          · rename_i hbyte
            rw [if_pos hbyte]
            exact ih h
          · cases h

theorem readChars_more {fuel fuel' : Nat} {text rest : List UInt8} {cs : List Char}
    (h : readChars fuel text = some (cs, rest)) (le : fuel ≤ fuel') (more : List UInt8) :
    readChars fuel' (text ++ more) = some (cs, rest ++ more) := by
  induction fuel generalizing fuel' text cs with
  | zero => cases h
  | succ fuel ih =>
      obtain ⟨fuel', rfl⟩ := Nat.exists_eq_succ_of_ne_zero (Nat.ne_of_gt (Nat.zero_lt_of_lt le))
      cases text with
      | nil => cases h
      | cons byte text =>
          simp only [readChars, List.cons_append] at h ⊢
          split at h
          · rename_i hquote
            cases h
            rw [if_pos hquote]
          · rename_i hquote
            obtain ⟨⟨c, after⟩, hc, hrest⟩ := Option.bind_eq_some_iff.mp h
            obtain ⟨⟨cs, last⟩, hcs, hlast⟩ := Option.map_eq_some_iff.mp hrest
            cases hlast
            have hmore := unescape_more hc more
            rw [List.cons_append] at hmore
            simp only [if_neg hquote, hmore, Option.bind_some,
              ih hcs (Nat.le_of_succ_le_succ le), Option.map_some]

theorem readString_more {text rest : List UInt8} {value : String}
    (h : readString text = some (value, rest)) (more : List UInt8) :
    readString (text ++ more) = some (value, rest ++ more) := by
  unfold readString at h ⊢
  obtain ⟨after, hquote, hchars⟩ := Option.bind_eq_some_iff.mp h
  obtain ⟨⟨cs, last⟩, hcs, hlast⟩ := Option.map_eq_some_iff.mp hchars
  cases hlast
  rw [expect_more hquote more, Option.bind_some,
    readChars_more hcs (by simp) more, Option.map_some]

theorem readNat_more {text rest : List UInt8} {value : Nat}
    (h : readNat text = some (value, rest)) (goes : rest ≠ []) (more : List UInt8) :
    readNat (text ++ more) = some (value, rest ++ more) := by
  unfold readNat at h
  split at h
  · cases h
  · rename_i hsome
    cases h
    obtain ⟨byte, after, hrest⟩ := List.exists_cons_of_ne_nil goes
    have hstops : Stops (text.dropWhile isDigit ++ more) := by
      rw [hrest]
      refine stops_cons ?_ _
      have hhead := List.head_dropWhile_not isDigit goes
      simpa [hrest] using hhead
    have hdigits : ∀ byte ∈ text.takeWhile isDigit, isDigit byte = true :=
      List.all_eq_true.mp List.all_takeWhile
    have htext : text ++ more = text.takeWhile isDigit ++ (text.dropWhile isDigit ++ more) := by
      rw [← List.append_assoc, List.takeWhile_append_dropWhile]
    have htake : (text ++ more).takeWhile isDigit = text.takeWhile isDigit := by
      rw [htext, List.takeWhile_append_of_pos hdigits, hstops.takeWhile.1, List.append_nil]
    have hdrop : (text ++ more).dropWhile isDigit = text.dropWhile isDigit ++ more := by
      rw [htext, List.dropWhile_append_of_pos hdigits, hstops.takeWhile.2]
    unfold readNat
    rw [htake, hdrop]
    split
    · rename_i hnone
      exact (hsome hnone).elim
    · rfl

@[simp] theorem readItems_nil (fuel : Nat) : readItems fuel [] = none := by cases fuel <;> rfl

@[simp] theorem readEntries_nil (fuel : Nat) : readEntries fuel [] = none := by cases fuel <;> rfl

def Ends (value : Value) (rest : List UInt8) : Prop := ∀ number, value = .number number → rest ≠ []

theorem ends_of_ne {rest : List UInt8} (goes : rest ≠ []) (value : Value) : Ends value rest :=
  fun _ _ => goes

structure More (fuel : Nat) : Prop where
  value : ∀ {fuel' text value rest}, read fuel text = some (value, rest) → fuel ≤ fuel' →
    Ends value rest → ∀ more, read fuel' (text ++ more) = some (value, rest ++ more)
  items : ∀ {fuel' text items rest}, readItems fuel text = some (items, rest) → fuel ≤ fuel' →
    ∀ more, readItems fuel' (text ++ more) = some (items, rest ++ more)
  entries : ∀ {fuel' text entries rest}, readEntries fuel text = some (entries, rest) →
    fuel ≤ fuel' → ∀ more, readEntries fuel' (text ++ more) = some (entries, rest ++ more)

private theorem head_more {text : List UInt8} {byte : UInt8} (h : text.head? = some byte)
    (more : List UInt8) : (text ++ more).head? = some byte ∧ (text ++ more).tail =
      text.tail ++ more := by
  cases text with
  | nil => cases h
  | cons first rest => exact ⟨h, rfl⟩

private theorem head_not_more {text : List UInt8} {byte : UInt8} (h : text.head? ≠ some byte)
    (goes : text ≠ []) (more : List UInt8) : (text ++ more).head? ≠ some byte := by
  cases text with
  | nil => exact (goes rfl).elim
  | cons first rest => exact h

@[simp] theorem read_nil (fuel : Nat) : read fuel [] = none := by cases fuel <;> rfl

theorem More.items_succ {fuel : Nat} (ih : More fuel) {fuel' : Nat} {text rest : List UInt8}
    {items : List Value} (h : readItems (fuel + 1) text = some (items, rest)) (le : fuel ≤ fuel')
    (more : List UInt8) : readItems (fuel' + 1) (text ++ more) = some (items, rest ++ more) := by
  have hgoes : text ≠ [] := by
    rintro rfl
    rw [readItems_nil] at h
    cases h
  simp only [readItems] at h ⊢
  split at h
  · rename_i hclose
    cases h
    obtain ⟨hhead, htail⟩ := head_more hclose more
    rw [if_pos hhead, htail]
  · rename_i hopen
    rw [if_neg (head_not_more hopen hgoes more)]
    obtain ⟨after, hcomma, hafter⟩ := Option.bind_eq_some_iff.mp h
    obtain ⟨⟨item, behind⟩, hitem, hbehind⟩ := Option.bind_eq_some_iff.mp hafter
    obtain ⟨⟨others, last⟩, hothers, hlast⟩ := Option.map_eq_some_iff.mp hbehind
    cases hlast
    have hends : Ends item behind := ends_of_ne (by
      rintro rfl
      rw [readItems_nil] at hothers
      cases hothers) item
    rw [expect_more hcomma more, Option.bind_some, ih.value hitem le hends more,
      Option.bind_some, ih.items hothers le more, Option.map_some]

theorem More.entries_succ {fuel : Nat} (ih : More fuel) {fuel' : Nat} {text rest : List UInt8}
    {entries : List (String × Value)} (h : readEntries (fuel + 1) text = some (entries, rest))
    (le : fuel ≤ fuel') (more : List UInt8) :
    readEntries (fuel' + 1) (text ++ more) = some (entries, rest ++ more) := by
  have hgoes : text ≠ [] := by
    rintro rfl
    rw [readEntries_nil] at h
    cases h
  simp only [readEntries] at h ⊢
  split at h
  · rename_i hclose
    cases h
    obtain ⟨hhead, htail⟩ := head_more hclose more
    rw [if_pos hhead, htail]
  · rename_i hopen
    rw [if_neg (head_not_more hopen hgoes more)]
    obtain ⟨after, hcomma, hafter⟩ := Option.bind_eq_some_iff.mp h
    obtain ⟨⟨key, keyed⟩, hkey, hkeyed⟩ := Option.bind_eq_some_iff.mp hafter
    obtain ⟨colon, hcolon, hvalues⟩ := Option.bind_eq_some_iff.mp hkeyed
    obtain ⟨⟨value, behind⟩, hvalue, hbehind⟩ := Option.bind_eq_some_iff.mp hvalues
    obtain ⟨⟨others, last⟩, hothers, hlast⟩ := Option.map_eq_some_iff.mp hbehind
    cases hlast
    have hends : Ends value behind := ends_of_ne (by
      rintro rfl
      rw [readEntries_nil] at hothers
      cases hothers) value
    simp only [expect_more hcomma more, readString_more hkey more, expect_more hcolon more,
      ih.value hvalue le hends more, ih.entries hothers le more, Option.bind_some,
      Option.map_some]

private theorem More.list {fuel : Nat} (ih : More fuel) {fuel' : Nat} {text rest : List UInt8}
    {value : Value}
    (h : ((read fuel text).bind fun (first, after) =>
      (readItems fuel after).map fun (items, last) => (Value.list (first :: items), last)) =
        some (value, rest)) (le : fuel ≤ fuel') (more : List UInt8) :
    text ≠ [] ∧ ((read fuel' (text ++ more)).bind fun (first, after) =>
      (readItems fuel' after).map fun (items, last) => (Value.list (first :: items), last)) =
        some (value, rest ++ more) := by
  obtain ⟨⟨first, after⟩, hfirst, hafter⟩ := Option.bind_eq_some_iff.mp h
  obtain ⟨⟨items, last⟩, hitems, hlast⟩ := Option.map_eq_some_iff.mp hafter
  cases hlast
  have hends : Ends first after := ends_of_ne (by
    rintro rfl
    rw [readItems_nil] at hitems
    cases hitems) first
  refine ⟨?_, ?_⟩
  · rintro rfl
    rw [read_nil] at hfirst
    cases hfirst
  · simp only [ih.value hfirst le hends more, ih.items hitems le more, Option.bind_some,
      Option.map_some]

private theorem More.object {fuel : Nat} (ih : More fuel) {fuel' : Nat} {text rest : List UInt8}
    {value : Value}
    (h : ((readString text).bind fun (key, after) => (expect (ascii ": ") after).bind fun after =>
      (read fuel after).bind fun (first, after) =>
        (readEntries fuel after).map fun (entries, last) =>
          (Value.object ((key, first) :: entries), last)) = some (value, rest))
    (le : fuel ≤ fuel') (more : List UInt8) :
    text ≠ [] ∧ ((readString (text ++ more)).bind fun (key, after) =>
      (expect (ascii ": ") after).bind fun after => (read fuel' after).bind fun (first, after) =>
        (readEntries fuel' after).map fun (entries, last) =>
          (Value.object ((key, first) :: entries), last)) = some (value, rest ++ more) := by
  obtain ⟨⟨key, keyed⟩, hkey, hkeyed⟩ := Option.bind_eq_some_iff.mp h
  obtain ⟨colon, hcolon, hvalues⟩ := Option.bind_eq_some_iff.mp hkeyed
  obtain ⟨⟨first, after⟩, hfirst, hafter⟩ := Option.bind_eq_some_iff.mp hvalues
  obtain ⟨⟨entries, last⟩, hentries, hlast⟩ := Option.map_eq_some_iff.mp hafter
  cases hlast
  have hends : Ends first after := ends_of_ne (by
    rintro rfl
    rw [readEntries_nil] at hentries
    cases hentries) first
  refine ⟨?_, ?_⟩
  · rintro rfl
    cases hkey
  · simp only [readString_more hkey more, expect_more hcolon more, ih.value hfirst le hends more,
      ih.entries hentries le more, Option.bind_some, Option.map_some]

theorem More.value_succ {fuel : Nat} (ih : More fuel) {fuel' : Nat} {text rest : List UInt8}
    {value : Value} (h : read (fuel + 1) text = some (value, rest)) (le : fuel ≤ fuel')
    (ends : Ends value rest) (more : List UInt8) :
    read (fuel' + 1) (text ++ more) = some (value, rest ++ more) := by
  cases text with
  | nil => cases h
  | cons byte text =>
      simp only [read, List.cons_append] at h ⊢
      split_ifs at h with hstring hlist hnone hobject hempty hnull hnegative
      · obtain ⟨⟨parsed, after⟩, hparsed, hvalue⟩ := Option.map_eq_some_iff.mp h
        cases hvalue
        have hmore := readString_more hparsed more
        rw [List.cons_append] at hmore
        rw [if_pos hstring, hmore, Option.map_some]
      · cases h
        obtain ⟨hhead, htail⟩ := head_more hnone more
        rw [if_neg hstring, if_pos hlist, if_pos hhead, htail]
      · obtain ⟨hgoes, hmore⟩ := ih.list h le more
        rw [if_neg hstring, if_pos hlist, if_neg (head_not_more hnone hgoes more)]
        exact hmore
      · cases h
        obtain ⟨hhead, htail⟩ := head_more hempty more
        rw [if_neg hstring, if_neg hlist, if_pos hobject, if_pos hhead, htail]
      · obtain ⟨hgoes, hmore⟩ := ih.object h le more
        rw [if_neg hstring, if_neg hlist, if_pos hobject,
          if_neg (head_not_more hempty hgoes more)]
        exact hmore
      · obtain ⟨after, hafter, hvalue⟩ := Option.map_eq_some_iff.mp h
        cases hvalue
        rw [if_neg hstring, if_neg hlist, if_neg hobject, if_pos hnull, expect_more hafter more,
          Option.map_some]
      · obtain ⟨⟨number, after⟩, hnumber, hvalue⟩ := Option.map_eq_some_iff.mp h
        cases hvalue
        rw [if_neg hstring, if_neg hlist, if_neg hobject, if_neg hnull, if_pos hnegative,
          readNat_more hnumber (ends _ rfl) more, Option.map_some]
      · obtain ⟨⟨number, after⟩, hnumber, hvalue⟩ := Option.map_eq_some_iff.mp h
        cases hvalue
        have hmore := readNat_more hnumber (ends _ rfl) more
        rw [List.cons_append] at hmore
        rw [if_neg hstring, if_neg hlist, if_neg hobject, if_neg hnull, if_neg hnegative, hmore,
          Option.map_some]

theorem more : ∀ fuel, More fuel
  | 0 => ⟨fun h => (by cases h), fun h => (by cases h), fun h => (by cases h)⟩
  | fuel + 1 => by
      have ih := more fuel
      refine ⟨?_, ?_, ?_⟩
      · intro fuel' text value rest h le ends tail
        obtain ⟨fuel', rfl⟩ := Nat.exists_eq_succ_of_ne_zero (Nat.ne_of_gt (Nat.zero_lt_of_lt le))
        exact ih.value_succ h (Nat.le_of_succ_le_succ le) ends tail
      · intro fuel' text items rest h le tail
        obtain ⟨fuel', rfl⟩ := Nat.exists_eq_succ_of_ne_zero (Nat.ne_of_gt (Nat.zero_lt_of_lt le))
        exact ih.items_succ h (Nat.le_of_succ_le_succ le) tail
      · intro fuel' text entries rest h le tail
        obtain ⟨fuel', rfl⟩ := Nat.exists_eq_succ_of_ne_zero (Nat.ne_of_gt (Nat.zero_lt_of_lt le))
        exact ih.entries_succ h (Nat.le_of_succ_le_succ le) tail

theorem read_object {fuel : Nat} {text rest : List UInt8} {value : Value}
    (h : read fuel (123 :: text) = some (value, rest)) : ∃ entries, value = .object entries := by
  cases fuel with
  | zero => cases h
  | succ fuel =>
      simp only [read, show (123 : UInt8) ≠ 34 by decide, show (123 : UInt8) ≠ 91 by decide,
        if_false, if_true] at h
      split at h
      · cases h
        exact ⟨[], rfl⟩
      · obtain ⟨⟨key, keyed⟩, -, hkeyed⟩ := Option.bind_eq_some_iff.mp h
        obtain ⟨colon, -, hvalues⟩ := Option.bind_eq_some_iff.mp hkeyed
        obtain ⟨⟨first, after⟩, -, hafter⟩ := Option.bind_eq_some_iff.mp hvalues
        obtain ⟨⟨entries, last⟩, -, hlast⟩ := Option.map_eq_some_iff.mp hafter
        cases hlast
        exact ⟨_, rfl⟩

theorem loads_take (entries : List (String × Value)) (size : Nat)
    (cut : size < (dumps (.object entries)).length) :
    loads ((dumps (.object entries)).take size) = none := by
  obtain ⟨text, htext⟩ : ∃ text, dumps (.object entries) = 123 :: text := by
    cases entries with
    | nil => exact ⟨[125], rfl⟩
    | cons entry rest => exact ⟨_, rfl⟩
  have hfull := read_dumps (.object entries) _ [] (Nat.le_refl _) stops_nil
  rw [List.append_nil] at hfull
  unfold loads
  split
  · rename_i value hread
    exfalso
    cases size with
    | zero => cases hread
    | succ size =>
        have hobject : ∃ entries, value = .object entries := by
          rw [htext, List.take_succ_cons] at hread
          exact read_object hread
        have hends : Ends value [] := by
          obtain ⟨entries, rfl⟩ := hobject
          rintro number ⟨⟩
        have hshorter : ((dumps (.object entries)).take (size + 1)).length ≤
            (dumps (.object entries)).length := List.length_take_le' _ _
        have hmore := (more _).value hread hshorter hends
          ((dumps (.object entries)).drop (size + 1))
        rw [List.take_append_drop, hfull] at hmore
        have hrest := congrArg List.length (Prod.mk.inj (Option.some.inj hmore)).2
        rw [List.nil_append, List.length_drop, List.length_nil] at hrest
        omega
  · rfl

/-- Texts are made of printable ASCII, so that no line ends inside of one. -/
def Printable (text : List UInt8) : Prop := ∀ byte ∈ text, 32 ≤ byte.toNat ∧ byte.toNat ≤ 126

instance : DecidablePred Printable := fun _ => List.decidableBAll _ _

theorem printable_append {text other : List UInt8} :
    Printable (text ++ other) ↔ Printable text ∧ Printable other := List.forall_mem_append

theorem printable_cons {byte : UInt8} {text : List UInt8} :
    Printable (byte :: text) ↔ (32 ≤ byte.toNat ∧ byte.toNat ≤ 126) ∧ Printable text :=
  List.forall_mem_cons

theorem printable_nil : Printable [] := by
  intro byte hbyte
  cases hbyte

theorem hexDigit_printable {digit : Nat} (bound : digit < 16) :
    32 ≤ (hexDigit digit).toNat ∧ (hexDigit digit).toNat ≤ 126 := by
  interval_cases digit <;> decide

theorem escapeUnit_printable {unit : Nat} (bound : unit < 0x10000) :
    Printable (escapeUnit unit) := by
  simp only [escapeUnit, printable_cons]
  exact ⟨by decide, by decide, hexDigit_printable (by omega), hexDigit_printable (by omega),
    hexDigit_printable (by omega), hexDigit_printable (by omega), printable_nil⟩

theorem shorthand_printable {c : Char} {letter : UInt8} (short : shorthand c = some letter) :
    32 ≤ letter.toNat ∧ letter.toNat ≤ 126 := by
  unfold shorthand at short
  split_ifs at short <;> cases short <;> decide

theorem escape_printable (c : Char) : Printable (escape c) := by
  have hvalid : c.toNat < 0xd800 ∨ 0xdfff < c.toNat ∧ c.toNat < 0x110000 := c.valid
  unfold escape
  cases hshort : shorthand c with
  | some letter =>
      simp only [printable_cons]
      exact ⟨by decide, shorthand_printable hshort, printable_nil⟩
  | none =>
      dsimp only
      split
      · rename_i hplain
        simp only [printable_cons, toNat_toUInt8 (show c.toNat < 256 by omega)]
        exact ⟨hplain, printable_nil⟩
      · split
        · exact escapeUnit_printable ‹_›
        · exact printable_append.mpr
            ⟨escapeUnit_printable (by omega), escapeUnit_printable (by omega)⟩

theorem dumpsString_printable (value : String) : Printable (dumpsString value) := by
  refine printable_cons.mpr ⟨by decide, printable_append.mpr ⟨?_, ?_⟩⟩
  · intro byte hbyte
    obtain ⟨c, -, hc⟩ := List.mem_flatMap.mp hbyte
    exact escape_printable c byte hc
  · exact printable_cons.mpr ⟨by decide, printable_nil⟩

theorem dumpsNat_printable (value : Nat) : Printable (dumpsNat value) := by
  intro byte hbyte
  have hdigit := dumpsNat_digits value byte hbyte
  simp only [isDigit, Bool.and_eq_true, decide_eq_true_eq] at hdigit
  omega

mutual

theorem dumps_printable : ∀ value : Value, Printable (dumps value)
  | .null => by decide
  | .number (.ofNat n) => dumpsNat_printable n
  | .number (.negSucc n) => printable_cons.mpr ⟨by decide, dumpsNat_printable (n + 1)⟩
  | .text value => dumpsString_printable value
  | .list [] => by decide
  | .list (first :: items) => by
      simp only [dumps, printable_cons, printable_append]
      exact ⟨by decide, dumps_printable first, dumpsItems_printable items⟩
  | .object [] => by decide
  | .object ((key, first) :: entries) => by
      simp only [dumps, printable_cons, printable_append]
      exact ⟨by decide, dumpsString_printable key, by decide, dumps_printable first,
        dumpsEntries_printable entries⟩

theorem dumpsItems_printable : ∀ items : List Value, Printable (dumpsItems items)
  | [] => by decide
  | item :: items => by
      simp only [dumpsItems, printable_append]
      exact ⟨by decide, dumps_printable item, dumpsItems_printable items⟩

theorem dumpsEntries_printable : ∀ entries : List (String × Value),
    Printable (dumpsEntries entries)
  | [] => by decide
  | (key, value) :: entries => by
      simp only [dumpsEntries, printable_append]
      exact ⟨by decide, dumpsString_printable key, by decide, dumps_printable value,
        dumpsEntries_printable entries⟩

end

end WgBp.Library.Json
