import Mathlib.Data.List.TakeWhile
import PawFlow.Lib.Json

/-!
# Reading JSON text

`json.loads` on text, and that it reads back what `json.dumps` writes. Conversions of decimal
fractions are the parameter `readFloat`: the float a numeral stands for. The constants `NaN`
and `Infinity` and strings with half a surrogate pair are no values here and are refused.
-/

namespace PawFlow.Lib.Json

/-! ## The reader -/

def isBlank (c : Char) : Bool := c ∈ [' ', '\t', '\n', '\r']

def skipBlanks (cs : List Char) : List Char := cs.dropWhile isBlank

def hexValue? (c : Char) : Option Nat :=
  if c.isDigit then some (c.toNat - '0'.toNat)
  else if 'a' ≤ c ∧ c ≤ 'f' then some (c.toNat - 'a'.toNat + 10)
  else if 'A' ≤ c ∧ c ≤ 'F' then some (c.toNat - 'A'.toNat + 10)
  else none

/-- Four hexadecimal digits. -/
def hex4? (a b c d : Char) : Option Nat :=
  match hexValue? a, hexValue? b, hexValue? c, hexValue? d with
  | some a, some b, some c, some d => some (a * 4096 + b * 256 + c * 16 + d)
  | _, _, _, _ => none

/-- The character behind the code unit `n` of an escape; a high surrogate needs its partner. -/
def readUnit (n : Nat) (cs : List Char) : Option (Char × List Char) :=
  if 0xd800 ≤ n ∧ n ≤ 0xdbff then
    match cs with
    | '\\' :: 'u' :: a :: b :: c :: d :: cs =>
      (hex4? a b c d).bind fun m =>
        if 0xdc00 ≤ m ∧ m ≤ 0xdfff then
          some (Char.ofNat (0x10000 + (n - 0xd800) * 1024 + (m - 0xdc00)), cs)
        else none
    | _ => none
  else if 0xdc00 ≤ n ∧ n ≤ 0xdfff then none
  else some (Char.ofNat n, cs)

/-- One character of a string, plain or escaped. -/
def readChar : List Char → Option (Char × List Char)
  | '\\' :: 'u' :: a :: b :: c :: d :: cs => (hex4? a b c d).bind fun n => readUnit n cs
  | '\\' :: '"' :: cs => some ('"', cs)
  | '\\' :: '\\' :: cs => some ('\\', cs)
  | '\\' :: '/' :: cs => some ('/', cs)
  | '\\' :: 'b' :: cs => some ('\x08', cs)
  | '\\' :: 'f' :: cs => some ('\x0c', cs)
  | '\\' :: 'n' :: cs => some ('\n', cs)
  | '\\' :: 'r' :: cs => some ('\r', cs)
  | '\\' :: 't' :: cs => some ('\t', cs)
  | c :: cs => if c = '\\' ∨ c = '"' ∨ c.toNat < 32 then none else some (c, cs)
  | [] => none

/-- A string after its opening quote. -/
def readString : (fuel : Nat) → List Char → Option (List Char × List Char)
  | 0, _ => none
  | fuel + 1, cs =>
    match cs with
    | '"' :: cs => some ([], cs)
    | cs => (readChar cs).bind fun (c, cs) =>
      (readString fuel cs).map fun (s, cs) => (c :: s, cs)

/-- The characters of numerals. -/
def isNumberChar (c : Char) : Bool := c.isDigit || c ∈ ['-', '+', '.', 'e', 'E']

/-- What follows the integer part of a numeral; there are no leading zeros. -/
def afterInteger : List Char → Option (List Char)
  | '-' :: '0' :: cs => some cs
  | '0' :: cs => some cs
  | '-' :: c :: cs => if c.isDigit then some (cs.dropWhile Char.isDigit) else none
  | c :: cs => if c.isDigit then some (cs.dropWhile Char.isDigit) else none
  | [] => none

/-- At least one digit, and what follows. -/
def afterDigits : List Char → Option (List Char)
  | c :: cs => if c.isDigit then some (cs.dropWhile Char.isDigit) else none
  | [] => none

def isFraction (cs : List Char) : Bool :=
  let exponent := fun cs => match cs with
    | [] => true
    | c :: cs => c ∈ ['e', 'E'] && afterDigits (if cs.head?.any (· ∈ ['+', '-']) then cs.tail else cs)
        = some []
  match cs with
  | '.' :: cs => (afterDigits cs).any exponent
  | cs => exponent cs

def readInteger : List Char → Int
  | '-' :: cs => -(Nat.ofDigitChars 10 cs 0 : Int)
  | cs => Nat.ofDigitChars 10 cs 0

variable (readFloat : List Char → Option (FloatText × Int × Nat))

def readNumber (numeral : List Char) : Option Json :=
  match afterInteger numeral with
  | none => none
  | some [] => some (.int (readInteger numeral))
  | some rest =>
    if isFraction rest then (readFloat numeral).map fun (text, num, exp) => .float text num exp
    else none

mutual

/-- A value, and the text after it. -/
def readValue : (fuel : Nat) → List Char → Option (Json × List Char)
  | 0, _ => none
  | fuel + 1, cs =>
    match cs with
    | '"' :: cs => (readString (cs.length + 1) cs).map fun (s, cs) => (.str (.ofList s), cs)
    | '[' :: cs =>
      match skipBlanks cs with
      | ']' :: cs => some (.arr [], cs)
      | cs => (readItems fuel cs).map fun (items, cs) => (.arr items, cs)
    | '{' :: cs =>
      match skipBlanks cs with
      | '}' :: cs => some (.obj [], cs)
      -- of two fields with one key the later one stays, in the place of the first
      | cs => (readFields fuel cs).map fun (items, cs) => (.obj (PyDict.update [] items), cs)
    | 'n' :: 'u' :: 'l' :: 'l' :: cs => some (.null, cs)
    | 't' :: 'r' :: 'u' :: 'e' :: cs => some (.bool true, cs)
    | 'f' :: 'a' :: 'l' :: 's' :: 'e' :: cs => some (.bool false, cs)
    | cs => (readNumber readFloat (cs.takeWhile isNumberChar)).map fun v =>
      (v, cs.dropWhile isNumberChar)

/-- The items of a list, of which there is at least one, up to its closing bracket. -/
def readItems : (fuel : Nat) → List Char → Option (List Json × List Char)
  | 0, _ => none
  | fuel + 1, cs =>
    (readValue fuel cs).bind fun (v, cs) =>
      match skipBlanks cs with
      | ']' :: cs => some ([v], cs)
      | ',' :: cs => (readItems fuel (skipBlanks cs)).map fun (items, cs) => (v :: items, cs)
      | _ => none

/-- The fields of a dict, of which there is at least one, up to its closing brace. -/
def readFields : (fuel : Nat) → List Char → Option (List (String × Json) × List Char)
  | 0, _ => none
  | fuel + 1, cs =>
    match cs with
    | '"' :: cs =>
      (readString (cs.length + 1) cs).bind fun (k, cs) =>
        match skipBlanks cs with
        | ':' :: cs =>
          (readValue fuel (skipBlanks cs)).bind fun (v, cs) =>
            match skipBlanks cs with
            | '}' :: cs => some ([(.ofList k, v)], cs)
            | ',' :: cs => (readFields fuel (skipBlanks cs)).map fun (items, cs) =>
              ((.ofList k, v) :: items, cs)
            | _ => none
        | _ => none
    | _ => none

end

def loads (text : List Char) : Option Json :=
  (readValue readFloat (text.length + 1) (skipBlanks text)).bind fun (v, cs) =>
    if skipBlanks cs = [] then some v else none

/-! ## Strings are read back -/

theorem hexValue?_hexDigit : ∀ d < 16, hexValue? (hexDigit d) = some d := by decide

variable {n : Nat}

theorem hex4?_digits (hn : n < 0x10000) :
    hex4? (hexDigit (n / 4096)) (hexDigit (n / 256 % 16)) (hexDigit (n / 16 % 16))
      (hexDigit (n % 16)) = some n := by
  have h3 := hexValue?_hexDigit (n / 4096) (by omega)
  have h2 := hexValue?_hexDigit (n / 256 % 16) (by omega)
  have h1 := hexValue?_hexDigit (n / 16 % 16) (by omega)
  have h0 := hexValue?_hexDigit (n % 16) (by omega)
  have hsum : n / 4096 * 4096 + n / 256 % 16 * 256 + n / 16 % 16 * 16 + n % 16 = n := by omega
  simp only [hex4?, h3, h2, h1, h0, hsum]

theorem readChar_unicodeEscape (hn : n < 0x10000) (rest : List Char) :
    readChar (unicodeEscape n ++ rest) = readUnit n rest := by
  simp only [unicodeEscape, List.cons_append, List.nil_append, readChar, hex4?_digits hn,
    Option.bind_some]

theorem toNat_not_surrogate (c : Char) : ¬ (0xd800 ≤ c.toNat ∧ c.toNat ≤ 0xdfff) := by
  have := c.valid
  simp only [UInt32.isValidChar, Nat.isValidChar] at this
  have hval : c.toNat = c.val.toNat := rfl
  omega

theorem readUnit_toNat (c : Char) (rest : List Char) : readUnit c.toNat rest = some (c, rest) := by
  have := toNat_not_surrogate c
  unfold readUnit
  rw [if_neg (by omega), if_neg (by omega), Char.ofNat_toNat]

theorem readChar_escapeChar (c : Char) (rest : List Char) :
    readChar (escapeChar c ++ rest) = some (c, rest) := by
  unfold escapeChar
  split
  · subst_vars
    rfl
  split
  · subst_vars
    rfl
  split
  · subst_vars
    rfl
  split
  · subst_vars
    rfl
  split
  · subst_vars
    rfl
  split
  · next h8 =>
    obtain rfl : c = '\x08' := Char.ext (UInt32.toNat_inj.mp h8)
    rfl
  split
  · next h12 =>
    obtain rfl : c = '\x0c' := Char.ext (UInt32.toNat_inj.mp h12)
    rfl
  split
  · next hlow =>
    rw [readChar_unicodeEscape (by omega), readUnit_toNat]
  · next hquote hback _ _ _ _ _ hlow =>
    have hplain : ¬ (c = '\\' ∨ c = '"' ∨ c.toNat < 32) := by tauto
    rw [List.cons_append, List.nil_append, readChar, if_neg hplain]
    all_goals
      intros
      simp_all

variable {c : Char} {numeral rest cs : List Char} {v : Json} {fuel : Nat}
  {items : List (String × Json)}

theorem readUnit_surrogates {high low : Nat} (hhigh : 0xd800 ≤ high ∧ high ≤ 0xdbff)
    (hlow : 0xdc00 ≤ low ∧ low ≤ 0xdfff)
    (hc : 0x10000 + (high - 0xd800) * 1024 + (low - 0xdc00) = c.toNat) (rest : List Char) :
    readUnit high (unicodeEscape low ++ rest) = some (c, rest) := by
  have hdigits := hex4?_digits (n := low) (by omega)
  unfold readUnit
  rw [if_pos hhigh]
  simp only [unicodeEscape, List.cons_append, List.nil_append, hdigits, Option.bind_some]
  rw [if_pos hlow, hc, Char.ofNat_toNat]

theorem readChar_escapeCharAscii (c : Char) (rest : List Char) :
    readChar (escapeCharAscii c ++ rest) = some (c, rest) := by
  unfold escapeCharAscii
  split
  · exact readChar_escapeChar c rest
  split
  · next hlow => rw [readChar_unicodeEscape hlow, readUnit_toNat]
  · next hhigh =>
    have hvalid := c.valid
    simp only [UInt32.isValidChar, Nat.isValidChar] at hvalid
    have hval : c.toNat = c.val.toNat := rfl
    simp only [List.append_assoc]
    rw [readChar_unicodeEscape (by omega)]
    exact readUnit_surrogates (by omega) (by omega) (by omega) rest

/-- A way to write a character that the reader undoes. -/
structure Escapes (esc : Char → List Char) : Prop where
  read : ∀ c rest, readChar (esc c ++ rest) = some (c, rest)

namespace Escapes

theorem plain : Escapes escapeChar := ⟨readChar_escapeChar⟩

theorem ascii : Escapes escapeCharAscii := ⟨readChar_escapeCharAscii⟩

variable {esc : Char → List Char}

theorem head (h : Escapes esc) (c : Char) : ∃ d tail, esc c = d :: tail ∧ d ≠ '"' := by
  have hread := h.read c []
  cases hc : esc c with
  | nil => simp [hc, readChar] at hread
  | cons d tail =>
    refine ⟨d, tail, rfl, ?_⟩
    rintro rfl
    simp [hc, readChar] at hread

theorem length_le (h : Escapes esc) (cs : List Char) : cs.length ≤ (cs.flatMap esc).length := by
  induction cs with
  | nil => simp
  | cons c cs ih =>
    obtain ⟨d, tail, hc, -⟩ := h.head c
    simp only [List.flatMap_cons, hc, List.cons_append, List.length_cons, List.length_append]
    omega

theorem readString (h : Escapes esc) (cs rest : List Char) {fuel : Nat} (hfuel : cs.length < fuel) :
    readString fuel (cs.flatMap esc ++ '"' :: rest) = some (cs, rest) := by
  induction cs generalizing fuel with
  | nil =>
    obtain ⟨fuel, rfl⟩ := Nat.exists_eq_add_of_lt hfuel
    simp [Json.readString]
  | cons c cs ih =>
    obtain ⟨d, tail, hc, hquote⟩ := h.head c
    have hread := h.read c (cs.flatMap esc ++ '"' :: rest)
    obtain ⟨fuel, rfl⟩ : ∃ n, fuel = n + 1 := ⟨fuel - 1, by omega⟩
    have hrest := @ih fuel (by simpa using hfuel)
    simp only [List.flatMap_cons, hc, List.append_assoc, List.cons_append] at hread ⊢
    rw [Json.readString]
    · simp only [hread, Option.bind_some, hrest, Option.map_some]
    · rintro cs heq
      exact hquote (List.cons.inj heq).1

end Escapes

/-! ## Numbers are read back -/

theorem toList_toString_ofNat (m : Nat) : (toString (m : Int)).toList = Nat.toDigits 10 m := by
  simp [toString, Int.repr, Nat.repr]

theorem toList_toString_negSucc (m : Nat) :
    (toString (Int.negSucc m)).toList = '-' :: Nat.toDigits 10 (m + 1) := by
  simp [toString, Int.repr, Nat.repr]

theorem isDigit_toDigits {m : Nat} : ∀ c ∈ Nat.toDigits 10 m, c.isDigit := fun _ hc =>
  Nat.isDigit_of_mem_toDigits (by decide) (by decide) hc

theorem digitChar_ne_zero : ∀ d < 10, d ≠ 0 → Nat.digitChar d ≠ '0' := by decide

theorem toDigits_head {m : Nat} (hm : 0 < m) :
    ∃ d ds, Nat.toDigits 10 m = d :: ds ∧ d ≠ '0' := by
  induction m using Nat.strongRecOn with
  | ind m ih =>
    by_cases hlt : m < 10
    · exact ⟨_, [], Nat.toDigits_of_lt_base hlt, digitChar_ne_zero m hlt (by omega)⟩
    · obtain ⟨d, ds, hd, hne⟩ := ih (m / 10) (by omega) (by omega)
      refine ⟨d, ds ++ [Nat.digitChar (m % 10)], ?_, hne⟩
      rw [Nat.toDigits_of_base_le (by decide) (by omega), hd, List.cons_append]

theorem afterInteger_toDigits (m : Nat) : afterInteger (Nat.toDigits 10 m) = some [] := by
  rcases Nat.eq_zero_or_pos m with rfl | hm
  · rfl
  · obtain ⟨d, ds, hd, hne⟩ := toDigits_head hm
    have hdigits := isDigit_toDigits (m := m)
    rw [hd, List.forall_mem_cons] at hdigits
    have hminus : d ≠ '-' := by
      rintro rfl
      exact absurd hdigits.1 (by decide)
    rw [hd, afterInteger, if_pos hdigits.1, List.dropWhile_eq_nil_iff.mpr hdigits.2]
    all_goals
      intros
      simp_all

theorem afterInteger_neg (m : Nat) : afterInteger ('-' :: Nat.toDigits 10 (m + 1)) = some [] := by
  obtain ⟨d, ds, hd, hne⟩ := toDigits_head (Nat.succ_pos m)
  have hdigits := isDigit_toDigits (m := m + 1)
  rw [hd, List.forall_mem_cons] at hdigits
  rw [hd, afterInteger, if_pos hdigits.1, List.dropWhile_eq_nil_iff.mpr hdigits.2]
  all_goals
    intros
    simp_all

variable {readFloat}

theorem readNumber_int (n : Int) : readNumber readFloat (toString n).toList = some (.int n) := by
  cases n with
  | ofNat m =>
    have hread : readInteger (Nat.toDigits 10 m) = m := by
      have hdigits := isDigit_toDigits (m := m)
      unfold readInteger
      split
      · next heq =>
        rw [heq] at hdigits
        exact absurd (hdigits '-' (by simp)) (by decide)
      · rw [Nat.ofDigitChars_ten_toDigits]
    rw [Int.ofNat_eq_natCast, toList_toString_ofNat, readNumber, afterInteger_toDigits]
    simp only [hread]
  | negSucc m =>
    rw [toList_toString_negSucc, readNumber, afterInteger_neg]
    simp only [readInteger, Nat.ofDigitChars_ten_toDigits]
    rfl

theorem isNumberChar_of_isDigit (h : c.isDigit) : isNumberChar c := by
  simp [isNumberChar, h]

theorem isNumberChar_int (n : Int) : ∀ c ∈ (toString n).toList, isNumberChar c := by
  cases n with
  | ofNat m =>
    rw [Int.ofNat_eq_natCast, toList_toString_ofNat]
    exact fun c hc => isNumberChar_of_isDigit (isDigit_toDigits c hc)
  | negSucc m =>
    rw [toList_toString_negSucc, List.forall_mem_cons]
    exact ⟨by decide, fun c hc => isNumberChar_of_isDigit (isDigit_toDigits c hc)⟩

theorem isNumberChar_float (r : FloatText) : ∀ c ∈ r.val.toList, isNumberChar c := by
  have hclass : ∀ c ∈ "0123456789.e+-".toList, isNumberChar c :=
    List.all_eq_true.mp (by decide)
  intro c hc
  have hfloat := List.all_eq_true.mp r.property c hc
  exact hclass c (by simpa [isFloatChar] using hfloat)

/-! ## Values are read back -/

variable (readFloat) in
mutual

/-- A value Python can hold: the keys of a dict differ, and a float is the one that its `repr`
stands for. -/
def WellFormed : Json → Prop
  | float r num exp => readNumber readFloat r.val.toList = some (.float r num exp)
  | arr items => WellFormedItems items
  | obj items => (items.map Prod.fst).Nodup ∧ WellFormedFields items
  | _ => True

def WellFormedItems : List Json → Prop
  | [] => True
  | v :: rest => WellFormed v ∧ WellFormedItems rest

def WellFormedFields : List (String × Json) → Prop
  | [] => True
  | (_, v) :: rest => WellFormed v ∧ WellFormedFields rest

end

/-- How `json.dumps` writes strings and what it puts behind commas and colons. -/
structure Layout where
  esc : Char → List Char
  commaPad : List Char
  colonPad : List Char
  escapes : Escapes esc
  commaPad_blank : ∀ c ∈ commaPad, isBlank c
  colonPad_blank : ∀ c ∈ colonPad, isBlank c

namespace Layout

/-- `json.dumps(…, ensure_ascii=False)`. -/
def standard : Layout where
  esc := escapeChar
  commaPad := [' ']
  colonPad := [' ']
  escapes := .plain
  commaPad_blank := List.all_eq_true.mp (by decide)
  colonPad_blank := List.all_eq_true.mp (by decide)

/-- `json.dumps(…)`. -/
def ascii : Layout where
  esc := escapeCharAscii
  commaPad := [' ']
  colonPad := [' ']
  escapes := .ascii
  commaPad_blank := List.all_eq_true.mp (by decide)
  colonPad_blank := List.all_eq_true.mp (by decide)

/-- `json.dumps(…, separators=(",", ":"))`. -/
def compact : Layout where
  esc := escapeCharAscii
  commaPad := []
  colonPad := []
  escapes := .ascii
  commaPad_blank := by simp
  colonPad_blank := by simp

/-- `json.dumps(…, ensure_ascii=False, separators=(",", ":"))`. -/
def canonical : Layout where
  esc := escapeChar
  commaPad := []
  colonPad := []
  escapes := .plain
  commaPad_blank := by simp
  colonPad_blank := by simp

variable (L : Layout)

def string (s : String) : List Char := '"' :: (s.toList.flatMap L.esc ++ ['"'])

mutual

def write : Json → List Char
  | .str s => L.string s
  | .arr items => '[' :: (writeItems items ++ [']'])
  | .obj items => '{' :: (writeFields items ++ ['}'])
  | v => dumpChars v

def writeItems : List Json → List Char
  | [] => []
  | [v] => write v
  | v :: w :: rest => write v ++ ',' :: (L.commaPad ++ writeItems (w :: rest))

def writeFields : List (String × Json) → List Char
  | [] => []
  | [(k, v)] => L.string k ++ ':' :: (L.colonPad ++ write v)
  | (k, v) :: i :: rest =>
    L.string k ++ ':' :: (L.colonPad ++ (write v ++ ',' ::
      (L.commaPad ++ writeFields (i :: rest))))

end

end Layout

mutual

theorem dumpChars_eq_write (v : Json) : dumpChars v = Layout.standard.write v := by
  cases v with
  | str s => rfl
  | arr items => rw [dumpChars, Layout.write, dumpItems_eq_write]
  | obj items => rw [dumpChars, Layout.write, dumpFields_eq_write]
  | _ => rw [Layout.write] <;> simp

theorem dumpItems_eq_write (items : List Json) :
    dumpItems items = Layout.standard.writeItems items := by
  match items with
  | [] => rfl
  | [v] => rw [dumpItems, Layout.writeItems, dumpChars_eq_write v]
  | v :: w :: rest =>
    rw [dumpItems, Layout.writeItems, dumpChars_eq_write v, dumpItems_eq_write (w :: rest)]
    rfl

theorem dumpFields_eq_write (items : List (String × Json)) :
    dumpFields items = Layout.standard.writeFields items := by
  match items with
  | [] => rfl
  | [(k, v)] =>
    rw [dumpFields, Layout.writeFields, dumpChars_eq_write v]
    rfl
  | (k, v) :: i :: rest =>
    rw [dumpFields, Layout.writeFields, dumpChars_eq_write v, dumpFields_eq_write (i :: rest)]
    rfl

end

section

variable {L : Layout} (hcomma : L.commaPad = []) (hcolon : L.colonPad = [])
include hcomma hcolon

mutual

theorem compactChars_eq_write (v : Json) :
    compactChars (fun s => s.toList.flatMap L.esc) v = L.write v := by
  cases v with
  | str s => rfl
  | arr items => rw [compactChars, Layout.write, compactItems_eq_write]
  | obj items => rw [compactChars, Layout.write, compactFields_eq_write]
  | _ => rw [compactChars, Layout.write] <;> simp

theorem compactItems_eq_write (items : List Json) :
    compactItems (fun s => s.toList.flatMap L.esc) items = L.writeItems items := by
  match items with
  | [] => rfl
  | [v] => rw [compactItems, Layout.writeItems, compactChars_eq_write v]
  | v :: w :: rest =>
    rw [compactItems, Layout.writeItems, compactChars_eq_write v,
      compactItems_eq_write (w :: rest), hcomma]
    rfl

theorem compactFields_eq_write (items : List (String × Json)) :
    compactFields (fun s => s.toList.flatMap L.esc) items = L.writeFields items := by
  match items with
  | [] => rfl
  | [(k, v)] =>
    rw [compactFields, Layout.writeFields, compactChars_eq_write v]
    simp [Layout.string, hcolon]
  | (k, v) :: i :: rest =>
    rw [compactFields, Layout.writeFields, compactChars_eq_write v,
      compactFields_eq_write (i :: rest)]
    simp [Layout.string, hcomma, hcolon]

end

end

/-! ### Where a value starts and ends -/

theorem skipBlanks_cons (h : isBlank c = false) (cs : List Char) :
    skipBlanks (c :: cs) = c :: cs := by
  simp [skipBlanks, h]

variable {pad after : List Char}

theorem skipBlanks_append (h : ∀ c ∈ pad, isBlank c) (cs : List Char) :
    skipBlanks (pad ++ cs) = skipBlanks cs :=
  List.dropWhile_append_of_pos h

/-- The characters that start no numeral: blanks, brackets, quotes and the constants. -/
def otherStarts : List Char := [' ', '\t', '\n', '\r', '"', '[', ']', '{', '}', 'n', 't', 'f']

theorem isNumberChar_not_otherStarts (h : isNumberChar c) : c ∉ otherStarts := by
  have hother : otherStarts.all (!isNumberChar ·) := by decide
  intro hmem
  simpa [h] using List.all_eq_true.mp hother c hmem

theorem isBlank_of_isNumberChar (h : isNumberChar c) : isBlank c = false := by
  have := isNumberChar_not_otherStarts h
  simp only [otherStarts, List.mem_cons, not_or] at this
  simp [isBlank, this]

/-- The text after a numeral does not go on with it. -/
def EndsNumber (rest : List Char) : Prop := ∀ c ∈ rest.head?, isNumberChar c = false

theorem takeWhile_numeral (h : ∀ c ∈ numeral, isNumberChar c) (hrest : EndsNumber rest) :
    (numeral ++ rest).takeWhile isNumberChar = numeral ∧
      (numeral ++ rest).dropWhile isNumberChar = rest := by
  rw [List.takeWhile_append_of_pos h, List.dropWhile_append_of_pos h]
  cases rest with
  | nil => simp
  | cons c rest =>
    have hc := hrest c rfl
    simp [hc]

theorem readValue_number (fuel : Nat) (h : ∀ c ∈ numeral, isNumberChar c) (hrest : EndsNumber rest)
    (hread : readNumber readFloat numeral = some v) :
    readValue readFloat (fuel + 1) (numeral ++ rest) = some (v, rest) := by
  obtain ⟨htake, hdrop⟩ := takeWhile_numeral h hrest
  cases numeral with
  | nil => simp [readNumber, afterInteger] at hread
  | cons c tail =>
    have hstart := isNumberChar_not_otherStarts (h c (by simp))
    simp only [otherStarts, List.mem_cons, not_or] at hstart
    rw [readValue, htake, hdrop, hread, Option.map_some]
    all_goals
      intros
      simp_all

variable {L : Layout}

theorem write_int (n : Int) : L.write (.int n) = (toString n).toList := by
  rw [Layout.write, dumpChars] <;> simp

theorem write_float (r : FloatText) (num : Int) (exp : Nat) :
    L.write (.float r num exp) = r.val.toList := by
  rw [Layout.write, dumpChars] <;> simp

theorem write_head (hv : WellFormed readFloat v) :
    ∃ c tail, L.write v = c :: tail ∧ isBlank c = false ∧ c ≠ ']' := by
  have hnumeral : ∀ numeral : List Char, numeral ≠ [] → (∀ c ∈ numeral, isNumberChar c) →
      ∃ c tail, numeral = c :: tail ∧ isBlank c = false ∧ c ≠ ']' := by
    intro numeral hne hall
    obtain ⟨c, tail, rfl⟩ := List.exists_cons_of_ne_nil hne
    have hc := hall c (by simp)
    refine ⟨c, tail, rfl, isBlank_of_isNumberChar hc, ?_⟩
    rintro rfl
    exact absurd hc (by decide)
  cases v with
  | null => exact ⟨'n', _, rfl, by decide, by decide⟩
  | bool b =>
    cases b with
    | true => exact ⟨'t', _, rfl, by decide, by decide⟩
    | false => exact ⟨'f', _, rfl, by decide, by decide⟩
  | int n =>
    rw [write_int]
    refine hnumeral _ ?_ (isNumberChar_int n)
    obtain ⟨c, tail, hn, -⟩ := head_toString_int n
    rw [hn]
    exact List.cons_ne_nil c tail
  | float r num exp =>
    rw [write_float]
    refine hnumeral _ ?_ (isNumberChar_float r)
    intro hnil
    simp [WellFormed, hnil, readNumber, afterInteger] at hv
  | str s => exact ⟨'"', _, rfl, by decide, by decide⟩
  | arr items => exact ⟨'[', _, by rw [Layout.write], by decide, by decide⟩
  | obj items => exact ⟨'{', _, by rw [Layout.write], by decide, by decide⟩

theorem readString_string (L : Layout) (s : String) (rest : List Char) :
    readString ((s.toList.flatMap L.esc ++ '"' :: rest).length + 1)
      (s.toList.flatMap L.esc ++ '"' :: rest) = some (s.toList, rest) := by
  refine L.escapes.readString s.toList rest ?_
  have := L.escapes.length_le s.toList
  simp only [List.length_append, List.length_cons]
  omega

/-! ### The round trip -/

theorem endsNumber_cons (h : isNumberChar c = false) (rest : List Char) :
    EndsNumber (c :: rest) := by
  rintro d ⟨⟩
  exact h

theorem writeItems_head (rest : List Json) (hv : WellFormed readFloat v) :
    ∃ c tail, L.writeItems (v :: rest) = c :: tail ∧ isBlank c = false ∧ c ≠ ']' := by
  obtain ⟨c, tail, hhead, hc⟩ := write_head (L := L) hv
  cases rest with
  | nil => exact ⟨c, tail, by rw [Layout.writeItems, hhead], hc⟩
  | cons w rest => exact ⟨c, _, by rw [Layout.writeItems, hhead, List.cons_append], hc⟩

theorem writeFields_head (i : String × Json) (rest : List (String × Json)) :
    ∃ tail, L.writeFields (i :: rest) = '"' :: tail := by
  obtain ⟨k, v⟩ := i
  cases rest with
  | nil => exact ⟨_, by rw [Layout.writeFields, Layout.string, List.cons_append]⟩
  | cons j rest => exact ⟨_, by rw [Layout.writeFields, Layout.string, List.cons_append]⟩

variable {text : List Char} {k s : String}

theorem skipBlanks_pad {tail : List Char}
    (hpad : ∀ c ∈ pad, isBlank c) (hhead : text = c :: tail) (hblank : isBlank c = false)
    (rest : List Char) : skipBlanks (pad ++ (text ++ rest)) = text ++ rest := by
  rw [skipBlanks_append hpad, hhead, List.cons_append, skipBlanks_cons hblank]

theorem readValue_arr (hblank : isBlank c = false) (hclose : c ≠ ']') (fuel : Nat)
    (cs : List Char) :
    readValue readFloat (fuel + 1) ('[' :: c :: cs) =
      (readItems readFloat fuel (c :: cs)).map fun (items, cs) => (.arr items, cs) := by
  rw [readValue, skipBlanks_cons hblank]
  split
  · next heq => exact absurd (List.cons.inj heq).1 hclose
  · rfl

theorem readValue_obj (fuel : Nat) (cs : List Char) :
    readValue readFloat (fuel + 1) ('{' :: '"' :: cs) =
      (readFields readFloat fuel ('"' :: cs)).map fun (items, cs) =>
        (.obj (PyDict.update [] items), cs) := by
  rw [readValue, skipBlanks_cons (by decide)]
  rfl

theorem readItems_last
    (h : readValue readFloat fuel cs = some (v, ']' :: rest)) :
    readItems readFloat (fuel + 1) cs = some ([v], rest) := by
  rw [readItems, h, Option.bind_some]
  rfl

theorem readItems_next {items : List Json}
    (h : readValue readFloat fuel cs = some (v, ',' :: after))
    (hitems : readItems readFloat fuel (skipBlanks after) = some (items, rest)) :
    readItems readFloat (fuel + 1) cs = some (v :: items, rest) := by
  rw [readItems, h, Option.bind_some]
  simp only [skipBlanks_cons (by decide : isBlank ',' = false), hitems, Option.map_some]

theorem readFields_field (h : readValue readFloat fuel (skipBlanks cs) = some (v, rest)) :
    readFields readFloat (fuel + 1) (L.string k ++ ':' :: cs) =
      match skipBlanks rest with
      | '}' :: cs => some ([(k, v)], cs)
      | ',' :: cs => (readFields readFloat fuel (skipBlanks cs)).map fun (items, cs) =>
        ((k, v) :: items, cs)
      | _ => none := by
  simp only [Layout.string, List.cons_append, List.append_assoc, List.nil_append, readFields,
    readString_string, Option.bind_some, String.ofList_toList,
    skipBlanks_cons (by decide : isBlank ':' = false), h]

theorem readFields_last
    (h : readValue readFloat fuel (skipBlanks cs) = some (v, '}' :: rest)) :
    readFields readFloat (fuel + 1) (L.string k ++ ':' :: cs) = some ([(k, v)], rest) := by
  rw [readFields_field h]
  rfl

theorem readFields_next
    (h : readValue readFloat fuel (skipBlanks cs) = some (v, ',' :: after))
    (hitems : readFields readFloat fuel (skipBlanks after) = some (items, rest)) :
    readFields readFloat (fuel + 1) (L.string k ++ ':' :: cs) =
      some ((k, v) :: items, rest) := by
  rw [readFields_field h]
  simp only [skipBlanks_cons (by decide : isBlank ',' = false), hitems, Option.map_some]

mutual

/-- With as much fuel as the text is long, the reader undoes the writer. -/
theorem readValue_write (v : Json) (hv : WellFormed readFloat v) {n : Nat} {r : List Char}
    (hn : (L.write v).length ≤ n) (hr : EndsNumber r) :
    readValue readFloat n (L.write v ++ r) = some (v, r) := by
  obtain ⟨n, rfl⟩ : ∃ m, n = m + 1 := by
    obtain ⟨c, tail, hhead, -⟩ := write_head (L := L) hv
    exact ⟨n - 1, by simp only [hhead, List.length_cons] at hn; omega⟩
  match v, hv with
  | .null, _ => rfl
  | .bool true, _ => rfl
  | .bool false, _ => rfl
  | .int m, _ =>
    rw [write_int]
    exact readValue_number n (isNumberChar_int m) hr (readNumber_int m)
  | .float r num exp, hv =>
    rw [write_float]
    exact readValue_number n (isNumberChar_float r) hr hv
  | .str s, _ =>
    simp only [Layout.write, Layout.string, List.cons_append, List.append_assoc,
      List.nil_append, readValue, readString_string, Option.map_some, String.ofList_toList]
  | .arr [], _ => rfl
  | .arr (w :: items), hv =>
    obtain ⟨c, tail, hhead, hblank, hclose⟩ := writeItems_head (L := L) items hv.1
    have hitems := readItems_writeItems (w :: items) hv (List.cons_ne_nil w items) (n := n) (r := r)
      (by simp only [Layout.write, List.length_cons, List.length_append] at hn; omega)
    simp only [Layout.write, hhead, List.cons_append, List.append_assoc,
      List.nil_append] at hitems ⊢
    rw [readValue_arr hblank hclose, hitems, Option.map_some]
  | .obj [], _ => rfl
  | .obj (i :: items), hv =>
    obtain ⟨tail, hhead⟩ := writeFields_head (L := L) i items
    have hitems := readFields_writeFields (i :: items) hv.2 (List.cons_ne_nil i items) (n := n) (r := r)
      (by simp only [Layout.write, List.length_cons, List.length_append] at hn; omega)
    simp only [Layout.write, hhead, List.cons_append, List.append_assoc,
      List.nil_append] at hitems ⊢
    rw [readValue_obj, hitems, Option.map_some]
    simp only [PyDict.update_nil_of_nodup hv.1]

theorem readItems_writeItems (items : List Json) (h : WellFormedItems readFloat items)
    (hne : items ≠ []) {n : Nat} {r : List Char} (hn : (L.writeItems items).length < n) :
    readItems readFloat n (L.writeItems items ++ ']' :: r) = some (items, r) := by
  obtain ⟨n, rfl⟩ : ∃ m, n = m + 1 := ⟨n - 1, by omega⟩
  match items, h, hne with
  | [v], h, _ =>
    rw [Layout.writeItems] at hn ⊢
    exact readItems_last (readValue_write v h.1 (by omega) (endsNumber_cons (by decide) r))
  | v :: w :: items, h, _ =>
    obtain ⟨c, tail, hhead, hblank, -⟩ := writeItems_head (L := L) items h.2.1
    simp only [Layout.writeItems, List.length_append, List.length_cons, List.append_assoc,
      List.cons_append] at hn ⊢
    refine readItems_next (readValue_write v h.1 (by omega) (endsNumber_cons (by decide) _)) ?_
    rw [skipBlanks_pad L.commaPad_blank hhead hblank]
    exact readItems_writeItems (w :: items) h.2 (List.cons_ne_nil w items) (by omega)

theorem readFields_writeFields (items : List (String × Json))
    (h : WellFormedFields readFloat items) (hne : items ≠ []) {n : Nat} {r : List Char}
    (hn : (L.writeFields items).length < n) :
    readFields readFloat n (L.writeFields items ++ '}' :: r) = some (items, r) := by
  obtain ⟨n, rfl⟩ : ∃ m, n = m + 1 := ⟨n - 1, by omega⟩
  match items, h, hne with
  | [(k, v)], h, _ =>
    obtain ⟨c, tail, hhead, hblank, -⟩ := write_head (L := L) h.1
    simp only [Layout.writeFields, List.length_append, List.length_cons, List.append_assoc,
      List.cons_append] at hn ⊢
    refine readFields_last ?_
    rw [skipBlanks_pad L.colonPad_blank hhead hblank]
    exact readValue_write v h.1 (by omega) (endsNumber_cons (by decide) r)
  | (k, v) :: j :: items, h, _ =>
    obtain ⟨c, tail, hhead, hblank, -⟩ := write_head (L := L) h.1
    obtain ⟨tail', hhead'⟩ := writeFields_head (L := L) j items
    simp only [Layout.writeFields, List.length_append, List.length_cons, List.append_assoc,
      List.cons_append] at hn ⊢
    have hvalue := readValue_write v h.1 (n := n)
      (r := ',' :: (L.commaPad ++ (L.writeFields (j :: items) ++ '}' :: r)))
      (by omega) (endsNumber_cons (by decide) _)
    rw [← skipBlanks_pad L.colonPad_blank hhead hblank] at hvalue
    refine readFields_next hvalue ?_
    rw [skipBlanks_pad L.commaPad_blank hhead' (by decide)]
    exact readFields_writeFields (j :: items) h.2 (List.cons_ne_nil j items) (by omega)

end

theorem loads_write (L : Layout) (hv : WellFormed readFloat v) :
    loads readFloat (L.write v) = some v := by
  obtain ⟨c, tail, hhead, hblank, -⟩ := write_head (L := L) hv
  have hread := readValue_write (L := L) v hv (n := (L.write v).length + 1) (r := [])
    (Nat.le_succ _) (by simp [EndsNumber])
  have hskip : skipBlanks (L.write v) = L.write v := by rw [hhead, skipBlanks_cons hblank]
  rw [List.append_nil] at hread
  rw [loads, hskip, hread, Option.bind_some]
  rfl

theorem loads_dumps (hv : WellFormed readFloat v) : loads readFloat (dumps v).toList = some v := by
  rw [dumps, String.toList_ofList, dumpChars_eq_write, loads_write _ hv]

theorem loads_compact (hv : WellFormed readFloat v) :
    loads readFloat (compact v).toList = some v := by
  have hwrite : compactChars escapeAscii v = Layout.compact.write v :=
    compactChars_eq_write (L := Layout.compact) rfl rfl v
  rw [compact, String.toList_ofList, hwrite, loads_write _ hv]

/-! ## How long a string can be -/

theorem readUnit_length (h : readUnit n cs = some (c, rest)) : rest.length ≤ cs.length := by
  unfold readUnit at h
  split at h
  · split at h
    · obtain ⟨m, -, h⟩ := Option.bind_eq_some_iff.mp h
      split at h
      · obtain ⟨rfl, rfl⟩ := Prod.mk.inj (Option.some.inj h)
        simp only [List.length_cons]
        omega
      · contradiction
    · contradiction
  · split at h
    · contradiction
    · obtain ⟨rfl, rfl⟩ := Prod.mk.inj (Option.some.inj h)
      exact le_refl _

theorem readChar_length (h : readChar cs = some (c, rest)) : rest.length < cs.length := by
  unfold readChar at h
  split at h
  case h_1 =>
    obtain ⟨n, -, h⟩ := Option.bind_eq_some_iff.mp h
    have := readUnit_length h
    simp only [List.length_cons]
    omega
  case h_10 =>
    split at h
    · contradiction
    · obtain ⟨rfl, rfl⟩ := Prod.mk.inj (Option.some.inj h)
      simp
  case h_11 => contradiction
  -- the two-character escapes
  all_goals
    obtain ⟨rfl, rfl⟩ := Prod.mk.inj (Option.some.inj h)
    simp only [List.length_cons]
    omega

theorem readString_length {s : List Char}
    (h : readString fuel cs = some (s, rest)) : s.length + rest.length ≤ cs.length := by
  induction fuel generalizing cs s with
  | zero => simp [readString] at h
  | succ fuel ih =>
    unfold readString at h
    split at h
    · obtain ⟨rfl, rfl⟩ := Prod.mk.inj (Option.some.inj h)
      simp
    · obtain ⟨⟨c, cs'⟩, hc, h⟩ := Option.bind_eq_some_iff.mp h
      obtain ⟨⟨s', rest'⟩, hs, heq⟩ := Option.map_eq_some_iff.mp h
      obtain ⟨rfl, rfl⟩ := Prod.mk.inj heq
      have := readChar_length hc
      have := ih hs
      simp only [List.length_cons]
      omega

theorem readNumber_ne_str : readNumber readFloat numeral ≠ some (.str s) := by
  unfold readNumber
  split
  · simp
  · simp
  · split <;> simp

theorem readNumber_ne_obj : readNumber readFloat numeral ≠ some (.obj items) := by
  unfold readNumber
  split
  · simp
  · simp
  · split <;> simp

theorem readValue_str_length
    (h : readValue readFloat fuel cs = some (.str s, rest)) : s.toList.length < cs.length := by
  cases fuel with
  | zero => simp [readValue] at h
  | succ fuel =>
    rw [readValue.eq_def] at h
    simp only at h
    split at h
    case h_1 =>
      obtain ⟨⟨t, rest'⟩, hread, heq⟩ := Option.map_eq_some_iff.mp h
      obtain ⟨hstr, rfl⟩ := Prod.mk.inj heq
      obtain rfl := Json.str.inj hstr
      have := readString_length hread
      simp only [String.toList_ofList, List.length_cons]
      omega
    case h_7 =>
      obtain ⟨v, hread, heq⟩ := Option.map_eq_some_iff.mp h
      obtain ⟨rfl, rfl⟩ := Prod.mk.inj heq
      exact absurd hread readNumber_ne_str
    case h_2 => split at h <;> simp at h
    case h_3 => split at h <;> simp at h
    all_goals simp at h

theorem loads_str_length
    (h : loads readFloat text = some (.str s)) : s.toList.length < text.length := by
  obtain ⟨⟨v, rest⟩, hread, h⟩ := Option.bind_eq_some_iff.mp h
  simp only at h
  split at h
  · obtain rfl := Option.some.inj h
    have hlength := readValue_str_length hread
    have hskip : (skipBlanks text).length ≤ text.length :=
      (List.dropWhile_suffix isBlank).length_le
    omega
  · contradiction

theorem skipBlanks_length (cs : List Char) : (skipBlanks cs).length ≤ cs.length :=
  (List.dropWhile_suffix isBlank).length_le

theorem skipBlanks_eq_cons (h : skipBlanks cs = c :: rest) : rest.length < cs.length := by
  have hlength := skipBlanks_length cs
  rw [h, List.length_cons] at hlength
  exact hlength

theorem readItems_cases {items : List Json}
    (h : readItems readFloat (fuel + 1) cs = some (items, rest)) :
    ∃ v after, readValue readFloat fuel cs = some (v, after) ∧
      ((items = [v] ∧ rest.length < after.length) ∨
        ∃ next tail, readItems readFloat fuel next = some (tail, rest) ∧
          next.length < after.length ∧ items = v :: tail) := by
  rw [readItems] at h
  obtain ⟨⟨v, after⟩, hread, h⟩ := Option.bind_eq_some_iff.mp h
  refine ⟨v, after, hread, ?_⟩
  simp only at h
  split at h
  · next hskip =>
    obtain ⟨rfl, rfl⟩ := Prod.mk.inj (Option.some.inj h)
    exact .inl ⟨rfl, skipBlanks_eq_cons hskip⟩
  · next next hskip =>
    obtain ⟨⟨tail, rest'⟩, htail, heq⟩ := Option.map_eq_some_iff.mp h
    obtain ⟨rfl, rfl⟩ := Prod.mk.inj heq
    have hnext := skipBlanks_length next
    have hafter := skipBlanks_eq_cons hskip
    exact .inr ⟨skipBlanks next, tail, htail, by omega, rfl⟩
  · contradiction

theorem readFields_cases (h : readFields readFloat (fuel + 1) cs = some (items, rest)) :
    ∃ k v text after, readValue readFloat fuel text = some (v, after) ∧
      text.length < cs.length ∧
      ((items = [(k, v)] ∧ rest.length < after.length) ∨
        ∃ next tail, readFields readFloat fuel next = some (tail, rest) ∧
          next.length < after.length ∧ items = (k, v) :: tail) := by
  rw [readFields.eq_def] at h
  simp only at h
  split at h
  · next cs =>
    obtain ⟨⟨k, keyed⟩, hkey, h⟩ := Option.bind_eq_some_iff.mp h
    have hkeyed := readString_length hkey
    simp only at h
    split at h
    · next text hcolon =>
      obtain ⟨⟨v, after⟩, hread, h⟩ := Option.bind_eq_some_iff.mp h
      have htext := skipBlanks_length text
      have hlength := skipBlanks_eq_cons hcolon
      refine ⟨.ofList k, v, skipBlanks text, after, hread, by simp only [List.length_cons]; omega,
        ?_⟩
      simp only at h
      split at h
      · next hskip =>
        obtain ⟨rfl, rfl⟩ := Prod.mk.inj (Option.some.inj h)
        exact .inl ⟨rfl, skipBlanks_eq_cons hskip⟩
      · next next hskip =>
        obtain ⟨⟨tail, rest'⟩, htail, heq⟩ := Option.map_eq_some_iff.mp h
        obtain ⟨rfl, rfl⟩ := Prod.mk.inj heq
        have hnext := skipBlanks_length next
        have hafter := skipBlanks_eq_cons hskip
        exact .inr ⟨skipBlanks next, tail, htail, by omega, rfl⟩
      · contradiction
    · contradiction
  · contradiction

theorem readValue_cases (h : readValue readFloat (fuel + 1) cs = some (v, rest)) :
    rest.length ≤ cs.length ∧ (∀ items, v ≠ .obj items) ∨
      (∃ text items, readItems readFloat fuel text = some (items, rest) ∧
        text.length < cs.length ∧ v = .arr items) ∨
      (rest.length ≤ cs.length ∧ v = .obj []) ∨
      ∃ text items, readFields readFloat fuel text = some (items, rest) ∧
        text.length < cs.length ∧ v = .obj (PyDict.update [] items) := by
  rw [readValue.eq_def] at h
  simp only at h
  split at h
  case h_1 tail =>
    obtain ⟨⟨t, rest'⟩, hread, heq⟩ := Option.map_eq_some_iff.mp h
    obtain ⟨rfl, rfl⟩ := Prod.mk.inj heq
    have := readString_length hread
    exact .inl ⟨by simp only [List.length_cons]; omega, by simp⟩
  case h_2 tail =>
    have htail := skipBlanks_length tail
    split at h
    · next hskip =>
      obtain ⟨rfl, rfl⟩ := Prod.mk.inj (Option.some.inj h)
      have := skipBlanks_eq_cons hskip
      exact .inl ⟨by simp only [List.length_cons]; omega, by simp⟩
    · obtain ⟨⟨items, rest'⟩, hread, heq⟩ := Option.map_eq_some_iff.mp h
      obtain ⟨rfl, rfl⟩ := Prod.mk.inj heq
      exact .inr (.inl ⟨_, items, hread, by simp only [List.length_cons]; omega, rfl⟩)
  case h_3 tail =>
    have htail := skipBlanks_length tail
    split at h
    · next hskip =>
      obtain ⟨rfl, rfl⟩ := Prod.mk.inj (Option.some.inj h)
      have := skipBlanks_eq_cons hskip
      exact .inr (.inr (.inl ⟨by simp only [List.length_cons]; omega, rfl⟩))
    · obtain ⟨⟨items, rest'⟩, hread, heq⟩ := Option.map_eq_some_iff.mp h
      obtain ⟨rfl, rfl⟩ := Prod.mk.inj heq
      exact .inr (.inr (.inr ⟨_, items, hread, by simp only [List.length_cons]; omega, rfl⟩))
  case h_7 =>
    obtain ⟨w, hread, heq⟩ := Option.map_eq_some_iff.mp h
    obtain ⟨rfl, rfl⟩ := Prod.mk.inj heq
    refine .inl ⟨(List.dropWhile_suffix isNumberChar).length_le, ?_⟩
    rintro items rfl
    exact absurd hread readNumber_ne_obj
  all_goals
    obtain ⟨rfl, rfl⟩ := Prod.mk.inj (Option.some.inj h)
    exact .inl ⟨by simp only [List.length_cons]; omega, by simp⟩

/-- Reading does not lengthen the text: by induction on the fuel the three readers share. -/
theorem read_length (fuel : Nat) :
    (∀ cs v rest, readValue readFloat fuel cs = some (v, rest) → rest.length ≤ cs.length) ∧
      (∀ cs items rest, readItems readFloat fuel cs = some (items, rest) →
        rest.length ≤ cs.length) ∧
      ∀ cs items rest, readFields readFloat fuel cs = some (items, rest) →
        rest.length ≤ cs.length := by
  induction fuel with
  | zero => simp [readValue, readItems, readFields]
  | succ fuel ih =>
    obtain ⟨ihValue, ihItems, ihFields⟩ := ih
    refine ⟨?_, ?_, ?_⟩
    · intro cs v rest h
      obtain ⟨hrest, -⟩ | ⟨text, items, hread, htext, -⟩ | ⟨hrest, -⟩ |
        ⟨text, items, hread, htext, -⟩ := readValue_cases h
      · exact hrest
      · have := ihItems _ _ _ hread
        omega
      · exact hrest
      · have := ihFields _ _ _ hread
        omega
    · intro cs items rest h
      obtain ⟨v, after, hread, ⟨-, hrest⟩ | ⟨next, tail, htail, hnext, -⟩⟩ := readItems_cases h
      · have := ihValue _ _ _ hread
        omega
      · have := ihValue _ _ _ hread
        have := ihItems _ _ _ htail
        omega
    · intro cs items rest h
      obtain ⟨k, v, text, after, hread, htext, ⟨-, hrest⟩ | ⟨next, tail, htail, hnext, -⟩⟩ :=
        readFields_cases h
      · have := ihValue _ _ _ hread
        omega
      · have := ihValue _ _ _ hread
        have := ihFields _ _ _ htail
        omega

theorem readFields_str_length (h : readFields readFloat fuel cs = some (items, rest))
    (hmem : (k, .str s) ∈ items) : s.toList.length < cs.length := by
  induction fuel generalizing cs items with
  | zero => simp [readFields] at h
  | succ fuel ih =>
    obtain ⟨k', v, text, after, hread, htext, ⟨rfl, -⟩ | ⟨next, tail, htail, hnext, rfl⟩⟩ :=
      readFields_cases h
    · obtain ⟨rfl, rfl⟩ : k = k' ∧ .str s = v := by simpa using hmem
      have := readValue_str_length hread
      omega
    · have hafter := (read_length fuel).1 _ _ _ hread
      rcases List.mem_cons.mp hmem with heq | hmem
      · obtain ⟨rfl, rfl⟩ := Prod.mk.inj heq
        have := readValue_str_length hread
        omega
      · have := ih htail hmem
        omega

theorem loads_field_length {payload : Json}
    (h : loads readFloat text = some payload) (hget : payload.get? k = some (.str s)) :
    s.toList.length < text.length := by
  obtain ⟨⟨v, rest⟩, hread, h⟩ := Option.bind_eq_some_iff.mp h
  simp only at h
  split at h
  · obtain rfl := Option.some.inj h
    have hskip := skipBlanks_length text
    obtain ⟨-, hobj⟩ | ⟨_, items, -, -, rfl⟩ | ⟨-, rfl⟩ | ⟨fields, items, hitems, hfields, rfl⟩ :=
      readValue_cases hread
    · cases v with
      | obj items => exact absurd rfl (hobj items)
      | _ => simp [get?] at hget
    · simp [get?] at hget
    · simp [get?, PyDict.get?] at hget
    · have hmem := PyDict.mem_of_mem_update (PyDict.mem_of_get? hget)
      have := readFields_str_length hitems (hmem.resolve_left (by simp))
      omega
  · contradiction

end PawFlow.Lib.Json
