import PawFlow.Lib.PyDict

/-!
# JSON values

The values `json.loads` builds, Python's `==` on them, and the text `json.dumps` writes
for them. A finite float is kept as the text `repr` gives it together with its exact value
`num / 2 ^ exp`; NaN and the infinities are no JSON values and are left out.

Substring searches of the development run over this text, so the second half states
what a dumped object must contain.
-/

namespace PawFlow.Lib

/-- The characters `repr` uses for a finite float. -/
def isFloatChar (c : Char) : Bool := c ∈ "0123456789.e+-".toList

/-- The text `repr` gives a finite float. -/
abbrev FloatText := { s : String // s.toList.all isFloatChar }

inductive Json
  | null
  | bool (b : Bool)
  | int (n : Int)
  | float (repr : FloatText) (num : Int) (exp : Nat)
  | str (s : String)
  | arr (items : List Json)
  | obj (items : List (String × Json))

namespace Json

def isNull : Json → Bool
  | null => true
  | _ => false

/-- Truth value of a Python object. -/
def truthy : Json → Bool
  | null => false
  | bool b => b
  | int n => n ≠ 0
  | float _ num _ => num ≠ 0
  | str s => s ≠ ""
  | arr items => !items.isEmpty
  | obj items => !items.isEmpty

/-- `hash(value)` is defined: lists and dicts are not hashable. -/
def hashable : Json → Bool
  | arr _ => false
  | obj _ => false
  | _ => true

/-- `value == s` for a string `s`. -/
def isStr (s : String) : Json → Bool
  | str t => t == s
  | _ => false

/-- The numerator and the power of two below it of a number (`True` is `1`). -/
def number? : Json → Option (Int × Nat)
  | bool b => some (if b then 1 else 0, 0)
  | int n => some (n, 0)
  | float _ num exp => some (num, exp)
  | _ => none

def numberEq (v w : Json) : Bool :=
  match number? v, number? w with
  | some (a, i), some (b, j) => a * 2 ^ j == b * 2 ^ i
  | _, _ => false

mutual

/-- Python's `==`: numbers by value across types, dicts whatever the order of their items. -/
def pyEq : Json → Json → Bool
  | null, null => true
  | str s, str t => s == t
  | arr xs, arr ys => pyEqItems xs ys
  | obj xs, obj ys => xs.length == ys.length && pyEqFields xs ys
  | v, w => numberEq v w

def pyEqItems : List Json → List Json → Bool
  | [], [] => true
  | v :: vs, w :: ws => pyEq v w && pyEqItems vs ws
  | _, _ => false

/-- Every item of the first dict is in the second. -/
def pyEqFields : List (String × Json) → List (String × Json) → Bool
  | [], _ => true
  | (k, v) :: rest, ys =>
    (match PyDict.get? ys k with
      | some w => pyEq v w
      | none => false) && pyEqFields rest ys

end

/-! ## Printing -/

def hexDigit (n : Nat) : Char :=
  if n < 10 then Char.ofNat ('0'.toNat + n) else Char.ofNat ('a'.toNat + (n - 10))

/-- `'\\u{0:04x}'.format(n)`. -/
def unicodeEscape (n : Nat) : List Char :=
  ['\\', 'u', hexDigit (n / 4096), hexDigit (n / 256 % 16), hexDigit (n / 16 % 16),
    hexDigit (n % 16)]

/-- The characters `json.dumps(…, ensure_ascii=False)` writes for one character of a string. -/
def escapeChar (c : Char) : List Char :=
  if c = '"' then ['\\', '"']
  else if c = '\\' then ['\\', '\\']
  else if c = '\n' then ['\\', 'n']
  else if c = '\r' then ['\\', 'r']
  else if c = '\t' then ['\\', 't']
  else if c.toNat = 8 then ['\\', 'b']
  else if c.toNat = 12 then ['\\', 'f']
  else if c.toNat < 32 then unicodeEscape c.toNat
  else [c]

/-- The same with `ensure_ascii=True`: everything outside printable ASCII becomes an
escape, above `U+FFFF` a surrogate pair. -/
def escapeCharAscii (c : Char) : List Char :=
  if c.toNat ≤ 126 then escapeChar c
  else if c.toNat < 0x10000 then unicodeEscape c.toNat
  else
    let n := c.toNat - 0x10000
    unicodeEscape (0xd800 + n / 1024) ++ unicodeEscape (0xdc00 + n % 1024)

/-- `json.dumps(s, ensure_ascii=False)[1:-1]`. -/
def escape (s : String) : List Char := s.toList.flatMap escapeChar

/-- `json.dumps(s)[1:-1]`. -/
def escapeAscii (s : String) : List Char := s.toList.flatMap escapeCharAscii

def quote (s : String) : List Char := '"' :: (escape s ++ ['"'])

mutual

/-- `json.dumps(value, ensure_ascii=False)`, as characters. -/
def dumpChars : Json → List Char
  | null => "null".toList
  | bool true => "true".toList
  | bool false => "false".toList
  | int n => (toString n).toList
  | float r _ _ => r.val.toList
  | str s => quote s
  | arr items => '[' :: (dumpItems items ++ [']'])
  | obj items => '{' :: (dumpFields items ++ ['}'])

def dumpItems : List Json → List Char
  | [] => []
  | [v] => dumpChars v
  | v :: w :: rest => dumpChars v ++ (", ".toList ++ dumpItems (w :: rest))

def dumpFields : List (String × Json) → List Char
  | [] => []
  | [(k, v)] => quote k ++ (": ".toList ++ dumpChars v)
  | (k, v) :: i :: rest =>
    quote k ++ (": ".toList ++ (dumpChars v ++ (", ".toList ++ dumpFields (i :: rest))))

end

def dumps (v : Json) : String := String.ofList (dumpChars v)

/-- `value.get(key)` of an object. -/
def get? : Json → String → Option Json
  | obj items, k => PyDict.get? items k
  | _, _ => none

example : dumps (.obj [("a", .arr [.int 1, .str "x\n"]), ("b", .null)]) =
    "\x7b\"a\": [1, \"x\\n\"], \"b\": null\x7d" := by decide

/-! ## Canonical text -/

/-- Python's order on keys: by code points. -/
def keyLe (a b : String × Json) : Bool := !decide (b.1.toList < a.1.toList)

mutual

/-- The value as `json.dumps(…, sort_keys=True)` walks it. -/
def sortKeys : Json → Json
  | arr items => arr (sortKeysItems items)
  | obj items => obj ((sortKeysFields items).insertionSort fun a b => keyLe a b)
  | v => v

def sortKeysItems : List Json → List Json
  | [] => []
  | v :: rest => sortKeys v :: sortKeysItems rest

def sortKeysFields : List (String × Json) → List (String × Json)
  | [] => []
  | (k, v) :: rest => (k, sortKeys v) :: sortKeysFields rest

end

mutual

/-- `json.dumps(value, separators=(",", ":"))`, as characters, with the escapes of strings
as a parameter. -/
def compactChars (esc : String → List Char) : Json → List Char
  | str s => '"' :: (esc s ++ ['"'])
  | arr items => '[' :: (compactItems esc items ++ [']'])
  | obj items => '{' :: (compactFields esc items ++ ['}'])
  | v => dumpChars v

def compactItems (esc : String → List Char) : List Json → List Char
  | [] => []
  | [v] => compactChars esc v
  | v :: w :: rest => compactChars esc v ++ ',' :: compactItems esc (w :: rest)

def compactFields (esc : String → List Char) : List (String × Json) → List Char
  | [] => []
  | [(k, v)] => '"' :: (esc k ++ '"' :: ':' :: compactChars esc v)
  | (k, v) :: i :: rest =>
    '"' :: (esc k ++ '"' :: ':' :: (compactChars esc v ++ ',' :: compactFields esc (i :: rest)))

end

/-- `json.dumps(value, separators=(",", ":"))`. -/
def compact (v : Json) : String := String.ofList (compactChars escapeAscii v)

/-- `json.dumps(value, ensure_ascii=False, sort_keys=True, separators=(",", ":"))`. -/
def canonical (v : Json) : String := String.ofList (compactChars escape (sortKeys v))

example : canonical (.obj [("b", .arr [.int 1, .null]), ("a", .str "x")]) =
    "\x7b\"a\":\"x\",\"b\":[1,null]\x7d" := by decide

/-- `isinstance(value, dict)`. -/
def isObj : Json → Bool
  | obj _ => true
  | _ => false

/-! ## What a dumped value contains -/

theorem escape_infix_quote (s : String) : escape s <:+: quote s :=
  ⟨['"'], ['"'], by simp [quote]⟩

theorem dumpFields_infix_obj (items : List (String × Json)) :
    dumpFields items <:+: dumpChars (.obj items) :=
  ⟨['{'], ['}'], by simp [dumpChars]⟩

theorem dumpItems_infix_arr (items : List Json) : dumpItems items <:+: dumpChars (.arr items) :=
  ⟨['['], [']'], by simp [dumpChars]⟩

variable {v : Json}

theorem dumpChars_infix_dumpItems : ∀ {items : List Json}, v ∈ items →
    dumpChars v <:+: dumpItems items
  | [w], h => by
    obtain rfl : v = w := by simpa using h
    rw [dumpItems]
  | w :: u :: rest, h => by
    rw [dumpItems]
    rcases List.mem_cons.mp h with rfl | h
    · exact (List.prefix_append _ _).isInfix
    · have htail := dumpChars_infix_dumpItems h
      exact htail.trans ((List.suffix_append _ _).trans (List.suffix_append _ _)).isInfix

variable {k : String}

theorem field_infix_dumpFields :
    ∀ {items : List (String × Json)}, (k, v) ∈ items →
      quote k ++ (": ".toList ++ dumpChars v) <:+: dumpFields items
  | [(k', v')], h => by
    obtain ⟨rfl, rfl⟩ : k = k' ∧ v = v' := by simpa using h
    rw [dumpFields]
  | (k', v') :: i :: rest, h => by
    rw [dumpFields]
    rcases List.mem_cons.mp h with heq | h
    · obtain ⟨rfl, rfl⟩ := Prod.mk.inj heq
      refine List.IsPrefix.isInfix ⟨", ".toList ++ dumpFields (i :: rest), ?_⟩
      simp only [List.append_assoc]
    · have htail := field_infix_dumpFields h
      refine htail.trans (List.IsSuffix.isInfix
        ⟨quote k' ++ (": ".toList ++ (dumpChars v' ++ ", ".toList)), ?_⟩)
      simp only [List.append_assoc]

variable {items : List (String × Json)} {t' : List Char}

theorem quote_key_infix_obj
    (h : (k, v) ∈ items) : quote k <:+: dumpChars (.obj items) :=
  ((List.prefix_append _ _).isInfix.trans (field_infix_dumpFields h)).trans
    (dumpFields_infix_obj items)

theorem dumpChars_field_infix_obj
    (h : (k, v) ∈ items) : dumpChars v <:+: dumpChars (.obj items) := by
  refine List.IsInfix.trans (List.IsInfix.trans ?_ (field_infix_dumpFields h))
    (dumpFields_infix_obj items)
  exact ((List.suffix_append _ _).trans (List.suffix_append _ _)).isInfix

/-! ## Where a dumped value starts -/

theorem escapeChar_cases (c : Char) :
    (escapeChar c = [c] ∧ c ≠ '"' ∧ c ≠ '\\') ∨ ∃ tail, escapeChar c = '\\' :: tail := by
  unfold escapeChar
  repeat' split
  all_goals first
    | exact .inr ⟨_, rfl⟩
    | exact .inl ⟨rfl, ‹_›, ‹_›⟩

/-- The closing quote of a string is the first quote after it: a string whose escaped text
reads like the plain text `l` is `l`. -/
theorem eq_of_escape_append {l cs t : List Char} (hl : ∀ c ∈ l, c ≠ '"' ∧ c ≠ '\\')
    (h : l ++ '"' :: t = cs.flatMap escapeChar ++ '"' :: t') : cs = l ∧ t = t' := by
  induction l generalizing cs with
  | nil =>
    cases cs with
    | nil => simpa using h
    | cons c cs =>
      rcases escapeChar_cases c with ⟨hc, hquote, -⟩ | ⟨tail, hc⟩
      · simp only [List.nil_append, List.flatMap_cons, hc, List.cons_append,
          List.cons.injEq] at h
        exact absurd h.1.symm hquote
      · simp [hc] at h
  | cons p l ih =>
    obtain ⟨hp, hl⟩ := List.forall_mem_cons.mp hl
    cases cs with
    | nil =>
      simp only [List.cons_append, List.flatMap_nil, List.nil_append, List.cons.injEq] at h
      exact absurd h.1 hp.1
    | cons c cs =>
      rcases escapeChar_cases c with ⟨hc, -, -⟩ | ⟨tail, hc⟩
      · simp only [List.cons_append, List.flatMap_cons, hc, List.nil_append,
          List.cons.injEq] at h
        obtain ⟨hcs, ht⟩ := ih hl h.2
        exact ⟨by rw [h.1, hcs], ht⟩
      · simp only [List.cons_append, List.flatMap_cons, hc, List.cons.injEq] at h
        exact absurd h.1 hp.2

theorem head_toString_int (n : Int) : ∃ c tail, (toString n).toList = c :: tail ∧ c ≠ '"' := by
  have hdigits : ∀ m : Nat, ∃ c tail, Nat.toDigits 10 m = c :: tail ∧ c ≠ '"' := by
    intro m
    cases hm : Nat.toDigits 10 m with
    | nil => exact absurd hm Nat.toDigits_ne_nil
    | cons c tail =>
      refine ⟨c, tail, rfl, ?_⟩
      rintro rfl
      have := Nat.isDigit_of_mem_toDigits (b := 10) (n := m) (c := '"') (by decide)
        (by decide) (by simp [hm])
      exact absurd this (by decide)
  cases n with
  | ofNat m => simpa [toString, Int.repr, Nat.repr] using hdigits m
  | negSucc m => exact ⟨'-', _, by simp [toString, Int.repr]; rfl, by decide⟩

theorem eq_str_of_dumpChars {t : List Char}
    (h : dumpChars v ++ t = '"' :: t') (ht : t.head? ≠ some '"') : ∃ s, v = .str s := by
  cases v with
  | null => simp [dumpChars] at h
  | bool b => cases b <;> simp [dumpChars] at h
  | int n =>
    obtain ⟨c, tail, hn, hc⟩ := head_toString_int n
    simp only [dumpChars, hn, List.cons_append, List.cons.injEq] at h
    exact absurd h.1 hc
  | float r num exp =>
    rw [dumpChars] at h
    cases hr : r.val.toList with
    | nil => simp [hr] at h; simp [h] at ht
    | cons c tail =>
      have hfloat := r.property
      simp only [hr, List.all_cons, Bool.and_eq_true] at hfloat
      simp only [hr, List.cons_append, List.cons.injEq] at h
      rw [h.1] at hfloat
      exact absurd hfloat.1 (by decide)
  | str s => exact ⟨s, rfl⟩
  | arr items => simp [dumpChars] at h
  | obj items => simp [dumpChars] at h

end Json

end PawFlow.Lib
