import Mathlib.Tactic

/-!
# Python string operations

The part of `str` the stores rely on, over Lean strings read as lists of code
points. `strip` removes exactly the code points for which `str.isspace` holds.
-/

namespace PawFlow.Lib

/-- The code points `str.strip()` removes. -/
def isSpace (c : Char) : Bool :=
  let n := c.toNat
  (9 ≤ n && n ≤ 13) || (28 ≤ n && n ≤ 32) || n = 0x85 || n = 0xA0 || n = 0x1680 ||
    (0x2000 ≤ n && n ≤ 0x200A) || n = 0x2028 || n = 0x2029 || n = 0x202F ||
    n = 0x205F || n = 0x3000

theorem not_isSpace_of_isAlphanum {c : Char} (h : c.isAlphanum) : isSpace c = false := by
  have hrange : 48 ≤ c.toNat ∧ c.toNat ≤ 122 := by
    delta Char.isAlphanum Char.isAlpha Char.isUpper Char.isLower Char.isDigit at h
    simp only [Bool.or_eq_true, Bool.and_eq_true, decide_eq_true_eq, ge_iff_le,
      UInt32.le_iff_toNat_le] at h
    have hval : c.toNat = c.val.toNat := rfl
    have hmin : 'a'.val.toNat = 97 ∧ 'A'.val.toNat = 65 ∧ '0'.val.toNat = 48 := by decide
    have hmax : 'z'.val.toNat = 122 ∧ 'Z'.val.toNat = 90 ∧ '9'.val.toNat = 57 := by decide
    omega
  simp only [isSpace, Bool.or_eq_false_iff, Bool.and_eq_false_iff, decide_eq_false_iff_not]
  omega

/-- `str.strip()`. -/
def strip (s : String) : String :=
  .ofList ((s.toList.dropWhile isSpace).reverse.dropWhile isSpace).reverse

variable {α : Type*} {w : Nat}

theorem dropWhile_append_of_dropWhile {p : α → Bool} {l m n : List α}
    (h : l.dropWhile p = m ++ n) : m.dropWhile p = m := by
  cases m with
  | nil => rfl
  | cons a m =>
    have hne : l.dropWhile p ≠ [] := by simp [h]
    have hhead := List.head_dropWhile_not p hne
    rw [List.dropWhile_cons_of_neg]
    simpa [h] using hhead

theorem strip_strip (s : String) : strip (strip s) = strip s := by
  unfold strip
  rw [String.toList_ofList]
  set l := s.toList.dropWhile isSpace with hl
  have hsplit : l = (l.reverse.dropWhile isSpace).reverse ++
      (l.reverse.takeWhile isSpace).reverse := by
    rw [← List.reverse_append, List.takeWhile_append_dropWhile, List.reverse_reverse]
  rw [dropWhile_append_of_dropWhile (hl.symm.trans hsplit), List.reverse_reverse,
    dropWhile_append_of_dropWhile (List.append_nil _).symm]

def startsWith (s pre : String) : Bool := pre.toList.isPrefixOf s.toList

/-- `needle in text`. -/
def occursIn (needle : List Char) : List Char → Bool
  | [] => needle.isEmpty
  | c :: cs => needle.isPrefixOf (c :: cs) || occursIn needle cs

theorem isPrefix_append_cases {p a b : List α} (h : p <+: a ++ b) :
    p <+: a ∨ ∃ q, p = a ++ q ∧ q <+: b := by
  rcases List.prefix_or_prefix_of_prefix h (List.prefix_append a b) with hp | ⟨q, rfl⟩
  · exact .inl hp
  · exact .inr ⟨q, rfl, (List.prefix_append_right_inj a).mp h⟩

theorem occursIn_iff {needle text : List Char} : occursIn needle text ↔ needle <:+: text := by
  induction text with
  | nil => simp [occursIn]
  | cons c cs ih => simp [occursIn, ih, List.infix_cons_iff]

/-! ## Numbers in names -/

/-- `f"{n:0wd}"`. -/
def formatDecimal (w n : Nat) : List Char :=
  List.replicate (w - (Nat.toDigits 10 n).length) '0' ++ Nat.toDigits 10 n

variable {n : Nat}

theorem length_toDigits_le (hn : n < 10 ^ (w + 1)) : (Nat.toDigits 10 n).length ≤ w + 1 := by
  induction w generalizing n with
  | zero => rw [Nat.toDigits_of_lt_base (by simpa using hn), List.length_singleton]
  | succ w ih =>
    rw [Nat.toDigits_eq_if (by decide)]
    split
    · simp
    · have := ih (n := n / 10) (by rw [pow_succ] at hn; omega)
      simp only [List.length_append, List.length_singleton]
      omega

theorem formatDecimal_succ (hw : 0 < w) (hn : n < 10 ^ (w + 1)) :
    formatDecimal (w + 1) n = formatDecimal w (n / 10) ++ [Nat.digitChar (n % 10)] := by
  unfold formatDecimal
  by_cases h : n < 10
  · have hdiv : n / 10 = 0 := by omega
    have hmod : n % 10 = n := by omega
    obtain ⟨v, rfl⟩ : ∃ v, w = v + 1 := ⟨w - 1, by omega⟩
    rw [hdiv, hmod, Nat.toDigits_of_lt_base h, Nat.toDigits_zero]
    simp only [List.length_singleton, Nat.add_sub_cancel]
    rw [List.replicate_succ']
  · rw [Nat.toDigits_of_base_le (by decide) (by omega), List.length_append,
      List.length_singleton, Nat.add_sub_add_right, List.append_assoc]

theorem length_formatDecimal (hw : 0 < w) (hn : n < 10 ^ w) : (formatDecimal w n).length = w := by
  obtain ⟨v, rfl⟩ : ∃ v, w = v + 1 := ⟨w - 1, by omega⟩
  have := length_toDigits_le hn
  simp only [formatDecimal, List.length_append, List.length_replicate]
  omega

theorem lt_append_of_length_eq [LT α] {a b : List α} (x y : List α)
    (hlen : a.length = b.length) (h : a < b) : a ++ x < b ++ y := by
  induction a generalizing b with
  | nil =>
    obtain rfl : b = [] := List.length_eq_zero_iff.mp hlen.symm
    simp at h
  | cons c a ih =>
    cases b with
    | nil => simp at hlen
    | cons d b =>
      rw [List.cons_append, List.cons_append, List.cons_lt_cons_iff]
      rcases List.cons_lt_cons_iff.mp h with hcd | ⟨rfl, hab⟩
      · exact .inl hcd
      · exact .inr ⟨rfl, ih (by simpa using hlen) hab⟩

variable {m : Nat}

theorem digitChar_lt (h : m < n) (hn : n < 10) : Nat.digitChar m < Nat.digitChar n := by
  rw [Char.lt_def, UInt32.lt_iff_toNat_lt]
  have hm := Nat.toNat_digitChar_of_lt_ten (n := m) (by omega)
  have hn' := Nat.toNat_digitChar_of_lt_ten hn
  simp only [Char.toNat] at hm hn'
  omega

theorem formatDecimal_lt (hw : 0 < w) (hmn : m < n) (hn : n < 10 ^ w) :
    formatDecimal w m < formatDecimal w n := by
  induction w, hw using Nat.le_induction generalizing m n with
  | base =>
    have hn10 : n < 10 := by simpa using hn
    have hm10 : m < 10 := by omega
    simp only [formatDecimal, Nat.toDigits_of_lt_base hn10, Nat.toDigits_of_lt_base hm10]
    simpa [List.cons_lt_cons_iff] using digitChar_lt hmn hn10
  | succ w hw ih =>
    have hw' : 0 < w := hw
    have hdiv : ∀ {k}, k < 10 ^ (w + 1) → k / 10 < 10 ^ w := by
      intro k hk
      rw [pow_succ] at hk
      omega
    rw [formatDecimal_succ hw' hn, formatDecimal_succ hw' (by omega)]
    rcases Nat.lt_or_ge (m / 10) (n / 10) with h | h
    · refine lt_append_of_length_eq _ _ ?_ (ih h (hdiv hn))
      rw [length_formatDecimal hw' (hdiv hn), length_formatDecimal hw' (hdiv (by omega))]
    · have hsame : m / 10 = n / 10 := by omega
      have hdigit := digitChar_lt (m := m % 10) (n := n % 10) (by omega) (by omega)
      rw [hsame]
      exact List.append_left_lt (by simpa [List.cons_lt_cons_iff] using hdigit)

/-! ## Integers in text -/

/-- The digit zero of every script with decimal digits; its nine successors follow it. -/
def digitZeros : List Nat :=
  [0x30, 0x660, 0x6F0, 0x7C0, 0x966, 0x9E6, 0xA66, 0xAE6, 0xB66, 0xBE6, 0xC66, 0xCE6, 0xD66,
   0xDE6, 0xE50, 0xED0, 0xF20, 0x1040, 0x1090, 0x17E0, 0x1810, 0x1946, 0x19D0, 0x1A80, 0x1A90,
   0x1B50, 0x1BB0, 0x1C40, 0x1C50, 0xA620, 0xA8D0, 0xA900, 0xA9D0, 0xA9F0, 0xAA50, 0xABF0,
   0xFF10, 0x104A0, 0x10D30, 0x11066, 0x110F0, 0x11136, 0x111D0, 0x112F0, 0x11450, 0x114D0,
   0x11650, 0x116C0, 0x11730, 0x118E0, 0x11950, 0x11C50, 0x11D50, 0x11DA0, 0x16A60, 0x16AC0,
   0x16B50, 0x1D7CE, 0x1D7D8, 0x1D7E2, 0x1D7EC, 0x1D7F6, 0x1E140, 0x1E2F0, 0x1E950, 0x1FBF0]

/-- The value of a decimal digit of any script. -/
def decimal? (c : Char) : Option Nat :=
  (digitZeros.find? fun z => z ≤ c.toNat && c.toNat < z + 10).map (c.toNat - ·)

/-- Digits, with single underscores between them; `after` says that a digit comes before. -/
def readDigits (value : Nat) (after : Bool) : List Char → Option Nat
  | [] => if after then some value else none
  | c :: cs =>
    match decimal? c with
    | some d => readDigits (value * 10 + d) true cs
    | none => if c = '_' ∧ after then readDigits value false cs else none

/-- `int(text)`, `none` where it raises `ValueError`. The separators 28 to 31 are no space for
it, and it refuses more than 4300 digits. -/
def int? (text : String) : Option Int :=
  let blank := fun c => isSpace c && !(28 ≤ c.toNat && c.toNat ≤ 31)
  let cs := ((text.toList.dropWhile blank).reverse.dropWhile blank).reverse
  if 4300 < (cs.filter fun c => (decimal? c).isSome).length then none
  else match cs with
    | '-' :: cs => (readDigits 0 false cs).map fun n => -(n : Int)
    | '+' :: cs => (readDigits 0 false cs).map Int.ofNat
    | cs => (readDigits 0 false cs).map Int.ofNat

/-! ## Numbers in unary -/

theorem replicate_append_inj {a b b' : Char} (hb : b ≠ a) (hb' : b' ≠ a)
    {l l' : List Char} (h : List.replicate m a ++ b :: l = List.replicate n a ++ b' :: l') :
    m = n ∧ b :: l = b' :: l' := by
  induction m generalizing n with
  | zero =>
    cases n with
    | zero => exact ⟨rfl, h⟩
    | succ n =>
      rw [List.replicate_succ] at h
      exact absurd (List.cons.inj h).1 hb
  | succ m ih =>
    rw [List.replicate_succ] at h
    cases n with
    | zero => exact absurd (List.cons.inj h).1.symm hb'
    | succ n =>
      rw [List.replicate_succ] at h
      obtain ⟨rfl, hrest⟩ := ih (List.cons.inj h).2
      exact ⟨rfl, hrest⟩

end PawFlow.Lib
