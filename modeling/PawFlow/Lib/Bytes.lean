import Mathlib.Tactic

/-!
# UTF-8 and Base64

`str.encode("utf-8")` and `bytes.decode("utf-8")` between strings and lists of bytes, and
`base64.b64encode` and `base64.b64decode` between bytes and text. The decoder is the lenient
one of `binascii`: characters outside the alphabet are skipped, and a complete padding ends the
input.
-/

namespace PawFlow.Lib

abbrev Bytes := List UInt8

/-! ## UTF-8 -/

/-- `s.encode("utf-8")`. -/
def encodeUtf8 (s : String) : Bytes := s.toList.flatMap String.utf8EncodeChar

/-- `b.decode("utf-8")`, `none` where it raises. -/
def decodeUtf8 (b : Bytes) : Option String :=
  b.toByteArray.utf8Decode?.map fun cs => .ofList cs.toList

theorem decodeUtf8_encodeUtf8 (s : String) : decodeUtf8 (encodeUtf8 s) = some s := by
  have henc : (encodeUtf8 s).toByteArray = s.toList.utf8Encode := rfl
  rw [decodeUtf8, henc, List.utf8Decode?_utf8Encode]
  simp

theorem length_le_length_flatMap (cs : List Char) :
    cs.length ≤ (cs.flatMap String.utf8EncodeChar).length := by
  induction cs with
  | nil => simp
  | cons c cs ih =>
    have hc := Char.utf8Size_pos c
    simp only [List.length_cons, List.flatMap_cons, List.length_append,
      String.length_utf8EncodeChar]
    omega

theorem length_decodeUtf8 {b : Bytes} {s : String} (h : decodeUtf8 b = some s) :
    s.toList.length ≤ b.length := by
  obtain ⟨cs, hcs, rfl⟩ := Option.map_eq_some_iff.mp h
  have hsome : b.toByteArray.utf8Decode?.isSome := Option.isSome_iff_exists.mpr ⟨cs, hcs⟩
  have hencode := ByteArray.utf8Encode_get_utf8Decode? (b := b.toByteArray) (h := hsome)
  rw [Option.get_of_eq_some hsome hcs] at hencode
  have hsize : (cs.toList.flatMap String.utf8EncodeChar).length = b.length := by
    have hsize := congrArg ByteArray.size hencode
    rwa [List.utf8Encode, List.size_toByteArray, List.size_toByteArray] at hsize
  rw [String.toList_ofList, ← hsize]
  exact length_le_length_flatMap cs.toList

/-! ## Base64 -/

def alphabet : List Char :=
  "ABCDEFGHIJKLMNOPQRSTUVWXYZabcdefghijklmnopqrstuvwxyz0123456789+/".toList

/-- The character of six bits. -/
def symbol (n : Nat) : Char := alphabet.getD n '='

/-- The six bits of a character. -/
def sextet? (c : Char) : Option Nat := alphabet.idxOf? c

/-- `base64.b64encode`. -/
def b64encode : Bytes → List Char
  | [] => []
  | [a] => [symbol (a.toNat / 4), symbol (a.toNat % 4 * 16), '=', '=']
  | [a, b] =>
    [symbol (a.toNat / 4), symbol (a.toNat % 4 * 16 + b.toNat / 16), symbol (b.toNat % 16 * 4), '=']
  | a :: b :: c :: rest =>
    symbol (a.toNat / 4) :: symbol (a.toNat % 4 * 16 + b.toNat / 16) ::
      symbol (b.toNat % 16 * 4 + c.toNat / 64) :: symbol (c.toNat % 64) :: b64encode rest

/-- `binascii.a2b_base64`, `none` where it raises: `quad` characters of a group of four have
been read and have left the bits `left`, and `pads` of padding have followed. -/
def b64decodeFrom (quad left pads : Nat) : List Char → Option Bytes
  | [] => if quad = 0 then some [] else none
  | c :: cs =>
    if c = '=' then
      if quad < 2 then b64decodeFrom quad left pads cs
      else if 4 ≤ quad + (pads + 1) then some []
      else b64decodeFrom quad left (pads + 1) cs
    else
      match sextet? c with
      | none => b64decodeFrom quad left pads cs
      | some d =>
        match quad with
        | 0 => b64decodeFrom 1 d 0 cs
        | 1 => (b64decodeFrom 2 (d % 16) 0 cs).map (UInt8.ofNat (left * 4 + d / 16) :: ·)
        | 2 => (b64decodeFrom 3 (d % 4) 0 cs).map (UInt8.ofNat (left * 16 + d / 4) :: ·)
        | _ => (b64decodeFrom 0 0 0 cs).map (UInt8.ofNat (left * 64 + d) :: ·)

example : b64decodeFrom 0 0 0 ['=', '='] = some [] := by simp [b64decodeFrom]

/-- `base64.b64decode(s.encode("ascii"))`. -/
def b64decode (s : List Char) : Option Bytes :=
  if s.all fun c => c.toNat < 128 then b64decodeFrom 0 0 0 s else none

theorem sextet?_symbol : ∀ n < 64, sextet? (symbol n) = some n ∧ symbol n ≠ '=' ∧
    (symbol n).toNat < 128 := by
  have halphabet : alphabet = _ := String.toList_ofList
  simp only [sextet?, symbol, halphabet]
  decide +kernel

theorem forall_mem_b64encode {P : Char → Prop} (hsymbol : ∀ n < 64, P (symbol n)) (hpad : P '=')
    (bytes : Bytes) : ∀ c ∈ b64encode bytes, P c := by
  induction bytes using b64encode.induct with
  | case1 => simp [b64encode]
  | case2 a =>
    have ha := a.toNat_lt
    simp only [b64encode, List.forall_mem_cons, List.not_mem_nil, false_implies, implies_true,
      and_true]
    exact ⟨hsymbol _ (by omega), hsymbol _ (by omega), hpad, hpad⟩
  | case3 a b =>
    have ha := a.toNat_lt
    have hb := b.toNat_lt
    simp only [b64encode, List.forall_mem_cons, List.not_mem_nil, false_implies, implies_true,
      and_true]
    exact ⟨hsymbol _ (by omega), hsymbol _ (by omega), hsymbol _ (by omega), hpad⟩
  | case4 a b c rest ih =>
    have ha := a.toNat_lt
    have hb := b.toNat_lt
    have hc := c.toNat_lt
    simp only [b64encode, List.forall_mem_cons]
    exact ⟨hsymbol _ (by omega), hsymbol _ (by omega), hsymbol _ (by omega),
      hsymbol _ (by omega), ih⟩

theorem isAscii_b64encode (bytes : Bytes) : ∀ c ∈ b64encode bytes, c.toNat < 128 :=
  forall_mem_b64encode (fun n hn => (sextet?_symbol n hn).2.2) (by decide) bytes

/-! The four characters of a group, one after the other. -/

variable {cs : List Char}

variable {left n pads : Nat}

theorem b64decodeFrom_first (hn : n < 64) :
    b64decodeFrom 0 left pads (symbol n :: cs) = b64decodeFrom 1 n 0 cs := by
  obtain ⟨hsextet, hpad, -⟩ := sextet?_symbol n hn
  simp only [b64decodeFrom, if_neg hpad, hsextet]

theorem b64decodeFrom_second (hn : n < 64) :
    b64decodeFrom 1 left pads (symbol n :: cs) =
      (b64decodeFrom 2 (n % 16) 0 cs).map (UInt8.ofNat (left * 4 + n / 16) :: ·) := by
  obtain ⟨hsextet, hpad, -⟩ := sextet?_symbol n hn
  simp only [b64decodeFrom, if_neg hpad, hsextet]

theorem b64decodeFrom_third (hn : n < 64) :
    b64decodeFrom 2 left pads (symbol n :: cs) =
      (b64decodeFrom 3 (n % 4) 0 cs).map (UInt8.ofNat (left * 16 + n / 4) :: ·) := by
  obtain ⟨hsextet, hpad, -⟩ := sextet?_symbol n hn
  simp only [b64decodeFrom, if_neg hpad, hsextet]

theorem b64decodeFrom_fourth (hn : n < 64) :
    b64decodeFrom 3 left pads (symbol n :: cs) =
      (b64decodeFrom 0 0 0 cs).map (UInt8.ofNat (left * 64 + n) :: ·) := by
  obtain ⟨hsextet, hpad, -⟩ := sextet?_symbol n hn
  simp only [b64decodeFrom, if_neg hpad, hsextet]

theorem ofNat_eq {a : UInt8} (h : n = a.toNat) : UInt8.ofNat n = a := by
  rw [h, UInt8.ofNat_toNat]

theorem b64decodeFrom_b64encode (bytes : Bytes) :
    b64decodeFrom 0 0 0 (b64encode bytes) = some bytes := by
  induction bytes using b64encode.induct with
  | case1 => rfl
  | case2 a =>
    have ha := a.toNat_lt
    have hbyte := ofNat_eq (a := a) (n := a.toNat / 4 * 4 + a.toNat % 4 * 16 / 16) (by omega)
    rw [b64encode, b64decodeFrom_first (by omega), b64decodeFrom_second (by omega), hbyte]
    simp [b64decodeFrom]
  | case3 a b =>
    have ha := a.toNat_lt
    have hb := b.toNat_lt
    have hbyte := ofNat_eq (a := a)
      (n := a.toNat / 4 * 4 + (a.toNat % 4 * 16 + b.toNat / 16) / 16) (by omega)
    have hbyte' := ofNat_eq (a := b)
      (n := (a.toNat % 4 * 16 + b.toNat / 16) % 16 * 16 + b.toNat % 16 * 4 / 4) (by omega)
    rw [b64encode, b64decodeFrom_first (by omega), b64decodeFrom_second (by omega),
      b64decodeFrom_third (by omega), hbyte, hbyte']
    simp [b64decodeFrom]
  | case4 a b c rest ih =>
    have ha := a.toNat_lt
    have hb := b.toNat_lt
    have hc := c.toNat_lt
    have hbyte := ofNat_eq (a := a)
      (n := a.toNat / 4 * 4 + (a.toNat % 4 * 16 + b.toNat / 16) / 16) (by omega)
    have hbyte' := ofNat_eq (a := b)
      (n := (a.toNat % 4 * 16 + b.toNat / 16) % 16 * 16 + (b.toNat % 16 * 4 + c.toNat / 64) / 4)
      (by omega)
    have hbyte'' := ofNat_eq (a := c)
      (n := (b.toNat % 16 * 4 + c.toNat / 64) % 4 * 64 + c.toNat % 64) (by omega)
    rw [b64encode, b64decodeFrom_first (by omega), b64decodeFrom_second (by omega),
      b64decodeFrom_third (by omega), b64decodeFrom_fourth (by omega), hbyte, hbyte', hbyte'', ih]
    rfl

theorem b64decode_b64encode (bytes : Bytes) : b64decode (b64encode bytes) = some bytes := by
  rw [b64decode, if_pos]
  · exact b64decodeFrom_b64encode bytes
  · simpa using isAscii_b64encode bytes

/-- A character gives at most one byte. -/
theorem length_b64decodeFrom {quad : Nat} {bytes : Bytes}
    (h : b64decodeFrom quad left pads cs = some bytes) : bytes.length ≤ cs.length := by
  induction cs generalizing quad left pads bytes with
  | nil =>
    unfold b64decodeFrom at h
    split at h
    · obtain rfl := Option.some.inj h
      rfl
    · cases h
  | cons c cs ih =>
    have hbyte : ∀ {quad left pads : Nat} {byte : UInt8},
        (b64decodeFrom quad left pads cs).map (byte :: ·) = some bytes →
        bytes.length ≤ (c :: cs).length := by
      intro quad left pads byte h
      obtain ⟨rest, hrest, rfl⟩ := Option.map_eq_some_iff.mp h
      exact Nat.succ_le_succ (ih hrest)
    unfold b64decodeFrom at h
    split at h
    · split at h
      · exact (ih h).trans (Nat.le_succ _)
      split at h
      · obtain rfl := Option.some.inj h
        exact Nat.zero_le _
      · exact (ih h).trans (Nat.le_succ _)
    · split at h
      · exact (ih h).trans (Nat.le_succ _)
      · split at h
        · exact (ih h).trans (Nat.le_succ _)
        · exact hbyte h
        · exact hbyte h
        · exact hbyte h

theorem length_b64decode {bytes : Bytes} (h : b64decode cs = some bytes) :
    bytes.length ≤ cs.length := by
  unfold b64decode at h
  split at h
  · exact length_b64decodeFrom h
  · cases h

end PawFlow.Lib
