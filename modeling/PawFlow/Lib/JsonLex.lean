import PawFlow.Lib.JsonText

/-!
# The shape of JSON text

Text in which every string ends and every bracket is closed by its partner. What the reader accepts
has this shape, whatever its numerals and constants are.
-/

namespace PawFlow.Lib.Json

/-- The characters that may follow a backslash. -/
def escapeLetters : List Char := ['"', '\\', '/', 'b', 'f', 'n', 'r', 't', 'u']

/-- What stands between the quotes of a string. -/
inductive StringBody : List Char → Prop
  | nil : StringBody []
  | plain {c : Char} {cs : List Char} : c ≠ '"' → c ≠ '\\' → 32 ≤ c.toNat → StringBody cs →
      StringBody (c :: cs)
  | escape {e : Char} {cs : List Char} : e ∈ escapeLetters → StringBody cs →
      StringBody ('\\' :: e :: cs)

/-- Text in which strings and brackets are closed. -/
inductive Closed : List Char → Prop
  | nil : Closed []
  | plain {c : Char} {cs : List Char} : c ∉ ['"', '[', ']', '{', '}'] → Closed cs → Closed (c :: cs)
  | string {body cs : List Char} : StringBody body → Closed cs → Closed ('"' :: (body ++ '"' :: cs))
  | list {inner cs : List Char} : Closed inner → Closed cs → Closed ('[' :: (inner ++ ']' :: cs))
  | dict {inner cs : List Char} : Closed inner → Closed cs → Closed ('{' :: (inner ++ '}' :: cs))

section

variable {cs cs' rest : List Char}

theorem StringBody.append (h : StringBody cs) (h' : StringBody cs') : StringBody (cs ++ cs') := by
  induction h with
  | nil => exact h'
  | plain hquote hslash hprint _ ih => exact .plain hquote hslash hprint ih
  | escape he _ ih => exact .escape he ih

theorem Closed.append (h : Closed cs) (h' : Closed cs') : Closed (cs ++ cs') := by
  induction h with
  | nil => exact h'
  | plain hc _ ih => exact .plain hc ih
  | string hbody _ ih =>
    rw [List.cons_append, List.append_assoc, List.cons_append]
    exact .string hbody ih
  | list hinner _ _ ih =>
    rw [List.cons_append, List.append_assoc, List.cons_append]
    exact .list hinner ih
  | dict hinner _ _ ih =>
    rw [List.cons_append, List.append_assoc, List.cons_append]
    exact .dict hinner ih

theorem closed_of_plain (h : ∀ c ∈ cs, c ∉ ['"', '[', ']', '{', '}']) : Closed cs := by
  induction cs with
  | nil => exact .nil
  | cons c cs ih => exact .plain (h c (by simp)) (ih fun d hd => h d (List.mem_cons_of_mem _ hd))

theorem skipBlanks_closed (cs : List Char) :
    ∃ blanks, Closed blanks ∧ cs = blanks ++ skipBlanks cs := by
  refine ⟨cs.takeWhile isBlank, closed_of_plain fun c hc => ?_,
    (List.takeWhile_append_dropWhile).symm⟩
  have hblank : isBlank c = true := List.mem_takeWhile_imp hc
  rintro hmem
  fin_cases hmem <;> exact absurd hblank (by decide)

/-! ## Strings -/

variable {c : Char}

variable {n : Nat}

theorem stringBody_of_hexValue? (h : hexValue? c = some n)
    (hrest : StringBody cs) : StringBody (c :: cs) := by
  refine .plain ?_ ?_ ?_ hrest
  · rintro rfl
    have hnone : hexValue? '"' = none := by decide
    exact absurd (hnone.symm.trans h) (by simp)
  · rintro rfl
    have hnone : hexValue? '\\' = none := by decide
    exact absurd (hnone.symm.trans h) (by simp)
  · unfold hexValue? at h
    split at h
    · next hdigit =>
      simp only [Char.isDigit, Bool.and_eq_true, decide_eq_true_eq] at hdigit
      have hle : '0'.toNat ≤ c.toNat := hdigit.1
      exact le_trans (by decide) hle
    · split at h
      · next hlower =>
        have hle : 'a'.toNat ≤ c.toNat := hlower.1
        exact le_trans (by decide) hle
      · split at h
        · next hupper =>
          have hle : 'A'.toNat ≤ c.toNat := hupper.1
          exact le_trans (by decide) hle
        · exact absurd h (by simp)

theorem stringBody_of_hex4? {a b d : Char} (h : hex4? a b c d = some n) :
    StringBody [a, b, c, d] := by
  unfold hex4? at h
  split at h
  · next ha hb hc hd =>
    exact stringBody_of_hexValue? ha (stringBody_of_hexValue? hb
      (stringBody_of_hexValue? hc (stringBody_of_hexValue? hd .nil)))
  · exact absurd h (by simp)

theorem readUnit_body (h : readUnit n cs = some (c, rest)) :
    ∃ used, StringBody used ∧ cs = used ++ rest := by
  unfold readUnit at h
  split at h
  · split at h
    · next a b c d tail =>
      obtain ⟨m, hm, h⟩ := Option.bind_eq_some_iff.mp h
      split at h
      · obtain ⟨-, rfl⟩ := Prod.mk.inj (Option.some.inj h)
        exact ⟨_, .escape (by decide) (stringBody_of_hex4? hm), rfl⟩
      · exact absurd h (by simp)
    · exact absurd h (by simp)
  · split at h
    · exact absurd h (by simp)
    · obtain ⟨-, rfl⟩ := Prod.mk.inj (Option.some.inj h)
      exact ⟨[], .nil, rfl⟩

theorem readChar_body (h : readChar cs = some (c, rest)) :
    ∃ used, StringBody used ∧ cs = used ++ rest := by
  unfold readChar at h
  split at h
  case h_1 =>
    obtain ⟨n, hn, h⟩ := Option.bind_eq_some_iff.mp h
    obtain ⟨used, hused, rfl⟩ := readUnit_body h
    exact ⟨_, .escape (by decide) ((stringBody_of_hex4? hn).append hused), rfl⟩
  case h_10 =>
    split at h
    · exact absurd h (by simp)
    · next hplain =>
      obtain ⟨rfl, rfl⟩ := Prod.mk.inj (Option.some.inj h)
      rw [not_or, not_or] at hplain
      exact ⟨[_], .plain hplain.2.1 hplain.1 (by omega) .nil, rfl⟩
  case h_11 => exact absurd h (by simp)
  -- the two-character escapes
  all_goals
    obtain ⟨-, rfl⟩ := Prod.mk.inj (Option.some.inj h)
    exact ⟨_, .escape (by decide) .nil, rfl⟩

theorem readString_body {fuel : Nat} {s : List Char} (h : readString fuel cs = some (s, rest)) :
    ∃ body, StringBody body ∧ cs = body ++ '"' :: rest := by
  induction fuel generalizing cs s with
  | zero => exact absurd h (by simp [readString])
  | succ fuel ih =>
    unfold readString at h
    split at h
    · obtain ⟨-, rfl⟩ := Prod.mk.inj (Option.some.inj h)
      exact ⟨[], .nil, rfl⟩
    · obtain ⟨⟨c, cs'⟩, hc, h⟩ := Option.bind_eq_some_iff.mp h
      obtain ⟨⟨s', rest'⟩, hs, heq⟩ := Option.map_eq_some_iff.mp h
      obtain ⟨-, rfl⟩ := Prod.mk.inj heq
      obtain ⟨used, hused, rfl⟩ := readChar_body hc
      obtain ⟨body, hbody, rfl⟩ := ih hs
      exact ⟨used ++ body, hused.append hbody, by simp⟩

/-! ## Values -/

variable {readFloat : List Char → Option (FloatText × Int × Nat)}

theorem read_closed (fuel : Nat) :
    (∀ cs v rest, readValue readFloat fuel cs = some (v, rest) →
      ∃ used, Closed used ∧ used ≠ [] ∧ cs = used ++ rest) ∧
    (∀ cs items rest, readItems readFloat fuel cs = some (items, rest) →
      ∃ used, Closed used ∧ cs = used ++ ']' :: rest) ∧
    ∀ cs items rest, readFields readFloat fuel cs = some (items, rest) →
      ∃ used, Closed used ∧ cs = used ++ '}' :: rest := by
  induction fuel with
  | zero => simp [readValue, readItems, readFields]
  | succ fuel ih =>
    obtain ⟨ihValue, ihItems, ihFields⟩ := ih
    refine ⟨?_, ?_, ?_⟩
    · intro cs v rest h
      rw [readValue.eq_def] at h
      simp only at h
      split at h
      case h_1 tail =>
        obtain ⟨⟨s, rest'⟩, hread, heq⟩ := Option.map_eq_some_iff.mp h
        obtain ⟨-, rfl⟩ := Prod.mk.inj heq
        obtain ⟨body, hbody, rfl⟩ := readString_body hread
        exact ⟨'"' :: (body ++ ['"']), .string hbody .nil, by simp, by simp⟩
      case h_2 tail =>
        obtain ⟨blanks, hblanks, htail⟩ := skipBlanks_closed tail
        split at h
        · next hskip =>
          obtain ⟨-, rfl⟩ := Prod.mk.inj (Option.some.inj h)
          rw [hskip] at htail
          exact ⟨'[' :: (blanks ++ [']']), .list hblanks .nil, by simp, by simp [htail]⟩
        · obtain ⟨⟨items, rest'⟩, hread, heq⟩ := Option.map_eq_some_iff.mp h
          obtain ⟨-, rfl⟩ := Prod.mk.inj heq
          obtain ⟨used, hused, hsplit⟩ := ihItems _ _ _ hread
          rw [hsplit] at htail
          exact ⟨'[' :: ((blanks ++ used) ++ [']']), .list (hblanks.append hused) .nil, by simp,
            by simp [htail]⟩
      case h_3 tail =>
        obtain ⟨blanks, hblanks, htail⟩ := skipBlanks_closed tail
        split at h
        · next hskip =>
          obtain ⟨-, rfl⟩ := Prod.mk.inj (Option.some.inj h)
          rw [hskip] at htail
          exact ⟨'{' :: (blanks ++ ['}']), .dict hblanks .nil, by simp, by simp [htail]⟩
        · obtain ⟨⟨items, rest'⟩, hread, heq⟩ := Option.map_eq_some_iff.mp h
          obtain ⟨-, rfl⟩ := Prod.mk.inj heq
          obtain ⟨used, hused, hsplit⟩ := ihFields _ _ _ hread
          rw [hsplit] at htail
          exact ⟨'{' :: ((blanks ++ used) ++ ['}']), .dict (hblanks.append hused) .nil, by simp,
            by simp [htail]⟩
      case h_7 =>
        obtain ⟨w, hread, heq⟩ := Option.map_eq_some_iff.mp h
        obtain ⟨-, rfl⟩ := Prod.mk.inj heq
        refine ⟨cs.takeWhile isNumberChar, closed_of_plain fun c hc => ?_, ?_,
          (List.takeWhile_append_dropWhile).symm⟩
        · have hnumber : isNumberChar c = true := List.mem_takeWhile_imp hc
          rintro hmem
          fin_cases hmem <;> exact absurd hnumber (by decide)
        · intro hnil
          rw [hnil] at hread
          exact absurd hread (by simp [readNumber, afterInteger])
      case h_4 =>
        obtain ⟨-, rfl⟩ := Prod.mk.inj (Option.some.inj h)
        exact ⟨"null".toList, closed_of_plain (by simp), by simp, rfl⟩
      case h_5 =>
        obtain ⟨-, rfl⟩ := Prod.mk.inj (Option.some.inj h)
        exact ⟨"true".toList, closed_of_plain (by simp), by simp, rfl⟩
      case h_6 =>
        obtain ⟨-, rfl⟩ := Prod.mk.inj (Option.some.inj h)
        exact ⟨"false".toList, closed_of_plain (by simp), by simp, rfl⟩
    · intro cs items rest h
      rw [readItems] at h
      obtain ⟨⟨v, after⟩, hread, h⟩ := Option.bind_eq_some_iff.mp h
      obtain ⟨used, hused, -, hvalue⟩ := ihValue _ _ _ hread
      obtain ⟨blanks, hblanks, hafter⟩ := skipBlanks_closed after
      simp only at h
      split at h
      · next hskip =>
        obtain ⟨-, rfl⟩ := Prod.mk.inj (Option.some.inj h)
        rw [hskip] at hafter
        exact ⟨used ++ blanks, hused.append hblanks, by simp [hvalue, hafter]⟩
      · next next hskip =>
        obtain ⟨⟨tail, rest'⟩, htail, heq⟩ := Option.map_eq_some_iff.mp h
        obtain ⟨-, rfl⟩ := Prod.mk.inj heq
        obtain ⟨blanks', hblanks', hnext⟩ := skipBlanks_closed next
        obtain ⟨used', hused', hsplit⟩ := ihItems _ _ _ htail
        rw [hsplit] at hnext
        rw [hskip] at hafter
        refine ⟨used ++ blanks ++ ',' :: (blanks' ++ used'), ?_,
          by simp [hvalue, hafter, hnext]⟩
        exact (hused.append hblanks).append (.plain (by decide) (hblanks'.append hused'))
      · exact absurd h (by simp)
    · intro cs items rest h
      rw [readFields.eq_def] at h
      simp only at h
      split at h
      · next cs =>
        obtain ⟨⟨k, keyed⟩, hkey, h⟩ := Option.bind_eq_some_iff.mp h
        obtain ⟨body, hbody, htail₀⟩ := readString_body hkey
        obtain ⟨blanks, hblanks, hkeyed⟩ := skipBlanks_closed keyed
        simp only at h
        split at h
        · next text hcolon =>
          obtain ⟨⟨v, after⟩, hread, h⟩ := Option.bind_eq_some_iff.mp h
          obtain ⟨blanks₁, hblanks₁, htext⟩ := skipBlanks_closed text
          obtain ⟨used, hused, -, hvalue⟩ := ihValue _ _ _ hread
          obtain ⟨blanks₂, hblanks₂, hafter⟩ := skipBlanks_closed after
          rw [hcolon] at hkeyed
          rw [hvalue] at htext
          -- the key, the colon and the value
          have hfield : Closed ('"' :: (body ++ '"' :: (blanks ++ ':' ::
              (blanks₁ ++ (used ++ blanks₂))))) :=
            .string hbody (hblanks.append (.plain (by decide)
              (hblanks₁.append (hused.append hblanks₂))))
          simp only at h
          split at h
          · next hskip =>
            obtain ⟨-, rfl⟩ := Prod.mk.inj (Option.some.inj h)
            rw [hskip] at hafter
            exact ⟨_, hfield, by simp [htail₀, hkeyed, htext, hafter]⟩
          · next next hskip =>
            obtain ⟨⟨tail, rest'⟩, htail, heq⟩ := Option.map_eq_some_iff.mp h
            obtain ⟨-, rfl⟩ := Prod.mk.inj heq
            obtain ⟨blanks₃, hblanks₃, hnext⟩ := skipBlanks_closed next
            obtain ⟨used', hused', hsplit⟩ := ihFields _ _ _ htail
            rw [hsplit] at hnext
            rw [hskip] at hafter
            refine ⟨_, hfield.append (.plain (c := ',') (by decide)
              (hblanks₃.append hused')), ?_⟩
            simp [htail₀, hkeyed, htext, hafter, hnext]
          · exact absurd h (by simp)
        · exact absurd h (by simp)
      · exact absurd h (by simp)

theorem closed_of_loads {text : List Char} {v : Json} (h : loads readFloat text = some v) :
    Closed text := by
  obtain ⟨⟨w, rest⟩, hread, h⟩ := Option.bind_eq_some_iff.mp h
  simp only at h
  split at h
  · next hrest =>
    obtain ⟨used, hused, -, hsplit⟩ := (read_closed _).1 _ _ _ hread
    obtain ⟨blanks, hblanks, htext⟩ := skipBlanks_closed text
    obtain ⟨blanks', hblanks', hafter⟩ := skipBlanks_closed rest
    rw [hrest, List.append_nil] at hafter
    rw [htext, hsplit, hafter]
    exact hblanks.append (hused.append hblanks')
  · exact absurd h (by simp)

end

end PawFlow.Lib.Json
