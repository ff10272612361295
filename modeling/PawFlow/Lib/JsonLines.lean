import PawFlow.Lib.JsonLex
import PawFlow.Lib.PyString
import Mathlib.Data.List.DropRight

/-!
# JSON text on a line

What `json.dumps` writes without an indent is one line, and JSON text neither starts nor ends with a
blank of any kind, so a reader that strips more blanks than JSON knows reads the same.
-/

namespace PawFlow.Lib

/-! ## Stripping -/

section

variable {α : Type} {p q : α → Bool} {l : List α}

/-- `strip` with the blanks `p`. -/
def trim (p : α → Bool) (l : List α) : List α := (l.dropWhile p).rdropWhile p

theorem trim_split (p : α → Bool) (l : List α) :
    ∃ a b, l = a ++ (trim p l ++ b) ∧ (∀ c ∈ a, p c) ∧ ∀ c ∈ b, p c := by
  refine ⟨l.takeWhile p, (l.dropWhile p).rtakeWhile p, ?_, fun c hc => List.mem_takeWhile_imp hc,
    fun c hc => List.mem_rtakeWhile_imp hc⟩
  rw [trim, List.rdropWhile_append_rtakeWhile, List.takeWhile_append_dropWhile]

theorem trim_append {a b : List α} (ha : ∀ c ∈ a, p c) (hb : ∀ c ∈ b, p c) :
    trim p (a ++ (l ++ b)) = trim p l := by
  have hreverse : ∀ c ∈ b.reverse, p c := fun c hc => hb c (List.mem_reverse.mp hc)
  rw [trim, List.dropWhile_append_of_pos ha, List.dropWhile_append, trim]
  split_ifs with h
  · rw [List.dropWhile_eq_nil_iff.mpr hb, List.isEmpty_iff.mp h]
  · rw [List.rdropWhile, List.reverse_append, List.dropWhile_append_of_pos hreverse]
    rfl

theorem trim_trim (hpq : ∀ c, p c → q c) : trim q (trim p l) = trim q l := by
  obtain ⟨a, b, hl, ha, hb⟩ := trim_split p l
  conv_rhs => rw [hl]
  rw [trim_append (fun c hc => hpq c (ha c hc)) fun c hc => hpq c (hb c hc)]

theorem trim_eq_nil (h : ∀ c ∈ l, p c) : trim p l = [] := by
  rw [trim, List.dropWhile_eq_nil_iff.mpr h]
  rfl

/-- A text neither of whose ends is a blank. -/
def Solid (p : α → Bool) (l : List α) : Prop :=
  (∀ c ∈ l.head?, p c = false) ∧ ∀ c ∈ l.getLast?, p c = false

theorem Solid.trim (h : Solid p l) : trim p l = l := by
  have hleft : l.dropWhile p = l := by
    cases l with
    | nil => rfl
    | cons c l => rw [List.dropWhile_cons_of_neg (by simp [h.1 c rfl])]
  rw [PawFlow.Lib.trim, hleft, List.rdropWhile_eq_self_iff]
  intro hne
  simpa using h.2 _ (List.getLast?_eq_some_getLast hne)

theorem solid_trim (p : α → Bool) (l : List α) : Solid p (trim p l) := by
  constructor
  · intro c hc
    obtain ⟨t, ht⟩ := List.rdropWhile_prefix p (l := l.dropWhile p)
    obtain ⟨m, hm⟩ := List.head?_eq_some_iff.mp hc
    have hdrop : l.dropWhile p = c :: (m ++ t) := ht.symm.trans (congrArg (· ++ t) hm)
    have hhead := List.head_dropWhile_not p (hdrop ▸ List.cons_ne_nil _ _ : l.dropWhile p ≠ [])
    simpa [hdrop] using hhead
  · intro c hc
    obtain ⟨m, hm⟩ := List.getLast?_eq_some_iff.mp hc
    have hne : trim p l ≠ [] := hm ▸ by simp
    have hlast : ¬ p ((trim p l).getLast hne) := List.rdropWhile_last_not p _ hne
    simpa [hm] using hlast

theorem solid_of_forall (h : ∀ c ∈ l, p c = false) : Solid p l :=
  ⟨fun c hc => h c (List.mem_of_mem_head? hc), fun c hc => h c (List.mem_of_mem_getLast? hc)⟩

theorem solid_between {a b : α} (ha : p a = false) (hb : p b = false) (l : List α) :
    Solid p (a :: (l ++ [b])) := by
  constructor
  · simpa using ha
  · rw [← List.cons_append, List.getLast?_concat]
    simpa using hb

end

/-! ## Splitting -/

theorem mem_splitOn {α : Type} [DecidableEq α] {a : α} {l cs : List α} (h : l ∈ cs.splitOn a) :
    a ∉ l ∧ ∀ c ∈ l, c ∈ cs := by
  induction cs generalizing l with
  | nil => simp_all
  | cons d cs ih =>
    rw [List.splitOn_cons_eq_if_modifyHead] at h
    split at h
    · rcases List.mem_cons.mp h with rfl | h
      · simp
      · exact ⟨(ih h).1, fun c hc => List.mem_cons_of_mem _ ((ih h).2 c hc)⟩
    · next hd =>
      obtain ⟨m, ms, hms⟩ := List.exists_cons_of_ne_nil (List.splitOn_ne_nil a cs)
      rw [hms, List.modifyHead_cons] at h
      rcases List.mem_cons.mp h with rfl | h
      · have hm := @ih m (by simp [hms])
        refine ⟨?_, fun c hc => ?_⟩
        · simp only [List.mem_cons, not_or]
          exact ⟨fun heq => hd (by simp [← heq]), hm.1⟩
        · rcases List.mem_cons.mp hc with rfl | hc
          · simp
          · exact List.mem_cons_of_mem _ (hm.2 c hc)
      · have hl := @ih l (by simp [hms, h])
        exact ⟨hl.1, fun c hc => List.mem_cons_of_mem _ (hl.2 c hc)⟩

theorem splitOn_append {α : Type} [DecidableEq α] {a : α} {x y first : List α}
    {others : List (List α)} (h : y.splitOn a = first :: others) :
    (x ++ y).splitOn a = (x ++ first).splitOn a ++ others := by
  have hjoin : [a].intercalate (y.splitOn a) = y := List.intercalate_splitOn a
  rw [h] at hjoin
  cases others with
  | nil =>
    rw [← hjoin]
    simp
  | cons l others =>
    rw [List.intercalate_cons_of_ne_nil (by simp), List.append_assoc, List.singleton_append]
      at hjoin
    have hfirst := (mem_splitOn (h ▸ List.mem_cons_self : first ∈ y.splitOn a)).1
    have hothers := h
    rw [← hjoin, List.splitOn_append_cons_self_of_not_mem hfirst] at hothers
    rw [← hjoin, ← List.append_assoc, List.splitOn_append_cons_self, (List.cons.inj hothers).2]

namespace Json

/-! ## The ends of a JSON text -/

section

variable {readFloat : List Char → Option (FloatText × Int × Nat)}

theorem isSpace_of_isNumberChar {c : Char} (h : isNumberChar c) : isSpace c = false := by
  rcases Bool.or_eq_true_iff.mp h with h | h
  · exact not_isSpace_of_isAlphanum (Bool.or_eq_true_iff.mpr (.inr h))
  · have hsigns : ['-', '+', '.', 'e', 'E'].all (!isSpace ·) := by decide
    simpa using List.all_eq_true.mp hsigns c (by simpa using h)

/-- What a value is read from neither starts nor ends with a blank. -/
theorem solid_of_readValue {fuel : Nat} {cs rest : List Char} {v : Json}
    (h : readValue readFloat fuel cs = some (v, rest)) :
    ∃ used, cs = used ++ rest ∧ used ≠ [] ∧ Solid isSpace used := by
  cases fuel with
  | zero => exact absurd h (by simp [readValue])
  | succ fuel =>
    rw [readValue.eq_def] at h
    simp only at h
    split at h
    case h_1 tail =>
      obtain ⟨⟨s, rest'⟩, hread, heq⟩ := Option.map_eq_some_iff.mp h
      obtain ⟨-, rfl⟩ := Prod.mk.inj heq
      obtain ⟨body, -, rfl⟩ := readString_body hread
      exact ⟨'"' :: (body ++ ['"']), by simp, by simp, solid_between (by decide) (by decide) body⟩
    case h_2 tail =>
      obtain ⟨blanks, -, htail⟩ := skipBlanks_closed tail
      split at h
      · next hskip =>
        obtain ⟨-, rfl⟩ := Prod.mk.inj (Option.some.inj h)
        rw [hskip] at htail
        exact ⟨'[' :: (blanks ++ [']']), by simp [htail], by simp, solid_between (by decide) (by decide) _⟩
      · obtain ⟨⟨items, rest'⟩, hread, heq⟩ := Option.map_eq_some_iff.mp h
        obtain ⟨-, rfl⟩ := Prod.mk.inj heq
        obtain ⟨used, -, hsplit⟩ := (read_closed fuel).2.1 _ _ _ hread
        rw [hsplit] at htail
        exact ⟨'[' :: ((blanks ++ used) ++ [']']), by simp [htail], by simp,
          solid_between (by decide) (by decide) _⟩
    case h_3 tail =>
      obtain ⟨blanks, -, htail⟩ := skipBlanks_closed tail
      split at h
      · next hskip =>
        obtain ⟨-, rfl⟩ := Prod.mk.inj (Option.some.inj h)
        rw [hskip] at htail
        exact ⟨'{' :: (blanks ++ ['}']), by simp [htail], by simp, solid_between (by decide) (by decide) _⟩
      · obtain ⟨⟨items, rest'⟩, hread, heq⟩ := Option.map_eq_some_iff.mp h
        obtain ⟨-, rfl⟩ := Prod.mk.inj heq
        obtain ⟨used, -, hsplit⟩ := (read_closed fuel).2.2 _ _ _ hread
        rw [hsplit] at htail
        exact ⟨'{' :: ((blanks ++ used) ++ ['}']), by simp [htail], by simp,
          solid_between (by decide) (by decide) _⟩
    case h_7 =>
      obtain ⟨w, hread, heq⟩ := Option.map_eq_some_iff.mp h
      obtain ⟨-, rfl⟩ := Prod.mk.inj heq
      refine ⟨cs.takeWhile isNumberChar, (List.takeWhile_append_dropWhile).symm, ?_,
        solid_of_forall fun c hc => isSpace_of_isNumberChar (List.mem_takeWhile_imp hc)⟩
      intro hnil
      rw [hnil] at hread
      exact absurd hread (by simp [readNumber, afterInteger])
    case h_4 =>
      obtain ⟨-, rfl⟩ := Prod.mk.inj (Option.some.inj h)
      exact ⟨'n' :: (['u', 'l'] ++ ['l']), rfl, by simp,
        solid_between (by decide) (by decide) _⟩
    case h_5 =>
      obtain ⟨-, rfl⟩ := Prod.mk.inj (Option.some.inj h)
      exact ⟨'t' :: (['r', 'u'] ++ ['e']), rfl, by simp,
        solid_between (by decide) (by decide) _⟩
    case h_6 =>
      obtain ⟨-, rfl⟩ := Prod.mk.inj (Option.some.inj h)
      exact ⟨'f' :: (['a', 'l', 's'] ++ ['e']), rfl, by simp,
        solid_between (by decide) (by decide) _⟩

theorem solid_of_loads {p : Char → Bool} (hp : ∀ c, isBlank c → p c) {cs : List Char} {v : Json}
    (hcs : Solid p cs) (h : loads readFloat cs = some v) : Solid isSpace cs := by
  obtain ⟨⟨w, rest⟩, hread, h⟩ := Option.bind_eq_some_iff.mp h
  have hskip : skipBlanks cs = cs := by
    cases cs with
    | nil => rfl
    | cons c cs =>
      have hc : ¬ isBlank c := fun hblank => by simpa [hp c hblank] using hcs.1 c rfl
      exact List.dropWhile_cons_of_neg hc
  obtain ⟨used, hused, -, hsolid⟩ := solid_of_readValue (hskip ▸ hread)
  -- nothing stands behind the value: it would be a blank at the end of the text
  have hblanks : skipBlanks rest = [] := by
    by_contra hne
    simp [hne] at h
  have hrest : rest = [] := by
    by_contra hne
    have hlast : rest.getLast hne ∈ cs.getLast? := by
      rw [hused, List.getLast?_append, List.getLast?_eq_some_getLast hne]
      rfl
    have hblank := List.dropWhile_eq_nil_iff.mp hblanks _ (List.getLast_mem hne)
    exact absurd (hcs.2 _ hlast) (by simp [hp _ hblank])
  rw [hused, hrest, List.append_nil]
  exact hsolid

end

/-! ## A dumped value is one line -/

/-- No line ends here. -/
def OneLine (cs : List Char) : Prop := ∀ c ∈ cs, c ≠ '\n' ∧ c ≠ '\r'

variable {cs : List Char}

theorem oneLine_append {ds : List Char} : OneLine (cs ++ ds) ↔ OneLine cs ∧ OneLine ds :=
  List.forall_mem_append

theorem oneLine_cons {c : Char} : OneLine (c :: cs) ↔ (c ≠ '\n' ∧ c ≠ '\r') ∧ OneLine cs :=
  List.forall_mem_cons

theorem oneLine_of_all (h : cs.all fun c => c ≠ '\n' && c ≠ '\r') :
    OneLine cs := fun c hc => by simpa using List.all_eq_true.mp h c hc

theorem oneLine_unicodeEscape {n : Nat} (hn : n < 0x10000) : OneLine (unicodeEscape n) := by
  have hdigit : ∀ n < 16, hexDigit n ≠ '\n' ∧ hexDigit n ≠ '\r' := by decide
  intro d hd
  simp only [unicodeEscape, List.mem_cons, List.not_mem_nil, or_false] at hd
  rcases hd with rfl | rfl | rfl | rfl | rfl | rfl
  · decide
  · decide
  all_goals exact hdigit _ (by omega)

theorem oneLine_escapeChar (c : Char) : OneLine (escapeChar c) := by
  unfold escapeChar
  iterate 7
    split
    · exact oneLine_of_all rfl
  split
  · exact oneLine_unicodeEscape (by omega)
  · simp_all [OneLine]

theorem oneLine_numeral {numeral : List Char} (hnumber : ∀ c ∈ numeral, isNumberChar c) :
    OneLine numeral := by
  intro c hc
  have hother := isNumberChar_not_otherStarts (hnumber c hc)
  simp only [otherStarts, List.mem_cons, not_or] at hother
  exact ⟨hother.2.2.1, hother.2.2.2.1⟩

/-- A layout that ends no line. -/
structure Layout.InLine (L : Layout) : Prop where
  esc : ∀ c, OneLine (L.esc c)
  commaPad : OneLine L.commaPad
  colonPad : OneLine L.colonPad

namespace Layout

theorem inLine_standard : standard.InLine :=
  ⟨oneLine_escapeChar, oneLine_of_all rfl, oneLine_of_all rfl⟩

variable {L : Layout} (h : L.InLine)

include h

theorem oneLine_string (s : String) : OneLine (L.string s) := by
  refine oneLine_cons.mpr ⟨by decide, oneLine_append.mpr ⟨?_, oneLine_of_all rfl⟩⟩
  intro d hd
  obtain ⟨c, -, hc⟩ := List.mem_flatMap.mp hd
  exact h.esc c d hc

mutual

theorem oneLine_write : ∀ v : Json, OneLine (L.write v)
  | .null => oneLine_of_all rfl
  | .bool true => oneLine_of_all rfl
  | .bool false => oneLine_of_all rfl
  | .int n => oneLine_numeral (isNumberChar_int n)
  | .float r _ _ => oneLine_numeral (isNumberChar_float r)
  | .str s => oneLine_string h s
  | .arr items => oneLine_cons.mpr ⟨by decide,
      oneLine_append.mpr ⟨oneLine_writeItems items, oneLine_of_all rfl⟩⟩
  | .obj items => oneLine_cons.mpr ⟨by decide,
      oneLine_append.mpr ⟨oneLine_writeFields items, oneLine_of_all rfl⟩⟩

theorem oneLine_writeItems : ∀ items : List Json, OneLine (L.writeItems items)
  | [] => oneLine_of_all rfl
  | [v] => oneLine_write v
  | v :: w :: rest => by
    rw [writeItems, oneLine_append, oneLine_cons, oneLine_append]
    exact ⟨oneLine_write v, by decide, h.commaPad, oneLine_writeItems (w :: rest)⟩

theorem oneLine_writeFields : ∀ items : List (String × Json), OneLine (L.writeFields items)
  | [] => oneLine_of_all rfl
  | [(k, v)] => by
    rw [writeFields, oneLine_append, oneLine_cons, oneLine_append]
    exact ⟨oneLine_string h k, by decide, h.colonPad, oneLine_write v⟩
  | (k, v) :: i :: rest => by
    rw [writeFields, oneLine_append, oneLine_cons, oneLine_append, oneLine_append, oneLine_cons,
      oneLine_append]
    exact ⟨oneLine_string h k, by decide, h.colonPad, oneLine_write v, by decide, h.commaPad,
      oneLine_writeFields (i :: rest)⟩

end

end Layout

end Json

end PawFlow.Lib
