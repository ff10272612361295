import PawFlow.Lib.JsonLex
import PawFlow.Lib.PyString

/-!
# JSON text that was cut off

What is read where the text of a value was cut at some place and an open string and open brackets
were closed behind the cut: a truncation of the value, or nothing at all.
-/

namespace PawFlow.Lib.Json

/-! ## Fuel -/

section

variable {readFloat : List Char → Option (FloatText × Int × Nat)}

theorem readValue_other {n m : Nat} {cs : List Char} (hlist : cs.head? ≠ some '[')
    (hdict : cs.head? ≠ some '{') :
    readValue readFloat (n + 1) cs = readValue readFloat (m + 1) cs := by
  rw [readValue.eq_def, readValue.eq_def readFloat (m + 1)]
  simp only
  split
  case h_2 => exact absurd rfl hlist
  case h_3 => exact absurd rfl hdict
  all_goals rfl

theorem read_succ (n : Nat) :
    (∀ cs a, readValue readFloat n cs = some a → readValue readFloat (n + 1) cs = some a) ∧
    (∀ cs a, readItems readFloat n cs = some a → readItems readFloat (n + 1) cs = some a) ∧
    ∀ cs a, readFields readFloat n cs = some a → readFields readFloat (n + 1) cs = some a := by
  induction n with
  | zero => simp [readValue, readItems, readFields]
  | succ n ih =>
    obtain ⟨ihValue, ihItems, ihFields⟩ := ih
    refine ⟨?_, ?_, ?_⟩
    · intro cs a h
      by_cases hlist : cs.head? = some '['
      · obtain ⟨tail, rfl⟩ := List.head?_eq_some_iff.mp hlist
        rw [readValue] at h ⊢
        split at h
        · exact h
        · obtain ⟨⟨items, rest⟩, hitems, heq⟩ := Option.map_eq_some_iff.mp h
          rw [ihItems _ _ hitems]
          exact congrArg some heq
      · by_cases hdict : cs.head? = some '{'
        · obtain ⟨tail, rfl⟩ := List.head?_eq_some_iff.mp hdict
          rw [readValue] at h ⊢
          split at h
          · exact h
          · obtain ⟨⟨items, rest⟩, hitems, heq⟩ := Option.map_eq_some_iff.mp h
            rw [ihFields _ _ hitems]
            exact congrArg some heq
        · rw [readValue_other hlist hdict (m := n)]
          exact h
    · intro cs a h
      rw [readItems] at h ⊢
      obtain ⟨⟨v, rest⟩, hread, h⟩ := Option.bind_eq_some_iff.mp h
      rw [ihValue _ _ hread, Option.bind_some]
      simp only at h ⊢
      split at h
      · exact h
      · obtain ⟨⟨items, rest⟩, hitems, heq⟩ := Option.map_eq_some_iff.mp h
        rw [ihItems _ _ hitems]
        exact congrArg some heq
      · exact absurd h (by simp)
    · intro cs a h
      rw [readFields.eq_def] at h ⊢
      simp only at h ⊢
      split at h
      · obtain ⟨⟨k, keyed⟩, hkey, h⟩ := Option.bind_eq_some_iff.mp h
        rw [hkey, Option.bind_some]
        simp only at h ⊢
        split at h
        · obtain ⟨⟨v, rest⟩, hread, h⟩ := Option.bind_eq_some_iff.mp h
          rw [ihValue _ _ hread, Option.bind_some]
          simp only at h ⊢
          split at h
          · exact h
          · obtain ⟨⟨items, rest⟩, hitems, heq⟩ := Option.map_eq_some_iff.mp h
            rw [ihFields _ _ hitems]
            exact congrArg some heq
          · exact absurd h (by simp)
        · exact absurd h (by simp)
      · exact absurd h (by simp)

theorem eq_of_readValue_write {L : Layout} {v t : Json} (hv : WellFormed readFloat v) {n : Nat}
    {r rest : List Char} (hr : EndsNumber r)
    (h : readValue readFloat n (L.write v ++ r) = some (t, rest)) : t = v ∧ rest = r := by
  have hmono : ∀ m, readValue readFloat (n + m) (L.write v ++ r) = some (t, rest) := by
    intro m
    induction m with
    | zero => exact h
    | succ m ih => exact (read_succ _).1 _ _ ih
  have hwrite := readValue_write (L := L) v hv (n := n + (L.write v).length) (by omega) hr
  obtain ⟨rfl, rfl⟩ := Prod.mk.inj (Option.some.inj ((hmono _).symm.trans hwrite))
  exact ⟨rfl, rfl⟩

end

section

variable {p x cs a b : List Char}

/-! ## What is put behind a cut -/

def Closers (cs : List Char) : Prop := ∀ c ∈ cs, c = '}' ∨ c = ']'

/-- Closing brackets, after a quote where the cut was in a string. -/
inductive Completion : List Char → Prop
  | brackets {cs : List Char} : Closers cs → Completion cs
  | quoted {cs : List Char} : Closers cs → Completion ('"' :: cs)

theorem Closers.quote_notMem (h : Closers cs) : '"' ∉ cs := by
  rintro hmem
  rcases h _ hmem with heq | heq
  · exact absurd heq (by decide)
  · exact absurd heq (by decide)

theorem Closers.tail {c : Char} (h : Closers (c :: cs)) : Closers cs :=
  fun d hd => h d (List.mem_cons_of_mem _ hd)

variable {c : Char} {text : List Char} {k : String}

theorem Completion.head (h : Completion (c :: cs)) : c = '"' ∨ c = '}' ∨ c = ']' := by
  cases h with
  | brackets h => exact .inr (h c (by simp))
  | quoted _ => exact .inl rfl

theorem Completion.tail {c : Char} (h : Completion (c :: cs)) : Closers cs := by
  cases h with
  | brackets h => exact h.tail
  | quoted h => exact h

theorem Completion.endsNumber (h : Completion x) : EndsNumber x := by
  cases x with
  | nil => simp [EndsNumber]
  | cons c x =>
    refine endsNumber_cons ?_ x
    rcases h.head with rfl | rfl | rfl
    · decide
    · decide
    · decide

theorem Completion.skipBlanks (h : Completion x) : skipBlanks x = x := by
  cases x with
  | nil => rfl
  | cons c x =>
    refine skipBlanks_cons ?_ x
    rcases h.head with rfl | rfl | rfl
    · decide
    · decide
    · decide

theorem readString_eq_none {n : Nat} (h : '"' ∉ cs) : readString n cs = none := by
  cases hread : readString n cs with
  | none => rfl
  | some result =>
    obtain ⟨s, rest⟩ := result
    obtain ⟨body, -, rfl⟩ := readString_body hread
    exact absurd (by simp) h

/-! ## Strings -/

/-- Characters are written so that what is left of one behind a cut is never read. -/
structure CutSafe (esc : Char → List Char) : Prop where
  cut : ∀ {c : Char} {q x : List Char} (n : Nat), q <+: esc c → q ≠ [] → q ≠ esc c →
    Completion x → readString n (q ++ x) = none

variable {L : Layout}

theorem readString_completion (hx : Completion x) {s r : List Char} {n : Nat}
    (hread : readString n x = some (s, r)) : s = [] ∧ x = '"' :: r := by
  cases hx with
  | brackets h => rw [readString_eq_none h.quote_notMem] at hread; exact absurd hread (by simp)
  | quoted h =>
    cases n with
    | zero => exact absurd hread (by simp [readString])
    | succ n =>
      rw [readString] at hread
      obtain ⟨rfl, rfl⟩ := Prod.mk.inj (Option.some.inj hread)
      exact ⟨rfl, rfl⟩

theorem readString_cut (hesc : CutSafe L.esc) (hx : Completion x) {s s' r : List Char} {n : Nat}
    (hp : p <+: s.flatMap L.esc) (hread : readString n (p ++ x) = some (s', r)) :
    s' <+: s ∧ x = '"' :: r := by
  induction s generalizing p n s' with
  | nil =>
    obtain rfl : p = [] := by simpa using hp
    obtain ⟨rfl, hr⟩ := readString_completion hx hread
    exact ⟨List.nil_prefix, hr⟩
  | cons c s ih =>
    rw [List.flatMap_cons] at hp
    by_cases hwhole : L.esc c <+: p
    · -- the first character is there
      obtain ⟨q, rfl⟩ := hwhole
      have hq := (List.prefix_append_right_inj _).mp hp
      obtain ⟨d, tail, hc, hquote⟩ := L.escapes.head c
      have hchar := L.escapes.read c (q ++ x)
      cases n with
      | zero => exact absurd hread (by simp [readString])
      | succ n =>
        rw [List.append_assoc] at hread
        rw [readString] at hread
        · rw [hchar] at hread
          obtain ⟨⟨t, rest⟩, ht, heq⟩ := Option.map_eq_some_iff.mp hread
          obtain ⟨rfl, rfl⟩ := Prod.mk.inj heq
          obtain ⟨hpre, hr⟩ := ih hq ht
          exact ⟨(List.prefix_cons_inj c).mpr hpre, hr⟩
        · rintro rest heq
          rw [hc] at heq
          exact hquote (List.cons.inj heq).1
    · rcases isPrefix_append_cases hp with hq | ⟨q, rfl, -⟩
      · by_cases hnil : p = []
        · subst hnil
          obtain ⟨rfl, hr⟩ := readString_completion hx hread
          exact ⟨List.nil_prefix, hr⟩
        · have hne : p ≠ L.esc c := by
            rintro rfl
            exact hwhole (List.prefix_refl _)
          rw [hesc.cut n hq hnil hne hx] at hread
          exact absurd hread (by simp)
      · exact absurd (List.prefix_append _ _) hwhole

/-! ## Truncations -/

variable {readFloat : List Char → Option (FloatText × Int × Nat)}

variable (readFloat) in
/-- A value that was cut off. All that comes before the cut is as it was, and the part with the cut
in it may be cut off itself: a string, the digits of a number, a list or a dict. -/
inductive Truncation : Json → Json → Prop
  | same (v : Json) : Truncation v v
  | str {s t : String} : t.toList <+: s.toList → Truncation (.str t) (.str s)
  | int {n : Int} {numeral : List Char} {w : Json} : numeral <+: (toString n).toList →
      readNumber readFloat numeral = some w → Truncation w (.int n)
  | float {text : FloatText} {num : Int} {exp : Nat} {numeral : List Char} {w : Json} :
      numeral <+: text.val.toList → readNumber readFloat numeral = some w →
      Truncation w (.float text num exp)
  | items (kept lost : List Json) : Truncation (.arr kept) (.arr (kept ++ lost))
  | item (kept lost : List Json) {v t : Json} : Truncation t v →
      Truncation (.arr (kept ++ [t])) (.arr (kept ++ v :: lost))
  | fields (kept lost : List (String × Json)) : Truncation (.obj kept) (.obj (kept ++ lost))
  | field (kept lost : List (String × Json)) (k : String) {v t : Json} : Truncation t v →
      Truncation (.obj (kept ++ [(k, t)])) (.obj (kept ++ (k, v) :: lost))

variable {v t : Json} {r : List Char} {n : Nat}

/-- What may be left behind a value: all that was put behind the cut, or the brackets after some
of it. -/
def Left (x r : List Char) : Prop := r = x ∨ Closers r ∧ r.length < x.length

theorem Left.completion (hx : Completion x) (h : Left x r) : Completion r := by
  rcases h with rfl | ⟨hr, -⟩
  · exact hx
  · exact .brackets hr

theorem Left.next (hx : Completion x) (h : Left x (c :: r)) : Closers r ∧ r.length < x.length := by
  refine ⟨(h.completion hx).tail, ?_⟩
  rcases h with rfl | ⟨-, hlength⟩
  · simp
  · exact lt_of_le_of_lt (by simp) hlength

/-! ### Values without parts -/

theorem readValue_completion (hx : Completion x) : readValue readFloat n x = none := by
  cases n with
  | zero => rw [readValue]
  | succ n =>
    cases hx with
    | brackets h =>
      cases x with
      | nil => rfl
      | cons c x =>
        rcases h c (by simp) with rfl | rfl
        · rfl
        · rfl
    | quoted h =>
      rw [readValue, readString_eq_none h.quote_notMem]
      rfl

theorem readItems_completion (hx : Completion x) : readItems readFloat n x = none := by
  cases n with
  | zero => rw [readItems]
  | succ n =>
    rw [readItems, readValue_completion hx]
    rfl

theorem readFields_completion (hx : Completion x) : readFields readFloat n x = none := by
  cases n with
  | zero => rw [readFields]
  | succ n =>
    cases hx with
    | brackets h =>
      cases x with
      | nil => rfl
      | cons c x =>
        rcases h c (by simp) with rfl | rfl
        · rfl
        · rfl
    | quoted h =>
      rw [readFields, readString_eq_none h.quote_notMem]
      rfl

theorem fuel_of_readValue {result : Json × List Char}
    (h : readValue readFloat n cs = some result) : ∃ m, n = m + 1 := by
  cases n with
  | zero => exact absurd h (by simp [readValue])
  | succ n => exact ⟨n, rfl⟩

variable {numeral rest : List Char}

theorem readValue_numeral (hne : numeral ≠ [])
    (h : ∀ c ∈ numeral, isNumberChar c) (hx : EndsNumber x) :
    readValue readFloat (n + 1) (numeral ++ x) =
      (readNumber readFloat numeral).map fun v => (v, x) := by
  obtain ⟨htake, hdrop⟩ := takeWhile_numeral h hx
  obtain ⟨c, tail, rfl⟩ := List.exists_cons_of_ne_nil hne
  have hstart := isNumberChar_not_otherStarts (h c (by simp))
  simp only [otherStarts, List.mem_cons, not_or] at hstart
  rw [readValue, htake, hdrop]
  all_goals
    intros
    simp_all

theorem readValue_word (hx : Completion x) (hp : p ∈ ["n", "nu", "nul", "t", "tr", "tru", "f", "fa",
    "fal", "fals"].map String.toList) : readValue readFloat n (p ++ x) = none := by
  cases n with
  | zero => rw [readValue]
  | succ n =>
    cases x with
    | nil => fin_cases hp <;> rfl
    | cons c x =>
      rcases hx.head with rfl | rfl | rfl
      · fin_cases hp <;> rfl
      · fin_cases hp <;> rfl
      · fin_cases hp <;> rfl

/-! ### Values with parts -/

theorem skipBlanks_cut (hx : Completion x) {tail : List Char}
    (hhead : text = c :: tail) (hblank : isBlank c = false) (hp : p <+: text) :
    skipBlanks (p ++ x) = p ++ x := by
  cases p with
  | nil => exact hx.skipBlanks
  | cons d p =>
    rw [hhead] at hp
    obtain ⟨rfl, -⟩ := List.cons_prefix_cons.mp hp
    exact skipBlanks_cons hblank _

theorem skipBlanks_pad_cut (hx : Completion x) {pad tail : List Char}
    (hpad : ∀ c ∈ pad, isBlank c) (hhead : text = c :: tail) (hblank : isBlank c = false)
    (hp : p <+: pad ++ text) :
    ∃ q, skipBlanks (p ++ x) = q ++ x ∧ q <+: text := by
  rcases isPrefix_append_cases hp with hp | ⟨q, rfl, hq⟩
  · refine ⟨[], ?_, List.nil_prefix⟩
    rw [skipBlanks_append fun c hc => hpad c (hp.subset hc), hx.skipBlanks]
    rfl
  · refine ⟨q, ?_, hq⟩
    rw [List.append_assoc, skipBlanks_append hpad, skipBlanks_cut hx hhead hblank hq]

theorem Truncation.cons_item {v : Json} {ts items : List Json}
    (h : Truncation readFloat (.arr ts) (.arr items)) :
    Truncation readFloat (.arr (v :: ts)) (.arr (v :: items)) := by
  cases h with
  | same => exact .same _
  | items _ lost => exact .items (v :: ts) lost
  | item kept lost h => exact .item (v :: kept) lost h

variable {items ts : List (String × Json)}

theorem Truncation.cons_field {i : String × Json}
    (h : Truncation readFloat (.obj ts) (.obj items)) :
    Truncation readFloat (.obj (i :: ts)) (.obj (i :: items)) := by
  cases h with
  | same => exact .same _
  | fields _ lost => exact .fields (i :: ts) lost
  | field kept lost k h => exact .field (i :: kept) lost k h

theorem Truncation.keys (h : Truncation readFloat (.obj ts) (.obj items)) :
    ts.map Prod.fst <+: items.map Prod.fst := by
  cases h with
  | same => exact List.prefix_refl _
  | fields kept lost => simp
  | field kept lost k h => simp

theorem Truncation.string {s t : String} (h : Truncation readFloat (.str t) (.str s)) :
    t.toList <+: s.toList := by
  cases h with
  | same => exact List.prefix_refl _
  | str h => exact h

theorem Truncation.head_field {k' : String} {v t : Json}
    (h : Truncation readFloat (.obj ((k, t) :: ts)) (.obj ((k', v) :: items))) :
    Truncation readFloat t v := by
  generalize hxs : (k, t) :: ts = xs at h
  generalize hys : (k', v) :: items = ys at h
  cases h with
  | same =>
    rw [← hxs] at hys
    obtain ⟨heq, -⟩ := List.cons.inj hys
    obtain ⟨-, rfl⟩ := Prod.mk.inj heq
    exact .same _
  | fields _ lost =>
    rw [← hxs, List.cons_append] at hys
    obtain ⟨heq, -⟩ := List.cons.inj hys
    obtain ⟨-, rfl⟩ := Prod.mk.inj heq
    exact .same _
  | field kept lost l h =>
    cases kept with
    | nil =>
      obtain ⟨hx, -⟩ := List.cons.inj hxs
      obtain ⟨hy, -⟩ := List.cons.inj hys
      obtain ⟨-, rfl⟩ := Prod.mk.inj hx
      obtain ⟨-, rfl⟩ := Prod.mk.inj hy
      exact h
    | cons i kept =>
      obtain ⟨hx, -⟩ := List.cons.inj hxs
      obtain ⟨hy, -⟩ := List.cons.inj hys
      obtain ⟨-, rfl⟩ := Prod.mk.inj (hx.trans hy.symm)
      exact .same _

/-- A list with the cut behind its opening bracket. -/
theorem readValue_cut_arr (hx : Completion x) {items : List Json}
    (hv : WellFormedItems readFloat items) (hp : p <+: L.writeItems items)
    (hitems : ∀ ts, items ≠ [] → readItems readFloat n (p ++ x) = some (ts, r) →
      Truncation readFloat (.arr ts) (.arr items) ∧ Closers r ∧ r.length < x.length)
    (hread : readValue readFloat (n + 1) ('[' :: (p ++ x)) = some (t, r)) :
    Truncation readFloat t (.arr items) ∧ Closers r ∧ r.length < x.length := by
  cases items with
  | nil =>
    obtain rfl : p = [] := by simpa [Layout.writeItems] using hp
    rw [readValue, List.nil_append, hx.skipBlanks] at hread
    split at hread
    · obtain ⟨rfl, rfl⟩ := Prod.mk.inj (Option.some.inj hread)
      exact ⟨.same _, hx.tail, by simp⟩
    · obtain ⟨⟨ts, rest⟩, hrest, -⟩ := Option.map_eq_some_iff.mp hread
      exact absurd hrest (by rw [readItems_completion hx]; simp)
  | cons v items =>
    obtain ⟨c, tail, hhead, hblank, hclose⟩ := writeItems_head (L := L) items hv.1
    rw [readValue, skipBlanks_cut hx hhead hblank hp] at hread
    split at hread
    · next heq =>
      obtain ⟨rfl, rfl⟩ := Prod.mk.inj (Option.some.inj hread)
      cases p with
      | nil =>
        rw [List.nil_append] at heq
        subst heq
        exact ⟨.items [] _, hx.tail, by simp⟩
      | cons d p =>
        rw [hhead] at hp
        obtain ⟨rfl, -⟩ := List.cons_prefix_cons.mp hp
        exact absurd (List.cons.inj heq).1 hclose
    · obtain ⟨⟨ts, rest⟩, hrest, heq⟩ := Option.map_eq_some_iff.mp hread
      obtain ⟨rfl, rfl⟩ := Prod.mk.inj heq
      exact hitems ts (List.cons_ne_nil v items) hrest

/-- A dict with the cut behind its opening brace. -/
theorem readValue_cut_obj (hx : Completion x) {items : List (String × Json)}
    (hkeys : (items.map Prod.fst).Nodup) (hp : p <+: L.writeFields items)
    (hfields : ∀ ts, items ≠ [] → readFields readFloat n (p ++ x) = some (ts, r) →
      Truncation readFloat (.obj ts) (.obj items) ∧ Closers r ∧ r.length < x.length)
    (hread : readValue readFloat (n + 1) ('{' :: (p ++ x)) = some (t, r)) :
    Truncation readFloat t (.obj items) ∧ Closers r ∧ r.length < x.length := by
  cases items with
  | nil =>
    obtain rfl : p = [] := by simpa [Layout.writeFields] using hp
    rw [readValue, List.nil_append, hx.skipBlanks] at hread
    split at hread
    · obtain ⟨rfl, rfl⟩ := Prod.mk.inj (Option.some.inj hread)
      exact ⟨.same _, hx.tail, by simp⟩
    · obtain ⟨⟨ts, rest⟩, hrest, -⟩ := Option.map_eq_some_iff.mp hread
      exact absurd hrest (by rw [readFields_completion hx]; simp)
  | cons i items =>
    obtain ⟨tail, hhead⟩ := writeFields_head (L := L) i items
    rw [readValue, skipBlanks_cut hx hhead (by decide) hp] at hread
    split at hread
    · next heq =>
      obtain ⟨rfl, rfl⟩ := Prod.mk.inj (Option.some.inj hread)
      cases p with
      | nil =>
        rw [List.nil_append] at heq
        subst heq
        exact ⟨.fields [] _, hx.tail, by simp⟩
      | cons d p =>
        rw [hhead] at hp
        obtain ⟨rfl, -⟩ := List.cons_prefix_cons.mp hp
        exact absurd (List.cons.inj heq).1 (by decide)
    · obtain ⟨⟨ts, rest⟩, hrest, heq⟩ := Option.map_eq_some_iff.mp hread
      obtain ⟨rfl, rfl⟩ := Prod.mk.inj heq
      obtain ⟨htrunc, hr⟩ := hfields ts (List.cons_ne_nil i items) hrest
      have hnodup : (ts.map Prod.fst).Nodup := hkeys.sublist htrunc.keys.sublist
      simp only [PyDict.update_nil_of_nodup hnodup]
      exact ⟨htrunc, hr⟩

theorem readItems_inv {ts : List Json} (h : readItems readFloat (n + 1) cs = some (ts, r)) :
    ∃ t rest, readValue readFloat n cs = some (t, rest) ∧
      ((skipBlanks rest = ']' :: r ∧ ts = [t]) ∨
        ∃ after others, skipBlanks rest = ',' :: after ∧
          readItems readFloat n (skipBlanks after) = some (others, r) ∧ ts = t :: others) := by
  rw [readItems] at h
  obtain ⟨⟨t, rest⟩, hread, h⟩ := Option.bind_eq_some_iff.mp h
  refine ⟨t, rest, hread, ?_⟩
  simp only at h
  split at h
  · next hskip =>
    obtain ⟨rfl, rfl⟩ := Prod.mk.inj (Option.some.inj h)
    exact .inl ⟨hskip, rfl⟩
  · next after hskip =>
    obtain ⟨⟨others, rest'⟩, hothers, heq⟩ := Option.map_eq_some_iff.mp h
    obtain ⟨rfl, rfl⟩ := Prod.mk.inj heq
    exact .inr ⟨after, others, hskip, hothers, rfl⟩
  · exact absurd h (by simp)

theorem readFields_inv (h : readFields readFloat (n + 1) (L.string k ++ ':' :: cs) = some (ts, r)) :
    ∃ t rest, readValue readFloat n (skipBlanks cs) = some (t, rest) ∧
      ((skipBlanks rest = '}' :: r ∧ ts = [(k, t)]) ∨
        ∃ after others, skipBlanks rest = ',' :: after ∧
          readFields readFloat n (skipBlanks after) = some (others, r) ∧
          ts = (k, t) :: others) := by
  cases hread : readValue readFloat n (skipBlanks cs) with
  | none =>
    simp only [Layout.string, List.cons_append, List.append_assoc, List.nil_append, readFields,
      readString_string, Option.bind_some, skipBlanks_cons (by decide : isBlank ':' = false),
      hread, Option.bind_none] at h
    exact absurd h (by simp)
  | some result =>
    obtain ⟨t, rest⟩ := result
    refine ⟨t, rest, rfl, ?_⟩
    rw [readFields_field hread] at h
    split at h
    · next hskip =>
      obtain ⟨rfl, rfl⟩ := Prod.mk.inj (Option.some.inj h)
      exact .inl ⟨hskip, rfl⟩
    · next after hskip =>
      obtain ⟨⟨others, rest'⟩, hothers, heq⟩ := Option.map_eq_some_iff.mp h
      obtain ⟨rfl, rfl⟩ := Prod.mk.inj heq
      exact .inr ⟨after, others, hskip, hothers, rfl⟩
    · exact absurd h (by simp)

theorem no_colon (hx : Completion x) {α : Type} {next : List Char → Option α} {result : α} :
    (match skipBlanks x with
      | ':' :: cs => next cs
      | _ => none) ≠ some result := by
  rw [hx.skipBlanks]
  split
  · exact absurd hx.head (by decide)
  · simp

/-- A dict is read only where the cut is behind the colon of its field. -/
theorem readFields_cut_key (hesc : CutSafe L.esc) (hx : Completion x)
    (hp : p <+: L.string k ++ ':' :: text)
    (hread : readFields readFloat n (p ++ x) = some (ts, r)) :
    ∃ q, p = L.string k ++ ':' :: q ∧ q <+: text := by
  cases n with
  | zero => exact absurd hread (by simp [readFields])
  | succ n =>
    cases p with
    | nil => exact absurd hread (by rw [List.nil_append, readFields_completion hx]; simp)
    | cons d p =>
      simp only [Layout.string, List.cons_append, List.append_assoc, List.nil_append] at hp
      obtain ⟨rfl, hkeyed⟩ := List.cons_prefix_cons.mp hp
      rcases isPrefix_append_cases hkeyed with hcut | ⟨q, rfl, hq⟩
      · -- the cut is in the key: its quote comes from behind the cut
        rw [List.cons_append, readFields] at hread
        obtain ⟨⟨s, rest⟩, hkey, hafter⟩ := Option.bind_eq_some_iff.mp hread
        obtain ⟨-, rfl⟩ := readString_cut hesc hx hcut hkey
        exact absurd hafter (no_colon (.brackets hx.tail))
      · cases q with
        | nil =>
          rw [List.append_nil, List.cons_append, readFields] at hread
          obtain ⟨⟨s, rest⟩, hkey, hafter⟩ := Option.bind_eq_some_iff.mp hread
          obtain ⟨-, rfl⟩ := readString_cut hesc hx (List.prefix_refl _) hkey
          exact absurd hafter (no_colon (.brackets hx.tail))
        | cons c q =>
          obtain ⟨rfl, hcolon⟩ := List.cons_prefix_cons.mp hq
          cases q with
          | nil =>
            rw [List.cons_append, List.append_assoc, List.cons_append, List.nil_append,
              readFields, readString_string] at hread
            exact absurd hread (no_colon hx)
          | cons c q =>
            obtain ⟨rfl, htext⟩ := List.cons_prefix_cons.mp hcolon
            exact ⟨q, by simp [Layout.string], htext⟩

theorem readValue_cut_numeral (hx : Completion x) (hne : p ≠ [])
    (hall : ∀ c ∈ numeral, isNumberChar c) (hp : p <+: numeral)
    (hread : readValue readFloat (n + 1) (p ++ x) = some (t, r)) :
    readNumber readFloat p = some t ∧ Left x r := by
  rw [readValue_numeral hne (fun c hc => hall c (hp.subset hc)) hx.endsNumber] at hread
  obtain ⟨w, hw, heq⟩ := Option.map_eq_some_iff.mp hread
  obtain ⟨rfl, rfl⟩ := Prod.mk.inj heq
  exact ⟨hw, .inl rfl⟩

theorem readValue_cut_word {word : List Char} (hx : Completion x) (hne : p ≠ [])
    (hword : word ∈ ["null", "true", "false"].map String.toList) (hp : p <+: word)
    (hwhole : p ≠ word) : readValue readFloat n (p ++ x) = none := by
  refine readValue_word hx ?_
  have hmem : p ∈ word.inits := List.mem_inits p word |>.mpr hp
  have hall : ∀ word ∈ ["null", "true", "false"].map String.toList, ∀ p ∈ word.inits, p ≠ [] →
      p ≠ word → p ∈ ["n", "nu", "nul", "t", "tr", "tru", "f", "fa", "fal", "fals"].map
        String.toList := by
    decide
  exact hall word hword p hmem hne hwhole

theorem isPrefix_of_concat (hp : p <+: a ++ [c]) (hne : p ≠ a ++ [c]) : p <+: a :=
  (List.prefix_concat_iff.mp hp).resolve_left hne

theorem item_cut (hx : Completion x) {items ts : List Json} {v : Json}
    (htrunc : Truncation readFloat t v) (hleft : Left x rest)
    (h : (skipBlanks rest = ']' :: r ∧ ts = [t]) ∨
      ∃ after others, skipBlanks rest = ',' :: after ∧
        readItems readFloat n (skipBlanks after) = some (others, r) ∧ ts = t :: others) :
    Truncation readFloat (.arr ts) (.arr (v :: items)) ∧ Closers r ∧ r.length < x.length := by
  rw [(hleft.completion hx).skipBlanks] at h
  rcases h with ⟨rfl, rfl⟩ | ⟨after, others, rfl, -⟩
  · exact ⟨.item [] items htrunc, hleft.next hx⟩
  · exact absurd (hleft.completion hx).head (by decide)

theorem field_cut (hx : Completion x)
    {v : Json} (htrunc : Truncation readFloat t v) (hleft : Left x rest)
    (h : (skipBlanks rest = '}' :: r ∧ ts = [(k, t)]) ∨
      ∃ after others, skipBlanks rest = ',' :: after ∧
        readFields readFloat n (skipBlanks after) = some (others, r) ∧ ts = (k, t) :: others) :
    Truncation readFloat (.obj ts) (.obj ((k, v) :: items)) ∧ Closers r ∧
      r.length < x.length := by
  rw [(hleft.completion hx).skipBlanks] at h
  rcases h with ⟨rfl, rfl⟩ | ⟨after, others, rfl, -⟩
  · exact ⟨.field [] items k htrunc, hleft.next hx⟩
  · exact absurd (hleft.completion hx).head (by decide)

variable (hesc : CutSafe L.esc) (hx : Completion x)
include hesc hx

mutual

theorem readValue_cut (v : Json) (hv : WellFormed readFloat v) {n : Nat} {p r : List Char}
    {t : Json} (hp : p <+: L.write v) (hread : readValue readFloat n (p ++ x) = some (t, r)) :
    Truncation readFloat t v ∧ Left x r := by
  by_cases hnil : p = []
  · rw [hnil, List.nil_append, readValue_completion hx] at hread
    exact absurd hread (by simp)
  by_cases hwhole : p = L.write v
  · rw [hwhole] at hread
    obtain ⟨rfl, rfl⟩ := eq_of_readValue_write hv hx.endsNumber hread
    exact ⟨.same _, .inl rfl⟩
  obtain ⟨n, rfl⟩ := fuel_of_readValue hread
  match v, hv with
  | .null, _ =>
    rw [readValue_cut_word hx hnil (by simp [Layout.write, dumpChars]) hp hwhole] at hread
    exact absurd hread (by simp)
  | .bool true, _ =>
    rw [readValue_cut_word hx hnil (by simp [Layout.write, dumpChars]) hp hwhole] at hread
    exact absurd hread (by simp)
  | .bool false, _ =>
    rw [readValue_cut_word hx hnil (by simp [Layout.write, dumpChars]) hp hwhole] at hread
    exact absurd hread (by simp)
  | .int m, _ =>
    rw [write_int] at hp
    obtain ⟨hw, hr⟩ := readValue_cut_numeral hx hnil (isNumberChar_int m) hp hread
    exact ⟨.int hp hw, hr⟩
  | .float text num exp, _ =>
    rw [write_float] at hp
    obtain ⟨hw, hr⟩ := readValue_cut_numeral hx hnil (isNumberChar_float text) hp hread
    exact ⟨.float hp hw, hr⟩
  | .str s, _ =>
    obtain ⟨d, q, rfl⟩ := List.exists_cons_of_ne_nil hnil
    obtain ⟨rfl, hq⟩ := List.cons_prefix_cons.mp hp
    have hcut := isPrefix_of_concat hq fun heq => hwhole (congrArg (List.cons _) heq)
    rw [List.cons_append, readValue] at hread
    obtain ⟨⟨s', rest⟩, hstring, heq⟩ := Option.map_eq_some_iff.mp hread
    obtain ⟨rfl, rfl⟩ := Prod.mk.inj heq
    obtain ⟨hs, rfl⟩ := readString_cut hesc hx hcut hstring
    exact ⟨.str (by simpa using hs), .inr ⟨hx.tail, by simp⟩⟩
  | .arr items, hv =>
    obtain ⟨d, q, rfl⟩ := List.exists_cons_of_ne_nil hnil
    rw [Layout.write] at hp hwhole
    obtain ⟨rfl, hq⟩ := List.cons_prefix_cons.mp hp
    have hcut := isPrefix_of_concat hq fun heq => hwhole (congrArg (List.cons _) heq)
    rw [List.cons_append] at hread
    obtain ⟨htrunc, hr⟩ := readValue_cut_arr hx hv hcut
      (fun ts hne hitems => readItems_cut items hv hne hcut hitems) hread
    exact ⟨htrunc, .inr hr⟩
  | .obj items, hv =>
    obtain ⟨d, q, rfl⟩ := List.exists_cons_of_ne_nil hnil
    rw [Layout.write] at hp hwhole
    obtain ⟨rfl, hq⟩ := List.cons_prefix_cons.mp hp
    have hcut := isPrefix_of_concat hq fun heq => hwhole (congrArg (List.cons _) heq)
    rw [List.cons_append] at hread
    obtain ⟨htrunc, hr⟩ := readValue_cut_obj hx hv.1 hcut
      (fun ts hne hfields => readFields_cut items hv.2 hne hcut hfields) hread
    exact ⟨htrunc, .inr hr⟩

theorem readItems_cut (items : List Json) (h : WellFormedItems readFloat items)
    (hne : items ≠ []) {n : Nat} {p r : List Char} {ts : List Json} (hp : p <+: L.writeItems items)
    (hread : readItems readFloat n (p ++ x) = some (ts, r)) :
    Truncation readFloat (.arr ts) (.arr items) ∧ Closers r ∧ r.length < x.length := by
  cases n with
  | zero => exact absurd hread (by simp [readItems])
  | succ n =>
    obtain ⟨t, rest, hfirst, hrest⟩ := readItems_inv hread
    match items, h, hne with
    | [v], h, _ =>
      rw [Layout.writeItems] at hp
      obtain ⟨htrunc, hleft⟩ := readValue_cut v h.1 hp hfirst
      exact item_cut hx htrunc hleft hrest
    | v :: w :: items, h, _ =>
      rw [Layout.writeItems] at hp
      rcases isPrefix_append_cases hp with hp | ⟨q, rfl, hq⟩
      · obtain ⟨htrunc, hleft⟩ := readValue_cut v h.1 hp hfirst
        exact item_cut hx htrunc hleft hrest
      cases q with
      | nil =>
        -- the cut is right behind the item
        rw [List.append_nil] at hfirst
        obtain ⟨htrunc, hleft⟩ := readValue_cut v h.1 (List.prefix_refl _) hfirst
        exact item_cut hx htrunc hleft hrest
      | cons c q =>
        obtain ⟨rfl, hafter⟩ := List.cons_prefix_cons.mp hq
        rw [List.append_assoc, List.cons_append] at hfirst
        obtain ⟨rfl, rfl⟩ :=
          eq_of_readValue_write h.1 (endsNumber_cons (by decide) _) hfirst
        obtain ⟨d, tail, hhead, hblank, -⟩ := writeItems_head (L := L) items h.2.1
        obtain ⟨q', hskip, hq'⟩ :=
          skipBlanks_pad_cut hx L.commaPad_blank hhead hblank hafter
        rw [skipBlanks_cons (by decide : isBlank ',' = false)] at hrest
        rcases hrest with ⟨heq, -⟩ | ⟨after, others, heq, hothers, rfl⟩
        · exact absurd (List.cons.inj heq).1 (by decide)
        · obtain ⟨-, rfl⟩ := List.cons.inj heq
          rw [hskip] at hothers
          obtain ⟨htrunc, hr⟩ :=
            readItems_cut (w :: items) h.2 (List.cons_ne_nil w items) hq' hothers
          exact ⟨htrunc.cons_item, hr⟩

theorem readFields_cut (items : List (String × Json)) (h : WellFormedFields readFloat items)
    (hne : items ≠ []) {n : Nat} {p r : List Char} {ts : List (String × Json)}
    (hp : p <+: L.writeFields items) (hread : readFields readFloat n (p ++ x) = some (ts, r)) :
    Truncation readFloat (.obj ts) (.obj items) ∧ Closers r ∧ r.length < x.length := by
  cases n with
  | zero => exact absurd hread (by simp [readFields])
  | succ n =>
    match items, h, hne with
    | [(k, v)], h, _ =>
      rw [Layout.writeFields] at hp
      obtain ⟨q, rfl, hq⟩ := readFields_cut_key hesc hx hp hread
      rw [List.append_assoc, List.cons_append] at hread
      obtain ⟨t, rest, hvalue, hrest⟩ := readFields_inv hread
      obtain ⟨d, tail, hhead, hblank, -⟩ := write_head (L := L) h.1
      obtain ⟨q', hskip, hq'⟩ := skipBlanks_pad_cut hx L.colonPad_blank hhead hblank hq
      rw [hskip] at hvalue
      obtain ⟨htrunc, hleft⟩ := readValue_cut v h.1 hq' hvalue
      exact field_cut hx htrunc hleft hrest
    | (k, v) :: i :: items, h, _ =>
      rw [Layout.writeFields] at hp
      obtain ⟨q, rfl, hq⟩ := readFields_cut_key hesc hx hp hread
      rw [List.append_assoc, List.cons_append] at hread
      obtain ⟨t, rest, hvalue, hrest⟩ := readFields_inv hread
      obtain ⟨d, tail, hhead, hblank, -⟩ := write_head (L := L) h.1
      have htext := congrArg (· ++ ',' :: (L.commaPad ++ L.writeFields (i :: items))) hhead
      obtain ⟨q', hskip, hq'⟩ := skipBlanks_pad_cut hx L.colonPad_blank htext hblank hq
      rw [hskip] at hvalue
      rcases isPrefix_append_cases hq' with hcut | ⟨q'', rfl, hq''⟩
      · obtain ⟨htrunc, hleft⟩ := readValue_cut v h.1 hcut hvalue
        exact field_cut hx htrunc hleft hrest
      cases q'' with
      | nil =>
        -- the cut is right behind the value
        rw [List.append_nil] at hvalue
        obtain ⟨htrunc, hleft⟩ := readValue_cut v h.1 (List.prefix_refl _) hvalue
        exact field_cut hx htrunc hleft hrest
      | cons c q'' =>
        obtain ⟨rfl, hafter⟩ := List.cons_prefix_cons.mp hq''
        rw [List.append_assoc, List.cons_append] at hvalue
        obtain ⟨rfl, rfl⟩ :=
          eq_of_readValue_write h.1 (endsNumber_cons (by decide) _) hvalue
        obtain ⟨tail', hhead'⟩ := writeFields_head (L := L) i items
        obtain ⟨next, hnext, hpre⟩ :=
          skipBlanks_pad_cut hx L.commaPad_blank hhead' (by decide) hafter
        rw [skipBlanks_cons (by decide : isBlank ',' = false)] at hrest
        rcases hrest with ⟨heq, -⟩ | ⟨after, others, heq, hothers, rfl⟩
        · exact absurd (List.cons.inj heq).1 (by decide)
        · obtain ⟨-, rfl⟩ := List.cons.inj heq
          rw [hnext] at hothers
          obtain ⟨htrunc, hr⟩ :=
            readFields_cut (i :: items) h.2 (List.cons_ne_nil i items) hpre hothers
          exact ⟨htrunc.cons_field, hr⟩

end

theorem readValue_cut_dict (hv : WellFormed readFloat (.obj items))
    (hp : p <+: L.write (.obj items)) (hwhole : p ≠ L.write (.obj items))
    (hread : readValue readFloat n (p ++ x) = some (t, r)) :
    Truncation readFloat t (.obj items) ∧ r.length < x.length := by
  cases p with
  | nil =>
    rw [List.nil_append, readValue_completion hx] at hread
    exact absurd hread (by simp)
  | cons d q =>
    obtain ⟨n, rfl⟩ := fuel_of_readValue hread
    rw [Layout.write] at hp hwhole
    obtain ⟨rfl, hq⟩ := List.cons_prefix_cons.mp hp
    have hcut := isPrefix_of_concat hq fun heq => hwhole (congrArg (List.cons _) heq)
    obtain ⟨htrunc, -, hr⟩ := readValue_cut_obj hx hv.1 hcut
      (fun ts hne hfields => readFields_cut hesc hx items hv.2 hne hcut hfields) hread
    exact ⟨htrunc, hr⟩

theorem loads_cut_dict (hv : WellFormed readFloat (.obj items))
    (hp : p <+: L.write (.obj items)) (hwhole : p ≠ L.write (.obj items))
    (hread : loads readFloat (p ++ x) = some t) : Truncation readFloat t (.obj items) := by
  obtain ⟨⟨v, rest⟩, hvalue, h⟩ := Option.bind_eq_some_iff.mp hread
  have hhead : L.write (.obj items) = '{' :: (L.writeFields items ++ ['}']) := by
    rw [Layout.write]
  rw [skipBlanks_cut hx hhead (by decide) hp] at hvalue
  simp only at h
  split at h
  · obtain rfl := Option.some.inj h
    exact (readValue_cut_dict hesc hx hv hp hwhole hvalue).1
  · exact absurd h (by simp)

omit hx in
theorem readValue_cut_eq_none
    (hv : WellFormed readFloat (.obj items)) (hp : p <+: L.write (.obj items))
    (hwhole : p ≠ L.write (.obj items)) : readValue readFloat n p = none := by
  cases hread : readValue readFloat n p with
  | none => rfl
  | some result =>
    obtain ⟨t, r⟩ := result
    rw [← List.append_nil p] at hread
    obtain ⟨-, hr⟩ :=
      readValue_cut_dict hesc (.brackets (by simp [Closers])) hv hp hwhole hread
    exact absurd hr (by simp)

omit hx in
theorem loads_cut_eq_none (hv : WellFormed readFloat (.obj items)) (hp : p <+: L.write (.obj items))
    (hwhole : p ≠ L.write (.obj items)) : loads readFloat p = none := by
  have hhead : L.write (.obj items) = '{' :: (L.writeFields items ++ ['}']) := by
    rw [Layout.write]
  have hskip := skipBlanks_cut (x := []) (.brackets (by simp [Closers])) hhead (by decide) hp
  simp only [List.append_nil] at hskip
  rw [loads, hskip, readValue_cut_eq_none hesc hv hp hwhole, Option.bind_none]

end

/-! ## Escapes that were cut -/

section

variable {q x : List Char}

theorem hexValue?_head {c : Char} (hx : Completion (c :: x)) : hexValue? c = none := by
  rcases hx.head with rfl | rfl | rfl
  · decide
  · decide
  · decide

variable {ds : List Char}

theorem hex4?_cut {rest : List Char} {a b c d : Char} (hx : Completion x) (hds : ds.length < 4)
    (h : ds ++ x = a :: b :: c :: d :: rest) : hex4? a b c d = none := by
  -- one of the four characters comes from behind the cut
  match ds, hds with
  | [], _ =>
    rw [List.nil_append] at h
    subst h
    simp [hex4?, hexValue?_head hx]
  | [e], _ =>
    obtain ⟨rfl, rfl⟩ := List.cons.inj h
    simp [hex4?, hexValue?_head hx]
  | [e, e'], _ =>
    obtain ⟨-, htail⟩ := List.cons.inj h
    obtain ⟨-, rfl⟩ := List.cons.inj htail
    simp [hex4?, hexValue?_head hx]
  | [e, e', e''], _ =>
    obtain ⟨-, htail⟩ := List.cons.inj h
    obtain ⟨-, htail'⟩ := List.cons.inj htail
    obtain ⟨-, rfl⟩ := List.cons.inj htail'
    simp [hex4?, hexValue?_head hx]

theorem unicodeEscape_cut {n : Nat} (hq : q <+: unicodeEscape n) (hne : q ≠ unicodeEscape n) :
    q = [] ∨ q = ['\\'] ∨ ∃ ds, q = '\\' :: 'u' :: ds ∧ ds.length < 4 := by
  match q, hq with
  | [], _ => exact .inl rfl
  | [c], hq =>
    obtain ⟨rfl, -⟩ := List.cons_prefix_cons.mp hq
    exact .inr (.inl rfl)
  | c :: c' :: ds, hq =>
    obtain ⟨rfl, hq'⟩ := List.cons_prefix_cons.mp hq
    obtain ⟨rfl, hds⟩ := List.cons_prefix_cons.mp hq'
    refine .inr (.inr ⟨ds, rfl, ?_⟩)
    refine lt_of_le_of_ne hds.length_le fun hlength => hne ?_
    rw [unicodeEscape, hds.eq_of_length hlength]

theorem readChar_unicode_cut (hx : Completion x) (hds : ds.length < 4) :
    readChar ('\\' :: 'u' :: (ds ++ x)) = none := by
  unfold readChar
  split
  case h_1 heq =>
    obtain ⟨-, heq⟩ := List.cons.inj heq
    obtain ⟨-, heq⟩ := List.cons.inj heq
    rw [hex4?_cut hx hds heq, Option.bind_none]
  case h_10 heq =>
    obtain ⟨rfl, -⟩ := List.cons.inj heq
    simp
  case h_11 => rfl
  -- the escapes of two characters
  all_goals
    next heq => exact absurd (List.cons.inj (List.cons.inj heq).2).1 (by decide)

theorem readUnit_cut {high m : Nat} (hhigh : 0xd800 ≤ high ∧ high ≤ 0xdbff) (hx : Completion x)
    (hq : q <+: unicodeEscape m) (hne : q ≠ unicodeEscape m) : readUnit high (q ++ x) = none := by
  unfold readUnit
  rw [if_pos hhigh]
  split
  · next a b c d rest heq =>
    rcases unicodeEscape_cut hq hne with rfl | rfl | ⟨ds, rfl, hds⟩
    · rw [List.nil_append] at heq
      rw [heq] at hx
      exact absurd hx.head (by decide)
    · obtain ⟨-, htail⟩ := List.cons.inj heq
      have hhead : x = 'u' :: a :: b :: c :: d :: rest := htail
      rw [hhead] at hx
      exact absurd hx.head (by decide)
    · obtain ⟨-, heq⟩ := List.cons.inj heq
      obtain ⟨-, heq⟩ := List.cons.inj heq
      rw [hex4?_cut hx hds heq, Option.bind_none]
  · rfl

theorem readString_of_readChar {n : Nat} {c : Char} {cs : List Char} (hc : c ≠ '"')
    (h : readChar (c :: cs) = none) : readString n (c :: cs) = none := by
  cases n with
  | zero => rw [readString]
  | succ n =>
    rw [readString, h]
    · rfl
    · rintro rest heq
      exact hc (List.cons.inj heq).1

theorem readString_backslash (n : Nat) (hx : Completion x) : readString n ('\\' :: x) = none := by
  cases hx with
  | brackets h =>
    refine readString_eq_none ?_
    rintro hmem
    rcases List.mem_cons.mp hmem with heq | hmem
    · exact absurd heq (by decide)
    · exact h.quote_notMem hmem
  | quoted h =>
    cases n with
    | zero => rw [readString]
    | succ n =>
      rw [readString, readChar, Option.bind_some]
      · simp only [readString_eq_none h.quote_notMem, Option.map_none]
      · rintro rest heq
        exact absurd (List.cons.inj heq).1 (by decide)

theorem readString_unicode_cut {m : Nat} (n : Nat) (hx : Completion x) (hq : q <+: unicodeEscape m)
    (hnil : q ≠ []) (hne : q ≠ unicodeEscape m) : readString n (q ++ x) = none := by
  rcases unicodeEscape_cut hq hne with rfl | rfl | ⟨ds, rfl, hds⟩
  · exact absurd rfl hnil
  · exact readString_backslash n hx
  · exact readString_of_readChar (by decide) (readChar_unicode_cut hx hds)

theorem escapeChar_shapes (c : Char) : escapeChar c = [c] ∨ (∃ e, escapeChar c = ['\\', e]) ∨
    ∃ n, escapeChar c = unicodeEscape n := by
  unfold escapeChar
  repeat' split
  all_goals first
    | exact .inl rfl
    | exact .inr (.inl ⟨_, rfl⟩)
    | exact .inr (.inr ⟨_, rfl⟩)

theorem readString_escapeChar_cut {c : Char} (n : Nat) (hx : Completion x) (hq : q <+: escapeChar c)
    (hnil : q ≠ []) (hne : q ≠ escapeChar c) : readString n (q ++ x) = none := by
  obtain ⟨d, q, rfl⟩ := List.exists_cons_of_ne_nil hnil
  rcases escapeChar_shapes c with hc | ⟨e, hc⟩ | ⟨m, hc⟩
  · rw [hc] at hq hne
    obtain ⟨rfl, hq'⟩ := List.cons_prefix_cons.mp hq
    obtain rfl := List.prefix_nil.mp hq'
    exact absurd rfl hne
  · rw [hc] at hq hne
    obtain ⟨rfl, hq'⟩ := List.cons_prefix_cons.mp hq
    cases q with
    | nil => exact readString_backslash n hx
    | cons d q =>
      obtain ⟨rfl, hq''⟩ := List.cons_prefix_cons.mp hq'
      obtain rfl := List.prefix_nil.mp hq''
      exact absurd rfl hne
  · rw [hc] at hq hne
    exact readString_unicode_cut n hx hq hnil hne

theorem CutSafe.ascii : CutSafe escapeCharAscii := by
  constructor
  intro c q x n hq hnil hne hx
  unfold escapeCharAscii at hq hne
  split at hq
  · rw [if_pos (by assumption)] at hne
    exact readString_escapeChar_cut n hx hq hnil hne
  · next hwide =>
    rw [if_neg hwide] at hne
    split at hq
    · rw [if_pos (by assumption)] at hne
      exact readString_unicode_cut n hx hq hnil hne
    · next hpair =>
      rw [if_neg hpair] at hne
      have hvalid := c.valid
      simp only [UInt32.isValidChar, Nat.isValidChar] at hvalid
      have hval : c.toNat = c.val.toNat := rfl
      by_cases hfirst : unicodeEscape (0xd800 + (c.toNat - 0x10000) / 1024) <+: q
      · -- the cut is in the second half of a pair
        obtain ⟨q', rfl⟩ := hfirst
        have hq' := (List.prefix_append_right_inj _).mp hq
        have hunit : readUnit (0xd800 + (c.toNat - 0x10000) / 1024) (q' ++ x) = none :=
          readUnit_cut (by omega) hx hq' fun heq => hne (by rw [heq])
        rw [List.append_assoc]
        refine readString_of_readChar (by decide) ?_
        rw [← hunit]
        exact readChar_unicodeEscape (by omega) _
      · rcases isPrefix_append_cases hq with hcut | ⟨q', rfl, -⟩
        · refine readString_unicode_cut n hx hcut hnil ?_
          rintro rfl
          exact hfirst (List.prefix_refl _)
        · exact absurd (List.prefix_append _ _) hfirst

end

end PawFlow.Lib.Json
