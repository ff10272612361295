import PawFlow.Lib.JsonCut
import PawFlow.ToolJson.Escapes

/-!
# Arguments that were cut off

Arguments that were encoded several times are read as what they were. Of arguments whose text was
cut at some place a truncation is read, or the payload of an error, or, where the cut made the
text look like one with bare quotes in it, what their repair makes of it.
-/

namespace PawFlow.ToolJson

open PawFlow.Lib

/-- `json.dumps(value)`. -/
def jsonDumps (v : Json) : String := .ofList (Json.Layout.ascii.write v)

/-- `json.dumps` applied a number of times. -/
def encoded : (times : Nat) → Json → Json
  | 0, v => v
  | n + 1, v => .str (jsonDumps (encoded n v))

/-- A text that was cut off, though not between the two halves of a surrogate pair. -/
structure Cut (text p : List Char) : Prop where
  isPrefix : p <+: text
  proper : p ≠ text
  pairs : ∀ before after c, 0x10000 ≤ c.toNat →
    text = before ++ (Json.escapeCharAscii c ++ after) → p.length ≠ before.length + 6

section

variable {readFloat : List Char → Option (FloatText × Int × Nat)} (py : Python)

/-! ## Encoded arguments -/

variable {v : Json}

theorem decodeText_jsonDumps (hv : Json.WellFormed readFloat v) :
    decodeText readFloat py (jsonDumps v).toList = .ok v := by
  have hloads := Json.loads_write Json.Layout.ascii hv
  rw [jsonDumps, String.toList_ofList, decodeText, hloads]

theorem wellFormed_encoded (hv : Json.WellFormed readFloat v) (k : Nat) :
    Json.WellFormed readFloat (encoded k v) := by
  cases k with
  | zero => exact hv
  | succ k => exact trivial

theorem unwrap_obj (n : Nat) (d : List (String × Json)) :
    unwrap readFloat py n (.obj d) = .ok (.obj d) := by
  cases n with
  | zero => rfl
  | succ n => rfl

theorem unwrap_encoded {d : List (String × Json)} (hd : Json.WellFormed readFloat (.obj d))
    {k n : Nat} (hk : k ≤ n) : unwrap readFloat py n (encoded k (.obj d)) = .ok (.obj d) := by
  induction k generalizing n with
  | zero => exact unwrap_obj py n d
  | succ k ih =>
    obtain ⟨n, rfl⟩ : ∃ m, n = m + 1 := ⟨n - 1, by omega⟩
    rw [encoded, unwrap, decodeText_jsonDumps py (wellFormed_encoded hd k)]
    exact ih (by omega)

theorem jsonDumps_ne (hv : Json.WellFormed readFloat v) : jsonDumps v ≠ "" := by
  obtain ⟨c, tail, hhead, -⟩ := Json.write_head (L := Json.Layout.ascii) hv
  intro heq
  have hnil : (jsonDumps v).toList = [] := by rw [heq]; rfl
  rw [jsonDumps, String.toList_ofList, hhead] at hnil
  exact absurd hnil (by simp)

theorem parse_str {s : String} (hs : s ≠ "") :
    parseToolArguments readFloat py (.str s) =
      match unwrap readFloat py 3 (.str s) with
      | .error payload => payload
      | .ok (.obj fields) => fields
      | .ok v => errorPayload py (.str s)
          ("expected JSON object for tool arguments, got " ++ typeName v) := by
  rw [parseToolArguments.eq_def]
  split
  · next heq => exact absurd heq (by simp)
  · next heq => exact absurd (Json.str.inj heq) hs
  · next heq => exact absurd heq (by simp)
  · rfl

theorem parse_encoded {d : List (String × Json)} (hd : Json.WellFormed readFloat (.obj d))
    {k : Nat} (hpos : 0 < k) (hk : k ≤ 3) :
    parseToolArguments readFloat py (encoded k (.obj d)) = d := by
  have hunwrap := unwrap_encoded py hd hk
  obtain ⟨k, rfl⟩ : ∃ m, k = m + 1 := ⟨k - 1, by omega⟩
  rw [encoded] at hunwrap ⊢
  rw [parse_str py (jsonDumps_ne (wellFormed_encoded hd k)), hunwrap]

/-! ## What is put behind a cut -/

variable {s : Scan}

theorem closers_step (h : Json.Closers s.stack) (c : Char) : Json.Closers (s.step c).stack := by
  unfold Scan.step
  repeat' split
  case isFalse.isFalse.isTrue =>
    rintro d hd
    rcases List.mem_cons.mp hd with rfl | hd
    · exact .inl rfl
    · exact h d hd
  case isFalse.isFalse.isFalse.isTrue =>
    rintro d hd
    rcases List.mem_cons.mp hd with rfl | hd
    · exact .inr rfl
    · exact h d hd
  case isFalse.isFalse.isFalse.isFalse.isTrue =>
    exact fun d hd => h d (List.mem_of_mem_tail hd)
  all_goals exact h

theorem closers_scan (h : Json.Closers s.stack) (text : List Char) :
    Json.Closers (scan s text).stack := by
  induction text generalizing s with
  | nil => exact h
  | cons c text ih => exact ih (closers_step h c)

theorem completion_closers (h : Json.Closers s.stack) (n : Nat) :
    Json.Completion (s.closers n) := by
  have htake : ∀ m, Json.Closers (s.stack.take m) := fun m c hc => h c (List.mem_of_mem_take hc)
  unfold Scan.closers
  split
  · exact .quoted (htake _)
  · exact .brackets (htake _)

theorem autoclose_eq (p : List Char) :
    ∃ x, Json.Completion x ∧ autocloseTruncatedJson p = p ++ x :=
  ⟨_, completion_closers (closers_scan (by simp [Json.Closers]) p) 4, rfl⟩

/-! ## What the escape repair leaves of a cut text -/

/-- Where nothing is repaired in a text, of its beginnings nothing but a last backslash is lost. -/
theorem repairChars_isPrefix (inString : Bool) (p rest : List Char)
    (h : (repairChars inString (p ++ rest)).2 = false) : (repairChars inString p).1 <+: p := by
  fun_induction repairChars inString p with
  | case1 => exact List.nil_prefix
  | case2 c p out changed heq ih =>
    rw [heq] at ih
    refine (List.prefix_cons_inj c).mpr (ih ?_)
    by_cases hc : c = '"'
    · subst hc
      rw [List.cons_append, repairChars_open] at h
      exact h
    · rw [List.cons_append, repairChars_outside hc] at h
      rw [decide_eq_false hc]
      exact h
  | case3 inString p hstring out changed heq ih =>
    obtain rfl : inString = true := by simpa using hstring
    rw [heq] at ih
    rw [List.cons_append, repairChars_close] at h
    exact (List.prefix_cons_inj _).mpr (ih h)
  | case4 => exact List.nil_prefix
  | case5 inString hstring e p he out changed heq _ ih =>
    obtain rfl : inString = true := by simpa using hstring
    rw [heq] at ih
    rw [List.cons_append, List.cons_append, repairChars_escape he] at h
    exact (List.prefix_cons_inj _).mpr ((List.prefix_cons_inj e).mpr (ih h))
  | case6 inString hstring p _ _ ih =>
    obtain rfl : inString = true := by simpa using hstring
    rw [List.cons_append, List.cons_append, repairChars.eq_def] at h
    exact absurd h (by simp [jsonValidEscapes])
  | case7 inString hstring e p hvalid hsingle _ ih =>
    obtain rfl : inString = true := by simpa using hstring
    rw [List.cons_append, List.cons_append, repairChars.eq_def] at h
    exact absurd h (by simp [hvalid, hsingle])
  | case8 inString c p hstring hquote hslash hcontrol ih =>
    obtain rfl : inString = true := by simpa using hstring
    rw [List.cons_append, repairChars.eq_def] at h
    exact absurd h (by simp [hquote, hslash, hcontrol])
  | case9 inString c p hstring hquote hslash hprint out changed heq ih =>
    obtain rfl : inString = true := by simpa using hstring
    rw [heq] at ih
    rw [List.cons_append, repairChars_plain hquote hslash (by omega)] at h
    exact (List.prefix_cons_inj c).mpr (ih h)

variable {text : List Char}

theorem repair_isPrefix {p : List Char} (h : Json.Closed text) (hp : p <+: text) :
    repairInvalidJsonEscapes p <+: p := by
  obtain ⟨rest, rfl⟩ := hp
  have hrepair := repairChars_closed h []
  rw [List.append_nil] at hrepair
  rw [repairInvalidJsonEscapes_eq]
  exact repairChars_isPrefix false p rest (by rw [hrepair]; rfl)

/-! ## Quotes -/

theorem repairBareQuotes_head {c : Char} {s : List Char} (hc : c ≠ '"') (hs : s.head? = some c) :
    (repairBareQuotes readFloat s).head? = some c := by
  unfold repairBareQuotes
  simp only
  split
  · exact hs
  · cases hfind : List.find? _ _ with
    | none => exact hs
    | some candidate =>
      have hmem := List.mem_of_find?_eq_some hfind
      obtain ⟨o, ho, hmem⟩ := List.mem_flatMap.mp hmem
      obtain ⟨d, -, hd⟩ := List.mem_filterMap.mp hmem
      split at hd
      · exact absurd hd (by simp)
      · obtain rfl := Option.some.inj hd
        have hquote : s[o]? = some '"' := by
          simpa using (List.mem_filter.mp (List.mem_filter.mp ho).1).2
        obtain ⟨o, rfl⟩ : ∃ m, o = m + 1 := by
          refine Nat.exists_eq_succ_of_ne_zero ?_
          rintro rfl
          rw [← List.head?_eq_getElem?, hs] at hquote
          exact hc (Option.some.inj hquote)
        obtain ⟨tail, rfl⟩ := List.head?_eq_some_iff.mp hs
        rfl

theorem loads_brace {tail : List Char} {v : Json} (h : Json.loads readFloat ('{' :: tail) = some v) :
    ∃ fields, v = .obj fields := by
  obtain ⟨⟨w, rest⟩, hread, h⟩ := Option.bind_eq_some_iff.mp h
  rw [Json.skipBlanks_cons (by decide), Json.readValue] at hread
  have hobj : ∃ fields, w = .obj fields := by
    split at hread
    · obtain ⟨rfl, -⟩ := Prod.mk.inj (Option.some.inj hread)
      exact ⟨_, rfl⟩
    · obtain ⟨⟨items, rest'⟩, -, heq⟩ := Option.map_eq_some_iff.mp hread
      obtain ⟨rfl, -⟩ := Prod.mk.inj heq
      exact ⟨_, rfl⟩
  simp only at h
  split at h
  · obtain rfl := Option.some.inj h
    exact hobj
  · exact absurd h (by simp)

/-! ## Cut arguments -/

variable (readFloat) in
/-- What may be made of arguments `d` whose text was cut to `p`. The bare quotes are looked for
where brackets and a quote were not enough. -/
inductive Reading (d : List (String × Json)) (p : List Char) : List (String × Json) → Prop
  | error (detail : String) : Reading d p (errorPayload py (.str (.ofList p)) detail)
  | truncation {fields : List (String × Json)} :
      Json.Truncation readFloat (.obj fields) (.obj d) → Reading d p fields
  | requoted {fields : List (String × Json)} :
      (looksTruncated p (py.decodeError p) = true →
        Json.loads readFloat (autocloseTruncatedJson p) = none) →
      repairBareQuotes readFloat (repairInvalidJsonEscapes p) ≠ repairInvalidJsonEscapes p →
      Json.loads readFloat (repairBareQuotes readFloat (repairInvalidJsonEscapes p)) =
        some (.obj fields) →
      Reading d p fields

variable {last : DecodeError}

theorem attempt_eq_ok {made : Bool}
    (h : attempt readFloat py made text last = .ok v) :
    made = true ∧ Json.loads readFloat text = some v := by
  unfold attempt at h
  split at h
  · next hmade =>
    split at h
    · next hloads =>
      obtain rfl := Except.ok.inj h
      exact ⟨hmade, hloads⟩
    · exact absurd h (by simp)
  · exact absurd h (by simp)

theorem attempt_eq_error {made : Bool} {e : DecodeError}
    (h : attempt readFloat py made text last = .error e) (hmade : made = true) :
    Json.loads readFloat text = none := by
  unfold attempt at h
  rw [if_pos hmade] at h
  split at h
  · exact absurd h (by simp)
  · assumption

theorem truncation_obj {t : Json} {d : List (String × Json)}
    (h : Json.Truncation readFloat t (.obj d)) : ∃ fields, t = .obj fields := by
  cases h with
  | same => exact ⟨_, rfl⟩
  | fields => exact ⟨_, rfl⟩
  | field => exact ⟨_, rfl⟩

variable {d : List (String × Json)} {p : List Char}

theorem decodeText_cut (hd : Json.WellFormed readFloat (.obj d)) (hnil : p ≠ [])
    (hp : p <+: Json.Layout.ascii.write (.obj d)) (hwhole : p ≠ Json.Layout.ascii.write (.obj d)) :
    (∃ detail, decodeText readFloat py p = .error (errorPayload py (.str (.ofList p)) detail)) ∨
      ∃ fields, decodeText readFloat py p = .ok (.obj fields) ∧ Reading readFloat py d p fields := by
  have hesc : Json.CutSafe Json.Layout.ascii.esc := .ascii
  have hclosed := Json.closed_of_loads (Json.loads_write Json.Layout.ascii hd)
  obtain ⟨c, q, rfl⟩ := List.exists_cons_of_ne_nil hnil
  have hwrite : Json.Layout.ascii.write (.obj d) =
      '{' :: (Json.Layout.ascii.writeFields d ++ ['}']) := by
    rw [Json.Layout.write]
  have hbrace : c = '{' := by
    rw [hwrite] at hp
    exact (List.cons_prefix_cons.mp hp).1
  subst hbrace
  -- what the escape repair leaves was cut as well
  have hrepaired := repair_isPrefix hclosed hp
  have hshort : repairInvalidJsonEscapes ('{' :: q) ≠ Json.Layout.ascii.write (.obj d) := by
    intro heq
    exact hwhole (hp.eq_of_length_le (heq ▸ hrepaired.length_le))
  have hnone := Json.loads_cut_eq_none hesc hd hp hwhole
  have hnone' := Json.loads_cut_eq_none hesc hd (hrepaired.trans hp) hshort
  unfold decodeText
  rw [hnone]
  simp only
  have hraw : ∃ e, rawDecode readFloat py ('{' :: q) (py.decodeError ('{' :: q)) = .error e := by
    unfold rawDecode
    split
    · rw [Json.readValue_cut_eq_none hesc hd hp hwhole]
      exact ⟨_, rfl⟩
    · exact ⟨_, rfl⟩
  obtain ⟨e, he⟩ := hraw
  rw [he]
  simp only
  cases hpatched : attempt readFloat py _ (autocloseTruncatedJson ('{' :: q)) e with
  | ok v =>
    obtain ⟨-, hloads⟩ := attempt_eq_ok py hpatched
    obtain ⟨x, hx, hauto⟩ := autoclose_eq ('{' :: q)
    rw [hauto] at hloads
    have htrunc := Json.loads_cut_dict hesc hx hd hp hwhole hloads
    obtain ⟨fields, rfl⟩ := truncation_obj htrunc
    exact .inr ⟨fields, rfl, .truncation htrunc⟩
  | error e' =>
    simp only
    have hunclosed : looksTruncated ('{' :: q) (py.decodeError ('{' :: q)) = true →
        Json.loads readFloat (autocloseTruncatedJson ('{' :: q)) = none := by
      intro hlooks
      by_cases heq : autocloseTruncatedJson ('{' :: q) = '{' :: q
      · rw [heq]
        exact hnone
      · exact attempt_eq_error py hpatched (by simp [hlooks, heq])
    cases hescapes : attempt readFloat py _ (repairInvalidJsonEscapes ('{' :: q)) e' with
    | ok v =>
      obtain ⟨-, hloads⟩ := attempt_eq_ok py hescapes
      exact absurd (hnone'.symm.trans hloads) (by simp)
    | error e'' =>
      simp only
      cases hquotes : attempt readFloat py _
          (repairBareQuotes readFloat (repairInvalidJsonEscapes ('{' :: q))) e'' with
      | ok v =>
        obtain ⟨hmade, hloads⟩ := attempt_eq_ok py hquotes
        have hhead : (repairInvalidJsonEscapes ('{' :: q)).head? = some '{' := by
          rw [repairInvalidJsonEscapes_eq, repairChars_outside (by decide)]
          rfl
        have hquoted := @repairBareQuotes_head readFloat _ _ (by decide) hhead
        obtain ⟨tail, htail⟩ := List.head?_eq_some_iff.mp hquoted
        obtain ⟨fields, rfl⟩ := loads_brace (htail ▸ hloads)
        exact .inr ⟨fields, rfl, .requoted hunclosed (by simpa using hmade) hloads⟩
      | error last => exact .inl ⟨_, rfl⟩

theorem parse_cut (hd : Json.WellFormed readFloat (.obj d))
    (hp : Cut (jsonDumps (.obj d)).toList p) :
    Reading readFloat py d p (parseToolArguments readFloat py (.str (.ofList p))) := by
  have hwrite : (jsonDumps (.obj d)).toList = Json.Layout.ascii.write (.obj d) := by
    rw [jsonDumps, String.toList_ofList]
  have hpre := hp.isPrefix
  have hproper := hp.proper
  rw [hwrite] at hpre hproper
  by_cases hnil : p = []
  · subst hnil
    exact .truncation (.fields [] d)
  · have hne : String.ofList p ≠ "" := by
      intro heq
      apply hnil
      have hlist := congrArg String.toList heq
      rwa [String.toList_ofList] at hlist
    rw [parse_str py hne, unwrap, String.toList_ofList]
    rcases decodeText_cut py hd hnil hpre hproper with ⟨detail, herror⟩ | ⟨fields, hok, hread⟩
    · rw [herror]
      exact .error detail
    · rw [hok]
      have hunwrap : (Except.ok (.obj fields) : Except (List (String × Json)) Json).bind
          (unwrap readFloat py 2) = .ok (.obj fields) := @unwrap_obj readFloat py 2 fields
      rw [hunwrap]
      exact hread

end

theorem Cut.of_notMem {text p : List Char} (hpre : p <+: text) (hproper : p ≠ text)
    (hu : 'u' ∉ text) : Cut text p := by
  refine ⟨hpre, hproper, ?_⟩
  rintro before after c hc rfl
  refine absurd ?_ hu
  have hescape : 'u' ∈ Json.escapeCharAscii c := by
    unfold Json.escapeCharAscii
    rw [if_neg (by omega), if_neg (by omega)]
    simp [Json.unicodeEscape]
  exact List.mem_append_right _ (List.mem_append_left _ hescape)

/-- The only field of a dict, where it is a string. -/
def onlyString? : List (String × Json) → Option (String × String)
  | [(k, .str s)] => some (k, s)
  | _ => none

theorem eq_of_onlyString? {fields : List (String × Json)} {k s : String}
    (h : onlyString? fields = some (k, s)) : fields = [(k, .str s)] := by
  unfold onlyString? at h
  split at h
  · obtain ⟨rfl, rfl⟩ := Prod.mk.inj (Option.some.inj h)
    rfl
  · exact absurd h (by simp)

def cutInKey : Python where
  decodeError text :=
    if text = "\x7b\"a\": \"x\", \"\x7d".toList then
      ⟨"Unterminated string starting at: line 1 column 12 (char 11)", 11⟩
    else ⟨"Expecting ':' delimiter: line 1 column 15 (char 14)", 14⟩
  repr _ := ""

theorem write_two : Json.Layout.ascii.write (.obj [("a", .str "x"), ("\x7d", .int 1)]) =
    "\x7b\"a\": \"x\", \"\x7d\": 1\x7d".toList := by
  decide +kernel

end PawFlow.ToolJson
