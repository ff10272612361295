import PawFlow.Lib.Json
import PawFlow.Lib.PyString

/-!
# Rows of a segmented log

One row of `core/segmented_jsonl.py` is a JSON object, stored as one line of text. The log
reads three of its fields (`msg_id`, `trace_id`, `role`), strips runtime secrets from it
(`core/secret_sanitization.py`), and searches its text for message ids. Logs here have no
row codec: a row is stored as it is.
-/

namespace PawFlow.Segments

open PawFlow.Lib

abbrev Row := PyDict String Json

/-! ## Secrets -/

def secretRuntimeKeys : List String := ["_secret_env"]

mutual

def stripSecretRuntimeValues : Json → Json
  | .arr items => .arr (stripItems items)
  | .obj items => .obj (stripFields items)
  | v => v

def stripItems : List Json → List Json
  | [] => []
  | v :: rest => stripSecretRuntimeValues v :: stripItems rest

def stripFields : List (String × Json) → List (String × Json)
  | [] => []
  | (k, v) :: rest =>
    if k ∈ secretRuntimeKeys then stripFields rest
    else (k, stripSecretRuntimeValues v) :: stripFields rest

end

mutual

theorem stripSecretRuntimeValues_idem (v : Json) :
    stripSecretRuntimeValues (stripSecretRuntimeValues v) = stripSecretRuntimeValues v := by
  cases v with
  | arr items => simp only [stripSecretRuntimeValues, stripItems_idem items]
  | obj items => simp only [stripSecretRuntimeValues, stripFields_idem items]
  | _ => simp only [stripSecretRuntimeValues]

theorem stripItems_idem (items : List Json) : stripItems (stripItems items) = stripItems items := by
  cases items with
  | nil => simp only [stripItems]
  | cons v rest =>
    simp only [stripItems, stripSecretRuntimeValues_idem v, stripItems_idem rest]

theorem stripFields_idem (items : List (String × Json)) :
    stripFields (stripFields items) = stripFields items := by
  match items with
  | [] => simp only [stripFields]
  | (k, v) :: rest =>
    by_cases hk : k ∈ secretRuntimeKeys
    · simp only [stripFields, hk, if_true, stripFields_idem rest]
    · simp only [stripFields, hk, if_false, stripSecretRuntimeValues_idem v,
        stripFields_idem rest]

end

namespace Row

/-- `strip_secret_runtime_values(row)`. -/
def strip (row : Row) : Row := stripFields row

@[simp] theorem strip_strip (row : Row) : row.strip.strip = row.strip := stripFields_idem row

/-! ## Fields -/

/-- `row.get("msg_id") == msg_id`. -/
def hasMsgId (msgId : String) (row : Row) : Bool := (row.get? "msg_id").any (Json.isStr msgId)

/-- `bool(row.get("role"))`. -/
def hasRole (row : Row) : Bool := (row.get? "role").any Json.truthy

/-- `row.get(key) in targets`; `none` when the value has no hash (`TypeError`). -/
def fieldIn (targets : List String) (key : String) (row : Row) : Option Bool :=
  match row.get? key with
  | none => some false
  | some v => if v.hashable then some (targets.any fun t => v.isStr t) else none

/-- Whether `delete_by_msg_ids` drops the row; the trace id is looked at only when the
message id does not match. -/
def matchesIds (targets : List String) (row : Row) : Option Bool :=
  match row.fieldIn targets "msg_id" with
  | some false => row.fieldIn targets "trace_id"
  | r => r

/-- `updated == decoded` for `updated = {**decoded, **fields}`: each field is there with an
equal value. -/
def holds (row fields : Row) : Bool :=
  fields.all fun i => match row.get? i.1 with
    | some v => v.pyEq i.2
    | none => false

/-- `row == row'` between two dicts. -/
def pyEq (row row' : Row) : Bool := Json.pyEq (.obj row) (.obj row')

/-! ## Text -/

/-- `json.dumps(row, ensure_ascii=False) + "\n"`. -/
def line (row : Row) : List Char := Json.dumpChars (.obj row) ++ ['\n']

/-- `len(line.encode("utf-8"))`. -/
def lineSize (row : Row) : Nat := (row.line.map Char.utf8Size).sum

theorem lineSize_pos (row : Row) : 0 < row.lineSize := by
  simp [lineSize, line, Char.utf8Size_pos]

end Row

/-- The text of a segment holding `rows`. -/
def text (rows : List Row) : List Char := rows.flatMap Row.line

/-- Its size in bytes. -/
def textSize (rows : List Row) : Nat := (rows.map Row.lineSize).sum

/-- Its number of display rows. -/
def roleCount (rows : List Row) : Nat := rows.countP Row.hasRole

@[simp] theorem textSize_append (rows rows' : List Row) :
    textSize (rows ++ rows') = textSize rows + textSize rows' := by
  simp [textSize]

@[simp] theorem roleCount_append (rows rows' : List Row) :
    roleCount (rows ++ rows') = roleCount rows + roleCount rows' := by
  simp [roleCount]

variable {row : Row}

variable {rows : List Row}

theorem line_infix_text (h : row ∈ rows) : row.line <:+: text rows := by
  obtain ⟨before, after, rfl⟩ := List.append_of_mem h
  exact ⟨text before, text after, by simp [text]⟩

/-! ## Searching the text -/

/-- `_msg_id_needles`: the id as it may appear in a JSON line, however it was dumped. -/
def msgIdNeedles (msgId : String) : List (List Char) :=
  [msgId.toList, Json.escapeAscii msgId, Json.escape msgId]

/-- `any(needle in data for needle in needles)`. -/
def mentions (needles : List (List Char)) (data : List Char) : Bool :=
  needles.any fun needle => occursIn needle data

def secretRuntimeKeyNeedles : List (List Char) := secretRuntimeKeys.map Json.quote

theorem mentions_mono {needles : List (List Char)} {data data' : List Char}
    (hsub : data <:+: data') (h : mentions needles data) : mentions needles data' := by
  obtain ⟨needle, hmem, hocc⟩ := List.any_eq_true.mp h
  exact List.any_eq_true.mpr ⟨needle, hmem, occursIn_iff.mpr ((occursIn_iff.mp hocc).trans hsub)⟩

theorem mentions_line {msgId : String} (h : row.hasMsgId msgId) :
    mentions (msgIdNeedles msgId) row.line := by
  obtain ⟨v, hget, hv⟩ := (Option.any_eq_true _ _).mp h
  obtain ⟨s, rfl⟩ : ∃ s, v = .str s := by cases v <;> simp_all [Json.isStr]
  obtain rfl : s = msgId := by simpa [Json.isStr] using hv
  have hfield := Json.dumpChars_field_infix_obj (PyDict.mem_of_get? hget)
  have hline : Json.escape s <:+: row.line :=
    ((Json.escape_infix_quote s).trans hfield).trans (List.prefix_append _ _).isInfix
  exact List.any_eq_true.mpr ⟨Json.escape s, by simp [msgIdNeedles], occursIn_iff.mpr hline⟩

mutual

theorem stripSecretRuntimeValues_eq_self (v : Json)
    (h : ∀ k ∈ secretRuntimeKeys, ¬ Json.quote k <:+: Json.dumpChars v) :
    stripSecretRuntimeValues v = v := by
  cases v with
  | arr items =>
    rw [stripSecretRuntimeValues, stripItems_eq_self items]
    intro w hw k hk hsub
    exact h k hk ((hsub.trans (Json.dumpChars_infix_dumpItems hw)).trans
      (Json.dumpItems_infix_arr items))
  | obj items =>
    rw [stripSecretRuntimeValues, stripFields_eq_self items]
    intro k w hw
    refine ⟨fun hk => h k hk (Json.quote_key_infix_obj hw), fun k' hk' hsub => ?_⟩
    exact h k' hk' (hsub.trans (Json.dumpChars_field_infix_obj hw))
  | _ => rw [stripSecretRuntimeValues] <;> simp

theorem stripItems_eq_self (items : List Json)
    (h : ∀ v ∈ items, ∀ k ∈ secretRuntimeKeys, ¬ Json.quote k <:+: Json.dumpChars v) :
    stripItems items = items := by
  match items with
  | [] => rw [stripItems]
  | v :: rest =>
    rw [stripItems, stripSecretRuntimeValues_eq_self v (h v (by simp)),
      stripItems_eq_self rest fun w hw => h w (by simp [hw])]

theorem stripFields_eq_self (items : List (String × Json))
    (h : ∀ k v, (k, v) ∈ items → k ∉ secretRuntimeKeys ∧
      ∀ k' ∈ secretRuntimeKeys, ¬ Json.quote k' <:+: Json.dumpChars v) :
    stripFields items = items := by
  match items with
  | [] => rw [stripFields]
  | (k, v) :: rest =>
    obtain ⟨hk, hv⟩ := h k v (by simp)
    rw [stripFields, if_neg hk, stripSecretRuntimeValues_eq_self v hv,
      stripFields_eq_self rest fun k' v' hmem => h k' v' (by simp [hmem])]

end

theorem strip_eq_self_of_not_mentions (hmem : row ∈ rows)
    (h : mentions secretRuntimeKeyNeedles (text rows) = false) : row.strip = row := by
  have hobj := stripSecretRuntimeValues_eq_self (.obj row) ?_
  · simpa [stripSecretRuntimeValues, Row.strip] using hobj
  intro k hk hsub
  have hline : Json.quote k <:+: text rows :=
    (hsub.trans (List.prefix_append _ _).isInfix).trans (line_infix_text hmem)
  have hmention : mentions secretRuntimeKeyNeedles (text rows) :=
    List.any_eq_true.mpr ⟨_, List.mem_map_of_mem hk, occursIn_iff.mpr hline⟩
  simp [h] at hmention

/-! ## Counting display rows -/

def roleStringPrefix : List Char := '{' :: '"' :: "role\": \"".toList

def roleKeyBytes : List Char := "\"role\":".toList

/-- What `_count_rows` adds for one line: the canonical prefix decides without a decode,
another mention of the key does not. -/
def countRow (row : Row) : Bool :=
  if roleStringPrefix.isPrefixOf row.line && roleStringPrefix.length < row.line.length &&
      (row.line.drop roleStringPrefix.length).head? != some '"' then true
  else occursIn roleKeyBytes row.line && row.hasRole

def countRows (rows : List Row) : Nat × Nat := (rows.length, rows.countP countRow)

theorem hasRole_of_isPrefix (h : roleStringPrefix <+: row.line)
    (hnext : (row.line.drop roleStringPrefix.length).head? ≠ some '"') : row.hasRole := by
  obtain ⟨rest, hrest⟩ := h
  cases row with
  | nil => simp [Row.line, Json.dumpChars, Json.dumpFields, roleStringPrefix] at hrest
  | cons i others =>
    obtain ⟨k, v⟩ := i
    -- the text after the first value does not start with a quote
    obtain ⟨after, hafter, hdump⟩ : ∃ after : List Char, after.head? ≠ some '"' ∧
        Row.line ((k, v) :: others) =
          '{' :: '"' :: (Json.escape k ++ '"' :: (": ".toList ++ (Json.dumpChars v ++ after))) := by
      cases others with
      | nil => exact ⟨['}', '\n'], by decide, by
          simp [Row.line, Json.dumpChars, Json.dumpFields, Json.quote]⟩
      | cons j others => exact ⟨", ".toList ++ (Json.dumpFields (j :: others) ++ ['}', '\n']),
          by simp, by simp [Row.line, Json.dumpChars, Json.dumpFields, Json.quote]⟩
    rw [← hrest, List.drop_left] at hnext
    rw [hdump] at hrest
    have hkey : "role".toList ++ '"' :: (": \"".toList ++ rest) =
        k.toList.flatMap Json.escapeChar ++
          '"' :: (": ".toList ++ (Json.dumpChars v ++ after)) := by
      simpa [roleStringPrefix, Json.escape] using hrest
    have hplain : ∀ c ∈ "role".toList, c ≠ '"' ∧ c ≠ '\\' := by simp
    obtain ⟨hk, hvalue⟩ := Json.eq_of_escape_append hplain hkey
    obtain rfl : k = "role" := String.toList_inj.mp hk
    have hquote : Json.dumpChars v ++ after = '"' :: rest := by simpa using hvalue.symm
    obtain ⟨s, rfl⟩ := Json.eq_str_of_dumpChars hquote hafter
    have hs : s ≠ "" := by
      rintro rfl
      have hrest' : '"' :: after = rest := by
        simpa [Json.dumpChars, Json.quote, Json.escape] using hquote
      simp [← hrest'] at hnext
    simp [Row.hasRole, PyDict.get?, Json.truthy, hs]

theorem roleKey_of_hasRole (h : row.hasRole) : roleKeyBytes <:+: row.line := by
  obtain ⟨v, hget, -⟩ := (Option.any_eq_true _ _).mp h
  have hfield := Json.field_infix_dumpFields (PyDict.mem_of_get? hget)
  have hpre : roleKeyBytes <+: Json.quote "role" ++ (": ".toList ++ Json.dumpChars v) :=
    ⟨' ' :: Json.dumpChars v, by simp [roleKeyBytes, Json.quote, Json.escape, Json.escapeChar]⟩
  exact ((hpre.isInfix.trans hfield).trans (Json.dumpFields_infix_obj row)).trans
    (List.prefix_append _ _).isInfix

/-- **`_count_rows` is exact**: the prefix test and the decoded test together count the
rows whose role is truthy. -/
theorem countRow_eq_hasRole (row : Row) : countRow row = row.hasRole := by
  unfold countRow
  split
  · next h =>
    simp only [Bool.and_eq_true, bne_iff_ne, ne_eq, List.isPrefixOf_iff_prefix] at h
    exact (hasRole_of_isPrefix h.1.1 h.2).symm
  · cases hrole : row.hasRole with
    | false => simp
    | true => simp [occursIn_iff.mpr (roleKey_of_hasRole hrole)]

theorem countRows_eq (rows : List Row) : countRows rows = (rows.length, roleCount rows) := by
  have hfun : countRow = Row.hasRole := funext countRow_eq_hasRole
  simp [countRows, roleCount, hfun]

end PawFlow.Segments
