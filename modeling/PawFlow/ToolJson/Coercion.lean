import PawFlow.Lib.JsonText
import PawFlow.Lib.PyString

/-!
# Coercion of tool arguments to their schema

`coerce_to_schema` of `core/tool_json.py`. Dicts are objects in memory, so that returning the
arguments themselves differs from returning a copy, and a write says which of the two it changes.
-/

namespace PawFlow.ToolJson

open PawFlow.Lib

/-- `float(text)`. -/
inductive FloatRead
  | invalid
  | notFinite
  | finite (repr : FloatText) (num : Int) (exp : Nat)

/-- The number formats and the texts of values and of exceptions. -/
structure Decoders where
  /-- The exact value of a numeral with a fraction or an exponent. -/
  readFloat : List Char → Option (FloatText × Int × Nat)
  float : String → FloatRead
  /-- `str(exc)` of a failed `json.loads`. -/
  decodeError : String → String
  /-- `repr(value)`, `none` where an integer in it is too long to print. -/
  repr : Json → Option String

/-- An exception that the caller sees. -/
inductive Raised
  | typeError
  | valueError
deriving DecidableEq

def jsonType : Json → String
  | .null => "null"
  | .bool _ => "boolean"
  | .int _ => "integer"
  | .float _ _ _ => "number"
  | .str _ => "string"
  | .arr _ => "array"
  | .obj _ => "object"

/-- `_matches`: `True` is no integer and no number. -/
def hasType (value : Json) (expected : String) : Bool :=
  if expected = "number" then
    match value with
    | .int _ | .float _ _ _ => true
    | _ => false
  else if expected = "integer" then
    match value with
    | .int _ => true
    | _ => false
  else jsonType value = expected

def maxCoerceDepth : Nat := 32

def maxCoerceNodes : Nat := 10000

mutual

/-- `walk`: the number of nodes seen so far, `none` once a limit is passed. -/
def walk (level nodes : Nat) : Json → Option Nat
  | .obj items =>
    if maxCoerceDepth < level ∨ maxCoerceNodes < nodes + 1 then none
    else walkFields (level + 1) (nodes + 1) items
  | .arr items =>
    if maxCoerceDepth < level ∨ maxCoerceNodes < nodes + 1 then none
    else walkItems (level + 1) (nodes + 1) items
  | _ => if maxCoerceDepth < level ∨ maxCoerceNodes < nodes + 1 then none else some (nodes + 1)

def walkItems (level nodes : Nat) : List Json → Option Nat
  | [] => some nodes
  | v :: rest =>
    match walk level nodes v with
    | some nodes => walkItems level nodes rest
    | none => none

def walkFields (level nodes : Nat) : List (String × Json) → Option Nat
  | [] => some nodes
  | (_, v) :: rest =>
    match walk level nodes v with
    | some nodes => walkFields level nodes rest
    | none => none

end

def withinBounds (value : Json) : Bool := (walk 0 0 value).isSome

/-- `_INT_RE`. -/
def isIntText (text : String) : Bool :=
  let digits := match text.toList with
    | '+' :: cs => cs
    | '-' :: cs => cs
    | cs => cs
  !digits.isEmpty && digits.all Char.isDigit

/-- What `_coerce_value` returns. -/
inductive Coerced
  | repaired (value : Json) (note : String)
  | refused (error : String)

section

variable (d : Decoders)

/-- `f"{value!r}"`. -/
def reprText (value : Json) : Except Raised String :=
  match d.repr value with
  | some text => .ok text
  | none => .error .valueError

def coerceValue (key : String) (value : Json) (expected : String) : Except Raised Coerced :=
  match expected, value with
  | "object", .str s => .ok (structure? key s "object" "an")
  | "array", .str s => .ok (structure? key s "array" "a")
  | "boolean", .str s =>
    let text := (strip s).toLower
    if text = "true" ∨ text = "1" then
      .ok (.repaired (.bool true) (key ++ ": string to boolean true"))
    else if text = "false" ∨ text = "0" then
      .ok (.repaired (.bool false) (key ++ ": string to boolean false"))
    else (reprText d value).map fun shown =>
      .refused ("'" ++ key ++ "' must be a boolean (true or false), got " ++ shown ++ ".")
  | "integer", .str s =>
    if isIntText (strip s) then
      match int? (strip s) with
      | some n => .ok (.repaired (.int n) (key ++ ": string to integer"))
      | none => .error .valueError
    else notInteger
  | "integer", .float _ num exp =>
    if (2 ^ exp : Int) ∣ num then
      .ok (.repaired (.int (num / 2 ^ exp)) (key ++ ": whole number to integer"))
    else notInteger
  | "integer", _ => notInteger
  | "number", .str s =>
    match d.float (strip s) with
    | .invalid => (reprText d value).map fun shown =>
      .refused ("'" ++ key ++ "' must be a number, got " ++ shown ++ ".")
    | .notFinite => (reprText d value).map fun shown =>
      .refused ("'" ++ key ++ "' must be a finite number, got " ++ shown ++ ".")
    | .finite text num exp =>
      .ok (.repaired (.float text num exp) (key ++ ": string to number"))
  | _, _ => .ok (.refused
      ("'" ++ key ++ "' must be " ++ expected ++ ", got " ++ jsonType value ++ "."))
where
  notInteger : Except Raised Coerced :=
    (reprText d value).map fun shown => .refused ("'" ++ key ++ "' must be an integer, got " ++
      jsonType value ++ " (" ++ shown ++ ").")
  /-- A JSON-encoded structure sent as text. -/
  structure? (key s expected article : String) : Coerced :=
    let text := strip s
    if text.toList.head? = some '\x7b' ∨ text.toList.head? = some '[' then
      match Json.loads d.readFloat text.toList with
      | none => .refused ("'" ++ key ++ "' looks like JSON text but does not parse (" ++
          d.decodeError text ++ "). Send the " ++ expected ++
          " itself, not a string containing it.")
      | some parsed =>
        if ¬ hasType parsed expected then
          .refused ("'" ++ key ++ "' decoded to " ++ jsonType parsed ++
            " but the schema expects " ++ expected ++ ".")
        else if ¬ withinBounds parsed then
          .refused ("'" ++ key ++ "' decoded to a structure too deep or too large " ++
            "to be intentional.")
        else .repaired parsed (key ++ ": decoded JSON string to " ++ expected)
    else .refused ("'" ++ key ++ "' must be " ++ article ++ " " ++ expected ++
      ", got a string. Send the " ++ expected ++ " itself, not a string containing it.")

/-! ## The schema -/

def declaredType (schema : Json) (key : String) : Option String :=
  match schema.get? "properties" with
  | some (.obj props) =>
    match PyDict.get? props key with
    | some (.obj spec) =>
      match PyDict.get? spec "type" with
      | some (.str expected) => if expected = "" then none else some expected
      | _ => none
    | _ => none
  | _ => none

/-- `set(required)`, which raises on a list or a dict. -/
def requiredNames (schema : Json) : Except Raised (List Json) :=
  match schema.get? "required" with
  | some (.arr names) => if names.all Json.hashable then .ok names else .error .typeError
  | _ => .ok []

/-- What becomes of one argument. -/
inductive Verdict
  | keep
  | drop
  | replace (value : Json) (note : String)
  | refuse (error : String)

variable (schema : Json) (toolName : String) (required : List Json)

/-- The body of the loop, up to the writes. -/
def verdict (key : String) (value : Json) : Except Raised Verdict :=
  let place := if toolName = "" then "" else " for tool '" ++ toolName ++ "'"
  match declaredType schema key with
  | none => .ok .keep
  | some expected =>
    if value.isNull then
      if required.any (Json.isStr key) then
        .ok (.refuse ("Error: '" ++ key ++ "' is required" ++ place ++ " and cannot be null."))
      else .ok .drop
    else if hasType value expected then .ok .keep
    else (coerceValue d key value expected).map fun
      | .refused error => .refuse ("Error" ++ place ++ ": " ++ error)
      | .repaired value note => .replace value note

/-! ## The loop -/

abbrev Memory := List (PyDict String Json)

def Memory.dict (m : Memory) (address : Nat) : PyDict String Json := m.getD address []

/-- The local variables of the loop: `out` is the arguments or their copy. -/
structure Loop where
  dicts : Memory
  out : Nat
  repairs : List String

/-- `if out is arguments: out = dict(arguments)`. -/
def Loop.copyOnce (s : Loop) (arguments : Nat) : Loop :=
  if s.out = arguments then
    { s with dicts := s.dicts ++ [s.dicts.dict arguments], out := s.dicts.length }
  else s

/-- A write to the dict `out`. -/
def Loop.write (s : Loop) (f : PyDict String Json → PyDict String Json) : Loop :=
  { s with dicts := s.dicts.modify s.out f }

def Loop.act (s : Loop) (arguments : Nat) (key : String) : Verdict → Loop
  | .drop => { (s.copyOnce arguments).write (·.erase key) with
      repairs := s.repairs ++ [key ++ ": dropped null optional"] }
  | .replace value note => { (s.copyOnce arguments).write (·.set key value) with
      repairs := s.repairs ++ [note] }
  | _ => s

/-- What is returned, and the memory then. -/
structure Result where
  dicts : Memory
  arguments : Nat
  repairs : List String
  error : String

def coerceKeys (arguments : Nat) : List String → Loop → Except Raised Result
  | [], s => .ok ⟨s.dicts, s.out, s.repairs, ""⟩
  | key :: rest, s =>
    match PyDict.get? (s.dicts.dict arguments) key with
    | none => coerceKeys arguments rest s
    | some value =>
      (verdict d schema toolName required key value).bind fun
      | .refuse error => .ok ⟨s.dicts, arguments, s.repairs, error⟩
      | v => coerceKeys arguments rest (s.act arguments key v)

end

/-- `coerce_to_schema`, for the arguments at an address. -/
def coerceToSchema (d : Decoders) (dicts : Memory) (arguments : Nat) (schema : Json)
    (toolName : String) : Except Raised Result :=
  match schema.get? "properties" with
  | some (.obj (_ :: _)) =>
    (requiredNames schema).bind fun required =>
      coerceKeys d schema toolName required arguments ((dicts.dict arguments).map Prod.fst)
        ⟨dicts, arguments, []⟩
  | _ => .ok ⟨dicts, arguments, [], ""⟩

/-! ## One argument -/

section

variable {d : Decoders} {schema : Json} {toolName : String} {required : List Json}

variable {value : Json} {key : String} {arguments : Nat} {input : PyDict String Json}

variable {repaired : Json} {expected : String} {address : Nat} {keys : List String}

variable {note : String} {m : Memory}

theorem map_reprText_ne_repaired {error : String → String} :
    (reprText d value).map (fun shown => Coerced.refused (error shown)) ≠
      .ok (.repaired repaired note) := by
  cases hshown : reprText d value with
  | error e => simp [Except.map]
  | ok shown => simp [Except.map]

theorem hasType_of_structure? {s article : String}
    (h : coerceValue.structure? d key s expected article = .repaired repaired note) :
    hasType repaired expected = true := by
  unfold coerceValue.structure? at h
  simp only at h
  split at h
  · split at h
    · exact absurd h (by simp)
    · split at h
      · exact absurd h (by simp)
      · next htype =>
        split at h
        · exact absurd h (by simp)
        · rw [← (Coerced.repaired.inj h).1]
          simpa using htype
  · exact absurd h (by simp)

/-- A repaired value has its declared type, which is never `null`. -/
theorem hasType_of_repaired (h : coerceValue d key value expected = .ok (.repaired repaired note)) :
    hasType repaired expected = true ∧ repaired.isNull = false := by
  unfold coerceValue at h
  split at h
  · have htype := hasType_of_structure? (Except.ok.inj h)
    cases repaired <;> simp_all [hasType, jsonType, Json.isNull]
  · have htype := hasType_of_structure? (Except.ok.inj h)
    cases repaired <;> simp_all [hasType, jsonType, Json.isNull]
  · simp only at h
    split at h
    · rw [← (Coerced.repaired.inj (Except.ok.inj h)).1]
      exact ⟨rfl, rfl⟩
    · split at h
      · rw [← (Coerced.repaired.inj (Except.ok.inj h)).1]
        exact ⟨rfl, rfl⟩
      · exact absurd h map_reprText_ne_repaired
  · split at h
    · split at h
      · rw [← (Coerced.repaired.inj (Except.ok.inj h)).1]
        exact ⟨rfl, rfl⟩
      · exact absurd h (by simp)
    · exact absurd h map_reprText_ne_repaired
  · split at h
    · rw [← (Coerced.repaired.inj (Except.ok.inj h)).1]
      exact ⟨rfl, rfl⟩
    · exact absurd h map_reprText_ne_repaired
  · exact absurd h map_reprText_ne_repaired
  · split at h
    · exact absurd h map_reprText_ne_repaired
    · exact absurd h map_reprText_ne_repaired
    · rw [← (Coerced.repaired.inj (Except.ok.inj h)).1]
      exact ⟨rfl, rfl⟩
  · exact absurd h (by simp)

/-- An argument is refused: a required one that is `null`, or one that neither has its declared
type nor can be repaired. -/
def Refuses (d : Decoders) (schema : Json) (required : List Json) (key : String) (value : Json) :
    Prop :=
  ∃ expected, declaredType schema key = some expected ∧
    (value.isNull = true ∧ required.any (Json.isStr key) = true ∨
     value.isNull = false ∧ hasType value expected = false ∧
      ∀ repaired note, coerceValue d key value expected ≠ .ok (.repaired repaired note))

/-- What becomes of an argument that is not refused. -/
inductive Accepted (d : Decoders) (schema : Json) (required : List Json) (key : String)
    (value : Json) : Verdict → Prop
  | undeclared : declaredType schema key = none → Accepted d schema required key value .keep
  | matching {expected : String} : declaredType schema key = some expected →
      value.isNull = false → hasType value expected = true →
      Accepted d schema required key value .keep
  | dropped {expected : String} : declaredType schema key = some expected →
      value.isNull = true → required.any (Json.isStr key) = false →
      Accepted d schema required key value .drop
  | repaired {expected note : String} {repaired : Json} :
      declaredType schema key = some expected → value.isNull = false →
      hasType value expected = false →
      coerceValue d key value expected = .ok (.repaired repaired note) →
      Accepted d schema required key value (.replace repaired note)

variable (d schema toolName required) in
/-- The three ways of one argument. -/
theorem verdict_cases (key : String) (value : Json) :
    (∃ v, verdict d schema toolName required key value = .ok v ∧
      Accepted d schema required key value v) ∨
    Refuses d schema required key value ∧
      ((∃ e, verdict d schema toolName required key value = .error e) ∨
       ∃ error, error ≠ "" ∧
        verdict d schema toolName required key value = .ok (.refuse error)) := by
  unfold verdict
  simp only
  cases hdeclared : declaredType schema key with
  | none => exact Or.inl ⟨_, rfl, .undeclared hdeclared⟩
  | some expected =>
    simp only
    split
    · next hnull =>
      split
      · next hrequired =>
        refine Or.inr ⟨⟨expected, hdeclared, Or.inl ⟨hnull, hrequired⟩⟩, Or.inr ⟨_, ?_, rfl⟩⟩
        intro h
        have := congrArg String.toList h
        simp at this
      · next hrequired =>
        exact Or.inl ⟨_, rfl, .dropped hdeclared hnull (by simpa using hrequired)⟩
    · next hnull =>
      have hnull : value.isNull = false := by simpa using hnull
      split
      · next htype => exact Or.inl ⟨_, rfl, .matching hdeclared hnull htype⟩
      · next htype =>
        have htype : hasType value expected = false := by simpa using htype
        cases hcoerced : coerceValue d key value expected with
        | error e =>
          refine Or.inr ⟨⟨expected, hdeclared, Or.inr ⟨hnull, htype, ?_⟩⟩, Or.inl ⟨e, rfl⟩⟩
          intro repaired note h
          exact absurd (hcoerced.symm.trans h) (by simp)
        | ok coerced =>
          cases coerced with
          | repaired repaired note =>
            exact Or.inl ⟨_, rfl, .repaired hdeclared hnull htype hcoerced⟩
          | refused error =>
            refine Or.inr
              ⟨⟨expected, hdeclared, Or.inr ⟨hnull, htype, ?_⟩⟩, Or.inr ⟨_, ?_, rfl⟩⟩
            · intro repaired note h
              exact absurd (hcoerced.symm.trans h) (by simp)
            · intro h
              have := congrArg String.toList h
              simp at this

theorem not_refuses_of_accepted {v : Verdict}
    (h : Accepted d schema required key value v) : ¬ Refuses d schema required key value := by
  rintro ⟨expected, hdeclared, hrefuses⟩
  cases h with
  | undeclared hnone => exact absurd (hnone.symm.trans hdeclared) (by simp)
  | matching hsome hnull htype =>
    obtain rfl := Option.some.inj (hsome.symm.trans hdeclared)
    rcases hrefuses with ⟨h, -⟩ | ⟨-, h, -⟩
    · exact absurd (hnull.symm.trans h) (by simp)
    · exact absurd (htype.symm.trans h) (by simp)
  | dropped hsome hnull hrequired =>
    rcases hrefuses with ⟨-, h⟩ | ⟨h, -⟩
    · exact absurd (hrequired.symm.trans h) (by simp)
    · exact absurd (hnull.symm.trans h) (by simp)
  | repaired hsome hnull htype hcoerced =>
    obtain rfl := Option.some.inj (hsome.symm.trans hdeclared)
    rcases hrefuses with ⟨h, -⟩ | ⟨-, -, h⟩
    · exact absurd (hnull.symm.trans h) (by simp)
    · exact h _ _ hcoerced

/-! ## The loop -/

/-- The value of a key once the loop is past it. -/
def outcome (d : Decoders) (schema : Json) (toolName : String) (required : List Json)
    (input : PyDict String Json) (key : String) : Option Json :=
  (PyDict.get? input key).bind fun value =>
    match verdict d schema toolName required key value with
    | .ok .drop => none
    | .ok (.replace repaired _) => some repaired
    | _ => some value

@[simp] theorem Memory.dict_append (m : Memory) (x : PyDict String Json) :
    Memory.dict (m ++ [x]) m.length = x := by
  simp [Memory.dict]

theorem Memory.dict_append_of_lt (h : address < m.length)
    (x : PyDict String Json) : Memory.dict (m ++ [x]) address = m.dict address := by
  simp [Memory.dict, List.getElem?_append_left h]

theorem Memory.dict_modify_self (h : address < m.length)
    (f : PyDict String Json → PyDict String Json) :
    Memory.dict (m.modify address f) address = f (m.dict address) := by
  simp [Memory.dict, h]

theorem Memory.dict_modify_of_ne (m : Memory) {other : Nat} (h : address ≠ other)
    (f : PyDict String Json → PyDict String Json) :
    Memory.dict (m.modify address f) other = m.dict other := by
  simp [Memory.dict, h]

theorem Memory.lt_length_of_get?
    (h : PyDict.get? (m.dict address) key = some value) : address < m.length := by
  by_contra hle
  rw [Memory.dict, List.getD_eq_getElem?_getD, List.getElem?_eq_none (not_lt.mp hle)] at h
  exact absurd h (by simp [PyDict.get?])

/-- What holds at the head of the loop: the arguments are as they came, writes go to a copy, and
each key has its old value or the one it gets. -/
structure Loop.Sound (d : Decoders) (schema : Json) (toolName : String) (required : List Json)
    (arguments : Nat) (input : PyDict String Json) (s : Loop) : Prop where
  unmodified : s.dicts.dict arguments = input
  address : s.out = arguments ∨ s.out ≠ arguments ∧ s.out < s.dicts.length
  values : ∀ key, PyDict.get? (s.dicts.dict s.out) key = PyDict.get? input key ∨
    PyDict.get? (s.dicts.dict s.out) key = outcome d schema toolName required input key

variable {s : Loop}

theorem Loop.write_copyOnce (hlt : arguments < s.dicts.length)
    (h : s.out = arguments ∨ s.out ≠ arguments ∧ s.out < s.dicts.length)
    (f : PyDict String Json → PyDict String Json) :
    let s' := (s.copyOnce arguments).write f
    s'.dicts.dict arguments = s.dicts.dict arguments ∧
      (s'.out ≠ arguments ∧ s'.out < s'.dicts.length) ∧
      s'.dicts.dict s'.out = f (s.dicts.dict s.out) := by
  rcases h with hsame | ⟨hcopied, hbound⟩
  · have hne : s.dicts.length ≠ arguments := Nat.ne_of_gt hlt
    have hcopy : s.copyOnce arguments =
        { s with dicts := s.dicts ++ [s.dicts.dict arguments], out := s.dicts.length } :=
      if_pos hsame
    simp only [hcopy, Loop.write]
    refine ⟨?_, ⟨hne, by simp⟩, ?_⟩
    · rw [Memory.dict_modify_of_ne _ hne, Memory.dict_append_of_lt hlt]
    · rw [Memory.dict_modify_self (by simp), Memory.dict_append, hsame]
  · have hcopy : s.copyOnce arguments = s := if_neg hcopied
    simp only [hcopy, Loop.write]
    refine ⟨Memory.dict_modify_of_ne _ hcopied _, ⟨hcopied, by simpa using hbound⟩, ?_⟩
    exact Memory.dict_modify_self hbound _

theorem Loop.Sound.write (h : s.Sound d schema toolName required arguments input)
    (hvalue : PyDict.get? input key = some value) {f : PyDict String Json → PyDict String Json}
    (hself : ∀ dict, PyDict.get? (f dict) key = outcome d schema toolName required input key)
    (hother : ∀ dict other, other ≠ key → PyDict.get? (f dict) other = PyDict.get? dict other)
    (repairs : List String) :
    let s' : Loop := { (s.copyOnce arguments).write f with repairs }
    s'.Sound d schema toolName required arguments input ∧
      PyDict.get? (s'.dicts.dict s'.out) key = outcome d schema toolName required input key ∧
      ∀ other, other ≠ key →
        PyDict.get? (s'.dicts.dict s'.out) other = PyDict.get? (s.dicts.dict s.out) other := by
  have hlt := Memory.lt_length_of_get? (h.unmodified ▸ hvalue)
  obtain ⟨hinput, haddress, hcurrent⟩ := Loop.write_copyOnce hlt h.address f
  have hkey : PyDict.get? (f (s.dicts.dict s.out)) key = _ := hself _
  refine ⟨⟨hinput.trans h.unmodified, Or.inr haddress, fun other => ?_⟩, ?_, fun other hne => ?_⟩
  · show PyDict.get? (((s.copyOnce arguments).write f).dicts.dict _) other = _ ∨ _
    rw [hcurrent]
    by_cases heq : other = key
    · exact Or.inr (heq ▸ hkey)
    · rw [hother _ other heq]
      exact h.values other
  · show PyDict.get? (((s.copyOnce arguments).write f).dicts.dict _) key = _
    rw [hcurrent]
    exact hkey
  · show PyDict.get? (((s.copyOnce arguments).write f).dicts.dict _) other = _
    rw [hcurrent]
    exact hother _ other hne

/-- What the loop over these keys returns: without an error no argument is refused and each key
has its outcome, with one an argument is refused and the arguments come back. -/
structure Finished (d : Decoders) (schema : Json) (toolName : String) (required : List Json)
    (arguments : Nat) (input : PyDict String Json) (keys : List String) (s : Loop) (r : Result) :
    Prop where
  unmodified : r.dicts.dict arguments = input
  accepted : r.error = "" → ∀ key ∈ keys, ∀ value, PyDict.get? input key = some value →
    ∃ v, verdict d schema toolName required key value = .ok v ∧
      Accepted d schema required key value v
  values : r.error = "" → ∀ key, (key ∈ keys ∨ PyDict.get? (s.dicts.dict s.out) key =
      outcome d schema toolName required input key) →
    PyDict.get? (r.dicts.dict r.arguments) key = outcome d schema toolName required input key
  refused : r.error ≠ "" → r.arguments = arguments ∧
    ∃ key value, PyDict.get? input key = some value ∧ Refuses d schema required key value

theorem Finished.cons {arguments : Nat} {input : PyDict String Json} {key : String}
    {rest : List String} {s s' : Loop} {r : Result}
    (h : Finished d schema toolName required arguments input rest s' r)
    (haccepted : ∀ value, PyDict.get? input key = some value →
      ∃ v, verdict d schema toolName required key value = .ok v ∧
        Accepted d schema required key value v)
    (hself : PyDict.get? (s'.dicts.dict s'.out) key =
      outcome d schema toolName required input key)
    (hother : ∀ other, other ≠ key → PyDict.get? (s'.dicts.dict s'.out) other =
      PyDict.get? (s.dicts.dict s.out) other) :
    Finished d schema toolName required arguments input (key :: rest) s r where
  unmodified := h.unmodified
  accepted := by
    intro herror other hmem
    rcases List.mem_cons.mp hmem with rfl | hmem
    · exact haccepted
    · exact h.accepted herror other hmem
  values := by
    intro herror other hother'
    refine h.values herror other ?_
    by_cases heq : other = key
    · exact Or.inr (heq ▸ hself)
    · rcases hother' with hmem | hcurrent
      · exact Or.inl ((List.mem_cons.mp hmem).resolve_left heq)
      · exact Or.inr ((hother other heq).trans hcurrent)
  refused := h.refused

/-- The body of the loop for an argument that is not refused. -/
theorem Loop.Sound.act (hs : s.Sound d schema toolName required arguments input)
    (hvalue : PyDict.get? input key = some value) {v : Verdict}
    (hv : verdict d schema toolName required key value = .ok v)
    (haccepted : Accepted d schema required key value v) (rest : List String) :
    let s' := s.act arguments key v
    coerceKeys d schema toolName required arguments (key :: rest) s =
      coerceKeys d schema toolName required arguments rest s' ∧
    s'.Sound d schema toolName required arguments input ∧
      PyDict.get? (s'.dicts.dict s'.out) key = outcome d schema toolName required input key ∧
      ∀ other, other ≠ key →
        PyDict.get? (s'.dicts.dict s'.out) other = PyDict.get? (s.dicts.dict s.out) other := by
  have hcoerce : coerceKeys d schema toolName required arguments (key :: rest) s =
      (Except.ok v).bind fun
        | .refuse error => .ok ⟨s.dicts, arguments, s.repairs, error⟩
        | v => coerceKeys d schema toolName required arguments rest (s.act arguments key v) := by
    rw [coerceKeys, hs.unmodified, hvalue, ← hv]
  rw [hcoerce]
  cases v with
  | keep =>
    have houtcome : outcome d schema toolName required input key = some value := by
      rw [outcome, hvalue, Option.bind_some, hv]
    refine ⟨rfl, hs, ?_, fun _ _ => rfl⟩
    rcases hs.values key with hold | hnew
    · exact hold.trans (hvalue.trans houtcome.symm)
    · exact hnew
  | drop =>
    have houtcome : outcome d schema toolName required input key = none := by
      rw [outcome, hvalue, Option.bind_some, hv]
    refine ⟨rfl, hs.write hvalue (f := (·.erase key)) ?_ ?_ _⟩
    · intro dict
      rw [PyDict.get?_erase, if_pos rfl, houtcome]
    · intro dict other hne
      rw [PyDict.get?_erase, if_neg hne]
  | replace repaired note =>
    have houtcome : outcome d schema toolName required input key = some repaired := by
      rw [outcome, hvalue, Option.bind_some, hv]
    refine ⟨rfl, hs.write hvalue (f := (·.set key repaired)) ?_ ?_ _⟩
    · intro dict
      rw [PyDict.get?_set_self, houtcome]
    · intro dict other hne
      exact PyDict.get?_set_of_ne _ _ hne
  | refuse error => cases haccepted

theorem coerceKeys_eq_ok (hs : s.Sound d schema toolName required arguments input) {r : Result}
    (h : coerceKeys d schema toolName required arguments keys s = .ok r) :
    Finished d schema toolName required arguments input keys s r := by
  induction keys generalizing s with
  | nil =>
    obtain rfl := Except.ok.inj h
    exact ⟨hs.unmodified, fun _ => by simp, fun _ key hkey => hkey.resolve_left (by simp),
      fun herror => absurd rfl herror⟩
  | cons key rest ih =>
    cases hvalue : PyDict.get? input key with
    | none =>
      have houtcome : outcome d schema toolName required input key = none := by
        rw [outcome, hvalue]
        rfl
      rw [coerceKeys, hs.unmodified, hvalue] at h
      refine (ih hs h).cons (by simp [hvalue]) ?_ fun _ _ => rfl
      rcases hs.values key with hold | hnew
      · exact hold.trans (hvalue.trans houtcome.symm)
      · exact hnew
    | some value =>
      rcases verdict_cases d schema toolName required key value with
        ⟨v, hv, haccepted⟩ | ⟨hrefuses, ⟨e, he⟩ | ⟨error, hne, hrefuse⟩⟩
      · obtain ⟨hcoerce, hs', hself, hother⟩ := hs.act hvalue hv haccepted rest
        refine (ih hs' (hcoerce ▸ h)).cons ?_ hself hother
        intro value' hvalue'
        obtain rfl := Option.some.inj (hvalue.symm.trans hvalue')
        exact ⟨v, hv, haccepted⟩
      · rw [coerceKeys, hs.unmodified, hvalue] at h
        simp [he, Except.bind] at h
      · rw [coerceKeys, hs.unmodified, hvalue] at h
        simp only [hrefuse, Except.bind] at h
        obtain rfl := Except.ok.inj h
        exact ⟨hs.unmodified, fun herror => absurd herror hne,
          fun herror => absurd herror hne, fun _ => ⟨rfl, key, value, hvalue, hrefuses⟩⟩

theorem coerceKeys_returns (hs : s.Sound d schema toolName required arguments input)
    (h : ∀ key value, PyDict.get? input key = some value →
      ¬ Refuses d schema required key value) :
    ∃ r, coerceKeys d schema toolName required arguments keys s = .ok r ∧ r.error = "" := by
  induction keys generalizing s with
  | nil => exact ⟨_, rfl, rfl⟩
  | cons key rest ih =>
    cases hvalue : PyDict.get? input key with
    | none =>
      rw [coerceKeys, hs.unmodified, hvalue]
      exact ih hs
    | some value =>
      rcases verdict_cases d schema toolName required key value with
        ⟨v, hv, haccepted⟩ | ⟨hrefuses, -⟩
      · obtain ⟨hcoerce, hs', -⟩ := hs.act hvalue hv haccepted rest
        rw [hcoerce]
        exact ih hs'
      · exact absurd hrefuses (h key value hvalue)

theorem coerceKeys_keep {dicts : Memory}
    (h : ∀ key value, PyDict.get? (dicts.dict arguments) key = some value →
      verdict d schema toolName required key value = .ok .keep) :
    coerceKeys d schema toolName required arguments keys ⟨dicts, arguments, []⟩ =
      .ok ⟨dicts, arguments, [], ""⟩ := by
  induction keys with
  | nil => rfl
  | cons key rest ih =>
    rw [coerceKeys]
    cases hvalue : PyDict.get? (dicts.dict arguments) key with
    | none => exact ih
    | some value =>
      simp only [h key value hvalue]
      exact ih

/-! ## The whole function -/

theorem verdict_keep
    (h : declaredType schema key = none ∨ ∃ expected, declaredType schema key = some expected ∧
      value.isNull = false ∧ hasType value expected = true) :
    verdict d schema toolName required key value = .ok .keep := by
  unfold verdict
  rcases h with hnone | ⟨expected, hsome, hnull, htype⟩
  · simp only [hnone]
  · simp only [hsome, hnull, htype, Bool.false_eq_true, if_false, if_true]

theorem typed_of_outcome {new : Json}
    (haccepted : ∀ value, PyDict.get? input key = some value →
      ∃ v, verdict d schema toolName required key value = .ok v ∧
        Accepted d schema required key value v)
    (h : outcome d schema toolName required input key = some new) :
    declaredType schema key = none ∨ ∃ expected, declaredType schema key = some expected ∧
      new.isNull = false ∧ hasType new expected = true := by
  obtain ⟨value, hvalue, hnew⟩ := Option.bind_eq_some_iff.mp h
  obtain ⟨v, hv, haccepted⟩ := haccepted value hvalue
  rw [hv] at hnew
  cases haccepted with
  | undeclared hnone => exact Or.inl hnone
  | matching hsome hnull htype =>
    obtain rfl := Option.some.inj hnew
    exact Or.inr ⟨_, hsome, hnull, htype⟩
  | dropped => exact absurd hnew (by simp)
  | repaired hsome _ _ hcoerced =>
    obtain rfl := Option.some.inj hnew
    obtain ⟨htype, hnull⟩ := hasType_of_repaired hcoerced
    exact Or.inr ⟨_, hsome, hnull, htype⟩

theorem hasType_null (hnull : value.isNull = true)
    (h : hasType value expected = true) : expected = "null" := by
  cases value with
  | null =>
    unfold hasType at h
    split at h
    · exact absurd h (by simp)
    · split at h
      · exact absurd h (by simp)
      · exact (of_decide_eq_true h).symm
  | _ => exact absurd hnull (by simp [Json.isNull])

end

variable (d : Decoders) (schema : Json)

def IsRequired (key : String) : Prop :=
  ∃ required, requiredNames schema = .ok required ∧ required.any (Json.isStr key) = true

/-- What is promised of arguments that are returned without an error. -/
structure Aligned (dicts : Memory) (arguments : Nat) (toolName : String) (r : Result) : Prop where
  typed : ∀ key value expected, PyDict.get? (r.dicts.dict r.arguments) key = some value →
    declaredType schema key = some expected → hasType value expected = true
  kept : ∀ key value, PyDict.get? (dicts.dict arguments) key = some value →
    (∀ expected, declaredType schema key = some expected → hasType value expected = true) →
    PyDict.get? (r.dicts.dict r.arguments) key = some value
  removed : ∀ key value, PyDict.get? (dicts.dict arguments) key = some value →
    PyDict.get? (r.dicts.dict r.arguments) key = none →
    value.isNull = true ∧ ¬ IsRequired schema key
  added : ∀ key, PyDict.get? (dicts.dict arguments) key = none →
    PyDict.get? (r.dicts.dict r.arguments) key = none
  again : coerceToSchema d r.dicts r.arguments schema toolName =
    .ok ⟨r.dicts, r.arguments, [], ""⟩

/-- An argument is refused, or the list of required names cannot be read. -/
def Rejected (input : PyDict String Json) : Prop :=
  (∃ e, requiredNames schema = .error e) ∨
  ∃ required, requiredNames schema = .ok required ∧
    ∃ key value, PyDict.get? input key = some value ∧ Refuses d schema required key value

/-- An argument is `null` and declared `null`. -/
def HasDeclaredNull (input : PyDict String Json) : Prop :=
  ∃ key value, PyDict.get? input key = some value ∧ value.isNull = true ∧
    declaredType schema key = some "null"

variable {d schema}

theorem coerceToSchema_cases (d : Decoders) (schema : Json) (toolName : String) :
    ((∀ key, declaredType schema key = none) ∧ ∀ dicts arguments,
      coerceToSchema d dicts arguments schema toolName = .ok ⟨dicts, arguments, [], ""⟩) ∨
    ∀ dicts arguments, coerceToSchema d dicts arguments schema toolName =
      (requiredNames schema).bind fun required =>
        coerceKeys d schema toolName required arguments ((dicts.dict arguments).map Prod.fst)
          ⟨dicts, arguments, []⟩ := by
  cases hprops : schema.get? "properties" with
  | none =>
    refine Or.inl ⟨fun key => ?_, fun dicts arguments => ?_⟩
    · simp only [declaredType, hprops]
    · simp only [coerceToSchema, hprops]
  | some props =>
    cases props with
    | obj items =>
      cases items with
      | nil =>
        refine Or.inl ⟨fun key => ?_, fun dicts arguments => ?_⟩
        · simp [declaredType, hprops, PyDict.get?]
        · simp only [coerceToSchema, hprops]
      | cons item rest =>
        refine Or.inr fun dicts arguments => ?_
        simp only [coerceToSchema, hprops]
    | _ =>
      refine Or.inl ⟨fun key => ?_, fun dicts arguments => ?_⟩
      · simp only [declaredType, hprops]
      · simp only [coerceToSchema, hprops]

theorem aligned_of_finished {dicts : Memory} {arguments : Nat} {toolName : String}
    {required : List Json} {r : Result}
    (hcases : ∀ dicts arguments, coerceToSchema d dicts arguments schema toolName =
      (requiredNames schema).bind fun required =>
        coerceKeys d schema toolName required arguments ((dicts.dict arguments).map Prod.fst)
          ⟨dicts, arguments, []⟩)
    (hrequired : requiredNames schema = .ok required)
    (h : Finished d schema toolName required arguments (dicts.dict arguments)
      ((dicts.dict arguments).map Prod.fst) ⟨dicts, arguments, []⟩ r)
    (herror : r.error = "") (hnull : ¬ HasDeclaredNull schema (dicts.dict arguments)) :
    Aligned d schema dicts arguments toolName r := by
  have haccepted : ∀ key value, PyDict.get? (dicts.dict arguments) key = some value →
      ∃ v, verdict d schema toolName required key value = .ok v ∧
        Accepted d schema required key value v := fun key value hvalue =>
    h.accepted herror key (PyDict.mem_keys_of_get? hvalue) value hvalue
  have hout : ∀ key, PyDict.get? (r.dicts.dict r.arguments) key =
      outcome d schema toolName required (dicts.dict arguments) key := by
    intro key
    refine h.values herror key ?_
    cases hvalue : PyDict.get? (dicts.dict arguments) key with
    | none =>
      refine Or.inr ?_
      rw [outcome, hvalue]
      rfl
    | some value => exact Or.inl (PyDict.mem_keys_of_get? hvalue)
  have hnew : ∀ key new, PyDict.get? (r.dicts.dict r.arguments) key = some new →
      declaredType schema key = none ∨ ∃ expected, declaredType schema key = some expected ∧
        new.isNull = false ∧ hasType new expected = true := fun key new hnew =>
    typed_of_outcome (haccepted key) ((hout key).symm.trans hnew)
  constructor
  · intro key value expected hvalue hdeclared
    rcases hnew key value hvalue with hnone | ⟨expected', hsome, -, htype⟩
    · exact absurd (hnone.symm.trans hdeclared) (by simp)
    · obtain rfl := Option.some.inj (hsome.symm.trans hdeclared)
      exact htype
  · intro key value hvalue hmatches
    obtain ⟨v, hv, haccepted⟩ := haccepted key value hvalue
    rw [hout, outcome, hvalue, Option.bind_some, hv]
    cases haccepted with
    | undeclared => rfl
    | matching => rfl
    | dropped hsome hisNull =>
      obtain rfl := hasType_null hisNull (hmatches _ hsome)
      exact absurd ⟨key, value, hvalue, hisNull, hsome⟩ hnull
    | repaired hsome _ htype => exact absurd (htype.symm.trans (hmatches _ hsome)) (by simp)
  · intro key value hvalue hremoved
    obtain ⟨v, hv, haccepted⟩ := haccepted key value hvalue
    rw [hout, outcome, hvalue, Option.bind_some, hv] at hremoved
    cases haccepted with
    | undeclared => exact absurd hremoved (by simp)
    | matching => exact absurd hremoved (by simp)
    | dropped _ hisNull hnot =>
      refine ⟨hisNull, ?_⟩
      rintro ⟨required', hrequired', hany⟩
      obtain rfl := Except.ok.inj (hrequired.symm.trans hrequired')
      exact absurd (hnot.symm.trans hany) (by simp)
    | repaired => exact absurd hremoved (by simp)
  · intro key hvalue
    rw [hout, outcome, hvalue]
    rfl
  · rw [hcases, hrequired]
    exact coerceKeys_keep fun key value hvalue => verdict_keep (hnew key value hvalue)

/-- The arguments come back aligned exactly if one of them is refused or none is `null` where
`null` is the declared type. -/
theorem coerceToSchema_exact (d : Decoders) (dicts : Memory) (arguments : Nat) (schema : Json)
    (toolName : String) :
    (∀ r, coerceToSchema d dicts arguments schema toolName = .ok r →
      r.dicts.dict arguments = dicts.dict arguments ∧
      (r.error = "" → Aligned d schema dicts arguments toolName r) ∧
      (r.error ≠ "" → r.arguments = arguments)) ↔
    Rejected d schema (dicts.dict arguments) ∨
      ¬ HasDeclaredNull schema (dicts.dict arguments) := by
  rcases coerceToSchema_cases d schema toolName with ⟨hnone, hsame⟩ | hcases
  · -- nothing is declared: the arguments come back as they are
    refine iff_of_true ?_ (Or.inr ?_)
    · intro r hr
      rw [hsame] at hr
      obtain rfl := Except.ok.inj hr
      refine ⟨rfl, fun _ => ?_, fun _ => rfl⟩
      constructor
      · intro key value expected _ hdeclared
        exact absurd ((hnone key).symm.trans hdeclared) (by simp)
      · intro key value hvalue _
        exact hvalue
      · intro key value hvalue hremoved
        exact absurd (hvalue.symm.trans hremoved) (by simp)
      · intro key hvalue
        exact hvalue
      · exact hsame _ _
    · rintro ⟨key, value, -, -, hdeclared⟩
      exact absurd ((hnone key).symm.trans hdeclared) (by simp)
  · cases hrequired : requiredNames schema with
    | error e =>
      refine iff_of_true (fun r hr => ?_) (Or.inl (Or.inl ⟨e, hrequired⟩))
      rw [hcases, hrequired] at hr
      exact absurd hr (by simp [Except.bind])
    | ok required =>
      have hsound : Loop.Sound d schema toolName required arguments (dicts.dict arguments)
          ⟨dicts, arguments, []⟩ := ⟨rfl, Or.inl rfl, fun _ => Or.inl rfl⟩
      have hcall : coerceToSchema d dicts arguments schema toolName =
          coerceKeys d schema toolName required arguments ((dicts.dict arguments).map Prod.fst)
            ⟨dicts, arguments, []⟩ := by
        rw [hcases, hrequired]
        rfl
      constructor
      · intro hall
        by_contra hcond
        obtain ⟨hrejected, hnull⟩ := not_or.mp hcond
        obtain ⟨key, value, hvalue, hisNull, hdeclared⟩ := not_not.mp hnull
        -- the call returns and has dropped this argument
        obtain ⟨r, hr, herror⟩ := coerceKeys_returns hsound (fun key value hvalue hrefuses =>
          hrejected (Or.inr ⟨required, hrequired, key, value, hvalue, hrefuses⟩))
        obtain ⟨-, haligned, -⟩ := hall r (hcall.trans hr)
        have hkept : PyDict.get? (r.dicts.dict r.arguments) key = some value := by
          refine (haligned herror).kept key value hvalue fun expected hsome => ?_
          obtain rfl := Option.some.inj (hdeclared.symm.trans hsome)
          cases value with
          | null => rfl
          | _ => exact absurd hisNull (by simp [Json.isNull])
        have hfinished := coerceKeys_eq_ok hsound hr
        have hmem := PyDict.mem_keys_of_get? hvalue
        rw [hfinished.values herror key (Or.inl hmem)] at hkept
        rcases typed_of_outcome (hfinished.accepted herror key hmem) hkept with
          hnone | ⟨expected, -, hnot, -⟩
        · exact absurd (hnone.symm.trans hdeclared) (by simp)
        · exact absurd (hnot.symm.trans hisNull) (by simp)
      · intro hcond r hr
        have hfinished := coerceKeys_eq_ok hsound (hcall.symm.trans hr)
        refine ⟨hfinished.unmodified, fun herror => ?_, fun herror =>
          (hfinished.refused herror).1⟩
        refine aligned_of_finished hcases hrequired hfinished herror ?_
        rcases hcond with
          (⟨e, he⟩ | ⟨required', hrequired', key, value, hvalue, hrefuses⟩) | hnull
        · exact absurd (hrequired.symm.trans he) (by simp)
        · obtain rfl := Except.ok.inj (hrequired.symm.trans hrequired')
          obtain ⟨v, -, haccepted⟩ :=
            hfinished.accepted herror key (PyDict.mem_keys_of_get? hvalue) value hvalue
          exact absurd hrefuses (not_refuses_of_accepted haccepted)
        · exact hnull

/-- `{"x": null}` with `x` optional and declared `null`: the matching value is dropped. -/
theorem not_aligned_declared_null :
    let d : Decoders := ⟨fun _ => none, fun _ => .invalid, fun _ => "", fun _ => none⟩
    let schema : Json := .obj [("properties", .obj [("x", .obj [("type", .str "null")])])]
    ¬ ∀ r, coerceToSchema d [[("x", .null)]] 0 schema "" = .ok r → r.error = "" →
      Aligned d schema [[("x", .null)]] 0 "" r := by
  intro d schema hall
  have hcall : coerceToSchema d [[("x", .null)]] 0 schema "" =
      .ok ⟨[[("x", .null)], []], 1, ["x: dropped null optional"], ""⟩ := by rfl
  have hkept := (hall _ hcall rfl).kept "x" .null rfl (by
    intro expected hdeclared
    obtain rfl : expected = "null" := Option.some.inj hdeclared.symm
    rfl)
  exact absurd hkept (by simp [Memory.dict, PyDict.get?])

end PawFlow.ToolJson
