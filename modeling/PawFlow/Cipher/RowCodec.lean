import PawFlow.Lib.Bytes
import PawFlow.Lib.JsonSort
import PawFlow.Segments.Row

/-!
# The cipher of conversation rows

`RowCodec` of `core/conversation_cipher.py`: the content fields of a row are replaced by envelopes,
text that starts with `enc:cv1:` and carries the AES-GCM ciphertext of the field. What is an
envelope is decided by that start alone, for writing as for reading.

AES-GCM is a parameter (`AesGcm`), and the twelve random bytes of a nonce are an argument.
-/

namespace PawFlow.Cipher

open PawFlow.Lib PawFlow.Segments

def contentFields : List String := ["content", "arguments"]

/-- `_PREFIX`. -/
def envelopeMark : String := "enc:cv1:"

def alg : String := "aesgcm"

def nonceLen : Nat := 12

def dekLen : Nat := 32

abbrev Nonce := { b : Bytes // b.length = nonceLen }

/-- `cryptography`'s `AESGCM`: decrypting with the key, the nonce and the associated data of the
encryption gives the text back, and the text is not longer than its ciphertext. -/
structure AesGcm where
  encrypt : (key nonce raw aad : Bytes) → Bytes
  /-- `none` where it raises. -/
  decrypt : (key nonce ct aad : Bytes) → Option Bytes
  decrypt_encrypt : ∀ key nonce raw aad, key.length = dekLen → nonce.length = nonceLen →
    decrypt key nonce (encrypt key nonce raw aad) aad = some raw
  length_decrypt : ∀ key nonce ct aad raw, decrypt key nonce ct aad = some raw →
    raw.length ≤ ct.length

/-- `_b64`. -/
def b64 (b : Bytes) : String := .ofList (b64encode b)

/-- `_ub64`: `s.encode("ascii")` raises outside ASCII. -/
def ub64 (s : String) : Option Bytes :=
  if s.toList.all fun c => decide (c.toNat < 128) then b64decode s.toList else none

def fieldAad (field : String) : Bytes := encodeUtf8 "pf-conv-field:v1:" ++ encodeUtf8 field

def isEncryptedValue : Json → Bool
  | .str s => startsWith s envelopeMark
  | _ => false

/-- `RowCodec`; its constructor refuses a key of another length. -/
structure RowCodec where
  dek : Bytes
  length_dek : dek.length = dekLen

/-- `RowCodec(dek)`. -/
def RowCodec.new (dek : Bytes) : Except String RowCodec :=
  if h : dek.length = dekLen then .ok ⟨dek, h⟩
  else .error ("dek must be " ++ toString dekLen ++ " bytes, got " ++ toString dek.length)

/-- Why a field cannot be decrypted. The first two are `SecretDecryptError`s. -/
inductive DecodeError
  /-- `malformed conv-field envelope`. -/
  | malformedEnvelope
  /-- `conv-field decrypt failed (field=…)`. -/
  | decryptFailed (field : String)
  /-- `raw.decode("utf-8")`. -/
  | notUtf8
  /-- `json.loads(text)`. -/
  | notJson
deriving DecidableEq

variable (aes : AesGcm) (readFloat : List Char → Option (FloatText × Int × Nat))

/-! ## Envelopes -/

/-- The tag of a value and the bytes that are encrypted. -/
def plaintext : Json → String × Bytes
  | .str s => ("s", encodeUtf8 s)
  | v => ("j", encodeUtf8 (Json.dumps (Json.sortKeys v)))

/-- The items of the dict inside an envelope. -/
def payload (tag : String) (nonce ct : Bytes) : List (String × Json) :=
  [("v", .int 1), ("t", .str tag), ("alg", .str alg), ("nonce", .str (b64 nonce)),
    ("ct", .str (b64 ct))]

def envelope (tag : String) (nonce ct : Bytes) : String :=
  envelopeMark ++ b64 (encodeUtf8 (Json.compact (Json.sortKeys (.obj (payload tag nonce ct)))))

/-- `_ub64(payload[key])`. -/
def bytesOf (payload : Json) (key : String) : Option Bytes :=
  match payload.get? key with
  | some (.str s) => ub64 s
  | _ => none

/-- The tag, the nonce and the ciphertext of an envelope. -/
def openEnvelope (s : String) : Option (Json × Bytes × Bytes) := do
  let bytes ← ub64 (.ofList (s.toList.drop envelopeMark.toList.length))
  let text ← decodeUtf8 bytes
  let payload ← Json.loads readFloat text.toList
  let tag ← payload.get? "t"
  let nonce ← bytesOf payload "nonce"
  let ct ← bytesOf payload "ct"
  return (tag, nonce, ct)

namespace RowCodec

variable (codec : RowCodec)

def encryptValue (nonce : Nonce) (field : String) (value : Json) : Json :=
  if value.isNull || value.isStr "" then value
  else if isEncryptedValue value then value
  else
    let ct := aes.encrypt codec.dek nonce.val (plaintext value).2 (fieldAad field)
    .str (envelope (plaintext value).1 nonce.val ct)

def decryptValue (field : String) : Json → Except DecodeError Json
  | .str s =>
    if isEncryptedValue (.str s) then
      match openEnvelope readFloat s with
      | none => .error .malformedEnvelope
      | some (tag, nonce, ct) =>
        match aes.decrypt codec.dek nonce ct (fieldAad field) with
        | none => .error (.decryptFailed field)
        | some raw =>
          match decodeUtf8 raw with
          | none => .error .notUtf8
          | some text =>
            if tag.isStr "s" then .ok (.str text)
            else
              match Json.loads readFloat text.toList with
              | none => .error .notJson
              | some value => .ok value
    else .ok (.str s)
  | value => .ok value

/-- `encode`; `nonces` are the random bytes drawn for each field. -/
def encode (nonces : String → Nonce) (row : Row) : Row :=
  contentFields.foldl
    (fun out field => out.adjust field (codec.encryptValue aes (nonces field) field)) row

def decode (row : Row) : Except DecodeError Row :=
  contentFields.foldlM (fun out field => out.adjustM field (codec.decryptValue aes readFloat field))
    row

end RowCodec

/-! ## An envelope opens -/

theorem ub64_b64 (b : Bytes) : ub64 (b64 b) = some b := by
  have hascii : (b64encode b).all fun c => decide (c.toNat < 128) := by
    simpa using isAscii_b64encode b
  rw [ub64, b64, String.toList_ofList, if_pos hascii, b64decode_b64encode]

variable {s : String}

theorem length_ub64 {b : Bytes} (h : ub64 s = some b) : b.length ≤ s.toList.length := by
  unfold ub64 at h
  split at h
  · exact length_b64decode h
  · contradiction

variable {aes readFloat}

theorem payload_keys_nodup (tag : String) (nonce ct : Bytes) :
    ((payload tag nonce ct).map Prod.fst).Nodup := by
  simp [payload]

theorem openEnvelope_envelope (tag : String) (nonce ct : Bytes) :
    openEnvelope readFloat (envelope tag nonce ct) = some (.str tag, nonce, ct) := by
  have hdrop : String.ofList ((envelope tag nonce ct).toList.drop envelopeMark.toList.length) =
      b64 (encodeUtf8 (Json.compact (Json.sortKeys (.obj (payload tag nonce ct))))) := by
    rw [envelope, String.toList_append, List.drop_left, String.ofList_toList]
  have hnodup := payload_keys_nodup tag nonce ct
  have hformed : Json.WellFormed readFloat (.obj (payload tag nonce ct)) :=
    ⟨hnodup, trivial, trivial, trivial, trivial, trivial, trivial⟩
  have hstr : ∀ {k t}, (k, Json.str t) ∈ payload tag nonce ct →
      (Json.sortKeys (.obj (payload tag nonce ct))).get? k = some (.str t) := by
    intro k t hmem
    rw [Json.get?_sortKeys_obj hnodup hmem, Json.sortKeys]
    all_goals simp
  have htag := hstr (k := "t") (t := tag) (by simp [payload])
  have hnonce := hstr (k := "nonce") (t := b64 nonce) (by simp [payload])
  have hct := hstr (k := "ct") (t := b64 ct) (by simp [payload])
  simp only [openEnvelope, hdrop, ub64_b64, decodeUtf8_encodeUtf8,
    Json.loads_compact (Json.wellFormed_sortKeys _ hformed), Option.bind_eq_bind,
    Option.bind_some, bytesOf, htag, hnonce, hct]
  rfl

theorem isEncryptedValue_envelope (tag : String) (nonce ct : Bytes) :
    isEncryptedValue (.str (envelope tag nonce ct)) := by
  simp [isEncryptedValue, envelope, startsWith]

theorem loads_plaintext {v : Json} (hv : v.WellFormed readFloat) :
    ∃ text, decodeUtf8 (plaintext v).2 = some text ∧
      (if (Json.str (plaintext v).1).isStr "s" then some (.str text)
        else Json.loads readFloat text.toList) = some v.sortKeys := by
  cases v with
  | str s => exact ⟨s, decodeUtf8_encodeUtf8 s, rfl⟩
  | _ => exact ⟨_, decodeUtf8_encodeUtf8 _, Json.loads_dumps (Json.wellFormed_sortKeys _ hv)⟩

theorem openEnvelope_length {tag : Json} {nonce ct : Bytes}
    (hmark : startsWith s envelopeMark) (h : openEnvelope readFloat s = some (tag, nonce, ct)) :
    ct.length < s.toList.length := by
  unfold openEnvelope at h
  obtain ⟨bytes, hbytes, h⟩ := Option.bind_eq_some_iff.mp h
  obtain ⟨text, htext, h⟩ := Option.bind_eq_some_iff.mp h
  obtain ⟨payload, hpayload, h⟩ := Option.bind_eq_some_iff.mp h
  obtain ⟨tag', -, h⟩ := Option.bind_eq_some_iff.mp h
  obtain ⟨nonce', -, h⟩ := Option.bind_eq_some_iff.mp h
  obtain ⟨ct', hct, h⟩ := Option.bind_eq_some_iff.mp h
  obtain rfl : ct' = ct := by
    simp only [Option.pure_def, Option.some.injEq, Prod.mk.injEq] at h
    exact h.2.2
  unfold bytesOf at hct
  split at hct
  · next field hget =>
    calc ct'.length ≤ field.toList.length := length_ub64 hct
      _ ≤ text.toList.length := (Json.loads_field_length hpayload hget).le
      _ ≤ bytes.length := length_decodeUtf8 htext
      _ ≤ (s.toList.drop envelopeMark.toList.length).length := by
          simpa using length_ub64 hbytes
      _ < s.toList.length := by
          have hle := (List.isPrefixOf_iff_prefix.mp hmark).length_le
          have hpos : 0 < envelopeMark.toList.length := by decide
          rw [List.length_drop]
          omega
  · contradiction

namespace RowCodec

variable {codec : RowCodec} {nonce : Nonce} {field : String} {v : Json}

theorem decryptValue_of_clear (h : isEncryptedValue v = false) :
    codec.decryptValue aes readFloat field v = .ok v := by
  cases v with
  | str s => rw [decryptValue, h, if_neg (by simp)]
  | _ => rfl

theorem decryptValue_encryptValue (hv : v.WellFormed readFloat) (h : isEncryptedValue v = false) :
    codec.decryptValue aes readFloat field (codec.encryptValue aes nonce field v) =
      .ok v.sortKeys := by
  unfold encryptValue
  split
  · next hempty =>
    have hsort : v.sortKeys = v := by
      cases v <;> simp_all [Json.isNull, Json.isStr, Json.sortKeys]
    rw [decryptValue_of_clear h, hsort]
  · rw [h, if_neg (by simp)]
    obtain ⟨text, htext, hread⟩ := loads_plaintext hv
    have hdec := aes.decrypt_encrypt codec.dek nonce.val (plaintext v).2 (fieldAad field)
      codec.length_dek nonce.property
    simp only [decryptValue, isEncryptedValue_envelope, if_true, openEnvelope_envelope, hdec,
      htext]
    split
    · next htag =>
      rw [if_pos htag] at hread
      rw [Option.some.inj hread]
    · next htag =>
      rw [if_neg htag] at hread
      rw [hread]

theorem decryptValue_length {s t : String} (hmark : isEncryptedValue (.str s))
    (h : codec.decryptValue aes readFloat field (.str s) = .ok (.str t)) :
    t.toList.length < s.toList.length := by
  rw [decryptValue, if_pos hmark] at h
  split at h
  · contradiction
  next tag nonce ct hopen =>
  split at h
  · contradiction
  next raw hraw =>
  split at h
  · contradiction
  next text htext =>
  have hct := openEnvelope_length hmark hopen
  have hlength := aes.length_decrypt _ _ _ _ _ hraw
  have hutf8 := length_decodeUtf8 htext
  split at h
  · obtain rfl := Json.str.inj (Except.ok.inj h)
    omega
  · split at h
    · contradiction
    · next value hload =>
      obtain rfl := Except.ok.inj h
      have := Json.loads_str_length hload
      omega

/-! ## Rows -/

theorem contentFields_nodup : contentFields.Nodup := by decide

variable {nonces : String → Nonce} {row out : Row}

theorem keys_encode : (codec.encode aes nonces row).map Prod.fst = row.map Prod.fst :=
  PyDict.keys_foldl_adjust row _

theorem get?_encode (hfield : field ∈ contentFields) :
    (codec.encode aes nonces row).get? field =
      (row.get? field).map (codec.encryptValue aes (nonces field) field) :=
  PyDict.get?_foldl_adjust row _ contentFields_nodup hfield

theorem get?_encode_of_not_mem (hfield : field ∉ contentFields) :
    (codec.encode aes nonces row).get? field = row.get? field :=
  PyDict.get?_foldl_adjust_of_not_mem row _ hfield

end RowCodec

/-- No content field of the row starts like an envelope. -/
def Unmarked (row : Row) : Prop :=
  ∀ field ∈ contentFields, ∀ v, row.get? field = some v → isEncryptedValue v = false

theorem pyEq_of_get? {row out : Row} (hkeys : out.map Prod.fst = row.map Prod.fst)
    (hnodup : (row.map Prod.fst).Nodup)
    (h : ∀ k v, out.get? k = some v → ∃ w, row.get? k = some w ∧ v.pyEq w) : out.pyEq row := by
  have hlength : out.length = row.length := by simpa using congrArg List.length hkeys
  rw [Row.pyEq, Json.pyEq, Bool.and_eq_true, Json.pyEqFields_iff]
  refine ⟨by simp [hlength], fun i hi => ?_⟩
  exact h i.1 i.2 (PyDict.get?_of_mem (hkeys ▸ hnodup) hi)

theorem get?_of_pyEq {row out : Row} (h : out.pyEq row) {k : String} {v : Json}
    (hget : out.get? k = some v) : ∃ w, row.get? k = some w ∧ v.pyEq w := by
  rw [Row.pyEq, Json.pyEq, Bool.and_eq_true, Json.pyEqFields_iff] at h
  exact h.2 _ (PyDict.mem_of_get? hget)

theorem eq_str_of_pyEq {v : Json} (h : v.pyEq (.str s)) : v = .str s := by
  cases v <;> simp_all [Json.pyEq, Json.numberEq, Json.number?]

/-- What decoding an encoded row without marks leaves: the same row with sorted dicts in its
content fields. -/
structure Decoded (row out : Row) : Prop where
  keys : out.map Prod.fst = row.map Prod.fst
  content : ∀ field ∈ contentFields, out.get? field = (row.get? field).map Json.sortKeys
  other : ∀ field ∉ contentFields, out.get? field = row.get? field

theorem Decoded.pyEq {row out : Row} (h : Decoded row out)
    (hrow : (Json.obj row).WellFormed readFloat) : out.pyEq row := by
  have hformed : ∀ {k v}, row.get? k = some v → v.WellFormed readFloat := fun hget =>
    Json.wellFormedFields_iff.mp hrow.2 _ (PyDict.mem_of_get? hget)
  refine pyEq_of_get? h.keys hrow.1 fun k v hget => ?_
  by_cases hk : k ∈ contentFields
  · rw [h.content k hk] at hget
    obtain ⟨w, hw, rfl⟩ := Option.map_eq_some_iff.mp hget
    exact ⟨w, hw, Json.pyEq_sortKeys w (hformed hw)⟩
  · rw [h.other k hk] at hget
    exact ⟨v, hget, Json.pyEq_refl v (hformed hget)⟩

namespace RowCodec

variable {codec : RowCodec} {nonces : String → Nonce} {row out : Row}

theorem decode_encode (hrow : (Json.obj row).WellFormed readFloat) (h : Unmarked row) :
    ∃ out, codec.decode aes readFloat (codec.encode aes nonces row) = .ok out ∧
      Decoded row out := by
  have hvalue : ∀ field ∈ contentFields, ∀ v, (codec.encode aes nonces row).get? field = some v →
      ∃ u, row.get? field = some u ∧
        codec.decryptValue aes readFloat field v = .ok u.sortKeys := by
    intro field hfield v hv
    rw [get?_encode hfield] at hv
    obtain ⟨u, hu, rfl⟩ := Option.map_eq_some_iff.mp hv
    have hformed := Json.wellFormedFields_iff.mp hrow.2 _ (PyDict.mem_of_get? hu)
    exact ⟨u, hu, decryptValue_encryptValue hformed (h field hfield u hu)⟩
  obtain ⟨out, hout⟩ : ∃ out, codec.decode aes readFloat (codec.encode aes nonces row) = .ok out :=
    PyDict.exists_foldlM_adjustM contentFields_nodup fun field hfield v hv =>
      (hvalue field hfield v hv).elim fun u hu => ⟨_, hu.2⟩
  obtain ⟨hkeys, hother, hcontent⟩ := PyDict.foldlM_adjustM_eq_ok contentFields_nodup hout
  refine ⟨out, hout, hkeys.trans keys_encode, fun field hfield => ?_, fun field hfield => ?_⟩
  · have hkey : out.map Prod.fst = row.map Prod.fst := hkeys.trans keys_encode
    cases hget : (codec.encode aes nonces row).get? field with
    | some v =>
      obtain ⟨u, hu, hdec⟩ := hvalue field hfield v hget
      obtain ⟨w, hw, hout⟩ := hcontent field hfield v hget
      rw [hdec] at hw
      rw [hout, hu, Option.map_some, Except.ok.inj hw]
    | none =>
      have hrowget : row.get? field = none := by
        rw [get?_encode hfield] at hget
        exact Option.map_eq_none_iff.mp hget
      rw [hrowget, Option.map_none, PyDict.get?_eq_none_iff, hkey,
        ← PyDict.get?_eq_none_iff]
      exact hrowget
  · exact (hother field hfield).trans (get?_encode_of_not_mem hfield)

/-- A row whose texts come back has no marks: what starts like an envelope is left as it is, and
opening it gives a shorter text, another value, or an error. -/
theorem unmarked_of_decode_encode
    (hout : codec.decode aes readFloat (codec.encode aes nonces row) = .ok out)
    (hsame : ∀ field ∈ contentFields, ∀ s w, row.get? field = some (.str s) →
      out.get? field = some w → w = .str s) : Unmarked row := by
  intro field hfield v hv
  by_contra hmark
  rw [Bool.not_eq_false] at hmark
  obtain ⟨s, rfl⟩ : ∃ s, v = .str s := by cases v <;> simp_all [isEncryptedValue]
  obtain ⟨-, -, hcontent⟩ := PyDict.foldlM_adjustM_eq_ok contentFields_nodup hout
  have hkept : (codec.encode aes nonces row).get? field = some (.str s) := by
    rw [get?_encode hfield, hv, Option.map_some, encryptValue]
    simp [hmark]
  obtain ⟨w, hw, hget⟩ := hcontent field hfield _ hkept
  rw [hsame field hfield s w hv hget] at hw
  exact absurd (decryptValue_length hmark hw) (lt_irrefl _)

variable (aes readFloat codec nonces row) in
/-- The round trip of one row: decoding gives an equal row, and every content field with something
in it is stored as the AES-GCM ciphertext of its value. -/
structure RoundTrips : Prop where
  restored : ∃ out, codec.decode aes readFloat (codec.encode aes nonces row) = .ok out ∧
    out.pyEq row
  hidden : ∀ field ∈ contentFields, ∀ v, row.get? field = some v →
    (v.isNull || v.isStr "") = false → ∃ s tag nonce,
      (codec.encode aes nonces row).get? field = some (.str s) ∧
      openEnvelope readFloat s =
        some (tag, nonce, aes.encrypt codec.dek nonce (plaintext v).2 (fieldAad field))

theorem roundTrips_iff (hrow : (Json.obj row).WellFormed readFloat) :
    RoundTrips aes readFloat codec nonces row ↔ Unmarked row := by
  constructor
  · rintro ⟨⟨out, hout, hpyEq⟩, -⟩
    refine unmarked_of_decode_encode hout fun field _ s w hs hw => ?_
    obtain ⟨u, hu, heq⟩ := get?_of_pyEq hpyEq hw
    obtain rfl : .str s = u := Option.some.inj (hs.symm.trans hu)
    exact eq_str_of_pyEq heq
  · intro h
    refine ⟨?_, fun field hfield v hv hempty => ?_⟩
    · obtain ⟨out, hout, hdecoded⟩ := @decode_encode aes readFloat codec nonces row hrow h
      exact ⟨out, hout, hdecoded.pyEq hrow⟩
    · refine ⟨_, .str (plaintext v).1, (nonces field).val, ?_, openEnvelope_envelope _ _ _⟩
      rw [get?_encode hfield, hv, Option.map_some, encryptValue, hempty, h field hfield v hv]
      rfl

end RowCodec

end PawFlow.Cipher
