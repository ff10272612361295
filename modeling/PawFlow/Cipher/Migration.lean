import PawFlow.Cipher.RowCodec
import PawFlow.Segments.Refinement

/-!
# Migrating a log

`encrypt_log` and `decrypt_log` of `core/conversation_cipher.py` rewrite a segmented log in place,
the first through a log that encodes what it writes, the second through one that decodes what it
reads. A log with a codec strips runtime secrets before it encodes and after it decodes.
-/

namespace PawFlow.Cipher

open PawFlow.Lib PawFlow.Segments

variable (aes : AesGcm) (readFloat : List Char → Option (FloatText × Int × Nat))
variable (codec : RowCodec) (cfg : Config)

/-- The rows `replace_dicts` writes when the log has a codec; `nonces i` are drawn for row `i`. -/
def encodeRows (nonces : Nat → String → Nonce) (rows : List Row) : List Row :=
  rows.mapIdx fun i row => codec.encode aes (nonces i) row.strip

/-- `replace_dicts` of a log with a codec. -/
def replaceEncoded (nonces : Nat → String → Nonce) (log : Log) (rows : List Row) (now : Int) :
    Log :=
  let (index, directory) :=
    appendRows cfg .empty (.empty log.directory.created) (encodeRows aes codec nonces rows)
  { log with
    isDir := true, directory, indexFile := .valid index, sidecars := fun _ => none
    }.rememberIndex index true now

/-- `list(iter_rows())` of a log with a codec: every row is decoded and then stripped. -/
def iterDecoded (log : Log) (now : Int) : Except DecodeError (List Row) × Log :=
  let (paths, log) := (log.flushDirtyIndexes cfg now).segmentPaths now
  ((paths.flatMap log.directory.rows).mapM fun row =>
    (codec.decode aes readFloat row).map Row.strip, log)

def encryptLog (nonces : Nat → String → Nonce) (log : Log) (now : Int) : Nat × Log :=
  if !log.isSegmented then (0, log)
  else
    let (rows, log) := log.iterRows cfg now
    (rows.length, replaceEncoded aes codec cfg nonces log rows now)

/-- `decrypt_log`; when a row raises, nothing is written. -/
def decryptLog (log : Log) (now : Int) : Except DecodeError Nat × Log :=
  if !log.isSegmented then (.ok 0, log)
  else
    match iterDecoded aes readFloat codec cfg log now with
    | (.ok rows, log) => (.ok rows.length, log.replaceDicts cfg rows now)
    | (.error e, log) => (.error e, log)

/-! ## Secrets and codec -/

theorem length_stripFields_le (items : List (String × Json)) :
    (stripFields items).length ≤ items.length := by
  induction items with
  | nil => simp [stripFields]
  | cons i rest ih =>
    rw [stripFields]
    split
    · simp only [List.length_cons]
      omega
    · simpa using ih

theorem stripFields_eq_self_iff {items : List (String × Json)} :
    stripFields items = items ↔
      ∀ i ∈ items, i.1 ∉ secretRuntimeKeys ∧ stripSecretRuntimeValues i.2 = i.2 := by
  induction items with
  | nil => simp [stripFields]
  | cons i rest ih =>
    rw [List.forall_mem_cons, stripFields]
    split
    · next hmem =>
      constructor
      · intro h
        have hcount := congrArg List.length h
        have hrest := length_stripFields_le rest
        rw [List.length_cons] at hcount
        omega
      · exact fun h => absurd hmem h.1.1
    · next hmem =>
      rw [List.cons.injEq, Prod.ext_iff, ih]
      tauto

theorem stripItems_eq_self_iff {items : List Json} :
    stripItems items = items ↔ ∀ v ∈ items, stripSecretRuntimeValues v = v := by
  induction items with
  | nil => simp [stripItems]
  | cons v rest ih => rw [stripItems, List.cons.injEq, ih, List.forall_mem_cons]

mutual

theorem strip_sortKeys (v : Json) (h : stripSecretRuntimeValues v = v) :
    stripSecretRuntimeValues v.sortKeys = v.sortKeys := by
  match v, h with
  | .null, h => exact h
  | .bool _, h => exact h
  | .int _, h => exact h
  | .float _ _ _, h => exact h
  | .str _, h => exact h
  | .arr items, h =>
    rw [stripSecretRuntimeValues, Json.arr.injEq, stripItems_eq_self_iff] at h
    rw [Json.sortKeys, stripSecretRuntimeValues, Json.arr.injEq, stripItems_eq_self_iff,
      Json.sortKeysItems_eq_map, List.forall_mem_map]
    exact strip_sortKeys_items items h
  | .obj items, h =>
    rw [stripSecretRuntimeValues, Json.obj.injEq, stripFields_eq_self_iff] at h
    obtain ⟨sorted, heq, hperm⟩ := Json.sortKeys_obj items
    rw [heq, stripSecretRuntimeValues, Json.obj.injEq, stripFields_eq_self_iff]
    intro i hi
    obtain ⟨j, hj, rfl⟩ := List.mem_map.mp (hperm.mem_iff.mp hi)
    exact ⟨(h j hj).1, strip_sortKeys_fields items (fun i hi => (h i hi).2) j hj⟩

theorem strip_sortKeys_items (items : List Json) (h : ∀ v ∈ items, stripSecretRuntimeValues v = v) :
    ∀ v ∈ items, stripSecretRuntimeValues v.sortKeys = v.sortKeys := by
  match items, h with
  | [], _ => simp
  | v :: rest, h =>
    rw [List.forall_mem_cons] at h ⊢
    exact ⟨strip_sortKeys v h.1, strip_sortKeys_items rest h.2⟩

theorem strip_sortKeys_fields (items : List (String × Json))
    (h : ∀ i ∈ items, stripSecretRuntimeValues i.2 = i.2) :
    ∀ i ∈ items, stripSecretRuntimeValues i.2.sortKeys = i.2.sortKeys := by
  match items, h with
  | [], _ => simp
  | i :: rest, h =>
    rw [List.forall_mem_cons] at h ⊢
    exact ⟨strip_sortKeys i.2 h.1, strip_sortKeys_fields rest h.2⟩

end

variable {row : Row}

theorem strip_eq_self_iff (hnodup : (row.map Prod.fst).Nodup) :
    row.strip = row ↔ ∀ k v, row.get? k = some v →
      k ∉ secretRuntimeKeys ∧ stripSecretRuntimeValues v = v := by
  rw [Row.strip, stripFields_eq_self_iff]
  constructor
  · exact fun h k v hget => h (k, v) (PyDict.mem_of_get? hget)
  · exact fun h i hi => h i.1 i.2 (PyDict.get?_of_mem hnodup hi)

variable {aes readFloat codec cfg}

theorem strip_encode {nonces : String → Nonce} (hnodup : (row.map Prod.fst).Nodup)
    (h : row.strip = row) :
    Row.strip (codec.encode aes nonces row) = codec.encode aes nonces row := by
  rw [strip_eq_self_iff hnodup] at h
  rw [strip_eq_self_iff (by rwa [RowCodec.keys_encode])]
  intro k v hget
  by_cases hk : k ∈ contentFields
  · rw [RowCodec.get?_encode hk] at hget
    obtain ⟨u, hu, rfl⟩ := Option.map_eq_some_iff.mp hget
    refine ⟨(h k u hu).1, ?_⟩
    unfold RowCodec.encryptValue
    split
    · exact (h k u hu).2
    · split
      · exact (h k u hu).2
      · simp [stripSecretRuntimeValues]
  · rw [RowCodec.get?_encode_of_not_mem hk] at hget
    exact h k v hget

theorem strip_decoded {out : Row} (hnodup : (row.map Prod.fst).Nodup)
    (h : row.strip = row) (hdecoded : Decoded row out) : out.strip = out := by
  rw [strip_eq_self_iff hnodup] at h
  rw [strip_eq_self_iff (by rwa [hdecoded.keys])]
  intro k v hget
  by_cases hk : k ∈ contentFields
  · rw [hdecoded.content k hk] at hget
    obtain ⟨u, hu, rfl⟩ := Option.map_eq_some_iff.mp hget
    exact ⟨(h k u hu).1, strip_sortKeys u (h k u hu).2⟩
  · rw [hdecoded.other k hk] at hget
    exact h k v hget

/-! ## The rows on disk -/

theorem map_strip_encodeRows {nonces : Nat → String → Nonce} {rows : List Row}
    (hnodup : ∀ row ∈ rows, (row.map Prod.fst).Nodup) (hclean : ∀ row ∈ rows, row.strip = row) :
    (encodeRows aes codec nonces rows).map Row.strip = encodeRows aes codec nonces rows := by
  refine (List.map_congr_left fun row hrow => ?_).trans (List.map_id _)
  obtain ⟨i, hi, rfl⟩ := List.mem_mapIdx.mp hrow
  have hmem := List.getElem_mem hi
  rw [hclean _ hmem]
  exact strip_encode (hnodup _ hmem) (hclean _ hmem)

theorem models_replaceEncoded {nonces : Nat → String → Nonce} {log : Log} {rows : List Row}
    {now : Int} (hnodup : ∀ row ∈ rows, (row.map Prod.fst).Nodup)
    (hclean : ∀ row ∈ rows, row.strip = row) :
    Models (replaceEncoded aes codec cfg nonces log rows now)
      (encodeRows aes codec nonces rows) := by
  have hstrip := @map_strip_encodeRows aes codec nonces rows hnodup hclean
  have heq : replaceEncoded aes codec cfg nonces log rows now =
      log.replaceDicts cfg (encodeRows aes codec nonces rows) now := by
    rw [replaceEncoded, Log.replaceDicts, hstrip]
  have hmodels := @Models.replaceDicts log cfg now
    (encodeRows aes codec nonces rows)
  rwa [hstrip, ← heq] at hmodels

theorem iterDecoded_fst {log : Log} {rows : List Row} {now : Int} (h : Models log rows) :
    (iterDecoded aes readFloat codec cfg log now).1 =
      rows.mapM fun row => (codec.decode aes readFloat row).map Row.strip := by
  have hpaths : ((log.flushDirtyIndexes cfg now).segmentPaths now).1.flatMap
      ((log.flushDirtyIndexes cfg now).segmentPaths now).2.directory.rows = rows := by
    rw [Log.segmentPaths_fst,
      Log.listedPaths_of_reads h.rooted (Log.reads_flushDirtyIndexes log cfg now)]
    simp [(Log.listedPaths_of_follows h.tracks).2, h.content]
  rw [iterDecoded]
  simp only [hpaths]

/-! ## Decoding what was encoded -/

theorem get?_stripFields {k : String} (hk : k ∉ secretRuntimeKeys) :
    PyDict.get? (stripFields row) k = (row.get? k).map stripSecretRuntimeValues := by
  induction row with
  | nil => rfl
  | cons i rest ih =>
    obtain ⟨j, v⟩ := i
    rw [stripFields]
    split
    · next hj =>
      have hne := ne_of_mem_of_not_mem hj hk
      rw [ih]
      simp [PyDict.get?, hne]
    · by_cases hj : j = k
      · simp [PyDict.get?, hj]
      · simpa [PyDict.get?, hj] using ih

theorem eq_str_of_strip {v : Json} {s : String} (h : stripSecretRuntimeValues v = .str s) :
    v = .str s := by
  cases v <;> simp_all [stripSecretRuntimeValues]

theorem contentFields_not_secret : ∀ field ∈ contentFields, field ∉ secretRuntimeKeys := by decide

theorem mapM_decode_encodeRows {nonces : Nat → String → Nonce} {rows : List Row}
    (hrows : ∀ row ∈ rows, (Json.obj row).WellFormed readFloat ∧ row.strip = row ∧ Unmarked row) :
    ∃ outs, (encodeRows aes codec nonces rows).mapM
        (fun row => (codec.decode aes readFloat row).map Row.strip) = .ok outs ∧
      (∀ out ∈ outs, out.strip = out) ∧
      List.Forall₂ (fun out row => Row.pyEq out row) outs rows := by
  induction rows generalizing nonces with
  | nil => exact ⟨[], rfl, by simp, .nil⟩
  | cons row rows ih =>
    obtain ⟨⟨hformed, hclean, hmark⟩, hrows⟩ := List.forall_mem_cons.mp hrows
    obtain ⟨out, hout, hdecoded⟩ :=
      @RowCodec.decode_encode aes readFloat codec (nonces 0) row hformed hmark
    obtain ⟨outs, houts, hcleared, hall⟩ := @ih (fun i => nonces (i + 1)) hrows
    have hstrip := strip_decoded hformed.1 hclean hdecoded
    refine ⟨out :: outs, ?_, List.forall_mem_cons.mpr ⟨hstrip, hcleared⟩,
      .cons (hdecoded.pyEq hformed) hall⟩
    have hcons : encodeRows aes codec nonces (row :: rows) =
        codec.encode aes (nonces 0) row ::
          encodeRows aes codec (fun i => nonces (i + 1)) rows := by
      rw [encodeRows, List.mapIdx_cons, hclean]
      rfl
    rw [hcons, List.mapM_cons, hout, houts]
    simp [Except.map, hstrip, bind, Except.bind, pure, Except.pure]

/-- When all rows come back, none had a mark. -/
theorem unmarked_of_mapM {nonces : Nat → String → Nonce} {rows outs : List Row}
    (hclean : ∀ row ∈ rows, row.strip = row)
    (h : (encodeRows aes codec nonces rows).mapM
      (fun row => (codec.decode aes readFloat row).map Row.strip) = .ok outs)
    (hall : List.Forall₂ (fun out row => Row.pyEq out row) (outs.map Row.strip) rows) :
    ∀ row ∈ rows, Unmarked row := by
  induction rows generalizing nonces outs with
  | nil => simp
  | cons row rows ih =>
    obtain ⟨hrow, hclean⟩ := List.forall_mem_cons.mp hclean
    have hcons : encodeRows aes codec nonces (row :: rows) =
        codec.encode aes (nonces 0) row ::
          encodeRows aes codec (fun i => nonces (i + 1)) rows := by
      rw [encodeRows, List.mapIdx_cons, hrow]
      rfl
    rw [hcons, List.mapM_cons] at h
    cases hout : codec.decode aes readFloat (codec.encode aes (nonces 0) row) with
    | error e => simp [hout, Except.map, bind, Except.bind] at h
    | ok out =>
      cases houts : (encodeRows aes codec (fun i => nonces (i + 1)) rows).mapM
          (fun row => (codec.decode aes readFloat row).map Row.strip) with
      | error e =>
        simp only [hout, houts] at h
        simp [Except.map, bind, Except.bind] at h
      | ok rest =>
        simp only [hout, houts] at h
        obtain rfl : out.strip :: rest = outs := Except.ok.inj h
        rw [List.map_cons, Row.strip_strip] at hall
        obtain ⟨hpyEq, hall⟩ := List.forall₂_cons.mp hall
        refine List.forall_mem_cons.mpr ⟨?_, ih hclean houts hall⟩
        refine RowCodec.unmarked_of_decode_encode hout fun field hfield s w hs hw => ?_
        have hget : out.strip.get? field = some (stripSecretRuntimeValues w) := by
          rw [Row.strip, get?_stripFields (contentFields_not_secret field hfield), hw,
            Option.map_some]
        obtain ⟨u, hu, heq⟩ := get?_of_pyEq hpyEq hget
        obtain rfl : .str s = u := Option.some.inj (hs.symm.trans hu)
        exact eq_str_of_strip (eq_str_of_pyEq heq)

/-! ## Logs -/

variable (aes readFloat codec cfg) in
/-- `decrypt_log` after `encrypt_log` succeeds, and the log reads as before. -/
def Restored (nonces : Nat → String → Nonce) (log : Log) (read encrypt decrypt reread : Int) :
    Prop :=
  ∃ n log', decryptLog aes readFloat codec cfg
      (encryptLog aes codec cfg nonces log encrypt).2 decrypt = (.ok n, log') ∧
    List.Forall₂ (fun out row => Row.pyEq out row) (log'.iterRows cfg reread).1
      (log.iterRows cfg read).1

variable {nonces : Nat → String → Nonce} {log : Log} {read encrypt decrypt reread : Int}

theorem iterRows_clean (hroot : log.Rooted) :
    ∀ row ∈ (log.iterRows cfg read).1, row.strip = row := by
  rw [Log.iterRows_fst hroot]
  exact Models.clean_map_strip _

theorem iterRows_of_not_segmented (hroot : log.Rooted) (h : log.isSegmented = false) :
    (log.iterRows cfg read).1 = [] := by
  have hdir : log.isDir = false := by
    rw [Log.isSegmented, Bool.or_eq_false_iff] at h
    exact h.2
  have hhas : ∀ n, log.directory.has n = false := by
    intro n
    by_contra hn
    have := hroot n (by simpa using hn)
    simp [hdir] at this
  have hpaths : log.listedPaths = [] := by
    simp [Log.listedPaths, hdir, hhas]
  rw [Log.iterRows_fst hroot, hpaths]
  rfl

theorem decryptLog_encryptLog (hroot : log.Rooted) (hseg : log.isSegmented)
    (hnodup : ∀ row ∈ (log.iterRows cfg encrypt).1, (row.map Prod.fst).Nodup) :
    ∃ middle, decryptLog aes readFloat codec cfg
        (encryptLog aes codec cfg nonces log encrypt).2 decrypt =
      match (encodeRows aes codec nonces (log.iterRows cfg encrypt).1).mapM
          fun row => (codec.decode aes readFloat row).map Row.strip with
      | .ok rows => (.ok rows.length, middle.replaceDicts cfg rows decrypt)
      | .error e => (.error e, middle) := by
  have hmodels := @models_replaceEncoded aes codec cfg nonces (log.iterRows cfg encrypt).2
    (log.iterRows cfg encrypt).1 encrypt hnodup (iterRows_clean hroot)
  have hdecoded := @iterDecoded_fst aes readFloat codec cfg _ _ decrypt hmodels
  have hsegmented : (replaceEncoded aes codec cfg nonces (log.iterRows cfg encrypt).2
      (log.iterRows cfg encrypt).1 encrypt).isSegmented := by
    simp [Log.isSegmented, replaceEncoded, Log.rememberIndex]
  refine ⟨(iterDecoded aes readFloat codec cfg (replaceEncoded aes codec cfg nonces
    (log.iterRows cfg encrypt).2 (log.iterRows cfg encrypt).1 encrypt) decrypt).2, ?_⟩
  rw [encryptLog, if_neg (by simp [hseg])]
  simp only [decryptLog, hsegmented, Bool.not_true, Bool.false_eq_true, if_false]
  rw [← hdecoded]
  rcases iterDecoded aes readFloat codec cfg _ decrypt with ⟨rows | e, after⟩ <;> rfl

/-- A log is restored exactly when no content field of its rows starts like an envelope. -/
theorem restored_iff (hroot : log.Rooted)
    (hrows : ∀ row ∈ (log.iterRows cfg read).1, (Json.obj row).WellFormed readFloat) :
    Restored aes readFloat codec cfg nonces log read encrypt decrypt reread ↔
      ∀ row ∈ (log.iterRows cfg read).1, Unmarked row := by
  have hread : (log.iterRows cfg read).1 = (log.iterRows cfg encrypt).1 := by
    rw [Log.iterRows_fst hroot, Log.iterRows_fst hroot]
  unfold Restored
  rw [hread] at hrows ⊢
  cases hseg : log.isSegmented with
  | false =>
    have hempty : (log.iterRows cfg encrypt).1 = [] := iterRows_of_not_segmented hroot hseg
    have hreread : (log.iterRows cfg reread).1 = [] := iterRows_of_not_segmented hroot hseg
    rw [hempty]
    refine ⟨fun _ => by simp, fun _ => ⟨0, log, ?_, ?_⟩⟩
    · simp [decryptLog, encryptLog, hseg]
    · rw [hreread]
      exact .nil
  | true =>
    have hclean := @iterRows_clean cfg log encrypt hroot
    obtain ⟨middle, hmiddle⟩ := @decryptLog_encryptLog aes readFloat codec cfg nonces log encrypt
      decrypt hroot hseg fun row hrow => (hrows row hrow).1
    rw [hmiddle]
    constructor
    · rintro ⟨n, log', heq, hall⟩
      split at heq
      · next rows hdecode =>
        obtain ⟨-, rfl⟩ := Prod.mk.inj heq
        rw [(Models.replaceDicts rows).iterRows] at hall
        exact unmarked_of_mapM hclean hdecode hall
      · simp at heq
    · intro hmark
      obtain ⟨outs, hdecode, hcleared, hall⟩ := @mapM_decode_encodeRows aes readFloat codec nonces
        _ fun row hrow => ⟨hrows row hrow, hclean row hrow, hmark row hrow⟩
      refine ⟨outs.length, middle.replaceDicts cfg outs decrypt, by rw [hdecode], ?_⟩
      rw [(Models.replaceDicts outs).iterRows, List.map_congr_left hcleared, List.map_id']
      exact hall

/-- Encryption at rest: a row survives encoding and decoding, with every content field hidden in
between, exactly when no content field of it starts like an envelope, and a log survives
`encrypt_log` and `decrypt_log` exactly when this holds of all its rows. -/
theorem encryption_round_trips (aes : AesGcm)
    (readFloat : List Char → Option (FloatText × Int × Nat)) (codec : RowCodec) :
    (∀ (nonces : String → Nonce) (row : Row), (Json.obj row).WellFormed readFloat →
      (RowCodec.RoundTrips aes readFloat codec nonces row ↔ Unmarked row)) ∧
    ∀ (cfg : Config) (nonces : Nat → String → Nonce) (log : Log)
      (read encrypt decrypt reread : Int), log.Rooted →
      (∀ row ∈ (log.iterRows cfg read).1, (Json.obj row).WellFormed readFloat) →
      (Restored aes readFloat codec cfg nonces log read encrypt decrypt reread ↔
        ∀ row ∈ (log.iterRows cfg read).1, Unmarked row) :=
  ⟨fun _ _ hrow => RowCodec.roundTrips_iff hrow, fun _ _ _ _ _ _ _ hroot hrows =>
    restored_iff hroot hrows⟩

/-! ## A small setting -/

/-- A cipher that appends a tag of sixteen bytes. -/
def taggingAes : AesGcm where
  encrypt _ _ raw _ := raw ++ List.replicate 16 0
  decrypt _ _ ct _ := if 16 ≤ ct.length then some (ct.take (ct.length - 16)) else none
  decrypt_encrypt := by simp
  length_decrypt := by
    intro _ _ ct _ raw h
    split at h
    · obtain rfl := Option.some.inj h
      exact List.length_take_le' _ _
    · contradiction

def sampleCodec : RowCodec := ⟨List.replicate 32 7, by decide⟩

def sampleNonce : Nonce := ⟨List.replicate 12 1, by decide⟩

def sampleRow : Row := [("role", .str "user"), ("content", .str "hi")]

theorem encryption_round_trips_sampleRow :
    RowCodec.RoundTrips taggingAes (fun _ => none) sampleCodec (fun _ => sampleNonce) sampleRow ∧
      Restored taggingAes (fun _ => none) sampleCodec oneRowConfig (fun _ _ => sampleNonce)
        (Log.initial.appendDicts oneRowConfig [sampleRow] 0) 1 2 3 4 := by
  have hformed : (Json.obj sampleRow).WellFormed (fun _ => none) :=
    ⟨by decide, trivial, trivial, trivial⟩
  have hmark : Unmarked sampleRow := by
    intro field hfield v hv
    fin_cases hfield
    · obtain rfl : .str "hi" = v := Option.some.inj hv
      decide
    · exact absurd hv (by simp [sampleRow, PyDict.get?])
  obtain ⟨hrow, hlog⟩ := encryption_round_trips taggingAes (fun _ => none) sampleCodec
  have hmodels := @Models.appendDicts .initial oneRowConfig [] 0 .initial [sampleRow]
  have hread : (((Log.initial.appendDicts oneRowConfig [sampleRow] 0).iterRows oneRowConfig 1).1) =
      [sampleRow] := hmodels.iterRows
  refine ⟨(hrow _ _ hformed).mpr hmark, (hlog _ _ _ _ _ _ _ hmodels.rooted ?_).mpr ?_⟩
  · rw [hread]
    simpa using hformed
  · rw [hread]
    simpa using hmark

/-- A message that quotes the mark is stored in clear, and reading it back raises. -/
theorem quoted_mark_lost :
    sampleCodec.encode taggingAes (fun _ => sampleNonce) [("content", .str "enc:cv1:hello")] =
        [("content", .str "enc:cv1:hello")] ∧
      sampleCodec.decode taggingAes (fun _ => none)
          (sampleCodec.encode taggingAes (fun _ => sampleNonce)
            [("content", .str "enc:cv1:hello")]) = .error .malformedEnvelope :=
  ⟨rfl, rfl⟩

end PawFlow.Cipher
