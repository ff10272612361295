import PawFlow.Expression.Noninterference
import PawFlow.Lib.Bytes

/-!
# Escaped expressions

`\${…}` stands for the text `${…}`. The pass over a template hides it in a token that the later
passes have nothing to resolve in, and the outermost call puts the text back.
-/

namespace PawFlow.Expression

open PawFlow.Lib

/-! ## The tokens -/

/-- `base64.urlsafe_b64encode` writes two characters of the alphabet differently. -/
def toUrlsafe (c : Char) : Char := if c = '+' then '-' else if c = '/' then '_' else c

def ofUrlsafe (c : Char) : Char := if c = '-' then '+' else if c = '_' then '/' else c

/-- `base64.urlsafe_b64encode(t.encode("utf-8")).decode("ascii")`. -/
def urlsafeEncode (t : Text) : Text := (b64encode (encodeUtf8 (.ofList t))).map toUrlsafe

/-- `base64.urlsafe_b64decode(s.encode("ascii")).decode("utf-8")`, `none` where it raises. -/
def urlsafeDecode (s : Text) : Option Text :=
  ((b64decode (s.map ofUrlsafe)).bind decodeUtf8).map String.toList

/-- The library encodes as documented. -/
structure UrlsafeBase64 (py : Python) : Prop where
  encode : py.urlsafeB64encode = urlsafeEncode
  decode : py.urlsafeB64decode = urlsafeDecode

theorem symbol_urlsafe : ∀ n < 64, isTokenChar (toUrlsafe (symbol n)) = true ∧
    ofUrlsafe (toUrlsafe (symbol n)) = symbol n := by
  have halphabet : alphabet = _ := String.toList_ofList
  simp only [symbol, halphabet]
  decide +kernel

theorem isTokenChar_urlsafeEncode (t : Text) : ∀ c ∈ urlsafeEncode t, isTokenChar c := by
  intro c hc
  obtain ⟨d, hd, rfl⟩ := List.mem_map.mp hc
  exact forall_mem_b64encode (P := fun d => isTokenChar (toUrlsafe d))
    (fun n hn => (symbol_urlsafe n hn).1) (by decide) _ d hd

theorem urlsafeDecode_urlsafeEncode (t : Text) : urlsafeDecode (urlsafeEncode t) = some t := by
  have hback : ∀ c ∈ b64encode (encodeUtf8 (.ofList t)), ofUrlsafe (toUrlsafe c) = c :=
    forall_mem_b64encode (fun n hn => (symbol_urlsafe n hn).2) (by decide) _
  have hmap : (urlsafeEncode t).map ofUrlsafe = b64encode (encodeUtf8 (.ofList t)) := by
    rw [urlsafeEncode, List.map_map]
    exact (List.map_congr_left hback).trans (List.map_id _)
  rw [urlsafeDecode, hmap, b64decode_b64encode, Option.bind_some, decodeUtf8_encodeUtf8,
    Option.map_some, String.toList_ofList]

/-! ## What a template is made of -/

/-- The text of an expression, braces included. -/
def span (inner : Text) : Text := opening ++ inner ++ ['}']

/-- A part of a result: text, or what an escape protects. -/
inductive Part
  | text (t : Text)
  | escaped (inner : Text)
deriving DecidableEq

/-- What a part stands for. -/
def Part.literal : Part → Text
  | .text t => t
  | .escaped inner => span inner

/-- A part while the passes run. -/
def Part.hidden : Part → Text
  | .text t => t
  | .escaped inner => escOpen ++ urlsafeEncode (span inner) ++ escClose

/-- The text between the escapes. -/
def gaps (current : Text) : List Part → List Text
  | [] => [current]
  | .text t :: parts => gaps (current ++ t) parts
  | .escaped _ :: parts => current :: gaps [] parts

/-- The part that a piece of the template becomes. -/
def Piece.value (replacer : Text → Eval Text) : Piece → Eval Part
  | .char c => return .text [c]
  | .expr inner => return .text (← replacer inner)
  | .escaped inner => return .escaped inner

/-- The parts of the pieces, from left to right. -/
def values (replacer : Text → Eval Text) : List Piece → Eval (List Part)
  | [] => return []
  | piece :: pieces => do
    let part ← piece.value replacer
    return part :: (← values replacer pieces)

/-- The replacer of a call. -/
def replacer (env : Env) (includeSecrets : Bool) (inner : Text) : Eval Text :=
  replacerCore env includeSecrets inner.length inner

/-- Plain text and the outermost expressions of a text; `none` where one is not closed. -/
def outermost : (skip : Nat) → Text → Option (List Piece)
  | _, [] => some []
  | skip + 1, _ :: cs => outermost skip cs
  | 0, '$' :: '{' :: cs =>
    (untilClosing '{' 1 cs).bind fun inner =>
      (outermost (inner.length + 2) ('{' :: cs)).map (.expr inner :: ·)
  | 0, c :: cs => (outermost 0 cs).map (.char c :: ·)

def Piece.escape : Piece → Text
  | .char c => [c]
  | .expr inner => '\\' :: span inner
  | .escaped inner => '\\' :: span inner

/-! ## Decoding -/

section

variable {py : Python} {a b t rest : Text}

theorem decodeEscapes_skip (xs ys : Text) :
    decodeEscapes py xs.length (xs ++ ys) = decodeEscapes py 0 ys := by
  induction xs with
  | nil => rfl
  | cons c xs ih =>
    rw [List.length_cons, List.cons_append, decodeEscapes]
    exact ih

variable {payload : Text} {parts : List Part}

theorem tokenAt_payload (h : ∀ c ∈ payload, isTokenChar c) (rest : Text) :
    tokenAt (escOpen ++ payload ++ escClose ++ rest) = some payload := by
  have hrest : (escOpen ++ payload ++ escClose ++ rest).drop escOpen.length =
      payload ++ (escClose ++ rest) := by
    rw [List.append_assoc, List.append_assoc, List.drop_left]
  have hclose : escClose = ']' :: "pf-esc\x00".toList := rfl
  have hbracket : isTokenChar ']' = false := by decide
  have htake : (payload ++ (escClose ++ rest)).takeWhile isTokenChar = payload := by
    rw [List.takeWhile_append_of_pos h, hclose, List.cons_append, List.takeWhile_cons_of_neg]
    · rw [List.append_nil]
    · simp [hbracket]
  have hdrop : (payload ++ (escClose ++ rest)).dropWhile isTokenChar = escClose ++ rest := by
    rw [List.dropWhile_append_of_pos h, hclose, List.cons_append, List.dropWhile_cons_of_neg]
    simp [hbracket]
  have hopen : escOpen.isPrefixOf (escOpen ++ payload ++ escClose ++ rest) = true := by
    rw [List.isPrefixOf_iff_prefix, List.append_assoc, List.append_assoc]
    exact List.prefix_append _ _
  have hend : escClose.isPrefixOf (escClose ++ rest) = true := by
    rw [List.isPrefixOf_iff_prefix]
    exact List.prefix_append _ _
  unfold tokenAt
  simp only [hrest, htake, hdrop]
  rw [if_pos ⟨hopen, hend⟩]

theorem decodeEscapes_token {original : Text} (h : ∀ c ∈ payload, isTokenChar c)
    (hdecode : py.urlsafeB64decode payload = some original) (rest : Text) :
    decodeEscapes py 0 (escOpen ++ payload ++ escClose ++ rest) =
      original ++ decodeEscapes py 0 rest := by
  have htoken := tokenAt_payload h rest
  have hopen : escOpen = '\x00' :: "pf-esc[".toList := rfl
  have hcons : escOpen ++ payload ++ escClose ++ rest =
      '\x00' :: (("pf-esc[".toList ++ payload ++ escClose) ++ rest) := by
    rw [hopen, List.cons_append, List.cons_append, List.cons_append]
  have hlength : escOpen.length + payload.length + escClose.length - 1 =
      ("pf-esc[".toList ++ payload ++ escClose).length := by
    rw [hopen, List.length_append, List.length_append, List.length_cons]
    omega
  rw [hcons] at htoken ⊢
  rw [decodeEscapes, htoken]
  simp only
  rw [hdecode, Option.getD_some, hlength, decodeEscapes_skip]

theorem decodeEscapes_hidden (hpy : UrlsafeBase64 py) (inner rest : Text) :
    decodeEscapes py 0 ((Part.escaped inner).hidden ++ rest) =
      span inner ++ decodeEscapes py 0 rest := by
  refine decodeEscapes_token (isTokenChar_urlsafeEncode (span inner)) ?_ rest
  rw [hpy.decode, urlsafeDecode_urlsafeEncode]

theorem hidden_head (inner rest : Text) :
    ∀ c ∈ ((Part.escaped inner).hidden ++ rest).head?, c = '\x00' := by
  have hopen : escOpen = '\x00' :: "pf-esc[".toList := rfl
  intro c hc
  rw [Part.hidden, hopen, List.cons_append, List.cons_append, List.cons_append] at hc
  exact (Option.some.inj hc).symm

/-- Text without the start of a token is left alone up to the end or the next token. -/
theorem decodeEscapes_text (ht : ¬ occursIn escOpen t) (hrest : ∀ c ∈ rest.head?, c = '\x00') :
    decodeEscapes py 0 (t ++ rest) = t ++ decodeEscapes py 0 rest := by
  induction t with
  | nil => rfl
  | cons c t ih =>
    rw [occursIn_iff] at ht
    have htail : ¬ occursIn escOpen t := by
      rw [occursIn_iff]
      exact fun hwithin => ht (hwithin.trans (List.suffix_cons c t).isInfix)
    have htoken : tokenAt (c :: (t ++ rest)) = none := by
      unfold tokenAt
      simp only
      rw [if_neg]
      rintro ⟨hopen, -⟩
      rw [List.isPrefixOf_iff_prefix, ← List.cons_append] at hopen
      rcases isPrefix_append_cases hopen with hin | ⟨q, hq, hqrest⟩
      · exact ht hin.isInfix
      · -- only the first character of the marker is a zero
        cases q with
        | nil => exact ht (by rw [hq, List.append_nil])
        | cons d q =>
          have hd : d = '\x00' := hrest d (by
            obtain ⟨w, hw⟩ := hqrest
            rw [← hw]
            rfl)
          obtain ⟨-, htail'⟩ := List.cons.inj (show '\x00' :: "pf-esc[".toList = _ from hq)
          have hmem : '\x00' ∈ "pf-esc[".toList := by
            rw [htail', hd]
            simp
          exact absurd hmem (by decide)
    rw [List.cons_append, decodeEscapes, htoken]
    simp only
    rw [ih htail, List.cons_append]

theorem decodeEscapes_parts (hpy : UrlsafeBase64 py) (parts : List Part) (current : Text)
    (h : ∀ gap ∈ gaps current parts, ¬ occursIn escOpen gap) :
    decodeEscapes py 0 (current ++ parts.flatMap Part.hidden) =
      current ++ parts.flatMap Part.literal := by
  induction parts generalizing current with
  | nil =>
    have hgap := h current (by simp [gaps])
    have htext := @decodeEscapes_text py _ [] hgap (by simp)
    simpa [decodeEscapes] using htext
  | cons part parts ih =>
    cases part with
    | text t =>
      have hparts := ih (current ++ t) h
      simpa [Part.hidden, Part.literal] using hparts
    | escaped inner =>
      have hgap := h current (by simp [gaps])
      have hparts := ih [] fun gap hmem => h gap (List.mem_cons_of_mem current hmem)
      rw [List.nil_append, List.nil_append] at hparts
      rw [List.flatMap_cons, List.flatMap_cons, decodeEscapes_text hgap, decodeEscapes_hidden hpy,
        hparts]
      · rfl
      · exact hidden_head inner _

/-! ## No expression is left -/

theorem occursIn_opening : occursIn opening t ↔ ∃ u v, t = u ++ '$' :: '{' :: v := by
  rw [occursIn_iff]
  constructor
  · rintro ⟨u, v, rfl⟩
    exact ⟨u, v, by simp [opening]⟩
  · rintro ⟨u, v, rfl⟩
    exact ⟨u, v, by simp [opening]⟩

theorem not_opening_append (ha : ¬ occursIn opening a) (hb : ¬ occursIn opening b)
    (hmeet : a.getLast? = some '$' → b.head? ≠ some '{') : ¬ occursIn opening (a ++ b) := by
  rw [occursIn_opening] at ha hb ⊢
  rintro ⟨u, v, huv⟩
  rcases List.append_eq_append_iff.mp huv with ⟨w, rfl, hw⟩ | ⟨w, rfl, hw⟩
  · exact hb ⟨w, v, hw⟩
  · rcases w with - | ⟨d, - | ⟨e, w⟩⟩
    · exact hb ⟨[], v, hw.symm⟩
    · obtain ⟨rfl, hb'⟩ := List.cons.inj hw
      have hhead : b = '{' :: v := hb'.symm
      exact hmeet (by simp) (by rw [hhead]; rfl)
    · obtain ⟨rfl, hw'⟩ := List.cons.inj hw
      obtain ⟨rfl, -⟩ := List.cons.inj hw'
      exact ha ⟨u, w, rfl⟩

theorem not_opening_hidden (inner : Text) : ¬ occursIn opening (Part.escaped inner).hidden := by
  rw [occursIn_opening]
  rintro ⟨u, v, huv⟩
  have hmem : '$' ∈ (Part.escaped inner).hidden := by
    rw [huv]
    simp
  rcases List.mem_append.mp hmem with hmem | hmem
  · rcases List.mem_append.mp hmem with hmem | hmem
    · exact absurd hmem (by decide)
    · exact absurd (isTokenChar_urlsafeEncode _ _ hmem) (by decide)
  · exact absurd hmem (by decide)

theorem not_opening_parts (parts : List Part) (current : Text)
    (h : ∀ gap ∈ gaps current parts, ¬ occursIn opening gap) :
    ¬ occursIn opening (current ++ parts.flatMap Part.hidden) := by
  induction parts generalizing current with
  | nil => simpa using h current (by simp [gaps])
  | cons part parts ih =>
    cases part with
    | text t =>
      have hparts := ih (current ++ t) h
      simpa [Part.hidden] using hparts
    | escaped inner =>
      have hgap := h current (by simp [gaps])
      have hparts := ih [] fun gap hmem => h gap (List.mem_cons_of_mem current hmem)
      rw [List.nil_append] at hparts
      rw [List.flatMap_cons]
      refine not_opening_append hgap (not_opening_append (not_opening_hidden inner) hparts ?_) ?_
      · intro hlast
        have hclose : (Part.escaped inner).hidden =
            (escOpen ++ urlsafeEncode (span inner) ++ "]pf-esc".toList) ++ ['\x00'] := by
          rw [Part.hidden, List.append_assoc _ "]pf-esc".toList]
          rfl
        rw [hclose, List.getLast?_concat] at hlast
        exact absurd hlast (by decide)
      · intro _ hhead
        exact absurd (hidden_head inner _ _ hhead) (by decide)

theorem scan_plain (ht : ¬ occursIn opening t) : scan 0 t = t.map Piece.char := by
  induction t with
  | nil => rfl
  | cons c t ih =>
    have htail : ¬ occursIn opening t := by
      rw [occursIn_opening] at ht ⊢
      rintro ⟨u, v, rfl⟩
      exact ht ⟨c :: u, v, rfl⟩
    rw [occursIn_opening] at ht
    rw [scan, ih htail, List.map_cons]
    · rintro cs rfl rfl
      exact ht ⟨['\\'], cs, rfl⟩
    · rintro cs rfl rfl
      exact ht ⟨[], cs, rfl⟩

/-! ## The run of a call -/

variable {env : Env} {includeSecrets : Bool}

variable {α : Type}

theorem run_bind {β : Type} (x : Eval α) (f : α → Eval β) (n : Nat) :
    (x >>= f).run.run n = match x.run.run n with
      | (.ok a, m) => (f a).run.run m
      | (.error e, m) => (.error e, m) := by
  have hrun : (x >>= f).run.run n = (ExceptT.bindCont f (x.run.run n).1).run (x.run.run n).2 := rfl
  rw [hrun]
  rcases x.run.run n with ⟨a | e, m⟩
  · rfl
  · rfl

theorem run_pure (a : α) (n : Nat) : (pure a : Eval α).run.run n = (.ok a, n) := rfl

variable {m n : Nat}

theorem run_bind_eq_ok {β : Type} {x : Eval α} {f : α → Eval β} {b : β}
    (h : (x >>= f).run.run n = (.ok b, m)) :
    ∃ a k, x.run.run n = (.ok a, k) ∧ (f a).run.run k = (.ok b, m) := by
  rw [run_bind] at h
  rcases hx : x.run.run n with ⟨e | a, k⟩
  · rw [hx] at h
    exact absurd (Prod.mk.inj h).1 (by simp)
  · rw [hx] at h
    exact ⟨a, k, rfl, h⟩

/-- The pass puts the parts together. -/
theorem assemble_values (hpy : UrlsafeBase64 py) {replacer : Text → Eval Text}
    {pieces : List Piece}
    (h : (values replacer pieces).run.run n = (.ok parts, m)) :
    (assemble py replacer pieces).run.run n = (.ok (parts.flatMap Part.hidden), m) := by
  induction pieces generalizing parts n with
  | nil =>
    rw [values, run_pure] at h
    obtain ⟨hparts, rfl⟩ := Prod.mk.inj h
    obtain rfl := Except.ok.inj hparts
    rfl
  | cons piece pieces ih =>
    rw [values] at h
    obtain ⟨part, k, hpart, h⟩ := run_bind_eq_ok h
    obtain ⟨rest, k', hrest, h⟩ := run_bind_eq_ok h
    rw [run_pure] at h
    obtain ⟨hparts, rfl⟩ := Prod.mk.inj h
    obtain rfl := Except.ok.inj hparts
    have hpiece : (replacement py replacer piece).run.run n = (.ok part.hidden, k) := by
      cases piece with
      | char c =>
        obtain ⟨hok, rfl⟩ := Prod.mk.inj hpart
        obtain rfl := Except.ok.inj hok
        rfl
      | expr inner =>
        obtain ⟨text, k'', htext, hok⟩ := run_bind_eq_ok hpart
        rw [run_pure] at hok
        obtain ⟨hpart', rfl⟩ := Prod.mk.inj hok
        obtain rfl := Except.ok.inj hpart'
        exact htext
      | escaped inner =>
        obtain ⟨hok, rfl⟩ := Prod.mk.inj hpart
        obtain rfl := Except.ok.inj hok
        rw [replacement, hpy.encode]
        rfl
    rw [assemble, run_bind, hpiece]
    simp only
    rw [run_bind, ih hrest]
    rfl

theorem values_plain (replacer : Text → Eval Text) (n : Nat) :
    (values replacer (t.map Piece.char)).run.run n = (.ok (t.map fun c => .text [c]), n) := by
  induction t with
  | nil => rfl
  | cons c t ih =>
    rw [List.map_cons, values, run_bind]
    change ((values replacer (t.map Piece.char)) >>= fun rest => _).run.run n = _
    rw [run_bind, ih]
    rfl

theorem literal_plain : (t.map fun c => Part.text [c]).flatMap Part.literal = t := by
  induction t with
  | nil => rfl
  | cons c t ih =>
    rw [List.map_cons, List.flatMap_cons, ih]
    rfl

/-- **Templates.** Where the text between the escapes, values included, holds neither an expression
nor the start of a token, the result is that text with the protected expressions in it. -/
theorem resolve_template (hpy : UrlsafeBase64 env.py) {template : Text}
    (hvalues : (values (replacer env includeSecrets) (scan 0 template)).run.run n = (.ok parts, m))
    (hgaps : ∀ gap ∈ gaps [] parts, ¬ occursIn opening gap ∧ ¬ occursIn escOpen gap) :
    (resolveExpression env includeSecrets template).run.run n =
      (.ok (parts.flatMap Part.literal), m) := by
  have hnoopening := not_opening_parts parts [] fun gap hmem => (hgaps gap hmem).1
  have hdecode := decodeEscapes_parts hpy parts [] fun gap hmem => (hgaps gap hmem).2
  rw [List.nil_append] at hnoopening
  rw [List.nil_append, List.nil_append] at hdecode
  unfold resolveExpression
  by_cases hopening : occursIn opening template
  · have hpass : (resolvePass env includeSecrets 11 template).run.run n =
        (.ok (parts.flatMap Part.hidden), m) := by
      have hassemble : (substituteExpressions env.py (fun inner => replacerCore env includeSecrets
          inner.length inner) template).run.run n = (.ok (parts.flatMap Part.hidden), m) :=
        assemble_values hpy hvalues
      unfold resolvePass
      rw [if_neg (not_not.mpr hopening), run_bind, hassemble]
      simp only
      rw [if_neg fun h => hnoopening h.1, run_pure]
    rw [if_neg (not_not.mpr hopening), run_bind, hpass]
    simp only
    split
    · rw [run_pure, hdecode]
    · next hnone =>
      have htext := @decodeEscapes_text env.py _ [] hnone (by simp)
      rw [List.append_nil, decodeEscapes, List.append_nil] at htext
      rw [run_pure, ← hdecode, htext]
  · rw [if_pos hopening, run_pure]
    rw [scan_plain hopening, values_plain] at hvalues
    obtain ⟨hparts, rfl⟩ := Prod.mk.inj hvalues
    obtain rfl := Except.ok.inj hparts
    rw [literal_plain]

/-! ## Escaping every expression -/

/-- What an expression reads up to its brace does not depend on what follows. -/
theorem untilClosing_spec {prev : Char} {depth : Nat} {cs inner : Text}
    (h : untilClosing prev depth cs = some inner) :
    (∃ rest, cs = inner ++ '}' :: rest) ∧
      ∀ rest, untilClosing prev depth (inner ++ '}' :: rest) = some inner := by
  induction cs generalizing prev depth inner with
  | nil => exact absurd h (by simp [untilClosing])
  | cons c cs ih =>
    have hread : ∀ {depth'}, (untilClosing c depth' cs).map (c :: ·) = some inner →
        (∃ rest, c :: cs = inner ++ '}' :: rest) ∧
          ∃ inner', inner = c :: inner' ∧
            ∀ rest, untilClosing c depth' (inner' ++ '}' :: rest) = some inner' := by
      intro depth' hmap
      obtain ⟨inner', hinner, rfl⟩ := Option.map_eq_some_iff.mp hmap
      obtain ⟨⟨rest, rfl⟩, hall⟩ := ih hinner
      exact ⟨⟨rest, rfl⟩, inner', rfl, hall⟩
    unfold untilClosing at h
    split at h
    · next hopen =>
      obtain ⟨hrest, inner', rfl, hall⟩ := hread h
      refine ⟨hrest, fun rest => ?_⟩
      rw [List.cons_append, untilClosing, if_pos hopen, hall rest]
      rfl
    · next hopen =>
      split at h
      · next hclose =>
        subst hclose
        split at h
        · next hdepth =>
          obtain rfl := Option.some.inj h
          refine ⟨⟨cs, rfl⟩, fun rest => ?_⟩
          rw [List.nil_append, untilClosing, if_neg hopen, if_pos rfl, if_pos hdepth]
        · next hdepth =>
          obtain ⟨hrest, inner', rfl, hall⟩ := hread h
          refine ⟨hrest, fun rest => ?_⟩
          rw [List.cons_append, untilClosing, if_neg hopen, if_pos rfl, if_neg hdepth,
            hall rest]
          rfl
      · next hclose =>
        obtain ⟨hrest, inner', rfl, hall⟩ := hread h
        refine ⟨hrest, fun rest => ?_⟩
        rw [List.cons_append, untilClosing, if_neg hopen, if_neg hclose, hall rest]
        rfl

theorem scan_skip (xs ys : Text) : scan xs.length (xs ++ ys) = scan 0 ys := by
  induction xs with
  | nil => rfl
  | cons c xs ih =>
    rw [List.length_cons, List.cons_append, scan]
    exact ih

theorem outermost_skip (xs ys : Text) : outermost xs.length (xs ++ ys) = outermost 0 ys := by
  induction xs with
  | nil => rfl
  | cons c xs ih =>
    rw [List.length_cons, List.cons_append, outermost]
    exact ih

/-- Text as expressions that are closed and characters that start none. -/
inductive Outermost : Text → List Piece → Prop
  | nil : Outermost [] []
  | char {c : Char} {rest : Text} {pieces : List Piece} : (c = '$' → rest.head? ≠ some '{') →
      Outermost rest pieces → Outermost (c :: rest) (.char c :: pieces)
  | expr {inner rest : Text} {pieces : List Piece} :
      (∀ rest, untilClosing '{' 1 (inner ++ '}' :: rest) = some inner) →
      Outermost rest pieces → Outermost (span inner ++ rest) (.expr inner :: pieces)

theorem outermost_spec {pieces : List Piece} (h : outermost 0 t = some pieces) :
    Outermost t pieces := by
  induction hn : t.length using Nat.strong_induction_on generalizing t pieces with
  | _ n ih =>
    subst hn
    rw [outermost.eq_def] at h
    split at h
    · obtain rfl := Option.some.inj h
      exact .nil
    · next heq => exact absurd heq (by simp)
    · next cs heq =>
      obtain ⟨inner, hinner, h⟩ := Option.bind_eq_some_iff.mp h
      obtain ⟨others, hothers, rfl⟩ := Option.map_eq_some_iff.mp h
      obtain ⟨⟨rest, rfl⟩, hall⟩ := untilClosing_spec hinner
      have hskip : outermost (inner.length + 2) ('{' :: (inner ++ '}' :: rest)) =
          outermost 0 rest := by
        have hread := outermost_skip ('{' :: (inner ++ ['}'])) rest
        simpa using hread
      have hspan : '$' :: '{' :: (inner ++ '}' :: rest) = span inner ++ rest := by
        simp [span, opening]
      rw [hskip] at hothers
      rw [hspan]
      exact .expr hall (ih rest.length (by simp; omega) hothers rfl)
    · next c cs hopen heq =>
      obtain ⟨others, hothers, rfl⟩ := Option.map_eq_some_iff.mp h
      refine .char ?_ (ih cs.length (by simp) hothers rfl)
      rintro rfl hhead
      obtain ⟨tail, rfl⟩ := List.head?_eq_some_iff.mp hhead
      exact hopen tail rfl rfl

def Piece.protect : Piece → Part
  | .char c => .text [c]
  | .expr inner => .escaped inner
  | .escaped inner => .escaped inner

variable {pieces : List Piece}

theorem literal_protect (h : Outermost t pieces) :
    (pieces.map Piece.protect).flatMap Part.literal = t := by
  induction h with
  | nil => rfl
  | char _ _ ih =>
    rw [List.map_cons, List.flatMap_cons, ih]
    rfl
  | expr _ _ ih =>
    rw [List.map_cons, List.flatMap_cons, ih]
    rfl

theorem escape_head (h : Outermost t pieces)
    (hhead : (pieces.flatMap Piece.escape).head? = some '{') : t.head? = some '{' := by
  cases h with
  | nil => exact absurd hhead (by simp)
  | char => exact hhead
  | expr => exact absurd (Option.some.inj hhead) (by decide)

theorem escape_opening (h : Outermost t pieces) (cs : Text) :
    pieces.flatMap Piece.escape ≠ '$' :: '{' :: cs := by
  intro heq
  cases h with
  | nil => exact absurd heq (by simp)
  | char hc hrest =>
    obtain ⟨rfl, htail⟩ := List.cons.inj heq
    exact hc rfl (escape_head hrest (congrArg List.head? htail))
  | expr => exact absurd (List.cons.inj heq).1 (by decide)

theorem values_escaped (h : Outermost t pieces) (replacer : Text → Eval Text) (n : Nat) :
    (values replacer (scan 0 (pieces.flatMap Piece.escape))).run.run n =
      (.ok (pieces.map Piece.protect), n) := by
  induction h with
  | nil => rfl
  | @char c rest pieces hc hrest ih =>
    have hscan : scan 0 (c :: pieces.flatMap Piece.escape) =
        .char c :: scan 0 (pieces.flatMap Piece.escape) := by
      rw [scan]
      · rintro cs rfl hopen
        exact escape_opening hrest cs hopen
      · rintro cs rfl hbrace
        exact hc rfl (escape_head hrest (by rw [hbrace]; rfl))
    rw [List.flatMap_cons, Piece.escape, List.singleton_append, hscan, values, run_bind]
    change ((values replacer _) >>= fun rest => _).run.run n = _
    rw [run_bind, ih]
    rfl
  | @expr inner rest pieces hall hrest ih =>
    have hscan : scan 0 ('\\' :: span inner ++ pieces.flatMap Piece.escape) =
        .escaped inner :: scan 0 (pieces.flatMap Piece.escape) := by
      have hskip := scan_skip ('$' :: '{' :: (inner ++ ['}'])) (pieces.flatMap Piece.escape)
      simp only [span, opening, List.cons_append, List.nil_append, List.append_assoc,
        List.length_cons, List.length_append, List.length_nil] at hskip ⊢
      rw [scan, hall]
      simp only
      rw [hskip]
    rw [List.flatMap_cons, Piece.escape, hscan, values, run_bind]
    change ((values replacer _) >>= fun rest => _).run.run n = _
    rw [run_bind, ih]
    rfl

theorem gaps_within (h : Outermost t pieces) (current : Text) :
    ∀ gap ∈ gaps current (pieces.map Piece.protect), gap <:+: current ++ t := by
  induction h generalizing current with
  | nil => simp [gaps]
  | @char c rest pieces _ _ ih =>
    intro gap hgap
    have hwithin := ih (current ++ [c]) gap hgap
    simpa using hwithin
  | @expr inner rest pieces _ _ ih =>
    intro gap hgap
    rcases List.mem_cons.mp hgap with rfl | hgap
    · exact (List.prefix_append _ _).isInfix
    · have hwithin := ih [] gap hgap
      rw [List.nil_append] at hwithin
      exact hwithin.trans ((List.suffix_append _ _).trans (List.suffix_append _ _)).isInfix

theorem gaps_not_opening (h : Outermost t pieces) (current : Text)
    (hcurrent : ¬ occursIn opening current)
    (hmeet : current.getLast? = some '$' → t.head? ≠ some '{') :
    ∀ gap ∈ gaps current (pieces.map Piece.protect), ¬ occursIn opening gap := by
  induction h generalizing current with
  | nil => simpa [gaps] using hcurrent
  | @char c rest pieces hc _ ih =>
    refine ih (current ++ [c]) (not_opening_append hcurrent ?_ hmeet) ?_
    · simp [occursIn, opening]
    · rw [List.getLast?_concat]
      exact fun hlast => hc (Option.some.inj hlast)
  | @expr inner rest pieces _ _ ih =>
    intro gap hgap
    rcases List.mem_cons.mp hgap with rfl | hgap
    · exact hcurrent
    · exact ih [] (by simp [occursIn, opening]) (by simp) gap hgap

theorem resolve_escaped (hpy : UrlsafeBase64 env.py) (h : outermost 0 t = some pieces)
    (hmarker : ¬ occursIn escOpen t) (n : Nat) :
    (resolveExpression env includeSecrets (pieces.flatMap Piece.escape)).run.run n = (.ok t, n) := by
  have houter := outermost_spec h
  rw [resolve_template hpy (values_escaped houter _ n), literal_protect houter]
  intro gap hgap
  refine ⟨gaps_not_opening houter [] (by simp [occursIn, opening]) (by simp) gap hgap, ?_⟩
  rw [occursIn_iff] at hmarker ⊢
  exact fun hwithin => hmarker (hwithin.trans (gaps_within houter [] gap hgap))

/-- A text whose expressions are escaped is resolved to itself, and a template to its plain text,
its escaped expressions and its values, as long as the text between two escapes, values included,
makes no new expression and no token. -/
theorem escapes_literal (hpy : UrlsafeBase64 env.py) :
    (∀ t pieces n, outermost 0 t = some pieces → ¬ occursIn escOpen t →
      (resolveExpression env includeSecrets (pieces.flatMap Piece.escape)).run.run n =
        (.ok t, n)) ∧
    ∀ template parts n m,
      (values (replacer env includeSecrets) (scan 0 template)).run.run n = (.ok parts, m) →
      (∀ gap ∈ gaps [] parts, ¬ occursIn opening gap ∧ ¬ occursIn escOpen gap) →
      (resolveExpression env includeSecrets template).run.run n =
        (.ok (parts.flatMap Part.literal), m) :=
  ⟨fun _ _ n h hmarker => resolve_escaped hpy h hmarker n,
    fun _ _ _ _ hvalues hgaps => resolve_template hpy hvalues hgaps⟩

end

def dollarEnv : Env where
  py := { samplePython with urlsafeB64encode := urlsafeEncode, urlsafeB64decode := urlsafeDecode }
  params := [("x".toList, "$".toList), ("y".toList, "v".toList)]
  owner := []
  conversationId := []
  convParams _ := []
  userParams _ := []
  globalParams := []
  environ := []
  relayDefault _ _ := none
  allows _ _ _ := some true
  materialize _ raw := some (.small raw)
  secrets := ⟨fun _ => [], fun _ => [], []⟩

theorem escapes_literal_dollarEnv :
    (resolveExpression dollarEnv true "a\\$\x7by\x7d".toList).run.run 0 =
        (.ok "a$\x7by\x7d".toList, 0) ∧
      (resolveExpression dollarEnv true "\\$\x7by\x7d $\x7by\x7d".toList).run.run 0 =
        (.ok "$\x7by\x7d v".toList, 0) := by
  have hpy : UrlsafeBase64 dollarEnv.py := ⟨rfl, rfl⟩
  have hall := @escapes_literal dollarEnv true hpy
  have htext : "a$\x7by\x7d".toList = _ := String.toList_ofList
  have htemplate : "\\$\x7by\x7d $\x7by\x7d".toList = _ := String.toList_ofList
  refine ⟨hall.1 "a$\x7by\x7d".toList [.char 'a', .expr ['y']] 0 (by rw [htext]; rfl) (by decide),
    hall.2 "\\$\x7by\x7d $\x7by\x7d".toList [.escaped ['y'], .text [' '], .text ['v']] 0 0 ?_
      (by decide)⟩
  rw [htemplate]
  rfl

/-- A dollar that an expression stands for makes an expression with the brace behind it. -/
theorem not_literal_dollar :
    ∃ parts, (values (replacer dollarEnv true) (scan 0 "$\x7bx\x7d\x7by\x7d".toList)).run.run 0 =
        (.ok parts, 0) ∧
      (∀ part ∈ parts, ¬ occursIn opening part.literal) ∧
      (resolveExpression dollarEnv true "$\x7bx\x7d\x7by\x7d".toList).run.run 0 ≠
        (.ok (parts.flatMap Part.literal), 0) := by
  have htemplate : "$\x7bx\x7d\x7by\x7d".toList = _ := String.toList_ofList
  rw [htemplate]
  refine ⟨[.text ['$'], .text ['{'], .text ['y'], .text ['}']], rfl, by decide, ?_⟩
  have hrun : (resolveExpression dollarEnv true ['$', '{', 'x', '}', '{', 'y', '}']).run.run 0 =
      (.ok ['v'], 0) := rfl
  rw [hrun]
  intro heq
  exact absurd (Except.ok.inj (Prod.mk.inj heq).1) (by decide)

end PawFlow.Expression
