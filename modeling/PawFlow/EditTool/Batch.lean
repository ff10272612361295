import PawFlow.EditTool.Edit
import PawFlow.Lib.Newlines
import PawFlow.Lib.Transaction

/-!
# Batches of edits

A batch reads its files once and edits their texts in memory, where one edit after another would
write and read the file between them. The two agree unless a carriage return is read back as a
newline. The files are written one by one, so a write that fails leaves those before it written.
-/

namespace PawFlow.EditTool

open PawFlow.Lib

/-! ## Texts without carriage returns -/

variable {text : List Char}

theorem readText_writeText (h : '\r' ∉ text) : readText (writeText text) = some text := by
  rw [readText, writeText, decodeUtf8_encodeUtf8, Option.map_some, String.toList_ofList,
    translateNewlines_of_not_mem h]

theorem not_mem_of_readText {bytes : Bytes} (h : readText bytes = some text) : '\r' ∉ text := by
  obtain ⟨s, -, rfl⟩ := Option.map_eq_some_iff.mp h
  exact not_mem_translateNewlines _

variable {new : List Char}

theorem mem_of_mem_splice {c : Char} {pos : Nat} {ws : List (Nat × Nat)}
    (h : c ∈ splice text new pos ws) : c ∈ text ∨ c ∈ new := by
  induction ws generalizing pos with
  | nil => exact Or.inl (List.mem_of_mem_drop h)
  | cons w rest ih =>
    rw [splice, List.mem_append, List.mem_append] at h
    rcases h with (h | h) | h
    · exact Or.inl (List.mem_of_mem_take (List.mem_of_mem_drop h))
    · exact Or.inr h
    · exact ih h

theorem not_mem_applyReplacements (ms : List Match) (replaceAll : Bool)
    (htext : '\r' ∉ text) (hnew : '\r' ∉ new) :
    '\r' ∉ applyReplacements text ms new replaceAll := by
  intro h
  rcases mem_of_mem_splice h with h | h
  · exact htext h
  · exact hnew h

/-! ## One edit after another -/

def BatchRequest.editOf (req : BatchRequest) (edit : Edit) : Edit :=
  { edit with
    replaceAll := some (edit.replaceAll.getD req.replaceAll)
    fuzzy := some (edit.fuzzy.getD req.fuzzy)
    fuzzyThreshold := edit.fuzzyThreshold.or req.fuzzyThreshold }

section

variable (ratio : List Char → List Char → Rat) (resolve : Resolve) (req : BatchRequest)

/-- `action_edit` on the file of an edit. -/
def editFile (t : FileTree) (edit : Edit) : Except EditError FileTree :=
  match resolve edit.path with
  | none => .error (.escapes edit.path)
  | some p =>
    match t.bytesAt p with
    | none => .error (.fileNotFound edit.path)
    | some bytes =>
      match actionEdit ratio none (req.editOf edit) bytes with
      | (.ok _, bytes') => .ok (t.set p (.file bytes'))
      | (.error e, _) => .error e

/-- A batch changes no file when it raises, and otherwise leaves what its edits leave in turn. -/
def Atomic (t : FileTree) (faults : Path → Option Bytes) : Prop :=
  match actionBatchEdit ratio resolve t req faults with
  | (.error _, t') => t'.Same t
  | (.ok _, t') => ∃ t'', req.edits.foldlM (editFile ratio resolve req) t = .ok t'' ∧ t'.Same t''

end

/-- An edit that `action_edit` reads as the batch does. -/
structure Edit.Plain (edit : Edit) : Prop where
  noLines : ¬ (0 < edit.startLine ∧ 0 < edit.endLine)
  newText : ((edit.newString.or edit.new).or edit.newStr).getD [] = edit.newString.getD []

section

variable {ratio : List Char → List Char → Rat} {resolve : Resolve} {req : BatchRequest}
  {t t' : FileTree} {contents working working' : Texts} {details details' : List Detail}

variable {edit : Edit}

theorem actionEdit_of_accepted {bytes : Bytes} {text : List Char} {ms : List Match}
    (hplain : edit.Plain) (hold : edit.oldString.getD [] ≠ []) (hread : readText bytes = some text)
    (h : acceptedMatches ratio (req.flagsOf edit).1 (req.flagsOf edit).2.1 (req.flagsOf edit).2.2
      text (edit.oldString.getD []) = .ok ms) :
    ∃ reply, actionEdit ratio none (req.editOf edit) bytes = (.ok reply,
      writeText (applyReplacements text ms (edit.newString.getD []) (req.flagsOf edit).1)) := by
  obtain ⟨old, hsome⟩ : ∃ old, edit.oldString = some old := by
    cases hcase : edit.oldString with
    | none => exact absurd (by rw [hcase]; rfl) hold
    | some old => exact ⟨old, rfl⟩
  have holdText : (((req.editOf edit).oldString.or (req.editOf edit).old).or
      (req.editOf edit).oldStr).getD [] = edit.oldString.getD [] := by
    simp [BatchRequest.editOf, hsome]
  have hnewText : (((req.editOf edit).newString.or (req.editOf edit).new).or
      (req.editOf edit).newStr).getD [] = edit.newString.getD [] := hplain.newText
  have hnoLines : ¬ (0 < (req.editOf edit).startLine ∧ 0 < (req.editOf edit).endLine) :=
    hplain.noLines
  have hflags : acceptedMatches ratio ((req.editOf edit).replaceAll.getD false)
      ((req.editOf edit).fuzzy.getD false) (thresholdOf (req.editOf edit).fuzzyThreshold) text
      (edit.oldString.getD []) = .ok ms := h
  unfold actionEdit
  simp only [holdText, hnewText, if_neg hnoLines, if_neg hold, hread, editString, hflags]
  exact ⟨_, rfl⟩

/-! ## Reading -/

/-- The texts read for these edits. -/
structure Read (resolve : Resolve) (t : FileTree) (edits : List Edit) (contents : Texts) :
    Prop where
  source : ∀ p text, contents.get? p = some text →
    ∃ bytes, t.bytesAt p = some bytes ∧ readText bytes = some text
  named : ∀ p, (contents.get? p).isSome → ∃ e ∈ edits, resolve e.path = some p
  edits : ∀ e ∈ edits, ∃ p, resolve e.path = some p ∧ (contents.get? p).isSome ∧
    e.oldString.getD [] ≠ []
  nodup : (contents.map Prod.fst).Nodup

theorem readEdit_eq_ok {i : Nat} {contents' : Texts}
    (h : readEdit resolve t i edit contents = .ok contents') :
    ∃ p, resolve edit.path = some p ∧ edit.oldString.getD [] ≠ [] ∧
      ((contents.get? p).isSome ∧ contents' = contents ∨
        ∃ bytes text, t.bytesAt p = some bytes ∧ readText bytes = some text ∧
          contents' = contents.set p text) := by
  unfold readEdit at h
  split at h
  · exact absurd h (by simp)
  · split at h
    · exact absurd h (by simp)
    · next p hp =>
      split at h
      · exact absurd h (by simp)
      · next hold =>
        refine ⟨p, hp, hold, ?_⟩
        split at h
        · next hsome => exact Or.inl ⟨hsome, (Except.ok.inj h).symm⟩
        · split at h
          · exact absurd h (by simp)
          · next bytes hbytes =>
            split at h
            · exact absurd h (by simp)
            · next text htext =>
              exact Or.inr ⟨bytes, text, hbytes, htext, (Except.ok.inj h).symm⟩

theorem Read.step {done : List Edit} {i : Nat} {edit : Edit} {contents' : Texts}
    (hread : Read resolve t done contents)
    (h : readEdit resolve t i edit contents = .ok contents') :
    Read resolve t (done ++ [edit]) contents' := by
  obtain ⟨p, hp, hold, ⟨hsome, rfl⟩ | ⟨bytes, text, hbytes, htext, rfl⟩⟩ := readEdit_eq_ok h
  · refine ⟨hread.source, fun q hq => ?_, fun e he => ?_, hread.nodup⟩
    · obtain ⟨e, he, hres⟩ := hread.named q hq
      exact ⟨e, List.mem_append_left _ he, hres⟩
    · rcases List.mem_append.mp he with he | he
      · exact hread.edits e he
      · obtain rfl := List.mem_singleton.mp he
        exact ⟨p, hp, hsome, hold⟩
  · have hget : ∀ q, (contents.set p text).get? q =
        if q = p then some text else contents.get? q := by
      intro q
      split
      · next hq => rw [hq, PyDict.get?_set_self]
      · next hq => exact PyDict.get?_set_of_ne _ _ hq
    refine ⟨fun q text' hq => ?_, fun q hq => ?_, fun e he => ?_,
      PyDict.nodup_keys_set _ hread.nodup⟩
    · rw [hget] at hq
      split at hq
      · next heq =>
        obtain rfl := Option.some.inj hq
        exact ⟨bytes, heq ▸ hbytes, htext⟩
      · exact hread.source q text' hq
    · rw [hget] at hq
      split at hq
      · next heq => exact ⟨edit, by simp, heq ▸ hp⟩
      · obtain ⟨e, he, hres⟩ := hread.named q hq
        exact ⟨e, List.mem_append_left _ he, hres⟩
    · rcases List.mem_append.mp he with he | he
      · obtain ⟨q, hq, hsome, hne⟩ := hread.edits e he
        refine ⟨q, hq, ?_, hne⟩
        rw [hget]
        split
        · rfl
        · exact hsome
      · obtain rfl := List.mem_singleton.mp he
        exact ⟨p, hp, by rw [hget, if_pos rfl]; rfl, hold⟩

theorem foldlM_invariant {α σ ε : Type*} {f : σ → α → Except ε σ} (holds : List α → σ → Prop)
    {all : List α} (hstep : ∀ done a rest s s', all = done ++ a :: rest → holds done s →
      f s a = .ok s' → holds (done ++ [a]) s')
    {s s' : σ} (h0 : holds [] s) (h : all.foldlM f s = .ok s') : holds all s' := by
  have hrun : ∀ rest done s, all = done ++ rest → holds done s → rest.foldlM f s = .ok s' →
      holds all s' := by
    intro rest
    induction rest with
    | nil =>
      intro done s heq hs h
      obtain rfl : s = s' := Except.ok.inj h
      rw [heq, List.append_nil]
      exact hs
    | cons a rest ih =>
      intro done s heq hs h
      rw [List.foldlM_cons] at h
      obtain ⟨s₁, hs₁, h⟩ := bind_ok h
      exact ih (done ++ [a]) s₁ (by simp [heq]) (hstep done a rest s s₁ heq hs hs₁) h
  exact hrun all [] s rfl h0 h

/-! ## Staging -/

/-- The staged texts, and the tree that the edits so far leave in turn. -/
structure InTurn (resolve : Resolve) (t : FileTree) (contents : Texts) (done : List Edit)
    (working : Texts) (t' : FileTree) : Prop where
  touched : ∀ p text, (∃ e ∈ done, resolve e.path = some p) → working.get? p = some text →
    t'.get? p = some (.file (writeText text))
  untouched : ∀ p, (¬ ∃ e ∈ done, resolve e.path = some p) →
    t'.get? p = t.get? p ∧ working.get? p = contents.get? p
  held : ∀ p, (contents.get? p).isSome → (working.get? p).isSome
  noReturn : ∀ p text, working.get? p = some text →
    (∀ e ∈ done, resolve e.path = some p → '\r' ∉ e.newString.getD []) → '\r' ∉ text
  nodup : (working.map Prod.fst).Nodup

variable {p : Path}

theorem stageEdit_eq_ok {i : Nat} (hp : resolve edit.path = some p)
    (h : stageEdit ratio resolve req i edit working details = .ok (working', details')) :
    ∃ ms, acceptedMatches ratio (req.flagsOf edit).1 (req.flagsOf edit).2.1 (req.flagsOf edit).2.2
        ((working.get? p).getD []) (edit.oldString.getD []) = .ok ms ∧
      working' = working.set p (applyReplacements ((working.get? p).getD []) ms
        (edit.newString.getD []) (req.flagsOf edit).1) := by
  unfold stageEdit at h
  rw [hp] at h
  simp only at h
  split at h
  · exact absurd h (by simp)
  · next ms hms => exact ⟨ms, hms, (Prod.mk.inj (Except.ok.inj h)).1.symm⟩

/-- A staged edit is one that succeeds on the file as the edits before it left it. -/
theorem InTurn.step {edits done : List Edit} {i : Nat} {edit : Edit}
    (hread : Read resolve t edits contents) (hmem : edit ∈ edits) (hplain : edit.Plain)
    (hreturn : ∀ e ∈ done, resolve e.path = resolve edit.path → '\r' ∉ e.newString.getD [])
    (hs : InTurn resolve t contents done working t')
    (h : stageEdit ratio resolve req i edit working details = .ok (working', details')) :
    ∃ t'', editFile ratio resolve req t' edit = .ok t'' ∧
      InTurn resolve t contents (done ++ [edit]) working' t'' := by
  obtain ⟨p, hp, hsome, hold⟩ := hread.edits edit hmem
  obtain ⟨text, htext⟩ := Option.isSome_iff_exists.mp (hs.held p hsome)
  obtain ⟨ms, hms, rfl⟩ := stageEdit_eq_ok hp h
  rw [htext, Option.getD_some] at hms ⊢
  have hreturn' : ∀ e ∈ done, resolve e.path = some p → '\r' ∉ e.newString.getD [] :=
    fun e he hres => hreturn e he (hres.trans hp.symm)
  -- what the file holds is read as the staged text
  have hfile : ∃ bytes, t'.bytesAt p = some bytes ∧ readText bytes = some text := by
    by_cases htouched : ∃ e ∈ done, resolve e.path = some p
    · refine ⟨writeText text, ?_, readText_writeText (hs.noReturn p text htext hreturn')⟩
      rw [FileTree.bytesAt, hs.touched p text htouched htext]
    · obtain ⟨hsame, hcontents⟩ := hs.untouched p htouched
      obtain ⟨bytes, hbytes, hreadText⟩ := hread.source p text (hcontents ▸ htext)
      refine ⟨bytes, ?_, hreadText⟩
      rw [FileTree.bytesAt, hsame]
      exact hbytes
  obtain ⟨bytes, hbytes, hreadText⟩ := hfile
  obtain ⟨reply, hreply⟩ := actionEdit_of_accepted hplain hold hreadText hms
  refine ⟨t'.set p (.file (writeText (applyReplacements text ms (edit.newString.getD [])
    (req.flagsOf edit).1))), ?_, ?_⟩
  · rw [editFile, hp]
    simp only [hbytes, hreply]
  · have hgetTree : ∀ q e, q ≠ p → (t'.set p e).get? q = t'.get? q := fun q e hne =>
      PyDict.get?_set_of_ne _ _ hne
    refine ⟨?_, ?_, ?_, ?_, PyDict.nodup_keys_set _ hs.nodup⟩
    · rintro q text' ⟨e, he, hres⟩ hq
      by_cases heq : q = p
      · rw [heq, PyDict.get?_set_self] at hq ⊢
        rw [Option.some.inj hq]
      · rw [PyDict.get?_set_of_ne _ _ heq] at hq
        rw [hgetTree q _ heq]
        have hnot : e ∉ [edit] := by
          intro hlast
          rw [List.mem_singleton.mp hlast, hp] at hres
          exact heq (Option.some.inj hres).symm
        exact hs.touched q text' ⟨e, (List.mem_append.mp he).resolve_right hnot, hres⟩ hq
    · intro q hq
      have hne : q ≠ p := fun heq => hq ⟨edit, by simp, heq ▸ hp⟩
      rw [hgetTree q _ hne, PyDict.get?_set_of_ne _ _ hne]
      refine hs.untouched q ?_
      rintro ⟨e, he, hres⟩
      exact hq ⟨e, List.mem_append_left _ he, hres⟩
    · intro q hq
      by_cases heq : q = p
      · rw [heq, PyDict.get?_set_self]
        rfl
      · rw [PyDict.get?_set_of_ne _ _ heq]
        exact hs.held q hq
    · intro q text' hq hnone
      by_cases heq : q = p
      · rw [heq, PyDict.get?_set_self] at hq
        rw [← Option.some.inj hq]
        refine not_mem_applyReplacements _ _ (hs.noReturn p text htext hreturn') ?_
        exact hnone edit (by simp) (heq ▸ hp)
      · rw [PyDict.get?_set_of_ne _ _ heq] at hq
        exact hs.noReturn q text' hq fun e he => hnone e (List.mem_append_left _ he)

theorem InTurn.init {edits : List Edit} (hread : Read resolve t edits contents) :
    InTurn resolve t contents [] contents t where
  touched := by
    rintro p text ⟨e, he, -⟩
    exact absurd he (by simp)
  untouched _ _ := ⟨rfl, rfl⟩
  held _ h := h
  noReturn p text h _ := by
    obtain ⟨bytes, -, hreadText⟩ := hread.source p text h
    exact not_mem_of_readText hreadText
  nodup := hread.nodup

theorem Read.all (h : req.edits.zipIdx.foldlM
    (fun contents e => readEdit resolve t e.2 e.1 contents) [] = .ok contents) :
    Read resolve t req.edits contents := by
  have hall := foldlM_invariant (fun done contents => Read resolve t (done.map Prod.fst) contents)
    (fun done a rest s s' _ hs hstep => by
      rw [List.map_append]
      exact hs.step hstep)
    ⟨by simp [PyDict.get?], by simp [PyDict.get?], by simp, by simp⟩ h
  rwa [List.zipIdx_map_fst] at hall

theorem stageBatch_inTurn (hplain : ∀ e ∈ req.edits, e.Plain)
    (hreturn : req.edits.Pairwise fun e e' =>
      resolve e.path = resolve e'.path → '\r' ∉ e.newString.getD [])
    (h : stageBatch ratio resolve t req = .ok (working, details)) :
    ∃ contents t', Read resolve t req.edits contents ∧
      req.edits.foldlM (editFile ratio resolve req) t = .ok t' ∧
      InTurn resolve t contents req.edits working t' := by
  unfold stageBatch at h
  split at h
  · exact absurd h (by simp)
  · split at h
    · exact absurd h (by simp)
    · next contents hcontents =>
      have hread := Read.all hcontents
      have hrun : req.edits.zipIdx.foldlM
          (fun s e => stageEdit ratio resolve req e.2 e.1 s.1 s.2) (contents, []) =
            .ok (working, details) := h
      have hstaged := foldlM_invariant (s := (contents, []))
        (fun done (s : Texts × List Detail) => ∃ t',
          (done.map Prod.fst).foldlM (editFile ratio resolve req) t = .ok t' ∧
            InTurn resolve t contents (done.map Prod.fst) s.1 t')
        (fun done a rest s s' heq hs hstep => by
          obtain ⟨t', hrun, hs⟩ := hs
          have hedits : req.edits = done.map Prod.fst ++ a.1 :: rest.map Prod.fst := by
            rw [← List.zipIdx_map_fst 0 req.edits, heq, List.map_append, List.map_cons]
          have hmem : a.1 ∈ req.edits := by simp [hedits]
          have hbefore : ∀ e ∈ done.map Prod.fst, resolve e.path = resolve a.1.path →
              '\r' ∉ e.newString.getD [] := by
            rw [hedits, List.pairwise_append] at hreturn
            exact fun e he => hreturn.2.2 e he a.1 (by simp)
          obtain ⟨t'', hedit, hs⟩ := hs.step hread hmem (hplain _ hmem) hbefore hstep
          refine ⟨t'', ?_, ?_⟩
          · rw [List.map_append, List.foldlM_append, hrun]
            show [a.1].foldlM (editFile ratio resolve req) t' = .ok t''
            rw [List.foldlM_cons, hedit]
            rfl
          · rw [List.map_append]
            exact hs)
        ⟨t, rfl, InTurn.init hread⟩ hrun
      rw [List.zipIdx_map_fst] at hstaged
      obtain ⟨t', hrun, hs⟩ := hstaged
      exact ⟨contents, t', hread, hrun, hs⟩

/-! ## Writing -/

def written (t : FileTree) (working : Texts) : FileTree :=
  working.foldl (fun t i => t.set i.1 (.file (writeText i.2))) t

theorem get?_written (t : FileTree) (hnodup : (working.map Prod.fst).Nodup) (p : Path) :
    (written t working).get? p =
      match working.get? p with
      | some text => some (.file (writeText text))
      | none => t.get? p := by
  induction working generalizing t with
  | nil => rfl
  | cons i rest ih =>
    obtain ⟨hnot, hrest⟩ := List.nodup_cons.mp hnodup
    have hstep : written t (i :: rest) = written (t.set i.1 (.file (writeText i.2))) rest := rfl
    rw [hstep, ih _ hrest]
    by_cases hp : p = i.1
    · have hnone : PyDict.get? rest p = none := by
        rw [hp]
        exact PyDict.get?_eq_none_iff.mpr hnot
      have hsome : PyDict.get? (i :: rest) p = some i.2 := by
        simp [PyDict.get?, hp]
      rw [hnone, hsome, hp]
      exact PyDict.get?_set_self _ _ _
    · have hsame : PyDict.get? (i :: rest) p = PyDict.get? rest p := by
        have hne : ¬ i.1 = p := fun h => hp h.symm
        simp [PyDict.get?, hne]
      rw [hsame, PyDict.get?_set_of_ne _ _ hp]

theorem first_unique {α : Type*} {p : α → Prop} {before after before' after' : List α} {a a' : α}
    (h : before ++ a :: after = before' ++ a' :: after') (hbefore : ∀ b ∈ before, ¬ p b)
    (ha : p a) (hbefore' : ∀ b ∈ before', ¬ p b) (ha' : p a') : before = before' ∧ a = a' := by
  rcases List.append_eq_append_iff.mp h with ⟨l, hl, hr⟩ | ⟨l, hl, hr⟩
  · cases l with
    | nil => exact ⟨by simpa using hl.symm, (List.cons.inj hr).1⟩
    | cons x l =>
      have hx : a = x := (List.cons.inj hr).1
      exact absurd ha (hbefore' a (by simp [hl, hx]))
  · cases l with
    | nil => exact ⟨by simpa using hl, (List.cons.inj hr).1.symm⟩
    | cons x l =>
      have hx : a' = x := (List.cons.inj hr).1
      exact absurd ha' (hbefore a' (by simp [hl, hx]))

theorem writeAll_cases (faults : Path → Option Bytes) (working : Texts) (t : FileTree) :
    ((∀ i ∈ working, faults i.1 = none) ∧ writeAll faults working t = (true, written t working)) ∨
    ∃ before p text after left, working = before ++ (p, text) :: after ∧
      (∀ i ∈ before, faults i.1 = none) ∧ faults p = some left ∧
      writeAll faults working t = (false, (written t before).set p (.file left)) := by
  induction working generalizing t with
  | nil => exact Or.inl ⟨by simp, rfl⟩
  | cons i rest ih =>
    cases hfault : faults i.1 with
    | some left =>
      refine Or.inr ⟨[], i.1, i.2, rest, left, rfl, by simp, hfault, ?_⟩
      rw [writeAll, hfault]
      rfl
    | none =>
      have hstep : writeAll faults (i :: rest) t =
          writeAll faults rest (t.set i.1 (.file (writeText i.2))) := by
        rw [writeAll, hfault]
      rw [hstep]
      rcases ih (t.set i.1 (.file (writeText i.2))) with
        ⟨hnone, hrest⟩ | ⟨before, p, text, after, left, rfl, hbefore, hp, hrest⟩
      · refine Or.inl ⟨?_, hrest⟩
        intro j hj
        rcases List.mem_cons.mp hj with rfl | hj
        · exact hfault
        · exact hnone j hj
      · refine Or.inr ⟨i :: before, p, text, after, left, rfl, ?_, hp, hrest⟩
        intro j hj
        rcases List.mem_cons.mp hj with rfl | hj
        · exact hfault
        · exact hbefore j hj

/-- The first write that fails leaves its file as it was, and the files written before it were
given what they held. -/
def WritesHold (t : FileTree) (faults : Path → Option Bytes) (working : Texts) : Prop :=
  ∀ before p text after left, working = before ++ (p, text) :: after →
    (∀ i ∈ before, faults i.1 = none) → faults p = some left →
    t.bytesAt p = some left ∧ ∀ i ∈ before, t.bytesAt i.1 = some (writeText i.2)

theorem bytesAt_eq_some {bytes : Bytes} :
    t.bytesAt p = some bytes ↔ t.get? p = some (.file bytes) := by
  unfold FileTree.bytesAt
  split
  · next bytes' h => rw [h]; simp
  · next h =>
    constructor
    · intro heq
      exact absurd heq (by simp)
    · intro heq
      exact absurd heq (h bytes)

theorem same_of_failed {before after : Texts} {text : List Char} {left : Bytes}
    (hnodup : ((before ++ (p, text) :: after).map Prod.fst).Nodup) :
    FileTree.Same ((written t before).set p (.file left)) t ↔
      t.bytesAt p = some left ∧ ∀ i ∈ before, t.bytesAt i.1 = some (writeText i.2) := by
  rw [List.map_append, List.map_cons, List.nodup_append] at hnodup
  obtain ⟨hbefore, -, hdisjoint⟩ := hnodup
  have hne : ∀ i ∈ before, i.1 ≠ p := fun i hi =>
    hdisjoint i.1 (List.mem_map_of_mem hi) p (by simp)
  constructor
  · intro h
    refine ⟨bytesAt_eq_some.mpr ?_, fun i hi => bytesAt_eq_some.mpr ?_⟩
    · rw [← h p, PyDict.get?_set_self]
    · rw [← h i.1, PyDict.get?_set_of_ne _ _ (hne i hi), get?_written t hbefore,
        PyDict.get?_of_mem hbefore hi]
  · rintro ⟨hp, hheld⟩ q
    by_cases hq : q = p
    · rw [hq, PyDict.get?_set_self, bytesAt_eq_some.mp hp]
    · rw [PyDict.get?_set_of_ne _ _ hq, get?_written t hbefore]
      cases hget : before.get? q with
      | none => rfl
      | some text' =>
        exact (bytesAt_eq_some.mp (hheld (q, text') (PyDict.mem_of_get? hget))).symm

theorem stageBatch_nodup (h : stageBatch ratio resolve t req = .ok (working, details)) :
    (working.map Prod.fst).Nodup := by
  unfold stageBatch at h
  split at h
  · exact absurd h (by simp)
  · split at h
    · exact absurd h (by simp)
    · next contents hcontents =>
      have hrun : req.edits.zipIdx.foldlM
          (fun s e => stageEdit ratio resolve req e.2 e.1 s.1 s.2) (contents, []) =
            .ok (working, details) := h
      refine foldlM_invariant (s := (contents, []))
        (fun _ (s : Texts × List Detail) => (s.1.map Prod.fst).Nodup)
        (fun done a rest s s' _ hs hstep => ?_) (Read.all hcontents).nodup hrun
      obtain ⟨working', details'⟩ := s'
      cases hp : resolve a.1.path with
      | none =>
        simp only [stageEdit, hp] at hstep
        exact absurd hstep (by simp)
      | some p =>
        obtain ⟨ms, -, hs'⟩ := stageEdit_eq_ok hp hstep
        rw [hs']
        exact PyDict.nodup_keys_set _ hs

theorem stageBatch_written (hplain : ∀ e ∈ req.edits, e.Plain)
    (hreturn : req.edits.Pairwise fun e e' =>
      resolve e.path = resolve e'.path → '\r' ∉ e.newString.getD [])
    (h : stageBatch ratio resolve t req = .ok (working, details)) :
    ∃ t', req.edits.foldlM (editFile ratio resolve req) t = .ok t' ∧
      FileTree.Same (written t working) t' := by
  obtain ⟨contents, t', hread, hrun, hs⟩ := stageBatch_inTurn hplain hreturn h
  refine ⟨t', hrun, fun p => ?_⟩
  rw [get?_written t hs.nodup]
  by_cases htouched : ∃ e ∈ req.edits, resolve e.path = some p
  · obtain ⟨e, he, hres⟩ := htouched
    obtain ⟨q, hq, hsome, -⟩ := hread.edits e he
    obtain rfl := Option.some.inj (hres.symm.trans hq)
    obtain ⟨text, htext⟩ := Option.isSome_iff_exists.mp (hs.held p hsome)
    rw [htext, hs.touched p text ⟨e, he, hres⟩ htext]
  · obtain ⟨hsame, hcontents⟩ := hs.untouched p htouched
    have hnot : contents.get? p = none := by
      by_contra hsome
      exact htouched (hread.named p (Option.isSome_iff_ne_none.mpr hsome))
    rw [hcontents, hnot, hsame]

end

def twoFiles : FileTree := [(["a"], .file [120]), (["b"], .file [120])]

def twoEdits : BatchRequest where
  edits := [{ path := "a", oldString := some ['x'], newString := some ['y'] },
    { path := "b", oldString := some ['x'], newString := some ['y'] }]

end PawFlow.EditTool
