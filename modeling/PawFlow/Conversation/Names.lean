import PawFlow.Lib.PyDict
import PawFlow.Lib.PyString

/-!
# Names and directories

A conversation lives in `<store>/<user>/<conversation>/`, the context of an agent in a directory
below it. `_safe_name` makes the names of these directories, and after a restart the store reads
them back by writing `:` for `__` (`core/_conversation_store_paths.py`,
`core/_conversation_store_cache.py`). The two agree on plain names: of the allowed characters, and
without a `_` that is followed by a `_` or a `:`.
-/

namespace PawFlow.Conversation

open PawFlow.Lib

/-- A string, as its characters. -/
abbrev Name := List Char

/-- What the names rely on of the Unicode tables of `str`. -/
structure Unicode where
  isalnum : Char → Bool
  lower : Name → Name
  isSpace_of_isalnum : ∀ c, isalnum c = true → isSpace c = false
  /-- `lower` leaves a string alone exactly when it leaves every character alone. -/
  lower_eq_self_iff : ∀ n, lower n = n ↔ ∀ c ∈ n, lower [c] = [c]
  lower_underscore : lower ['_'] = ['_']
  lower_colon : lower [':'] = [':']

/-! ## Writing and reading names -/

/-- `replace(":", "__")`. -/
def encode (n : Name) : Name := n.flatMap fun c => if c = ':' then ['_', '_'] else [c]

/-- `replace("__", ":")`. -/
def decode : Name → Name
  | '_' :: '_' :: n => ':' :: decode n
  | c :: n => c :: decode n
  | [] => []

example : decode ['a', '_', '_', '_', 'b'] = ['a', ':', '_', 'b'] := by simp [decode]

/-- No `_` is followed by a `_` or a `:`. -/
def Unambiguous (n : Name) : Prop := n.IsChain fun a b => ¬ (a = '_' ∧ (b = '_' ∨ b = ':'))

theorem encode_cons_colon (n : Name) : encode (':' :: n) = '_' :: '_' :: encode n := rfl

theorem encode_cons {c : Char} (h : c ≠ ':') (n : Name) : encode (c :: n) = c :: encode n := by
  simp [encode, h]

theorem decode_underscores (n : Name) : decode ('_' :: '_' :: n) = ':' :: decode n := rfl

theorem decode_cons {c : Char} (h : c ≠ '_') (n : Name) : decode (c :: n) = c :: decode n := by
  rw [decode]
  intro m hm
  exact absurd hm h

theorem decode_cons_cons {a b : Char} (h : ¬ (a = '_' ∧ b = '_')) (n : Name) :
    decode (a :: b :: n) = a :: decode (b :: n) := by
  by_cases ha : a = '_'
  · subst ha
    rw [decode]
    intro m hm
    simp_all
  · rw [decode_cons ha]

theorem colon_not_mem_encode (n : Name) : ':' ∉ encode n := by
  intro h
  obtain ⟨c, -, hc⟩ := List.mem_flatMap.mp h
  split at hc
  · simp at hc
  · exact ‹¬ c = ':'› (List.mem_singleton.mp hc).symm

theorem encode_decode {n : Name} (h : ':' ∉ n) : encode (decode n) = n := by
  induction n using decode.induct with
  | case1 n ih =>
    rw [decode_underscores, encode_cons_colon, ih fun hn => h (by simp [hn])]
  | case2 c n hc ih =>
    rw [List.mem_cons, not_or] at h
    rw [decode, encode_cons (Ne.symm h.1), ih h.2]
    exact hc
  | case3 => rfl

theorem decode_encode_iff (n : Name) : decode (encode n) = n ↔ Unambiguous n := by
  unfold Unambiguous
  induction n with
  | nil => simp [encode, decode]
  | cons c n ih =>
    by_cases hcolon : c = ':'
    · subst hcolon
      rw [encode_cons_colon, decode_underscores, List.cons.injEq, ih, List.isChain_cons]
      simp
    rw [encode_cons hcolon]
    by_cases hunder : c = '_'
    · subst hunder
      -- The next character decides whether the two are read as one.
      rcases n with _ | ⟨d, n⟩
      · simp [encode, decode]
      · by_cases hd : d = ':'
        · subst hd
          rw [encode_cons_colon, decode_underscores]
          simp
        · by_cases hd' : d = '_'
          · subst hd'
            rw [encode_cons hd, decode_underscores]
            simp
          · have hrest : encode (d :: n) = d :: encode n := encode_cons hd n
            rw [hrest] at ih ⊢
            rw [decode_cons_cons (by simp [hd']), List.cons.injEq, ih, List.isChain_cons_cons]
            simp [hd, hd']
    · rw [decode_cons hunder, List.cons.injEq, ih, List.isChain_cons]
      simp [hunder]

theorem mem_decode {c : Char} {n : Name} (h : c ∈ decode n) : c ∈ n ∨ c = ':' := by
  induction n using decode.induct with
  | case1 n ih =>
    rw [decode_underscores, List.mem_cons] at h
    rcases h with rfl | h
    · exact Or.inr rfl
    · rcases ih h with hn | hc
      · exact Or.inl (by simp [hn])
      · exact Or.inr hc
  | case2 d n hd ih =>
    rw [decode, List.mem_cons] at h
    · rcases h with rfl | h
      · exact Or.inl List.mem_cons_self
      · rcases ih h with hn | hc
        · exact Or.inl (List.mem_cons_of_mem _ hn)
        · exact Or.inr hc
    · exact hd
  | case3 => simp [decode] at h

theorem mem_encode {c : Char} {n : Name} (h : c ∈ encode n) : c ∈ n ∨ c = '_' := by
  obtain ⟨d, hd, hc⟩ := List.mem_flatMap.mp h
  split at hc
  · right
    simpa using hc
  · left
    obtain rfl := List.mem_singleton.mp hc
    exact hd

namespace Unicode

variable (U : Unicode)

/-- The characters that stay. -/
def allowed (c : Char) : Bool := U.isalnum c || c ∈ ['-', '_', '.', ':', '@']

def safeName (n : Name) : Name := encode (n.filter U.allowed)

def strip (n : Name) : Name := ((n.dropWhile isSpace).reverse.dropWhile isSpace).reverse

def canonAgent (n : Name) : Name := U.lower (strip n)

/-- The names that are read back from their directory. -/
def Plain (n : Name) : Prop := (∀ c ∈ n, U.allowed c = true) ∧ Unambiguous n

variable {U}

variable {n : Name}

theorem allowed_of_mem_safeName {c : Char} (h : c ∈ U.safeName n) : U.allowed c = true := by
  rcases mem_encode h with hn | rfl
  · exact (List.mem_filter.mp hn).2
  · simp [allowed]

theorem allowed_of_mem_decode {c : Char} (h : c ∈ decode (U.safeName n)) : U.allowed c = true := by
  rcases mem_decode h with hn | rfl
  · exact allowed_of_mem_safeName hn
  · simp [allowed]

theorem safeName_of_allowed (h : ∀ c ∈ n, U.allowed c = true) : U.safeName n = encode n := by
  unfold safeName
  rw [List.filter_eq_self.mpr h]

theorem safeName_decode (n : Name) : U.safeName (decode (U.safeName n)) = U.safeName n := by
  rw [safeName_of_allowed fun c hc => allowed_of_mem_decode hc]
  exact encode_decode (colon_not_mem_encode _)

theorem decode_safeName_iff : decode (U.safeName n) = n ↔ U.Plain n := by
  constructor
  · intro h
    have hallowed : ∀ c ∈ n, U.allowed c = true := by
      intro c hc
      rw [← h] at hc
      exact allowed_of_mem_decode hc
    refine ⟨hallowed, ?_⟩
    rwa [safeName_of_allowed hallowed, decode_encode_iff] at h
  · rintro ⟨hallowed, hclear⟩
    rw [safeName_of_allowed hallowed]
    exact (decode_encode_iff n).mpr hclear

theorem Plain.safeName_injective {m : Name} (hm : U.Plain m) (hn : U.Plain n)
    (h : U.safeName m = U.safeName n) : m = n := by
  rw [← decode_safeName_iff.mpr hm, h, decode_safeName_iff.mpr hn]

theorem strip_eq_self (h : ∀ c ∈ n, isSpace c = false) : strip n = n := by
  have hdrop : ∀ m : Name, (∀ c ∈ m, isSpace c = false) → m.dropWhile isSpace = m := by
    intro m hm
    cases m with
    | nil => rfl
    | cons c m => simp [hm c List.mem_cons_self]
  unfold strip
  rw [hdrop n h, hdrop n.reverse (by simpa using h), List.reverse_reverse]

end Unicode

/-! ## Directories -/

/-- The names from the root of the file system down. -/
abbrev Dir := List Name

/-- The directory that `dir / name` is. -/
def join (dir : Dir) (name : Name) : Dir :=
  if name = [] ∨ name = ['.'] then dir
  else if name = ['.', '.'] then dir.dropLast
  else dir ++ [name]

/-- A name of a directory below another one. -/
def Proper (name : Name) : Prop := name ≠ [] ∧ name ≠ ['.'] ∧ name ≠ ['.', '.']

instance (name : Name) : Decidable (Proper name) := inferInstanceAs (Decidable (_ ∧ _ ∧ _))

theorem join_of_proper {name : Name} (h : Proper name) (dir : Dir) :
    join dir name = dir ++ [name] := by
  unfold join
  rw [if_neg (by simp [h.1, h.2.1]), if_neg h.2.2]

theorem length_join_le (dir : Dir) (name : Name) : (join dir name).length ≤ dir.length + 1 := by
  unfold join
  split
  · omega
  · split
    · rw [List.length_dropLast]
      omega
    · simp

theorem length_join_of_not_proper {name : Name} (h : ¬ Proper name) (dir : Dir) :
    (join dir name).length ≤ dir.length := by
  unfold Proper at h
  unfold join
  split
  · exact le_rfl
  · split
    · rw [List.length_dropLast]
      omega
    · tauto

theorem join_join_eq_iff {root : Dir} {a b u d : Name} :
    join (join root a) b = root ++ [u, d] ↔ (Proper a ∧ Proper b) ∧ a = u ∧ b = d := by
  by_cases ha : Proper a
  · by_cases hb : Proper b
    · rw [join_of_proper ha, join_of_proper hb]
      simp [ha, hb]
    · simp only [hb, and_false, false_and, iff_false]
      intro h
      have hle := length_join_of_not_proper hb (join root a)
      have hle' := length_join_le root a
      rw [h, List.length_append] at hle
      simp only [List.length_cons, List.length_nil] at hle
      omega
  · simp only [ha, false_and, iff_false]
    intro h
    have hle := length_join_le (join root a) b
    have hle' := length_join_of_not_proper ha root
    rw [h, List.length_append] at hle
    simp only [List.length_cons, List.length_nil] at hle
    omega

/-! ## The store -/

/-- An agent is its canonical name; the empty one stands for the shared context. -/
abbrev Agent (U : Unicode) :=
  { name : Name // (Unicode.strip name = name ∧ U.lower name = name) ∧ name ≠ [] }

/-- A conversation that was created: its agents in `conv_agents`, and those with a context. -/
structure Created (U : Unicode) where
  cid : Name
  uid : Name
  declared : List (Agent U)
  written : List (Agent U)

/-- What was created since the store was empty; an id is created once. -/
structure Store (U : Unicode) where
  convs : List (Created U)
  nodup : (convs.map Created.cid).Nodup

section

variable {U : Unicode}

def userDir (U : Unicode) (root : Dir) (uid : Name) : Dir := join root (U.safeName uid)

namespace Created

variable (c : Created U) (root : Dir)

/-- `_conv_dir`. -/
def dir : Dir := join (userDir U root c.uid) (U.safeName c.cid)

/-- The directory of `_agent_ctx_path`. -/
def agentDir (a : Agent U) : Dir := join (c.dir root) (U.safeName (U.canonAgent a.1))

def agents : List (Agent U) := c.declared ++ c.written

end Created

/-- The directories that the pruning skips. -/
def skipped : List Name :=
  [".git", "transcript", "shared", "summaries", "_jsonl_migration_backup"].map String.toList

/-- The context directories that `_prune_invalid_agent_context_dirs` leaves; what it deletes, it
deletes with everything below. -/
def pruneContexts (U : Unicode) (dir : Dir) (declared : List (Agent U)) (contexts : List Dir) :
    List Dir :=
  contexts.filter fun context => !contexts.any fun entry =>
    entry.dropLast = dir && entry ≠ dir && decide (entry <+: context) &&
      entry.getLast?.any fun name => name ∉ skipped &&
        U.canonAgent (decode name) ∉ declared.map Subtype.val

/-- The conversation and the owner that `_ensure_loaded` reads from a directory. -/
def scan (root dir : Dir) : Option (Name × Name) :=
  match dir.drop root.length with
  | [uid, name] => if dir.take root.length = root then some (decode name, uid) else none
  | _ => none

/-- `_ensure_loaded`: the owners, from the directories in the order in which they are listed. -/
def ensureLoaded (root : Dir) (listing : List Dir) : PyDict Name Name :=
  PyDict.update [] (listing.filterMap (scan root))

namespace Store

variable (s : Store U) (root : Dir)

def owners : PyDict Name Name := s.convs.map fun c => (c.cid, c.uid)

/-- The directories with a transcript. -/
def dirs : List Dir := s.convs.map fun c => c.dir root

/-- The directories with a context. -/
def contexts : List Dir := s.convs.flatMap fun c => c.written.map (c.agentDir root)

/-- Names and directories correspond one to one. -/
structure OneToOne : Prop where
  convs_apart : ∀ c ∈ s.convs, ∀ d ∈ s.convs, c.cid ≠ d.cid → c.dir root ≠ d.dir root
  users_apart : ∀ c ∈ s.convs, ∀ d ∈ s.convs, c.uid ≠ d.uid →
    userDir U root c.uid ≠ userDir U root d.uid
  agents_apart : ∀ c ∈ s.convs, ∀ a ∈ c.agents, ∀ b ∈ c.agents, a ≠ b →
    c.agentDir root a ≠ c.agentDir root b
  registers : ∀ listing, listing.Perm (s.dirs root) → ∀ cid,
    (ensureLoaded root listing).get? cid = s.owners.get? cid
  keeps : ∀ c ∈ s.convs, ∀ a ∈ c.declared, a ∈ c.written →
    c.agentDir root a ∈ pruneContexts U (c.dir root) c.declared (s.contexts root)

/-- The directory of the agent is not one that the pruning looks at. -/
def Exempt (a : Agent U) : Prop := U.safeName a.1 ∈ skipped ∨ ¬ Proper (U.safeName a.1)

/-- Ids and owners are plain names. A name of an agent is one as well; or no other agent of the
conversation has its directory, and if it is declared and has a context, pruning skips this one. -/
structure PlainNames : Prop where
  cid : ∀ c ∈ s.convs, U.Plain c.cid ∧ Proper c.cid
  uid : ∀ c ∈ s.convs, (∀ ch ∈ c.uid, U.allowed ch = true ∧ ch ≠ ':') ∧ Proper c.uid
  agent : ∀ c ∈ s.convs, ∀ a ∈ c.agents, (U.Plain a.1 ∧ Proper a.1) ∨
    (∀ b ∈ c.agents, b ≠ a → c.agentDir root b ≠ c.agentDir root a) ∧
      (a ∈ c.declared → a ∈ c.written → Exempt a)

end Store

end

/-! ## Agents -/

section

variable {U : Unicode}

theorem canonAgent_agent (a : Agent U) : U.canonAgent a.1 = a.1 := by
  unfold Unicode.canonAgent
  rw [a.2.1.1, a.2.1.2]

theorem isSpace_of_allowed {c : Char} (h : U.allowed c = true) : isSpace c = false := by
  unfold Unicode.allowed at h
  rw [Bool.or_eq_true, decide_eq_true_eq] at h
  rcases h with h | h
  · exact U.isSpace_of_isalnum c h
  · simp only [List.mem_cons, List.not_mem_nil, or_false] at h
    rcases h with rfl | rfl | rfl | rfl | rfl <;> decide

theorem strip_decode (n : Name) :
    Unicode.strip (decode (U.safeName n)) = decode (U.safeName n) := by
  refine Unicode.strip_eq_self ?_
  intro c hc
  exact isSpace_of_allowed (Unicode.allowed_of_mem_decode hc)

theorem lower_decode (a : Agent U) :
    U.lower (decode (U.safeName a.1)) = decode (U.safeName a.1) := by
  refine (U.lower_eq_self_iff _).mpr ?_
  intro c hc
  rcases mem_decode hc with hsafe | rfl
  · rcases mem_encode hsafe with hn | rfl
    · exact (U.lower_eq_self_iff _).mp a.2.1.2 c (List.mem_filter.mp hn).1
    · exact U.lower_underscore
  · exact U.lower_colon

theorem canonAgent_decode (a : Agent U) :
    U.canonAgent (decode (U.safeName a.1)) = decode (U.safeName a.1) := by
  unfold Unicode.canonAgent
  rw [strip_decode, lower_decode]

theorem proper_safeName {n : Name} (hplain : U.Plain n) (h : Proper n) : Proper (U.safeName n) := by
  have hback := Unicode.decode_safeName_iff.mpr hplain
  refine ⟨?_, ?_, ?_⟩
  · intro heq
    rw [heq] at hback
    exact h.1 hback.symm
  · intro heq
    rw [heq] at hback
    exact h.2.1 hback.symm
  · intro heq
    rw [heq] at hback
    exact h.2.2 hback.symm

theorem proper_of_safeName {n : Name} (h : Proper (U.safeName n)) : Proper n := by
  refine ⟨?_, ?_, ?_⟩
  · rintro rfl
    exact h.1 rfl
  · rintro rfl
    refine h.2.1 ?_
    simp [Unicode.safeName, Unicode.allowed, encode]
  · rintro rfl
    refine h.2.2 ?_
    simp [Unicode.safeName, Unicode.allowed, encode]

theorem encode_of_not_mem {n : Name} (h : ':' ∉ n) : encode n = n := by
  induction n with
  | nil => rfl
  | cons c n ih =>
    rw [List.mem_cons, not_or] at h
    rw [encode_cons (Ne.symm h.1), ih h.2]

theorem safeName_eq_self_iff {n : Name} :
    U.safeName n = n ↔ ∀ c ∈ n, U.allowed c = true ∧ c ≠ ':' := by
  constructor
  · intro h c hc
    rw [← h] at hc
    refine ⟨Unicode.allowed_of_mem_safeName hc, ?_⟩
    rintro rfl
    exact colon_not_mem_encode _ hc
  · intro h
    rw [Unicode.safeName_of_allowed fun c hc => (h c hc).1]
    exact encode_of_not_mem fun hc => (h _ hc).2 rfl

theorem scan_eq_some_iff {root dir : Dir} {cid uid : Name} :
    scan root dir = some (cid, uid) ↔ ∃ name, dir = root ++ [uid, name] ∧ decode name = cid := by
  constructor
  · intro h
    unfold scan at h
    split at h
    · rename_i u name hdrop
      split at h
      · rename_i htake
        rw [Option.some.injEq, Prod.mk.injEq] at h
        obtain ⟨rfl, rfl⟩ := h
        refine ⟨name, ?_, rfl⟩
        have hsplit := List.take_append_drop root.length dir
        rw [htake, hdrop] at hsplit
        exact hsplit.symm
      · cases h
    · cases h
  · rintro ⟨name, rfl, rfl⟩
    unfold scan
    rw [List.drop_left, List.take_left]
    simp

end

/-! ## One to one -/

section

variable {U : Unicode} {s : Store U} {root : Dir}

theorem agentDir_eq (c : Created U) (a : Agent U) :
    c.agentDir root a = join (c.dir root) (U.safeName a.1) := by
  unfold Created.agentDir
  rw [canonAgent_agent]

theorem mem_pruneContexts_iff {dir context : Dir} {declared : List (Agent U)}
    {contexts : List Dir} : context ∈ pruneContexts U dir declared contexts ↔
      context ∈ contexts ∧ ∀ name, dir ++ [name] ∈ contexts → dir ++ [name] <+: context →
        name ∉ skipped → U.canonAgent (decode name) ∈ declared.map Subtype.val := by
  unfold pruneContexts
  rw [List.mem_filter, Bool.not_eq_true', List.any_eq_false]
  refine and_congr_right fun _ => ⟨?_, ?_⟩
  · intro h name hmem hpre hskip
    by_contra hdeclared
    refine h _ hmem ?_
    generalize declared.map Subtype.val = names at hdeclared
    simp [hpre, hskip, hdeclared]
  · intro h entry hmem hentry
    rcases entry.eq_nil_or_concat with rfl | ⟨above, name, rfl⟩
    · simp at hentry
    · rw [List.concat_eq_append] at hmem hentry
      simp only [List.dropLast_concat, List.getLast?_append, List.getLast?_singleton,
        Option.some_or, Option.any_some, Bool.and_eq_true, decide_eq_true_eq] at hentry
      obtain ⟨⟨⟨rfl, -⟩, hpre⟩, hskip, hdeclared⟩ := hentry
      exact hdeclared (h name hmem hpre hskip)

namespace Store.PlainNames

variable (h : s.PlainNames root)

include h

theorem userDir_eq {c : Created U} (hc : c ∈ s.convs) : userDir U root c.uid = root ++ [c.uid] := by
  unfold userDir
  rw [safeName_eq_self_iff.mpr (h.uid c hc).1]
  exact join_of_proper (h.uid c hc).2 root

theorem dir_eq {c : Created U} (hc : c ∈ s.convs) :
    c.dir root = root ++ [c.uid, U.safeName c.cid] := by
  unfold Created.dir
  rw [h.userDir_eq hc, join_of_proper (proper_safeName (h.cid c hc).1 (h.cid c hc).2)]
  simp

theorem scan_dir {c : Created U} (hc : c ∈ s.convs) :
    scan root (c.dir root) = some (c.cid, c.uid) :=
  scan_eq_some_iff.mpr ⟨_, h.dir_eq hc, Unicode.decode_safeName_iff.mpr (h.cid c hc).1⟩

theorem agents_apart {c : Created U} (hc : c ∈ s.convs) {a b : Agent U} (ha : a ∈ c.agents)
    (hb : b ∈ c.agents) (hne : a ≠ b) : c.agentDir root a ≠ c.agentDir root b := by
  rcases h.agent c hc a ha with hplain | ⟨hapart, -⟩
  · rcases h.agent c hc b hb with hplain' | ⟨hapart, -⟩
    · intro heq
      rw [agentDir_eq, agentDir_eq, join_of_proper (proper_safeName hplain.1 hplain.2),
        join_of_proper (proper_safeName hplain'.1 hplain'.2)] at heq
      have hname : U.safeName a.1 = U.safeName b.1 := by simpa using heq
      exact hne (Subtype.ext (hplain.1.safeName_injective hplain'.1 hname))
    · exact hapart a ha hne
  · exact fun heq => hapart b hb (Ne.symm hne) heq.symm

theorem keeps {c : Created U} (hc : c ∈ s.convs) {a : Agent U} (ha : a ∈ c.declared)
    (hw : a ∈ c.written) :
    c.agentDir root a ∈ pruneContexts U (c.dir root) c.declared (s.contexts root) := by
  refine mem_pruneContexts_iff.mpr ⟨?_, ?_⟩
  · exact List.mem_flatMap.mpr ⟨c, hc, List.mem_map_of_mem hw⟩
  intro name _ hpre hskip
  rw [agentDir_eq] at hpre
  by_cases hproper : Proper (U.safeName a.1)
  · -- The agent's own directory is the only one on the way to its context.
    rw [join_of_proper hproper] at hpre
    have hname : name = U.safeName a.1 := by simpa using hpre
    subst hname
    rcases h.agent c hc a (List.mem_append_left _ ha) with hplain | ⟨-, hexempt⟩
    · rw [canonAgent_decode, Unicode.decode_safeName_iff.mpr hplain.1]
      exact List.mem_map_of_mem ha
    · rcases hexempt ha hw with hskipped | himproper
      · exact absurd hskipped hskip
      · exact absurd hproper himproper
  · have hle := hpre.length_le
    have hle' := length_join_of_not_proper hproper (c.dir root)
    rw [List.length_append, List.length_singleton] at hle
    omega

theorem registers {listing : List Dir} (hperm : listing.Perm (s.dirs root)) (cid : Name) :
    (ensureLoaded root listing).get? cid = s.owners.get? cid := by
  have hscan : (s.dirs root).filterMap (scan root) = s.owners := by
    unfold Store.dirs Store.owners
    rw [List.filterMap_map, ← List.filterMap_eq_map]
    refine List.filterMap_congr ?_
    intro c hc
    exact h.scan_dir hc
  have hitems := hperm.filterMap (scan root)
  rw [hscan] at hitems
  have hnodup : (s.owners.map Prod.fst).Nodup := by
    unfold Store.owners
    rw [List.map_map]
    exact s.nodup
  have hnodup' : ((listing.filterMap (scan root)).map Prod.fst).Nodup :=
    (hitems.map Prod.fst).nodup_iff.mpr hnodup
  unfold ensureLoaded
  rw [PyDict.update_nil_of_nodup hnodup']
  apply Option.ext
  intro uid
  constructor
  · intro hget
    exact PyDict.get?_of_mem hnodup (hitems.mem_iff.mp (PyDict.mem_of_get? hget))
  · intro hget
    exact PyDict.get?_of_mem hnodup' (hitems.mem_iff.mpr (PyDict.mem_of_get? hget))

theorem oneToOne : s.OneToOne root where
  convs_apart := by
    intro c hc d hd hne heq
    rw [h.dir_eq hc, h.dir_eq hd] at heq
    have hname : U.safeName c.cid = U.safeName d.cid := by
      have hsplit := List.append_cancel_left heq
      rw [List.cons.injEq, List.cons.injEq] at hsplit
      exact hsplit.2.1
    exact hne ((h.cid c hc).1.safeName_injective (h.cid d hd).1 hname)
  users_apart := by
    intro c hc d hd hne heq
    rw [h.userDir_eq hc, h.userDir_eq hd] at heq
    have hname : [c.uid] = [d.uid] := List.append_cancel_left heq
    exact hne (List.cons.inj hname).1
  agents_apart := fun c hc a ha b hb hne => h.agents_apart hc ha hb hne
  registers := fun listing hperm cid => h.registers hperm cid
  keeps := fun c hc a ha hw => h.keeps hc ha hw

end Store.PlainNames

namespace Store.OneToOne

variable (h : s.OneToOne root)

include h

theorem registered {c : Created U} (hc : c ∈ s.convs) :
    ∃ d ∈ s.convs, d.dir root = root ++ [U.safeName d.uid, U.safeName d.cid] ∧
      (Proper (U.safeName d.uid) ∧ Proper (U.safeName d.cid)) ∧
      U.safeName d.uid = c.uid ∧ decode (U.safeName d.cid) = c.cid := by
  have hnodup : (s.owners.map Prod.fst).Nodup := by
    unfold Store.owners
    rw [List.map_map]
    exact s.nodup
  have howner : s.owners.get? c.cid = some c.uid :=
    PyDict.get?_of_mem hnodup (List.mem_map_of_mem (f := fun c : Created U => (c.cid, c.uid)) hc)
  have hget := (h.registers _ (List.Perm.refl _) c.cid).trans howner
  unfold ensureLoaded at hget
  rcases PyDict.mem_of_mem_update (PyDict.mem_of_get? hget) with hnil | hmem
  · cases hnil
  obtain ⟨dir, hdir, hscan⟩ := List.mem_filterMap.mp hmem
  obtain ⟨d, hd, rfl⟩ := List.mem_map.mp hdir
  obtain ⟨name, heq, hname⟩ := scan_eq_some_iff.mp hscan
  obtain ⟨hproper, huid, hcid⟩ := join_join_eq_iff.mp heq
  refine ⟨d, hd, ?_, hproper, huid, ?_⟩
  · rw [heq, huid, hcid]
  · rw [hcid, hname]

theorem plain_cid {c : Created U} (hc : c ∈ s.convs) : U.Plain c.cid ∧ Proper c.cid := by
  obtain ⟨d, -, -, ⟨-, hproper⟩, -, hcid⟩ := h.registered hc
  have hback : decode (U.safeName c.cid) = c.cid := by
    rw [← hcid, Unicode.safeName_decode]
  have hsafe : U.safeName c.cid = U.safeName d.cid := by
    rw [← hcid, Unicode.safeName_decode]
  rw [← hsafe] at hproper
  exact ⟨Unicode.decode_safeName_iff.mp hback, proper_of_safeName hproper⟩

theorem plain_uid {c : Created U} (hc : c ∈ s.convs) :
    (∀ ch ∈ c.uid, U.allowed ch = true ∧ ch ≠ ':') ∧ Proper c.uid := by
  obtain ⟨d, -, -, ⟨hproper, -⟩, huid, -⟩ := h.registered hc
  refine ⟨safeName_eq_self_iff.mp ?_, huid ▸ hproper⟩
  rw [← huid]
  refine safeName_eq_self_iff.mpr fun ch hch => ⟨Unicode.allowed_of_mem_safeName hch, ?_⟩
  rintro rfl
  exact colon_not_mem_encode _ hch

theorem plain_agent {c : Created U} (hc : c ∈ s.convs) {a : Agent U} (ha : a ∈ c.agents) :
    (U.Plain a.1 ∧ Proper a.1) ∨
      (∀ b ∈ c.agents, b ≠ a → c.agentDir root b ≠ c.agentDir root a) ∧
        (a ∈ c.declared → a ∈ c.written → Store.Exempt a) := by
  by_cases hplain : U.Plain a.1 ∧ Proper a.1
  · exact Or.inl hplain
  refine Or.inr ⟨fun b hb hne => h.agents_apart c hc b hb a ha hne, ?_⟩
  intro hdeclared hwritten
  by_contra hexempt
  unfold Store.Exempt at hexempt
  rw [not_or, not_not] at hexempt
  obtain ⟨hskip, hproper⟩ := hexempt
  have hkept := h.keeps c hc a hdeclared hwritten
  rw [mem_pruneContexts_iff, agentDir_eq, join_of_proper hproper] at hkept
  have hread := hkept.2 _ hkept.1 List.prefix_rfl hskip
  rw [canonAgent_decode] at hread
  -- The name that is read back is an agent with the same directory, so it is the same agent.
  obtain ⟨b, hb, hname⟩ := List.mem_map.mp hread
  have hsame : c.agentDir root b = c.agentDir root a := by
    rw [agentDir_eq, agentDir_eq, hname, Unicode.safeName_decode]
  have hba : b = a := by
    by_contra hne
    exact h.agents_apart c hc b (List.mem_append_left _ hb) a ha hne hsame
  have hback : decode (U.safeName a.1) = a.1 := by rw [← hname, hba]
  exact hplain ⟨Unicode.decode_safeName_iff.mp hback, proper_of_safeName hproper⟩

end Store.OneToOne

end

section

variable {U : Unicode}

/-- Names and directories correspond one to one exactly when the names are plain. -/
theorem oneToOne_iff_plainNames (s : Store U) (root : Dir) :
    s.OneToOne root ↔ s.PlainNames root := by
  refine ⟨fun h => ⟨fun c hc => h.plain_cid hc, fun c hc => h.plain_uid hc, ?_⟩, fun h => h.oneToOne⟩
  intro c hc a ha
  exact h.plain_agent hc ha

end

theorem map_toLower_eq_self_iff (n : Name) :
    n.map Char.toLower = n ↔ ∀ c ∈ n, [c].map Char.toLower = [c] := by
  induction n with
  | nil => simp
  | cons c n ih => simpa using fun _ => ih

/-- The tables for ASCII. -/
def ascii : Unicode where
  isalnum := Char.isAlphanum
  lower := List.map Char.toLower
  isSpace_of_isalnum _ := not_isSpace_of_isAlphanum
  lower_eq_self_iff := map_toLower_eq_self_iff
  lower_underscore := rfl
  lower_colon := rfl

def single (cid : String) (agents : List (Agent ascii)) : Store ascii where
  convs := [⟨cid.toList, "u".toList, agents, agents⟩]
  nodup := List.nodup_singleton _

def asciiAgent (name : String)
    (h : (Unicode.strip name.toList = name.toList ∧ ascii.lower name.toList = name.toList) ∧
      name.toList ≠ []) : Agent ascii := ⟨name.toList, h⟩

/-- An agent loses its context, a conversation comes back under another id, and two agents share a
context. -/
theorem not_oneToOne :
    let reviewer := asciiAgent "code reviewer" (by decide)
    let colon := asciiAgent "a:b" (by decide)
    let bars := asciiAgent "a__b" (by decide)
    (pruneContexts ascii [['u'], ['c']] [reviewer] ((single "c" [reviewer]).contexts []) = [] ∧
      ¬ (single "c" [reviewer]).OneToOne []) ∧
    (ensureLoaded [] ((single "a__b" []).dirs []) = [(['a', ':', 'b'], ['u'])] ∧
      ¬ (single "a__b" []).OneToOne []) ∧
    (colon ≠ bars ∧
      colon.1 = "a:b".toList ∧ bars.1 = "a__b".toList ∧
      (single "c" [colon, bars]).contexts [] =
        List.replicate 2 (["u", "c", "a__b"].map String.toList) ∧
      ¬ (single "c" [colon, bars]).OneToOne []) := by
  intro reviewer colon bars
  refine ⟨⟨by decide +kernel, ?_⟩, ⟨by decide +kernel, ?_⟩, by decide +kernel, rfl, rfl,
    by decide +kernel, ?_⟩
  · intro h
    have hkept := h.keeps _ List.mem_cons_self reviewer List.mem_cons_self List.mem_cons_self
    revert hkept
    decide +kernel
  · intro h
    have hget := h.registers _ (List.Perm.refl _) "a__b".toList
    revert hget
    decide +kernel
  · intro h
    refine h.agents_apart _ List.mem_cons_self colon ?_ bars ?_ (by decide +kernel) ?_
    · exact List.mem_cons_self
    · exact List.mem_cons_of_mem _ List.mem_cons_self
    · decide +kernel

end PawFlow.Conversation
