import PawFlow.Gating.Policy
import PawFlow.Lib.Json
import PawFlow.Lib.Lines

/-!
# The floor under the gates

`ToolApprovalGate.check` forces a prompt for a catastrophic command and for a protected path,
whatever has been allowed before (`core/tool_approval.py`). The gates class the same call with the
same tables and code of their own (`core/gating_policy.py`).
-/

namespace PawFlow.Gating

open PawFlow.Lib

/-! ## Tables -/

def exemptTools : List String :=
  ["recall", "semantic_recall", "consult_agent", "pawflow_help", "list_secrets", "read", "list_dir",
    "stat", "exists", "glob", "grep", "search", "show_file", "get_image_model_info", "web_search",
    "read_history", "read_parent_context", "conversation_search", "read_inbox", "notify_user",
    "ask_user", "request_confirmation", "get_tool_schema", "compact_result", "share_file",
    "create_file"]

def alwaysAsk : List String :=
  ["remote_exec", "execute_script", "bash", "screen", "browser_action", "browser", "store_secret",
    "link_identity", "create_tool", "manage_resource"]

def fsExempt : List String :=
  ["list_dir", "read_file", "stat", "exists", "search", "grep", "git_status", "git_log", "git_diff"]

def seeScreenPaths : List String := ["screen", "screenshot"]

def commandBearingTools : List String := ["bash", "execute_script", "monitor"]

def toolAliases : PyDict String String :=
  [("run_command", "bash"), ("shell", "bash"), ("execute", "bash"), ("run", "bash"),
    ("terminal", "bash"), ("exec", "bash"), ("find_files", "glob"), ("list_files", "glob"),
    ("cat", "read"), ("view", "read"), ("open", "read"), ("create_file", "write"),
    ("save", "write"), ("replace", "edit"), ("patch", "edit"), ("modify", "edit"),
    ("web_fetch", "fetch"), ("http", "fetch"), ("image", "see"), ("image_view", "see"),
    ("view_image", "see"), ("Task", "Agent"), ("Brief", "SendUserMessage"),
    ("KillShell", "TaskStop"), ("AgentOutputTool", "TaskOutput"), ("BashOutputTool", "TaskOutput")]

def catastrophicPatterns : List String :=
  ["rm -rf /", "rm -rf /*", "rm -rf ~", "dd if=/dev/zero of=/dev/sd", "mkfs.", ":()\x7b:|:&\x7d;:",
    "chmod -R 777 /", "mv / ", "mv /* ", "> /dev/sda", "del /f /s /q c:\\"]

def protectedPaths : List String :=
  [".git/", ".git\\", ".env", ".env.", ".claude/", ".claude\\", ".vscode/", ".vscode\\", "secrets",
    ".credentials", "id_rsa", "id_ed25519", ".ssh/", ".npmrc", ".pypirc", "docker-compose",
    "Dockerfile", ".github/workflows"]

def patchPathPrefixes : List String :=
  ["*** Add File:", "*** Update File:", "*** Delete File:", "*** Move to:"]

def writeTools : List String :=
  ["write", "edit", "delete", "batch_edit", "apply_patch", "find_replace"]

def fsWriteActions : List String :=
  ["write_file", "edit", "delete_file", "find_replace", "batch_edit", "apply_patch"]

/-! ## The call -/

/-- What the two sides rely on of `str` and `shlex`. -/
structure Python where
  lower : String → String
  casefold : String → String
  str : Json → String
  /-- `shlex.split`, none if it raises. -/
  split : String → Option (List String)
  str_str : ∀ s, str (.str s) = s
  casefold_casefold : ∀ s, casefold (casefold s) = casefold s
  strip_casefold : ∀ s, strip (casefold (strip s)) = casefold (strip s)
  casefold_plain : ∀ s, (∀ c ∈ s.toList, c.isLower ∨ c = '_') → casefold s = s

abbrev Arguments := PyDict String Json

/-- `arguments.get(key)`; one that is missing counts as empty. -/
def Arguments.value (args : Arguments) (key : String) : Json := (args.get? key).getD (.str "")

namespace Python

variable (py : Python)

/-- `str(value or "")`. -/
def text (v : Json) : String := if v.truthy then py.str v else ""

def normalizeToolName (name : String) : String := py.casefold (strip name)

def escalatedPolicyName (name : String) : String :=
  let policy := py.normalizeToolName name
  let target := py.normalizeToolName ((toolAliases.get? policy).getD policy)
  if target ∈ alwaysAsk then target else policy

def isCommandBearingTool (name : String) : Bool :=
  py.escalatedPolicyName name ∈ commandBearingTools

def isCatastrophicCommand (command : String) : Bool :=
  command ≠ "" && catastrophicPatterns.any fun pat =>
    occursIn pat.toList (py.lower (strip command)).toList

def isProtectedPath (path : String) : Bool :=
  path ≠ "" && protectedPaths.any fun p =>
    occursIn (py.lower p).toList ((py.lower path).toList.map fun c => if c = '\\' then '/' else c)

/-- `_patch_paths`; a line is stripped, so it does not matter that it still has its end. -/
def patchPaths (patch : Json) : List String :=
  (splitLines (py.text patch).toList).flatMap fun raw =>
    let line := strip (.ofList raw)
    let from_ := fun n => strip (.ofList (line.toList.drop n))
    match patchPathPrefixes.find? (startsWith line) with
    | some pre => if from_ pre.length = "" then [] else [from_ pre.length]
    | none =>
      if startsWith line "--- " || startsWith line "+++ " then
        let value := strip (.ofList ((line.toList.drop 4).takeWhile (· ≠ '\t')))
        if value = "" ∨ value = "/dev/null" then [] else [value]
      else if startsWith line "diff --git " then
        let parts := (py.split line).getD []
        if 4 ≤ parts.length then (parts.drop 2).take 2 else []
      else []

/-- A text that is not empty. -/
def pathOf : Json → Option String
  | .str s => if s = "" then none else some s
  | _ => none

/-- The paths of `edits`; a number or `true` cannot be iterated. -/
def editPaths (edits : Json) : Except Unit (List String) :=
  match edits with
  | .arr items => .ok (items.filterMap fun edit => (edit.get? "path").bind pathOf)
  | .str _ | .obj _ => .ok []
  | _ => if edits.truthy then .error () else .ok []

/-- The paths of the call itself. -/
def ownPaths (args : Arguments) : List String :=
  ["path", "file_path"].filterMap fun key => pathOf (args.value key)

def writePaths (action : String) (args : Arguments) : Except Unit (List String) :=
  if py.normalizeToolName action = "batch_edit" then
    (editPaths (args.value "edits")).map (ownPaths args ++ ·)
  else if py.normalizeToolName action = "apply_patch" then
    .ok (ownPaths args ++ py.patchPaths (args.value "patch"))
  else .ok (ownPaths args)

/-- `any(_is_protected_path(path) for path in _write_paths(action, arguments))`. -/
def writesProtected (action : String) (args : Arguments) : Except Unit Bool :=
  (py.writePaths action args).map fun paths => paths.any py.isProtectedPath

/-! ## The approval dialog -/

/-- The test of `_cmd`: only a text has `strip`. -/
def commandIsCatastrophic : Json → Except Unit Bool
  | .str command => .ok (py.isCatastrophicCommand command)
  | command => if command.truthy then .error () else .ok false

def isExempt (name : String) (args : Arguments) : Except Unit Bool :=
  let policy := py.escalatedPolicyName name
  if policy = "filesystem" ∧ args ≠ [] then
    let action := args.value "action"
    if action.hashable then .ok (fsExempt.any action.isStr) else .error ()
  else if policy = "see" ∧ args ≠ [] then
    match args.value "path" with
    | .str path => .ok (strip (py.lower path) ∉ seeScreenPaths)
    | path => if path.truthy then .error () else .ok true
  else .ok (policy ∈ exemptTools && policy ∉ ["remember", "forget"])

/-- Why `check` forces a prompt. -/
structure Forced where
  catastrophic : Bool := false
  protectedPath : Bool := false

/-- `check`, up to its lookup of the permissions; empty arguments hold no command and no path. -/
def check (name : String) (args : Arguments) : Except Unit Forced := do
  if ← py.isExempt name args then
    return {}
  let policy := py.escalatedPolicyName name
  let catastrophic ←
    if py.isCommandBearingTool name then
      let command := args.value "command"
      py.commandIsCatastrophic (if command.truthy then command else args.value "code")
    else pure false
  let protectedPath ←
    if policy ∈ writeTools then py.writesProtected policy args
    else
      match args.value "action" with
      | .str action =>
        if policy = "filesystem" ∧ action ∈ fsWriteActions then py.writesProtected action args
        else pure false
      | _ => pure false
  return { catastrophic, protectedPath }

/-- The call is one that needs a human. -/
def Forces (name : String) (args : Arguments) : Prop :=
  ∃ forced, py.check name args = .ok forced ∧ (forced.catastrophic ∨ forced.protectedPath)

/-! ## The gates -/

/-- What `classify_call` sees of a call. -/
def call (name : String) (args : Arguments) : Call :=
  let policy := py.normalizeToolName name
  let command := args.value "command"
  let command := py.text (if command.truthy then command else args.value "cmd")
  { name := policy
    action := py.text (args.value "action")
    catastrophic := py.isCommandBearingTool policy && py.isCatastrophicCommand command
    writesProtectedPath := (py.writesProtected policy args).toOption.getD false }

/-- A catastrophic script where the gates look for a command. -/
def HidesCommand (name : String) (args : Arguments) : Prop :=
  py.isCommandBearingTool name ∧ ¬ (args.value "command").truthy ∧
    (∃ code, args.value "code" = .str code ∧ py.isCatastrophicCommand code) ∧
    ¬ py.isCatastrophicCommand (py.text (args.value "cmd"))

/-- A protected path in the edits or the patch of a `filesystem` call. -/
def HidesPath (name : String) (args : Arguments) : Prop :=
  py.normalizeToolName name = "filesystem" ∧
    (args.value "action" = .str "batch_edit" ∧
        (∃ paths, editPaths (args.value "edits") = .ok paths ∧ paths.any py.isProtectedPath) ∨
      args.value "action" = .str "apply_patch" ∧
        (py.patchPaths (args.value "patch")).any py.isProtectedPath)

/-- The gates miss what the dialog sees. -/
def Slips (name : String) (args : Arguments) : Prop :=
  (py.HidesCommand name args ∨ py.HidesPath name args) ∧
    ¬ hardConfirmActionPrefixes.any (startsWith (py.text (args.value "action"))) ∧
    ¬ (ownPaths args).any py.isProtectedPath

/-! ## Names -/

variable {py} {name : String} {args : Arguments}

theorem normalize_normalize (s : String) :
    py.normalizeToolName (py.normalizeToolName s) = py.normalizeToolName s := by
  unfold normalizeToolName
  rw [py.strip_casefold, py.casefold_casefold]

variable {action : String}

theorem normalize_fsWrite (h : action ∈ fsWriteActions) : py.normalizeToolName action = action := by
  have hplain : ∀ c ∈ action.toList, c.isLower ∨ c = '_' := by
    simp only [fsWriteActions, List.mem_cons, List.not_mem_nil, or_false] at h
    rcases h with rfl | rfl | rfl | rfl | rfl | rfl <;> simp
  have hspace : ∀ c ∈ action.toList, isSpace c = false := by
    intro c hc
    rcases hplain c hc with hlower | rfl
    · have hlower : (c.isUpper || c.isLower || c.isDigit) = true := by
        rw [hlower, Bool.or_true, Bool.true_or]
      exact not_isSpace_of_isAlphanum hlower
    · decide
  have hstrip : strip action = action := by
    have htrim : ∀ l : List Char, (∀ c ∈ l, isSpace c = false) → l.dropWhile isSpace = l := by
      intro l hl
      cases l with
      | nil => rfl
      | cons c l => exact List.dropWhile_cons_of_neg (by simp [hl c])
    rw [strip, htrim _ hspace, htrim _ fun c hc => hspace c (List.mem_reverse.mp hc),
      List.reverse_reverse, String.ofList_toList]
  rw [normalizeToolName, hstrip, py.casefold_plain action hplain]

/-- An escalated name is that of a tool that always asks, for an alias. -/
theorem escalated_cases (name : String) :
    py.escalatedPolicyName name = py.normalizeToolName name ∨
      py.escalatedPolicyName name ∈ alwaysAsk ∧
        py.normalizeToolName name ∈ toolAliases.map Prod.fst := by
  unfold escalatedPolicyName
  dsimp only
  split_ifs with h
  · cases hget : toolAliases.get? (py.normalizeToolName name) with
    | none => exact .inl (by rw [Option.getD_none, normalize_normalize])
    | some target => exact .inr ⟨hget ▸ h, PyDict.mem_keys_of_get? hget⟩
  · exact .inl rfl

theorem escalated_normalize (name : String) :
    py.escalatedPolicyName (py.normalizeToolName name) = py.escalatedPolicyName name := by
  unfold escalatedPolicyName
  rw [normalize_normalize]

theorem escalated_eq_of_not_ask (h : py.escalatedPolicyName name ∉ alwaysAsk) :
    py.escalatedPolicyName name = py.normalizeToolName name :=
  (escalated_cases name).resolve_right fun hask => h hask.1

theorem escalated_filesystem (h : py.normalizeToolName name = "filesystem") :
    py.escalatedPolicyName name = "filesystem" := by
  rcases @escalated_cases py name with heq | ⟨-, hkey⟩
  · exact heq.trans h
  · rw [h] at hkey
    exact absurd hkey (by simp [toolAliases])

theorem normalize_filesystem (h : py.escalatedPolicyName name = "filesystem") :
    py.normalizeToolName name = "filesystem" := by
  rw [← escalated_eq_of_not_ask (by simp [h, alwaysAsk]), h]

/-- What a command-bearing tool is not called. -/
theorem command_name (h : py.isCommandBearingTool name) :
    py.normalizeToolName name ∉ internalUngatedTools ++ hardConfirmTools ++
      ["batch_edit", "apply_patch", "filesystem"] := by
  have hmem : py.escalatedPolicyName name ∈ commandBearingTools := of_decide_eq_true h
  rcases @escalated_cases py name with heq | ⟨-, hkey⟩
  · rw [heq] at hmem
    simp only [commandBearingTools, List.mem_cons, List.not_mem_nil, or_false] at hmem
    rcases hmem with hmem | hmem | hmem <;> rw [hmem] <;>
      simp [internalUngatedTools, hardConfirmTools]
  · have hall : ∀ key ∈ toolAliases.map Prod.fst, key ∉ internalUngatedTools ++ hardConfirmTools ++
        ["batch_edit", "apply_patch", "filesystem"] := by
      simp [toolAliases, internalUngatedTools, hardConfirmTools]
    exact hall _ hkey

theorem writePaths_own (h : py.normalizeToolName action ≠ "batch_edit")
    (h' : py.normalizeToolName action ≠ "apply_patch") :
    py.writePaths action args = .ok (ownPaths args) := by
  rw [writePaths, if_neg h, if_neg h']

/-! ## The two sides -/

theorem classify_iff (name : String) (args : Arguments) :
    classifyCall (py.call name args) = .hardConfirm ↔
      py.normalizeToolName name ∉ internalUngatedTools ∧
        (py.normalizeToolName name ∈ hardConfirmTools ∨
          hardConfirmActionPrefixes.any (startsWith (py.call name args).action) ∨
          (py.call name args).catastrophic ∨ (py.call name args).writesProtectedPath) := by
  have hname : (py.call name args).name = py.normalizeToolName name := rfl
  have hpermission : (py.call name args).toolPermission = "" := rfl
  have hread : readOnlyDenies (py.call name args) = false := rfl
  have hoverride : (py.call name args).readOnlyOverride = false := rfl
  unfold classifyCall
  rw [hname, hpermission, hread, hoverride]
  split_ifs <;> simp_all

theorem isExempt_eq (hfs : py.escalatedPolicyName name ≠ "filesystem")
    (hsee : py.escalatedPolicyName name ≠ "see") (h : py.escalatedPolicyName name ∉ exemptTools) :
    py.isExempt name args = .ok false := by
  simp [isExempt, hfs, hsee, h]

theorem forces_command (h : py.isCommandBearingTool name) :
    py.Forces name args ↔
      py.commandIsCatastrophic (if (args.value "command").truthy then args.value "command"
        else args.value "code") = .ok true := by
  have hmem : py.escalatedPolicyName name ∈ commandBearingTools := of_decide_eq_true h
  have hall : ∀ policy ∈ commandBearingTools, policy ≠ "filesystem" ∧ policy ≠ "see" ∧
      policy ∉ exemptTools ∧ policy ∉ writeTools := by
    simp [commandBearingTools, exemptTools, writeTools]
  obtain ⟨hfs, hsee, hexempt, hwrite⟩ := hall _ hmem
  simp only [Forces, check, isExempt_eq hfs hsee hexempt, h, hfs, hwrite, if_true, if_false,
    false_and]
  cases py.commandIsCatastrophic (if (args.value "command").truthy then args.value "command"
    else args.value "code") with
  | error e => simp [bind, Except.bind]
  | ok catastrophic =>
    cases args.value "action" <;> simp [bind, Except.bind, pure, Except.pure]

theorem forces_write (h : py.escalatedPolicyName name ∈ writeTools) :
    py.Forces name args ↔ py.writesProtected (py.escalatedPolicyName name) args = .ok true := by
  have hall : ∀ policy ∈ writeTools, policy ≠ "filesystem" ∧ policy ≠ "see" ∧
      policy ∉ exemptTools ∧ policy ∉ commandBearingTools := by
    simp [commandBearingTools, exemptTools, writeTools]
  obtain ⟨hfs, hsee, hexempt, hcommand⟩ := hall _ h
  simp only [Forces, check, isExempt_eq hfs hsee hexempt, isCommandBearingTool, hcommand, h,
    if_true, decide_false, Bool.false_eq_true, if_false]
  cases py.writesProtected (py.escalatedPolicyName name) args <;>
    simp [bind, Except.bind, pure, Except.pure]

theorem not_forces (hcommand : ¬ py.isCommandBearingTool name)
    (hwrite : py.escalatedPolicyName name ∉ writeTools)
    (hfs : ∀ action ∈ fsWriteActions, args.value "action" = .str action →
      py.escalatedPolicyName name ≠ "filesystem") : ¬ py.Forces name args := by
  simp only [Forces, check, hcommand, hwrite, if_false, Bool.false_eq_true]
  cases py.isExempt name args with
  | error e => simp [bind, Except.bind]
  | ok exempt =>
    cases exempt with
    | true => simp [bind, Except.bind, pure, Except.pure]
    | false =>
      cases haction : args.value "action" with
      | str action =>
        have h : ¬ (py.escalatedPolicyName name = "filesystem" ∧ action ∈ fsWriteActions) :=
          fun h => hfs action h.2 haction h.1
        simp [h, bind, Except.bind, pure, Except.pure]
      | _ => simp [bind, Except.bind, pure, Except.pure]

theorem forces_filesystem (h : py.escalatedPolicyName name = "filesystem") :
    py.Forces name args ↔ ∃ action ∈ fsWriteActions, args.value "action" = .str action ∧
      py.writesProtected action args = .ok true := by
  have hcommand : ¬ py.isCommandBearingTool name := by
    simp [isCommandBearingTool, h, commandBearingTools]
  have hwrite : "filesystem" ∉ writeTools := by simp [writeTools]
  by_cases hexists : ∃ action ∈ fsWriteActions, args.value "action" = .str action
  · obtain ⟨action, hmem, haction⟩ := hexists
    have hall : ∀ action ∈ fsWriteActions, action ≠ "" ∧ ¬ fsExempt.any (Json.str action).isStr := by
      simp [fsWriteActions, fsExempt, Json.isStr]
    obtain ⟨hne, hexempt⟩ := hall action hmem
    have hargs : args ≠ [] := by
      rintro rfl
      exact hne (Json.str.inj haction).symm
    have hexempt : py.isExempt name args = .ok false := by
      simp [isExempt, h, hargs, haction, hexempt, Json.hashable]
    simp only [Forces, check, hexempt, hcommand, hwrite, h, haction, hmem, Json.str.injEq]
    cases hprot : py.writesProtected action args <;>
      simp [bind, Except.bind, pure, Except.pure, hmem, hprot]
  · refine iff_of_false (not_forces hcommand (h ▸ hwrite) fun action hmem haction => ?_) ?_
    · exact absurd ⟨action, hmem, haction⟩ hexists
    · rintro ⟨action, hmem, haction, -⟩
      exact hexists ⟨action, hmem, haction⟩

theorem call_writesProtectedPath (h : py.normalizeToolName name ≠ "batch_edit")
    (h' : py.normalizeToolName name ≠ "apply_patch") :
    (py.call name args).writesProtectedPath = (ownPaths args).any py.isProtectedPath := by
  rw [call, writesProtected, writePaths_own]
  · rfl
  · rwa [normalize_normalize]
  · rwa [normalize_normalize]

/-- Beyond the paths of the call itself, a `filesystem` action can reach its edits or its patch. -/
theorem writesProtected_iff (h : action ∈ fsWriteActions)
    (hown : ¬ (ownPaths args).any py.isProtectedPath) :
    py.writesProtected action args = .ok true ↔
      action = "batch_edit" ∧
          (∃ paths, editPaths (args.value "edits") = .ok paths ∧ paths.any py.isProtectedPath) ∨
        action = "apply_patch" ∧
          (py.patchPaths (args.value "patch")).any py.isProtectedPath := by
  have hown : (ownPaths args).any py.isProtectedPath = false := by simpa using hown
  rw [writesProtected, writePaths, normalize_fsWrite h]
  by_cases hbatch : action = "batch_edit"
  · subst hbatch
    cases editPaths (args.value "edits") <;> simp [Except.map, hown]
  · by_cases hpatch : action = "apply_patch"
    · simp [hpatch, Except.map, hown]
    · simp [hbatch, hpatch, Except.map, hown]

theorem forces_iff_hidesPath (h : py.escalatedPolicyName name = "filesystem")
    (hown : ¬ (ownPaths args).any py.isProtectedPath) :
    py.Forces name args ↔ py.HidesPath name args := by
  rw [forces_filesystem h]
  constructor
  · rintro ⟨action, hmem, haction, hprot⟩
    rcases (writesProtected_iff hmem hown).mp hprot with ⟨rfl, hreaches⟩ | ⟨rfl, hreaches⟩
    · exact ⟨normalize_filesystem h, .inl ⟨haction, hreaches⟩⟩
    · exact ⟨normalize_filesystem h, .inr ⟨haction, hreaches⟩⟩
  · rintro ⟨-, ⟨haction, hreaches⟩ | ⟨haction, hreaches⟩⟩
    · have hmem : "batch_edit" ∈ fsWriteActions := by simp [fsWriteActions]
      exact ⟨_, hmem, haction, (writesProtected_iff hmem hown).mpr (.inl ⟨rfl, hreaches⟩)⟩
    · have hmem : "apply_patch" ∈ fsWriteActions := by simp [fsWriteActions]
      exact ⟨_, hmem, haction, (writesProtected_iff hmem hown).mpr (.inr ⟨rfl, hreaches⟩)⟩

theorem commandIsCatastrophic_iff {command : Json} :
    py.commandIsCatastrophic command = .ok true ↔
      ∃ s, command = .str s ∧ py.isCatastrophicCommand s := by
  cases command with
  | str s => simp [commandIsCatastrophic]
  | _ =>
    simp only [commandIsCatastrophic, reduceCtorEq, false_and, exists_false, iff_false]
    split_ifs <;> simp

theorem hidesCommand_iff (h : py.isCommandBearingTool name) :
    py.HidesCommand name args ↔ py.Forces name args ∧ ¬ (py.call name args).catastrophic := by
  have hbearing : py.isCommandBearingTool (py.normalizeToolName name) := by
    rwa [isCommandBearingTool, escalated_normalize]
  have hgate : (py.call name args).catastrophic = py.isCatastrophicCommand (py.text
      (if (args.value "command").truthy then args.value "command" else args.value "cmd")) := by
    rw [call, hbearing, Bool.true_and]
  rw [forces_command h, hgate, commandIsCatastrophic_iff]
  by_cases hcommand : (args.value "command").truthy
  · have hkeeps : ∀ s, args.value "command" = .str s → py.text (args.value "command") = s := by
      intro s hs
      rw [text, if_pos hcommand, hs, py.str_str]
    simp only [HidesCommand, hcommand, not_true_eq_false, false_and, and_false, if_true, false_iff]
    rintro ⟨⟨s, hs, hcat⟩, hgate⟩
    exact hgate (by rwa [hkeeps s hs])
  · simp [HidesCommand, hcommand, h]

/-- The gates ask for a human wherever the dialog does, unless they look past the command or the
path. -/
theorem hardConfirm_of_forces_iff (py : Python) (name : String) (args : Arguments) :
    (py.Forces name args → classifyCall (py.call name args) = .hardConfirm) ↔
      ¬ py.Slips name args := by
  rw [classify_iff]
  have haction : (py.call name args).action = py.text (args.value "action") := rfl
  by_cases hcommand : py.isCommandBearingTool name
  · have hname := command_name hcommand
    simp only [List.mem_append, not_or, List.mem_cons, List.not_mem_nil, or_false] at hname
    obtain ⟨⟨hinternal, hhard⟩, hbatch, hpatch, hfs⟩ := hname
    have hpath : ¬ py.HidesPath name args := fun h => hfs h.1
    rw [Slips, hidesCommand_iff hcommand, haction,
      call_writesProtectedPath hbatch hpatch]
    tauto
  · have hhides : ¬ py.HidesCommand name args := fun h => hcommand h.1
    by_cases hwrite : py.escalatedPolicyName name ∈ writeTools
    · have hall : ∀ policy ∈ writeTools, policy ≠ "filesystem" ∧ policy ∉ alwaysAsk ∧
          policy ∉ internalUngatedTools := by
        simp [writeTools, alwaysAsk, internalUngatedTools]
      obtain ⟨hfs, hask, hinternal⟩ := hall _ hwrite
      have hpolicy := escalated_eq_of_not_ask hask
      have hpath : ¬ py.HidesPath name args := fun h => hfs (hpolicy.trans h.1)
      have hwrites : py.Forces name args → (py.call name args).writesProtectedPath := by
        intro h
        rw [call, ← hpolicy, (forces_write hwrite).mp h]
        rfl
      rw [hpolicy] at hinternal
      rw [Slips]
      tauto
    · by_cases hfs : py.escalatedPolicyName name = "filesystem"
      · have hpolicy : py.normalizeToolName name = "filesystem" := by
          rw [← escalated_eq_of_not_ask (by simp [hfs, alwaysAsk]), hfs]
        have hcat : (py.call name args).catastrophic = false := by
          simp [call, isCommandBearingTool, escalated_normalize, hfs, commandBearingTools]
        have hown := @forces_iff_hidesPath py name args hfs
        have hinternal : "filesystem" ∉ internalUngatedTools := by simp [internalUngatedTools]
        have hhard : "filesystem" ∉ hardConfirmTools := by simp [hardConfirmTools]
        rw [Slips, haction, hcat, call_writesProtectedPath (by simp [hpolicy]) (by simp [hpolicy]),
          hpolicy]
        tauto
      · have hnone : ¬ py.Forces name args := not_forces hcommand hwrite fun _ _ _ => hfs
        have hpath : ¬ py.HidesPath name args := fun h => hfs (escalated_filesystem h.1)
        rw [Slips]
        tauto

/-- Lower-case ASCII and quoted text only. -/
def plain : Python where
  lower s := .ofList (s.toList.map Char.toLower)
  casefold := id
  str v := match v with
    | .str s => s
    | _ => ""
  split _ := none
  str_str _ := rfl
  casefold_casefold _ := rfl
  strip_casefold := strip_strip
  casefold_plain _ _ := rfl

theorem ordinary_forced :
    (plain.Forces "execute_script" [("code", .str "rm -rf /")] ∧
      classifyCall (plain.call "execute_script" [("code", .str "rm -rf /")]) = .ordinary) ∧
    plain.Forces "filesystem"
        [("action", .str "batch_edit"), ("edits", .arr [.obj [("path", .str ".env")]])] ∧
      classifyCall (plain.call "filesystem"
        [("action", .str "batch_edit"), ("edits", .arr [.obj [("path", .str ".env")]])]) =
          .ordinary := by
  refine ⟨⟨⟨{ catastrophic := true }, ?_, .inl rfl⟩, ?_⟩, ⟨{ protectedPath := true }, ?_, .inr rfl⟩, ?_⟩
  · rfl
  · rfl
  · rfl
  · rfl

end Python

end PawFlow.Gating
