import PawFlow.Expression.Resolve

/-!
# Secrets do not reach text resolved without them

Two environments that differ in the contents of the secret stores give the same result, the
same exception and the same number of draws when `include_secrets` is off.
-/

namespace PawFlow.Expression

open PawFlow.Lib

variable {env env' : Env} {includeSecrets : Bool} {resolve resolve' : Text → Eval Text}

/-! ## The fuel of nested arguments is enough -/

/-! ## Two environments -/

/-- The environments agree on everything but the contents of the secret stores. -/
def SameButSecrets (env env' : Env) : Prop := env' = { env with secrets := env'.secrets }

theorem cascadeParam_same (h : SameButSecrets env env') (key : Text) (exactScope : Option Text) :
    cascadeParam env key exactScope = cascadeParam env' key exactScope := by
  rw [h]
  rfl

theorem relayValue_same (h : SameButSecrets env env') (key : Text) :
    relayValue env key = relayValue env' key := by
  rw [h]
  rfl

theorem py_same (h : SameButSecrets env env') : env.py = env'.py := by
  rw [h]

theorem replacerWith_same (h : SameButSecrets env env') (resolve : Text → Eval Text) (expr : Text) :
    replacerWith env false resolve expr = replacerWith env' false resolve expr := by
  unfold replacerWith
  simp only [cascadeParam_same h, relayValue_same h, py_same h, Bool.false_eq_true, if_false]

theorem replacerCore_same (h : SameButSecrets env env') (fuel : Nat) (expr : Text) :
    replacerCore env false fuel expr = replacerCore env' false fuel expr := by
  induction fuel generalizing expr with
  | zero => exact replacerWith_same h pure expr
  | succ fuel ih =>
    have hnested : replacerCore env false fuel = replacerCore env' false fuel := funext ih
    rw [replacerCore, replacerCore, hnested]
    exact replacerWith_same h _ expr

theorem resolvePass_same (h : SameButSecrets env env') (left : Nat) (template : Text) :
    resolvePass env false left template = resolvePass env' false left template := by
  induction left generalizing template with
  | zero => rfl
  | succ left ih =>
    unfold resolvePass
    simp only [replacerCore_same h, py_same h, ih]

/-- **Secret noninterference.** Without `include_secrets`, a template resolves to the same text,
with the same draws, or raises the same exception, whatever the secret stores hold. -/
theorem secrets_noninterference (h : SameButSecrets env env') (template : Text) (draws : Nat) :
    (resolveExpression env false template).run.run draws =
      (resolveExpression env' false template).run.run draws := by
  unfold resolveExpression
  rw [resolvePass_same h, py_same h]

/-- Library functions for ASCII text; the ones the samples do not call fail or do nothing. -/
def samplePython : Python where
  upper := List.map Char.toUpper
  lower := List.map Char.toLower
  capitalize := id
  title := id
  isWord c := c.isAlphanum || c = '_'
  reprList items := items.flatten
  reSub _ _ _ := .error .reError
  reSearch _ _ := .error .reError
  intOfFloat _ := .error .valueError
  float _ := .error .valueError
  b64encode := id
  b64decode _ := none
  urlsafeB64encode := id
  urlsafeB64decode _ := none
  quote := id
  unquote := id
  jsonGet _ _ := none
  md5 := id
  sha256 := id
  fromisoformat _ := none
  isoformat _ := []
  strftime _ _ := .error .valueError
  addDays _ _ := none
  uuid4 _ := []
  uuid4Hex _ := []
  randint _ _ _ := .error .valueError
  choices _ _ := []
  time _ := 0
  now _ := 0

/-- A user with one secret, and a flow parameter that mentions it. -/
def sampleEnv (secret : Text) : Env where
  py := samplePython
  params := [("greeting".toList, "hi $\x7bapi_key:default(bob)\x7d".toList)]
  owner := "bob".toList
  conversationId := []
  convParams _ := []
  userParams _ := []
  globalParams := []
  environ := []
  relayDefault _ _ := none
  allows _ _ _ := some true
  materialize _ raw := some (.small raw)
  secrets := ⟨fun _ => [], fun _ => [("api_key".toList, secret)], []⟩

def sampleTemplate : Text := "$\x7bapi_key\x7d: $\x7bgreeting:append($\x7bapi_key\x7d)\x7d".toList

/-- Two secrets, one result: the reference stays, and the default is used. -/
theorem secrets_noninterference_sampleTemplate :
    (resolveExpression (sampleEnv "s3cret".toList) false sampleTemplate).run.run 0 =
        (.ok "$\x7bapi_key\x7d: hi bob$\x7bapi_key\x7d".toList, 0) ∧
      (resolveExpression (sampleEnv "s3cret".toList) false sampleTemplate).run.run 0 =
        (resolveExpression (sampleEnv "0ther".toList) false sampleTemplate).run.run 0 := by
  have hsame : SameButSecrets (sampleEnv "s3cret".toList) (sampleEnv "0ther".toList) := rfl
  refine ⟨?_, secrets_noninterference hsame sampleTemplate 0⟩
  -- the texts are spelled out before the template is run
  have htemplate : sampleTemplate = _ := String.toList_ofList
  have hsecret : "s3cret".toList = _ := String.toList_ofList
  have hgreeting : "greeting".toList = _ := String.toList_ofList
  have hvalue : "hi $\x7bapi_key:default(bob)\x7d".toList = _ := String.toList_ofList
  have hkey : "api_key".toList = _ := String.toList_ofList
  have hresult : "$\x7bapi_key\x7d: hi bob$\x7bapi_key\x7d".toList = _ := String.toList_ofList
  rw [htemplate, hresult, sampleEnv, hsecret, hgreeting, hvalue, hkey]
  rfl

end PawFlow.Expression
