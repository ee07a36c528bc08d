import Mathlib.Data.List.Basic
import Tiodb.Data

/-!
# Permissions

`Auth` of `auth.h`, as far as objects go. A rule that was never set is value
initialised, and the first of the results is `allow`.
-/

namespace Tiodb

inductive RuleResult where
  | allow
  | deny
  | none
  deriving DecidableEq, Repr

/-- `COMMAND`: the tokens with a rule, and what holds for the others. -/
structure CommandRule where
  denies : List Bytes := []
  allows : List Bytes := []
  defaultRule : RuleResult := .allow
  deriving DecidableEq, Repr

structure ObjectRule where
  defaultRule : RuleResult := .allow
  commands : StringMap CommandRule := ∅

structure Auth where
  objectRules : StringMap ObjectRule := ∅
  objectDefaultRule : RuleResult := .allow

namespace Auth

/-- An object is the `OBJECT` that is kept under this name. -/
def fullQualifiedName (objectType objectName : Bytes) : Bytes := objectType ++ 47 :: objectName

/-- No registered type has a `/` in it, so what is another object by its type and name is kept under another name. -/
theorem fullQualifiedName_inj {objectType objectName objectType' objectName' : Bytes} (h : 47 ∉ objectType)
    (h' : 47 ∉ objectType') : fullQualifiedName objectType objectName = fullQualifiedName objectType' objectName' ↔
      objectType = objectType' ∧ objectName = objectName' := by
  constructor
  · intro heq
    have hstops {t n : Bytes} (ht : 47 ∉ t) : (fullQualifiedName t n).takeWhile (· ≠ 47) = t := by
      rw [fullQualifiedName, List.takeWhile_append_of_pos fun c hc => by simpa using ne_of_mem_of_not_mem hc ht]
      simp
    obtain rfl : objectType = objectType' := by rw [← hstops h, heq, hstops h']
    exact ⟨rfl, by simpa [fullQualifiedName] using heq⟩
  · rintro ⟨rfl, rfl⟩
    rfl

def addObjectRule (a : Auth) (objectType objectName command token : Bytes) (rule : RuleResult) : Auth :=
  let name := fullQualifiedName objectType objectName
  let obj := (a.objectRules[name]?).getD {}
  let cmd := (obj.commands[command]?).getD {}
  let cmd :=
    match rule with
    | .allow => { cmd with allows := cmd.allows.insert token }
    | .deny => { cmd with denies := cmd.denies.insert token }
    | .none => cmd
  { a with objectRules := a.objectRules.insert name { obj with commands := obj.commands.insert command cmd } }

def setObjectDefaultRule (a : Auth) (objectType objectName : Bytes) (defaultRule : RuleResult) : Auth :=
  let name := fullQualifiedName objectType objectName
  let obj := (a.objectRules[name]?).getD {}
  { a with objectRules := a.objectRules.insert name { obj with defaultRule := defaultRule } }

def findRuleForTokens (commandTokens tokens : List Bytes) : Bool := tokens.any (· ∈ commandTokens)

def checkCommandAccess (cmd : CommandRule) (tokens : List Bytes) : RuleResult :=
  if findRuleForTokens cmd.denies tokens then .deny
  else if findRuleForTokens cmd.allows tokens then .allow
  else cmd.defaultRule

/-- The rule `*` stands for every command, while it is the only one. -/
def findCommand (obj : ObjectRule) (command : Bytes) : Option CommandRule :=
  match obj.commands.toList with
  | [(name, cmd)] => if name = ascii "*" then some cmd else obj.commands[command]?
  | _ => obj.commands[command]?

def checkObjectAccess (a : Auth) (objectType objectName command : Bytes) (tokens : List Bytes) : RuleResult :=
  match a.objectRules[fullQualifiedName objectType objectName]? with
  | none => a.objectDefaultRule
  | some obj =>
    match findCommand obj command with
    | none => obj.defaultRule
    | some cmd => checkCommandAccess cmd tokens

end Auth

end Tiodb
