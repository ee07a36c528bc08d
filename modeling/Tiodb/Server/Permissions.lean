import Mathlib.Data.List.Induction
import Tiodb.Lib.Tables
import Tiodb.Server.Auth

/-!
# What a history of permissions answers

`set_permission` calls `AddObjectRule` and `SetObjectDefaultRule`. What an `Auth`
answers after any sequence of such calls, in terms of the calls. An object is what
the calls name by one qualified name.
-/

namespace Tiodb.Auth

open Lib

inductive Call where
  | addObjectRule (objectType objectName command token : Bytes) (rule : RuleResult)
  | setObjectDefaultRule (objectType objectName : Bytes) (defaultRule : RuleResult)
  deriving DecidableEq, Repr

def call (a : Auth) : Call → Auth
  | .addObjectRule objectType objectName command token rule => a.addObjectRule objectType objectName command token rule
  | .setObjectDefaultRule objectType objectName defaultRule => a.setObjectDefaultRule objectType objectName defaultRule

/-- The constructor sets the global default, and `SetDefaultRule` may set another. -/
def afterCalls (objectDefaultRule : RuleResult) (calls : List Call) : Auth :=
  calls.foldl call { objectDefaultRule := objectDefaultRule }

structure Rule where
  command : Bytes
  token : Bytes
  result : RuleResult
  deriving DecidableEq, Repr

def Call.rule? (object : Bytes) : Call → Option Rule
  | .addObjectRule objectType objectName command token rule =>
    if fullQualifiedName objectType objectName = object then some ⟨command, token, rule⟩ else none
  | .setObjectDefaultRule .. => none

def Call.default? (object : Bytes) : Call → Option RuleResult
  | .addObjectRule .. => none
  | .setObjectDefaultRule objectType objectName defaultRule =>
    if fullQualifiedName objectType objectName = object then some defaultRule else none

def rulesOf (object : Bytes) (calls : List Call) : List Rule := calls.filterMap (Call.rule? object)

/-- The default as last set for the object. -/
def defaultOf (object : Bytes) (calls : List Call) : Option RuleResult :=
  (calls.filterMap (Call.default? object)).getLast?

def HasRule (rules : List Rule) (command : Bytes) : Prop := ∃ r ∈ rules, r.command = command

instance (rules : List Rule) (command : Bytes) : Decidable (HasRule rules command) :=
  inferInstanceAs (Decidable (∃ r ∈ rules, r.command = command))

/-- The command whose rules answer: `*` if there are rules for nothing else. -/
def answering (rules : List Rule) (command : Bytes) : Bytes :=
  if rules ≠ [] ∧ ∀ r ∈ rules, r.command = ascii "*" then ascii "*" else command

/-! ## The tables after the calls -/

/-- The entry of a command has the tokens of its rules, and the default that `operator[]` gives. -/
structure CommandEntry (rules : List Rule) (command : Bytes) (cmd : CommandRule) : Prop where
  denies : ∀ token, token ∈ cmd.denies ↔ ⟨command, token, .deny⟩ ∈ rules
  allows : ∀ token, token ∈ cmd.allows ↔ ⟨command, token, .allow⟩ ∈ rules
  defaultRule : cmd.defaultRule = .allow

structure ObjectEntry (rules : List Rule) (default : Option RuleResult) (obj : ObjectRule) : Prop where
  defaultRule : obj.defaultRule = default.getD .allow
  absent : ∀ command, obj.commands[command]? = none ↔ ¬ HasRule rules command
  present : ∀ (command : Bytes) (cmd : CommandRule), obj.commands[command]? = some cmd → CommandEntry rules command cmd

/-- What is under the name of an object that has these rules and this default. -/
def Records (rules : List Rule) (default : Option RuleResult) : Option ObjectRule → Prop
  | none => rules = [] ∧ default = none
  | some obj => ObjectEntry rules default obj ∧ ¬ (rules = [] ∧ default = none)

variable {rules : List Rule} {default : Option RuleResult} {obj : ObjectRule} {command : Bytes} {cmd : CommandRule}

theorem objectEntry_empty : ObjectEntry [] none {} where
  defaultRule := rfl
  absent := by simp [HasRule]
  present := by simp

theorem Records.getD {o : Option ObjectRule} (h : Records rules default o) : ObjectEntry rules default (o.getD {}) := by
  cases o with
  | none =>
    obtain ⟨rfl, rfl⟩ := h
    exact objectEntry_empty
  | some obj => exact h.1

theorem ObjectEntry.getD (h : ObjectEntry rules default obj) (command : Bytes) :
    CommandEntry rules command ((obj.commands[command]?).getD {}) := by
  cases hcmd : obj.commands[command]? with
  | some cmd => exact h.present command cmd hcmd
  | none =>
    have hno := (h.absent command).mp hcmd
    refine ⟨fun token => ?_, fun token => ?_, rfl⟩
    · simpa using fun hr => hno ⟨_, hr, rfl⟩
    · simpa using fun hr => hno ⟨_, hr, rfl⟩

/-- What `AddObjectRule` does to the entry of the command. -/
def addToken (cmd : CommandRule) (token : Bytes) : RuleResult → CommandRule
  | .allow => { cmd with allows := cmd.allows.insert token }
  | .deny => { cmd with denies := cmd.denies.insert token }
  | .none => cmd

theorem CommandEntry.addToken (h : CommandEntry rules command cmd) (token : Bytes) (result : RuleResult) :
    CommandEntry (rules ++ [⟨command, token, result⟩]) command (addToken cmd token result) := by
  have hd := h.denies
  have ha := h.allows
  have hdef := h.defaultRule
  cases result <;> refine ⟨fun t => ?_, fun t => ?_, hdef⟩ <;> simp [Auth.addToken, hd, ha] <;> tauto

theorem CommandEntry.other (h : CommandEntry rules command cmd) {r : Rule} (hr : r.command ≠ command) :
    CommandEntry (rules ++ [r]) command cmd := by
  have hne (token : Bytes) (result : RuleResult) : (⟨command, token, result⟩ : Rule) ≠ r := by
    rintro rfl
    exact hr rfl
  refine ⟨fun t => ?_, fun t => ?_, h.defaultRule⟩
  · simp [h.denies, hne]
  · simp [h.allows, hne]

theorem ObjectEntry.addRule (h : ObjectEntry rules default obj) (r : Rule) :
    ObjectEntry (rules ++ [r]) default { obj with
      commands := obj.commands.insert r.command
        (addToken ((obj.commands[r.command]?).getD {}) r.token r.result) } := by
  refine ⟨h.defaultRule, fun command => ?_, fun command cmd hcmd => ?_⟩
  · simp only [Std.ExtTreeMap.getElem?_insert, Std.compare_eq_iff_eq]
    split_ifs with hc
    · simp [HasRule, hc]
    · simp [h.absent, HasRule, hc]
  · obtain ⟨rfl, rfl⟩ | ⟨hne, hcmd⟩ := insert_cases hcmd
    · exact (h.getD r.command).addToken r.token r.result
    · exact (h.present command cmd hcmd).other (Ne.symm hne)

theorem addObjectRule_objectRules (a : Auth) (objectType objectName command token : Bytes) (rule : RuleResult) :
    (a.addObjectRule objectType objectName command token rule).objectRules =
      let name := fullQualifiedName objectType objectName
      let obj := (a.objectRules[name]?).getD {}
      a.objectRules.insert name { obj with
        commands := obj.commands.insert command (addToken ((obj.commands[command]?).getD {}) token rule) } := by
  cases rule <;> rfl

theorem rulesOf_concat (object : Bytes) (calls : List Call) (c : Call) :
    rulesOf object (calls ++ [c]) = rulesOf object calls ++ (c.rule? object).toList := by
  unfold rulesOf
  rw [List.filterMap_append]
  cases hc : c.rule? object <;> simp [hc]

theorem defaultOf_concat (object : Bytes) (calls : List Call) (c : Call) :
    defaultOf object (calls ++ [c]) = (c.default? object).or (defaultOf object calls) := by
  unfold defaultOf
  rw [List.filterMap_append]
  cases hc : c.default? object <;> simp [hc]

/-- After the calls, the entry of each object has the rules and the default that the calls gave it. -/
theorem records_afterCalls (objectDefaultRule : RuleResult) (calls : List Call) (object : Bytes) :
    Records (rulesOf object calls) (defaultOf object calls)
      (afterCalls objectDefaultRule calls).objectRules[object]? := by
  induction calls using List.reverseRecOn with
  | nil => simp [afterCalls, Records, rulesOf, defaultOf]
  | append_singleton calls c ih =>
    have hcalls : afterCalls objectDefaultRule (calls ++ [c]) = (afterCalls objectDefaultRule calls).call c := by
      simp [afterCalls]
    rw [hcalls, rulesOf_concat, defaultOf_concat]
    cases c with
    | addObjectRule objectType objectName command token rule =>
      simp only [call, addObjectRule_objectRules, Call.rule?, Call.default?, Option.none_or]
      by_cases ho : fullQualifiedName objectType objectName = object
      · subst ho
        rw [Std.ExtTreeMap.getElem?_insert_self, if_pos rfl]
        exact ⟨ih.getD.addRule ⟨command, token, rule⟩, by simp⟩
      · rw [insert_of_ne _ _ ho, if_neg ho, Option.toList_none, List.append_nil]
        exact ih
    | setObjectDefaultRule objectType objectName defaultRule =>
      simp only [call, setObjectDefaultRule, Call.rule?, Call.default?, Option.toList_none, List.append_nil]
      by_cases ho : fullQualifiedName objectType objectName = object
      · subst ho
        rw [Std.ExtTreeMap.getElem?_insert_self, if_pos rfl]
        have hentry := ih.getD
        exact ⟨⟨rfl, hentry.absent, hentry.present⟩, by simp⟩
      · rw [insert_of_ne _ _ ho, if_neg ho, Option.none_or]
        exact ih

/-! ## The answer in terms of the calls -/

theorem toList_of_only {m : StringMap CommandRule} (h : m[command]? = some cmd)
    (honly : ∀ c, m[c]? ≠ none → c = command) : m.toList = [(command, cmd)] := by
  have hm : m = (∅ : StringMap CommandRule).insert command cmd := by
    apply Std.ExtTreeMap.ext_getElem?
    intro c
    rw [Std.ExtTreeMap.getElem?_insert]
    simp only [Std.compare_eq_iff_eq]
    split_ifs with hc
    · rw [← hc, h]
    · by_contra hne
      exact hc (honly c (by simpa using hne)).symm
  rw [hm]
  rfl

theorem ObjectEntry.findCommand_eq (h : ObjectEntry rules default obj) (command : Bytes) :
    findCommand obj command = obj.commands[answering rules command]? := by
  have hhas (c : Bytes) : obj.commands[c]? ≠ none ↔ HasRule rules c := by
    rw [Ne, h.absent, not_not]
  unfold answering findCommand
  split_ifs with hstar
  · -- the only entry is that of `*`
    obtain ⟨hne, hall⟩ := hstar
    obtain ⟨r, hr⟩ := List.exists_mem_of_ne_nil _ hne
    obtain ⟨cmd, hcmd⟩ := Option.ne_none_iff_exists'.mp ((hhas (ascii "*")).mpr ⟨r, hr, hall r hr⟩)
    have honly : ∀ c, obj.commands[c]? ≠ none → c = ascii "*" := by
      intro c hc
      obtain ⟨r', hr', rfl⟩ := (hhas c).mp hc
      exact hall r' hr'
    rw [toList_of_only hcmd honly, hcmd]
    exact if_pos rfl
  · split
    · rename_i name cmd hlist
      split_ifs with hname
      · exfalso
        subst hname
        have hmem (c : Bytes) (cmd' : CommandRule) : obj.commands[c]? = some cmd' → c = ascii "*" := by
          intro hc
          have := Std.ExtTreeMap.mem_toList_iff_getElem?_eq_some.mpr hc
          simp_all
        refine hstar ⟨?_, fun r hr => ?_⟩
        · have hin : obj.commands[ascii "*"]? = some cmd := by
            rw [← Std.ExtTreeMap.mem_toList_iff_getElem?_eq_some, hlist]
            simp
          obtain ⟨r, hr, -⟩ := (hhas (ascii "*")).mp (by simp [hin])
          exact List.ne_nil_of_mem hr
        · obtain ⟨cmd', hcmd'⟩ := Option.ne_none_iff_exists'.mp ((hhas r.command).mpr ⟨r, hr, rfl⟩)
          exact hmem _ _ hcmd'
      · rfl
    · rfl

/-- What a history answers. -/
def answer (objectDefaultRule : RuleResult) (calls : List Call) (object command : Bytes) (tokens : List Bytes) :
    RuleResult :=
  let rules := rulesOf object calls
  if rules = [] ∧ defaultOf object calls = none then objectDefaultRule
  else if ¬ HasRule rules (answering rules command) then (defaultOf object calls).getD .allow
  else if ∃ token ∈ tokens, ⟨answering rules command, token, .deny⟩ ∈ rules then .deny
  else .allow

theorem objectDefaultRule_afterCalls (objectDefaultRule : RuleResult) (calls : List Call) :
    (afterCalls objectDefaultRule calls).objectDefaultRule = objectDefaultRule := by
  induction calls using List.reverseRecOn with
  | nil => rfl
  | append_singleton calls c ih =>
    unfold afterCalls at ih ⊢
    rw [List.foldl_append]
    cases c <;> exact ih

theorem CommandEntry.checkCommandAccess_eq (h : CommandEntry rules command cmd) (tokens : List Bytes) :
    checkCommandAccess cmd tokens =
      if ∃ token ∈ tokens, ⟨command, token, .deny⟩ ∈ rules then .deny else .allow := by
  unfold checkCommandAccess findRuleForTokens
  simp only [List.any_eq_true, decide_eq_true_eq, h.denies, h.allows, h.defaultRule, ite_self]

theorem checkObjectAccess_afterCalls (objectDefaultRule : RuleResult) (calls : List Call)
    (objectType objectName command : Bytes) (tokens : List Bytes) :
    (afterCalls objectDefaultRule calls).checkObjectAccess objectType objectName command tokens =
      answer objectDefaultRule calls (fullQualifiedName objectType objectName) command tokens := by
  have hrec := records_afterCalls objectDefaultRule calls (fullQualifiedName objectType objectName)
  unfold checkObjectAccess answer
  generalize rulesOf (fullQualifiedName objectType objectName) calls = rules at hrec ⊢
  generalize defaultOf (fullQualifiedName objectType objectName) calls = default at hrec ⊢
  dsimp only
  cases hobj : (afterCalls objectDefaultRule calls).objectRules[fullQualifiedName objectType objectName]? with
  | none =>
    rw [hobj] at hrec
    obtain ⟨hrules, hdefault⟩ := hrec
    rw [if_pos ⟨hrules, hdefault⟩]
    exact objectDefaultRule_afterCalls objectDefaultRule calls
  | some obj =>
    rw [hobj] at hrec
    obtain ⟨hentry, hsome⟩ := hrec
    rw [if_neg hsome]
    simp only [hentry.findCommand_eq]
    cases hcmd : obj.commands[answering rules command]? with
    | none =>
      rw [if_pos ((hentry.absent _).mp hcmd)]
      exact hentry.defaultRule
    | some cmd =>
      have hhas : HasRule rules (answering rules command) := by
        by_contra hno
        rw [← hentry.absent, hcmd] at hno
        cases hno
      rw [if_neg (not_not.mpr hhas)]
      exact (hentry.present _ _ hcmd).checkCommandAccess_eq tokens

/-- Where no token has a rule of the object, the default that was set for the object, or else the global one, answers
exactly if it is `allow`, or the object has no rules, or it has a default and none of its rules is for the command. -/
theorem default_answers_iff (objectDefaultRule : RuleResult) (calls : List Call)
    (objectType objectName command : Bytes) (tokens : List Bytes)
    (hnone : ∀ token ∈ tokens, ∀ r ∈ rulesOf (fullQualifiedName objectType objectName) calls,
      r.result = .allow ∨ r.result = .deny → r.token ≠ token) :
    (afterCalls objectDefaultRule calls).checkObjectAccess objectType objectName command tokens =
        (defaultOf (fullQualifiedName objectType objectName) calls).getD objectDefaultRule ↔
      (defaultOf (fullQualifiedName objectType objectName) calls).getD objectDefaultRule = .allow ∨
      rulesOf (fullQualifiedName objectType objectName) calls = [] ∨
      (defaultOf (fullQualifiedName objectType objectName) calls ≠ none ∧
        ¬ HasRule (rulesOf (fullQualifiedName objectType objectName) calls)
          (answering (rulesOf (fullQualifiedName objectType objectName) calls) command)) := by
  rw [checkObjectAccess_afterCalls]
  unfold answer
  generalize rulesOf (fullQualifiedName objectType objectName) calls = rules at hnone ⊢
  generalize defaultOf (fullQualifiedName objectType objectName) calls = default
  have hdeny : ¬ ∃ token ∈ tokens, (⟨answering rules command, token, .deny⟩ : Rule) ∈ rules := by
    rintro ⟨token, ht, hr⟩
    exact hnone token ht _ hr (.inr rfl) rfl
  have hempty : rules = [] → ¬ HasRule rules (answering rules command) := by
    rintro rfl
    simp [HasRule]
  simp only [hdeny, if_false]
  cases default with
  | none =>
    by_cases hr : rules = []
    · simp [hr]
    · simp [hr, eq_comm]
  | some d =>
    by_cases hhas : HasRule rules (answering rules command)
    · have hr : rules ≠ [] := fun h => hempty h hhas
      simp [hhas, hr, eq_comm]
    · simp [hhas]

/-- The rules that the server makes for its users, for the administrator. -/
def usersCalls : List Call :=
  [.setObjectDefaultRule (ascii "users") (ascii "__meta__/users") .deny,
    .addObjectRule (ascii "users") (ascii "__meta__/users") (ascii "*") (ascii "__admin__") .allow]

/-- Rules of two commands for the administrator, and a default for the other commands. -/
def listCalls : List Call :=
  [.addObjectRule (ascii "volatile_list") (ascii "l") (ascii "get") (ascii "__admin__") .allow,
    .setObjectDefaultRule (ascii "volatile_list") (ascii "l") .deny,
    .addObjectRule (ascii "volatile_list") (ascii "l") (ascii "set") (ascii "__admin__") .allow]

theorem default_answers_beside_rules :
    (afterCalls .allow listCalls).checkObjectAccess (ascii "volatile_list") (ascii "l") (ascii "clear")
      [ascii "guest"] = .deny :=
  (default_answers_iff .allow listCalls (ascii "volatile_list") (ascii "l") (ascii "clear")
    [ascii "guest"] (by decide)).mpr (.inr (.inr (by decide)))

/-- The default of the users is `deny`, but a token without a rule is allowed what `*` is for. -/
theorem rule_opens_to_all :
    (∀ token ∈ [ascii "guest"], ∀ r ∈ rulesOf (fullQualifiedName (ascii "users") (ascii "__meta__/users")) usersCalls,
      r.result = .allow ∨ r.result = .deny → r.token ≠ token) ∧
    defaultOf (fullQualifiedName (ascii "users") (ascii "__meta__/users")) usersCalls = some .deny ∧
    (afterCalls .allow usersCalls).checkObjectAccess (ascii "users") (ascii "__meta__/users") (ascii "set")
      [ascii "guest"] = .allow := by
  refine ⟨by decide, by decide, ?_⟩
  rw [checkObjectAccess_afterCalls]
  decide

/-- Histories with the same rules and the same defaults answer alike, for token lists with the same tokens. -/
theorem answers_by_rules_and_defaults (objectDefaultRule : RuleResult) (calls calls' : List Call)
    (hrules : ∀ object r, r ∈ rulesOf object calls ↔ r ∈ rulesOf object calls')
    (hdefaults : ∀ object, defaultOf object calls = defaultOf object calls')
    (objectType objectName command : Bytes) (tokens tokens' : List Bytes) (htokens : ∀ t, t ∈ tokens ↔ t ∈ tokens') :
    (afterCalls objectDefaultRule calls).checkObjectAccess objectType objectName command tokens =
      (afterCalls objectDefaultRule calls').checkObjectAccess objectType objectName command tokens' := by
  rw [checkObjectAccess_afterCalls, checkObjectAccess_afterCalls]
  unfold answer
  rw [hdefaults]
  have hr := hrules (fullQualifiedName objectType objectName)
  generalize rulesOf (fullQualifiedName objectType objectName) calls = rules at hr ⊢
  generalize rulesOf (fullQualifiedName objectType objectName) calls' = rules' at hr ⊢
  have hnil : rules = [] ↔ rules' = [] := by
    simp only [List.eq_nil_iff_forall_not_mem, hr]
  have hanswering : answering rules command = answering rules' command := by
    unfold answering
    simp only [ne_eq, hnil, hr]
  have hhas (c : Bytes) : HasRule rules c ↔ HasRule rules' c := by
    unfold HasRule
    simp only [hr]
  simp only [hnil, hanswering, hhas, hr, htokens]

theorem answers_by_rules_and_defaults_two_orders :
    (afterCalls .allow usersCalls).checkObjectAccess (ascii "users") (ascii "__meta__/users") (ascii "set")
        [ascii "a", ascii "b"] =
      (afterCalls .allow (usersCalls.reverse ++ usersCalls)).checkObjectAccess (ascii "users")
        (ascii "__meta__/users") (ascii "set") [ascii "b", ascii "a", ascii "b"] := by
  refine answers_by_rules_and_defaults .allow _ _ (fun object r => ?_) (fun object => ?_) _ _ _ _ _ (fun t => ?_)
  · simp [rulesOf, usersCalls, Call.rule?, List.filterMap_cons]
    split_ifs <;> simp
  · simp only [defaultOf, usersCalls, Call.default?, List.reverse_cons, List.filterMap_cons, List.cons_append,
      List.nil_append, List.reverse_nil]
    split_ifs <;> simp
  · simp
    tauto

end Tiodb.Auth
