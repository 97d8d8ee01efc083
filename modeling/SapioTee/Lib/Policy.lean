import Mathlib.Data.List.Basic

/-!
# Resource policies

A policy is a list of statements that allow or deny, and a service decides by
it which requests it authorizes. `Engine` is such a service, with the
decisions its answers are made of, and `Documented` is what AWS documents of
its own. Nothing is authorized that no statement allows, and a denial wins
over every permission. A statement applies to a request when its principal,
one of its actions, its resource and all of its conditions do.

Of these parts, those that a policy without wildcards can have are described:
everyone and single roles, actions by name, the resource `*`, and operators on
one key of the request's context. The key may be absent; an operator that asks
for a value does not hold then, one that forbids a value does. `plain` is an
engine of this kind.
-/

namespace SapioTee.Lib.Policy

/-- The text with its ASCII capitals lowered. -/
def lowered (text : String) : List Char := text.toList.map Char.toLower

theorem toLower_toLower (c : Char) : c.toLower.toLower = c.toLower := by
  have ha : 'A'.val.toNat = 65 := rfl
  have hz : 'Z'.val.toNat = 90 := rfl
  have hstep : ('a'.val - 'A'.val).toNat = 32 := rfl
  unfold Char.toLower
  split
  · next h =>
      rw [dif_neg]
      rintro ⟨-, hlow⟩
      simp only [ge_iff_le, UInt32.le_iff_toNat_le, UInt32.toNat_add,
        hstep] at h hlow
      omega
  · rfl

theorem lowered_map (text : String) :
    (lowered text).map Char.toLower = lowered text := by
  rw [lowered, List.map_map]
  exact List.map_congr_left fun c _ => toLower_toLower c

/-- Without wildcards. -/
def literal (pattern : List Char) : Bool :=
  pattern.all fun c => c != '*' && c != '?'

inductive Effect where
  | allow
  | deny
  deriving DecidableEq

/-- `"*"`, or `{"AWS": arn}`. -/
inductive Principal where
  | everyone
  | aws (arn : String)

inductive Operator where
  | stringEquals
  | stringEqualsIgnoreCase
  | stringNotEqualsIgnoreCase
  | null

/-- One operator on one key of the context. -/
structure Condition where
  operator : Operator
  key : String
  value : String

structure Statement where
  sid : String
  effect : Effect
  principal : Principal
  actions : List String
  resource : String
  conditions : List Condition

structure Request where
  principal : String
  action : String
  resource : String
  context : String → Option String

/-- The name of one role of an account. -/
def IsRole (arn : String) : Prop :=
  ∃ account path : List Char,
    arn.toList = "arn:aws:iam::".toList ++ account ++ ":role/".toList ++ path ∧
      literal account = true ∧ literal path = true

/-! ## Engines -/

structure Engine where
  /-- A statement's principal, and the request's. -/
  covers : Principal → String → Bool
  /-- A statement's action, and the request's. -/
  names : String → String → Bool
  /-- A statement's resource, and the request's. -/
  reaches : String → String → Bool
  holds : Condition → (String → Option String) → Bool
  applies : Statement → Request → Bool
  authorizes : List Statement → Request → Bool

structure Engine.Documented (engine : Engine) : Prop where
  authorizes_iff : ∀ statements request,
    engine.authorizes statements request = true ↔
      (∃ s ∈ statements, s.effect = .allow ∧
        engine.applies s request = true) ∧
      ∀ s ∈ statements, s.effect = .deny → engine.applies s request = false
  applies_iff : ∀ s request, engine.applies s request = true ↔
    engine.covers s.principal request.principal = true ∧
    (∃ action ∈ s.actions, engine.names action request.action = true) ∧
    engine.reaches s.resource request.resource = true ∧
    ∀ condition ∈ s.conditions, engine.holds condition request.context = true
  everyone : ∀ arn, engine.covers .everyone arn = true
  role : ∀ name arn, IsRole name →
    (engine.covers (.aws name) arn = true ↔ arn = name)
  /-- The names of actions are not case sensitive. -/
  names_iff : ∀ name action, literal name.toList = true →
    (engine.names name action = true ↔ lowered action = lowered name)
  anything : ∀ resource, engine.reaches "*" resource = true
  stringEquals : ∀ key value context,
    engine.holds ⟨.stringEquals, key, value⟩ context = true ↔
      context key = some value
  ignoreCase : ∀ key value context,
    engine.holds ⟨.stringEqualsIgnoreCase, key, value⟩ context = true ↔
      ∃ shown, context key = some shown ∧ lowered shown = lowered value
  notIgnoreCase : ∀ key value context,
    engine.holds ⟨.stringNotEqualsIgnoreCase, key, value⟩ context = true ↔
      ¬ ∃ shown, context key = some shown ∧ lowered shown = lowered value
  null : ∀ key context, engine.holds ⟨.null, key, "true"⟩ context = true ↔
    context key = none

/-! ## An engine without wildcards -/

def Principal.covers (principal : Principal) (arn : String) : Bool :=
  match principal with
  | .everyone => true
  | .aws name => name == arn

def Condition.holds (condition : Condition)
    (context : String → Option String) : Bool :=
  match condition.operator, context condition.key with
  | .stringEquals, value => value == some condition.value
  | .stringEqualsIgnoreCase, value =>
      value.any fun shown => lowered shown == lowered condition.value
  | .stringNotEqualsIgnoreCase, value =>
      value.all fun shown => lowered shown != lowered condition.value
  | .null, value => value.isNone == (condition.value == "true")

def Statement.applies (s : Statement) (request : Request) : Bool :=
  s.principal.covers request.principal &&
    (s.actions.any fun action => lowered action == lowered request.action) &&
    (s.resource == "*" || s.resource == request.resource) &&
    s.conditions.all fun condition => condition.holds request.context

def plain : Engine where
  covers := Principal.covers
  names := fun name action => lowered name == lowered action
  reaches := fun name resource => name == "*" || name == resource
  holds := Condition.holds
  applies := Statement.applies
  authorizes := fun statements request =>
    (statements.any fun s => s.effect == .allow && s.applies request) &&
      !(statements.any fun s => s.effect == .deny && s.applies request)

theorem plain_documented : plain.Documented where
  authorizes_iff := by
    intro statements request
    simp only [plain, Bool.and_eq_true, List.any_eq_true, beq_iff_eq,
      Bool.not_eq_true', List.any_eq_false, not_and, Bool.not_eq_true]
  applies_iff := by
    intro s request
    simp only [plain, Statement.applies, Bool.and_eq_true, List.any_eq_true,
      List.all_eq_true, and_assoc]
  everyone := fun _ => rfl
  role := by
    intro name arn _
    show (name == arn) = true ↔ arn = name
    rw [beq_iff_eq]
    exact eq_comm
  names_iff := by
    intro name action _
    rw [plain, beq_iff_eq]
    exact eq_comm
  anything := fun _ => rfl
  stringEquals := by
    intro key value context
    simp [plain, Condition.holds]
  ignoreCase := by
    intro key value context
    simp [plain, Condition.holds, Option.any_eq_true]
  notIgnoreCase := by
    intro key value context
    simp [plain, Condition.holds, Option.all_eq_true]
  null := by
    intro key context
    simp [plain, Condition.holds]

end SapioTee.Lib.Policy
