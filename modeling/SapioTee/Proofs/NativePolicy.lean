import SapioTee.Model.Symbolic

/-!
# When the native ownership policy is default-deny

The rule the policy is documented by: an empty list rejects its variant, and
a nonempty one admits only what it lists. `Listed` says what a proof that
was accepted must satisfy under that rule, and `DefaultDeny` that `enforce`
accepts nothing else.

The three variants with outputs are tested by a single `all`, which is true
of no outputs whatever the list. So the rule holds of a proof exactly when
the proof has an output or its list has an entry.
-/

namespace SapioTee

open Lib

namespace NativePolicy

variable {T : Types} (policy : NativePolicy T)

/-- What the rule requires of a proof that is accepted. -/
def Listed : OwnershipProof T → Prop
  | .status => policy.status = true
  | .arkoor outputs =>
      policy.arkoor ≠ [] ∧ ∀ output ∈ outputs, output.policy ∈ policy.arkoor
  | .round _ outputs =>
      policy.round ≠ [] ∧
        ∀ output ∈ outputs, output.vtxo.policy ∈ policy.round
  | .delegatedRound outputs =>
      policy.delegatedRound ≠ [] ∧
        ∀ output ∈ outputs, output.policy ∈ policy.delegatedRound
  | .offboard request _ => request.scriptPubkey ∈ policy.offboard
  | .lightningReceive _ => policy.lightningReceive = true

def DefaultDeny (proof : OwnershipProof T) : Prop :=
  policy.enforce proof = .ok () → policy.Listed proof

/-- A proof with an output to look up, or a list with an entry to find: the
inputs on which `all` says as much as the rule. -/
def Meaningful : OwnershipProof T → Prop
  | .arkoor outputs => outputs ≠ [] ∨ policy.arkoor ≠ []
  | .round _ outputs => outputs ≠ [] ∨ policy.round ≠ []
  | .delegatedRound outputs => outputs ≠ [] ∨ policy.delegatedRound ≠ []
  | _ => True

/-- `ensure` on a membership test of every output. -/
theorem ensure_all_iff {α β : Type} [DecidableEq β] (outputs : List α)
    (key : α → β) (allowed : List β) (text : String) :
    ensure (outputs.all fun output => allowed.contains (key output)) text
      = .ok () ↔ ∀ output ∈ outputs, key output ∈ allowed := by
  constructor
  · intro h output hmem
    have hall := List.all_eq_true.mp (ensure_ok h) output hmem
    rwa [List.contains_iff_mem] at hall
  · intro h
    have hall : (outputs.all fun output => allowed.contains (key output))
        = true := by
      rw [List.all_eq_true]
      intro output hmem
      rw [List.contains_iff_mem]
      exact h output hmem
    rw [hall]
    rfl

/-- The one argument behind the three variants with outputs: a universal
test forces a nonempty list exactly when it has something to test. -/
theorem all_listed_iff {α β : Type} (outputs : List α) (key : α → β)
    (allowed : List β) :
    ((∀ output ∈ outputs, key output ∈ allowed) →
        allowed ≠ [] ∧ ∀ output ∈ outputs, key output ∈ allowed) ↔
      outputs ≠ [] ∨ allowed ≠ [] := by
  cases outputs with
  | nil =>
      constructor
      · intro h
        exact .inr (h (fun _ hmem => absurd hmem List.not_mem_nil)).1
      · intro h hall
        rcases h with h | h
        · exact absurd rfl h
        · exact ⟨h, hall⟩
  | cons x xs =>
      constructor
      · intro _
        exact .inl (List.cons_ne_nil x xs)
      · intro _ hall
        refine ⟨?_, hall⟩
        exact List.ne_nil_of_mem (hall x List.mem_cons_self)

theorem defaultDeny_iff_meaningful (proof : OwnershipProof T) :
    policy.DefaultDeny proof ↔ policy.Meaningful proof := by
  cases proof with
  | status => exact ⟨fun _ => trivial, fun _ h => ensure_ok h⟩
  | arkoor outputs =>
      unfold DefaultDeny enforce
      rw [ensure_all_iff]
      exact all_listed_iff outputs VtxoRequest.policy policy.arkoor
  | round challenge outputs =>
      unfold DefaultDeny enforce
      rw [ensure_all_iff outputs (fun output => output.vtxo.policy)]
      exact all_listed_iff outputs (fun output => output.vtxo.policy)
        policy.round
  | delegatedRound outputs =>
      unfold DefaultDeny enforce
      rw [ensure_all_iff]
      exact all_listed_iff outputs VtxoRequest.policy policy.delegatedRound
  | offboard request inputs =>
      refine ⟨fun _ => trivial, fun _ h => ?_⟩
      exact List.contains_iff_mem.mp (ensure_ok h)
  | lightningReceive receive => exact ⟨fun _ => trivial, fun _ h => ensure_ok h⟩

/-- The policy that lists nothing still accepts a round without outputs. -/
theorem empty_policy_accepts_empty_round :
    ¬ ∀ (policy : NativePolicy symbolicTypes)
        (proof : OwnershipProof symbolicTypes), policy.DefaultDeny proof := by
  intro h
  have hempty := h ⟨[], [], [], [], false, false⟩ (.round (hashOf 0) []) rfl
  exact hempty.1 rfl

end NativePolicy

end SapioTee
