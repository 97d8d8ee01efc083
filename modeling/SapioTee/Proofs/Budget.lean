import SapioTee.Lib.Trace
import SapioTee.Model.Evaluator

/-!
# The compilation budget, as one specification

`checkPayloads` is a fold that stops at the first fault, over five kinds of
payload, a type table that grows and a counter of 32 bits. `Budgeted` says
the same of the whole sequence at once: every entry decodes, every index is
resolved in the types declared before its section, and the slots add up, in
unbounded integers, to no more than the limit.

Each section has its own lemma, an equivalence; the fold is one induction
over them with what has been read so far generalized.
-/

namespace SapioTee

open Lib

/-! ## The specification -/

/-- The crypto functions a module may import, and how many parameters each
takes. -/
inductive Allowed : WasmVersion → String → String → Nat → Prop
  | sha256 (version : WasmVersion) :
      Allowed version "sapio_crypto_v1" "sha256" 3
  | schnorrVerify (version : WasmVersion) :
      Allowed version "sapio_crypto_v1" "schnorr_verify" 3
  | bip32Derive (version : WasmVersion) :
      Allowed version "sapio_crypto_v1" "bip32_derive" 4
  | schnorrVerifyV2 : Allowed .v2 "sapio_crypto_v2" "schnorr_verify" 4
  | xonlyTweakCheck : Allowed .v2 "sapio_crypto_v2" "xonly_tweak_check" 4

/-- An allowed function whose type is known and takes and gives `i32`. -/
def ImportOk (version : WasmVersion) (types : List FuncType) (entry : Import) :
    Prop :=
  ∃ expected index ty, Allowed version entry.module entry.name expected ∧
    entry.ty = .func index ∧ types[index.toNat]? = some ty ∧
    ty.params = List.replicate expected .i32 ∧ ty.results = [.i32]

/-- Every entry of a section decoded. -/
def AllDecoded {α : Type} (entries : List (Except String α)) : Prop :=
  ∀ e ∈ entries, ∃ x, e = .ok x

def Payload.Decoded : Payload → Prop
  | .typeSection types => AllDecoded types
  | .importSection imports => AllDecoded imports
  | .functionSection functions => AllDecoded functions
  | .codeSectionEntry locals => ∃ counts, locals = .ok counts ∧ AllDecoded counts
  | .startSection => True
  | .other => True

def typesOf : Except String Payload → List FuncType
  | .ok (.typeSection types) => types.filterMap Except.toOption
  | _ => []

/-- The type entries seen in a stretch of payloads. -/
def declaredTypes (payloads : List (Except String Payload)) : List FuncType :=
  payloads.flatMap typesOf

/-- How many parameters the function of an index has. -/
def paramsOf (types : List FuncType) : Except String UInt32 → Nat
  | .ok index => (types[index.toNat]?.map fun ty => ty.params.length).getD 0
  | .error _ => 0

def countOf : Except String UInt32 → Nat
  | .ok count => count.toNat
  | .error _ => 0

/-- The slots of one payload: the parameters of each function it defines, or
the locals it declares. -/
def slotsOf (types : List FuncType) : Except String Payload → Nat
  | .ok (.functionSection functions) => (functions.map (paramsOf types)).sum
  | .ok (.codeSectionEntry (.ok counts)) => (counts.map countOf).sum
  | _ => 0

def totalSlots (payloads : List (Except String Payload)) : Nat :=
  sumAlong (fun done p => slotsOf (declaredTypes done) p) payloads

structure Budgeted (version : WasmVersion)
    (payloads : List (Except String Payload)) : Prop where
  decoded : ∀ p ∈ payloads, ∃ payload, p = .ok payload ∧ payload.Decoded
  noStart : .ok .startSection ∉ payloads
  imports : Always (fun done p => ∀ imports entry,
    p = .ok (.importSection imports) → .ok entry ∈ imports →
      ImportOk version (declaredTypes done) entry) payloads
  functions : Always (fun done p => ∀ functions index,
    p = .ok (.functionSection functions) → .ok index ∈ functions →
      ∃ ty, (declaredTypes done)[index.toNat]? = some ty) payloads
  slots : totalSlots payloads ≤ maxFunctionSlots

/-! ## One section at a time -/

theorem decoded_ok_iff {α : Type} {e : Except String α} {x : α} :
    decoded e = .ok x ↔ e = .ok x := by
  cases e with
  | error text => exact ⟨fun h => (nomatch h), fun h => (nomatch h)⟩
  | ok y =>
      exact ⟨fun h => congrArg Except.ok (Except.ok.inj h),
        fun h => congrArg Except.ok (Except.ok.inj h)⟩

theorem allDecoded_cons {α : Type} {e : Except String α}
    {entries : List (Except String α)} :
    AllDecoded (e :: entries) ↔ (∃ x, e = .ok x) ∧ AllDecoded entries :=
  List.forall_mem_cons

theorem addSlots_ok_iff {budget budget' : Budget} {count : Nat} :
    addSlots budget count = .ok budget' ↔
      budget.slots + count ≤ maxFunctionSlots ∧
        budget' = ⟨budget.functionTypes, budget.slots + count⟩ := by
  have hmax : maxFunctionSlots = 65536 := rfl
  unfold addSlots
  by_cases hle : budget.slots + count ≤ maxFunctionSlots
  · rw [if_pos ⟨by omega, hle⟩]
    constructor
    · intro h
      injection h with h
      exact ⟨hle, h.symm⟩
    · rintro ⟨-, rfl⟩
      rfl
  · rw [if_neg fun h => hle h.2]
    exact ⟨fun h => (nomatch h), fun h => absurd h.1 hle⟩

theorem expectedParams_eq_some_iff {version : WasmVersion}
    {module name : String} {expected : Nat} :
    expectedParams version module name = some expected ↔
      Allowed version module name expected := by
  constructor
  · intro h
    unfold expectedParams at h
    split at h
    · next hv1 =>
        obtain ⟨rfl, hname⟩ := hv1
        injection h with h
        subst h
        rcases hname with rfl | rfl
        · exact .sha256 version
        · exact .schnorrVerify version
    · split at h
      · next hbip32 =>
          obtain ⟨rfl, rfl⟩ := hbip32
          injection h with h
          subst h
          exact .bip32Derive version
      · split at h
        · next hv2 =>
            obtain ⟨rfl, hname, rfl⟩ := hv2
            injection h with h
            subst h
            rcases hname with rfl | rfl
            · exact .schnorrVerifyV2
            · exact .xonlyTweakCheck
        · cases h
  · intro h
    cases h <;> rfl

theorem signature_iff {ty : FuncType} {expected : Nat} :
    ¬ (ty.params.length ≠ expected ∨ ty.params.any (· ≠ .i32) ∨
        ty.results ≠ [.i32]) ↔
      ty.params = List.replicate expected .i32 ∧ ty.results = [.i32] := by
  rw [not_or, not_or, not_not, not_not, List.eq_replicate_iff]
  simp only [List.any_eq_true, decide_eq_true_eq, not_exists, not_and, ne_eq,
    not_not, and_assoc]

theorem checkImport_ok_iff {version : WasmVersion} {budget : Budget}
    {entry : Import} :
    checkImport version budget entry = .ok () ↔
      ImportOk version budget.functionTypes entry := by
  unfold checkImport ImportOk
  constructor
  · intro h
    split at h
    · cases h
    · next expected hexpected =>
        split at h
        · cases h
        · next index hty =>
            split at h
            · cases h
            · next ty hindex =>
                split at h
                · cases h
                · next hsignature =>
                    exact ⟨expected, index, ty,
                      expectedParams_eq_some_iff.mp hexpected, hty, hindex,
                      signature_iff.mp hsignature⟩
  · rintro ⟨expected, index, ty, hallowed, hty, hindex, hsignature⟩
    simp only [expectedParams_eq_some_iff.mpr hallowed, hty, hindex]
    rw [if_neg (signature_iff.mpr hsignature)]

theorem addTypes_ok_iff {types : List (Except String FuncType)}
    {budget budget' : Budget} :
    addTypes types budget = .ok budget' ↔ AllDecoded types ∧
      budget' = ⟨budget.functionTypes ++ types.filterMap Except.toOption,
        budget.slots⟩ := by
  induction types generalizing budget with
  | nil =>
      rw [addTypes, List.filterMap_nil, List.append_nil]
      constructor
      · intro h
        injection h with h
        exact ⟨fun _ hmem => absurd hmem List.not_mem_nil, h.symm⟩
      · rintro ⟨-, rfl⟩
        rfl
  | cons ty types ih =>
      rw [addTypes, allDecoded_cons]
      cases ty with
      | error text =>
          exact ⟨fun h => (nomatch h), fun ⟨⟨⟨_, h⟩, _⟩, _⟩ => (nomatch h)⟩
      | ok ty =>
          rw [decoded, ok_bind, ih, List.append_assoc]
          simp only [Except.ok.injEq, exists_eq', true_and]
          rfl

theorem checkImports_ok_iff {version : WasmVersion}
    {imports : List (Except String Import)} {budget : Budget} :
    checkImports version imports budget = .ok () ↔ AllDecoded imports ∧
      ∀ entry, .ok entry ∈ imports →
        ImportOk version budget.functionTypes entry := by
  induction imports with
  | nil =>
      exact ⟨fun _ => ⟨fun _ hmem => absurd hmem List.not_mem_nil,
        fun _ hmem => absurd hmem List.not_mem_nil⟩, fun _ => rfl⟩
  | cons entry imports ih =>
      rw [checkImports, allDecoded_cons]
      cases entry with
      | error text =>
          exact ⟨fun h => (nomatch h), fun ⟨⟨⟨_, h⟩, _⟩, _⟩ => (nomatch h)⟩
      | ok entry =>
          rw [decoded, ok_bind]
          constructor
          · intro h
            obtain ⟨u, hentry, h⟩ := bind_ok h
            obtain ⟨hdecoded, hrest⟩ := ih.mp h
            refine ⟨⟨⟨entry, rfl⟩, hdecoded⟩, ?_⟩
            intro x hx
            rcases List.mem_cons.mp hx with hx | hx
            · injection hx with hx
              subst hx
              exact checkImport_ok_iff.mp hentry
            · exact hrest x hx
          · rintro ⟨⟨-, hdecoded⟩, hall⟩
            rw [checkImport_ok_iff.mpr (hall entry List.mem_cons_self), ok_bind]
            exact ih.mpr ⟨hdecoded,
              fun x hx => hall x (List.mem_cons_of_mem _ hx)⟩

theorem addFunctions_ok_iff {functions : List (Except String UInt32)}
    {budget budget' : Budget} (hslots : budget.slots ≤ maxFunctionSlots) :
    addFunctions functions budget = .ok budget' ↔ AllDecoded functions ∧
      (∀ index, .ok index ∈ functions →
        ∃ ty, budget.functionTypes[index.toNat]? = some ty) ∧
      budget.slots + (functions.map (paramsOf budget.functionTypes)).sum
        ≤ maxFunctionSlots ∧
      budget' = ⟨budget.functionTypes, budget.slots +
        (functions.map (paramsOf budget.functionTypes)).sum⟩ := by
  have hmax : maxFunctionSlots = 65536 := rfl
  induction functions generalizing budget budget' with
  | nil =>
      constructor
      · intro h
        injection h with h
        exact ⟨fun _ hmem => absurd hmem List.not_mem_nil,
          fun _ hmem => absurd hmem List.not_mem_nil, hslots, h.symm⟩
      · rintro ⟨-, -, -, rfl⟩
        rfl
  | cons index functions ih =>
      rw [addFunctions, allDecoded_cons, List.map_cons, List.sum_cons]
      cases index with
      | error text =>
          exact ⟨fun h => (nomatch h), fun ⟨⟨⟨_, h⟩, _⟩, _⟩ => (nomatch h)⟩
      | ok index =>
          rw [decoded, ok_bind]
          constructor
          · intro h
            split at h
            · cases h
            · next ty hty =>
                obtain ⟨params, hparams, h⟩ := bind_ok h
                obtain ⟨next, hadd, h⟩ := bind_ok h
                obtain ⟨hle, rfl⟩ := addSlots_ok_iff.mp hadd
                obtain ⟨hdecoded, hknown, hsum, rfl⟩ := (ih hle).mp h
                have hcost : paramsOf budget.functionTypes (.ok index)
                    = params.toNat := by
                  rw [paramsOf, hty, countU32_ok hparams]
                  rfl
                rw [hcost, ← Nat.add_assoc]
                refine ⟨⟨⟨index, rfl⟩, hdecoded⟩, ?_, hsum, rfl⟩
                intro x hx
                rcases List.mem_cons.mp hx with hx | hx
                · injection hx with hx
                  subst hx
                  exact ⟨ty, hty⟩
                · exact hknown x hx
          · rintro ⟨⟨-, hdecoded⟩, hknown, hsum, rfl⟩
            obtain ⟨ty, hty⟩ := hknown index List.mem_cons_self
            have hcost : paramsOf budget.functionTypes (.ok index)
                = ty.params.length := by
              rw [paramsOf, hty]
              rfl
            rw [hcost, ← Nat.add_assoc] at hsum
            have hcount : countU32 ty.params.length
                = .ok (UInt32.ofNat ty.params.length) :=
              countU32_of_lt (by omega)
            have hle : budget.slots + ty.params.length ≤ maxFunctionSlots := by
              omega
            simp only [hty]
            rw [hcount, ok_bind, countU32_ok hcount,
              addSlots_ok_iff.mpr ⟨hle, rfl⟩, ok_bind, hcost, ← Nat.add_assoc]
            exact (ih hle).mpr ⟨hdecoded,
              fun x hx => hknown x (List.mem_cons_of_mem _ hx), hsum, rfl⟩

theorem addLocals_ok_iff {counts : List (Except String UInt32)}
    {budget budget' : Budget} (hslots : budget.slots ≤ maxFunctionSlots) :
    addLocals counts budget = .ok budget' ↔ AllDecoded counts ∧
      budget.slots + (counts.map countOf).sum ≤ maxFunctionSlots ∧
      budget' = ⟨budget.functionTypes,
        budget.slots + (counts.map countOf).sum⟩ := by
  induction counts generalizing budget budget' with
  | nil =>
      constructor
      · intro h
        injection h with h
        exact ⟨fun _ hmem => absurd hmem List.not_mem_nil, hslots, h.symm⟩
      · rintro ⟨-, -, rfl⟩
        rfl
  | cons count counts ih =>
      rw [addLocals, allDecoded_cons, List.map_cons, List.sum_cons]
      cases count with
      | error text =>
          exact ⟨fun h => (nomatch h), fun ⟨⟨⟨_, h⟩, _⟩, _⟩ => (nomatch h)⟩
      | ok count =>
          rw [decoded, ok_bind, countOf, ← Nat.add_assoc]
          constructor
          · intro h
            obtain ⟨next, hadd, h⟩ := bind_ok h
            obtain ⟨hle, rfl⟩ := addSlots_ok_iff.mp hadd
            obtain ⟨hdecoded, hsum, rfl⟩ := (ih hle).mp h
            exact ⟨⟨⟨count, rfl⟩, hdecoded⟩, hsum, rfl⟩
          · rintro ⟨⟨-, hdecoded⟩, hsum, rfl⟩
            have hle : budget.slots + count.toNat ≤ maxFunctionSlots := by
              omega
            rw [addSlots_ok_iff.mpr ⟨hle, rfl⟩, ok_bind]
            exact (ih hle).mpr ⟨hdecoded, hsum, rfl⟩

/-! ## The fold -/

/-- A payload the fold goes past, after the types declared before it. -/
def Fine (version : WasmVersion) (types : List FuncType) : Payload → Prop
  | .importSection imports => AllDecoded imports ∧
      ∀ entry, .ok entry ∈ imports → ImportOk version types entry
  | .functionSection functions => AllDecoded functions ∧
      ∀ index, .ok index ∈ functions → ∃ ty, types[index.toNat]? = some ty
  | .startSection => False
  | payload => payload.Decoded

theorem checkPayload_ok_iff {version : WasmVersion} {budget budget' : Budget}
    {payload : Payload} (hslots : budget.slots ≤ maxFunctionSlots) :
    checkPayload version budget payload = .ok budget' ↔
      Fine version budget.functionTypes payload ∧
      budget.slots + slotsOf budget.functionTypes (.ok payload)
        ≤ maxFunctionSlots ∧
      budget' = ⟨budget.functionTypes ++ typesOf (.ok payload),
        budget.slots + slotsOf budget.functionTypes (.ok payload)⟩ := by
  cases payload with
  | typeSection types =>
      rw [checkPayload, addTypes_ok_iff]
      exact ⟨fun ⟨hdecoded, heq⟩ => ⟨hdecoded, hslots, heq⟩,
        fun ⟨hdecoded, _, heq⟩ => ⟨hdecoded, heq⟩⟩
  | importSection imports =>
      simp only [typesOf, List.append_nil]
      constructor
      · intro h
        obtain ⟨u, himports, h⟩ := bind_ok h
        injection h with h
        subst h
        exact ⟨checkImports_ok_iff.mp himports, hslots, rfl⟩
      · rintro ⟨hfine, -, rfl⟩
        rw [checkPayload, checkImports_ok_iff.mpr hfine]
        rfl
  | functionSection functions =>
      simp only [typesOf, List.append_nil]
      rw [checkPayload, addFunctions_ok_iff hslots, slotsOf, Fine, and_assoc]
  | codeSectionEntry locals =>
      simp only [checkPayload, typesOf, List.append_nil]
      cases locals with
      | error text =>
          exact ⟨fun h => (nomatch h), fun ⟨⟨_, h, _⟩, _⟩ => (nomatch h)⟩
      | ok counts =>
          rw [decoded, ok_bind, addLocals_ok_iff hslots, slotsOf]
          constructor
          · rintro ⟨hdecoded, hsum, heq⟩
            exact ⟨⟨counts, rfl, hdecoded⟩, hsum, heq⟩
          · rintro ⟨⟨counts', hcounts, hdecoded⟩, hsum, heq⟩
            injection hcounts with hcounts
            subst hcounts
            exact ⟨hdecoded, hsum, heq⟩
  | startSection => exact ⟨fun h => (nomatch h), fun h => absurd h.1 id⟩
  | other =>
      simp only [checkPayload, typesOf, List.append_nil]
      constructor
      · intro h
        injection h with h
        subst h
        exact ⟨trivial, hslots, rfl⟩
      · rintro ⟨-, -, rfl⟩
        rfl

/-- The whole fold, from a budget that stands for the payloads before. -/
theorem checkPayloads_ok_iff {version : WasmVersion}
    {payloads : List (Except String Payload)} {budget : Budget}
    {before : List (Except String Payload)}
    (htypes : budget.functionTypes = declaredTypes before)
    (hslots : budget.slots ≤ maxFunctionSlots) :
    checkPayloads version payloads budget = .ok () ↔
      Always (fun done p => ∃ payload, p = .ok payload ∧
        Fine version (declaredTypes (before ++ done)) payload) payloads ∧
      budget.slots + sumAlong
        (fun done p => slotsOf (declaredTypes (before ++ done)) p) payloads
          ≤ maxFunctionSlots := by
  induction payloads generalizing budget before with
  | nil => exact ⟨fun _ => ⟨always_nil _, hslots⟩, fun _ => rfl⟩
  | cons p payloads ih =>
      rw [checkPayloads, always_cons, sumAlong, List.append_nil, ← htypes]
      cases p with
      | error text =>
          exact ⟨fun h => (nomatch h), fun ⟨⟨⟨_, h, _⟩, _⟩, _⟩ => (nomatch h)⟩
      | ok payload =>
          have hnext : declaredTypes (before ++ [.ok payload])
              = budget.functionTypes ++ typesOf (.ok payload) := by
            rw [htypes, declaredTypes, declaredTypes, List.flatMap_append,
              List.flatMap_singleton]
          have hshift : ∀ done, declaredTypes (before ++ .ok payload :: done)
              = declaredTypes ((before ++ [.ok payload]) ++ done) :=
            fun done => congrArg declaredTypes (List.append_cons before _ done)
          simp only [hshift]
          rw [decoded, ok_bind, ← Nat.add_assoc]
          constructor
          · intro h
            obtain ⟨next, hpayload, h⟩ := bind_ok h
            obtain ⟨hfine, hle, rfl⟩ := (checkPayload_ok_iff hslots).mp hpayload
            obtain ⟨hrest, hsum⟩ := (ih hnext.symm hle).mp h
            exact ⟨⟨⟨payload, rfl, hfine⟩, hrest⟩, hsum⟩
          · rintro ⟨⟨⟨payload', hpayload, hfine⟩, hrest⟩, hsum⟩
            injection hpayload with hpayload
            subst hpayload
            have hle : budget.slots +
                slotsOf budget.functionTypes (.ok payload)
                  ≤ maxFunctionSlots := by omega
            rw [(checkPayload_ok_iff hslots).mpr ⟨hfine, hle, rfl⟩, ok_bind]
            exact (ih hnext.symm hle).mpr ⟨hrest, hsum⟩

/-! ## The fold meets the specification -/

/-- What is asked of a payload, taken apart by kind. -/
theorem fine_iff {version : WasmVersion} {types : List FuncType}
    {p : Except String Payload} :
    (∃ payload, p = .ok payload ∧ Fine version types payload) ↔
      (∃ payload, p = .ok payload ∧ payload.Decoded) ∧
      p ≠ .ok .startSection ∧
      (∀ imports entry, p = .ok (.importSection imports) →
        .ok entry ∈ imports → ImportOk version types entry) ∧
      (∀ functions index, p = .ok (.functionSection functions) →
        .ok index ∈ functions → ∃ ty, types[index.toNat]? = some ty) := by
  constructor
  · rintro ⟨payload, rfl, hfine⟩
    refine ⟨⟨payload, rfl, ?_⟩, ?_, ?_, ?_⟩
    · cases payload with
      | importSection imports => exact hfine.1
      | functionSection functions => exact hfine.1
      | startSection => trivial
      | typeSection types => exact hfine
      | codeSectionEntry locals => exact hfine
      | other => exact hfine
    · rintro heq
      injection heq with heq
      subst heq
      exact hfine
    · intro imports entry heq
      injection heq with heq
      subst heq
      exact hfine.2 entry
    · intro functions index heq
      injection heq with heq
      subst heq
      exact hfine.2 index
  · rintro ⟨⟨payload, rfl, hdecoded⟩, hstart, himports, hfunctions⟩
    refine ⟨payload, rfl, ?_⟩
    cases payload with
    | importSection imports =>
        exact ⟨hdecoded, fun entry => himports imports entry rfl⟩
    | functionSection functions =>
        exact ⟨hdecoded, fun index => hfunctions functions index rfl⟩
    | startSection => exact hstart rfl
    | typeSection types => exact hdecoded
    | codeSectionEntry locals => exact hdecoded
    | other => exact hdecoded

theorem budgeted_iff {version : WasmVersion}
    {payloads : List (Except String Payload)} :
    Budgeted version payloads ↔
      Always (fun done p => ∃ payload, p = .ok payload ∧
        Fine version (declaredTypes done) payload) payloads ∧
      totalSlots payloads ≤ maxFunctionSlots := by
  constructor
  · intro h
    refine ⟨?_, h.slots⟩
    intro done p rest heq
    have hmem : p ∈ payloads := by
      rw [heq]
      exact List.mem_append_right done List.mem_cons_self
    exact fine_iff.mpr ⟨h.decoded p hmem, fun hstart => h.noStart (hstart ▸ hmem),
      h.imports done p rest heq, h.functions done p rest heq⟩
  · rintro ⟨hfine, hslots⟩
    have hsplit : ∀ p ∈ payloads, ∃ done rest, payloads = done ++ p :: rest :=
      fun p hmem => List.append_of_mem hmem
    refine ⟨?_, ?_, ?_, ?_, hslots⟩
    · intro p hmem
      obtain ⟨done, rest, heq⟩ := hsplit p hmem
      exact (fine_iff.mp (hfine done p rest heq)).1
    · intro hmem
      obtain ⟨done, rest, heq⟩ := hsplit _ hmem
      exact (fine_iff.mp (hfine done _ rest heq)).2.1 rfl
    · intro done p rest heq
      exact (fine_iff.mp (hfine done p rest heq)).2.2.1
    · intro done p rest heq
      exact (fine_iff.mp (hfine done p rest heq)).2.2.2

/-- The budget check accepts exactly the budgeted sequences of payloads,
whatever the parser answers for a module. -/
theorem compilation_budget_exact (version : WasmVersion) :
    (∀ payloads, checkPayloads version payloads ⟨[], 0⟩ = .ok () ↔
      Budgeted version payloads) ∧
    (∀ (T : Types) (C : Crates T) (module : Bytes),
      checkCompilationBudget C version module = .ok () ↔
        Budgeted version (C.parseAll module)) := by
  have hfold : ∀ payloads, checkPayloads version payloads ⟨[], 0⟩ = .ok () ↔
      Budgeted version payloads := by
    intro payloads
    have hempty : (⟨[], 0⟩ : Budget).functionTypes = declaredTypes [] := rfl
    rw [checkPayloads_ok_iff hempty (Nat.zero_le _), budgeted_iff,
      totalSlots]
    simp only [List.nil_append, Nat.zero_add]
  exact ⟨hfold, fun T C module => hfold (C.parseAll module)⟩

end SapioTee
